import FoxyServer.Config.Comments

/-!
This module contains the texts on which the parser takes an element from an empty stack. A block that is
closed without being open empties the stack; what the next token is decides whether anything comes of it.
-/

namespace Foxy

namespace NginxConfigParser

/--
Behind complete statements at the top level, one at least, there is a closing brace and then a token, a
closing brace or the end of the file.
-/
def Overcloses (toks : List Token) : Prop :=
  ∃ done closing next rest config,
    significant toks = done ++ closing :: next :: rest
      ∧ Derives (terminals done) config ∧ config ≠ [] ∧ closing.1 = .endBlock
      ∧ (next.1 = .normal ∨ next.1 = .endBlock ∨ next.1 = .eof)

def Reading.Overcloses (r : Reading) (toks : List Token) : Prop :=
  ∃ done closing next rest config,
    toks = done ++ closing :: next :: rest
      ∧ r.readAll (terminals done) = some { done := config } ∧ config ≠ [] ∧ closing.1 = .endBlock
      ∧ (next.1 = .normal ∨ next.1 = .endBlock ∨ next.1 = .eof)

theorem overcloses_iff (toks : List Token)
    : Overcloses toks ↔ Reading.Overcloses {} (significant toks) := by
  have hread (ts : List Terminal) (config : NginxConfig)
      : Derives ts config ↔ Reading.readAll {} ts = some { done := config } := by
    constructor
    . intro h
      rw [Reading.readAll_of_derives h]
      rfl
    . intro h
      rw [← Reading.accept_eq_some_iff, Reading.accept, h]
      rfl
  simp only [Overcloses, Reading.Overcloses, hread]

namespace Reading

theorem done_of_read {r r' : Reading} {t : Terminal} (h : r.read t = some r') (houter : r'.outer = [])
    (htokens : r'.tokens = []) : r'.done ≠ [] := by
  cases t with
  | normal value =>
    simp only [read, Option.some.injEq] at h
    simp [← h] at htokens
  | statementEnd =>
    rw [read] at h
    split_ifs at h
    simp only [Option.some.injEq] at h
    simp [← h]
  | startBlock =>
    rw [read] at h
    split_ifs at h
    simp only [Option.some.injEq] at h
    simp [← h] at houter
  | endBlock =>
    rcases r with ⟨_ | ⟨block, outer⟩, done, _ | ⟨value, values⟩⟩ <;> simp [read] at h
    simp [← h]

theorem overcloses_singleton (r : Reading) (token : Token) : ¬r.Overcloses [token] := by
  rintro ⟨done, closing, next, rest, config, htoks, -⟩
  have hlength := congrArg List.length htoks
  simp at hlength
  omega

theorem overcloses_cons {r : Reading} {token : Token} {t : Terminal} (ht : terminal? token = some t)
    {toks : List Token}
    : r.Overcloses (token :: toks)
        ↔
      (∃ next rest, token.1 = .endBlock ∧ r.outer = [] ∧ r.tokens = [] ∧ r.done ≠ []
          ∧ toks = next :: rest ∧ (next.1 = .normal ∨ next.1 = .endBlock ∨ next.1 = .eof))
        ∨ ∃ r', r.read t = some r' ∧ r'.Overcloses toks := by
  constructor
  . rintro ⟨done, closing, next, rest, config, htoks, hread, hne, hclosing, hnext⟩
    cases done with
    | nil =>
      rw [List.nil_append, List.cons.injEq] at htoks
      simp only [terminals, List.filterMap_nil, readAll, Option.some.injEq] at hread
      subst hread
      exact .inl ⟨next, rest, htoks.1 ▸ hclosing, rfl, rfl, hne, htoks.2, hnext⟩
    | cons first done =>
      rw [List.cons_append, List.cons.injEq] at htoks
      rcases htoks with ⟨rfl, rfl⟩
      rw [terminals_cons_of_some ht, readAll, Option.bind_eq_some_iff] at hread
      rcases hread with ⟨r', hr', hread⟩
      exact .inr ⟨r', hr', done, closing, next, rest, config, rfl, hread, hne, hclosing, hnext⟩
  . rintro (⟨next, rest, hclosing, houter, htokens, hne, rfl, hnext⟩
      | ⟨r', hr', done, closing, next, rest, config, rfl, hread, hne, hclosing, hnext⟩)
    . refine ⟨[], token, next, rest, r.done, rfl, ?_, hne, hclosing, hnext⟩
      rcases r with ⟨outer, done, tokens⟩
      simp only at houter htokens
      rw [houter, htokens]
      rfl
    . refine ⟨token :: done, closing, next, rest, config, rfl, ?_, hne, hclosing, hnext⟩
      rw [terminals_cons_of_some ht, readAll, hr']
      exact hread

end Reading

/-! ## Runs that empty the stack -/

theorem loop_of_emptied {fuel : Nat} {st : ParseState} {out : Outcome (Bool × NginxConfig)}
    (hstack : st.configStack = []) (hlast : st.lastTokenType = .endBlock)
    (h : Pass.loop parseStep fuel st = some out)
    : out.Returns
        ↔
      ¬∃ next rest, significant (tokens st.input) = next :: rest
        ∧ (next.1 = .normal ∨ next.1 = .endBlock ∨ next.1 = .eof) := by
  induction fuel generalizing st with
  | zero => cases h
  | succ fuel ih =>
    by_cases hcomment : (parseToken st.input).1.1 = .comment
    . rw [loop_comment hcomment] at h
      rw [significant_of_comment hcomment]
      exact @ih { st with input := (parseToken st.input).2 } hstack hlast h
    . have hstart := parseToken_ne_start st.input
      simp only [significant_of_ne_comment hcomment, List.cons.injEq, ↓existsAndEq, true_and]
      rw [Pass.loop, parseStep] at h
      generalize htype : (parseToken st.input).1.1 = tokenType at h hstart hcomment
      cases tokenType with
      | start => exact absurd rfl hstart
      | comment => exact absurd rfl hcomment
      | normal | startBlock | endBlock | statementEnd | eof | error =>
        simp only [handleToken, hstack, hlast, ParseState.top, ParseState.pop, ne_eq, reduceCtorEq,
          not_false_eq_true, not_true_eq_false, or_true, true_or, and_true, and_false, if_true, if_false,
          Outcome.undefined_bind, Option.some.injEq] at h
        simp [← h]

def Fresh (st : ParseState) (r : Reading) : Prop :=
  r.outer = [] → r.tokens = [] → (st.lastTokenType = .start ↔ r.done = [])

theorem fresh_of_read {st st' : ParseState} {r r' : Reading} {token : Token} {t : Terminal}
    (ht : terminal? token = some t) (hread : r.read t = some r')
    (h : handleToken token.1 token.2 st = .ok (.again st')) : Fresh st' r' := by
  intro houter htokens
  have hdone := Reading.done_of_read hread houter htokens
  rcases (handleToken_again h).2 with ⟨hcomment, -⟩ | ⟨-, hlast⟩
  . simp [terminal?, hcomment] at ht
  . have hstart : token.1 ≠ .start := by
      intro heq
      simp [terminal?, heq] at ht
    simp [hlast, hstart, hdone]

theorem handleToken_stuck {st : ParseState} {r : Reading} (hrep : Represents st r) (hfresh : Fresh st r)
    {token : Token} {t : Terminal} (ht : terminal? token = some t) (hread : r.read t = none)
    : (token.1 = .endBlock ∧ r.outer = [] ∧ r.tokens = [] ∧ r.done ≠ []
          ∧ ∃ st', handleToken token.1 token.2 st = .ok (.again st') ∧ st'.input = st.input
            ∧ st'.configStack = [] ∧ st'.lastTokenType = .endBlock)
        ∨ ¬(token.1 = .endBlock ∧ r.outer = [] ∧ r.tokens = [] ∧ r.done ≠ [])
          ∧ handleToken token.1 token.2 st = .ok (.leave (false, st.config)) := by
  rcases token with ⟨tokenType, value⟩
  cases tokenType with
  | start | comment | eof | error => cases ht
  | normal =>
    simp only [terminal?, Option.some.injEq] at ht
    subst ht
    cases hread
  | statementEnd =>
    simp only [terminal?, Option.some.injEq] at ht
    subst ht
    by_cases htokens : r.tokens = []
    . exact .inr ⟨by simp, by simp [handleToken, hrep.last_ne_normal htokens]⟩
    . simp [Reading.read, htokens] at hread
  | startBlock =>
    simp only [terminal?, Option.some.injEq] at ht
    subst ht
    by_cases htokens : r.tokens = []
    . exact .inr ⟨by simp, by simp [handleToken, hrep.last_ne_normal htokens]⟩
    . simp [Reading.read, htokens] at hread
  | endBlock =>
    simp only [terminal?, Option.some.injEq] at ht
    subst ht
    rcases r with ⟨_ | ⟨block, outer⟩, done, _ | ⟨value', values⟩⟩
    . have hlast := hrep.last
      have hfresh := hfresh rfl rfl
      simp only [LastToken, if_true, ne_eq, not_true_eq_false, and_false, and_true, false_or] at hlast hfresh
      by_cases hstart : st.lastTokenType = .start
      . exact .inr ⟨by simp [hfresh.mp hstart], by simp [handleToken, hstart]⟩
      -- nothing is open, but the last token is one that a closing brace may follow
      . refine .inl ⟨rfl, rfl, rfl, fun hdone => hstart (hfresh.mpr hdone), ?_⟩
        rcases hlast with hlast | hlast | hlast
        . simp [handleToken, hlast, pop_of_stackOf hrep.configStack, stackOf]
        . simp [handleToken, hlast, pop_of_stackOf hrep.configStack, stackOf]
        . exact absurd hlast hstart
    . exact .inr ⟨by simp, by simp [handleToken, hrep.last_eq_normal (List.cons_ne_nil _ _)]⟩
    . cases hread
    . exact .inr ⟨by simp, by simp [handleToken, hrep.last_eq_normal (List.cons_ne_nil _ _)]⟩

/-- By induction on the passes: a run returns unless the tokens still to come close too much. -/
theorem loop_returns_iff {fuel : Nat} {st : ParseState} {r : Reading} {out : Outcome (Bool × NginxConfig)}
    (hrep : Represents st r) (hfresh : Fresh st r) (h : Pass.loop parseStep fuel st = some out)
    : out.Returns ↔ ¬r.Overcloses (significant (tokens st.input)) := by
  induction fuel generalizing st r with
  | zero => cases h
  | succ fuel ih =>
    have hrep' (input : Bytes) : Represents { st with input } r :=
      ⟨hrep.config, hrep.configStack, hrep.last⟩
    by_cases hcomment : (parseToken st.input).1.1 = .comment
    . rw [loop_comment hcomment] at h
      rw [significant_of_comment hcomment]
      exact @ih { st with input := (parseToken st.input).2 } r (hrep' _) hfresh h
    have hloop := h
    rw [significant_of_ne_comment hcomment]
    rw [Pass.loop, parseStep] at h
    generalize htoken : (parseToken st.input).1 = token at h hcomment
    generalize (parseToken st.input).2 = input at h
    cases ht : terminal? token with
    | some t =>
      -- the reader takes it as a terminal, so the text goes on behind it
      have hgoesOn : ¬(token.1 = .eof ∨ token.1 = .error) := by
        rintro (heq | heq) <;> simp [terminal?, heq] at ht
      rw [if_neg hgoesOn, Reading.overcloses_cons ht]
      cases hread : r.read t with
      | some r' =>
        rcases (handleToken_read (hrep' input) ht).1 r' hread with ⟨st', hagain, hinput, hrep1⟩
        rw [hagain] at h
        have hclosed : ¬(token.1 = .endBlock ∧ r.outer = [] ∧ r.tokens = []) := by
          rintro ⟨hend, houter, htokens⟩
          simp only [terminal?, hend, Option.some.injEq] at ht
          rcases r with ⟨outer, done, tokens⟩
          simp only at houter htokens
          simp [← ht, houter, htokens, Reading.read] at hread
        simp only at hinput
        rw [ih hrep1 (fresh_of_read ht hread hagain) h, hinput]
        apply not_congr
        constructor
        . exact fun hover => .inr ⟨r', rfl, hover⟩
        . rintro (⟨next, rest, hend, houter, htokens, -⟩ | ⟨r', hr', hover⟩)
          . exact absurd ⟨hend, houter, htokens⟩ hclosed
          . rw [Option.some.injEq] at hr'
            exact hr' ▸ hover
      | none =>
        simp only [reduceCtorEq, false_and, exists_false, or_false]
        rcases handleToken_stuck (hrep' input) hfresh ht hread
          with ⟨hend, houter, htokens, hne, st', hagain, hinput, hempty, hlast⟩ | ⟨hother, hleave⟩
        -- the brace pops the outermost config, and the next token that needs the top finds none
        . rw [hagain] at h
          simp only at hinput
          rw [loop_of_emptied hempty hlast h, hinput]
          simp [hend, houter, htokens, hne]
        . rw [hleave] at h
          simp only [Option.some.injEq] at h
          rw [← h, iff_true_left (Outcome.returns_ok _)]
          rintro ⟨next, rest, hend, houter, htokens, hne, -⟩
          exact hother ⟨hend, houter, htokens, hne⟩
    | none =>
      rcases token with ⟨tokenType, value⟩
      have hstart := parseToken_ne_start st.input
      rw [htoken] at hstart
      cases tokenType with
      | normal | startBlock | endBlock | statementEnd => cases ht
      | start => exact absurd rfl hstart
      | comment => exact absurd rfl hcomment
      | error =>
        simp only [handleToken, Option.some.injEq] at h
        simp [← h, Reading.overcloses_singleton]
      | eof =>
        rw [if_pos (.inl rfl), iff_true_right (Reading.overcloses_singleton r _)]
        rcases loop_of_eof hrep (by rw [htoken]) hloop with ⟨haccepts, hrejects⟩
        cases hresult : r.result? with
        | some config => exact ⟨_, haccepts config hresult⟩
        | none =>
          rcases hrejects hresult with ⟨config, hout⟩
          exact ⟨_, hout⟩

/-! ## Accepted texts close what they open -/

theorem Reading.outer_length_of_readAll {r r' : Reading} {toks : List Token}
    (h : r.readAll (terminals toks) = some r')
    : r.outer.length + toks.countP (fun token => token.1 = .startBlock)
        =
      r'.outer.length + toks.countP (fun token => token.1 = .endBlock) := by
  induction toks generalizing r with
  | nil =>
    simp only [terminals, List.filterMap_nil, readAll, Option.some.injEq] at h
    simp [h]
  | cons token toks ih =>
    simp only [List.countP_cons, decide_eq_true_eq]
    cases ht : terminal? token with
    | some t =>
      rw [terminals_cons_of_some ht, readAll, Option.bind_eq_some_iff] at h
      rcases h with ⟨r1, hr1, h⟩
      have hfirst := outer_length_of_read ht hr1
      have hrest := ih h
      omega
    | none =>
      have hstart : token.1 ≠ .startBlock := fun heq => by simp [terminal?, heq] at ht
      have hend : token.1 ≠ .endBlock := fun heq => by simp [terminal?, heq] at ht
      rw [terminals_cons_of_none ht] at h
      rw [if_neg hstart, if_neg hend]
      exact ih h

theorem closesAtMost_of_derives {toks : List Token} {config : NginxConfig}
    (h : Derives (terminals toks) config) : ClosesAtMost 0 toks := by
  intro pre hpre
  rw [List.mem_inits] at hpre
  rcases hpre with ⟨post, rfl⟩
  have hread := Reading.readAll_of_derives h [] []
  rw [terminals_append, Reading.readAll_append, Option.bind_eq_some_iff] at hread
  rcases hread with ⟨r, hr, -⟩
  have hlength := Reading.outer_length_of_readAll hr
  simp only [List.length_nil] at hlength
  omega

/--
`Parse` never takes from an empty stack, and it returns false when more blocks are closed than opened, if and
only if no closing brace that is too much follows complete statements at the top level and is itself followed
by a token, a closing brace or the end of the file.
-/
theorem parse_safe_iff (input : Bytes)
    : (∃ verdict tree, parse input [] = some (.ok (verdict, tree))
          ∧ (¬ClosesAtMost 0 (tokens input) → verdict = false))
        ↔
      ¬Overcloses (tokens input) := by
  rcases parse_terminates input [] with ⟨out, hout⟩
  have hparse : parse input [] = some out := hout _ le_rfl
  have hfresh : Fresh { input, config := [] } {} := by
    intro _ _
    simp
  have hreturns := loop_returns_iff (represents_start input) hfresh hparse
  rw [overcloses_iff, ← hreturns, hparse]
  constructor
  . rintro ⟨verdict, tree, h, -⟩
    exact ⟨_, Option.some.inj h⟩
  . rintro ⟨⟨verdict, tree⟩, rfl⟩
    refine ⟨verdict, tree, rfl, fun hcloses => ?_⟩
    cases verdict with
    | false => rfl
    | true => exact absurd (closesAtMost_of_derives ((parse_accepts_iff input tree).mp hparse).2) hcloses

/-- A closing brace too much at the end of a file. -/
theorem parse_overclosed
    : ¬ClosesAtMost 0 (tokens (Bytes.lit "listen 80;\n\x7d\n"))
        ∧ parse (Bytes.lit "listen 80;\n\x7d\n") [] = some .undefined :=
  ⟨by decide, by rfl⟩

end NginxConfigParser

end Foxy
