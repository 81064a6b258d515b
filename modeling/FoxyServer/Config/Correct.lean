import FoxyServer.Config.Grammar
import FoxyServer.Config.Parser

/-!
This module contains the proof that the config parser accepts exactly the derivable token sequences and
builds their derivation trees. The stack of pointers always points along the last statements of the tree,
so that the tree and the stack together are a reading of the tokens so far.
-/

namespace Foxy

namespace NginxConfigParser

/-! ## Pointers to the open blocks -/

def plug : List (NginxConfig × List Bytes) → NginxConfig → NginxConfig
  | [], config => config
  | (before, tokens) :: outer, config => plug outer (before ++ [⟨tokens, some config⟩])

def ptrTo : List (NginxConfig × List Bytes) → ConfigPtr
  | [] => []
  | (before, _) :: outer => ptrTo outer ++ [before.length]

def stackOf : List (NginxConfig × List Bytes) → List ConfigPtr
  | [] => [[]]
  | block :: outer => ptrTo (block :: outer) :: stackOf outer

theorem modifyAt_append (f : NginxConfig → Outcome NginxConfig) (config : NginxConfig)
    (ptr ptr' : ConfigPtr)
    : modifyAt f config (ptr ++ ptr')
        =
      modifyAt (fun childBlock => modifyAt f childBlock ptr') config ptr := by
  induction ptr generalizing config with
  | nil => rfl
  | cons i ptr ih =>
    rw [List.cons_append, modifyAt, modifyAt]
    split
    . rw [ih]
    . rfl

theorem modifyAt_plug (f : NginxConfig → Outcome NginxConfig)
    (outer : List (NginxConfig × List Bytes)) (config : NginxConfig)
    : modifyAt f (plug outer config) (ptrTo outer)
        =
      (f config >>= fun config => .ok (plug outer config)) := by
  induction outer generalizing f config with
  | nil =>
    rw [plug, ptrTo, modifyAt]
    cases f config <;> rfl
  | cons block outer ih =>
    rcases block with ⟨before, tokens⟩
    rw [plug, ptrTo, modifyAt_append, ih, modifyAt]
    simp only [List.getElem?_concat_length, modifyAt]
    cases f config with
    | ok config => simp [plug]
    | throws e => rfl
    | undefined => rfl

theorem deref_append (config : NginxConfig) (ptr ptr' : ConfigPtr)
    : deref config (ptr ++ ptr') = (deref config ptr >>= fun childBlock => deref childBlock ptr') := by
  induction ptr generalizing config with
  | nil => rfl
  | cons i ptr ih =>
    rw [List.cons_append, deref, deref]
    split
    . rw [ih]
    . rfl

theorem deref_plug (outer : List (NginxConfig × List Bytes)) (config : NginxConfig)
    : deref (plug outer config) (ptrTo outer) = .ok config := by
  induction outer generalizing config with
  | nil => rfl
  | cons block outer ih =>
    rcases block with ⟨before, tokens⟩
    rw [plug, ptrTo, deref_append, ih, Outcome.ok_bind, deref]
    simp [deref]

@[simp]
theorem modifyBack_append (f : NginxConfigStatement → NginxConfigStatement) (config : NginxConfig)
    (statement : NginxConfigStatement)
    : modifyBack f (config ++ [statement]) = .ok (config ++ [f statement]) := by
  simp [modifyBack]

theorem top_of_stackOf {st : ParseState} {outer : List (NginxConfig × List Bytes)}
    (h : st.configStack = stackOf outer) : st.top = .ok (ptrTo outer) := by
  cases outer with
  | nil => simp [ParseState.top, h, stackOf, ptrTo]
  | cons block outer => simp [ParseState.top, h, stackOf]

theorem pop_of_stackOf {st : ParseState} {outer : List (NginxConfig × List Bytes)}
    (h : st.configStack = stackOf outer)
    : st.pop = .ok { st with configStack := (stackOf outer).tail } := by
  cases outer <;> simp [ParseState.pop, h, stackOf]

theorem stackOf_ne_nil (outer : List (NginxConfig × List Bytes)) : stackOf outer ≠ [] := by
  cases outer <;> simp [stackOf]

/-! ## States that represent a reading -/

def openStatement (tokens : List Bytes) : NginxConfig :=
  if tokens = [] then [] else [⟨tokens, none⟩]

def LastToken (last : TokenType) (r : Reading) : Prop :=
  if r.tokens = [] then
    last = .statementEnd ∨ last = .endBlock ∨ (last = .startBlock ∧ r.outer ≠ [])
      ∨ (last = .start ∧ r.outer = [])
  else
    last = .normal

structure Represents (st : ParseState) (r : Reading) : Prop where
  config : st.config = plug r.outer (r.done ++ openStatement r.tokens)
  configStack : st.configStack = stackOf r.outer
  last : LastToken st.lastTokenType r

theorem represents_start (input : Bytes) : Represents { input, config := [] } {} where
  config := rfl
  configStack := rfl
  last := by simp [LastToken]

theorem Represents.last_ne_normal {st : ParseState} {r : Reading} (h : Represents st r)
    (htokens : r.tokens = []) : st.lastTokenType ≠ .normal := by
  have hlast := h.last
  rw [LastToken, if_pos htokens] at hlast
  intro heq
  simp [heq] at hlast

theorem Represents.last_eq_normal {st : ParseState} {r : Reading} (h : Represents st r)
    (htokens : r.tokens ≠ []) : st.lastTokenType = .normal := by
  have hlast := h.last
  rwa [LastToken, if_neg htokens] at hlast

theorem handleToken_normal {st : ParseState} {r : Reading} (h : Represents st r) (value : Bytes)
    : ∃ st', handleToken .normal value st = .ok (.again st') ∧ st'.input = st.input
        ∧ Represents st' { r with tokens := r.tokens ++ [value] } := by
  have hlast := h.last
  rw [LastToken] at hlast
  have hallowed : st.lastTokenType = .start ∨ st.lastTokenType = .statementEnd
      ∨ st.lastTokenType = .startBlock ∨ st.lastTokenType = .endBlock ∨ st.lastTokenType = .normal := by
    split_ifs at hlast <;> tauto
  rw [handleToken, if_pos hallowed]
  simp only [top_of_stackOf h.configStack, Outcome.ok_bind, h.config]
  by_cases htokens : r.tokens = []
  . rw [if_pos (h.last_ne_normal htokens), modifyAt_plug, Outcome.ok_bind, Outcome.ok_bind, modifyAt_plug]
    simp only [openStatement, htokens, if_true, List.append_nil, modifyBack_append, Outcome.ok_bind,
      List.nil_append]
    exact ⟨_, rfl, rfl, by simp [openStatement], h.configStack, by simp [LastToken]⟩
  . rw [if_neg (not_not.mpr (h.last_eq_normal htokens)), Outcome.ok_bind, modifyAt_plug]
    simp only [openStatement, htokens, if_false, modifyBack_append, Outcome.ok_bind]
    exact ⟨_, rfl, rfl, by simp [openStatement], h.configStack, by simp [LastToken]⟩

/--
The parser makes the step of the reader where the reader makes one, and otherwise reports an error, or
pops the outermost config when no block is open.
-/
theorem handleToken_read {st : ParseState} {r : Reading} (h : Represents st r) {token : Token}
    {t : Terminal} (ht : terminal? token = some t)
    : (∀ r', r.read t = some r' →
          ∃ st', handleToken token.1 token.2 st = .ok (.again st') ∧ st'.input = st.input
            ∧ Represents st' r')
        ∧ (r.read t = none →
            handleToken token.1 token.2 st = .ok (.leave (false, st.config))
              ∨ token.1 = .endBlock ∧ r.outer = []
                  ∧ ∃ st', handleToken token.1 token.2 st = .ok (.again st')
                      ∧ st'.configStack = [] ∧ st'.lastTokenType = .endBlock) := by
  rcases token with ⟨tokenType, value⟩
  cases tokenType with
  | start => cases ht
  | comment => cases ht
  | eof => cases ht
  | error => cases ht
  | normal =>
    simp only [terminal?, Option.some.injEq] at ht
    subst ht
    simp only [Reading.read, Option.some.injEq, reduceCtorEq, false_implies, and_true]
    rintro r' rfl
    exact handleToken_normal h value
  | statementEnd =>
    simp only [terminal?, Option.some.injEq] at ht
    subst ht
    by_cases htokens : r.tokens = []
    . simp [Reading.read, htokens, handleToken, h.last_ne_normal htokens]
    . simp only [Reading.read, htokens, if_false, Option.some.injEq, reduceCtorEq, false_implies,
        and_true, handleToken, h.last_eq_normal htokens, ne_eq, not_true_eq_false]
      rintro r' rfl
      refine ⟨_, rfl, rfl, ?_, h.configStack, by simp [LastToken]⟩
      simp [h.config, openStatement, htokens]
  | startBlock =>
    simp only [terminal?, Option.some.injEq] at ht
    subst ht
    by_cases htokens : r.tokens = []
    . simp [Reading.read, htokens, handleToken, h.last_ne_normal htokens]
    . simp only [Reading.read, htokens, if_false, Option.some.injEq, reduceCtorEq, false_implies,
        and_true, handleToken, h.last_eq_normal htokens, ne_eq, not_true_eq_false, top_of_stackOf h.configStack,
        Outcome.ok_bind, h.config, deref_plug, modifyAt_plug, openStatement, modifyBack_append]
      rintro r' rfl
      refine ⟨_, rfl, rfl, ?_, ?_, by simp [LastToken]⟩
      . simp [plug, openStatement]
      . simp [stackOf, ptrTo, h.configStack]
  | endBlock =>
    simp only [terminal?, Option.some.injEq] at ht
    subst ht
    rcases r with ⟨outer, done, _ | ⟨value', values⟩⟩
    . rcases outer with _ | ⟨⟨before, tokens⟩, outer⟩
      . simp only [Reading.read, reduceCtorEq, false_implies, implies_true, true_and, forall_const,
          handleToken, pop_of_stackOf h.configStack, Outcome.ok_bind, stackOf, List.tail_cons]
        split_ifs with hallowed
        . exact .inl rfl
        . exact .inr ⟨_, rfl, rfl, rfl⟩
      -- no statement has been begun in the block, so what came last is a `;` or a brace
      . have hallowed : ¬(st.lastTokenType ≠ .statementEnd ∧ st.lastTokenType ≠ .startBlock
            ∧ st.lastTokenType ≠ .endBlock) := by
          have hlast := h.last
          simp only [LastToken, if_true, reduceCtorEq, and_false, or_false] at hlast
          tauto
        simp only [Reading.read, Option.some.injEq, reduceCtorEq, false_implies, and_true, handleToken,
          hallowed, if_false, pop_of_stackOf h.configStack, Outcome.ok_bind, stackOf, List.tail_cons]
        rintro r' rfl
        refine ⟨_, rfl, rfl, ?_, rfl, by simp [LastToken]⟩
        simp [h.config, plug, openStatement]
    . simp [Reading.read, handleToken, h.last_eq_normal (List.cons_ne_nil _ _)]

theorem handleToken_eof {st : ParseState} {r : Reading} (h : Represents st r) (value : Bytes)
    : (∀ config, r.result? = some config →
          handleToken .eof value st = .ok (.leave (true, config)))
        ∧ (r.result? = none →
            handleToken .eof value st = .ok (.leave (false, st.config))
              ∨ ∃ st', handleToken .eof value st = .ok (.again st') ∧ st'.lastTokenType = .eof) := by
  rcases r with ⟨outer, done, _ | ⟨value', values⟩⟩
  . cases outer with
    | nil =>
      have hallowed : ¬(st.lastTokenType ≠ .statementEnd ∧ st.lastTokenType ≠ .endBlock
          ∧ st.lastTokenType ≠ .start ∧ st.lastTokenType ≠ .comment) := by
        have hlast := h.last
        simp only [LastToken, if_true] at hlast
        tauto
      simp [handleToken, hallowed, pop_of_stackOf h.configStack, stackOf, Reading.result?, h.config, plug,
        openStatement]
    | cons block outer =>
      simp only [Reading.result?, reduceCtorEq, false_implies, implies_true, true_and, forall_const,
        handleToken, pop_of_stackOf h.configStack, Outcome.ok_bind, stackOf, List.tail_cons,
        stackOf_ne_nil, if_false]
      split_ifs
      . exact .inl rfl
      . exact .inr ⟨_, rfl, rfl⟩
  . have hlast := h.last_eq_normal (List.cons_ne_nil _ _)
    cases outer <;> simp [Reading.result?, handleToken, hlast]

/-! ## States that can no longer accept -/

theorem loop_of_last_eof {fuel : Nat} {st : ParseState} {out : Outcome (Bool × NginxConfig)}
    (hlast : st.lastTokenType = .eof) (h : Pass.loop parseStep fuel st = some out)
    : ∃ config, out = .ok (false, config) := by
  induction fuel generalizing st with
  | zero => cases h
  | succ fuel ih =>
    rw [Pass.loop, parseStep] at h
    generalize (parseToken st.input).1.1 = tokenType at h
    cases tokenType with
    | comment =>
      refine ih ?_ h
      exact hlast
    | start | normal | startBlock | endBlock | statementEnd | eof | error =>
      simp only [handleToken, hlast, ne_eq, reduceCtorEq, not_false_eq_true, or_self, and_self, if_true,
        if_false, Option.some.injEq] at h
      exact ⟨_, h.symm⟩

theorem loop_of_eof {fuel : Nat} {st : ParseState} {r : Reading} {out : Outcome (Bool × NginxConfig)}
    (hrep : Represents st r) (heof : (parseToken st.input).1.1 = .eof)
    (h : Pass.loop parseStep fuel st = some out)
    : (∀ config, r.result? = some config → out = .ok (true, config))
        ∧ (r.result? = none → ∃ config, out = .ok (false, config)) := by
  cases fuel with
  | zero => cases h
  | succ fuel =>
    rw [Pass.loop, parseStep] at h
    simp only [heof] at h
    rcases @handleToken_eof { st with input := (parseToken st.input).2 } r
      ⟨hrep.config, hrep.configStack, hrep.last⟩ (parseToken st.input).1.2 with ⟨haccepts, hrejects⟩
    constructor
    . intro config hresult
      rw [haccepts config hresult] at h
      exact (Option.some.inj h).symm
    . intro hresult
      rcases hrejects hresult with hleave | ⟨st', hagain, hlast⟩
      . rw [hleave] at h
        exact ⟨_, (Option.some.inj h).symm⟩
      . rw [hagain] at h
        exact loop_of_last_eof hlast h

theorem loop_of_configStack_nil {fuel : Nat} {st : ParseState} {out : Outcome (Bool × NginxConfig)}
    (hstack : st.configStack = []) (hlast : st.lastTokenType = .endBlock)
    (h : Pass.loop parseStep fuel st = some out) (config : NginxConfig) : out ≠ .ok (true, config) := by
  induction fuel generalizing st with
  | zero => cases h
  | succ fuel ih =>
    rw [Pass.loop, parseStep] at h
    generalize (parseToken st.input).1.1 = tokenType at h
    cases tokenType with
    | comment =>
      refine ih ?_ ?_ h
      . exact hstack
      . exact hlast
    | start | normal | startBlock | endBlock | statementEnd | eof | error =>
      simp only [handleToken, hstack, hlast, ParseState.top, ParseState.pop, ne_eq, reduceCtorEq,
        not_false_eq_true, not_true_eq_false, or_true, true_or, and_true, and_false, if_true, if_false,
        Outcome.undefined_bind, Option.some.injEq] at h
      simp [← h]

/-! ## Whole runs -/

def ClosesAtMost (depth : Nat) (tokens : List Token) : Prop :=
  ∀ pre ∈ tokens.inits,
    pre.countP (fun token => token.1 = .endBlock)
      ≤ depth + pre.countP (fun token => token.1 = .startBlock)

instance (depth : Nat) (tokens : List Token) : Decidable (ClosesAtMost depth tokens) :=
  inferInstanceAs (Decidable (∀ _ ∈ _, _))

theorem ClosesAtMost.tail {depth depth' : Nat} {token : Token} {tokens : List Token}
    (h : ClosesAtMost depth (token :: tokens))
    (hdepth : depth + (if token.1 = .startBlock then 1 else 0)
      ≤ depth' + (if token.1 = .endBlock then 1 else 0))
    : ClosesAtMost depth' tokens := by
  intro pre hpre
  have hcons := h (token :: pre) (by simpa using hpre)
  simp only [List.countP_cons, decide_eq_true_eq] at hcons
  omega

def NoError (tokens : List Token) : Prop :=
  ∀ token ∈ tokens, token.1 ≠ .error

instance (tokens : List Token) : Decidable (NoError tokens) :=
  inferInstanceAs (Decidable (∀ _ ∈ _, _))

@[simp]
theorem noError_nil : NoError [] := by simp [NoError]

@[simp]
theorem noError_cons_iff {token : Token} {toks : List Token}
    : NoError (token :: toks) ↔ token.1 ≠ .error ∧ NoError toks := by
  simp [NoError]

@[simp]
theorem noError_append_iff {toks toks' : List Token}
    : NoError (toks ++ toks') ↔ NoError toks ∧ NoError toks' := by
  simp only [NoError, List.mem_append, or_imp, forall_and]

theorem Reading.outer_length_of_read {r r' : Reading} {token : Token} {t : Terminal}
    (ht : terminal? token = some t) (h : r.read t = some r')
    : r.outer.length + (if token.1 = .startBlock then 1 else 0)
        =
      r'.outer.length + (if token.1 = .endBlock then 1 else 0) := by
  rcases token with ⟨tokenType, value⟩
  cases tokenType <;> simp only [terminal?, reduceCtorEq, Option.some.injEq] at ht <;> subst ht
  . simp only [read, Option.some.injEq] at h
    simp [← h]
  . rw [read] at h
    split_ifs at h
    simp only [Option.some.injEq] at h
    simp [← h]
  . rcases r with ⟨_ | ⟨block, outer⟩, done, _ | ⟨value', values⟩⟩ <;> simp [read] at h
    simp [← h]
  . rw [read] at h
    split_ifs at h
    simp only [Option.some.injEq] at h
    simp [← h]

/--
From a state that represents a reading, the parser accepts what the reader accepts, and it does not leave
the behaviour of `top` and `pop` defined by the standard as long as no block is closed that is not open.
-/
theorem loop_of_represents {fuel : Nat} {st : ParseState} {r : Reading}
    {out : Outcome (Bool × NginxConfig)} (hrep : Represents st r)
    (h : Pass.loop parseStep fuel st = some out)
    : (∀ config, out = .ok (true, config)
          ↔ NoError (tokens st.input) ∧ r.accept (terminals (tokens st.input)) = some config)
        ∧ (ClosesAtMost r.outer.length (tokens st.input) → out.Returns) := by
  induction fuel generalizing st r with
  | zero => cases h
  | succ fuel ih =>
    have hloop := h
    rw [Pass.loop, parseStep] at h
    rw [tokens_eq]
    have hstart := parseToken_ne_start st.input
    generalize htoken : (parseToken st.input).1 = token at h hstart
    generalize (parseToken st.input).2 = input at h
    have hrep' : Represents { st with input } r := ⟨hrep.config, hrep.configStack, hrep.last⟩
    cases ht : terminal? token with
    | some t =>
      have hgoesOn : ¬(token.1 = .eof ∨ token.1 = .error) := by
        rintro (heq | heq) <;> simp [terminal?, heq] at ht
      have herror : NoError (token :: tokens input) ↔ NoError (tokens input) := by
        rw [noError_cons_iff, and_iff_right (fun heq => hgoesOn (.inr heq))]
      rw [if_neg hgoesOn, herror, terminals_cons_of_some ht, Reading.accept_cons]
      rcases handleToken_read hrep' ht with ⟨hreads, hstuck⟩
      cases hread : r.read t with
      | some r' =>
        rcases hreads r' hread with ⟨st', hagain, hinput, hrep1⟩
        rw [hagain] at h
        have hlength := Reading.outer_length_of_read ht hread
        simp only at hinput
        rw [Option.bind_some, ← hinput]
        refine ⟨(ih hrep1 h).1, fun hcloses => (ih hrep1 h).2 (hcloses.tail ?_)⟩
        omega
      | none =>
        rcases hstuck hread with hleave | ⟨hend, houter, st', hagain, hempty, hlast⟩
        . rw [hleave] at h
          simp only [Option.some.injEq] at h
          simp [← h]
        -- a brace too many: the loop goes on with an empty stack, and accepts nothing any more
        . rw [hagain] at h
          refine ⟨fun config => ?_, fun hcloses => ?_⟩
          . simp [loop_of_configStack_nil hempty hlast h config]
          . have hfirst := hcloses [token] (by simp)
            simp [hend, houter] at hfirst
    | none =>
      rcases token with ⟨tokenType, value⟩
      cases tokenType with
      | normal | startBlock | endBlock | statementEnd => cases ht
      | start => exact absurd rfl hstart
      | error =>
        simp only [handleToken, Option.some.injEq] at h
        simp [← h, NoError]
      -- a comment leaves everything as it is, the type of the last token too
      | comment =>
        rw [handleToken] at h
        simp only [reduceCtorEq, or_self, if_false]
        have herror : NoError ((.comment, value) :: tokens input) ↔ NoError (tokens input) := by
          simp
        rw [herror, terminals_cons_of_none ht]
        refine ⟨(ih hrep' h).1, fun hcloses => (ih hrep' h).2 (hcloses.tail ?_)⟩
        simp
      | eof =>
        have herror : NoError [(.eof, value)] := by simp
        have hterminals : terminals [(.eof, value)] = [] := terminals_cons_of_none ht []
        simp only [true_or, if_true, herror, true_and, hterminals, Reading.accept_nil]
        rcases loop_of_eof hrep (by rw [htoken]) hloop with ⟨haccepts, hrejects⟩
        cases hresult : r.result? with
        | some config => simp [haccepts config hresult]
        | none =>
          rcases hrejects hresult with ⟨config, rfl⟩
          simp

/--
Without any assumption on the input: `Parse` returns true exactly on the derivable token sequences, and
leaves their derivation trees.
-/
theorem parse_accepts_iff (input : Bytes) (config : NginxConfig)
    : parse input [] = some (.ok (true, config))
        ↔
      NoError (tokens input) ∧ Derives (terminals (tokens input)) config := by
  rcases parse_terminates input [] with ⟨out, hout⟩
  have hloop := loop_of_represents (represents_start input) (hout _ le_rfl)
  rw [parse, hout _ le_rfl, Option.some.injEq, hloop.1, Reading.accept_eq_some_iff]

/--
On every input that closes no block that is not open, `Parse` terminates. It returns true if and only if
the token stream has no error and is derivable, comments aside, and then the tree it leaves is the
derivation tree.
-/
theorem parse_derivation (input : Bytes) (hcloses : ClosesAtMost 0 (tokens input))
    : ∃ verdict tree,
        (∀ fuel, input.length + 2 ≤ fuel →
            parseWithin fuel input [] = some (.ok (verdict, tree)))
          ∧ (verdict = true
              ↔ NoError (tokens input) ∧ ∃ config, Derives (terminals (tokens input)) config)
          ∧ (verdict = true →
              ∀ config, Derives (terminals (tokens input)) config ↔ config = tree) := by
  rcases parse_terminates input [] with ⟨out, hout⟩
  have hloop := loop_of_represents (represents_start input) (hout _ le_rfl)
  rcases hloop.2 hcloses with ⟨⟨verdict, tree⟩, rfl⟩
  have haccepts (config : NginxConfig) : verdict = true ∧ tree = config
      ↔ NoError (tokens input) ∧ Derives (terminals (tokens input)) config := by
    rw [← Reading.accept_eq_some_iff, ← hloop.1]
    simp
  refine ⟨verdict, tree, hout, ?_, ?_⟩
  . rw [← exists_and_left]
    simp only [← haccepts, exists_and_left, exists_eq', and_true]
  . intro hverdict config
    have htrue := (haccepts tree).mp ⟨hverdict, rfl⟩
    constructor
    . intro hderives
      exact ((haccepts config).mpr ⟨htrue.1, hderives⟩).2.symm
    . rintro rfl
      exact htrue.2

theorem parse_derivation_comment
    : ∃ verdict tree,
        parseWithin 40 (Bytes.lit "a \x7b # x\n b; \x7d") [] = some (.ok (verdict, tree)) := by
  rcases parse_derivation (Bytes.lit "a \x7b # x\n b; \x7d") (by decide)
    with ⟨verdict, tree, hparse, -, -⟩
  exact ⟨verdict, tree, hparse 40 (by decide)⟩

end NginxConfigParser

end Foxy
