import FoxyServer.Config.Correct
import FoxyServer.Config.Spelling

/-!
This module contains what comments mean to the parser: nothing. Two texts whose tokens differ in comments
only are parsed alike, whatever becomes of them.
-/

namespace Foxy

namespace NginxConfigParser

def significant (toks : List Token) : List Token :=
  toks.filter (fun token => token.1 ≠ .comment)

@[simp]
theorem significant_append (toks toks' : List Token)
    : significant (toks ++ toks') = significant toks ++ significant toks' :=
  List.filter_append toks toks'

theorem significant_comment {token : Token} (h : token.1 = .comment) (toks : List Token)
    : significant (token :: toks) = significant toks := by
  simp [significant, h]

theorem significant_cons {token : Token} (h : token.1 ≠ .comment) (toks : List Token)
    : significant (token :: toks) = token :: significant toks := by
  simp [significant, h]

/-! ## Runs over the significant tokens -/

def withInput (input : Bytes) : Pass ParseState (Bool × NginxConfig) → Pass ParseState (Bool × NginxConfig)
  | .again st => .again { st with input }
  | .leave out => .leave out

theorem top_withInput (st : ParseState) (input : Bytes) : { st with input }.top = st.top := rfl

theorem pop_withInput (st : ParseState) (input : Bytes)
    : { st with input }.pop = (st.pop >>= fun st => .ok { st with input }) := by
  rcases st with ⟨input', config, _ | ⟨ptr, configStack⟩, last⟩ <;> rfl

theorem handleToken_withInput (tokenType : TokenType) (token : Bytes) (st : ParseState) (input : Bytes)
    : handleToken tokenType token { st with input }
        =
      (handleToken tokenType token st >>= fun pass => .ok (withInput input pass)) := by
  cases tokenType with
  | start | error | comment => rfl
  | statementEnd =>
    simp only [handleToken]
    split <;> rfl
  | normal =>
    simp only [handleToken, top_withInput]
    split
    . simp only [Outcome.bind_assoc]
      rfl
    . rfl
  | startBlock =>
    simp only [handleToken, top_withInput]
    split
    . rfl
    . simp only [Outcome.bind_assoc]
      rfl
  | endBlock =>
    simp only [handleToken, pop_withInput]
    split
    . rfl
    . simp only [Outcome.bind_assoc]
      rfl
  | eof =>
    simp only [handleToken, pop_withInput]
    split
    . rfl
    . simp only [Outcome.bind_assoc]
      apply Outcome.bind_congr
      intro st' _
      rw [Outcome.ok_bind]
      dsimp only
      split <;> rfl

theorem parseToken_eof {input : Bytes} (h : (parseToken input).1.1 = .eof) : (parseToken input).2 = [] := by
  induction input using input_induction with
  | unfinished text htext => rw [parseToken_unfinished htext]
  | unclosed text htext =>
    rw [parseToken_unclosed htext] at h
    cases h
  | token tok text rest hspells hends ih =>
    rw [parseToken_spells hspells hends] at h
    exact absurd (.inl h) (spells_ne_eof hspells)
  | blanks run text hrun ih =>
    rw [parseToken_blanks hrun] at h ⊢
    exact ih h

theorem significant_of_comment {input : Bytes} (h : (parseToken input).1.1 = .comment)
    : significant (tokens input) = significant (tokens (parseToken input).2) := by
  rw [tokens_eq, if_neg (by simp [h]), significant_comment h]

theorem significant_of_ne_comment {input : Bytes} (h : (parseToken input).1.1 ≠ .comment)
    : significant (tokens input)
        =
      (parseToken input).1
        :: if (parseToken input).1.1 = .eof ∨ (parseToken input).1.1 = .error then
          []
        else
          significant (tokens (parseToken input).2) := by
  rw [tokens_eq]
  split
  . rw [significant_cons h]
    rfl
  . rw [significant_cons h]

theorem loop_comment {st : ParseState} (h : (parseToken st.input).1.1 = .comment) (fuel : Nat)
    : Pass.loop parseStep (fuel + 1) st
        =
      Pass.loop parseStep fuel { st with input := (parseToken st.input).2 } := by
  rw [Pass.loop, parseStep, h]
  rfl

theorem loop_congr {fuel fuel' : Nat} {st : ParseState} {input : Bytes}
    {out out' : Outcome (Bool × NginxConfig)} (h : Pass.loop parseStep fuel st = some out)
    (h' : Pass.loop parseStep fuel' { st with input } = some out')
    (htoks : significant (tokens st.input) = significant (tokens input)) : out = out' := by
  cases fuel with
  | zero => cases h
  | succ fuel =>
    cases fuel' with
    | zero => cases h'
    | succ fuel' =>
      by_cases hcomment : (parseToken st.input).1.1 = .comment
      . rw [loop_comment hcomment] at h
        rw [significant_of_comment hcomment] at htoks
        exact loop_congr h h' htoks
      by_cases hcomment' : (parseToken input).1.1 = .comment
      . rw [loop_comment hcomment'] at h'
        rw [significant_of_comment hcomment'] at htoks
        exact loop_congr h h' htoks
      -- neither side is at a comment, so both take the same token
      rw [significant_of_ne_comment hcomment, significant_of_ne_comment hcomment', List.cons.injEq] at htoks
      rcases htoks with ⟨htoken, hrest⟩
      have hstep := handleToken_withInput (parseToken st.input).1.1 (parseToken st.input).1.2 st
      rw [Pass.loop, parseStep, hstep] at h
      rw [Pass.loop, parseStep] at h'
      dsimp only at h'
      rw [← htoken, hstep] at h'
      cases hpass : handleToken (parseToken st.input).1.1 (parseToken st.input).1.2 st with
      | throws e =>
        simp only [hpass, Outcome.throws_bind, Option.some.injEq] at h h'
        rw [← h, ← h']
      | undefined =>
        simp only [hpass, Outcome.undefined_bind, Option.some.injEq] at h h'
        rw [← h, ← h']
      | ok pass =>
        rw [hpass, Outcome.ok_bind] at h h'
        cases pass with
        | leave b =>
          simp only [withInput, Option.some.injEq] at h h'
          rw [← h, ← h']
        | again st1 =>
          refine loop_congr h h' ?_
          by_cases hend : (parseToken st.input).1.1 = .eof ∨ (parseToken st.input).1.1 = .error
          . rcases hend with heof | herror
            . rw [parseToken_eof heof, parseToken_eof (htoken ▸ heof)]
            . rw [herror] at hpass
              cases hpass
          . rwa [if_neg hend, if_neg (htoken ▸ hend)] at hrest
termination_by fuel + fuel'

theorem parse_congr {input input' : Bytes} (h : significant (tokens input) = significant (tokens input'))
    (config : NginxConfig) : parse input config = parse input' config := by
  rcases parse_terminates input config with ⟨out, hout⟩
  rcases parse_terminates input' config with ⟨out', hout'⟩
  have hout := hout (input.length + 2) le_rfl
  have hout' := hout' (input'.length + 2) le_rfl
  rw [parse, parse, hout, hout', Option.some.injEq]
  exact loop_congr hout hout' h

/-! ## Comments between tokens -/

inductive After : Bytes → Bytes → Prop where
  | start : After input input
  | token (heof : (parseToken input).1.1 ≠ .eof) (herror : (parseToken input).1.1 ≠ .error)
    (hrest : After (parseToken input).2 post) : After input post

theorem parseToken_delivers {input : Bytes} (heof : (parseToken input).1.1 ≠ .eof)
    (herror : (parseToken input).1.1 ≠ .error)
    : ∃ blanks piece, (∀ c ∈ blanks, Blank c) ∧ Spells (parseToken input).1 piece
        ∧ Ends (parseToken input).1 (parseToken input).2
        ∧ input = blanks ++ (piece ++ (parseToken input).2) := by
  rcases exists_starts input with ⟨blanks, text, hblanks, hstarts, rfl⟩
  rw [parseToken_blanks hblanks] at heof herror ⊢
  rcases hstarts with ⟨token, piece, rest, hspells, hends, rfl⟩ | hunfinished | hunclosed
  . rw [parseToken_spells hspells hends]
    exact ⟨blanks, piece, hblanks, hspells, hends, rfl⟩
  . rw [parseToken_unfinished hunfinished] at heof
    exact absurd rfl heof
  . rw [parseToken_unclosed hunclosed] at herror
    exact absurd rfl herror

theorem tokens_of_after {input post : Bytes} (h : After input post)
    : ∃ pre toks, input = pre ++ post ∧ tokens input = toks ++ tokens post
        ∧ ∀ other : Bytes, (∃ c ∈ other.head?, Delimiter c) → tokens (pre ++ other) = toks ++ tokens other := by
  induction h with
  | start => exact ⟨[], [], rfl, rfl, fun _ _ => rfl⟩
  | @token input post heof herror hrest ih =>
    rcases ih with ⟨pre, toks, hpre, htoks, hother⟩
    rcases parseToken_delivers heof herror with ⟨blanks, piece, hblanks, hspells, hends, hinput⟩
    refine ⟨blanks ++ (piece ++ pre), (parseToken input).1 :: toks, ?_, ?_, ?_⟩
    . rw [List.append_assoc, List.append_assoc, ← hpre]
      exact hinput
    . rw [tokens_eq, if_neg (not_or.mpr ⟨heof, herror⟩), htoks]
      rfl
    . intro other hhead
      have hends' : Ends (parseToken input).1 (pre ++ other) := by
        intro hbare
        cases pre with
        | nil => exact hhead
        | cons c pre =>
          rcases hends hbare with ⟨d, hd, hdelim⟩
          rw [hpre] at hd
          exact ⟨d, hd, hdelim⟩
      rw [List.append_assoc, List.append_assoc, tokens_blanks hblanks, tokens_spells hspells hends',
        hother other hhead]
      rfl

/--
At the start of a text and directly behind every token, a comment on the rest of a line changes nothing:
neither the verdict nor the tree.
-/
theorem parse_comment {pre post body : Bytes} (hafter : After (pre ++ post) post)
    (hbody : ∀ c ∈ body, ¬LineEnd c) (config : NginxConfig)
    : parse (pre ++ ' '.toUInt8 :: '#'.toUInt8 :: (body ++ '\n'.toUInt8 :: post)) config
        =
      parse (pre ++ post) config := by
  apply parse_congr
  rcases tokens_of_after hafter with ⟨pre', toks, hpre, htoks, hother⟩
  rw [List.append_cancel_right_eq] at hpre
  subst hpre
  have hcomment : tokens (' '.toUInt8 :: '#'.toUInt8 :: (body ++ '\n'.toUInt8 :: post))
      = (.comment, '#'.toUInt8 :: body) :: tokens post := by
    have hspells : Spells (.comment, '#'.toUInt8 :: body) ('#'.toUInt8 :: (body ++ ['\n'.toUInt8])) :=
      .comment hbody (.inl rfl)
    have hread := @tokens_spells _ _ post hspells (fun hbare => absurd rfl (hbare.2.2 _ rfl).2.1)
    rw [tokens_blank (by decide)]
    simpa using hread
  rw [hother _ ⟨' '.toUInt8, rfl, by decide⟩, htoks, hcomment, significant_append, significant_append,
    significant_comment rfl]

theorem parse_comment_listen
    : parse (Bytes.lit "listen #!\n 80;") [] = parse (Bytes.lit "listen 80;") [] := by
  have hafter : After (Bytes.lit "listen 80;") (Bytes.lit " 80;") := .token (by decide) (by decide) .start
  exact @parse_comment (Bytes.lit "listen") (Bytes.lit " 80;") (Bytes.lit "!") hafter (by decide +kernel) []

end NginxConfigParser

end Foxy
