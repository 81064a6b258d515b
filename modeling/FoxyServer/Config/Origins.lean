import FoxyServer.Config.Comments

/-!
This module contains where the tokens of a tree come from. Whatever the parser leaves, also of a text that it
rejects, is made of the bare and quoted tokens that the lexer delivers from the text.
-/

namespace Foxy

inductive Occurs (token : Bytes) : NginxConfig → Prop where
  | here (htoken : token ∈ tokens) : Occurs token (⟨tokens, childBlock⟩ :: statements)
  | inside (hblock : Occurs token block) : Occurs token (⟨tokens, some block⟩ :: statements)
  | later (hlater : Occurs token statements) : Occurs token (statement :: statements)

theorem occurs_cons_iff {token : Bytes} {statement : NginxConfigStatement} {statements : NginxConfig}
    : Occurs token (statement :: statements)
        ↔
      token ∈ statement.tokens ∨ (∃ block, statement.childBlock = some block ∧ Occurs token block)
        ∨ Occurs token statements := by
  constructor
  . intro h
    cases h with
    | here htoken => exact .inl htoken
    | inside hblock => exact .inr (.inl ⟨_, rfl, hblock⟩)
    | later hlater => exact .inr (.inr hlater)
  . rcases statement with ⟨tokens, childBlock⟩
    rintro (htoken | ⟨block, hblock, h⟩ | hlater)
    . exact .here htoken
    . simp only at hblock
      subst hblock
      exact .inside h
    . exact .later hlater

theorem not_occurs_nil {token : Bytes} : ¬Occurs token [] :=
  fun h => by cases h

theorem occurs_singleton_iff {token : Bytes} {statement : NginxConfigStatement}
    : Occurs token [statement]
        ↔
      token ∈ statement.tokens ∨ ∃ block, statement.childBlock = some block ∧ Occurs token block := by
  rw [occurs_cons_iff, or_iff_left not_occurs_nil]

theorem occurs_iff {token : Bytes} {config : NginxConfig}
    : Occurs token config
        ↔
      ∃ statement ∈ config,
        token ∈ statement.tokens ∨ ∃ block, statement.childBlock = some block ∧ Occurs token block := by
  induction config with
  | nil => simp [not_occurs_nil]
  | cons statement statements ih => rw [occurs_cons_iff, ih, List.exists_mem_cons_iff, or_assoc]

theorem occurs_of_mem {token : Bytes} {statement : NginxConfigStatement} {config : NginxConfig}
    (hmem : statement ∈ config) (h : token ∈ statement.tokens) : Occurs token config :=
  occurs_iff.mpr ⟨statement, hmem, .inl h⟩

theorem occurs_of_block {token : Bytes} {statement : NginxConfigStatement} {config block : NginxConfig}
    (hmem : statement ∈ config) (hblock : statement.childBlock = some block) (h : Occurs token block)
    : Occurs token config :=
  occurs_iff.mpr ⟨statement, hmem, .inr ⟨block, hblock, h⟩⟩

theorem occurs_append_iff {token : Bytes} {config config' : NginxConfig}
    : Occurs token (config ++ config') ↔ Occurs token config ∨ Occurs token config' := by
  rw [occurs_iff, @occurs_iff token config, @occurs_iff token config']
  simp only [List.mem_append, or_and_right, exists_or]

def AllTokens (p : Bytes → Prop) (config : NginxConfig) : Prop :=
  ∀ token, Occurs token config → p token

theorem allTokens_nil (p : Bytes → Prop) : AllTokens p [] :=
  fun _ h => absurd h not_occurs_nil

theorem allTokens_append_iff {p : Bytes → Prop} {config config' : NginxConfig}
    : AllTokens p (config ++ config') ↔ AllTokens p config ∧ AllTokens p config' := by
  simp only [AllTokens, occurs_append_iff, or_imp, forall_and]

namespace NginxConfigParser

variable {p : Bytes → Prop}

/-! ## Changes to the tree -/

theorem allTokens_modifyAt {f : NginxConfig → Outcome NginxConfig} {config config' : NginxConfig}
    {ptr : ConfigPtr}
    (hf : ∀ statements statements', AllTokens p statements → f statements = .ok statements' →
      AllTokens p statements')
    (h : AllTokens p config) (hmodify : modifyAt f config ptr = .ok config')
    : AllTokens p config' := by
  induction ptr generalizing config config' with
  | nil => exact hf config config' h hmodify
  | cons i ptr ih =>
    rw [modifyAt] at hmodify
    split at hmodify
    next tokens block hget =>
      have hmem := List.mem_of_getElem? hget
      rcases Outcome.bind_eq_ok.mp hmodify with ⟨block', hblock, hset⟩
      have hinner := ih (fun token htoken => h token (occurs_of_block hmem rfl htoken)) hblock
      rw [Outcome.pure_eq_ok, Outcome.ok.injEq] at hset
      rw [← hset]
      intro token htoken
      rcases occurs_iff.mp htoken with ⟨statement, hstatement, hoccurs⟩
      rcases List.mem_or_eq_of_mem_set hstatement with hold | rfl
      . exact h token (occurs_iff.mpr ⟨statement, hold, hoccurs⟩)
      . rcases hoccurs with hhere | ⟨inner, heq, hinside⟩
        . exact h token (occurs_of_mem hmem hhere)
        . simp only [Option.some.injEq] at heq
          exact hinner token (heq ▸ hinside)
    next => cases hmodify

theorem allTokens_modifyBack {f : NginxConfigStatement → NginxConfigStatement} {config config' : NginxConfig}
    (hf : ∀ statement, AllTokens p [statement] → AllTokens p [f statement]) (h : AllTokens p config)
    (hmodify : modifyBack f config = .ok config')
    : AllTokens p config' := by
  rw [modifyBack] at hmodify
  split at hmodify
  next statement hlast =>
    rw [Outcome.ok.injEq] at hmodify
    rw [← List.dropLast_append_getLast? statement hlast, allTokens_append_iff] at h
    rw [← hmodify, allTokens_append_iff]
    exact ⟨h.1, hf statement h.2⟩
  next => cases hmodify

theorem allTokens_handleToken {tokenType : TokenType} {token : Bytes} {st st' : ParseState}
    (htoken : tokenType = .normal → p token) (h : AllTokens p st.config)
    (hstep : handleToken tokenType token st = .ok (.again st'))
    : AllTokens p st'.config := by
  cases handled_of_handleToken hstep with
  | skipped => exact h
  | @added started ptr config hnormal hlast hstarted hadded =>
    have hopened : AllTokens p started := by
      rcases hstarted with rfl | hstarted
      . exact h
      . refine allTokens_modifyAt ?_ h hstarted
        intro statements statements' hstatements heq
        cases heq
        rw [allTokens_append_iff]
        refine ⟨hstatements, ?_⟩
        intro token' hoccurs
        simp [occurs_singleton_iff] at hoccurs
    refine allTokens_modifyAt ?_ hopened hadded
    intro statements statements' hstatements
    refine allTokens_modifyBack ?_ hstatements
    intro statement hstatement token' hoccurs
    simp only [occurs_singleton_iff, List.mem_append, List.mem_singleton, or_assoc] at hoccurs
    -- the token was there before, or it is the new one
    rcases hoccurs with hhere | rfl | hinside
    . exact hstatement token' (occurs_singleton_iff.mpr (.inl hhere))
    . exact htoken hnormal
    . exact hstatement token' (occurs_singleton_iff.mpr (.inr hinside))
  | opened hlast hopened =>
    refine allTokens_modifyAt ?_ h hopened
    intro statements statements' hstatements
    refine allTokens_modifyBack ?_ hstatements
    intro statement hstatement token' hoccurs
    simp only [occurs_singleton_iff, Option.some.injEq, exists_eq_left', not_occurs_nil, or_false] at hoccurs
    exact hstatement token' (occurs_singleton_iff.mpr (.inl hoccurs))
  | passed => exact h

/-! ## The whole text -/

def Delivers (input token : Bytes) : Prop :=
  (.normal, token) ∈ tokens input

theorem delivers_of_parseToken {input token : Bytes} (h : (parseToken input).1 = (.normal, token))
    : Delivers input token := by
  rw [Delivers, tokens_eq, if_neg (by simp [h]), h]
  exact List.mem_cons_self

theorem delivers_of_rest {input token : Bytes} (herror : (parseToken input).1.1 ≠ .error)
    (h : Delivers (parseToken input).2 token)
    : Delivers input token := by
  by_cases heof : (parseToken input).1.1 = .eof
  . rw [Delivers, parseToken_eof heof, show tokens [] = [(.eof, [])] from rfl] at h
    simp at h
  . rw [Delivers, tokens_eq, if_neg (not_or.mpr ⟨heof, herror⟩)]
    exact List.mem_cons_of_mem _ h

structure ReadFrom (input : Bytes) (st : ParseState) : Prop where
  tree : AllTokens (Delivers input) st.config
  rest : ∀ token, Delivers st.input token → Delivers input token

theorem ReadFrom.parseStep {input : Bytes} {st st' : ParseState} (h : ReadFrom input st)
    (hstep : parseStep st = .ok (.again st'))
    : ReadFrom input st' := by
  have herror : (parseToken st.input).1.1 ≠ .error := by
    intro herror
    simp [NginxConfigParser.parseStep, handleToken, herror] at hstep
  constructor
  . refine @allTokens_handleToken (Delivers input) _ _ { st with input := (parseToken st.input).2 } _ ?_
      h.tree hstep
    intro hnormal
    apply h.rest
    apply delivers_of_parseToken
    rw [← hnormal]
  . intro token htoken
    rw [(handleToken_again hstep).1] at htoken
    exact h.rest token (delivers_of_rest herror htoken)

theorem delivers_of_parse {input : Bytes} {accepted : Bool} {config : NginxConfig}
    (h : parse input [] = some (.ok (accepted, config)))
    : AllTokens (Delivers input) config := by
  have hleave : ∀ st out, ReadFrom input st → parseStep st = .ok (.leave out) →
      AllTokens (Delivers input) out.2 := by
    rintro st ⟨accepted, config⟩ hread hstep
    rw [handleToken_leave hstep]
    exact hread.tree
  refine Pass.loop_keeps (fun _ _ => ReadFrom.parseStep) hleave ?_ h
  exact ⟨allTokens_nil _, fun _ htoken => htoken⟩

end NginxConfigParser

end Foxy
