import FoxyServer.Config.Correct

/-!
This module contains the round trip through the printer: a well-formed tree is printed to a text that
parses to the same tree, and every tree the parser builds is well-formed.
-/

namespace Foxy

namespace NginxConfigParser

inductive WellFormed : NginxConfig → Prop where
  | nil : WellFormed []
  | simple (tokens : List Bytes) (hne : tokens ≠ []) (hlex : ∀ token ∈ tokens, LexValid token)
    (hrest : WellFormed config)
    : WellFormed (⟨tokens, none⟩ :: config)
  | block (tokens : List Bytes) (hne : tokens ≠ []) (hlex : ∀ token ∈ tokens, LexValid token)
    (hbody : WellFormed childBlock) (hrest : WellFormed config)
    : WellFormed (⟨tokens, some childBlock⟩ :: config)

/-! ## Lexing printed text -/

theorem tokens_tabs (depth : Nat) (input : Bytes)
    : tokens (List.replicate depth '\t'.toUInt8 ++ input) = tokens input := by
  induction depth with
  | zero => rfl
  | succ depth ih =>
    rw [List.replicate_succ, List.cons_append, tokens_blank (by decide), ih]

theorem tokens_lexValid {token : Bytes} (h : LexValid token) {d : UInt8} (hd : Delimiter d)
    (input : Bytes) : tokens (token ++ d :: input) = (.normal, token) :: tokens (d :: input) := by
  rw [tokens_eq, parseToken_of_lexValid h hd]
  rfl

theorem tokens_intercalate {values : List Bytes} (hlex : ∀ token ∈ values, LexValid token) {d : UInt8}
    (hd : Delimiter d) (input : Bytes)
    : tokens (List.intercalate (Bytes.lit " ") values ++ d :: input)
        =
      values.map (TokenType.normal, ·) ++ tokens (d :: input) := by
  induction values with
  | nil => rfl
  | cons value values ih =>
    have hvalue := hlex value List.mem_cons_self
    have ih := ih (fun token htoken => hlex token (List.mem_cons_of_mem _ htoken))
    cases values with
    | nil => simpa using tokens_lexValid hvalue hd input
    | cons value' values =>
      have hspace : Delimiter ' '.toUInt8 := by decide
      have hprinted : List.intercalate (Bytes.lit " ") (value :: value' :: values) ++ d :: input
          = value ++ ' '.toUInt8 :: (List.intercalate (Bytes.lit " ") (value' :: values) ++ d :: input) := by
        simp [List.intercalate, List.intersperse, Bytes.lit]
      rw [hprinted, tokens_lexValid hvalue hspace, tokens_blank (by decide), ih]
      rfl

theorem tokens_statementEnd (input : Bytes)
    : tokens (';'.toUInt8 :: input) = (.statementEnd, Bytes.lit ";") :: tokens input := by
  rw [tokens_eq]
  rfl

theorem tokens_startBlock (input : Bytes)
    : tokens ('\x7b'.toUInt8 :: input) = (.startBlock, Bytes.lit "\x7b") :: tokens input := by
  rw [tokens_eq]
  rfl

theorem tokens_endBlock (input : Bytes)
    : tokens ('\x7d'.toUInt8 :: input) = (.endBlock, Bytes.lit "\x7d") :: tokens input := by
  rw [tokens_eq]
  rfl

@[simp]
theorem terminals_values (values : List Bytes)
    : terminals (values.map (TokenType.normal, ·)) = values.map .normal := by
  induction values with
  | nil => rfl
  | cons value values ih =>
    rw [List.map_cons, List.map_cons, ← ih]
    rfl

theorem noError_values (values : List Bytes) : NoError (values.map (TokenType.normal, ·)) := by
  intro token htoken
  rcases List.mem_map.mp htoken with ⟨value, -, rfl⟩
  simp

def Prints (text : Bytes) (config : NginxConfig) : Prop :=
  ∃ toks, NoError toks ∧ Derives (terminals toks) config
    ∧ ∀ input, tokens (text ++ input) = toks ++ tokens input

theorem prints_toString (h : WellFormed config) (depth : Nat)
    : Prints (NginxConfig.toString depth config) config := by
  induction h generalizing depth with
  | nil => exact ⟨[], noError_nil, .nil, fun input => rfl⟩
  | @simple config values hne hlex hrest ih =>
    rcases ih depth with ⟨toks, herror, hderives, htoks⟩
    refine ⟨values.map (TokenType.normal, ·) ++ (.statementEnd, Bytes.lit ";") :: toks, ?_, ?_, ?_⟩
    . simp [noError_values, herror]
    . rw [terminals_append, terminals_values, terminals_cons_of_some rfl]
      exact .simple values hne hderives
    . intro input
      have hprinted : NginxConfig.toString depth (⟨values, none⟩ :: config) ++ input
          = List.replicate depth '\t'.toUInt8 ++ (List.intercalate (Bytes.lit " ") values
              ++ ';'.toUInt8 :: '\n'.toUInt8 :: (NginxConfig.toString depth config ++ input)) := by
        rw [NginxConfig.toString, NginxConfigStatement.toString,
          if_pos (List.length_pos_iff.mpr hne)]
        simp [Bytes.lit]
      rw [hprinted, tokens_tabs, tokens_intercalate hlex (by decide),
        tokens_statementEnd, tokens_blank (by decide), htoks]
      simp
  -- a block is printed one level deeper, and the induction gives its tokens there
  | @block childBlock config values hne hlex hbody hrest ihbody ih =>
    rcases ihbody (depth + 1) with ⟨toks, herror, hderives, htoks⟩
    rcases ih depth with ⟨toks', herror', hderives', htoks'⟩
    refine ⟨values.map (TokenType.normal, ·) ++ (.startBlock, Bytes.lit "\x7b")
      :: (toks ++ (.endBlock, Bytes.lit "\x7d") :: toks'), ?_, ?_, ?_⟩
    . simp [noError_values, herror, herror']
    . rw [terminals_append, terminals_values, terminals_cons_of_some rfl, terminals_append,
        terminals_cons_of_some rfl]
      exact .block values hne hderives hderives'
    . intro input
      have hprinted : NginxConfig.toString depth (⟨values, some childBlock⟩ :: config) ++ input
          = List.replicate depth '\t'.toUInt8 ++ (List.intercalate (Bytes.lit " ") values
              ++ ' '.toUInt8 :: '\x7b'.toUInt8 :: '\n'.toUInt8
                :: (NginxConfig.toString (depth + 1) childBlock
                  ++ (List.replicate depth '\t'.toUInt8
                    ++ '\x7d'.toUInt8 :: '\n'.toUInt8 :: (NginxConfig.toString depth config ++ input)))) := by
        rw [NginxConfig.toString, NginxConfigStatement.toString]
        simp [Bytes.lit]
      rw [hprinted, tokens_tabs, tokens_intercalate hlex (by decide), tokens_blank (by decide),
        tokens_startBlock, tokens_blank (by decide), htoks, tokens_tabs, tokens_endBlock,
        tokens_blank (by decide), htoks']
      simp

/-! ## The trees the parser builds -/

theorem lexValid_of_mem_tokens {input : Bytes} {value : Bytes} (h : (.normal, value) ∈ tokens input)
    : LexValid value := by
  rw [tokens] at h
  generalize input.length + 1 = fuel at h
  induction fuel generalizing input with
  | zero => cases h
  | succ fuel ih =>
    rw [tokensWithin] at h
    have hfirst (heq : (.normal, value) = (parseToken input).1) : LexValid value := by
      have := @lexValid_of_parseToken input (by rw [← heq])
      rwa [← heq] at this
    split_ifs at h
    . exact hfirst (List.mem_singleton.mp h)
    . rcases List.mem_cons.mp h with heq | h
      . exact hfirst heq
      . exact ih h

theorem wellFormed_of_derives (h : Derives ts config) (hlex : ∀ value, .normal value ∈ ts → LexValid value)
    : WellFormed config := by
  induction h with
  | nil => exact .nil
  | simple values hvalues hrest ih =>
    refine .simple values hvalues ?_ (ih ?_)
    . intro value hvalue
      exact hlex value (by simp [hvalue])
    . intro value hvalue
      exact hlex value (by simp [hvalue])
  | block values hvalues hbody hrest ihbody ih =>
    refine .block values hvalues ?_ (ihbody ?_) (ih ?_)
    . intro value hvalue
      exact hlex value (by simp [hvalue])
    . intro value hvalue
      exact hlex value (by simp [hvalue])
    . intro value hvalue
      exact hlex value (by simp [hvalue])

theorem wellFormed_of_parse {input : Bytes} {config : NginxConfig}
    (h : parse input [] = some (.ok (true, config))) : WellFormed config := by
  apply wellFormed_of_derives ((parse_accepts_iff input config).mp h).2
  intro value hvalue
  rcases List.mem_filterMap.mp hvalue with ⟨⟨tokenType, value'⟩, htoken, hterminal⟩
  cases tokenType <;> simp only [terminal?, reduceCtorEq, Option.some.injEq, Terminal.normal.injEq]
    at hterminal
  subst hterminal
  exact lexValid_of_mem_tokens htoken

theorem parse_of_wellFormed {config : NginxConfig} (h : WellFormed config)
    : parse (NginxConfig.toString 0 config) [] = some (.ok (true, config)) := by
  rcases prints_toString h 0 with ⟨toks, herror, hderives, htoks⟩
  have htokens : tokens (NginxConfig.toString 0 config) = toks ++ [(.eof, [])] := by
    rw [← List.append_nil (NginxConfig.toString 0 config), htoks]
    rfl
  rw [parse_accepts_iff, htokens, terminals_append, terminals_cons_of_none rfl]
  refine ⟨by simp [herror], ?_⟩
  simpa [terminals] using hderives

/--
Printing a well-formed tree and parsing the text gives the tree back, every tree that is parsed from an
accepted input is well-formed, and so parsing, printing and parsing again changes nothing.
-/
theorem parse_toString
    : (∀ config, WellFormed config →
          parse (NginxConfig.toString 0 config) [] = some (.ok (true, config)))
        ∧ ∀ input config, parse input [] = some (.ok (true, config)) →
            WellFormed config ∧ parse (NginxConfig.toString 0 config) [] = some (.ok (true, config)) :=
  ⟨fun _ => parse_of_wellFormed,
    fun _ _ h => ⟨wellFormed_of_parse h, parse_of_wellFormed (wellFormed_of_parse h)⟩⟩

theorem parse_toString_listen
    : parse (Bytes.lit "\"a b\" \x7b\n\tlisten 80;\n\x7d\n") []
        = some (.ok (true, [⟨[Bytes.lit "\"a b\""], some [⟨[Bytes.lit "listen", Bytes.lit "80"], none⟩]⟩])) :=
  (parse_toString.2 (Bytes.lit "\"a b\"\x7blisten 80 ;\x7d# end") _ rfl).2

end NginxConfigParser

end Foxy
