import FoxyServer.Config.Lexer

/-!
This module contains the lexer read backwards: what each token looks like in the text, what may follow it,
and what is left when no token is delivered.
-/

namespace Foxy

namespace NginxConfigParser

def LineEnd (c : UInt8) : Prop :=
  c = '\n'.toUInt8 ∨ c = '\r'.toUInt8

instance (c : UInt8) : Decidable (LineEnd c) := inferInstanceAs (Decidable (_ ∨ _))

instance (token : Bytes) : Decidable (Bare token) := inferInstanceAs (Decidable (_ ∧ _))

inductive Spells : Token → Bytes → Prop where
  | startBlock : Spells (.startBlock, ['\x7b'.toUInt8]) ['\x7b'.toUInt8]
  | endBlock : Spells (.endBlock, ['\x7d'.toUInt8]) ['\x7d'.toUInt8]
  | statementEnd : Spells (.statementEnd, [';'.toUInt8]) [';'.toUInt8]
  | comment (hbody : ∀ c ∈ body, ¬LineEnd c) (hend : LineEnd c)
    : Spells (.comment, '#'.toUInt8 :: body) ('#'.toUInt8 :: (body ++ [c]))
  | normal (hlex : LexValid value) : Spells (.normal, value) value

def Ends (token : Token) (rest : Bytes) : Prop :=
  Bare token.2 → ∃ c ∈ rest.head?, Delimiter c

inductive Unfinished : Bytes → Prop where
  | nothing : Unfinished []
  | bare (hbare : Bare text) : Unfinished text
  | comment (hbody : ∀ c ∈ body, ¬LineEnd c) : Unfinished ('#'.toUInt8 :: body)

inductive Unclosed : Bytes → Prop where
  | single (hbody : '\x27'.toUInt8 ∉ body) : Unclosed ('\x27'.toUInt8 :: body)
  | double (hbody : '\x22'.toUInt8 ∉ body) : Unclosed ('\x22'.toUInt8 :: body)

/-! ## From the text to the token -/

theorem parseToken_blanks {blanks : Bytes} (hblanks : ∀ c ∈ blanks, Blank c) (input : Bytes)
    : parseToken (blanks ++ input) = parseToken input := by
  induction blanks with
  | nil => rfl
  | cons c blanks ih =>
    rw [List.forall_mem_cons] at hblanks
    rw [List.cons_append, parseToken_blank hblanks.1, ih hblanks.2]

theorem tokens_blanks {blanks : Bytes} (hblanks : ∀ c ∈ blanks, Blank c) (input : Bytes)
    : tokens (blanks ++ input) = tokens input := by
  rw [tokens_eq, parseToken_blanks hblanks, ← tokens_eq]

theorem parseToken_bare {token : Bytes} (hbare : Bare token) (input : Bytes)
    : parseToken (token ++ input) = parseTokenFrom .tokenTypeNormal token input := by
  rcases hbare with ⟨hne, hall, hhead⟩
  cases token with
  | nil => exact absurd rfl hne
  | cons c body =>
    rcases hhead c rfl with ⟨hcr, hhash, hdouble, hsingle⟩
    rw [List.forall_mem_cons] at hall
    rw [List.cons_append, parseToken_bare_start hall.1 hcr hhash hdouble hsingle,
      parseTokenFrom_tokenTypeNormal hall.2]
    rfl

theorem not_bare_quoted {quote : UInt8} (hquote : quote = '\x22'.toUInt8 ∨ quote = '\x27'.toUInt8)
    {token : Bytes} (h : Quoted quote token) : ¬Bare token := by
  rintro ⟨-, -, hhead⟩
  rcases h with ⟨body, -, rfl⟩
  rcases hhead quote rfl with ⟨-, -, hdouble, hsingle⟩
  rcases hquote with rfl | rfl
  . exact hdouble rfl
  . exact hsingle rfl

theorem parseToken_spells {token : Token} {text rest : Bytes} (hspells : Spells token text)
    (hends : Ends token rest) : parseToken (text ++ rest) = (token, rest) := by
  cases hspells with
  | startBlock => rfl
  | endBlock => rfl
  | statementEnd => rfl
  | @comment body c hbody hend =>
    show parseTokenFrom .tokenTypeComment ['#'.toUInt8] (body ++ [c] ++ rest) = _
    rw [List.append_assoc, parseTokenFrom_tokenTypeComment hbody]
    exact if_pos hend
  | normal hlex =>
    rcases hlex with ⟨body, hbody, rfl⟩ | ⟨body, hbody, rfl⟩ | hbare
    . show parseTokenFrom .doubleQuote ['\x22'.toUInt8] (body ++ ['\x22'.toUInt8] ++ rest) = _
      rw [List.append_assoc, parseTokenFrom_doubleQuote hbody]
      rfl
    . show parseTokenFrom .singleQuote ['\x27'.toUInt8] (body ++ ['\x27'.toUInt8] ++ rest) = _
      rw [List.append_assoc, parseTokenFrom_singleQuote hbody]
      rfl
    . rcases hends hbare with ⟨d, hd, hdelim⟩
      rw [Option.mem_def, List.head?_eq_some_iff] at hd
      rcases hd with ⟨rest, rfl⟩
      rw [parseToken_bare hbare, parseTokenFrom_tokenTypeNormal_stop hdelim]

theorem parseToken_unfinished {text : Bytes} (h : Unfinished text)
    : parseToken text = ((.eof, text), []) := by
  cases h with
  | nothing => rfl
  | bare hbare =>
    have hread := parseToken_bare hbare []
    rwa [List.append_nil] at hread
  | comment hbody =>
    have hread := parseTokenFrom_tokenTypeComment hbody ['#'.toUInt8] []
    rwa [List.append_nil] at hread

theorem parseToken_unclosed {text : Bytes} (h : Unclosed text)
    : parseToken text = ((.error, text), []) := by
  cases h with
  | single hbody =>
    have hread := parseTokenFrom_singleQuote hbody ['\x27'.toUInt8] []
    rwa [List.append_nil] at hread
  | double hbody =>
    have hread := parseTokenFrom_doubleQuote hbody ['\x22'.toUInt8] []
    rwa [List.append_nil] at hread

theorem eq_normal_of_bare {token : Token} {piece : Bytes} (hspells : Spells token piece)
    (hbare : Bare token.2) : token = (.normal, piece) := by
  have hmark {c : UInt8} (hc : Delimiter c) : ¬Bare [c] :=
    fun hbare => hbare.2.1 c (List.mem_singleton_self c) hc
  cases hspells with
  | startBlock => exact absurd hbare (hmark (by decide))
  | endBlock => exact absurd hbare (hmark (by decide))
  | statementEnd => exact absurd hbare (hmark (by decide))
  | comment hbody hend => exact absurd rfl (hbare.2.2 _ rfl).2.1
  | normal hlex => rfl

/-! ## From the token to the text -/

theorem exists_of_quote (quote : UInt8) (input : Bytes)
    : (quote ∉ input) ∨ ∃ body rest, quote ∉ body ∧ input = body ++ quote :: rest := by
  rcases exists_collected (· = quote) input with ⟨body, rest, rfl, hbody, hrest⟩
  have hbody : quote ∉ body := fun hmem => hbody quote hmem rfl
  rcases hrest with rfl | ⟨c, rest, rfl, rfl⟩
  . simp [hbody]
  . exact .inr ⟨body, rest, hbody, rfl⟩

def Starts (input : Bytes) : Prop :=
  (∃ token text rest, Spells token text ∧ Ends token rest ∧ input = text ++ rest)
    ∨ Unfinished input ∨ Unclosed input

theorem starts_quote {quote : UInt8} {input : Bytes}
    (hlex : ∀ {body}, quote ∉ body → LexValid (quote :: body ++ [quote]))
    (hquote : quote = '\x22'.toUInt8 ∨ quote = '\x27'.toUInt8)
    (hunclosed : quote ∉ input → Unclosed (quote :: input)) : Starts (quote :: input) := by
  rcases exists_of_quote quote input with hmem | ⟨body, rest, hbody, rfl⟩
  . exact .inr (.inr (hunclosed hmem))
  . refine .inl ⟨_, _, rest, .normal (hlex hbody), ?_, by simp⟩
    intro hbare
    exact absurd hbare (not_bare_quoted hquote ⟨body, hbody, rfl⟩)

theorem starts_comment (input : Bytes) : Starts ('#'.toUInt8 :: input) := by
  rcases exists_collected LineEnd input with ⟨body, rest, rfl, hbody, hrest⟩
  rcases hrest with rfl | ⟨c, rest, rfl, hc⟩
  . rw [List.append_nil]
    exact .inr (.inl (.comment hbody))
  . refine .inl ⟨_, _, rest, .comment hbody hc, ?_, by simp⟩
    rintro ⟨-, -, hhead⟩
    exact absurd rfl (hhead '#'.toUInt8 rfl).2.1

theorem starts_bare {c : UInt8} {input : Bytes} (hdelim : ¬Delimiter c)
    (hhead : c ≠ '\r'.toUInt8 ∧ c ≠ '#'.toUInt8 ∧ c ≠ '\x22'.toUInt8 ∧ c ≠ '\x27'.toUInt8)
    : Starts (c :: input) := by
  rcases exists_collected Delimiter input with ⟨body, rest, rfl, hbody, hrest⟩
  have hbare : Bare (c :: body) := by
    refine ⟨List.cons_ne_nil _ _, List.forall_mem_cons.mpr ⟨hdelim, hbody⟩, ?_⟩
    rintro c' hc'
    rw [List.head?_cons, Option.mem_some_iff] at hc'
    exact hc' ▸ hhead
  rcases hrest with rfl | ⟨d, rest, rfl, hd⟩
  . rw [List.append_nil]
    exact .inr (.inl (.bare hbare))
  . refine .inl ⟨_, _, d :: rest, .normal (.inr (.inr hbare)), ?_, rfl⟩
    intro _
    exact ⟨d, rfl, hd⟩

theorem starts_of_not_blank {c : UInt8} (hblank : ¬Blank c) (input : Bytes) : Starts (c :: input) := by
  simp only [Blank, not_or] at hblank
  by_cases hdouble : c = '\x22'.toUInt8
  . subst hdouble
    exact starts_quote (fun hbody => .inl ⟨_, hbody, rfl⟩) (.inl rfl) .double
  by_cases hsingle : c = '\x27'.toUInt8
  . subst hsingle
    exact starts_quote (fun hbody => .inr (.inl ⟨_, hbody, rfl⟩)) (.inr rfl) .single
  by_cases hhash : c = '#'.toUInt8
  . subst hhash
    exact starts_comment input
  by_cases hdelim : Delimiter c
  . have hends {tokenType : TokenType} (rest : Bytes) : Ends (tokenType, [c]) rest :=
      fun hbare => absurd hdelim (hbare.2.1 c (List.mem_singleton_self c))
    rcases hdelim with rfl | rfl | rfl | rfl | rfl | rfl
    . exact absurd rfl hblank.1
    . exact absurd rfl hblank.2.1
    . exact absurd rfl hblank.2.2.1
    . exact .inl ⟨_, _, input, .statementEnd, hends input, rfl⟩
    . exact .inl ⟨_, _, input, .startBlock, hends input, rfl⟩
    . exact .inl ⟨_, _, input, .endBlock, hends input, rfl⟩
  . exact starts_bare hdelim ⟨hblank.2.2.2, hhash, hdouble, hsingle⟩

theorem exists_starts (input : Bytes)
    : ∃ blanks text, (∀ c ∈ blanks, Blank c) ∧ Starts text ∧ input = blanks ++ text := by
  rcases exists_collected (fun c => ¬Blank c) input with ⟨blanks, text, rfl, hblanks, htext⟩
  refine ⟨blanks, text, fun c hc => not_not.mp (hblanks c hc), ?_, rfl⟩
  rcases htext with rfl | ⟨c, text, rfl, hc⟩
  . exact .inr (.inl .nothing)
  . exact starts_of_not_blank hc text

/-! ## Token streams -/

theorem spells_ne_eof {token : Token} {text : Bytes} (h : Spells token text)
    : ¬(token.1 = .eof ∨ token.1 = .error) := by
  cases h <;> simp

theorem tokens_spells {token : Token} {text rest : Bytes} (hspells : Spells token text)
    (hends : Ends token rest) : tokens (text ++ rest) = token :: tokens rest := by
  rw [tokens_eq, parseToken_spells hspells hends, if_neg (spells_ne_eof hspells)]

theorem tokens_unfinished {text : Bytes} (h : Unfinished text) : tokens text = [(.eof, text)] := by
  rw [tokens_eq, parseToken_unfinished h, if_pos (.inl rfl)]

theorem tokens_unclosed {text : Bytes} (h : Unclosed text) : tokens text = [(.error, text)] := by
  rw [tokens_eq, parseToken_unclosed h, if_pos (.inr rfl)]

theorem spells_length {token : Token} {text : Bytes} (h : Spells token text) : 0 < text.length := by
  cases h with
  | startBlock | endBlock | statementEnd | comment => simp
  | normal hlex =>
    rcases hlex with ⟨body, -, rfl⟩ | ⟨body, -, rfl⟩ | ⟨hne, -⟩
    . simp
    . simp
    . exact List.length_pos_iff.mpr hne

/--
Successive calls of `ParseToken` on a text take it apart into blanks and tokens, up to what the end of the
file cuts off.
-/
theorem input_induction {motive : Bytes → Prop}
    (unfinished : ∀ text, Unfinished text → motive text)
    (unclosed : ∀ text, Unclosed text → motive text)
    (token : ∀ tok text rest, Spells tok text → Ends tok rest → motive rest → motive (text ++ rest))
    (blanks : ∀ run text, (∀ c ∈ run, Blank c) → motive text → motive (run ++ text))
    (input : Bytes) : motive input := by
  rcases exists_starts input with ⟨run, text, hrun, hstarts, hinput⟩
  rw [hinput]
  apply blanks run text hrun
  rcases hstarts with ⟨tok, text', rest, hspells, hends, htext⟩ | hunfinished | hunclosed
  . rw [htext]
    have hshorter : rest.length < input.length := by
      have := spells_length hspells
      rw [hinput, htext, List.length_append, List.length_append]
      omega
    exact token tok text' rest hspells hends (input_induction unfinished unclosed token blanks rest)
  . exact unfinished text hunfinished
  . exact unclosed text hunclosed
termination_by input.length

end NginxConfigParser

end Foxy
