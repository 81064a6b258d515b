import FoxyServer.Config.Basic

/-!
This module contains the lexer of the config parser and what its tokens look like.
-/

namespace Foxy

namespace NginxConfigParser

inductive TokenType where
  | start
  | normal
  | startBlock
  | endBlock
  | comment
  | statementEnd
  | eof
  | error
  deriving DecidableEq, Repr

inductive TokenParserState where
  | initialWhitespace
  | singleQuote
  | doubleQuote
  | tokenTypeComment
  | tokenTypeNormal
  deriving DecidableEq, Repr

abbrev Token := TokenType × Bytes

/--
The loop of `ParseToken`. Returns the token and the input that is left; a bare token ends in front of
the byte that ends it.
-/
def parseTokenFrom (state : TokenParserState) (value : Bytes) : Bytes → Token × Bytes
  | [] =>
    -- an open quote is an error; what has been read of a bare token or a comment is lost
    if state = .singleQuote ∨ state = .doubleQuote then
      ((.error, value), [])
    else
      ((.eof, value), [])
  | c :: input =>
    match state with
    | .initialWhitespace =>
      if c = '\x7b'.toUInt8 then
        ((.startBlock, [c]), input)
      else if c = '\x7d'.toUInt8 then
        ((.endBlock, [c]), input)
      else if c = '#'.toUInt8 then
        parseTokenFrom .tokenTypeComment [c] input
      else if c = '\x22'.toUInt8 then
        parseTokenFrom .doubleQuote [c] input
      else if c = '\x27'.toUInt8 then
        parseTokenFrom .singleQuote [c] input
      else if c = ';'.toUInt8 then
        ((.statementEnd, [c]), input)
      else if c = ' '.toUInt8 ∨ c = '\t'.toUInt8 ∨ c = '\n'.toUInt8 ∨ c = '\r'.toUInt8 then
        parseTokenFrom .initialWhitespace value input
      else
        parseTokenFrom .tokenTypeNormal (value ++ [c]) input
    | .singleQuote =>
      if c = '\x27'.toUInt8 then
        ((.normal, value ++ [c]), input)
      else
        parseTokenFrom .singleQuote (value ++ [c]) input
    | .doubleQuote =>
      if c = '\x22'.toUInt8 then
        ((.normal, value ++ [c]), input)
      else
        parseTokenFrom .doubleQuote (value ++ [c]) input
    | .tokenTypeComment =>
      if c = '\n'.toUInt8 ∨ c = '\r'.toUInt8 then
        ((.comment, value), input)
      else
        parseTokenFrom .tokenTypeComment (value ++ [c]) input
    | .tokenTypeNormal =>
      if c = ' '.toUInt8 ∨ c = '\t'.toUInt8 ∨ c = '\n'.toUInt8
          ∨ c = ';'.toUInt8 ∨ c = '\x7b'.toUInt8 ∨ c = '\x7d'.toUInt8 then
        -- the byte that ends a bare token is put back
        ((.normal, value), c :: input)
      else
        parseTokenFrom .tokenTypeNormal (value ++ [c]) input

def parseToken (input : Bytes) : Token × Bytes :=
  parseTokenFrom .initialWhitespace [] input

example :
    parseToken (Bytes.lit "\tlisten 80;") = ((.normal, Bytes.lit "listen"), Bytes.lit " 80;") := by
  decide

/-! ## The token stream -/

def tokensWithin : Nat → Bytes → List Token
  | 0, _ => []
  | fuel + 1, input =>
    if (parseToken input).1.1 = .eof ∨ (parseToken input).1.1 = .error then
      [(parseToken input).1]
    else
      (parseToken input).1 :: tokensWithin fuel (parseToken input).2

def tokens (input : Bytes) : List Token :=
  tokensWithin (input.length + 1) input

theorem parseTokenFrom_rest_length (state : TokenParserState) (value input : Bytes)
    : (parseTokenFrom state value input).2.length ≤ input.length
        ∧ (state = .initialWhitespace →
            (parseTokenFrom state value input).1.1 ≠ .eof →
            (parseTokenFrom state value input).1.1 ≠ .error →
            (parseTokenFrom state value input).2.length < input.length) := by
  induction input generalizing state value with
  | nil =>
    rw [parseTokenFrom]
    split <;> simp
  | cons c input ih =>
    have hle := fun state value => (ih state value).1
    have hlt := fun value => (ih .initialWhitespace value).2 rfl
    cases state <;> simp only [parseTokenFrom, List.length_cons] <;> split_ifs <;>
      simp only [false_implies, and_true, true_implies, Nat.lt_succ_iff] <;>
      grind

theorem parseToken_rest_length {input : Bytes} (heof : (parseToken input).1.1 ≠ .eof)
    (herror : (parseToken input).1.1 ≠ .error) : (parseToken input).2.length < input.length :=
  (parseTokenFrom_rest_length ..).2 rfl heof herror

theorem parseToken_ne_start (input : Bytes) : (parseToken input).1.1 ≠ .start := by
  have hfrom (state : TokenParserState) (value : Bytes) : (parseTokenFrom state value input).1.1 ≠ .start := by
    induction input generalizing state value with
    | nil =>
      rw [parseTokenFrom]
      split <;> simp
    | cons c input ih => cases state <;> simp only [parseTokenFrom] <;> split_ifs <;> simp [ih]
  exact hfrom _ _

theorem tokensWithin_eq {fuel fuel' : Nat} {input : Bytes} (h : input.length < fuel)
    (h' : input.length < fuel') : tokensWithin fuel input = tokensWithin fuel' input := by
  induction fuel generalizing fuel' input with
  | zero => omega
  | succ fuel ih =>
    cases fuel' with
    | zero => omega
    | succ fuel' =>
      rw [tokensWithin, tokensWithin]
      split_ifs with hend
      . rfl
      . rw [not_or] at hend
        have := parseToken_rest_length hend.1 hend.2
        exact congrArg _ (ih (by omega) (by omega))

theorem tokens_eq (input : Bytes)
    : tokens input
        =
      if (parseToken input).1.1 = .eof ∨ (parseToken input).1.1 = .error then
        [(parseToken input).1]
      else
        (parseToken input).1 :: tokens (parseToken input).2 := by
  rw [tokens, tokensWithin]
  split_ifs with hend
  . rfl
  . rw [not_or] at hend
    have := parseToken_rest_length hend.1 hend.2
    rw [tokensWithin_eq this (Nat.lt_succ_self _), tokens]

/-! ## The shape of the tokens -/

def Delimiter (c : UInt8) : Prop :=
  c = ' '.toUInt8 ∨ c = '\t'.toUInt8 ∨ c = '\n'.toUInt8
    ∨ c = ';'.toUInt8 ∨ c = '\x7b'.toUInt8 ∨ c = '\x7d'.toUInt8

instance (c : UInt8) : Decidable (Delimiter c) := inferInstanceAs (Decidable (_ ∨ _))

def Blank (c : UInt8) : Prop :=
  c = ' '.toUInt8 ∨ c = '\t'.toUInt8 ∨ c = '\n'.toUInt8 ∨ c = '\r'.toUInt8

instance (c : UInt8) : Decidable (Blank c) := inferInstanceAs (Decidable (_ ∨ _))

def Quoted (quote : UInt8) (token : Bytes) : Prop :=
  ∃ body, quote ∉ body ∧ token = quote :: body ++ [quote]

def Bare (token : Bytes) : Prop :=
  token ≠ [] ∧ (∀ c ∈ token, ¬Delimiter c)
    ∧ ∀ c ∈ token.head?,
        c ≠ '\r'.toUInt8 ∧ c ≠ '#'.toUInt8 ∧ c ≠ '\x22'.toUInt8 ∧ c ≠ '\x27'.toUInt8

/--
The tokens the lexer can deliver: a quoted string with no further quote of its kind, or a bare run.
-/
def LexValid (token : Bytes) : Prop :=
  Quoted '\x22'.toUInt8 token ∨ Quoted '\x27'.toUInt8 token ∨ Bare token

theorem collect_append {α : Type} {f : Bytes → Bytes → α} {g : Bytes → UInt8 → Bytes → α}
    {stop : UInt8 → Prop} [DecidablePred stop]
    (hf : ∀ value c input,
      f value (c :: input) = if stop c then g value c input else f (value ++ [c]) input)
    {body : Bytes} (hbody : ∀ c ∈ body, ¬stop c) (value input : Bytes)
    : f value (body ++ input) = f (value ++ body) input := by
  induction body generalizing value with
  | nil => simp
  | cons c body ih =>
    rw [List.cons_append, hf, if_neg (hbody c List.mem_cons_self),
      ih (fun c hc => hbody c (List.mem_cons_of_mem _ hc))]
    simp

theorem exists_collected (stop : UInt8 → Prop) [DecidablePred stop] (input : Bytes)
    : ∃ body rest, input = body ++ rest ∧ (∀ c ∈ body, ¬stop c)
        ∧ (rest = [] ∨ ∃ c input', rest = c :: input' ∧ stop c) := by
  induction input with
  | nil => exact ⟨[], [], by simp⟩
  | cons c input ih =>
    by_cases hc : stop c
    . exact ⟨[], c :: input, by simp [hc]⟩
    . rcases ih with ⟨body, rest, rfl, hbody, hrest⟩
      exact ⟨c :: body, rest, by simp, by simp_all, hrest⟩

theorem parseTokenFrom_singleQuote {body : Bytes} (hbody : '\x27'.toUInt8 ∉ body) (value input : Bytes)
    : parseTokenFrom .singleQuote value (body ++ input)
        =
      parseTokenFrom .singleQuote (value ++ body) input := by
  apply collect_append (fun value c input => by rw [parseTokenFrom])
  rintro c hc rfl
  exact hbody hc

theorem parseTokenFrom_doubleQuote {body : Bytes} (hbody : '\x22'.toUInt8 ∉ body) (value input : Bytes)
    : parseTokenFrom .doubleQuote value (body ++ input)
        =
      parseTokenFrom .doubleQuote (value ++ body) input := by
  apply collect_append (fun value c input => by rw [parseTokenFrom])
  rintro c hc rfl
  exact hbody hc

theorem parseTokenFrom_tokenTypeComment {body : Bytes}
    (hbody : ∀ c ∈ body, ¬(c = '\n'.toUInt8 ∨ c = '\r'.toUInt8)) (value input : Bytes)
    : parseTokenFrom .tokenTypeComment value (body ++ input)
        =
      parseTokenFrom .tokenTypeComment (value ++ body) input :=
  collect_append (fun value c input => by rw [parseTokenFrom]) hbody value input

theorem parseTokenFrom_tokenTypeNormal {body : Bytes} (hbody : ∀ c ∈ body, ¬Delimiter c)
    (value input : Bytes)
    : parseTokenFrom .tokenTypeNormal value (body ++ input)
        =
      parseTokenFrom .tokenTypeNormal (value ++ body) input :=
  collect_append (fun value c input => by rw [parseTokenFrom]; rfl) hbody value input

theorem parseTokenFrom_tokenTypeNormal_stop {d : UInt8} (hd : Delimiter d) (value input : Bytes)
    : parseTokenFrom .tokenTypeNormal value (d :: input) = ((.normal, value), d :: input) := by
  rw [parseTokenFrom]
  exact if_pos hd

theorem parseToken_blank {c : UInt8} (hc : Blank c) (input : Bytes)
    : parseToken (c :: input) = parseToken input := by
  rcases hc with rfl | rfl | rfl | rfl <;> rfl

theorem tokens_blank {c : UInt8} (hc : Blank c) (input : Bytes) : tokens (c :: input) = tokens input := by
  rw [tokens_eq, parseToken_blank hc, ← tokens_eq]

theorem parseToken_bare_start {c : UInt8} (hdelim : ¬Delimiter c) (hcr : c ≠ '\r'.toUInt8)
    (hhash : c ≠ '#'.toUInt8) (hdouble : c ≠ '\x22'.toUInt8) (hsingle : c ≠ '\x27'.toUInt8)
    (input : Bytes) : parseToken (c :: input) = parseTokenFrom .tokenTypeNormal [c] input := by
  simp only [Delimiter, not_or] at hdelim
  simp only [parseToken, parseTokenFrom, hdelim, hcr, hhash, hdouble, hsingle, if_false, or_self,
    List.nil_append]

theorem parseToken_of_lexValid {token : Bytes} (h : LexValid token) {d : UInt8} (hd : Delimiter d)
    (input : Bytes) : parseToken (token ++ d :: input) = ((.normal, token), d :: input) := by
  rcases h with ⟨body, hbody, rfl⟩ | ⟨body, hbody, rfl⟩ | ⟨hne, hbare, hhead⟩
  . show parseTokenFrom .doubleQuote ['\x22'.toUInt8] (body ++ ['\x22'.toUInt8] ++ d :: input) = _
    rw [List.append_assoc, parseTokenFrom_doubleQuote hbody]
    rfl
  . show parseTokenFrom .singleQuote ['\x27'.toUInt8] (body ++ ['\x27'.toUInt8] ++ d :: input) = _
    rw [List.append_assoc, parseTokenFrom_singleQuote hbody]
    rfl
  . cases token with
    | nil => exact absurd rfl hne
    | cons c body =>
      rcases hhead c rfl with ⟨hcr, hhash, hdouble, hsingle⟩
      rw [List.cons_append,
        parseToken_bare_start (hbare c List.mem_cons_self) hcr hhash hdouble hsingle,
        parseTokenFrom_tokenTypeNormal (fun c hc => hbare c (List.mem_cons_of_mem _ hc)),
        parseTokenFrom_tokenTypeNormal_stop hd]
      rfl

theorem lexValid_of_parseTokenFrom_tokenTypeNormal {c : UInt8} {input : Bytes}
    (hdelim : ¬Delimiter c) (hhead : c ≠ '\r'.toUInt8 ∧ c ≠ '#'.toUInt8 ∧ c ≠ '\x22'.toUInt8
      ∧ c ≠ '\x27'.toUInt8)
    (h : (parseTokenFrom .tokenTypeNormal [c] input).1.1 = .normal)
    : LexValid (parseTokenFrom .tokenTypeNormal [c] input).1.2 := by
  rcases exists_collected Delimiter input with ⟨body, rest, rfl, hbody, hrest⟩
  rw [parseTokenFrom_tokenTypeNormal hbody] at h ⊢
  rcases hrest with rfl | ⟨d, rest, rfl, hd⟩
  . cases h
  . rw [parseTokenFrom_tokenTypeNormal_stop hd]
    refine .inr (.inr ⟨by simp, ?_, ?_⟩)
    . intro b hb
      rcases List.mem_cons.mp hb with rfl | hb
      . exact hdelim
      . exact hbody b hb
    . rintro b hb
      simp only [List.cons_append, List.head?_cons, Option.mem_some_iff] at hb
      exact hb ▸ hhead

theorem lexValid_of_parseTokenFrom_singleQuote {input : Bytes}
    (h : (parseTokenFrom .singleQuote ['\x27'.toUInt8] input).1.1 = .normal)
    : LexValid (parseTokenFrom .singleQuote ['\x27'.toUInt8] input).1.2 := by
  rcases exists_collected (· = '\x27'.toUInt8) input with ⟨body, rest, rfl, hbody, hrest⟩
  have hbody : '\x27'.toUInt8 ∉ body := fun hmem => hbody _ hmem rfl
  rw [parseTokenFrom_singleQuote hbody] at h ⊢
  rcases hrest with rfl | ⟨d, rest, rfl, rfl⟩
  . cases h
  . rw [parseTokenFrom, if_pos rfl]
    exact .inr (.inl ⟨body, hbody, rfl⟩)

theorem lexValid_of_parseTokenFrom_doubleQuote {input : Bytes}
    (h : (parseTokenFrom .doubleQuote ['\x22'.toUInt8] input).1.1 = .normal)
    : LexValid (parseTokenFrom .doubleQuote ['\x22'.toUInt8] input).1.2 := by
  rcases exists_collected (· = '\x22'.toUInt8) input with ⟨body, rest, rfl, hbody, hrest⟩
  have hbody : '\x22'.toUInt8 ∉ body := fun hmem => hbody _ hmem rfl
  rw [parseTokenFrom_doubleQuote hbody] at h ⊢
  rcases hrest with rfl | ⟨d, rest, rfl, rfl⟩
  . cases h
  . rw [parseTokenFrom, if_pos rfl]
    exact .inl ⟨body, hbody, rfl⟩

theorem parseTokenFrom_tokenTypeComment_ne_normal (value input : Bytes)
    : (parseTokenFrom .tokenTypeComment value input).1.1 ≠ .normal := by
  rcases exists_collected (fun c => c = '\n'.toUInt8 ∨ c = '\r'.toUInt8) input
    with ⟨body, rest, rfl, hbody, hrest⟩
  rw [parseTokenFrom_tokenTypeComment hbody]
  rcases hrest with rfl | ⟨c, rest, rfl, hc⟩
  . simp [parseTokenFrom]
  . rw [parseTokenFrom, if_pos hc]
    simp

theorem lexValid_of_parseToken {input : Bytes} (h : (parseToken input).1.1 = .normal)
    : LexValid (parseToken input).1.2 := by
  induction input with
  | nil => cases h
  | cons c input ih =>
    by_cases hblank : Blank c
    . rw [parseToken_blank hblank] at h ⊢
      exact ih h
    . by_cases hdouble : c = '\x22'.toUInt8
      . subst hdouble
        exact lexValid_of_parseTokenFrom_doubleQuote h
      . by_cases hsingle : c = '\x27'.toUInt8
        . subst hsingle
          exact lexValid_of_parseTokenFrom_singleQuote h
        . by_cases hhash : c = '#'.toUInt8
          . subst hhash
            exact absurd h (parseTokenFrom_tokenTypeComment_ne_normal _ _)
          . by_cases hdelim : Delimiter c
            . rcases hdelim with rfl | rfl | rfl | rfl | rfl | rfl <;>
                first | cases h | simp [Blank] at hblank
            . simp only [Blank, not_or] at hblank
              rw [parseToken_bare_start hdelim hblank.2.2.2 hhash hdouble hsingle] at h ⊢
              exact lexValid_of_parseTokenFrom_tokenTypeNormal hdelim
                ⟨hblank.2.2.2, hhash, hdouble, hsingle⟩ h

end NginxConfigParser

end Foxy
