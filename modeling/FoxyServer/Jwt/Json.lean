import FoxyServer.Library.Bytes
import FoxyServer.Library.OrdMap

/-!
This module contains JSON as picojson writes and reads it.
-/

namespace Foxy

/--
Numbers of type `double`: the finite one that `strtod` makes of the whole of a text, if there is one, and the
text that `snprintf` makes of one.
-/
structure Doubles where
  Double : Type
  strtod : Bytes → Option Double
  print : Double → Bytes

namespace picojson

/-- The members of an object are those of a `std::map`, sorted by their names. -/
inductive Value (δ : Type) where
  | null
  | boolean (b : Bool)
  | int64 (i : Int64)
  | number (x : δ)
  | string (s : Bytes)
  | array (items : List (Value δ))
  | object (members : List (Bytes × Value δ))

variable (doubles : Doubles)

/-! ## Writing -/

def hexDigit (n : Nat) : UInt8 :=
  if n < 10 then UInt8.ofNat (n + 48) else UInt8.ofNat (n + 87)

def escapes : List (UInt8 × UInt8) :=
  [('"'.toUInt8, '"'.toUInt8), ('\\'.toUInt8, '\\'.toUInt8), ('/'.toUInt8, '/'.toUInt8), ('b'.toUInt8, 8),
    ('f'.toUInt8, 12), ('n'.toUInt8, '\n'.toUInt8), ('r'.toUInt8, '\r'.toUInt8), ('t'.toUInt8, '\t'.toUInt8)]

def serializeStrChar (c : UInt8) : Bytes :=
  match escapes.find? (fun e => e.2 = c) with
  | some e => ['\\'.toUInt8, e.1]
  | none =>
    if c < 0x20 ∨ c = 0x7f then
      Bytes.lit "\\u00" ++ [hexDigit (c.toNat / 16), hexDigit (c.toNat % 16)]
    else
      [c]

def serializeStr (s : Bytes) : Bytes :=
  '"'.toUInt8 :: (s.flatMap serializeStrChar ++ ['"'.toUInt8])

mutual

def serialize : Value doubles.Double → Bytes
  | .null => Bytes.lit "null"
  | .boolean b => if b then Bytes.lit "true" else Bytes.lit "false"
  | .int64 i => Bytes.ofInt i.toInt
  | .number x => doubles.print x
  | .string s => serializeStr s
  | .array items => '['.toUInt8 :: (serializeItems true items ++ [']'.toUInt8])
  | .object members => '{'.toUInt8 :: (serializeMembers true members ++ ['}'.toUInt8])

def serializeItems (first : Bool) : List (Value doubles.Double) → Bytes
  | [] => []
  | item :: items => (if first then [] else [','.toUInt8]) ++ serialize item ++ serializeItems false items

def serializeMembers (first : Bool) : List (Bytes × Value doubles.Double) → Bytes
  | [] => []
  | (key, item) :: members =>
    (if first then [] else [','.toUInt8]) ++ serializeStr key ++ ':'.toUInt8 :: serialize item
      ++ serializeMembers false members

end

/-! ## Reading -/

def isWs (c : UInt8) : Bool :=
  c = ' '.toUInt8 || c = '\t'.toUInt8 || c = '\n'.toUInt8 || c = '\r'.toUInt8

def skipWs (s : Bytes) : Bytes :=
  s.dropWhile isWs

/-- The rest behind the character. Where it is not there, what is read next skips the white space again. -/
def expect (expected : UInt8) (s : Bytes) : Option Bytes :=
  match skipWs s with
  | c :: s => if c = expected then some s else none
  | [] => none

def matchText (pattern : Bytes) (s : Bytes) : Option Bytes :=
  if pattern.isPrefixOf s then some (s.drop pattern.length) else none

def hexValue (c : UInt8) : Option Nat :=
  if '0'.toUInt8 ≤ c ∧ c ≤ '9'.toUInt8 then some (c.toNat - 48)
  else if 'A'.toUInt8 ≤ c ∧ c ≤ 'F'.toUInt8 then some (c.toNat - 55)
  else if 'a'.toUInt8 ≤ c ∧ c ≤ 'f'.toUInt8 then some (c.toNat - 87)
  else none

def parseQuadhex : Bytes → Option (Nat × Bytes)
  | a :: b :: c :: d :: s => do
    let uniCh := ((((← hexValue a) * 16 + (← hexValue b)) * 16 + (← hexValue c)) * 16 + (← hexValue d))
    return (uniCh, s)
  | _ => none

def pushCodepoint (uniCh : Nat) : Bytes :=
  if uniCh < 0x80 then
    [UInt8.ofNat uniCh]
  else if uniCh < 0x800 then
    [UInt8.ofNat (0xc0 ||| (uniCh >>> 6)), UInt8.ofNat (0x80 ||| (uniCh &&& 0x3f))]
  else if uniCh < 0x10000 then
    [UInt8.ofNat (0xe0 ||| (uniCh >>> 12)), UInt8.ofNat (0x80 ||| ((uniCh >>> 6) &&& 0x3f)),
      UInt8.ofNat (0x80 ||| (uniCh &&& 0x3f))]
  else
    [UInt8.ofNat (0xf0 ||| (uniCh >>> 18)), UInt8.ofNat (0x80 ||| ((uniCh >>> 12) &&& 0x3f)),
      UInt8.ofNat (0x80 ||| ((uniCh >>> 6) &&& 0x3f)), UInt8.ofNat (0x80 ||| (uniCh &&& 0x3f))]

def parseCodepoint (s : Bytes) : Option (Bytes × Bytes) := do
  let (uniCh, s) ← parseQuadhex s
  if 0xd800 ≤ uniCh ∧ uniCh ≤ 0xdfff then
    if 0xdc00 ≤ uniCh then
      none
    else
      let s ← matchText (Bytes.lit "\\u") s
      let (second, s) ← parseQuadhex s
      if 0xdc00 ≤ second ∧ second ≤ 0xdfff then
        let uniCh := (((uniCh - 0xd800) <<< 10) ||| ((second - 0xdc00) &&& 0x3ff)) + 0x10000
        return (pushCodepoint uniCh, s)
      else
        none
  else
    return (pushCodepoint uniCh, s)

def parseEscape : Bytes → Option (Bytes × Bytes)
  | [] => none
  | ch :: s =>
    match escapes.find? (fun e => e.1 = ch) with
    | some e => some ([e.2], s)
    | none => if ch = 'u'.toUInt8 then parseCodepoint s else none

def parseStringChar (ch : UInt8) (s : Bytes) : Option (Bytes × Bytes) :=
  if ch = '\\'.toUInt8 then parseEscape s else some ([ch], s)

def parseStringLoop : Nat → Bytes → Option (Bytes × Bytes)
  | 0, _ => none
  | _ + 1, [] => none
  | fuel + 1, ch :: s =>
    if ch < 0x20 then
      none
    else if ch = '"'.toUInt8 then
      some ([], s)
    else do
      let (front, s) ← parseStringChar ch s
      let (out, s) ← parseStringLoop fuel s
      return (front ++ out, s)

/-- Every pass reads something, so there are no more passes than characters. -/
def parseString (s : Bytes) : Option (Bytes × Bytes) :=
  parseStringLoop s.length s

def isNumberChar (ch : UInt8) : Bool :=
  ('0'.toUInt8 ≤ ch && ch ≤ '9'.toUInt8) || ch = '+'.toUInt8 || ch = '-'.toUInt8 || ch = 'e'.toUInt8
    || ch = 'E'.toUInt8 || ch = '.'.toUInt8

/-- `strtoimax`, where it reads the whole of a text without white space and the number fits. -/
def strtoimax (s : Bytes) : Option Int64 :=
  let negative := s.head? = some '-'.toUInt8
  let digits := if negative ∨ s.head? = some '+'.toUInt8 then s.tail else s
  let value : Int := if negative then -Bytes.decimalValue digits else Bytes.decimalValue digits
  if digits ≠ [] ∧ digits.all Bytes.isDigit
      ∧ Int64.minValue.toInt ≤ value ∧ value ≤ Int64.maxValue.toInt then
    some (Int64.ofInt value)
  else
    none

def parseNumber (s : Bytes) : Option (Value doubles.Double × Bytes) :=
  let numStr := s.takeWhile isNumberChar
  match strtoimax numStr with
  | some ival => some (.int64 ival, s.dropWhile isNumberChar)
  | none => (doubles.strtod numStr).map (fun f => (.number f, s.dropWhile isNumberChar))

def parseScalar (ch : UInt8) (s : Bytes) : Option (Value doubles.Double × Bytes) :=
  if ch = 'n'.toUInt8 then (matchText (Bytes.lit "ull") s).map (fun s => (.null, s))
  else if ch = 'f'.toUInt8 then (matchText (Bytes.lit "alse") s).map (fun s => (.boolean false, s))
  else if ch = 't'.toUInt8 then (matchText (Bytes.lit "rue") s).map (fun s => (.boolean true, s))
  else if ch = '"'.toUInt8 then (parseString s).map (fun (out, s) => (.string out, s))
  else if ('0'.toUInt8 ≤ ch ∧ ch ≤ '9'.toUInt8) ∨ ch = '-'.toUInt8 then parseNumber doubles (ch :: s)
  else none

mutual

def parseValue : Nat → Bytes → Option (Value doubles.Double × Bytes)
  | 0, _ => none
  | fuel + 1, s =>
    match skipWs s with
    | [] => none
    | ch :: s =>
      if ch = '['.toUInt8 then
        match expect ']'.toUInt8 s with
        | some s => some (.array [], s)
        | none => do
          let (items, s) ← parseItems fuel s
          let s ← expect ']'.toUInt8 s
          return (.array items, s)
      else if ch = '{'.toUInt8 then
        match expect '}'.toUInt8 s with
        | some s => some (.object [], s)
        | none => do
          let (members, s) ← parseMembers fuel s []
          let s ← expect '}'.toUInt8 s
          return (.object members, s)
      else
        parseScalar doubles ch s

def parseItems : Nat → Bytes → Option (List (Value doubles.Double) × Bytes)
  | 0, _ => none
  | fuel + 1, s => do
    let (item, s) ← parseValue fuel s
    match expect ','.toUInt8 s with
    | some s =>
      let (items, s) ← parseItems fuel s
      return (item :: items, s)
    | none => return ([item], s)

/-- A name that occurs again gets the later value. -/
def parseMembers : Nat → Bytes → List (Bytes × Value doubles.Double)
    → Option (List (Bytes × Value doubles.Double) × Bytes)
  | 0, _, _ => none
  | fuel + 1, s, members => do
    let s ← expect '"'.toUInt8 s
    let (key, s) ← parseString s
    let s ← expect ':'.toUInt8 s
    let (item, s) ← parseValue fuel s
    let members := OrdMap.alterEntries key (fun _ => item) members
    match expect ','.toUInt8 s with
    | some s => parseMembers fuel s members
    | none => return (members, s)

end

def parse (s : Bytes) : Option (Value doubles.Double) :=
  (parseValue doubles (2 * s.length + 1) s).map Prod.fst

/-! ## Passes -/

def Shorter {α : Type} (s : Bytes) (r : Option (α × Bytes)) : Prop :=
  ∀ a rest, r = some (a, rest) → rest.length < s.length

theorem length_skipWs (s : Bytes) : (skipWs s).length ≤ s.length :=
  (List.dropWhile_sublist isWs).length_le

theorem length_expect {expected : UInt8} {s rest : Bytes} (h : expect expected s = some rest)
    : rest.length < s.length := by
  have hskip := length_skipWs s
  unfold expect at h
  split at h
  next c t heq =>
    rw [heq, List.length_cons] at hskip
    split_ifs at h
    rw [Option.some.injEq] at h
    rw [← h]
    omega
  next => cases h

theorem length_matchText {pattern s rest : Bytes} (h : matchText pattern s = some rest)
    : rest.length ≤ s.length := by
  unfold matchText at h
  split_ifs at h
  rw [Option.some.injEq] at h
  rw [← h, List.length_drop]
  omega

theorem shorter_parseQuadhex (s : Bytes) : Shorter s (parseQuadhex s) := by
  intro n rest h
  unfold parseQuadhex at h
  split at h
  next a b c d t =>
    simp only [Option.bind_eq_bind, Option.pure_def, Option.bind_eq_some_iff, Option.some.injEq,
      Prod.mk.injEq] at h
    rcases h with ⟨_, -, _, -, _, -, _, -, -, rfl⟩
    simp only [List.length_cons]
    omega
  next => cases h

theorem shorter_parseCodepoint (s : Bytes) : Shorter s (parseCodepoint s) := by
  intro out rest h
  unfold parseCodepoint at h
  simp only [Option.bind_eq_bind, Option.pure_def] at h
  rcases Option.bind_eq_some_iff.mp h with ⟨⟨uniCh, s1⟩, hfirst, h⟩
  have hlength := shorter_parseQuadhex s uniCh s1 hfirst
  dsimp only at h
  split_ifs at h
  . rcases Option.bind_eq_some_iff.mp h with ⟨s2, hmatch, h⟩
    rcases Option.bind_eq_some_iff.mp h with ⟨⟨second, s3⟩, hsecond, h⟩
    have hmatch' := length_matchText hmatch
    have hlength' := shorter_parseQuadhex s2 second s3 hsecond
    dsimp only at h
    split_ifs at h
    simp only [Option.some.injEq, Prod.mk.injEq] at h
    rw [← h.2]
    omega
  . simp only [Option.some.injEq, Prod.mk.injEq] at h
    rw [← h.2]
    exact hlength

theorem shorter_parseEscape (s : Bytes) : Shorter s (parseEscape s) := by
  intro out rest h
  cases s with
  | nil => cases h
  | cons ch s =>
    rw [List.length_cons]
    unfold parseEscape at h
    dsimp only at h
    split at h
    next e _ =>
      simp only [Option.some.injEq, Prod.mk.injEq] at h
      rw [← h.2]
      omega
    next =>
      split_ifs at h
      exact (shorter_parseCodepoint s out rest h).trans s.length.lt_succ_self

theorem length_parseStringChar {ch : UInt8} {s front rest : Bytes}
    (h : parseStringChar ch s = some (front, rest)) : rest.length ≤ s.length := by
  unfold parseStringChar at h
  split_ifs at h
  . exact (shorter_parseEscape s front rest h).le
  . simp only [Option.some.injEq, Prod.mk.injEq] at h
    rw [h.2]

theorem parseStringLoop_succ {fuel : Nat} {ch : UInt8} {s out rest : Bytes}
    (h : parseStringLoop (fuel + 1) (ch :: s) = some (out, rest))
    : rest = s ∨ ∃ s' out', s'.length ≤ s.length ∧ parseStringLoop fuel s' = some (out', rest) := by
  rw [parseStringLoop] at h
  split at h
  next => cases h
  next =>
    split at h
    next =>
      simp only [Option.some.injEq, Prod.mk.injEq] at h
      exact .inl h.2.symm
    next =>
      rcases Option.bind_eq_some_iff.mp h with ⟨⟨front, s1⟩, hfront, h⟩
      rcases Option.bind_eq_some_iff.mp h with ⟨⟨out', s2⟩, hloop, h⟩
      simp only [Option.pure_def, Option.some.injEq, Prod.mk.injEq] at h
      exact .inr ⟨s1, out', length_parseStringChar hfront, h.2 ▸ hloop⟩

theorem shorter_parseStringLoop (fuel : Nat) (s : Bytes) : Shorter s (parseStringLoop fuel s) := by
  induction fuel generalizing s with
  | zero =>
    intro out rest h
    cases h
  | succ fuel ih =>
    intro out rest h
    cases s with
    | nil => cases h
    | cons ch s =>
      rw [List.length_cons]
      cases parseStringLoop_succ h with
      | inl hrest =>
        rw [hrest]
        omega
      | inr hmore =>
        rcases hmore with ⟨s', out', hlength, hloop⟩
        have hshorter := ih s' out' rest hloop
        omega

theorem parseStringLoop_enough {fuel : Nat} {s : Bytes} (h : s.length ≤ fuel)
    : parseStringLoop fuel s = parseString s := by
  have hsame : ∀ (fuel fuel' : Nat) (s : Bytes), s.length ≤ fuel → s.length ≤ fuel' →
      parseStringLoop fuel s = parseStringLoop fuel' s := by
    intro fuel
    induction fuel with
    | zero =>
      intro fuel' s hfuel hfuel'
      rw [List.length_eq_zero_iff.mp (by omega : s.length = 0)]
      cases fuel' <;> rfl
    | succ fuel ih =>
      intro fuel' s hfuel hfuel'
      cases s with
      | nil => cases fuel' <;> rfl
      | cons ch s =>
        cases fuel' with
        | zero => simp at hfuel'
        | succ fuel' =>
          rw [List.length_cons] at hfuel hfuel'
          rw [parseStringLoop, parseStringLoop]
          apply ite_congr rfl (fun _ => rfl)
          intro _
          apply ite_congr rfl (fun _ => rfl)
          intro _
          apply Option.bind_congr
          rintro ⟨front, s1⟩ hfront
          have hlength := length_parseStringChar hfront
          dsimp only
          rw [ih fuel' s1 (by omega) (by omega)]
  exact hsame fuel s.length s h (le_refl _)

theorem shorter_parseNumber {ch : UInt8} {s : Bytes} (h : isNumberChar ch = true)
    : Shorter (ch :: s) (parseNumber doubles (ch :: s)) := by
  have hlength := (List.dropWhile_sublist isNumberChar (l := s)).length_le
  have hdrop : (ch :: s).dropWhile isNumberChar = s.dropWhile isNumberChar := List.dropWhile_cons_of_pos h
  intro v rest hread
  rw [List.length_cons]
  unfold parseNumber at hread
  rw [hdrop] at hread
  dsimp only at hread
  split at hread
  next =>
    simp only [Option.some.injEq, Prod.mk.injEq] at hread
    rw [← hread.2]
    omega
  next =>
    rcases Option.map_eq_some_iff.mp hread with ⟨f, -, heq⟩
    rw [Prod.mk.injEq] at heq
    rw [← heq.2]
    omega

theorem shorter_parseScalar (ch : UInt8) (s : Bytes) : Shorter (ch :: s) (parseScalar doubles ch s) := by
  intro v rest h
  have hliteral : ∀ {pattern : Bytes} {w : Value doubles.Double},
      (matchText pattern s).map (fun s => (w, s)) = some (v, rest) → rest.length < (ch :: s).length := by
    intro pattern w heq
    rcases Option.map_eq_some_iff.mp heq with ⟨s', hmatch, heq⟩
    rw [Prod.mk.injEq] at heq
    have hlength := length_matchText hmatch
    rw [← heq.2, List.length_cons]
    omega
  rw [parseScalar] at h
  by_cases hn : ch = 'n'.toUInt8
  . rw [if_pos hn] at h
    exact hliteral h
  rw [if_neg hn] at h
  by_cases hf : ch = 'f'.toUInt8
  . rw [if_pos hf] at h
    exact hliteral h
  rw [if_neg hf] at h
  by_cases ht : ch = 't'.toUInt8
  . rw [if_pos ht] at h
    exact hliteral h
  rw [if_neg ht] at h
  by_cases hquote : ch = '"'.toUInt8
  . rw [if_pos hquote] at h
    rcases Option.map_eq_some_iff.mp h with ⟨⟨out, s'⟩, hread, heq⟩
    have hlength := shorter_parseStringLoop s.length s out s' hread
    rw [Prod.mk.injEq] at heq
    rw [← heq.2, List.length_cons]
    exact hlength.trans s.length.lt_succ_self
  rw [if_neg hquote] at h
  by_cases hdigit : ('0'.toUInt8 ≤ ch ∧ ch ≤ '9'.toUInt8) ∨ ch = '-'.toUInt8
  . rw [if_pos hdigit] at h
    have hchar : isNumberChar ch = true := by
      simp only [isNumberChar, Bool.or_eq_true, Bool.and_eq_true, decide_eq_true_eq]
      cases hdigit with
      | inl hdigit => exact .inl (.inl (.inl (.inl (.inl hdigit))))
      | inr hminus => exact .inl (.inl (.inl (.inr hminus)))
    exact shorter_parseNumber doubles hchar v rest h
  . rw [if_neg hdigit] at h
    cases h

variable {doubles}

theorem shorter_parse (fuel : Nat)
    : (∀ s, Shorter s (parseValue doubles fuel s)) ∧ (∀ s, Shorter s (parseItems doubles fuel s))
        ∧ ∀ s members, Shorter s (parseMembers doubles fuel s members) := by
  induction fuel with
  | zero =>
    refine ⟨?_, ?_, ?_⟩
    . intro s v rest h
      cases h
    . intro s items rest h
      cases h
    . intro s members members' rest h
      cases h
  | succ fuel ih =>
    rcases ih with ⟨hvalue, hitems, hmembers⟩
    refine ⟨?_, ?_, ?_⟩
    . intro s v rest h
      have hskip := length_skipWs s
      rw [parseValue] at h
      split at h
      next => cases h
      next ch s' heq =>
        rw [heq] at hskip
        split at h
        next =>
          split at h
          next s1 hclosed =>
            have hlength := length_expect hclosed
            simp only [Option.some.injEq, Prod.mk.injEq] at h
            rw [← h.2]
            rw [List.length_cons] at hskip
            omega
          next =>
            rcases Option.bind_eq_some_iff.mp h with ⟨⟨items, s1⟩, hread, h⟩
            rcases Option.bind_eq_some_iff.mp h with ⟨s2, hclosed, h⟩
            have hlength := hitems s' items s1 hread
            have hclosed' := length_expect hclosed
            simp only [Option.pure_def, Option.some.injEq, Prod.mk.injEq] at h
            rw [← h.2]
            rw [List.length_cons] at hskip
            omega
        next =>
          split at h
          next =>
            split at h
            next s1 hclosed =>
              have hlength := length_expect hclosed
              simp only [Option.some.injEq, Prod.mk.injEq] at h
              rw [← h.2]
              rw [List.length_cons] at hskip
              omega
            next =>
              rcases Option.bind_eq_some_iff.mp h with ⟨⟨members, s1⟩, hread, h⟩
              rcases Option.bind_eq_some_iff.mp h with ⟨s2, hclosed, h⟩
              have hlength := hmembers s' [] members s1 hread
              have hclosed' := length_expect hclosed
              simp only [Option.pure_def, Option.some.injEq, Prod.mk.injEq] at h
              rw [← h.2]
              rw [List.length_cons] at hskip
              omega
          next => exact (shorter_parseScalar doubles ch s' v rest h).trans_le hskip
    . intro s items rest h
      rw [parseItems] at h
      rcases Option.bind_eq_some_iff.mp h with ⟨⟨item, s1⟩, hread, h⟩
      have hitem := hvalue s item s1 hread
      dsimp only at h
      split at h
      next s2 hmore =>
        have hcomma := length_expect hmore
        rcases Option.bind_eq_some_iff.mp h with ⟨⟨items', s3⟩, hrest, h⟩
        have hlength := hitems s2 items' s3 hrest
        simp only [Option.pure_def, Option.some.injEq, Prod.mk.injEq] at h
        rw [← h.2]
        omega
      next =>
        simp only [Option.pure_def, Option.some.injEq, Prod.mk.injEq] at h
        rw [← h.2]
        exact hitem
    . intro s members members' rest h
      rw [parseMembers] at h
      rcases Option.bind_eq_some_iff.mp h with ⟨s1, hquote, h⟩
      rcases Option.bind_eq_some_iff.mp h with ⟨⟨key, s2⟩, hkey, h⟩
      rcases Option.bind_eq_some_iff.mp h with ⟨s3, hcolon, h⟩
      rcases Option.bind_eq_some_iff.mp h with ⟨⟨item, s4⟩, hread, h⟩
      have hquote' := length_expect hquote
      have hkey' := shorter_parseStringLoop s1.length s1 key s2 hkey
      have hcolon' := length_expect hcolon
      have hitem := hvalue s3 item s4 hread
      dsimp only at h
      split at h
      -- another member follows the comma, read with less fuel
      next s5 hmore =>
        have hcomma := length_expect hmore
        have hlength := hmembers s5 _ members' rest h
        omega
      next =>
        simp only [Option.pure_def, Option.some.injEq, Prod.mk.injEq] at h
        rw [← h.2]
        omega

theorem parse_enough (fuel : Nat)
    : (∀ s fuel', 2 * s.length < fuel → 2 * s.length < fuel' →
          parseValue doubles fuel s = parseValue doubles fuel' s)
        ∧ (∀ s fuel', 2 * s.length + 1 < fuel → 2 * s.length + 1 < fuel' →
          parseItems doubles fuel s = parseItems doubles fuel' s)
        ∧ ∀ s members fuel', 2 * s.length + 1 < fuel → 2 * s.length + 1 < fuel' →
          parseMembers doubles fuel s members = parseMembers doubles fuel' s members := by
  induction fuel with
  | zero =>
    refine ⟨?_, ?_, ?_⟩
    . intro s fuel' h
      omega
    . intro s fuel' h
      omega
    . intro s members fuel' h
      omega
  | succ fuel ih =>
    rcases ih with ⟨hvalue, hitems, hmembers⟩
    refine ⟨?_, ?_, ?_⟩
    . intro s fuel' h h'
      cases fuel' with
      | zero => omega
      | succ fuel' =>
        have hskip := length_skipWs s
        rw [parseValue, parseValue]
        cases heq : skipWs s with
        | nil => rfl
        | cons ch s' =>
          rw [heq, List.length_cons] at hskip
          dsimp only
          rw [hitems s' fuel' (by omega) (by omega), hmembers s' [] fuel' (by omega) (by omega)]
    . intro s fuel' h h'
      cases fuel' with
      | zero => omega
      | succ fuel' =>
        rw [parseItems, parseItems, hvalue s fuel' (by omega) (by omega)]
        apply Option.bind_congr
        rintro ⟨item, s1⟩ hread
        have hlength := (shorter_parse fuel').1 s item s1 hread
        dsimp only
        split
        next s2 hmore =>
          have hcomma := length_expect hmore
          rw [hitems s2 fuel' (by omega) (by omega)]
        next => rfl
    . intro s members fuel' h h'
      cases fuel' with
      | zero => omega
      | succ fuel' =>
        rw [parseMembers, parseMembers]
        apply Option.bind_congr
        intro s1 hquote
        apply Option.bind_congr
        rintro ⟨key, s2⟩ hkey
        apply Option.bind_congr
        intro s3 hcolon
        have hquote' := length_expect hquote
        have hkey' := shorter_parseStringLoop s1.length s1 key s2 hkey
        have hcolon' := length_expect hcolon
        rw [hvalue s3 fuel' (by omega) (by omega)]
        apply Option.bind_congr
        rintro ⟨item, s4⟩ hread
        have hlength := (shorter_parse fuel').1 s3 item s4 hread
        dsimp only
        split
        next s5 hmore =>
          have hcomma := length_expect hmore
          rw [hmembers s5 _ fuel' (by omega) (by omega)]
        next => rfl

theorem parse_eq {fuel : Nat} {s : Bytes} (h : 2 * s.length < fuel)
    : parse doubles s = (parseValue doubles fuel s).map Prod.fst := by
  rw [parse, (parse_enough fuel).1 s (2 * s.length + 1) h (Nat.lt_succ_self _)]

end picojson

end Foxy
