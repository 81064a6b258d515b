import FoxyServer.Handlers.Login

/-!
This module contains the bodies that a form is sent in, and what the login handler takes from them: the value of
the first field whose name ends in the keyword, which the one for the user name has to have a field behind it.
-/

namespace Foxy

namespace LoginRequestHandler

def ampersand : UInt8 := '&'.toUInt8

def equalsSign : UInt8 := '='.toUInt8

def FieldChar (c : UInt8) : Prop :=
  c ≠ ampersand ∧ c ≠ equalsSign ∧ c ≠ '\n'.toUInt8 ∧ c ≠ '\r'.toUInt8

instance (c : UInt8) : Decidable (FieldChar c) :=
  inferInstanceAs (Decidable (_ ∧ _))

structure FormField where
  name : Bytes
  value : Bytes
  name_chars : ∀ c ∈ name, FieldChar c
  value_chars : ∀ c ∈ value, FieldChar c

namespace FormField

def text (field : FormField) : Bytes :=
  field.name ++ equalsSign :: field.value

def IsNamed (keyword : Bytes) (field : FormField) : Prop :=
  field.name.map toLower = keyword

def EndsIn (keyword : Bytes) (field : FormField) : Prop :=
  keyword <:+ field.name.map toLower

instance (keyword : Bytes) : DecidablePred (IsNamed keyword) :=
  fun field => inferInstanceAs (Decidable (field.name.map toLower = keyword))

instance (keyword : Bytes) : DecidablePred (EndsIn keyword) :=
  fun field => inferInstanceAs (Decidable (keyword <:+ field.name.map toLower))

end FormField

def laterFields (fields : List FormField) : Bytes :=
  fields.flatMap (fun field => ampersand :: field.text)

def formBody : List FormField → Bytes
  | [] => []
  | field :: fields => field.text ++ laterFields fields

def valueOf (p : FormField → Prop) [DecidablePred p] (fields : List FormField) : Bytes :=
  ((fields.find? (fun field => decide (p field))).map FormField.value).getD []

/-! ## The search -/

def KeyAt (key text : Bytes) : Prop :=
  (text.take key.length).map toLower = key

structure IsKeyword (keyword : Bytes) : Prop where
  ne_nil : keyword ≠ []
  chars : ∀ c ∈ keyword, c ≠ ampersand ∧ c ≠ equalsSign

section

variable {keyword : Bytes} {endsAtEnd : Bool}

theorem toLower_eq_equalsSign {c : UInt8} : toLower c = equalsSign ↔ c = equalsSign :=
  @forall_byte (fun c => toLower c = equalsSign ↔ c = equalsSign) (by decide +kernel) c

theorem keyAt_iff {text : Bytes}
    : KeyAt (keyword ++ [equalsSign]) text
        ↔
      ∃ w rest, text = w ++ equalsSign :: rest ∧ w.map toLower = keyword := by
  rw [KeyAt]
  constructor
  . intro h
    rcases List.map_eq_append_iff.mp h with ⟨w, last, htake, hw, hlast⟩
    rcases List.map_eq_singleton_iff.mp hlast with ⟨c, rfl, hc⟩
    rw [toLower_eq_equalsSign] at hc
    subst hc
    refine ⟨w, text.drop (keyword ++ [equalsSign]).length, ?_, hw⟩
    have htext := (List.take_append_drop (keyword ++ [equalsSign]).length text).symm
    rw [htake, List.append_assoc, List.singleton_append] at htext
    exact htext
  . rintro ⟨w, rest, rfl, hw⟩
    have hlength : (keyword ++ [equalsSign]).length = (w ++ [equalsSign]).length := by
      rw [← hw]
      simp
    have htext : w ++ equalsSign :: rest = w ++ [equalsSign] ++ rest := by simp
    rw [hlength, htext, List.take_left, List.map_append, hw]
    rfl

theorem findField_of_not_keyAt {key : Bytes} {c : UInt8} {text : Bytes} (h : ¬KeyAt key (c :: text))
    : findField key endsAtEnd (c :: text) = findField key endsAtEnd text := by
  rw [findField, if_neg]
  exact fun hmatch => h hmatch.1

theorem fieldChar_of_match (hkeyword : IsKeyword keyword) {w : Bytes}
    (hw : w.map toLower = keyword)
    : ampersand ∉ w ∧ equalsSign ∉ w := by
  constructor
  . intro hmem
    have hlower := List.mem_map_of_mem (f := toLower) hmem
    rw [hw] at hlower
    exact (hkeyword.chars _ hlower).1 (by decide)
  . intro hmem
    have hlower := List.mem_map_of_mem (f := toLower) hmem
    rw [hw] at hlower
    exact (hkeyword.chars _ hlower).2 (by decide)

theorem not_keyAt (hkeyword : IsKeyword keyword) {front rest : Bytes} (hfront : equalsSign ∉ front)
    (hrest : ∀ c ∈ rest.head?, c = ampersand)
    : ¬KeyAt (keyword ++ [equalsSign]) (front ++ rest) := by
  rw [keyAt_iff]
  rintro ⟨w, more, heq, hw⟩
  have hchars := fieldChar_of_match hkeyword hw
  rcases List.append_eq_append_iff.mp heq with ⟨a, ha, hmore⟩ | ⟨a, ha, hmore⟩
  . cases a with
    | nil =>
      have := hrest equalsSign (by rw [hmore]; rfl)
      exact absurd this (by decide)
    | cons c a =>
      have hc := hrest c (by rw [hmore]; rfl)
      exact hchars.1 (by rw [ha, hc]; simp)
  . cases a with
    | nil =>
      have := hrest equalsSign (by rw [← List.nil_append rest, ← hmore]; rfl)
      exact absurd this (by decide)
    | cons c a =>
      have hc : equalsSign = c := (List.cons.inj hmore).1
      exact hfront (by rw [ha, hc]; simp)

theorem findField_skip (hkeyword : IsKeyword keyword) {front rest : Bytes} (hfront : equalsSign ∉ front)
    (hrest : ∀ c ∈ rest.head?, c = ampersand)
    : findField (keyword ++ [equalsSign]) endsAtEnd (front ++ rest)
        = findField (keyword ++ [equalsSign]) endsAtEnd rest.tail := by
  induction front with
  | nil =>
    cases rest with
    | nil => rfl
    | cons c rest =>
      apply findField_of_not_keyAt
      exact @not_keyAt _ hkeyword [] (c :: rest) hfront hrest
  | cons c front ih =>
    rw [List.mem_cons, not_or] at hfront
    rw [List.cons_append, findField_of_not_keyAt, ih hfront.2]
    rw [← List.cons_append]
    exact not_keyAt hkeyword (List.mem_cons.not.mpr (not_or.mpr hfront)) hrest

theorem keyAt_name_iff (hkeyword : IsKeyword keyword) {name : Bytes} (hname : equalsSign ∉ name) (rest : Bytes)
    : KeyAt (keyword ++ [equalsSign]) (name ++ equalsSign :: rest) ↔ name.map toLower = keyword := by
  rw [keyAt_iff]
  constructor
  . rintro ⟨w, more, heq, hw⟩
    have hchars := fieldChar_of_match hkeyword hw
    rcases List.append_eq_append_iff.mp heq with ⟨a, ha, hmore⟩ | ⟨a, ha, hmore⟩
    . cases a with
      | nil => rw [← hw, ha, List.append_nil]
      | cons c a =>
        have hc : equalsSign = c := (List.cons.inj hmore).1
        exact absurd (by rw [ha, hc]; simp) hchars.2
    . cases a with
      | nil => rw [← hw, ha, List.append_nil]
      | cons c a =>
        have hc : equalsSign = c := (List.cons.inj hmore).1
        exact absurd (by rw [ha, hc]; simp) hname
  . intro hw
    exact ⟨name, rest, rfl, hw⟩

theorem takeWhile_value {value rest : Bytes} (hvalue : ∀ c ∈ value, FieldChar c)
    (hrest : ∀ c ∈ rest.head?, c = ampersand)
    : (value ++ rest).takeWhile (fun c => decide (c ≠ '&'.toUInt8 ∧ c ≠ '\n'.toUInt8 ∧ c ≠ '\r'.toUInt8))
        = value := by
  rw [List.takeWhile_append_of_pos]
  . cases rest with
    | nil => rw [List.takeWhile_nil, List.append_nil]
    | cons d rest =>
      have hd : d = '&'.toUInt8 := hrest d rfl
      rw [List.takeWhile_cons_of_neg, List.append_nil]
      simp [hd]
  . intro c hc
    have hchar := hvalue c hc
    exact decide_eq_true ⟨hchar.1, hchar.2.2⟩

theorem findField_name (hkeyword : IsKeyword keyword) {name value rest : Bytes} (hname : equalsSign ∉ name)
    (hvalue : ∀ c ∈ value, FieldChar c) (hrest : ∀ c ∈ rest.head?, c = ampersand)
    : findField (keyword ++ [equalsSign]) endsAtEnd (name ++ equalsSign :: (value ++ rest))
        =
      if keyword <:+ name.map toLower ∧ (rest ≠ [] ∨ endsAtEnd) then
        some value
      else
        findField (keyword ++ [equalsSign]) endsAtEnd rest.tail := by
  have hskip := @findField_skip keyword endsAtEnd hkeyword value rest
    (fun hmem => (hvalue _ hmem).2.1 rfl) hrest
  induction name with
  | nil =>
    have hstart : ¬KeyAt (keyword ++ [equalsSign]) (equalsSign :: (value ++ rest)) := by
      rw [← List.nil_append (equalsSign :: (value ++ rest)), keyAt_name_iff hkeyword List.not_mem_nil]
      exact fun h => hkeyword.ne_nil h.symm
    rw [List.nil_append, findField_of_not_keyAt hstart, hskip, if_neg]
    rintro ⟨hsuffix, -⟩
    exact hkeyword.ne_nil (List.suffix_nil.mp hsuffix)
  | cons c name ih =>
    rw [List.mem_cons, not_or] at hname
    have ih := ih hname.2
    have hcons : equalsSign ∉ c :: name := List.mem_cons.not.mpr (not_or.mpr hname)
    have hsuffix : keyword <:+ (c :: name).map toLower
        ↔ (c :: name).map toLower = keyword ∨ keyword <:+ name.map toLower := by
      rw [List.map_cons, List.suffix_cons_iff, eq_comm]
    have hkey := keyAt_name_iff hkeyword hcons (value ++ rest)
    simp only [hsuffix]
    -- the keyword is the rest of the name, or the search goes on behind the first byte
    by_cases hmatch : (c :: name).map toLower = keyword
    . have hlength : (keyword ++ [equalsSign]).length = (c :: name).length + 1 := by
        rw [← hmatch]
        simp
      have hdrop : (c :: (name ++ equalsSign :: (value ++ rest))).drop ((c :: name).length + 1) = value ++ rest := by
        rw [← List.cons_append, List.drop_length_add_append]
        rfl
      have hafter : (c :: (name ++ equalsSign :: (value ++ rest))).drop ((c :: name).length + 1 + value.length)
          = rest := by
        rw [← List.drop_drop, hdrop, List.drop_left]
      have hends : rest.head? = some '&'.toUInt8 ∨ endsAtEnd = true ∧ rest.head? = none
          ↔ rest ≠ [] ∨ endsAtEnd = true := by
        cases rest with
        | nil => simp
        | cons d rest =>
          have hd : d = '&'.toUInt8 := hrest d rfl
          simp [hd]
      rw [List.cons_append, findField, hlength, hdrop, takeWhile_value hvalue hrest, hafter]
      simp only [hmatch, true_or, true_and, hends]
      have hkey : ((c :: (name ++ equalsSign :: (value ++ rest))).take ((c :: name).length + 1)).map toLower
          = keyword ++ [equalsSign] := by
        have := hkey.mpr hmatch
        rwa [KeyAt, hlength, List.cons_append] at this
      simp only [hkey, true_and, ih]
      split_ifs with hfound hother
      . rfl
      . exact absurd hother.2 hfound
      . rfl
    . rw [List.cons_append] at hkey ⊢
      rw [findField_of_not_keyAt (hkey.not.mpr hmatch), ih]
      simp only [hmatch, false_or]

def candidates (endsAtEnd : Bool) (fields : List FormField) : List FormField :=
  if endsAtEnd then fields else fields.dropLast

theorem candidates_cons (field : FormField) (fields : List FormField)
    : candidates endsAtEnd (field :: fields)
        =
      if fields ≠ [] ∨ endsAtEnd = true then field :: candidates endsAtEnd fields else [] := by
  cases endsAtEnd with
  | true => rw [if_pos (.inr rfl)]; rfl
  | false => cases fields <;> rfl

theorem findField_laterFields (hkeyword : IsKeyword keyword) (fields : List FormField)
    : findField (keyword ++ [equalsSign]) endsAtEnd (laterFields fields).tail
        = ((candidates endsAtEnd fields).find? (fun field => decide (field.EndsIn keyword))).map FormField.value := by
  induction fields with
  | nil => cases endsAtEnd <;> rfl
  | cons field fields ih =>
    have hname : equalsSign ∉ field.name := fun hmem => (field.name_chars _ hmem).2.1 rfl
    have hrest : ∀ c ∈ (laterFields fields).head?, c = ampersand := by
      cases fields with
      | nil => simp [laterFields]
      | cons other fields => simp [laterFields]
    have hlast : laterFields fields ≠ [] ↔ fields ≠ [] := by
      cases fields with
      | nil => simp [laterFields]
      | cons other fields => simp [laterFields]
    have htext : (laterFields (field :: fields)).tail
        = field.name ++ equalsSign :: (field.value ++ laterFields fields) := by
      simp [laterFields, FormField.text]
    rw [htext, findField_name hkeyword hname field.value_chars hrest, candidates_cons, ih]
    simp only [hlast]
    by_cases hcandidate : fields ≠ [] ∨ endsAtEnd = true
    . rw [if_pos hcandidate, List.find?_cons]
      by_cases hends : field.EndsIn keyword
      . rw [if_pos ⟨hends, hcandidate⟩, decide_eq_true hends]
        rfl
      . rw [if_neg (fun h => hends h.1), decide_eq_false hends]
    . rw [if_neg hcandidate, if_neg (fun h => hcandidate h.2)]
      rw [not_or, not_not] at hcandidate
      rw [hcandidate.1]
      cases endsAtEnd <;> rfl

end

/-! ## What the handler takes from a form -/

theorem formBody_eq (fields : List FormField) : formBody fields = (laterFields fields).tail := by
  cases fields with
  | nil => rfl
  | cons field fields => simp [formBody, laterFields]

theorem isKeyword_username : IsKeyword (Bytes.lit "username") := ⟨by decide, by decide +kernel⟩

theorem isKeyword_password : IsKeyword (Bytes.lit "password") := ⟨by decide, by decide +kernel⟩

theorem extractUsername_formBody (fields : List FormField)
    : extractUsername (formBody fields) = valueOf (FormField.EndsIn (Bytes.lit "username")) fields.dropLast := by
  have hfind := @findField_laterFields _ false isKeyword_username fields
  rw [extractUsername, formBody_eq, show Bytes.lit "username=" = Bytes.lit "username" ++ [equalsSign] from rfl,
    hfind]
  rfl

theorem extractPassword_formBody (fields : List FormField)
    : extractPassword (formBody fields) = valueOf (FormField.EndsIn (Bytes.lit "password")) fields := by
  have hfind := @findField_laterFields _ true isKeyword_password fields
  rw [extractPassword, formBody_eq, show Bytes.lit "password=" = Bytes.lit "password" ++ [equalsSign] from rfl,
    hfind]
  rfl

/--
The handler takes the right values from a form exactly if the first field with a name that ends in `username`,
the last field left out, has the value of the user name, and the first one that ends in `password` that of the
password.
-/
theorem extract_formBody_iff (fields : List FormField)
    : extractUsername (formBody fields) = valueOf (FormField.IsNamed (Bytes.lit "username")) fields
          ∧ extractPassword (formBody fields) = valueOf (FormField.IsNamed (Bytes.lit "password")) fields
        ↔
      valueOf (FormField.EndsIn (Bytes.lit "username")) fields.dropLast
            = valueOf (FormField.IsNamed (Bytes.lit "username")) fields
          ∧ valueOf (FormField.EndsIn (Bytes.lit "password")) fields
            = valueOf (FormField.IsNamed (Bytes.lit "password")) fields := by
  rw [extractUsername_formBody, extractPassword_formBody]

def usernameLast : List FormField :=
  [⟨Bytes.lit "password", Bytes.lit "x", by decide +kernel, by decide +kernel⟩,
    ⟨Bytes.lit "username", Bytes.lit "foxy", by decide +kernel, by decide +kernel⟩]

/-- A user name that is the last field is not found. -/
theorem extractUsername_last
    : formBody usernameLast = Bytes.lit "password=x&username=foxy"
        ∧ (usernameLast.map FormField.name).Nodup
        ∧ extractUsername (formBody usernameLast) = []
        ∧ valueOf (FormField.IsNamed (Bytes.lit "username")) usernameLast = Bytes.lit "foxy" := by
  decide +kernel

end LoginRequestHandler

end Foxy
