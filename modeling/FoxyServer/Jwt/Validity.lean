import FoxyServer.Handlers.Cookies
import FoxyServer.Jwt.JsonRoundTrip
import FoxyServer.Jwt.Token

/-!
This module contains that a token the server has signed reads back as what has been signed, and that it is
accepted as long as it has not expired and no longer.
-/

namespace Foxy

namespace jwt

open picojson (Value)

/-! ## Parts -/

theorem mem_encode {data : Bytes} {c : UInt8} (h : c ∈ encode data)
    : c ≠ dot ∧ c ≠ ';'.toUInt8 ∧ c ≠ ' '.toUInt8 := by
  have hall : ∀ c ∈ alphabet.base64url.data.toList,
      c ≠ dot ∧ c ≠ ';'.toUInt8 ∧ c ≠ ' '.toUInt8 := by
    decide +kernel
  rw [encode, base.trim_encode] at h
  exact hall c (base.mem_of_mem_digits alphabet.base64url h)

theorem decodePart_encode (data : Bytes) : decodePart (encode data) = some data :=
  base.decode_pad_trim alphabet.base64url data

variable (hmac : Bytes → Bytes → Bytes) (doubles : Doubles)

theorem decode_parts {header payload : Bytes} (hheader : dot ∉ header) (hpayload : dot ∉ payload)
    (signature : Bytes)
    : decode doubles (header ++ dot :: payload ++ dot :: signature) = do
        let headerJson ← decodePart header
        let payloadJson ← decodePart payload
        let signature ← decodePart signature
        let headerClaims ← parseClaims doubles headerJson
        let payloadClaims ← parseClaims doubles payloadJson
        return {
          headerClaims, payloadClaims, headerBase64 := header, payloadBase64 := payload, signature } := by
  have hbehind : (header ++ dot :: payload ++ dot :: signature).drop (header.length + 1)
      = payload ++ dot :: signature := by
    rw [List.append_assoc, List.cons_append, ← List.drop_drop, List.drop_left, List.drop_one, List.tail_cons]
  have hfront : (header ++ dot :: payload ++ dot :: signature).take header.length = header := by
    rw [List.append_assoc, List.take_left]
  have hsignature : (payload ++ dot :: signature).drop (payload.length + 1) = signature := by
    rw [← List.drop_drop, List.drop_left, List.drop_one, List.tail_cons]
  have hfirst : Bytes.find [dot] (header ++ dot :: payload ++ dot :: signature) = some header.length := by
    rw [List.append_assoc, List.cons_append]
    exact Bytes.find_singleton hheader _
  rw [decode, hfirst, Option.bind_eq_bind, Option.bind_some, hbehind, Bytes.find_singleton hpayload,
    Option.bind_some, hsignature, hfront, List.take_left]

/-! ## Claims -/

theorem regularMembers_iff {members : List (Bytes × Value doubles.Double)}
    : picojson.RegularMembers doubles members ↔ ∀ e ∈ members, picojson.Regular doubles e.2 := by
  induction members with
  | nil => simp [picojson.RegularMembers]
  | cons e members ih =>
    rcases e with ⟨name, value⟩
    rw [picojson.RegularMembers, ih, List.forall_mem_cons]

theorem parseClaims_serialize {claims : Claims doubles.Double}
    (h : ∀ name value, claims.find? name = some value → picojson.Regular doubles value)
    : parseClaims doubles (picojson.serialize doubles (.object claims.entries)) = some claims := by
  have hregular : picojson.Regular doubles (.object claims.entries) := by
    rw [picojson.Regular, regularMembers_iff]
    refine ⟨claims.sorted, ?_⟩
    rintro ⟨name, value⟩ he
    exact h name value (OrdMap.find?_eq_some_iff.mpr he)
  rw [parseClaims, picojson.parse_serialize hregular]
  dsimp only
  rw [OrdMap.insertEach_entries]

/-! ## What the builder claims -/

namespace builder

theorem regular_headerClaims {name : Bytes} {value : Value doubles.Double}
    (h : (headerClaims : Claims doubles.Double).find? name = some value) : picojson.Regular doubles value := by
  rw [headerClaims, OrdMap.find?_set] at h
  split_ifs at h
  . rw [Option.some.injEq] at h
    rw [← h]
    trivial
  . cases h

theorem regular_payloadClaims {builder : Jwt.Builder} {name : Bytes} {value : Value doubles.Double}
    (h : (payloadClaims builder : Claims doubles.Double).find? name = some value)
    : picojson.Regular doubles value := by
  rw [payloadClaims, OrdMap.find?_setAll, Option.or_eq_some_iff] at h
  cases h with
  | inl hown =>
    have hmem := List.mem_of_getLast? hown
    rw [OrdMap.valuesAt, List.mem_map] at hmem
    rcases hmem with ⟨⟨name', value'⟩, hentry, rfl⟩
    rcases List.mem_map.mp (List.mem_of_mem_filter hentry) with ⟨⟨name', s⟩, -, heq⟩
    cases heq
    trivial
  | inr hset =>
    replace hset := hset.2
    simp only [OrdMap.find?_set, OrdMap.find?_empty] at hset
    split_ifs at hset
    all_goals
      rw [Option.some.injEq] at hset
      rw [← hset]
      trivial

/-- The payload claims leave the claims alone that the builder sets itself, and the one it never sets. -/
def Plain (builder : Jwt.Builder) : Prop :=
  ∀ e ∈ builder.payloadClaims, e.1 ∉ ["iss", "iat", "exp", "nbf"].map Bytes.lit

instance (builder : Jwt.Builder) : Decidable (Plain builder) :=
  inferInstanceAs (Decidable
    (∀ e ∈ builder.payloadClaims, e.1 ∉ ["iss", "iat", "exp", "nbf"].map Bytes.lit))

variable {doubles}

theorem find?_payloadClaims {builder : Jwt.Builder} (h : Plain builder)
    : (payloadClaims builder : Claims doubles.Double).find? (Bytes.lit "iss") = some (.string builder.issuer)
        ∧ (payloadClaims builder : Claims doubles.Double).find? (Bytes.lit "iat")
            = some (claim.ofDate builder.issuedAt)
        ∧ (payloadClaims builder : Claims doubles.Double).find? (Bytes.lit "exp")
            = some (claim.ofDate builder.expiresAt)
        ∧ (payloadClaims builder : Claims doubles.Double).find? (Bytes.lit "nbf") = none := by
  have hother : ∀ name ∈ ["iss", "iat", "exp", "nbf"].map Bytes.lit,
      name ∉ (Jwt.Builder.payloadClaims builder).map Prod.fst := by
    intro name hname hmem
    rcases List.mem_map.mp hmem with ⟨e, he, rfl⟩
    exact h e he hname
  refine ⟨?_, ?_, ?_, ?_⟩
  all_goals
    rw [payloadClaims, OrdMap.find?_setAll_of_notMem]
    . simp only [OrdMap.find?_set, OrdMap.find?_empty]
      rfl
    . rw [List.map_map]
      exact hother _ (by decide +kernel)

end builder

/-! ## Dates -/

def Ticks (time : Int) : Prop :=
  -0x8000000000000000 ≤ time ∧ time < 0x8000000000000000

instance (time : Int) : Decidable (Ticks time) :=
  inferInstanceAs (Decidable (_ ∧ _))

theorem dateClaim_bounds (date : Int)
    : 0 ≤ Jwt.dateClaim date ∧ Jwt.dateClaim date ≤ date
        ∨ date ≤ Jwt.dateClaim date ∧ Jwt.dateClaim date ≤ 0 := by
  rw [Jwt.dateClaim]
  rcases Int.le_total 0 date with hpos | hneg
  . rw [Int.tdiv_eq_ediv_of_nonneg hpos]
    omega
  . have hnot : date.tdiv 1000000000 = -((-date).tdiv 1000000000) := by
      rw [Int.neg_tdiv, Int.neg_neg]
    rw [hnot, Int.tdiv_eq_ediv_of_nonneg (by omega)]
    omega

theorem asDate_ofDate {δ : Type} {date : Int} (h : Ticks date)
    : claim.asDate (claim.ofDate date : Value δ) = some (Jwt.dateClaim date) := by
  rcases h with ⟨hleast, hmost⟩
  have hbounds := dateClaim_bounds date
  rw [Jwt.dateClaim] at hbounds
  have hseconds : -2 ^ 63 ≤ date.tdiv 1000000000 ∧ date.tdiv 1000000000 < 2 ^ 63 := by
    omega
  have hticks : -2 ^ 63 ≤ date.tdiv 1000000000 * 1000000000
      ∧ date.tdiv 1000000000 * 1000000000 < 2 ^ 63 := by
    omega
  rw [claim.ofDate, claim.asDate, Int64.toInt_ofInt_of_le hseconds.1 hseconds.2, Jwt.dateClaim,
    Int.bmod_eq_of_le]
  . omega
  . omega

/-! ## Tokens -/

theorem hs256.verify_iff {algorithm : Jwt.Hs256} {data signature : Bytes}
    : hs256.verify hmac algorithm data signature = true ↔ signature = hs256.sign hmac algorithm data := by
  have hmatched : ∀ s t : Bytes,
      ((s.zip t).all (fun bytes => bytes.1 = bytes.2) && decide (s.length = t.length)) = true ↔ t = s := by
    intro s
    induction s with
    | nil =>
      intro t
      cases t <;> simp
    | cons b s ih =>
      intro t
      cases t with
      | nil => simp
      | cons c t =>
        rw [List.cons.injEq, ← ih t]
        simp only [List.zip_cons_cons, List.all_cons, List.length_cons, Nat.add_right_cancel_iff,
          Bool.and_eq_true, decide_eq_true_eq, and_assoc, @eq_comm _ b c]
  exact hmatched _ _

variable (algorithm : Jwt.Hs256)

theorem decode_text (collected : Jwt.Builder) (signature : Bytes)
    : decode doubles (builder.text doubles collected ++ dot :: signature)
        =
      (decodePart signature).map fun signature => {
        headerClaims := builder.headerClaims
        payloadClaims := builder.payloadClaims collected
        headerBase64 := encode (picojson.serialize doubles (.object builder.headerClaims.entries))
        payloadBase64 := encode (picojson.serialize doubles (.object (builder.payloadClaims collected).entries))
        signature } := by
  rw [builder.text, decode_parts doubles (fun h => (mem_encode h).1 rfl) (fun h => (mem_encode h).1 rfl)]
  simp only [decodePart_encode, parseClaims_serialize doubles (fun _ _ => builder.regular_headerClaims doubles),
    parseClaims_serialize doubles (fun _ _ => builder.regular_payloadClaims doubles), Option.bind_eq_bind,
    Option.bind_some, Option.pure_def]
  cases decodePart signature <;> rfl

theorem accepts_text_iff {collected : Jwt.Builder} (hplain : builder.Plain collected)
    (hissued : Ticks collected.issuedAt) (hexpires : Ticks collected.expiresAt) (signature : Bytes) (now : Int)
    : (decode doubles (builder.text doubles collected ++ dot :: signature)).any
          (verifier.verify hmac ⟨algorithm, collected.issuer⟩ now) = true
        ↔
      decodePart signature = some (hs256.sign hmac algorithm (builder.text doubles collected))
        ∧ Jwt.Unexpired collected now := by
  rcases @builder.find?_payloadClaims doubles collected hplain with ⟨hiss, hiat, hexp, hnbf⟩
  have halg : (builder.headerClaims : Claims doubles.Double).find? (Bytes.lit "alg")
      = some (.string hs256.name) := by
    rw [builder.headerClaims, OrdMap.find?_set, if_pos rfl]
  rw [decode_text]
  cases decodePart signature with
  | none => simp
  | some signature =>
    have hsignature := @hs256.verify_iff hmac algorithm (builder.text doubles collected) signature
    rw [Option.map_some, Option.any_some, Option.some.injEq, ← hsignature]
    simp only [verifier.verify, halg, Option.bind_some, claim.asString]
    rw [← builder.text]
    simp only [verifier.checkDate, hiss, hiat, hexp, hnbf, asDate_ofDate hissued, asDate_ofDate hexpires,
      Option.bind_some, claim.asString]
    simp [Jwt.Unexpired, and_comm, and_assoc]

theorem accepts_sign_iff {collected : Jwt.Builder} (hplain : builder.Plain collected)
    (hissued : Ticks collected.issuedAt) (hexpires : Ticks collected.expiresAt) (now : Int)
    : (decode doubles (builder.sign hmac doubles collected algorithm)).any
          (verifier.verify hmac ⟨algorithm, collected.issuer⟩ now) = true
        ↔
      Jwt.Unexpired collected now := by
  rw [builder.sign, accepts_text_iff hmac doubles algorithm hplain hissued hexpires, decodePart_encode]
  simp

theorem mem_text {collected : Jwt.Builder} {c : UInt8} (h : c ∈ builder.text doubles collected)
    : c ≠ ';'.toUInt8 ∧ c ≠ ' '.toUInt8 := by
  rw [builder.text, List.mem_append, List.mem_cons] at h
  rcases h with h | rfl | h
  . exact (mem_encode h).2
  . decide
  . exact (mem_encode h).2

theorem oneLine_encode (data : Bytes) : (encode data).OneLine := by
  have hall : ∀ c ∈ alphabet.base64url.data.toList, c ≠ '\r'.toUInt8 ∧ c ≠ '\n'.toUInt8 := by
    decide +kernel
  intro c hc
  rw [encode, base.trim_encode] at hc
  exact hall c (base.mem_of_mem_digits alphabet.base64url hc)

theorem oneLine_sign (collected : Jwt.Builder) : (builder.sign hmac doubles collected algorithm).OneLine := by
  have hjoin : ∀ {s t : Bytes}, s.OneLine → t.OneLine → (s ++ dot :: t).OneLine := by
    intro s t hs ht
    rw [← List.singleton_append, Bytes.oneLine_append, Bytes.oneLine_append]
    exact ⟨hs, by decide +kernel, ht⟩
  exact hjoin (hjoin (oneLine_encode _) (oneLine_encode _)) (oneLine_encode _)

/-- What the server relies on for its tokens holds of the library. -/
theorem library_honours {collected : Jwt.Builder} (hplain : builder.Plain collected)
    (hissued : Ticks collected.issuedAt) (hexpires : Ticks collected.expiresAt)
    : (library hmac doubles).Honours collected algorithm where
  separators := by
    intro c hc
    change c ∈ builder.text doubles collected ++ dot :: encode _ at hc
    rw [List.mem_append, List.mem_cons] at hc
    rcases hc with hc | rfl | hc
    . exact mem_text doubles hc
    . decide
    . exact (mem_encode hc).2
  accepts := by
    intro now hnow
    have haccepts := (accepts_sign_iff hmac doubles algorithm hplain hissued hexpires now).mpr hnow
    rcases (Option.any_eq_true _ _).mp haccepts with ⟨decoded, hdecode, hverify⟩
    exact ⟨decoded, hdecode, hverify⟩

theorem split_of_find {c : UInt8} {s : Bytes} {i : Nat} (h : Bytes.find [c] s = some i)
    : s = s.take i ++ c :: s.drop (i + 1) := by
  rcases Bytes.find_eq_some h with ⟨rest, hs⟩
  have hlength := congrArg List.length hs
  simp only [List.length_append, List.length_take, List.length_cons, List.length_nil] at hlength
  have hi : (s.take i).length = i := by
    rw [List.length_take]
    omega
  have hdrop : s.drop (i + 1) = rest := by
    rw [hs, List.append_assoc, ← List.drop_drop, List.drop_left' hi, List.singleton_append, List.drop_one,
      List.tail_cons]
  rw [hdrop, ← List.singleton_append, ← List.append_assoc]
  exact hs

theorem notMem_take_of_find {c : UInt8} {s : Bytes} {i : Nat} (h : Bytes.find [c] s = some i) : c ∉ s.take i := by
  rw [← List.singleton_infix_iff]
  exact Bytes.not_infix_take_of_find (List.cons_ne_nil c []) h (Nat.le_refl i)

theorem exists_signature_of_decode {token : Bytes} {decoded : Decoded doubles.Double}
    (h : decode doubles token = some decoded)
    : ∃ signature, token = decoded.headerBase64 ++ dot :: decoded.payloadBase64 ++ dot :: signature
        ∧ decodePart signature = some decoded.signature
        ∧ ∀ other, decode doubles (decoded.headerBase64 ++ dot :: decoded.payloadBase64 ++ dot :: other)
            = (decodePart other).map fun signature => { decoded with signature } := by
  rw [decode] at h
  rcases Option.bind_eq_some_iff.mp h with ⟨hdrEnd, hfirst, h⟩
  rcases Option.bind_eq_some_iff.mp h with ⟨payloadLength, hsecond, h⟩
  rcases Option.bind_eq_some_iff.mp h with ⟨header, hheader, h⟩
  rcases Option.bind_eq_some_iff.mp h with ⟨payload, hpayload, h⟩
  rcases Option.bind_eq_some_iff.mp h with ⟨signature, hsignature, h⟩
  rcases Option.bind_eq_some_iff.mp h with ⟨headerClaims, hheaderClaims, h⟩
  rcases Option.bind_eq_some_iff.mp h with ⟨payloadClaims, hpayloadClaims, h⟩
  rw [Option.pure_def, Option.some.injEq] at h
  subst h
  refine ⟨_, ?_, hsignature, ?_⟩
  . rw [List.append_assoc, List.cons_append, ← split_of_find hsecond]
    exact split_of_find hfirst
  . intro other
    rw [decode_parts doubles (notMem_take_of_find hfirst) (notMem_take_of_find hsecond)]
    simp only [hheader, hpayload, hheaderClaims, hpayloadClaims, Option.bind_eq_bind, Option.bind_some,
      Option.pure_def]
    cases decodePart other <;> rfl

theorem signature_of_verify {δ : Type} {v : Jwt.Verifier} {now : Int} {decoded : Decoded δ}
    (h : verifier.verify hmac v now decoded = true)
    : decoded.signature
        = hs256.sign hmac v.algorithm (decoded.headerBase64 ++ dot :: decoded.payloadBase64) := by
  rw [verifier.verify] at h
  split at h
  next => cases h
  next =>
    simp only [Bool.and_eq_true] at h
    exact (hs256.verify_iff hmac).mp h.1.1.1.1.2

theorem exists_text_of_accepts {v : Jwt.Verifier} {token : Bytes} {now : Int}
    (h : (decode doubles token).any (verifier.verify hmac v now) = true)
    : ∃ text signature, token = text ++ dot :: signature
        ∧ decodePart signature = some (hs256.sign hmac v.algorithm text) := by
  rcases (Option.any_eq_true _ _).mp h with ⟨decoded, hdecode, hverify⟩
  rcases exists_signature_of_decode doubles hdecode with ⟨signature, htoken, hsignature, -⟩
  exact ⟨_, signature, htoken, hsignature.trans (congrArg some (signature_of_verify hmac hverify))⟩

end jwt

/-! ## Cookies -/

namespace Cookie

open jwt

variable (hmac : Bytes → Bytes → Bytes) (doubles : Doubles)

theorem plain_builder (issued created : Int) (username : Bytes)
    : builder.Plain (Cookie.builder issued created username) := by
  intro e he
  rw [Cookie.builder, List.mem_singleton] at he
  have hname : Bytes.lit "username" ∉ ["iss", "iat", "exp", "nbf"].map Bytes.lit := by
    decide +kernel
  rw [he]
  exact hname

theorem verifyCookie_library (now : Int) (cookie : Bytes)
    : verifyCookie (library hmac doubles) now cookie
        = (decode doubles cookie).any (verifier.verify hmac Cookie.verifier now) := by
  have hdecode : (library hmac doubles).decode cookie = decode doubles cookie := rfl
  rw [verifyCookie, hdecode]
  cases decode doubles cookie <;> rfl

/--
The cookie of a user, whatever the name, verifies until it expires and not afterwards, and what has been signed
for it verifies with no other signature. A login with it is accepted in the meantime.
-/
theorem cookie_verifies_iff (username : Bytes) {issued created : Int} (hissued : Ticks issued)
    (hexpires : Ticks (created + timeToLive * 1000000000)) (now : Int)
    : (verifyCookie (library hmac doubles) now
            (generateCookie (library hmac doubles) issued created username) = true
          ↔ Jwt.Unexpired (Cookie.builder issued created username) now)
        ∧ (∀ signature, verifyCookie (library hmac doubles) now
              (builder.text doubles (Cookie.builder issued created username) ++ dot :: signature) = true
            ↔ decodePart signature
                  = some (hmac secret (builder.text doubles (Cookie.builder issued created username)))
                ∧ Jwt.Unexpired (Cookie.builder issued created username) now)
        ∧ (Jwt.Unexpired (Cookie.builder issued created username) now →
            LoginRequestHandler.AcceptsLogin (library hmac doubles) issued created now username) := by
  have hplain := plain_builder issued created username
  refine ⟨?_, ?_, ?_⟩
  . rw [verifyCookie_library]
    exact accepts_sign_iff hmac doubles ⟨secret⟩ hplain hissued hexpires now
  . intro signature
    rw [verifyCookie_library]
    exact accepts_text_iff hmac doubles ⟨secret⟩ hplain hissued hexpires signature now
  . exact LoginRequestHandler.acceptsLogin (library_honours hmac doubles ⟨secret⟩ hplain hissued hexpires)

def hmacForTest (_ _ : Bytes) : Bytes :=
  (decodePart (Bytes.lit "EujafPJJN6chwo6SFyYUE0ivVlggolpPCq7kbxHC4RU")).getD []

def doublesForTest : Doubles where
  Double := Empty
  strtod := fun _ => none
  print := fun x => nomatch x

theorem cookie_verifies_foxy
    : verifyCookie (library hmacForTest doublesForTest) 1600007200000000000
          (generateCookie (library hmacForTest doublesForTest) 1600000000000000000 1600000000000000000
            (Bytes.lit "foxy")) = true
        ∧ verifyCookie (library hmacForTest doublesForTest) 1600007200000000001
            (generateCookie (library hmacForTest doublesForTest) 1600000000000000000 1600000000000000000
              (Bytes.lit "foxy")) = false := by
  have hverifies := @cookie_verifies_iff hmacForTest doublesForTest (Bytes.lit "foxy") 1600000000000000000
    1600000000000000000 (by decide +kernel) (by decide +kernel)
  refine ⟨(hverifies 1600007200000000000).1.mpr (by decide +kernel), ?_⟩
  rw [Bool.eq_false_iff]
  intro htrue
  have hunexpired := (hverifies 1600007200000000001).1.mp htrue
  revert hunexpired
  decide +kernel

end Cookie

end Foxy
