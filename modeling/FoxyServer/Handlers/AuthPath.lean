import FoxyServer.Handlers.Containment

/-!
This module contains from whom the auth path of a static handler keeps the files: a directive that is not
double-quoted leaves the handler without one.
-/

namespace Foxy

namespace StaticRequestHandler

/-! ## Uris for every path -/

def toHexDigit (n : Nat) : UInt8 :=
  UInt8.ofNat (if n < 10 then 48 + n else 87 + n)

def urlEncode : Bytes → Bytes
  | [] => []
  | c :: s => '%'.toUInt8 :: toHexDigit (c.toNat / 16) :: toHexDigit (c.toNat % 16) :: urlEncode s

theorem readHex_toHexDigit (c : UInt8)
    : readHex [toHexDigit (c.toNat / 16), toHexDigit (c.toNat % 16)] = some (c.toNat : Int) := by
  have hbyte : ∀ n < 256, readHex [toHexDigit (n / 16), toHexDigit (n % 16)] = some (n : Int) := by
    decide +kernel
  exact hbyte c.toNat (UInt8.toNat_lt c)

theorem toChar_toNat (c : UInt8) : toChar c.toNat = c := by
  have hlt := UInt8.toNat_lt c
  rw [toChar, show ((c.toNat : Int) % 256).toNat = c.toNat by omega, UInt8.ofNat_toNat]

theorem urlDecode_urlEncode (s : Bytes) : urlDecode (urlEncode s) = some s := by
  induction s with
  | nil => rfl
  | cons c s ih =>
    simp only [urlEncode, urlDecode, if_true, readHex_toHexDigit, ih, toChar_toNat,
      Option.bind_eq_bind, Option.bind_some, Option.pure_def]

theorem exists_replacePath (handler : StaticRequestHandler) (hdots : NoDots handler.path)
    : ∃ uri requestPath startPos, checkRequestPath uri = some requestPath
        ∧ Bytes.find handler.path requestPath = some startPos := by
  have hcheck : ∃ requestPath, checkRequestPath (urlEncode ('/'.toUInt8 :: handler.path)) = some requestPath
      ∧ '/'.toUInt8 :: handler.path <+: requestPath := by
    have hrooted : NoDots (['/'.toUInt8] ++ handler.path) :=
      noDots_append (noDots_iff_not_contains.mpr (by decide)) hdots (.inl (by decide))
    rw [List.singleton_append, noDots_iff_not_contains] at hrooted
    simp only [checkRequestPath, urlDecode_urlEncode, Option.bind_eq_bind, Option.bind_some,
      List.head?_cons, hrooted]
    rw [if_neg (by simp)]
    split
    . exact ⟨_, rfl, List.prefix_append _ _⟩
    . exact ⟨_, rfl, List.prefix_rfl⟩
  rcases hcheck with ⟨requestPath, hcheck, hpre⟩
  have hcontains : requestPath.contains handler.path = true := by
    rw [Bytes.contains_iff]
    exact (List.suffix_cons _ _).isInfix.trans hpre.isInfix
  rcases Option.isSome_iff_exists.mp hcontains with ⟨startPos, hfind⟩
  exact ⟨_, requestPath, startPos, hcheck, hfind⟩

/-! ## Access -/

def CarriesJwt (verifyCookie : Bytes → Bool) (request : Request) : Prop :=
  ∃ cookie ∈ ((request.headers.find? (Bytes.lit "Cookie")).getD []).splitOnP
      (fun c => c = ';'.toUInt8 || c = ' '.toUInt8),
    Bytes.lit "jwt=" <+: cookie ∧ verifyCookie (cookie.drop 4) = true

def Protected (verifyCookie : Bytes → Bool) (handler : StaticRequestHandler) : Prop :=
  ∀ (files : FileSystem) (request : Request), ¬CarriesJwt verifyCookie request →
    ∀ opened, (handler.handleRequest files verifyCookie request).2 = some opened → files opened = none

theorem checkCookie_eq_false {verifyCookie : Bytes → Bool} {request : Request}
    (hempty : verifyCookie [] = false) (h : ¬CarriesJwt verifyCookie request)
    : checkCookie verifyCookie ((request.headers.find? (Bytes.lit "Cookie")).getD []) = false := by
  rw [checkCookie, jwtCookie]
  split
  next cookie hfind =>
    by_contra hverifies
    apply h
    rw [Bool.not_eq_false] at hverifies
    exact ⟨cookie, List.mem_of_find?_eq_some hfind, by simpa using List.find?_some hfind, hverifies⟩
  next => exact hempty

theorem protected_iff {verifyCookie : Bytes → Bool} {handler : StaticRequestHandler}
    (hempty : verifyCookie [] = false)
    : Protected verifyCookie handler ↔ handler.authPath ≠ [] ∨ ¬NoDots handler.path := by
  constructor
  . intro h
    by_contra hopen
    rw [not_or, not_not, not_not] at hopen
    rcases exists_replacePath handler hopen.2 with ⟨uri, requestPath, startPos, hcheck, hfind⟩
    have hcookie : ¬CarriesJwt verifyCookie { uri } := by
      rintro ⟨cookie, hmem, hjwt, -⟩
      have hall : ∀ cookie ∈ List.splitOnP (fun c => c = ';'.toUInt8 || c = ' '.toUInt8) [],
          ¬Bytes.lit "jwt=" <+: cookie := by
        decide
      exact hall cookie hmem hjwt
    have hserved := h (fun _ => some []) { uri } hcookie _
      (opened_iff.mpr ⟨.inl hopen.1, requestPath, startPos, hcheck, hfind, rfl⟩)
    cases hserved
  . rintro hclosed files request hcookie opened hopened
    rcases opened_iff.mp hopened with ⟨hallowed, requestPath, startPos, hcheck, hfind, -⟩
    exfalso
    rcases hclosed with hauth | hdots
    . rcases hallowed with hnone | hverified
      . exact hauth hnone
      . rw [checkCookie_eq_false hempty hcookie] at hverified
        cases hverified
    . apply hdots
      rcases Bytes.find_eq_some hfind with ⟨rest, heq⟩
      apply noDots_mono _ (checkRequestPath_eq_some hcheck).2
      exact ⟨_, rest, heq.symm⟩

/--
The last value that the block gives for `auth` is a double-quoted string. Without an `auth` statement the
value is the empty string.
-/
def AuthIsQuoted (config : NginxConfig) : Prop :=
  ∃ auth auth', lastOperand (Bytes.lit "auth") [] config = .ok auth
    ∧ utility.isQuoted auth = .ok (true, auth')

/--
A handler protects its files exactly when the last value its block gives for `auth` is double-quoted, or when
its location is one that no request reaches.
-/
theorem auth_protects_iff {path : Bytes} {config : NginxConfig} {collector collector' : DataCollector}
    {handler : StaticRequestHandler} (hinit : init path config collector = .ok (some handler, collector'))
    {verifyCookie : Bytes → Bool} (hempty : verifyCookie [] = false)
    : Protected verifyCookie handler
        ↔
      AuthIsQuoted config ∨ ¬NoDots path := by
  rcases init_eq_some hinit with ⟨rfl, -, auth, authIsQuoted, auth', hoperand, hquoted, hpath⟩
  rw [protected_iff hempty, hpath]
  cases authIsQuoted with
  | false =>
    have hnone : ¬AuthIsQuoted config := by
      rintro ⟨other, other', hother, hotherQuoted⟩
      rw [hoperand, Outcome.ok.injEq] at hother
      rw [← hother, hquoted] at hotherQuoted
      simp at hotherQuoted
    simp [hnone]
  | true =>
    have hne : auth' ≠ [] := by
      rintro rfl
      simpa using utility.getLast?_of_isQuoted hquoted
    have hsome : AuthIsQuoted config := ⟨auth, auth', hoperand, hquoted⟩
    simp [hne, hsome]

def privateFrom (auth : String) : NginxConfig :=
  [⟨[Bytes.lit "root", Bytes.lit "\"./data/\""], none⟩, ⟨[Bytes.lit "auth", Bytes.lit auth], none⟩]

def HasAuth (config : NginxConfig) : Prop :=
  ∃ s ∈ config, ∃ value, operandOf (Bytes.lit "auth") s.tokens = .ok (some value)

theorem auth_protects_iff_login
    : Protected (fun _ => false)
          { root := Bytes.lit "./data/", path := Bytes.lit "/private/", authPath := Bytes.lit "/login/" }
        ↔
      AuthIsQuoted (privateFrom "\"/login\"") ∨ ¬NoDots (Bytes.lit "/private/") :=
  @auth_protects_iff (Bytes.lit "/private/") (privateFrom "\"/login\"") {}
    (DataCollector.addHandler {} (Bytes.lit "/private/") (Bytes.lit "Static Request Handler")) _
    rfl (fun _ => false) rfl

/--
An `auth` value that is not double-quoted leaves the handler without a check, and everybody gets the files.
-/
theorem auth_bare_unprotected
    : HasAuth (privateFrom "/login")
        ∧ (init (Bytes.lit "/private/") (privateFrom "/login") {}).Returns
        ∧ init (Bytes.lit "/private/") (privateFrom "/login") {}
            = .ok (some { root := Bytes.lit "./data/", path := Bytes.lit "/private/" },
                DataCollector.addHandler {} (Bytes.lit "/private/") (Bytes.lit "Static Request Handler"))
        ∧ ¬Protected (fun _ => false)
            { root := Bytes.lit "./data/", path := Bytes.lit "/private/" } := by
  refine ⟨⟨_, List.mem_cons_of_mem _ List.mem_cons_self, Bytes.lit "/login", by decide +kernel⟩,
    by decide +kernel, rfl, ?_⟩
  rw [protected_iff rfl, noDots_iff_not_contains]
  decide +kernel

end StaticRequestHandler

end Foxy
