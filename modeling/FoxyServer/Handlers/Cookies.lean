import FoxyServer.Cookie
import FoxyServer.Handlers.Accounts
import FoxyServer.Library.Fields

/-!
This module contains which of the cookies of a request decides whether a handler that serves files redirects it
to the login, what such a redirect depends on, and that the cookie of a login is accepted.
-/

namespace Foxy

/-! ## The pairs of a header -/

structure CookiePair where
  name : Bytes
  value : Bytes
  name_plain : ∀ b ∈ name, b ≠ '='.toUInt8 ∧ b ≠ ';'.toUInt8 ∧ b ≠ ' '.toUInt8
  value_plain : ∀ b ∈ value, b ≠ ';'.toUInt8 ∧ b ≠ ' '.toUInt8

namespace CookiePair

def text (pair : CookiePair) : Bytes :=
  pair.name ++ '='.toUInt8 :: pair.value

def header (texts : List Bytes) : Bytes :=
  (Bytes.lit "; ").intercalate texts

def valueOf (name : Bytes) (pairs : List CookiePair) : Option Bytes :=
  (pairs.find? (fun pair => pair.name = name)).map CookiePair.value

theorem text_plain (pair : CookiePair)
    : ∀ b ∈ pair.text, (b = ';'.toUInt8 || b = ' '.toUInt8) = false := by
  intro b hb
  rw [text, List.mem_append, List.mem_cons] at hb
  rcases hb with hb | rfl | hb
  . simpa using (pair.name_plain b hb).2
  . decide
  . simpa using pair.value_plain b hb

theorem prefix_text_iff (pair : CookiePair)
    : Bytes.lit "jwt=" <+: pair.text ↔ pair.name = Bytes.lit "jwt" := by
  constructor
  . rintro ⟨rest, hrest⟩
    have hname : pair.text.takeWhile (· ≠ '='.toUInt8) = pair.name := by
      rw [text, List.takeWhile_append_of_pos (by simpa using fun b hb => (pair.name_plain b hb).1)]
      simp
    rw [← hname, ← hrest]
    rfl
  . intro h
    rw [text, h]
    exact ⟨pair.value, rfl⟩

end CookiePair

namespace StaticRequestHandler

theorem jwtCookie_header (pairs : List CookiePair)
    : jwtCookie (CookiePair.header (pairs.map CookiePair.text))
        =
      (CookiePair.valueOf (Bytes.lit "jwt") pairs).getD [] := by
  have hplain : ∀ field ∈ pairs.map CookiePair.text, ∀ b ∈ field,
      (b = ';'.toUInt8 || b = ' '.toUInt8) = false := by
    intro field hfield
    rcases List.mem_map.mp hfield with ⟨pair, -, rfl⟩
    exact pair.text_plain
  have hbegins : (fun cookie => (Bytes.lit "jwt=").isPrefixOf cookie) ∘ CookiePair.text
      = fun pair : CookiePair => decide (pair.name = Bytes.lit "jwt") := by
    funext pair
    rw [Function.comp_apply, Bool.eq_iff_iff, List.isPrefixOf_iff_prefix, pair.prefix_text_iff,
      decide_eq_true_iff]
  have hfind := Fields.find?_splitOnP_intercalate (a := ';'.toUInt8) (b := ' '.toUInt8) (by decide) (by decide)
    hplain (q := fun cookie => (Bytes.lit "jwt=").isPrefixOf cookie) (by decide)
  rw [List.find?_map, hbegins] at hfind
  rw [jwtCookie, CookiePair.header, show Bytes.lit "; " = [';'.toUInt8, ' '.toUInt8] from rfl]
  simp only [hfind, CookiePair.valueOf]
  cases hfirst : pairs.find? (fun pair => decide (pair.name = Bytes.lit "jwt")) with
  | none => rfl
  | some pair =>
    have hname := List.find?_some hfirst
    rw [decide_eq_true_iff] at hname
    rw [Option.map_some, Option.map_some, Option.getD_some, CookiePair.text, hname]
    rfl

/-! ## The redirect -/

def CookiesRejected (verifyCookie : Bytes → Bool) (request : Request) : Prop :=
  checkCookie verifyCookie ((request.headers.find? (Bytes.lit "Cookie")).getD []) = false

instance (verifyCookie : Bytes → Bool) (request : Request) : Decidable (CookiesRejected verifyCookie request) :=
  inferInstanceAs (Decidable (_ = _))

theorem handleRequest_rejected {handler : StaticRequestHandler} (hauth : handler.authPath ≠ [])
    {verifyCookie : Bytes → Bool} {request : Request} (h : CookiesRejected verifyCookie request)
    (files : FileSystem)
    : handler.handleRequest files verifyCookie request = (handler.prepareRedirect, none) := by
  unfold CookiesRejected at h
  unfold handleRequest
  simp [h, hauth]

theorem location_prepareRedirect (handler : StaticRequestHandler)
    : handler.prepareRedirect.headers.find? (Bytes.lit "Location") = some handler.authPath := by
  unfold prepareRedirect
  simp [OrdMap.find?_set]

/--
Two requests whose cookies do not verify get the same redirect to the auth path, whatever they ask for and
whatever files there are, and no file is opened for them.
-/
def RedirectsAlike (handler : StaticRequestHandler) : Prop :=
  ∀ (files files' : FileSystem) (verifyCookie verifyCookie' : Bytes → Bool) (request request' : Request),
    CookiesRejected verifyCookie request → CookiesRejected verifyCookie' request' →
    handler.handleRequest files verifyCookie request = handler.handleRequest files' verifyCookie' request'
      ∧ (handler.handleRequest files verifyCookie request).1.code = .movedTemporarily
      ∧ (handler.handleRequest files verifyCookie request).1.headers.find? (Bytes.lit "Location")
          = some handler.authPath
      ∧ (handler.handleRequest files verifyCookie request).2 = none

theorem redirectsAlike {handler : StaticRequestHandler} (hauth : handler.authPath ≠ []) : handler.RedirectsAlike := by
  intro files files' verifyCookie verifyCookie' request request' h h'
  rw [handleRequest_rejected hauth h, handleRequest_rejected hauth h']
  exact ⟨rfl, rfl, location_prepareRedirect handler, rfl⟩

end StaticRequestHandler

/-! ## The cookie of a login -/

namespace LoginRequestHandler

def sentBack (setCookie : Bytes) : Bytes :=
  setCookie.takeWhile (· ≠ ';'.toUInt8)

def jwtPair (token : Bytes) (htoken : ∀ b ∈ token, b ≠ ';'.toUInt8 ∧ b ≠ ' '.toUInt8) : CookiePair where
  name := Bytes.lit "jwt"
  value := token
  name_plain := by decide +kernel
  value_plain := htoken

theorem sentBack_login {token : Bytes} (htoken : ∀ b ∈ token, b ≠ ';'.toUInt8 ∧ b ≠ ' '.toUInt8)
    : sentBack (Bytes.lit "jwt=" ++ token ++ Bytes.lit "; Path=/") = (jwtPair token htoken).text := by
  have hpair : ∀ b ∈ (jwtPair token htoken).text, b ≠ ';'.toUInt8 := by
    intro b hb
    have hplain := (jwtPair token htoken).text_plain b hb
    rw [Bool.or_eq_false_iff, decide_eq_false_iff_not] at hplain
    exact hplain.1
  have htext : Bytes.lit "jwt=" ++ token = (jwtPair token htoken).text := by
    rfl
  rw [sentBack, htext, List.takeWhile_append_of_pos (by simpa using hpair)]
  simp [Bytes.lit]

def AcceptsLogin (jwt : Jwt) (issued created now : Int) (username : Bytes) : Prop :=
  ∀ (handler : LoginRequestHandler) (env : LoginEnv) (table : AuthTable) (request : Request) (setCookie : Bytes)
    (before after : List CookiePair), extractUsername request.body = username →
    (handler.handleRequest { env with generateCookie := Cookie.generateCookie jwt issued created } table
      request).1.headers.find? (Bytes.lit "Set-Cookie") = some setCookie →
    (∀ pair ∈ before, pair.name ≠ Bytes.lit "jwt") →
    setCookie = Bytes.lit "jwt=" ++ Cookie.generateCookie jwt issued created username ++ Bytes.lit "; Path=/"
      ∧ StaticRequestHandler.checkCookie (Cookie.verifyCookie jwt now)
          (CookiePair.header (before.map CookiePair.text ++ sentBack setCookie :: after.map CookiePair.text))
            = true

theorem acceptsLogin {jwt : Jwt} {issued created now : Int} {username : Bytes}
    (h : jwt.Honours (Cookie.builder issued created username) ⟨Cookie.secret⟩)
    (hnow : Jwt.Unexpired (Cookie.builder issued created username) now)
    : AcceptsLogin jwt issued created now username := by
  rintro handler env table request setCookie before after rfl hlogin hbefore
  have hset := (LoginEvent.setCookie_iff.mp hlogin).2.2.2
  refine ⟨hset, ?_⟩
  have hpairs : before.map CookiePair.text ++ sentBack setCookie :: after.map CookiePair.text
      = (before ++ jwtPair _ h.separators :: after).map CookiePair.text := by
    rw [hset, List.map_append, List.map_cons]
    exact congrArg (fun field => _ ++ field :: _) (sentBack_login h.separators)
  have hvalue : CookiePair.valueOf (Bytes.lit "jwt") (before ++ jwtPair _ h.separators :: after)
      = some (Cookie.generateCookie jwt issued created (extractUsername request.body)) := by
    have hnone : before.find? (fun pair => pair.name = Bytes.lit "jwt") = none := by
      simpa [List.find?_eq_none] using hbefore
    rw [CookiePair.valueOf, List.find?_append, hnone, Option.none_or, List.find?_cons_of_pos]
    . rfl
    . rfl
  rw [hpairs, StaticRequestHandler.checkCookie, StaticRequestHandler.jwtCookie_header, hvalue, Option.getD_some]
  exact Cookie.verifyCookie_generateCookie h hnow

end LoginRequestHandler

namespace StaticRequestHandler

/--
The cookie check reads the first `jwt` pair of the header, a request that fails it learns nothing but the auth
path, and the cookie of a login passes it among other cookies if no `jwt` pair stands in front of it.
-/
theorem cookies_checked (jwt : Jwt) (issued created now : Int)
    : (∀ (verifyCookie : Bytes → Bool) (pairs : List CookiePair),
          checkCookie verifyCookie (CookiePair.header (pairs.map CookiePair.text))
            = verifyCookie ((CookiePair.valueOf (Bytes.lit "jwt") pairs).getD []))
        ∧ (∀ handler : StaticRequestHandler, handler.authPath ≠ [] → handler.RedirectsAlike)
        ∧ ∀ username, jwt.Honours (Cookie.builder issued created username) ⟨Cookie.secret⟩ →
            Jwt.Unexpired (Cookie.builder issued created username) now →
            LoginRequestHandler.AcceptsLogin jwt issued created now username := by
  refine ⟨?_, fun handler => redirectsAlike, fun username => LoginRequestHandler.acceptsLogin⟩
  intro verifyCookie pairs
  rw [checkCookie, jwtCookie_header]

def tokenForTest : Bytes :=
  ["eyJhbGciOiJIUzI1NiJ9", ".", "eyJleHAiOjE2MDAwMDcyMDAs", "ImlhdCI6MTYwMDAwMDAwMCwi", "aXNzIjoiZm94eS00Iiwi",
    "dXNlcm5hbWUiOiJmb3h5In0", ".", "EujafPJJN6chwo6SFyYU", "E0ivVlggolpPCq7kbxHC4RU"].flatMap Bytes.lit

end StaticRequestHandler

def Jwt.forTest : Jwt where
  Decoded := Bytes
  sign := fun _ _ => StaticRequestHandler.tokenForTest
  decode := fun cookie => if cookie.count '.'.toUInt8 < 2 then none else some cookie
  verify := fun verifier now token => verifier = Cookie.verifier ∧ token = StaticRequestHandler.tokenForTest
    ∧ 1600000000000000000 ≤ now ∧ now ≤ 1600007200000000000

theorem Jwt.honours_forTest
    : Jwt.forTest.Honours (Cookie.builder 1600000000000000000 1600000000000000000 (Bytes.lit "foxy"))
        ⟨Cookie.secret⟩ := by
  constructor
  . have hplain : StaticRequestHandler.tokenForTest.all (fun b => b ≠ ';'.toUInt8 ∧ b ≠ ' '.toUInt8) = true := by
      decide +kernel
    intro b hb
    simp only [Jwt.forTest] at hb
    exact of_decide_eq_true (List.all_eq_true.mp hplain b hb)
  . intro now hnow
    have hdots : ¬StaticRequestHandler.tokenForTest.count '.'.toUInt8 < 2 := by
      decide +kernel
    refine ⟨StaticRequestHandler.tokenForTest, by simp only [Jwt.forTest, if_neg hdots], ?_⟩
    have hissued : Jwt.dateClaim 1600000000000000000 = 1600000000000000000 := by
      decide +kernel
    have hexpires : Jwt.dateClaim (1600000000000000000 + Cookie.timeToLive * 1000000000)
        = 1600007200000000000 := by
      decide +kernel
    rw [Jwt.Unexpired, Cookie.builder, hissued, hexpires] at hnow
    simpa [Jwt.forTest, Cookie.verifier, Cookie.builder] using hnow

namespace StaticRequestHandler

def setCookieForTest : Option Bytes :=
  ((LoginEvent.forTest "/auth/" "username=foxy&password=a").handler.handleRequest
    { LoginEnv.forTest with
      generateCookie := Cookie.generateCookie Jwt.forTest 1600000000000000000 1600000000000000000 }
    (OrdMap.empty.insert (Bytes.lit "foxy") (Bytes.lit "$2b$12$a"))
    (LoginEvent.forTest "/auth/" "username=foxy&password=a").request).1.headers.find?
      (Bytes.lit "Set-Cookie")

theorem setCookieForTest_eq
    : setCookieForTest = some (Bytes.lit "jwt=" ++ tokenForTest ++ Bytes.lit "; Path=/") :=
  LoginEvent.setCookie_iff.mpr ⟨by decide +kernel, by decide +kernel, by decide +kernel, rfl⟩

def langPair : CookiePair where
  name := Bytes.lit "lang"
  value := Bytes.lit "en"
  name_plain := by decide +kernel
  value_plain := by decide +kernel

def privateHandler : StaticRequestHandler :=
  ⟨Bytes.lit "./data/private/", Bytes.lit "/private/", Bytes.lit "/login/"⟩

theorem cookies_checked_foxy
    : checkCookie (Cookie.verifyCookie Jwt.forTest 1600003600000000000)
          (CookiePair.header [langPair.text,
            LoginRequestHandler.sentBack (Bytes.lit "jwt=" ++ tokenForTest ++ Bytes.lit "; Path=/")]) = true
        ∧ privateHandler.handleRequest (fun _ => none) (Cookie.verifyCookie Jwt.forTest 1600003600000000000)
            { uri := Bytes.lit "/private/a.html" }
          = privateHandler.handleRequest (fun _ => some [])
              (Cookie.verifyCookie Jwt.forTest 1600003600000000000) { uri := Bytes.lit "/%zz" } := by
  rcases cookies_checked Jwt.forTest 1600000000000000000 1600000000000000000 1600003600000000000
    with ⟨-, hredirects, hlogin⟩
  constructor
  . exact (hlogin (Bytes.lit "foxy") Jwt.honours_forTest (by decide +kernel) _ _ _ _ _ [langPair] []
      (by decide +kernel) setCookieForTest_eq (by decide +kernel)).2
  . exact (hredirects privateHandler (by decide +kernel) _ _ _ _ _ _ (by decide +kernel) (by decide +kernel)).1

/--
Behind a `jwt` cookie of another path the cookie of a login is not read.
-/
theorem login_cookie_behind_other
    : Jwt.forTest.Honours (Cookie.builder 1600000000000000000 1600000000000000000 (Bytes.lit "foxy"))
          ⟨Cookie.secret⟩
        ∧ Jwt.Unexpired (Cookie.builder 1600000000000000000 1600000000000000000 (Bytes.lit "foxy"))
            1600003600000000000
        ∧ setCookieForTest = some (Bytes.lit "jwt=" ++ tokenForTest ++ Bytes.lit "; Path=/")
        ∧ checkCookie (Cookie.verifyCookie Jwt.forTest 1600003600000000000)
            (CookiePair.header [(LoginRequestHandler.jwtPair (Bytes.lit "x") (by decide +kernel)).text,
              LoginRequestHandler.sentBack (Bytes.lit "jwt=" ++ tokenForTest ++ Bytes.lit "; Path=/")])
              = false :=
  ⟨Jwt.honours_forTest, by decide +kernel, setCookieForTest_eq, by decide +kernel⟩

end StaticRequestHandler

end Foxy
