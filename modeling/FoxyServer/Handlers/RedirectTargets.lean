import FoxyServer.Handlers.Redirects
import FoxyServer.RequestParser.Names
import Mathlib.Data.List.TakeWhile

/-!
This module contains where the proxy handler goes when it follows a redirect: what it makes of a location with
or without a scheme and an authority, and for which locations it asks for what they name.
-/

namespace Foxy

open Grammar

structure Location where
  /-- The scheme and the authority. -/
  origin : Option (Bytes × Bytes)
  path : Bytes
  query : Bytes
  scheme_chars : ∀ o ∈ origin, '/'.toUInt8 ∉ o.1 ∧ '?'.toUInt8 ∉ o.1
  authority_chars : ∀ o ∈ origin, '/'.toUInt8 ∉ o.2
  path_head : ∀ c ∈ path.head?, c = '/'.toUInt8
  query_head : ∀ c ∈ query.head?, c = '?'.toUInt8

namespace Location

def render (location : Location) : Bytes :=
  match location.origin with
  | none => location.path ++ location.query
  | some (scheme, authority) => scheme ++ Bytes.lit "://" ++ authority ++ (location.path ++ location.query)

def target (location : Location) : Bytes :=
  if location.path = [] then Bytes.lit "/" else location.path ++ location.query

end Location

namespace ProxyRequestHandler

/-! ## What the handler goes to -/

def behindScheme (newRoot : Bytes) : Bytes :=
  match Bytes.find (Bytes.lit "//") newRoot with
  | some pos => newRoot.drop (pos + 2)
  | none => newRoot

/-- A carriage return anywhere in the location costs it its last byte. -/
def trimmed (newRoot : Bytes) : Bytes :=
  if newRoot.contains (Bytes.lit "\r") then newRoot.dropLast else newRoot

def fromSlash (newRoot : Bytes) : Bytes :=
  newRoot.dropWhile (· ≠ '/'.toUInt8)

theorem redirectRequest_eq (handler : ProxyRequestHandler) (newRoot : Bytes) (request : Request)
    : handler.redirectRequest newRoot request
        = .ok (RawRequest.render request.method (fromSlash (trimmed newRoot)) (Bytes.lit "1.0")
            (forwardedHeaders request) request.body) := by
  rw [redirectRequest, convertToRawbody_redirect]
  rfl

theorem exchangePass_follows {handler : ProxyRequestHandler} {request : Request} {response : Response}
    {exchange : Exchange} {reading : Reading} (hbody : response.body = []) (hreading : exchange.reading = .ok reading)
    (hfollows : Follows request response reading)
    : handler.exchangePass request response exchange
        = .ok (.again (RawRequest.render request.method
            (fromSlash (trimmed (behindScheme (location (passed response reading))))) (Bytes.lit "1.0")
            (forwardedHeaders request) request.body, passed response reading)) := by
  rw [exchangePass_eq hbody, hreading, Outcome.ok_bind, finish, if_pos hfollows]
  exact congrArg (· >>= _) (redirectRequest_eq handler _ request)

/-! ## For which locations it is what they name -/

theorem trimmed_eq (s : Bytes) : trimmed s = if '\r'.toUInt8 ∈ s then s.dropLast else s := by
  have hcontains : s.contains (Bytes.lit "\r") = true ↔ '\r'.toUInt8 ∈ s :=
    Bytes.contains_iff.trans (List.singleton_infix_iff _ _)
  simp only [trimmed, hcontains]

theorem fromSlash_append {front : Bytes} (h : '/'.toUInt8 ∉ front) (s : Bytes)
    : fromSlash (front ++ s) = fromSlash s := by
  apply List.dropWhile_append_of_pos
  intro c hc
  rw [decide_eq_true_eq]
  rintro rfl
  exact h hc

theorem fromSlash_of_head {s : Bytes} (h : s.head? = some '/'.toUInt8) : fromSlash s = s := by
  cases s with
  | nil => rfl
  | cons c s =>
    rw [fromSlash, List.dropWhile_cons_of_neg]
    simpa using h

theorem length_fromSlash_trimmed_le (s : Bytes) : (fromSlash (trimmed s)).length ≤ s.length := by
  have hdrop := List.length_dropWhile_le (fun c => decide (c ≠ '/'.toUInt8)) (trimmed s)
  have htrimmed : (trimmed s).length ≤ s.length := by
    rw [trimmed_eq]
    split_ifs
    . rw [List.length_dropLast]
      omega
    . exact Nat.le_refl _
  exact hdrop.trans htrimmed

def EndsInOnlySlash (s : Bytes) : Prop :=
  ∃ front, '/'.toUInt8 ∉ front ∧ s = front ++ Bytes.lit "/"

theorem fromSlash_eq_slash_iff {s : Bytes} : fromSlash s = Bytes.lit "/" ↔ EndsInOnlySlash s := by
  constructor
  . intro h
    refine ⟨s.takeWhile (· ≠ '/'.toUInt8), ?_, ?_⟩
    . intro hmem
      simpa using List.mem_takeWhile_imp hmem
    . rw [← h]
      exact List.takeWhile_append_dropWhile.symm
  . rintro ⟨front, hfront, rfl⟩
    rw [fromSlash_append hfront]
    rfl

theorem not_cr_of_uriChar {b : UInt8} (hb : UriChar b) : b ≠ '\r'.toUInt8 := by
  rintro rfl
  exact absurd hb (by decide)

def Reached (place : Location) : Prop :=
  if place.path = [] then
    EndsInOnlySlash (trimmed (behindScheme place.render))
  else
    (∀ b ∈ place.path ++ place.query, UriChar b)
      ∧ match place.origin with
        | none => ¬Bytes.lit "//" <:+: place.path ++ place.query
        | some (_, authority) => '\r'.toUInt8 ∉ authority

theorem behindScheme_origin {scheme : Bytes} (h : '/'.toUInt8 ∉ scheme) (rest : Bytes)
    : behindScheme (scheme ++ Bytes.lit "://" ++ rest) = rest := by
  have hfront : '/'.toUInt8 ∉ scheme ++ Bytes.lit ":" := by
    rw [List.mem_append, not_or]
    exact ⟨h, by decide⟩
  have htext : scheme ++ Bytes.lit "://" ++ rest = scheme ++ Bytes.lit ":" ++ (Bytes.lit "//" ++ rest) := by
    rw [List.append_assoc, List.append_assoc]
    rfl
  rw [htext, behindScheme, show Bytes.lit "//" = '/'.toUInt8 :: Bytes.lit "/" from rfl, Bytes.find_behind hfront]
  dsimp only
  rw [List.drop_length_add_append]
  rfl

theorem fromSlash_target_iff (place : Location)
    : (fromSlash (trimmed (behindScheme place.render)) = place.target ∧ ∀ b ∈ place.target, UriChar b)
        ↔
      Reached place := by
  rw [Reached, Location.target]
  by_cases hpath : place.path = []
  . rw [if_pos hpath, if_pos hpath, fromSlash_eq_slash_iff]
    exact and_iff_left (by decide +kernel)
  rw [if_neg hpath, if_neg hpath, and_comm]
  apply and_congr_right
  intro huri
  have hcr : '\r'.toUInt8 ∉ place.path ++ place.query :=
    fun hmem => not_cr_of_uriChar (huri _ hmem) rfl
  have hhead : (place.path ++ place.query).head? = some '/'.toUInt8 := by
    rcases List.exists_cons_of_ne_nil hpath with ⟨c, path, hcons⟩
    have hc := place.path_head c (by rw [hcons]; rfl)
    rw [hcons, hc]
    rfl
  have hpos : 0 < (place.path ++ place.query).length := by
    apply List.length_pos_of_ne_nil
    rintro hnil
    rw [hnil] at hhead
    cases hhead
  rw [Location.render]
  cases horigin : place.origin with
  | none =>
    dsimp only
    cases hfind : Bytes.find (Bytes.lit "//") (place.path ++ place.query) with
    | none =>
      refine iff_of_true ?_ (Bytes.find_eq_none.mp hfind)
      rw [behindScheme, hfind]
      dsimp only
      rw [trimmed_eq, if_neg hcr, fromSlash_of_head hhead]
    -- what stands in front of the two slashes is taken for a scheme, so too little is left
    | some pos =>
      refine iff_of_false ?_ ?_
      . rw [behindScheme, hfind]
        dsimp only
        intro heq
        have hlength := length_fromSlash_trimmed_le ((place.path ++ place.query).drop (pos + 2))
        rw [heq, List.length_drop] at hlength
        omega
      . rw [← Bytes.find_eq_none, hfind]
        exact Option.some_ne_none pos
  | some origin =>
    rcases origin with ⟨scheme, authority⟩
    have hscheme := (place.scheme_chars _ horigin).1
    have hauthority := place.authority_chars _ horigin
    dsimp only
    rw [List.append_assoc, behindScheme_origin hscheme, trimmed_eq]
    split_ifs with hmem
    . have hmem := (List.mem_append.mp hmem).resolve_right hcr
      refine iff_of_false ?_ (not_not.mpr hmem)
      intro heq
      rw [List.dropLast_append_of_ne_nil (List.ne_nil_of_length_pos hpos), fromSlash_append hauthority] at heq
      -- the carriage return in the authority costs the last byte of the path
      have hlength := List.length_dropWhile_le (fun c => decide (c ≠ '/'.toUInt8))
        (place.path ++ place.query).dropLast
      rw [show List.dropWhile _ _ = _ from heq, List.length_dropLast] at hlength
      omega
    . refine iff_of_true ?_ fun hcr => hmem (List.mem_append_left _ hcr)
      rw [fromSlash_append hauthority, fromSlash_of_head hhead]

/-! ## The request for it -/

structure SendsTo (request : Request) (target raw : Bytes) : Prop where
  target_ne_nil : target ≠ []
  text : raw = RawRequest.render request.method target (Bytes.lit "1.0") (forwardedHeaders request) request.body
  accepted : (RequestParser.parse {} {} raw).result = .good
  uri : (RequestParser.parse {} {} raw).request.uri = target

theorem headerName_of_mem_forwardedHeaders {request : Request} (hnamed : request.Named) {header : Bytes × Bytes}
    (hheader : header ∈ forwardedHeaders request) : HeaderName header.1 ∧ CtlFree header.2 := by
  rcases mem_forwardedHeaders.mp hheader with rfl | ⟨hentry, -, -⟩
  . exact ⟨.inl (by decide +kernel), by decide +kernel⟩
  . exact hnamed _ _ (OrdMap.find?_eq_some_iff.mpr hentry)

theorem render_inj {method : Request.MethodEnum} {uri uri' version body : Bytes} {headers : List (Bytes × Bytes)}
    (h : RawRequest.render method uri version headers body = RawRequest.render method uri' version headers body)
    : uri = uri' := by
  simpa [RawRequest.render, RawRequest.lines, RawRequest.requestLine] using h

theorem sendsTo_iff {request : Request} (hnamed : request.Named) {target uri : Bytes} (htarget : target ≠ [])
    : SendsTo request target
          (RawRequest.render request.method uri (Bytes.lit "1.0") (forwardedHeaders request) request.body)
        ↔
      (uri = target ∧ ∀ b ∈ target, UriChar b) ∧ ∀ header ∈ forwardedHeaders request, TokenName header.1 := by
  have hversion : RequestParser.IsVersion (Bytes.lit "1.0") :=
    @RequestParser.isVersion_one '0'.toUInt8 (by decide)
  have hheaders := fun header hheader => @headerName_of_mem_forwardedHeaders request hnamed header hheader
  have hnodup := nodup_forwardedHeaders request
  have haccepted := fun huri => @RequestParser.parse_render_good_iff request.method target (Bytes.lit "1.0")
    (forwardedHeaders request) huri hversion hheaders hnodup request.body
  constructor
  . intro h
    have huri := render_inj h.text
    subst huri
    have hchars : ∀ b ∈ uri, UriChar b := by
      have hclean := (RequestParser.clean_parse (.inl rfl) (RawRequest.render request.method uri (Bytes.lit "1.0")
        (forwardedHeaders request) request.body)).uri
      rwa [h.uri] at hclean
    exact ⟨⟨rfl, hchars⟩, (haccepted hchars).mp h.accepted⟩
  . rintro ⟨⟨rfl, hchars⟩, htokens⟩
    rcases @RequestParser.parse_render request.method _ _ _ hchars hversion
      (fun header hheader => ⟨(htokens header hheader).1, (htokens header hheader).2, (hheaders header hheader).2⟩)
      hnodup request.body with ⟨parser', hparse⟩
    exact ⟨htarget, rfl, (haccepted hchars).mpr htokens, by rw [hparse]⟩

theorem sendsTo_place_iff {request : Request} (hnamed : request.Named) (place : Location)
    : SendsTo request place.target (RawRequest.render request.method
          (fromSlash (trimmed (behindScheme place.render))) (Bytes.lit "1.0") (forwardedHeaders request) request.body)
        ↔
      Reached place ∧ ∀ header ∈ forwardedHeaders request, TokenName header.1 := by
  have htarget : place.target ≠ [] := by
    rw [Location.target]
    split_ifs with hpath
    . decide
    . simp [hpath]
  rw [sendsTo_iff hnamed htarget, fromSlash_target_iff]

theorem yields_again_iff {β : Type} {p : Bytes → Prop} {raw : Bytes} {response : Response}
    : (Outcome.ok (Pass.again (β := β) (raw, response))).Yields (fun pass =>
          ∃ raw' response', pass = .again (raw', response') ∧ p raw')
        ↔
      p raw := by
  rw [Outcome.yields_ok]
  constructor
  . rintro ⟨raw', response', hpass, hp⟩
    rw [Pass.again.injEq, Prod.mk.injEq] at hpass
    rwa [hpass.1]
  . intro hp
    exact ⟨_, _, rfl, hp⟩

/--
When the handler follows a redirect, it sends an acceptable request for what the location names exactly if the
location is one that it reads right, and the names of the headers that it forwards are tokens.
-/
theorem exchangePass_sendsTo_iff {handler : ProxyRequestHandler} {request : Request} (hnamed : request.Named)
    {response : Response} (hbody : response.body = []) {exchange : Exchange} {reading : Reading}
    (hreading : exchange.reading = .ok reading) (hfollows : Follows request response reading) {place : Location}
    (hplace : location (passed response reading) = place.render)
    : (handler.exchangePass request response exchange).Yields (fun pass =>
          ∃ raw response', pass = .again (raw, response') ∧ SendsTo request place.target raw)
        ↔
      Reached place ∧ ∀ header ∈ forwardedHeaders request, TokenName header.1 := by
  rw [exchangePass_follows hbody hreading hfollows, yields_again_iff, hplace]
  exact sendsTo_place_iff hnamed place

def onLocalhost (path : Bytes) (hpath : path.head?.all (· = '/'.toUInt8)) : Location where
  origin := some (Bytes.lit "http", Bytes.lit "localhost")
  path := path
  query := []
  scheme_chars := by simpa using by decide
  authority_chars := by simpa using by decide
  path_head := by simpa [Option.all_eq_true] using hpath
  query_head := by simp

def redirectTo (place : Bytes) : Exchange :=
  .answered ⟨[Bytes.lit "HTTP/1.0 302 Found\r\nLocation: " ++ place ++ Bytes.lit "\r\n\r\n"],
    by simp [Bytes.lit]⟩

def redirectReading (place : Bytes) : Reading :=
  .complete 302 (OrdMap.ofList [(Bytes.lit "Location", place)]) []

theorem exchangePass_sendsTo_iff_a
    : (rootProxy.exchangePass toLocalhost {} (redirectTo (Bytes.lit "http://localhost/a"))).Yields (fun pass =>
          ∃ raw response', pass = .again (raw, response') ∧ SendsTo toLocalhost (Bytes.lit "/a") raw)
        ↔
      Reached (onLocalhost (Bytes.lit "/a") rfl)
        ∧ ∀ header ∈ forwardedHeaders toLocalhost, TokenName header.1 :=
  @exchangePass_sendsTo_iff rootProxy toLocalhost (named_of_tokens (by decide +kernel)) {} rfl
    (redirectTo (Bytes.lit "http://localhost/a")) (redirectReading (Bytes.lit "http://localhost/a")) rfl
    (by decide +kernel) (onLocalhost (Bytes.lit "/a") rfl) rfl

/-- A location without a path: the request has no target. -/
theorem exchangePass_pathless
    : rootProxy.exchangePass toLocalhost {} (redirectTo (Bytes.lit "http://localhost"))
          = .ok (.again (Bytes.lit "GET  HTTP/1.0\r\nHost: localhost\r\nConnection: close\r\n\r\n",
            passed {} (redirectReading (Bytes.lit "http://localhost"))))
        ∧ location (passed {} (redirectReading (Bytes.lit "http://localhost"))) = (onLocalhost [] rfl).render
        ∧ ¬(rootProxy.exchangePass toLocalhost {} (redirectTo (Bytes.lit "http://localhost"))).Yields (fun pass =>
          ∃ raw response', pass = .again (raw, response')
            ∧ SendsTo toLocalhost (onLocalhost [] rfl).target raw) := by
  have hpass : rootProxy.exchangePass toLocalhost {} (redirectTo (Bytes.lit "http://localhost"))
      = .ok (.again (Bytes.lit "GET  HTTP/1.0\r\nHost: localhost\r\nConnection: close\r\n\r\n",
        passed {} (redirectReading (Bytes.lit "http://localhost")))) := by
    rfl
  refine ⟨hpass, rfl, ?_⟩
  rw [hpass, Outcome.yields_ok]
  rintro ⟨raw, response', heq, hsends⟩
  rw [Pass.again.injEq, Prod.mk.injEq] at heq
  have huri := hsends.uri
  rw [← heq.1] at huri
  revert huri
  decide +kernel

end ProxyRequestHandler

end Foxy
