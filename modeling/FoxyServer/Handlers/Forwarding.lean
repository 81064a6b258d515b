import FoxyServer.Handlers.Proxy
import FoxyServer.RequestParser.ReadBack

/-!
This module contains what the proxy handler sends: a request with the uri cut, the version lowered and the
headers filtered.
-/

namespace Foxy

namespace ProxyRequestHandler

def forwardedAs (header : Bytes × Bytes) : Bytes × Bytes :=
  if header.1 = Bytes.lit "Connection" then (header.1, Bytes.lit "close") else header

def isForwarded (header : Bytes × Bytes) : Bool :=
  header.1 ≠ Bytes.lit "Accept-Encoding" && header.2 ≠ []

def forwardedHeaders (request : Request) : List (Bytes × Bytes) :=
  (request.headers.entries.filter isForwarded).map forwardedAs
    ++ if request.headers.entries.any sendsConnection then
        []
      else
        [(Bytes.lit "Connection", Bytes.lit "close")]

theorem flatMap_forwardedHeader (entries : List (Bytes × Bytes))
    : entries.flatMap forwardedHeader
        =
      Bytes.unlines (((entries.filter isForwarded).map forwardedAs).map RawRequest.headerLine) := by
  induction entries with
  | nil => rfl
  | cons header entries ih =>
    rcases header with ⟨name, value⟩
    rw [List.flatMap_cons, ih, forwardedHeader]
    by_cases hname : name = Bytes.lit "Accept-Encoding"
    . rw [List.filter_cons_of_neg (by simp [isForwarded, hname]), if_pos hname, List.nil_append]
    . by_cases hvalue : value = []
      . rw [List.filter_cons_of_neg (by simp [isForwarded, hvalue]), if_neg hname,
          if_neg (not_not.mpr hvalue), List.nil_append]
      . rw [List.filter_cons_of_pos (by simp [isForwarded, hname, hvalue]), if_neg hname, if_pos hvalue,
          List.map_cons, List.map_cons, Bytes.unlines_cons, RawRequest.headerLine, forwardedAs]
        split_ifs <;> rfl

def forwardedUri (handler : ProxyRequestHandler) (uri : Bytes) : Bytes :=
  let uri := uri.drop (handler.path.length - 1)
  if uri.head? ≠ some '/'.toUInt8 then Bytes.lit "/" ++ uri else uri

theorem render_forwardedHeaders (request : Request) (uri : Bytes)
    : request.method.toBytes ++ Bytes.lit " " ++ uri ++ Bytes.lit " HTTP" ++ Bytes.lit "/"
          ++ Bytes.lit "1.0" ++ Bytes.crlf ++ request.headers.entries.flatMap forwardedHeader
          ++ (if !request.headers.entries.any sendsConnection then Bytes.lit "Connection: close\r\n" else [])
          ++ Bytes.crlf ++ request.body
        =
      RawRequest.render request.method uri (Bytes.lit "1.0") (forwardedHeaders request) request.body := by
  have hclose : Bytes.unlines ([(Bytes.lit "Connection", Bytes.lit "close")].map RawRequest.headerLine)
      = Bytes.lit "Connection: close\r\n" := by
    decide
  rw [flatMap_forwardedHeader, RawRequest.render, RawRequest.lines, Bytes.unlines_cons,
    RawRequest.requestLine, forwardedHeaders, List.map_append, Bytes.unlines_append]
  cases request.headers.entries.any sendsConnection with
  | true => simp only [Bool.not_true, Bool.false_eq_true, if_false, if_true, List.map_nil, Bytes.unlines_nil,
      List.append_nil, List.append_assoc]
  | false => simp only [Bool.not_false, Bool.false_eq_true, if_false, if_true, hclose, List.append_assoc]

theorem convertToRawbody_redirect (handler : ProxyRequestHandler) (request : Request)
    : handler.convertToRawbody request true
        = .ok (RawRequest.render request.method request.uri (Bytes.lit "1.0") (forwardedHeaders request)
            request.body) := by
  rw [convertToRawbody, if_pos rfl, Outcome.ok_bind, Outcome.pure_eq_ok, render_forwardedHeaders]

theorem substr_uri (handler : ProxyRequestHandler) (uri : Bytes)
    : Bytes.substr uri (handler.path.length - 1)
        =
      if handler.path ≠ [] ∧ handler.path.length ≤ uri.length + 1 then
        .ok (uri.drop (handler.path.length - 1))
      else
        .throws .outOfRange := by
  have hbounds : (0 : Int) ≤ handler.path.length - 1 ∧ (handler.path.length - 1 : Int) ≤ uri.length
      ↔ handler.path ≠ [] ∧ handler.path.length ≤ uri.length + 1 := by
    rw [← List.length_pos_iff]
    omega
  have hpos : ((handler.path.length : Int) - 1).toNat = handler.path.length - 1 := by omega
  simp only [Bytes.substr, hbounds, hpos]

theorem convertToRawbody_eq_ok {handler : ProxyRequestHandler} {request : Request} {raw : Bytes}
    : handler.convertToRawbody request false = .ok raw
        ↔
      (handler.path ≠ [] ∧ handler.path.length ≤ request.uri.length + 1)
        ∧ raw = RawRequest.render request.method (handler.forwardedUri request.uri) (Bytes.lit "1.0")
            (forwardedHeaders request) request.body := by
  rw [convertToRawbody, if_neg (by simp), substr_uri]
  by_cases h : handler.path ≠ [] ∧ handler.path.length ≤ request.uri.length + 1
  . rw [if_pos h, and_iff_right h, ← render_forwardedHeaders, eq_comm (a := raw)]
    simp only [Outcome.ok_bind, Outcome.pure_eq_ok, Outcome.ok.injEq]
    rfl
  . rw [if_neg h]
    simp only [Outcome.throws_bind, h, false_and, reduceCtorEq]

theorem convertToRawbody_returns_iff {handler : ProxyRequestHandler} {request : Request}
    : (handler.convertToRawbody request false).Returns
        ↔
      handler.path ≠ [] ∧ handler.path.length ≤ request.uri.length + 1 := by
  constructor
  . rintro ⟨raw, h⟩
    exact (convertToRawbody_eq_ok.mp h).1
  . intro h
    exact ⟨_, convertToRawbody_eq_ok.mpr ⟨h, rfl⟩⟩

theorem mem_forwardedHeaders {request : Request} {header : Bytes × Bytes}
    : header ∈ forwardedHeaders request
        ↔
      header = (Bytes.lit "Connection", Bytes.lit "close")
        ∨ header ∈ request.headers.entries ∧ isForwarded header ∧ header.1 ≠ Bytes.lit "Connection" := by
  have hsent : header ∈ (request.headers.entries.filter isForwarded).map forwardedAs
      ↔ request.headers.entries.any sendsConnection ∧ header = (Bytes.lit "Connection", Bytes.lit "close")
        ∨ header ∈ request.headers.entries ∧ isForwarded header ∧ header.1 ≠ Bytes.lit "Connection" := by
    simp only [List.mem_map, List.mem_filter]
    constructor
    . rintro ⟨⟨name, value⟩, ⟨hentry, hforwarded⟩, rfl⟩
      by_cases hname : name = Bytes.lit "Connection"
      . refine .inl ⟨List.any_eq_true.mpr ⟨(name, value), hentry, ?_⟩, ?_⟩
        . simp_all [isForwarded, sendsConnection]
        . rw [forwardedAs, if_pos hname, hname]
      . rw [forwardedAs, if_neg hname]
        exact .inr ⟨hentry, hforwarded, hname⟩
    . rintro (⟨hany, rfl⟩ | ⟨hentry, hforwarded, hname⟩)
      . rcases List.any_eq_true.mp hany with ⟨⟨name, value⟩, hentry, hsends⟩
        simp only [sendsConnection, Bool.and_eq_true, decide_eq_true_eq] at hsends
        rcases hsends with ⟨hvalue, rfl⟩
        refine ⟨_, ⟨hentry, ?_⟩, by rw [forwardedAs, if_pos rfl]⟩
        rw [isForwarded, Bool.and_eq_true, decide_eq_true_eq, decide_eq_true_eq]
        exact ⟨show Bytes.lit "Connection" ≠ Bytes.lit "Accept-Encoding" by decide, hvalue⟩
      . exact ⟨header, ⟨hentry, hforwarded⟩, by rw [forwardedAs, if_neg hname]⟩
  rw [forwardedHeaders, List.mem_append, hsent]
  cases request.headers.entries.any sendsConnection with
  | true => simp
  | false =>
    simp only [Bool.false_eq_true, false_and, false_or, if_false, List.mem_singleton]
    exact or_comm

theorem nodup_forwardedHeaders (request : Request)
    : ((forwardedHeaders request).map Prod.fst).Nodup := by
  have hfst : Prod.fst ∘ forwardedAs = Prod.fst := by
    funext header
    rw [Function.comp, forwardedAs]
    split_ifs <;> rfl
  have hsent : (((request.headers.entries.filter isForwarded).map forwardedAs).map Prod.fst).Nodup := by
    rw [List.map_map, hfst]
    exact (request.headers.nodup_keys).sublist (List.filter_sublist.map Prod.fst)
  rw [forwardedHeaders, List.map_append]
  split
  next => simpa using hsent
  next hnone =>
    rw [List.nodup_append]
    refine ⟨hsent, by simp, ?_⟩
    rintro name hname _ hconnection rfl
    rw [List.map_map, hfst] at hname
    rcases List.mem_map.mp hname with ⟨⟨name', value⟩, hentry, rfl⟩
    rw [List.mem_filter, isForwarded, Bool.and_eq_true] at hentry
    simp only [List.map_cons, List.map_nil, List.mem_singleton] at hconnection
    refine hnone (List.any_eq_true.mpr ⟨(name', value), hentry.1, ?_⟩)
    rw [sendsConnection, Bool.and_eq_true]
    exact ⟨hentry.2.2, decide_eq_true hconnection⟩

def survives (header : Bytes × Bytes) : Bool :=
  header.2 ≠ [] && header.1 ≠ Bytes.lit "Accept-Encoding" && header.1 ≠ Bytes.lit "Connection"

theorem ofList_forwardedHeaders (request : Request)
    : OrdMap.ofList (forwardedHeaders request)
        =
      (request.headers.filter survives).set (Bytes.lit "Connection") (Bytes.lit "close") := by
  apply OrdMap.ofList_of_mem_iff (nodup_forwardedHeaders request)
  rintro ⟨name, value⟩
  have hset := OrdMap.find?_set (request.headers.filter survives) (Bytes.lit "Connection") name
    (Bytes.lit "close")
  rw [mem_forwardedHeaders,
    ← OrdMap.find?_eq_some_iff (m := (request.headers.filter survives).set _ _), hset]
  by_cases hname : Bytes.lit "Connection" = name
  . subst hname
    simp only [Prod.mk.injEq, true_and, ne_eq, not_true_eq_false, and_false, or_false, if_true,
      Option.some.injEq]
    exact eq_comm
  . rw [if_neg hname, OrdMap.find?_eq_some_iff, OrdMap.filter, List.mem_filter]
    simp only [survives, isForwarded, Prod.mk.injEq, Ne.symm hname, false_and, false_or, ne_eq,
      Bool.and_eq_true, decide_eq_true_eq, not_false_eq_true, and_comm]

/--
A request that is forwarded from below its location is read back with the location cut off its uri, version
1.0, and one `Connection` header in place of those that are dropped.
-/
theorem parse_convertToRawbody {handler : ProxyRequestHandler} {request : Request}
    (hrequest : request.Plain) (hend : handler.path.getLast? = some '/'.toUInt8)
    (hlocation : handler.path <+: request.uri)
    : ∃ raw parser', handler.convertToRawbody request false = .ok raw
        ∧ RequestParser.parse {} {} raw = ⟨.good, request.body, parser',
            { method := request.method
              uri := Bytes.lit "/" ++ request.uri.drop handler.path.length
              httpVersion := Bytes.lit "1.0"
              headers := (request.headers.filter survives).set (Bytes.lit "Connection") (Bytes.lit "close") }⟩ := by
  rcases hlocation with ⟨below, hbelow⟩
  rcases List.getLast?_eq_some_iff.mp hend with ⟨front, hfront⟩
  have hne : handler.path ≠ [] := by simp [hfront]
  have huri : handler.forwardedUri request.uri = Bytes.lit "/" ++ request.uri.drop handler.path.length := by
    have hcut : request.uri.drop (handler.path.length - 1) = '/'.toUInt8 :: below := by
      rw [← hbelow, hfront, List.length_append, List.append_assoc]
      exact List.drop_left
    rw [forwardedUri, hcut, List.head?_cons, if_neg (not_not.mpr rfl), ← hbelow, List.drop_left]
    rfl
  -- what `substr` needs to return
  have hlength : handler.path.length ≤ request.uri.length + 1 := by
    rw [← hbelow, List.length_append]
    omega
  have hbelowUri : ∀ b ∈ Bytes.lit "/" ++ request.uri.drop handler.path.length, Grammar.UriChar b := by
    intro b hb
    rcases List.mem_append.mp hb with hb | hb
    . rw [List.mem_singleton.mp hb]
      decide
    . exact hrequest.uri b (List.mem_of_mem_drop hb)
  have hheaders : ∀ header ∈ forwardedHeaders request, RequestParser.PlainHeader header := by
    intro header hheader
    rcases mem_forwardedHeaders.mp hheader with rfl | ⟨hentry, -, -⟩
    . exact ⟨by decide, by decide +kernel, by decide +kernel⟩
    . exact hrequest.headers header hentry
  have hversion : RequestParser.IsVersion (Bytes.lit "1.0") :=
    @RequestParser.isVersion_one '0'.toUInt8 (by decide)
  rcases @RequestParser.parse_render request.method _ _ _ hbelowUri hversion hheaders
    (nodup_forwardedHeaders request) request.body with ⟨parser', hparse⟩
  rw [ofList_forwardedHeaders] at hparse
  exact ⟨_, parser', convertToRawbody_eq_ok.mpr ⟨⟨hne, hlength⟩, by rw [huri]⟩, hparse⟩

def foxyProxy : ProxyRequestHandler :=
  { root := Bytes.lit "host", path := Bytes.lit "/foxy/", port := 80 }

def keptAlive : Request :=
  { uri := Bytes.lit "/foxy/a"
    httpVersion := Bytes.lit "1.1"
    headers := OrdMap.ofList [(Bytes.lit "Accept-Encoding", Bytes.lit "gzip"),
      (Bytes.lit "Connection", Bytes.lit "keep-alive"), (Bytes.lit "Host", Bytes.lit "h"), (Bytes.lit "Via", [])]
    body := Bytes.lit "fox" }

theorem parse_convertToRawbody_keptAlive
    : ∃ raw parser', foxyProxy.convertToRawbody keptAlive false = .ok raw
        ∧ RequestParser.parse {} {} raw = ⟨.good, Bytes.lit "fox", parser',
            { method := .get
              uri := Bytes.lit "/" ++ Bytes.lit "a"
              httpVersion := Bytes.lit "1.0"
              headers := (keptAlive.headers.filter survives).set (Bytes.lit "Connection") (Bytes.lit "close") }⟩ :=
  parse_convertToRawbody
    ⟨by decide +kernel, RequestParser.isVersion_one (by decide),
      by decide +kernel⟩
    (by decide) (by decide)

end ProxyRequestHandler

end Foxy
