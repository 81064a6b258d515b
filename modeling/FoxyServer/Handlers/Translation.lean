import FoxyServer.Handlers.Containment
import FoxyServer.Handlers.Encoding

/-!
This module contains which file a uri below a location is translated to, and that the handler finds its
location in the uri only where it is spelled as in the config.
-/

namespace Foxy

namespace RequestHandlerGenerator

theorem components_append_of_last {a : Bytes} (h : ∀ c ∈ a.getLast?, c = '/'.toUInt8) (b : Bytes)
    : components (a ++ b) = components a ++ components b := by
  rw [components_eq_parts, components_eq_parts, components_eq_parts]
  apply Parts.parts_append_of_cleanCut
  left
  intro c hc
  exact decide_eq_true (h c hc)

end RequestHandlerGenerator

namespace StaticRequestHandler

open RequestHandlerGenerator

/-! ## A uri without percent signs -/

def plusToSpace (c : UInt8) : UInt8 :=
  if c = '+'.toUInt8 then ' '.toUInt8 else c

def decodePlus (s : Bytes) : Bytes :=
  s.map plusToSpace

theorem plusToSpace_eq_iff {c d : UInt8} (hplus : d ≠ '+'.toUInt8) (hspace : d ≠ ' '.toUInt8)
    : plusToSpace c = d ↔ c = d := by
  unfold plusToSpace
  split
  next hc =>
    rw [hc]
    exact iff_of_false hspace.symm hplus.symm
  next => rfl

theorem plusToSpace_ne (c : UInt8) : plusToSpace c ≠ '+'.toUInt8 := by
  unfold plusToSpace
  split
  . decide
  . assumption

theorem urlDecode_eq {uri : Bytes} (h : '%'.toUInt8 ∉ uri) : urlDecode uri = some (decodePlus uri) := by
  induction uri with
  | nil => rfl
  | cons c uri ih =>
    rw [List.mem_cons, not_or] at h
    unfold urlDecode
    rw [if_neg (Ne.symm h.1), ih h.2]
    by_cases hc : c = '+'.toUInt8
    . rw [if_pos hc, hc]
      rfl
    . rw [if_neg hc, decodePlus, decodePlus, List.map_cons, plusToSpace, if_neg hc]
      rfl

theorem components_decodePlus (s : Bytes) : components (decodePlus s) = (components s).map decodePlus := by
  rw [components_eq_parts, components_eq_parts, decodePlus, Parts.parts_map]
  . rfl
  . intro c
    rw [decide_eq_decide]
    apply plusToSpace_eq_iff <;> decide

theorem decodePlus_of_prefix {p uri : Bytes} (h : p <+: decodePlus uri) : decodePlus p = p := by
  have hplus : ∀ c ∈ p, plusToSpace c = c := by
    intro c hc
    rcases List.mem_map.mp (h.subset hc) with ⟨b, -, rfl⟩
    rw [plusToSpace, if_neg (plusToSpace_ne b)]
  rw [decodePlus]
  conv_rhs => rw [← List.map_id p]
  exact List.map_congr_left hplus

theorem getLast?_decodePlus (s : Bytes)
    : (decodePlus s).getLast? = some '/'.toUInt8 ↔ s.getLast? = some '/'.toUInt8 := by
  rw [decodePlus, List.getLast?_map, Option.map_eq_some_iff]
  constructor
  . rintro ⟨c, hc, heq⟩
    rw [hc, (plusToSpace_eq_iff (by decide) (by decide)).mp heq]
  . intro h
    exact ⟨_, h, by decide⟩

theorem noDots_decodePlus {s : Bytes} (h : NoDots s) : NoDots (decodePlus s) := by
  rw [NoDots, show Bytes.lit ".." = ['.'.toUInt8, '.'.toUInt8] from rfl] at h ⊢
  rintro ⟨front, rest, heq⟩
  rw [decodePlus] at heq
  rcases List.map_eq_append_iff.mp heq.symm with ⟨l1, l2, rfl, h1, -⟩
  rcases List.map_eq_append_iff.mp h1 with ⟨l3, l4, rfl, -, hdots⟩
  rcases List.map_eq_cons_iff.mp hdots with ⟨c, l5, rfl, hc, hl5⟩
  rcases List.map_eq_cons_iff.mp hl5 with ⟨d, l6, rfl, hd, hl6⟩
  rw [plusToSpace_eq_iff (by decide) (by decide)] at hc hd
  rw [List.map_eq_nil_iff] at hl6
  subst hc hd hl6
  exact h ⟨l3, l2, rfl⟩

/-! ## The translated path -/

def fileNames (uri : Bytes) (rest : List Bytes) : List Bytes :=
  rest.map decodePlus
    ++ if uri.getLast? = some '/'.toUInt8 ∨ rest = [] then [Bytes.lit "index.html"] else []

/-- What is opened is the root followed by the given components, and the answer is not a server error. -/
def OpensBelowRoot (handler : StaticRequestHandler) (result : Response × Option Bytes)
    (names : List Bytes) : Prop :=
  result.1.code ≠ .internalServerError
    ∧ ∃ suffix, result.2 = some (Bytes.cStr (handler.root ++ suffix)) ∧ components suffix = names

def RoutedTo (p uri : Bytes) (handler : StaticRequestHandler) : Prop :=
  ∃ config startup accepted generator startup1 ptr,
    getMap {} config startup = .ok (accepted, generator, startup1)
      ∧ (generator.dispatchHandler uri).1 = some ptr ∧ ptr.object = .static handler ∧ handler.path = p

/--
Wherever the uri is dispatched to a handler for files at `p`, the handler translates it to its root followed
by the components that the uri has behind those of `p`.
-/
def Translates (p uri : Bytes) (rest : List Bytes) : Prop :=
  ∀ handler, RoutedTo p uri handler → ∀ files verifyCookie request, request.uri = uri →
    (handler.authPath = []
      ∨ checkCookie verifyCookie ((request.headers.find? (Bytes.lit "Cookie")).getD []) = true) →
    handler.OpensBelowRoot (handler.handleRequest files verifyCookie request) (fileNames uri rest)

theorem code_of_opened {handler : StaticRequestHandler} {files : FileSystem} {verifyCookie : Bytes → Bool}
    {request : Request} {opened : Bytes}
    (h : (handler.handleRequest files verifyCookie request).2 = some opened)
    : (handler.handleRequest files verifyCookie request).1.code ≠ .internalServerError := by
  revert h
  simp only [handleRequest]
  split
  . simp
  . split
    . simp
    . split
      . simp
      . split <;> simp [ResponseGenerator.stockResponse]

theorem find_of_prefix {p s : Bytes} (h : p <+: s) : Bytes.find p s = some 0 := by
  cases s with
  | nil => rw [Bytes.find, if_pos (List.prefix_nil.mp h)]
  | cons c s => rw [Bytes.find, if_pos h]

theorem checkRequestPath_of_prefix {p uri : Bytes} (hstart : p.head? = some '/'.toUInt8)
    (hpercent : '%'.toUInt8 ∉ uri) (hdots : NoDots uri) (hbegins : p <+: decodePlus uri)
    : checkRequestPath uri
        =
      some (decodePlus uri
        ++ if uri.getLast? = some '/'.toUInt8 then Bytes.lit "index.html" else []) := by
  have hhead : (decodePlus uri).head? = some '/'.toUInt8 := by
    rcases hbegins with ⟨after, hafter⟩
    rw [← hafter, List.head?_append, hstart, Option.some_or]
  have hcontains : (decodePlus uri).contains (Bytes.lit "..") = false :=
    noDots_iff_not_contains.mp (noDots_decodePlus hdots)
  simp only [checkRequestPath, urlDecode_eq hpercent, Option.bind_eq_bind, Option.bind_some, hhead, hcontains,
    getLast?_decodePlus]
  rw [if_neg (by simp)]
  split
  . rfl
  . rw [List.append_nil]

theorem components_behind {p uri after : Bytes} {rest : List Bytes} (hend : p.getLast? = some '/'.toUInt8)
    (huri : uri.NoNul) (hcomponents : components uri = components (Bytes.cStr p) ++ rest)
    (hafter : p ++ after = decodePlus uri) : components after = rest.map decodePlus := by
  have hbegins : p <+: decodePlus uri := ⟨after, hafter⟩
  have hp : p.NoNul := by
    intro b hb
    rcases List.mem_map.mp (hbegins.subset hb) with ⟨c, hc, rfl⟩
    rw [ne_eq, plusToSpace_eq_iff (by decide) (by decide)]
    exact huri c hc
  have hsplit := components_append_of_last (a := p) (by simp [hend]) after
  rw [hafter, components_decodePlus, hcomponents, Bytes.cStr_of_noNul hp, List.map_append,
    ← components_decodePlus, decodePlus_of_prefix hbegins] at hsplit
  exact (List.append_cancel_left hsplit).symm

theorem components_fileNames {p uri after : Bytes} {rest : List Bytes}
    (hend : p.getLast? = some '/'.toUInt8) (huri : uri.NoNul)
    (hcomponents : components uri = components (Bytes.cStr p) ++ rest) (hafter : p ++ after = decodePlus uri)
    : components (after ++ if uri.getLast? = some '/'.toUInt8 then Bytes.lit "index.html" else [])
        =
      fileNames uri rest := by
  have hbehind := components_behind hend huri hcomponents hafter
  have hlast : uri.getLast? = some '/'.toUInt8 ↔ ∀ c ∈ after.getLast?, c = '/'.toUInt8 := by
    rw [← getLast?_decodePlus, ← hafter, List.getLast?_append, hend]
    cases after.getLast? <;> simp
  unfold fileNames
  by_cases hdirectory : uri.getLast? = some '/'.toUInt8
  . rw [if_pos hdirectory, if_pos (.inl hdirectory), components_append_of_last (hlast.mp hdirectory), hbehind]
    rfl
  . have hrest : rest ≠ [] := by
      rintro rfl
      refine hdirectory (hlast.mpr ?_)
      intro c hc
      exact of_decide_eq_true (Parts.parts_eq_nil hbehind c (List.mem_of_mem_getLast? hc))
    rw [if_neg hdirectory, if_neg (not_or.mpr ⟨hdirectory, hrest⟩), List.append_nil, List.append_nil, hbehind]

theorem opensBelowRoot_of_prefix {handler : StaticRequestHandler} {files : FileSystem}
    {verifyCookie : Bytes → Bool} {request : Request} {rest : List Bytes}
    (hstart : handler.path.head? = some '/'.toUInt8) (hend : handler.path.getLast? = some '/'.toUInt8)
    (huri : request.uri.NoNul) (hpercent : '%'.toUInt8 ∉ request.uri) (hdots : NoDots request.uri)
    (hcomponents : components request.uri = components (Bytes.cStr handler.path) ++ rest)
    (hbegins : handler.path <+: decodePlus request.uri)
    (hallowed : handler.authPath = []
      ∨ checkCookie verifyCookie ((request.headers.find? (Bytes.lit "Cookie")).getD []) = true)
    : handler.OpensBelowRoot (handler.handleRequest files verifyCookie request)
        (fileNames request.uri rest) := by
  rcases hbegins with ⟨after, hafter⟩
  have hcheck := checkRequestPath_of_prefix hstart hpercent hdots ⟨after, hafter⟩
  rw [← hafter, List.append_assoc] at hcheck
  have hopened : (handler.handleRequest files verifyCookie request).2 = some (Bytes.cStr (handler.root
      ++ (after ++ if request.uri.getLast? = some '/'.toUInt8 then Bytes.lit "index.html" else []))) := by
    refine opened_iff.mpr ⟨hallowed, _, 0, hcheck, find_of_prefix (List.prefix_append _ _), ?_⟩
    rw [List.take_zero, List.nil_append, Nat.zero_add, List.drop_left]
  exact ⟨code_of_opened hopened, _, hopened, components_fileNames hend huri hcomponents hafter⟩

/-! ## A location that is served from the working directory -/

def servedAt (p : Bytes) : NginxConfig :=
  [⟨[Bytes.lit "location", '\x22'.toUInt8 :: (p ++ ['\x22'.toUInt8]), Bytes.lit "StaticHandler"],
    some [⟨[Bytes.lit "root", Bytes.lit "\"./\""], none⟩]⟩]

def handlerAt (p : Bytes) : StaticRequestHandler :=
  { root := Bytes.lit "./", path := p }

theorem getMap_servedAt {p : Bytes} (hend : p.getLast? = some '/'.toUInt8)
    : getMap {} (servedAt p) {}
        =
      .ok (true, { map := OrdMap.empty.insert p (some ⟨0, .static (handlerAt p)⟩) },
        { allocated := 1
          collector := DataCollector.addHandler {} p (Bytes.lit "Static Request Handler") }) := by
  rw [getMap, servedAt, getMapFrom, if_pos (.inr rfl), if_neg (by simp [invalidConfig])]
  simp only [List.getElem?_cons_succ, List.getElem?_cons_zero, utility.isQuoted_quoted,
    utility.directoryOf_eq_self hend, Outcome.ok_bind]
  rfl

theorem reachable_of_routedTo {p uri : Bytes} {handler : StaticRequestHandler} (h : RoutedTo p uri handler)
    : p = Bytes.lit "/" ∨ components (Bytes.cStr p) ≠ [] := by
  rcases h with ⟨config, startup, accepted, generator, startup1, ptr, hmap, hroute, hstatic, hpath⟩
  rcases registered_getMap hmap with ⟨allocated, hregistered⟩
  have hkey : (generator.chosen uri).getD (Bytes.lit "/") = p := by
    rcases hregistered.entry _ _ (find?_of_dispatchHandler hroute) with ⟨ptr', hptr, -, hentry⟩
    rw [← hpath, (hentry handler (Option.some.inj hptr ▸ hstatic)).1]
  cases hchosen : generator.chosen uri with
  | none =>
    rw [hchosen] at hkey
    exact .inl hkey.symm
  | some location =>
    rw [hchosen, Option.getD_some] at hkey
    right
    intro hnil
    refine (chosen_eq_some hchosen).2.1 ?_
    rw [commonPrefixLength_eq, hkey, hnil, countEqual]
    exact fun _ _ _ _ _ h => by cases h

theorem commonPrefixLength_ne_zero {p uri : Bytes} {rest : List Bytes} (huri : uri.NoNul)
    (hne : components (Bytes.cStr p) ≠ [])
    (hcomponents : components uri = components (Bytes.cStr p) ++ rest) : commonPrefixLength uri p ≠ 0 := by
  rw [commonPrefixLength_eq, Bytes.cStr_of_noNul huri, hcomponents]
  cases hp : components (Bytes.cStr p) with
  | nil => exact absurd hp hne
  | cons x xs =>
    rw [List.cons_append, countEqual, if_pos rfl]
    exact Nat.succ_ne_zero _

theorem dispatchHandler_only {p uri : Bytes} {ptr : HandlerPtr} {rest : List Bytes} (huri : uri.NoNul)
    (hreachable : p = Bytes.lit "/" ∨ components (Bytes.cStr p) ≠ [])
    (hcomponents : components uri = components (Bytes.cStr p) ++ rest)
    : (dispatchHandler { map := OrdMap.empty.insert p (some ptr) } uri).1 = some ptr := by
  have hkey : ∀ q, q ∈ (OrdMap.empty.insert p (some ptr)).keys ↔ q = p := by
    intro q
    rw [OrdMap.mem_keys_insert]
    simp [OrdMap.mem_keys_iff]
  have hchosen : (chosen { map := OrdMap.empty.insert p (some ptr) } uri).getD (Bytes.lit "/") = p := by
    cases hchosen : chosen { map := OrdMap.empty.insert p (some ptr) } uri with
    | some q => exact (hkey q).mp (chosen_eq_some hchosen).1
    | none =>
      have hzero := chosen_eq_none_iff.mp hchosen p ((hkey p).mpr rfl)
      rcases hreachable with rfl | hne
      . rfl
      . exact absurd hzero (commonPrefixLength_ne_zero huri hne hcomponents)
  rw [dispatchHandler_fst, hchosen, OrdMap.find?_insert, if_pos rfl]
  rfl

theorem routedTo_handlerAt {p uri : Bytes} {rest : List Bytes} (hend : p.getLast? = some '/'.toUInt8)
    (huri : uri.NoNul) (hreachable : p = Bytes.lit "/" ∨ components (Bytes.cStr p) ≠ [])
    (hcomponents : components uri = components (Bytes.cStr p) ++ rest) : RoutedTo p uri (handlerAt p) :=
  ⟨servedAt p, {}, true, _, _, ⟨0, .static (handlerAt p)⟩, getMap_servedAt hend,
    dispatchHandler_only huri hreachable hcomponents, rfl, rfl⟩

theorem eq_or_eq_of_checkRequestPath {uri requestPath : Bytes} (hpercent : '%'.toUInt8 ∉ uri)
    (h : checkRequestPath uri = some requestPath)
    : requestPath = decodePlus uri ∨ requestPath = decodePlus uri ++ Bytes.lit "index.html" := by
  simp only [checkRequestPath, urlDecode_eq hpercent, Option.bind_eq_bind, Option.bind_some] at h
  split_ifs at h with hrefused hdirectory
  . exact .inr (Option.some.inj h).symm
  . exact .inl (Option.some.inj h).symm

theorem prefix_of_prefix_append {p s t : Bytes} (hend : p.getLast? = some '/'.toUInt8)
    (ht : '/'.toUInt8 ∉ t) (h : p <+: s ++ t) : p <+: s := by
  rcases List.prefix_or_prefix_of_prefix h (List.prefix_append s t) with hp | ⟨rest, rfl⟩
  . exact hp
  . rw [List.prefix_append_right_inj] at h
    cases rest with
    | nil => rw [List.append_nil]
    | cons c rest =>
      rw [List.getLast?_append, List.getLast?_cons, Option.some_or, ← List.getLast?_cons] at hend
      exact absurd (h.subset (List.mem_of_mem_getLast? hend)) ht

theorem prefix_of_opensBelowRoot {handler : StaticRequestHandler} {files : FileSystem}
    {verifyCookie : Bytes → Bool} {request : Request} {names : List Bytes} {c : UInt8} {root : Bytes}
    (hroot : handler.root = c :: root) (hnul : c ≠ 0) (hrelative : c ≠ '/'.toUInt8)
    (hend : handler.path.getLast? = some '/'.toUInt8) (hpercent : '%'.toUInt8 ∉ request.uri)
    (h : handler.OpensBelowRoot (handler.handleRequest files verifyCookie request) names)
    : handler.path <+: decodePlus request.uri := by
  rcases h.2 with ⟨suffix, hopened, -⟩
  rcases (opened_iff.mp hopened).2 with ⟨requestPath, startPos, hcheck, hfind, hpath⟩
  rcases checkRequestPath_eq_some hcheck with ⟨hslash, -⟩
  have hfront : startPos = 0 := by
    cases startPos with
    | zero => rfl
    | succ n =>
      cases requestPath with
      | nil => cases hslash
      | cons d requestPath =>
        rw [List.head?_cons, Option.some.injEq] at hslash
        have hslashNul : '/'.toUInt8 ≠ 0 := by decide
        have hhead := congrArg List.head? hpath
        rw [hroot, hslash] at hhead
        simp only [Bytes.cStr, List.cons_append, List.take_succ_cons, List.takeWhile_cons, hnul, hslashNul,
          ne_eq, not_false_eq_true, decide_true, if_true, List.head?_cons, Option.some.injEq] at hhead
        exact absurd hhead hrelative
  rcases Bytes.find_eq_some hfind with ⟨after, hafter⟩
  have hbegins : handler.path <+: requestPath := by
    rw [hfront, List.take_zero, List.nil_append] at hafter
    exact ⟨after, hafter.symm⟩
  rcases eq_or_eq_of_checkRequestPath hpercent hcheck with rfl | rfl
  . exact hbegins
  . exact prefix_of_prefix_append hend (by decide) hbegins

/--
A uri below the location of a handler for files is translated to the root and the components behind those of
the location exactly if the location begins the uri literally.
-/
theorem translates_iff {p uri : Bytes} {rest : List Bytes} (hstart : p.head? = some '/'.toUInt8)
    (hend : p.getLast? = some '/'.toUInt8) (huri : uri.NoNul) (hpercent : '%'.toUInt8 ∉ uri)
    (hdots : NoDots uri) (hcomponents : components uri = components (Bytes.cStr p) ++ rest)
    (hrouted : ∃ handler, RoutedTo p uri handler)
    : Translates p uri rest ↔ p <+: decodePlus uri := by
  constructor
  . intro h
    rcases hrouted with ⟨handler, hrouted⟩
    have hopens := h (handlerAt p)
      (routedTo_handlerAt hend huri (reachable_of_routedTo hrouted) hcomponents) (fun _ => none)
      (fun _ => false) { uri } rfl (.inl rfl)
    exact prefix_of_opensBelowRoot rfl (by decide) (by decide) hend hpercent hopens
  . rintro hbegins handler ⟨-, -, -, -, -, -, -, -, -, rfl⟩ files verifyCookie request rfl hallowed
    exact opensBelowRoot_of_prefix hstart hend huri hpercent hdots hcomponents hbegins hallowed

theorem translates_static_x
    : Translates (Bytes.lit "/static/") (Bytes.lit "/static/x") [Bytes.lit "x"] := by
  have hrouted : RoutedTo (Bytes.lit "/static/") (Bytes.lit "/static/x") (staticAt "/static/" "./data/") := by
    rcases @getMap_registeredBy (serveFrom "/static/" "./data/") (by decide +kernel) with ⟨accepted, hmap⟩
    exact ⟨_, _, _, _, _, ⟨0, .static (staticAt "/static/" "./data/")⟩, hmap, by decide +kernel, rfl, rfl⟩
  refine (translates_iff (by decide) (by decide) (by decide +kernel) (by decide) ?_ (by decide +kernel)
    ⟨_, hrouted⟩).mpr (by decide +kernel)
  rw [noDots_iff_not_contains]
  decide +kernel

/--
`/static` is dispatched to the handler for `/static/`, and answered with a server error.
-/
theorem translates_without_slash
    : components (Bytes.lit "/static") = components (Bytes.cStr (Bytes.lit "/static/")) ++ []
        ∧ (getMap {} (serveFrom "/static/" "./data/") {}).Returns
        ∧ ((registeredBy (serveFrom "/static/" "./data/")).1.dispatchHandler (Bytes.lit "/static")).1
            = some ⟨0, .static (staticAt "/static/" "./data/")⟩
        ∧ ((staticAt "/static/" "./data/").handleRequest (fun _ => none) (fun _ => false)
            { uri := Bytes.lit "/static" }).1.code = .internalServerError
        ∧ ¬Translates (Bytes.lit "/static/") (Bytes.lit "/static") [] := by
  refine ⟨by decide +kernel, by decide +kernel, by decide +kernel, by decide +kernel, ?_⟩
  intro h
  rcases @getMap_registeredBy (serveFrom "/static/" "./data/") (by decide +kernel) with ⟨accepted, hmap⟩
  have hrouted : RoutedTo (Bytes.lit "/static/") (Bytes.lit "/static") (staticAt "/static/" "./data/") :=
    ⟨_, _, _, _, _, ⟨0, .static (staticAt "/static/" "./data/")⟩, hmap, by decide +kernel, rfl, rfl⟩
  exact (h _ hrouted (fun _ => none) (fun _ => false) { uri := Bytes.lit "/static" } rfl (.inl rfl)).1
    (by decide +kernel)

end StaticRequestHandler

end Foxy
