import FoxyServer.Handlers.Locations
import FoxyServer.Handlers.Static
import FoxyServer.Library.Parts

/-!
This module contains which uris are dispatched alike, by the locations that are registered and whatever
locations there are: the dispatcher cuts the uri as it stands, while the handler that serves files decodes it
first.
-/

namespace Foxy

namespace RequestHandlerGenerator

/-! ## Components -/

structure IsComponent (x : Bytes) : Prop where
  ne_nil : x ≠ []
  slash : '/'.toUInt8 ∉ x
  noNul : x.NoNul

theorem isComponent_of_mem {x s : Bytes} (hx : '/'.toUInt8 ∉ x) (hxNul : x.NoNul) (hs : s.NoNul)
    : ∀ y ∈ cutFrom x s, IsComponent y := by
  induction s generalizing x with
  | nil =>
    rw [cutFrom]
    split
    . next hne => simpa using ⟨hne, hx, hxNul⟩
    . simp
  | cons c s ih =>
    have hc := hs c List.mem_cons_self
    have hs := fun b hb => hs b (List.mem_cons_of_mem _ hb)
    rw [cutFrom]
    split
    . next hslash =>
      have hrest := ih (x := []) (by simp) (by simp [Bytes.NoNul]) hs
      split
      . next hne => exact List.forall_mem_cons.mpr ⟨⟨hne, hx, hxNul⟩, hrest⟩
      . exact hrest
    . next hslash =>
      apply ih _ _ hs
      . simpa using ⟨hx, fun h => hslash h.symm⟩
      . exact Bytes.noNul_append.mpr ⟨hxNul, by simpa [Bytes.NoNul] using hc⟩

theorem isComponent_components (s : Bytes) : ∀ x ∈ components (Bytes.cStr s), IsComponent x := by
  rw [← cutFrom_nil_eq]
  exact isComponent_of_mem (by simp) (by simp [Bytes.NoNul]) (Bytes.noNul_cStr s)

def locationPath (xs : List Bytes) : Bytes :=
  '/'.toUInt8 :: xs.flatMap (· ++ Bytes.lit "/")

theorem components_eq_parts (s : Bytes) : components s = Parts.parts (· = '/'.toUInt8) s := rfl

theorem components_slash (s : Bytes) : components ('/'.toUInt8 :: s) = components s := by
  rw [components_eq_parts, Parts.parts_cons_sep (by simp), components_eq_parts]

theorem components_append {x : Bytes} (hx : IsComponent x) (s : Bytes)
    : components (x ++ '/'.toUInt8 :: s) = x :: components s := by
  have hpart : Parts.parts (· = '/'.toUInt8) x = [x] := by
    apply Parts.parts_of_no_sep hx.ne_nil
    intro b hb
    apply decide_eq_false
    rintro rfl
    exact hx.slash hb
  rw [components_eq_parts, Parts.parts_append_sep (by simp), hpart, components_eq_parts]
  rfl

theorem components_locationPath {xs : List Bytes} (hxs : ∀ x ∈ xs, IsComponent x)
    : components (Bytes.cStr (locationPath xs)) = xs := by
  have hnoNul : (locationPath xs).NoNul := by
    rw [locationPath, Bytes.NoNul, List.forall_mem_cons]
    refine ⟨by decide, ?_⟩
    intro b hb
    rcases List.mem_flatMap.mp hb with ⟨x, hx, hb⟩
    rcases List.mem_append.mp hb with hb | hb
    . exact (hxs x hx).noNul b hb
    . rw [List.mem_singleton.mp hb]
      decide
  rw [Bytes.cStr_of_noNul hnoNul, locationPath, components_slash]
  clear hnoNul
  induction xs with
  | nil => rfl
  | cons x xs ih =>
    rw [List.forall_mem_cons] at hxs
    have hcons : (x :: xs).flatMap (· ++ Bytes.lit "/") = x ++ '/'.toUInt8 :: xs.flatMap (· ++ Bytes.lit "/") := by
      rw [List.flatMap_cons, List.append_assoc]
      rfl
    rw [hcons, components_append hxs.1, ih hxs.2]

theorem countEqual_self (xs : List Bytes) : countEqual xs xs = xs.length := by
  induction xs with
  | nil => rfl
  | cons x xs ih => rw [countEqual, if_pos rfl, ih, List.length_cons]

theorem countEqual_le (xs ys : List Bytes) : countEqual xs ys ≤ xs.length := by
  induction xs generalizing ys with
  | nil => cases ys <;> exact Nat.zero_le _
  | cons x xs ih =>
    cases ys with
    | nil => exact Nat.zero_le _
    | cons y ys =>
      have hle := ih ys
      rw [countEqual, List.length_cons]
      split <;> omega

theorem prefix_of_countEqual {xs ys : List Bytes} (h : xs.length ≤ countEqual xs ys) : xs <+: ys := by
  induction xs generalizing ys with
  | nil => exact List.nil_prefix
  | cons x xs ih =>
    cases ys with
    | nil => simp [countEqual] at h
    | cons y ys =>
      have hle := countEqual_le xs ys
      rw [countEqual, List.length_cons] at h
      split at h
      next heq =>
        rw [heq, List.cons_prefix_cons]
        exact ⟨rfl, ih (by omega)⟩
      next => omega

/-! ## The choice among the registered locations -/

/-- The location shares no component with the uri, or another that does comes before it. -/
def Outranked (generator : RequestHandlerGenerator) (uri location : Bytes) : Prop :=
  commonPrefixLength uri location = 0
    ∨ ∃ other ∈ generator.map.keys, commonPrefixLength uri other ≠ 0 ∧ Outranks uri other location

instance (generator : RequestHandlerGenerator) (uri location : Bytes)
    : Decidable (generator.Outranked uri location) := inferInstanceAs (Decidable (_ ∨ _))

/-- Every location shares as many components with the one uri as with the other, or is outranked alike. -/
def RanksAlike (generator : RequestHandlerGenerator) (u v : Bytes) : Prop :=
  ∀ location ∈ generator.map.keys,
    commonPrefixLength u location = commonPrefixLength v location
      ∨ (generator.Outranked u location ↔ generator.Outranked v location)

instance (generator : RequestHandlerGenerator) (u v : Bytes) : Decidable (generator.RanksAlike u v) :=
  inferInstanceAs (Decidable (∀ _ ∈ _, _))

theorem chosen_eq_some_iff {generator : RequestHandlerGenerator} {uri location : Bytes}
    : generator.chosen uri = some location
        ↔
      location ∈ generator.map.keys ∧ ¬generator.Outranked uri location := by
  constructor
  . intro h
    rcases chosen_eq_some h with ⟨hmem, hshares, hbest⟩
    refine ⟨hmem, ?_⟩
    rintro (hzero | ⟨other, hother, hshares', houtranks⟩)
    . exact hshares hzero
    . by_cases heq : other = location
      . subst heq
        exact not_outranks_of_outranks houtranks houtranks
      . exact not_outranks_of_outranks houtranks (hbest other hother hshares' heq)
  . rintro ⟨hmem, hnot⟩
    cases hchosen : generator.chosen uri with
    | none => exact absurd (.inl (chosen_eq_none_iff.mp hchosen location hmem)) hnot
    | some best =>
      rcases chosen_eq_some hchosen with ⟨hbest, hshares, hfirst⟩
      by_contra hne
      have hlocation : commonPrefixLength uri location ≠ 0 := fun hzero => hnot (.inl hzero)
      exact hnot (.inr ⟨best, hbest, hshares, hfirst location hmem hlocation (fun h => hne (by rw [h]))⟩)

theorem outranks_congr {u v p q : Bytes} (hp : commonPrefixLength u p = commonPrefixLength v p)
    (hq : commonPrefixLength u q = commonPrefixLength v q) : Outranks u p q ↔ Outranks v p q := by
  simp only [Outranks, rank, hp, hq]

theorem outranked_of_chosen {generator : RequestHandlerGenerator} {uri best location : Bytes}
    (h : generator.chosen uri = some best) (hmem : location ∈ generator.map.keys) (hne : location ≠ best)
    : generator.Outranked uri location := by
  by_contra hnot
  exact hne (Option.some.inj ((chosen_eq_some_iff.mpr ⟨hmem, hnot⟩).symm.trans h))

theorem chosen_of_ranksAlike {generator : RequestHandlerGenerator} {u v location : Bytes}
    (h : generator.RanksAlike u v) (hu : generator.chosen u = some location)
    : generator.chosen v = some location := by
  rcases chosen_eq_some_iff.mp hu with ⟨hmem, hfirst⟩
  by_contra hne
  have hbeaten : generator.Outranked v location := by
    by_contra hnot
    exact hne (chosen_eq_some_iff.mpr ⟨hmem, hnot⟩)
  have hequal : commonPrefixLength u location = commonPrefixLength v location := by
    rcases h location hmem with heq | hiff
    . exact heq
    . exact absurd (hiff.mpr hbeaten) hfirst
  rcases chosen_eq_some hu with ⟨-, hshares, hbest⟩
  rcases hbeaten with hzero | ⟨other, hother, hshares', houtranks⟩
  . exact hshares (hequal.trans hzero)
  . -- the winner for the other uri keeps its score, and so would beat the location for this one too
    rcases hv : generator.chosen v with _ | best
    . exact hshares' (chosen_eq_none_iff.mp hv other hother)
    . have hdistinct : best ≠ location := by
        rintro rfl
        exact hne hv
      rcases chosen_eq_some hv with ⟨hmem', hshares'', hbest'⟩
      have hequal' : commonPrefixLength u best = commonPrefixLength v best := by
        rcases h best hmem' with heq | hiff
        . exact heq
        . exact absurd (hiff.mp (outranked_of_chosen hu hmem' hdistinct)) (chosen_eq_some_iff.mp hv).2
      have hu' := hbest best hmem' (hequal' ▸ hshares'') hdistinct
      have hv' := hbest' location hmem (hequal ▸ hshares) hdistinct.symm
      exact not_outranks_of_outranks ((outranks_congr hequal hequal').mp hu') hv'

theorem ranksAlike_comm {generator : RequestHandlerGenerator} {u v : Bytes} (h : generator.RanksAlike u v)
    : generator.RanksAlike v u := by
  intro location hmem
  rcases h location hmem with heq | hiff
  . exact .inl heq.symm
  . exact .inr hiff.symm

theorem chosen_eq_iff {generator : RequestHandlerGenerator} {u v : Bytes}
    : generator.chosen u = generator.chosen v ↔ generator.RanksAlike u v := by
  constructor
  . intro h location hmem
    rcases hu : generator.chosen u with _ | best
    . left
      rw [chosen_eq_none_iff.mp hu location hmem, chosen_eq_none_iff.mp (h ▸ hu) location hmem]
    . right
      have hv : generator.chosen v = some best := h ▸ hu
      by_cases heq : location = best
      . subst heq
        exact iff_of_false (chosen_eq_some_iff.mp hu).2 (chosen_eq_some_iff.mp hv).2
      . exact iff_of_true (outranked_of_chosen hu hmem heq) (outranked_of_chosen hv hmem heq)
  . intro h
    rcases hu : generator.chosen u with _ | location
    . rcases hv : generator.chosen v with _ | location
      . rfl
      . rw [chosen_of_ranksAlike (ranksAlike_comm h) hv] at hu
        cases hu
    . rw [chosen_of_ranksAlike h hu]

theorem chosen_ne_root {generator : RequestHandlerGenerator} {uri : Bytes}
    : generator.chosen uri ≠ some (Bytes.lit "/") := by
  intro h
  apply (chosen_eq_some h).2.1
  rw [commonPrefixLength_eq, show components (Bytes.cStr (Bytes.lit "/")) = [] by decide]
  cases components (Bytes.cStr uri) <;> rfl

theorem chosen_of_dispatchHandler_none {generator : RequestHandlerGenerator} {allocated : Nat}
    (h : generator.Registered allocated) {uri : Bytes} (hnull : (generator.dispatchHandler uri).1 = none)
    : generator.chosen uri = none := by
  cases hchosen : generator.chosen uri with
  | none => rfl
  | some location =>
    rw [dispatchHandler_eq_none_iff h, hchosen] at hnull
    exact absurd (chosen_eq_some hchosen).1 hnull

theorem dispatchHandler_eq_iff {generator : RequestHandlerGenerator} {allocated : Nat}
    (h : generator.Registered allocated) {u v : Bytes}
    : (generator.dispatchHandler u).1 = (generator.dispatchHandler v).1
        ↔
      generator.chosen u = generator.chosen v := by
  constructor
  . intro heq
    cases hu : (generator.dispatchHandler u).1 with
    | none =>
      rw [chosen_of_dispatchHandler_none h hu, chosen_of_dispatchHandler_none h (heq ▸ hu)]
    | some ptr =>
      have hlocation := h.distinct _ _ _ (find?_of_dispatchHandler hu) (find?_of_dispatchHandler (heq ▸ hu))
      have hrootless := @chosen_ne_root generator
      rcases hchosen : generator.chosen u with _ | location <;>
        rcases hchosen' : generator.chosen v with _ | location'
      . rfl
      . rw [hchosen, hchosen'] at hlocation
        exact absurd (hchosen'.trans (congrArg some hlocation.symm)) hrootless
      . rw [hchosen, hchosen'] at hlocation
        exact absurd (hchosen.trans (congrArg some hlocation)) hrootless
      . rw [hchosen, hchosen'] at hlocation
        exact congrArg some hlocation
  . intro heq
    rw [dispatchHandler_fst, dispatchHandler_fst, heq]

/-! ## Locations that are the uri itself -/

theorem length_locationPath_lt {xs zs : List Bytes} (h : zs ≠ [])
    : (locationPath xs).length < (locationPath (xs ++ zs)).length := by
  rcases List.exists_cons_of_ne_nil h with ⟨z, zs, rfl⟩
  simp [locationPath, Bytes.lit]
  omega

theorem commonPrefixLength_locationPath (uri : Bytes) {ys : List Bytes} (hys : ∀ y ∈ ys, IsComponent y)
    : commonPrefixLength uri (locationPath ys) = countEqual (components (Bytes.cStr uri)) ys := by
  rw [commonPrefixLength_eq, components_locationPath hys]

theorem chosen_locationPath {generator : RequestHandlerGenerator} {uri : Bytes}
    (hkeys : ∀ location ∈ generator.map.keys, ∃ ys, (∀ y ∈ ys, IsComponent y) ∧ location = locationPath ys)
    (hmem : locationPath (components (Bytes.cStr uri)) ∈ generator.map.keys)
    : (generator.chosen uri).getD (Bytes.lit "/") = locationPath (components (Bytes.cStr uri)) := by
  set xs := components (Bytes.cStr uri) with hxs
  have hself : commonPrefixLength uri (locationPath xs) = xs.length := by
    rw [commonPrefixLength_locationPath uri (isComponent_components uri), ← hxs, countEqual_self]
  cases hchosen : generator.chosen uri with
  | none =>
    have hzero := chosen_eq_none_iff.mp hchosen _ hmem
    rw [hself, List.length_eq_zero_iff] at hzero
    rw [hzero]
    rfl
  | some location =>
    rcases chosen_eq_some hchosen with ⟨hlocation, hshares, hbest⟩
    rcases hkeys location hlocation with ⟨ys, hys, rfl⟩
    by_contra hne
    rw [Option.getD_some] at hne
    have hle : commonPrefixLength uri (locationPath ys) ≤ xs.length := by
      rw [commonPrefixLength_locationPath uri hys]
      exact countEqual_le xs ys
    have houtranks := hbest _ hmem (by omega) (Ne.symm hne)
    have hge := hself ▸ houtranks.le
    rcases prefix_of_countEqual (commonPrefixLength_locationPath uri hys ▸ hge) with ⟨zs, rfl⟩
    have hzs : zs ≠ [] := by
      rintro rfl
      exact hne (by rw [List.append_nil])
    exact not_outranks_of_outranks houtranks
      (.inl (rank_lt_iff.mpr (.inr ⟨by omega, length_locationPath_lt hzs⟩)))

theorem find?_locationPath {generator : RequestHandlerGenerator} {uri : Bytes}
    (hkeys : ∀ location ∈ generator.map.keys, ∃ ys, (∀ y ∈ ys, IsComponent y) ∧ location = locationPath ys)
    (hmem : locationPath (components (Bytes.cStr uri)) ∈ generator.map.keys)
    : generator.map.find? (locationPath (components (Bytes.cStr uri)))
        =
      some (generator.dispatchHandler uri).1 := by
  rcases OrdMap.mem_keys_iff.mp hmem with ⟨value, hfind⟩
  rw [dispatchHandler_fst, chosen_locationPath hkeys hmem, hfind, Option.getD_some]

/-! ## A handler for each of the locations -/

def echoLocation (path : Bytes) : NginxConfigStatement :=
  ⟨[Bytes.lit "location", Bytes.lit "\"" ++ path ++ Bytes.lit "\"", Bytes.lit "EchoHandler"], some []⟩

theorem isQuoted_of_getLast? {path : Bytes} (h : path.getLast? = some '/'.toUInt8)
    : utility.isQuoted (Bytes.lit "\"" ++ path ++ Bytes.lit "\"") = .ok (true, path) := by
  show utility.isQuoted ('\x22'.toUInt8 :: (path ++ ['\x22'.toUInt8])) = _
  rw [utility.isQuoted_quoted, utility.directoryOf_eq_self h]

theorem getMapFrom_echoLocations (generator : RequestHandlerGenerator) (startup : Startup) {paths : List Bytes}
    (hpaths : ∀ path ∈ paths, path.getLast? = some '/'.toUInt8)
    : ∃ generator' startup',
        getMapFrom generator startup (paths.map echoLocation) = .ok (true, generator', startup') := by
  induction paths generalizing generator startup with
  | nil => exact ⟨generator, startup, rfl⟩
  | cons path paths ih =>
    rw [List.forall_mem_cons] at hpaths
    have hquoted := isQuoted_of_getLast? hpaths.1
    rcases ih { generator with map := generator.map.insert path (some ⟨startup.allocated, .echo⟩) }
      ⟨startup.allocated + 1, startup.collector.addHandler path (Bytes.lit "Echo Request Handler")⟩ hpaths.2
      with ⟨generator', startup', hrest⟩
    refine ⟨generator', startup', ?_⟩
    rw [List.map_cons, echoLocation, getMapFrom, if_pos (.inr rfl), if_neg (by simp [invalidConfig])]
    simp only [List.getElem?_cons_succ, List.getElem?_cons_zero, hquoted, Outcome.ok_bind]
    exact hrest

theorem registers_echoLocation {path path' : Bytes} (h : path.getLast? = some '/'.toUInt8)
    : Registers (echoLocation path) path' ↔ path' = path := by
  constructor
  . rintro ⟨-, token, htoken, hquoted⟩
    cases htoken
    rw [isQuoted_of_getLast? h] at hquoted
    cases hquoted
    rfl
  . rintro rfl
    exact ⟨.inr rfl, _, rfl, isQuoted_of_getLast? h⟩

theorem getLast?_locationPath (xs : List Bytes) : (locationPath xs).getLast? = some '/'.toUInt8 := by
  induction xs using List.reverseRecOn with
  | nil => rfl
  | append_singleton xs x =>
    rw [locationPath, List.flatMap_append, List.flatMap_singleton, ← List.append_assoc, ← List.cons_append,
      List.getLast?_append]
    rfl

/-! ## The same handler for both -/

def DecodeAlike (u v : Bytes) : Prop :=
  ∃ path, StaticRequestHandler.urlDecode u = some path ∧ StaticRequestHandler.urlDecode v = some path

def DispatchedAlike (u v : Bytes) : Prop :=
  ∀ config generator startup, getMap {} config {} = .ok (true, generator, startup) →
    (generator.dispatchHandler u).1 = (generator.dispatchHandler v).1

theorem ranksAlike_of_components (generator : RequestHandlerGenerator) {u v : Bytes}
    (h : components (Bytes.cStr u) = components (Bytes.cStr v)) : generator.RanksAlike u v := by
  intro location _
  left
  rw [commonPrefixLength_eq, commonPrefixLength_eq, h]

theorem dispatchedAlike_iff {u v : Bytes}
    : DispatchedAlike u v ↔ components (Bytes.cStr u) = components (Bytes.cStr v) := by
  constructor
  . intro h
    set xs := components (Bytes.cStr u)
    set ys := components (Bytes.cStr v)
    have hpaths : ∀ path ∈ [locationPath xs, locationPath ys], path.getLast? = some '/'.toUInt8 := by
      simp [getLast?_locationPath]
    rcases getMapFrom_echoLocations {} {} hpaths with ⟨generator, startup, hmap⟩
    have hkeys : ∀ location, location ∈ generator.map.keys
        ↔
      location = locationPath xs ∨ location = locationPath ys := by
      intro location
      rw [mem_keys_getMap hmap]
      simp [registers_echoLocation, getLast?_locationPath]
    have hcomponents : ∀ location ∈ generator.map.keys,
        ∃ zs, (∀ z ∈ zs, IsComponent z) ∧ location = locationPath zs := by
      intro location hlocation
      rcases (hkeys location).mp hlocation with rfl | rfl
      . exact ⟨xs, isComponent_components u, rfl⟩
      . exact ⟨ys, isComponent_components v, rfl⟩
    have hu := @find?_locationPath generator u hcomponents ((hkeys _).mpr (.inl rfl))
    have hv := @find?_locationPath generator v hcomponents ((hkeys _).mpr (.inr rfl))
    rcases registered_getMap hmap with ⟨allocated, hregistered⟩
    rw [← h _ _ _ hmap] at hv
    have hcut := congrArg (fun location => components (Bytes.cStr location)) (hregistered.distinct _ _ _ hu hv)
    rwa [components_locationPath (isComponent_components u),
      components_locationPath (isComponent_components v)] at hcut
  . intro h config generator startup hmap
    rcases registered_getMap hmap with ⟨allocated, hregistered⟩
    exact (dispatchHandler_eq_iff hregistered).mpr (chosen_eq_iff.mpr (generator.ranksAlike_of_components h))

/--
Uris that are decoded to the same path are dispatched to the same handler exactly when every registered
location shares as many components with the one as with the other, as they stand, or is outranked alike.
-/
theorem dispatch_encodings_iff {config : NginxConfig} {startup startup' : Startup} {accepted : Bool}
    {generator : RequestHandlerGenerator}
    (hmap : getMap {} config startup = .ok (accepted, generator, startup')) (u v : Bytes)
    : (DecodeAlike u v → (generator.dispatchHandler u).1 = (generator.dispatchHandler v).1)
        ↔
      (DecodeAlike u v → generator.RanksAlike u v) := by
  rcases registered_getMap hmap with ⟨allocated, hregistered⟩
  rw [dispatchHandler_eq_iff hregistered, chosen_eq_iff]

def openAndPrivate : NginxConfig :=
  [⟨[Bytes.lit "location", Bytes.lit "\"/\"", Bytes.lit "StaticHandler"],
      some [⟨[Bytes.lit "root", Bytes.lit "\"./data\""], none⟩]⟩,
    ⟨[Bytes.lit "location", Bytes.lit "\"/private\"", Bytes.lit "StaticHandler"],
      some [⟨[Bytes.lit "root", Bytes.lit "\"./data/private\""], none⟩,
        ⟨[Bytes.lit "auth", Bytes.lit "\"/login\""], none⟩]⟩]

/-- The letter that is encoded is not one of a location. -/
theorem dispatch_encoded_file
    : ((registeredBy openAndPrivate).1.dispatchHandler (Bytes.lit "/private/a.html")).1
        = ((registeredBy openAndPrivate).1.dispatchHandler (Bytes.lit "/private/%61.html")).1 := by
  rcases @getMap_registeredBy openAndPrivate (by decide +kernel) with ⟨accepted, hmap⟩
  refine (dispatch_encodings_iff hmap _ _).mpr (fun _ => ?_)
    ⟨Bytes.lit "/private/a.html", by decide +kernel, by decide +kernel⟩
  decide +kernel

/--
With a letter of the location encoded the request goes to the handler of the root, which asks for no login and
opens the file that the other one protects.
-/
theorem dispatch_encoded_private
    : DecodeAlike (Bytes.lit "/private/a.html") (Bytes.lit "/%70rivate/a.html")
        ∧ getMap {} openAndPrivate {}
            = .ok (true, (registeredBy openAndPrivate).1, (registeredBy openAndPrivate).2)
        ∧ ((registeredBy openAndPrivate).1.dispatchHandler (Bytes.lit "/private/a.html")).1
            = some ⟨1, .static ⟨Bytes.lit "./data/private/", Bytes.lit "/private/", Bytes.lit "/login/"⟩⟩
        ∧ ((registeredBy openAndPrivate).1.dispatchHandler (Bytes.lit "/%70rivate/a.html")).1
            = some ⟨0, .static ⟨Bytes.lit "./data/", Bytes.lit "/", []⟩⟩
        ∧ (StaticRequestHandler.handleRequest ⟨Bytes.lit "./data/", Bytes.lit "/", []⟩ (fun _ => none)
            (fun _ => false) { uri := Bytes.lit "/%70rivate/a.html" }).2
            = some (Bytes.lit "./data/private/a.html")
        ∧ ¬DispatchedAlike (Bytes.lit "/private/a.html") (Bytes.lit "/%70rivate/a.html") := by
  have hdecode : DecodeAlike (Bytes.lit "/private/a.html") (Bytes.lit "/%70rivate/a.html") :=
    ⟨Bytes.lit "/private/a.html", by decide +kernel, by decide +kernel⟩
  have hmap : getMap {} openAndPrivate {}
      = .ok (true, (registeredBy openAndPrivate).1, (registeredBy openAndPrivate).2) := by
    rfl
  have hprivate : ((registeredBy openAndPrivate).1.dispatchHandler (Bytes.lit "/private/a.html")).1
      = some ⟨1, .static ⟨Bytes.lit "./data/private/", Bytes.lit "/private/", Bytes.lit "/login/"⟩⟩ := by
    decide +kernel
  have hopen : ((registeredBy openAndPrivate).1.dispatchHandler (Bytes.lit "/%70rivate/a.html")).1
      = some ⟨0, .static ⟨Bytes.lit "./data/", Bytes.lit "/", []⟩⟩ := by
    decide +kernel
  refine ⟨hdecode, hmap, hprivate, hopen, by decide +kernel, ?_⟩
  intro h
  have heq := h _ _ _ hmap
  rw [hprivate, hopen] at heq
  revert heq
  decide

end RequestHandlerGenerator

end Foxy
