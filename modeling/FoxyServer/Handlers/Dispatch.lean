import FoxyServer.Handlers.Registration
import FoxyServer.Library.Champion
import Mathlib.Data.Prod.Lex

/-!
This module contains the ranking by which the dispatcher chooses a location, and when its choice is the
longest location that the uri lies under.
-/

namespace Foxy

namespace RequestHandlerGenerator

/-! ## Components -/

def components (path : Bytes) : List Bytes :=
  (path.splitOnP (· = '/'.toUInt8)).filter (· ≠ [])

theorem cutFrom_eq (x s : Bytes)
    : cutFrom x s = (s.splitOnPPrepend (· = '/'.toUInt8) x.reverse).filter (· ≠ []) := by
  induction s generalizing x with
  | nil =>
    rw [cutFrom, List.splitOnPPrepend, List.reverse_reverse]
    split <;> simp_all
  | cons c s ih =>
    rw [cutFrom, List.splitOnPPrepend]
    by_cases hc : c = '/'.toUInt8
    . by_cases hx : x = [] <;> simp [hc, hx, ih]
    . simp [show c ≠ 47 from hc, ih]

theorem cutFrom_nil_eq (s : Bytes) : cutFrom [] s = components s := by
  rw [cutFrom_eq]
  rfl

/-- The score of a location is the number of positions at which both paths have the same component. -/
theorem commonPrefixLength_eq (a b : Bytes)
    : commonPrefixLength a b = countEqual (components (Bytes.cStr a)) (components (Bytes.cStr b)) := by
  rw [commonPrefixLength, cutFrom_nil_eq, cutFrom_nil_eq]

/-! ## The choice of the dispatcher -/

def rank (uri location : Bytes) : Nat ×ₗ Natᵒᵈ :=
  toLex (commonPrefixLength uri location, OrderDual.toDual location.length)

theorem rank_lt_iff {uri p q : Bytes}
    : rank uri q < rank uri p
        ↔
      commonPrefixLength uri q < commonPrefixLength uri p
        ∨ commonPrefixLength uri q = commonPrefixLength uri p ∧ p.length < q.length := by
  rw [rank, rank, Prod.Lex.toLex_lt_toLex]
  rfl

/-- `p` is chosen before `q`: on equal rank the least string is. -/
def Outranks (uri p q : Bytes) : Prop :=
  rank uri q < rank uri p ∨ rank uri q = rank uri p ∧ p < q

theorem not_outranks_of_outranks {uri p q : Bytes} (h : Outranks uri p q) : ¬Outranks uri q p := by
  rintro (hlt | ⟨heq, hlt⟩)
  . rcases h with h | ⟨h, -⟩
    . exact h.asymm hlt
    . exact hlt.ne h.symm
  . rcases h with h | ⟨-, h⟩
    . exact h.ne heq.symm
    . exact h.asymm hlt

theorem Outranks.le {uri p q : Bytes} (h : Outranks uri p q)
    : commonPrefixLength uri q ≤ commonPrefixLength uri p := by
  rcases h with h | ⟨h, -⟩
  . rcases rank_lt_iff.mp h with h | ⟨h, -⟩ <;> omega
  . rw [rank, rank, toLex_inj, Prod.mk.injEq] at h
    exact h.1.le

instance (uri p q : Bytes) : Decidable (Outranks uri p q) := inferInstanceAs (Decidable (_ ∨ _))

def longestOf (uri : Bytes) : Option Bytes → Nat × Bytes
  | none => (0, [])
  | some location => (commonPrefixLength uri location, location)

theorem scanLocation_eq {uri : Bytes} {kept : Option Bytes}
    (hkept : ∀ location ∈ kept, commonPrefixLength uri location ≠ 0) (path : Bytes)
    : scanLocation uri (longestOf uri kept) path
        =
      longestOf uri (if commonPrefixLength uri path = 0 then kept
        else Champion.keep (rank uri) kept path) := by
  by_cases hzero : commonPrefixLength uri path = 0
  . simp [scanLocation, hzero]
  . rw [if_neg hzero, scanLocation, if_neg hzero]
    cases kept with
    | none =>
      have hpos : 0 < commonPrefixLength uri path := Nat.pos_of_ne_zero hzero
      simp [longestOf, Champion.keep, hpos]
    | some location =>
      simp only [longestOf, Champion.keep, rank_lt_iff]
      by_cases hlt : commonPrefixLength uri location < commonPrefixLength uri path
      . simp [hlt]
      . by_cases heq : commonPrefixLength uri location = commonPrefixLength uri path
        . by_cases hlength : path.length < location.length <;> simp [heq, hlength]
        . simp [hlt, heq]

def chosen (generator : RequestHandlerGenerator) (uri : Bytes) : Option Bytes :=
  Champion.champion? (rank uri)
    (generator.map.keys.filter (fun location => commonPrefixLength uri location ≠ 0))

theorem foldl_scanLocation (uri : Bytes) (locations : List Bytes)
    : locations.foldl (scanLocation uri) (0, [])
        =
      longestOf uri (Champion.champion? (rank uri)
        (locations.filter (fun location => commonPrefixLength uri location ≠ 0))) := by
  induction locations using List.reverseRecOn with
  | nil => rfl
  | append_singleton locations path ih =>
    rw [List.foldl_append, List.foldl_cons, List.foldl_nil, ih, scanLocation_eq, List.filter_append]
    . by_cases hzero : commonPrefixLength uri path = 0
      . simp [hzero]
      . simp [hzero, Champion.champion?_concat]
    . intro location hlocation
      simpa using (List.mem_filter.mp (Champion.champion?_mem hlocation)).2

theorem dispatchHandler_eq (generator : RequestHandlerGenerator) (uri : Bytes)
    : generator.dispatchHandler uri
        =
      (((generator.map.find? ((generator.chosen uri).getD (Bytes.lit "/"))).getD none),
        { generator with map := generator.map.insert ((generator.chosen uri).getD (Bytes.lit "/")) none }) := by
  simp only [dispatchHandler, foldl_scanLocation, OrdMap.index]
  rw [← chosen]
  cases hchosen : generator.chosen uri with
  | none => rfl
  | some location =>
    have hne := (List.mem_filter.mp (Champion.champion?_mem hchosen)).2
    simp only [decide_eq_true_eq] at hne
    simp [longestOf, hne]
    exact ⟨rfl, rfl⟩

theorem dispatchHandler_fst (generator : RequestHandlerGenerator) (uri : Bytes)
    : (generator.dispatchHandler uri).1
        =
      (generator.map.find? ((generator.chosen uri).getD (Bytes.lit "/"))).getD none := by
  rw [dispatchHandler_eq]

theorem find?_of_dispatchHandler {generator : RequestHandlerGenerator} {uri : Bytes} {ptr : HandlerPtr}
    (h : (generator.dispatchHandler uri).1 = some ptr)
    : generator.map.find? ((generator.chosen uri).getD (Bytes.lit "/")) = some (some ptr) := by
  rw [dispatchHandler_fst] at h
  cases hfind : generator.map.find? ((generator.chosen uri).getD (Bytes.lit "/")) with
  | none =>
    rw [hfind] at h
    cases h
  | some value =>
    rw [hfind, Option.getD_some] at h
    rw [h]

theorem chosen_eq_some {generator : RequestHandlerGenerator} {uri location : Bytes}
    (h : generator.chosen uri = some location)
    : location ∈ generator.map.keys ∧ commonPrefixLength uri location ≠ 0
        ∧ ∀ other ∈ generator.map.keys, commonPrefixLength uri other ≠ 0 → other ≠ location →
            Outranks uri location other := by
  rcases Champion.champion?_eq_some (generator.map.keys_sorted.filter _) h with ⟨hmem, hbest⟩
  rcases List.mem_filter.mp hmem with ⟨hmem, hne⟩
  refine ⟨hmem, by simpa using hne, ?_⟩
  intro other hother hshares hdistinct
  exact hbest other (List.mem_filter.mpr ⟨hother, by simpa using hshares⟩) hdistinct

theorem chosen_eq_none_iff {generator : RequestHandlerGenerator} {uri : Bytes}
    : generator.chosen uri = none
        ↔
      ∀ location ∈ generator.map.keys, commonPrefixLength uri location = 0 := by
  rw [chosen, Champion.champion?_eq_none_iff, List.filter_eq_nil_iff]
  simp

/-! ## The longest location that is a prefix -/

def LongestPrefix (generator : RequestHandlerGenerator) (uri location : Bytes) : Prop :=
  location ∈ generator.map.keys ∧ components location <+: components uri
    ∧ ∀ other ∈ generator.map.keys, components other <+: components uri →
        (components other).length ≤ (components location).length

instance (generator : RequestHandlerGenerator) (uri location : Bytes)
    : Decidable (generator.LongestPrefix uri location) := inferInstanceAs (Decidable (_ ∧ _))

/--
The handler of the longest location that is a prefix of the uri, and of the root if no other location is
a prefix of it.
-/
def RoutesToLongestPrefix (generator : RequestHandlerGenerator) (uri : Bytes)
    (result : Option HandlerPtr) : Prop :=
  ∃ location handler, generator.map.find? location = some (some handler) ∧ result = some handler
    ∧ generator.LongestPrefix uri location
    ∧ ((∀ other ∈ generator.map.keys, other ≠ Bytes.lit "/" →
          ¬components other <+: components uri) →
        location = Bytes.lit "/")

theorem routes_iff_longestPrefix {generator : RequestHandlerGenerator} {allocated : Nat}
    (h : Registered generator allocated) (uri location : Bytes)
    : generator.RoutesToLongestPrefix uri ((generator.map.find? location).getD none)
        ↔
      generator.LongestPrefix uri location := by
  constructor
  . rintro ⟨location', handler, hfind', hresult, hlongest, -⟩
    cases hfind : generator.map.find? location with
    | none =>
      rw [hfind] at hresult
      cases hresult
    | some value =>
      rw [hfind, Option.getD_some] at hresult
      rw [hresult] at hfind
      rwa [h.distinct location location' _ hfind hfind']
  . intro hlongest
    rcases OrdMap.mem_keys_iff.mp hlongest.1 with ⟨value, hfind⟩
    rcases h.entry location value hfind with ⟨handler, rfl, -⟩
    refine ⟨location, handler, hfind, by rw [hfind, Option.getD_some], hlongest, ?_⟩
    intro hnone
    by_contra hne
    exact hnone location hlongest.1 hne hlongest.2.1

/--
The dispatcher routes to the longest prefix exactly when every location that shares a component with the
uri, but is not a longest prefix of it, is outranked by one that is, and the root is a longest prefix if no
location shares a component with the uri.
-/
theorem dispatch_longest_iff {config : NginxConfig} {startup startup' : Startup} {accepted : Bool}
    {generator : RequestHandlerGenerator}
    (hmap : getMap {} config startup = .ok (accepted, generator, startup')) (uri : Bytes)
    : generator.RoutesToLongestPrefix uri (generator.dispatchHandler uri).1
        ↔
      (∀ other ∈ generator.map.keys, commonPrefixLength uri other ≠ 0 →
          ¬generator.LongestPrefix uri other →
          ∃ location, generator.LongestPrefix uri location ∧ Outranks uri location other)
        ∧ ((∀ other ∈ generator.map.keys, commonPrefixLength uri other = 0) →
            generator.LongestPrefix uri (Bytes.lit "/")) := by
  rcases registered_getMap hmap with ⟨allocated, hregistered⟩
  rw [dispatchHandler_fst, routes_iff_longestPrefix hregistered]
  cases hchosen : generator.chosen uri with
  | none =>
    have hzero := chosen_eq_none_iff.mp hchosen
    rw [Option.getD_none]
    constructor
    . intro hroot
      exact ⟨fun other hother hshares => absurd (hzero other hother) hshares, fun _ => hroot⟩
    . rintro ⟨-, hroot⟩
      exact hroot hzero
  | some location =>
    rcases chosen_eq_some hchosen with ⟨hmem, hne, hbest⟩
    rw [Option.getD_some]
    constructor
    . intro hlongest
      refine ⟨?_, fun hzero => absurd (hzero location hmem) hne⟩
      intro other hother hshares hnot
      refine ⟨location, hlongest, hbest other hother hshares ?_⟩
      rintro rfl
      exact hnot hlongest
    . rintro ⟨houtranked, -⟩
      by_contra hnot
      -- the location that is chosen outranks all others, so none outranks it
      rcases houtranked location hmem hne hnot with ⟨other, hlongest, houtranks⟩
      by_cases heq : other = location
      . exact hnot (heq ▸ hlongest)
      . have hle := houtranks.le
        exact not_outranks_of_outranks houtranks (hbest other hlongest.1 (by omega) heq)

def echoAt (paths : List String) : NginxConfig :=
  paths.map (fun path =>
    ⟨[Bytes.lit "location", Bytes.lit ("\"" ++ path ++ "\""), Bytes.lit "EchoHandler"], some []⟩)

def registeredBy (config : NginxConfig) : RequestHandlerGenerator × Startup :=
  match getMap {} config {} with
  | .ok (_, generator, startup) => (generator, startup)
  | _ => ({}, {})

theorem getMap_registeredBy {config : NginxConfig} (h : (getMap {} config {}).Returns)
    : ∃ accepted,
        getMap {} config {} = .ok (accepted, (registeredBy config).1, (registeredBy config).2) := by
  rcases h with ⟨⟨accepted, generator, startup⟩, h⟩
  refine ⟨accepted, ?_⟩
  rw [registeredBy, h]

theorem dispatch_longest_static
    : (registeredBy (echoAt ["/", "/static/", "/static/html/"])).1.RoutesToLongestPrefix
        (Bytes.lit "/static/html/fake.html")
        ((registeredBy (echoAt ["/", "/static/", "/static/html/"])).1.dispatchHandler
          (Bytes.lit "/static/html/fake.html")).1 := by
  rcases @getMap_registeredBy (echoAt ["/", "/static/", "/static/html/"]) (by decide +kernel)
    with ⟨accepted, hmap⟩
  have houtranks : ∀ other ∈ (registeredBy (echoAt ["/", "/static/", "/static/html/"])).1.map.keys,
      commonPrefixLength (Bytes.lit "/static/html/fake.html") other ≠ 0 →
        other = Bytes.lit "/static/html/"
          ∨ Outranks (Bytes.lit "/static/html/fake.html") (Bytes.lit "/static/html/") other := by
    decide +kernel
  have hlongest : (registeredBy (echoAt ["/", "/static/", "/static/html/"])).1.LongestPrefix
      (Bytes.lit "/static/html/fake.html") (Bytes.lit "/static/html/") := by
    decide +kernel
  apply (dispatch_longest_iff hmap _).mpr
  refine ⟨?_, by decide +kernel⟩
  intro other hother hshares hnot
  rcases houtranks other hother hshares with rfl | houtranks
  . exact absurd hlongest hnot
  . exact ⟨_, hlongest, houtranks⟩

/--
`/a/b/` agrees with `/x/b` in its second component, and gets the request that belongs to the root.
-/
theorem dispatch_partial_match
    : (getMap {} (echoAt ["/", "/a/b/"]) {}).Returns
        ∧ ¬(registeredBy (echoAt ["/", "/a/b/"])).1.RoutesToLongestPrefix (Bytes.lit "/x/b")
            ((registeredBy (echoAt ["/", "/a/b/"])).1.dispatchHandler (Bytes.lit "/x/b")).1 := by
  refine ⟨by decide +kernel, ?_⟩
  rintro ⟨location, handler, hfind, hresult, hlongest, -⟩
  have hchosen : some handler = some ⟨1, .echo⟩ := hresult.symm.trans (by decide +kernel)
  have hentries : ∀ entry ∈ (registeredBy (echoAt ["/", "/a/b/"])).1.map.entries,
      entry.2 = some ⟨1, .echo⟩ → entry.1 = Bytes.lit "/a/b/" := by
    decide +kernel
  rw [hchosen] at hfind
  have hlocation := hentries _ (OrdMap.find?_eq_some_iff.mp hfind) rfl
  simp only at hlocation
  subst hlocation
  revert hlongest
  decide +kernel

end RequestHandlerGenerator

end Foxy
