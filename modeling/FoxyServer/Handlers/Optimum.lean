import FoxyServer.Handlers.Locations

/-!
This module contains the proof that the dispatcher chooses an optimum of its own ranking, and that its choice
does not depend on the order in which the locations were registered.
-/

namespace Foxy

namespace RequestHandlerGenerator

def longestPath (generator : RequestHandlerGenerator) (uri : Bytes) : Bytes :=
  (generator.map.keys.foldl (scanLocation uri) (0, [])).2

def NoWorse (uri p q : Bytes) : Prop :=
  commonPrefixLength uri q < commonPrefixLength uri p
    ∨ commonPrefixLength uri q = commonPrefixLength uri p
      ∧ (p.length < q.length ∨ p.length = q.length ∧ p ≤ q)

theorem noWorse_of_outranks {uri p q : Bytes} (h : Outranks uri p q) : NoWorse uri p q := by
  rcases h with h | ⟨h, hlt⟩
  . rcases rank_lt_iff.mp h with h | ⟨heq, hlength⟩
    . exact .inl h
    . exact .inr ⟨heq, .inl hlength⟩
  . rw [rank, rank, toLex_inj, Prod.mk.injEq, OrderDual.toDual_inj] at h
    exact .inr ⟨h.1, .inr ⟨h.2.symm, hlt.le⟩⟩

theorem longestPath_eq (generator : RequestHandlerGenerator) (uri : Bytes)
    : generator.longestPath uri = (generator.chosen uri).getD [] := by
  rw [longestPath, foldl_scanLocation, ← chosen]
  cases generator.chosen uri <;> rfl

theorem noWorse_of_chosen {generator : RequestHandlerGenerator} {uri p : Bytes}
    (h : generator.chosen uri = some p) : ∀ q ∈ generator.map.keys, NoWorse uri p q := by
  rcases chosen_eq_some h with ⟨-, hne, hbest⟩
  intro q hq
  by_cases heq : q = p
  . exact .inr ⟨by rw [heq], .inr ⟨by rw [heq], by rw [heq]⟩⟩
  by_cases hzero : commonPrefixLength uri q = 0
  . left
    omega
  . exact noWorse_of_outranks (hbest q hq hzero heq)

/-! ## The order of the location statements -/

theorem longestPath_of_perm {config config' : NginxConfig} (hperm : config.Perm config')
    {startup startup' startup1 startup1' : Startup} {generator generator' : RequestHandlerGenerator}
    (hmap : getMap {} config startup = .ok (true, generator, startup1))
    (hmap' : getMap {} config' startup' = .ok (true, generator', startup1')) (uri : Bytes)
    : generator'.longestPath uri = generator.longestPath uri := by
  have hkeys : generator'.map.keys = generator.map.keys := by
    apply OrdMap.keys_eq_of_mem_iff
    intro p
    rw [mem_keys_getMap hmap', mem_keys_getMap hmap]
    simp only [hperm.mem_iff]
  rw [longestPath, longestPath, hkeys]

/--
If a location shares a component with the uri, the dispatcher returns the entry of a location that is no worse
than any other one; if none does, it returns the entry of the root. The order of the statements that registered
the locations does not matter.
-/
theorem dispatchHandler_optimum (generator : RequestHandlerGenerator) (uri : Bytes)
    : ((∃ location ∈ generator.map.keys, commonPrefixLength uri location ≠ 0) →
          generator.longestPath uri ∈ generator.map.keys
            ∧ (generator.dispatchHandler uri).1
                = (generator.map.find? (generator.longestPath uri)).getD none
            ∧ ∀ q ∈ generator.map.keys, NoWorse uri (generator.longestPath uri) q)
        ∧ ((∀ location ∈ generator.map.keys, commonPrefixLength uri location = 0) →
            (generator.dispatchHandler uri).1 = (generator.map.find? (Bytes.lit "/")).getD none)
        ∧ ∀ config config' startup startup' startup1 startup1' generator',
            config.Perm config' → getMap {} config startup = .ok (true, generator, startup1) →
            getMap {} config' startup' = .ok (true, generator', startup1') →
            generator'.longestPath uri = generator.longestPath uri := by
  rw [dispatchHandler_fst, longestPath_eq]
  refine ⟨?_, ?_, ?_⟩
  . rintro ⟨location, hmem, hne⟩
    cases hchosen : generator.chosen uri with
    | none => exact absurd (chosen_eq_none_iff.mp hchosen location hmem) hne
    | some p => exact ⟨(chosen_eq_some hchosen).1, rfl, noWorse_of_chosen hchosen⟩
  . intro hzero
    rw [chosen_eq_none_iff.mpr hzero]
    rfl
  . intro config config' startup startup' startup1 startup1' generator' hperm hmap hmap'
    rw [← longestPath_eq]
    exact longestPath_of_perm hperm hmap hmap' uri

theorem dispatchHandler_optimum_static
    : ∀ q ∈ (registeredBy (echoAt ["/static/", "/", "/static/html/"])).1.map.keys,
        NoWorse (Bytes.lit "/static/fake.html") (Bytes.lit "/static/") q := by
  have hshares : ∃ location ∈ (registeredBy (echoAt ["/static/", "/", "/static/html/"])).1.map.keys,
      commonPrefixLength (Bytes.lit "/static/fake.html") location ≠ 0 := by
    decide +kernel
  have hpath : (registeredBy (echoAt ["/static/", "/", "/static/html/"])).1.longestPath
      (Bytes.lit "/static/fake.html") = Bytes.lit "/static/" := by
    decide +kernel
  have hbest := ((dispatchHandler_optimum _ _).1 hshares).2.2
  rwa [hpath] at hbest

end RequestHandlerGenerator

end Foxy
