import FoxyServer.Library.OrdMap

/-!
This module contains tables that count pairs: for every first component a table of its own, with the number
of times that each second component has been seen with it.
-/

abbrev Tally (κ : Type u) (κ' : Type v) [LinearOrder κ] [LinearOrder κ'] :=
  OrdMap κ (OrdMap κ' Int)

namespace Tally

variable {κ : Type u} {κ' : Type v} [LinearOrder κ] [LinearOrder κ']

def entry (table : Tally κ κ') (k : κ) (k' : κ') : Option Int :=
  (table.find? k).bind (·.find? k')

def increment (table : Tally κ κ') (k : κ) (k' : κ') : Tally κ κ' :=
  let counters := (table.find? k).getD .empty
  table.set k (counters.set k' ((counters.find? k').getD 0 + 1))

theorem entry_increment (table : Tally κ κ') (k k1 : κ) (k' k1' : κ')
    : (table.increment k k').entry k1 k1'
        =
      if k = k1 ∧ k' = k1' then some ((table.entry k k').getD 0 + 1) else table.entry k1 k1' := by
  have hcounters : ∀ k', ((table.find? k).getD .empty).find? k' = table.entry k k' := by
    intro k'
    rw [entry]
    cases table.find? k with
    | none => rfl
    | some counters => rfl
  rw [entry, increment, OrdMap.find?_set]
  by_cases hk : k = k1
  . subst hk
    rw [if_pos rfl, Option.bind_some, OrdMap.find?_set, hcounters, hcounters]
    simp only [true_and]
  . rw [if_neg hk, if_neg (fun h => hk h.1)]
    rfl

structure Counts (table : Tally κ κ') (pairs : List (κ × κ')) : Prop where
  entry : ∀ k k', table.entry k k'
    = if (k, k') ∈ pairs then some (pairs.count (k, k') : Int) else none
  nonempty : ∀ k counters, table.find? k = some counters → counters.isEmpty = false

theorem counts_empty : Counts (.empty : Tally κ κ') [] where
  entry := fun _ _ => by simp [Tally.entry]
  nonempty := fun _ _ h => by cases h

theorem Counts.increment {table : Tally κ κ'} {pairs : List (κ × κ')} (h : table.Counts pairs) (k : κ)
    (k' : κ') : (table.increment k k').Counts (pairs ++ [(k, k')]) where
  entry := by
    intro k1 k1'
    have hone : (if (k, k') ∈ pairs then some (pairs.count (k, k') : Int) else none).getD 0
        = pairs.count (k, k') := by
      split_ifs with hmem
      . rfl
      . simp [List.count_eq_zero.mpr hmem]
    rw [entry_increment, h.entry, h.entry, hone]
    by_cases heq : k = k1 ∧ k' = k1'
    . rcases heq with ⟨rfl, rfl⟩
      rw [if_pos ⟨rfl, rfl⟩, if_pos (List.mem_append_right _ List.mem_cons_self), List.count_append,
        List.count_singleton_self]
      rfl
    . have hne : (k, k') ≠ (k1, k1') := fun h => heq ⟨congrArg Prod.fst h, congrArg Prod.snd h⟩
      have hmem : (k1, k1') ∈ pairs ++ [(k, k')] ↔ (k1, k1') ∈ pairs := by
        simp [Ne.symm hne]
      have hcount : (pairs ++ [(k, k')]).count (k1, k1') = pairs.count (k1, k1') := by
        rw [List.count_append, List.count_singleton, if_neg (by simpa using hne), Nat.add_zero]
      rw [if_neg heq, hcount]
      simp only [hmem]
  nonempty := by
    intro k1 counters hfind
    rw [Tally.increment, OrdMap.find?_set] at hfind
    split_ifs at hfind
    . rw [← Option.some.inj hfind]
      exact OrdMap.isEmpty_alter ..
    . exact h.nonempty k1 counters hfind

theorem ext_entry {table table' : Tally κ κ'}
    (h : ∀ k counters, table.find? k = some counters → counters.isEmpty = false)
    (h' : ∀ k counters, table'.find? k = some counters → counters.isEmpty = false)
    (hentry : ∀ k k', table.entry k k' = table'.entry k k') : table = table' := by
  have hrow : ∀ {t t' : Tally κ κ'}, (∀ k k', t.entry k k' = t'.entry k k') →
      ∀ {k counters}, t.find? k = some counters → counters.isEmpty = false → t'.find? k ≠ none := by
    intro t t' hentry k counters hfind hnonempty hnone
    cases hentries : counters.entries with
    | nil => simp [OrdMap.isEmpty, hentries] at hnonempty
    | cons e entries =>
      rcases e with ⟨k', n⟩
      have hcounter : counters.find? k' = some n := by
        rw [OrdMap.find?_eq_some_iff, hentries]
        exact List.mem_cons_self
      have h := hentry k k'
      rw [entry, entry, hfind, hnone, Option.bind_some, hcounter] at h
      cases h
  apply OrdMap.ext_find?
  intro k
  cases hfind : table.find? k with
  | none =>
    cases hfind' : table'.find? k with
    | none => rfl
    | some counters' =>
      exact absurd hfind (hrow (fun k k' => (hentry k k').symm) hfind' (h' k counters' hfind'))
  | some counters =>
    cases hfind' : table'.find? k with
    | none => exact absurd hfind' (hrow hentry hfind (h k counters hfind))
    | some counters' =>
      rw [Option.some.injEq]
      apply OrdMap.ext_find?
      intro k'
      have h := hentry k k'
      rwa [entry, entry, hfind, hfind', Option.bind_some, Option.bind_some] at h

theorem Counts.eq_of_perm {table table' : Tally κ κ'} {pairs pairs' : List (κ × κ')}
    (h : table.Counts pairs) (h' : table'.Counts pairs') (hperm : pairs.Perm pairs') : table = table' := by
  apply ext_entry h.nonempty h'.nonempty
  intro k k'
  rw [h.entry, h'.entry, hperm.count_eq]
  simp only [hperm.mem_iff]

end Tally
