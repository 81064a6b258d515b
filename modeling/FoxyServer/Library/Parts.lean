import Mathlib.Data.List.Infix
import Mathlib.Data.List.TakeWhile

/-!
This module contains lists that are read as their nonempty parts between separators, and what becomes of the
parts when such a list is cut in two or its elements are replaced.
-/

namespace Parts

variable {α : Type u} {sep : α → Bool}

def parts (sep : α → Bool) (s : List α) : List (List α) :=
  (s.splitOnP sep).filter (· ≠ [])

theorem parts_nil : parts sep [] = [] := by
  simp [parts]

theorem parts_of_no_sep {s : List α} (hne : s ≠ []) (h : ∀ c ∈ s, sep c = false) : parts sep s = [s] := by
  rw [parts, List.splitOnP_eq_singleton h]
  simpa using hne

theorem parts_append_sep {c : α} (hc : sep c) (a b : List α)
    : parts sep (a ++ c :: b) = parts sep a ++ parts sep b := by
  rw [parts, List.splitOnP_append_cons a b hc, List.filter_append, parts, parts]

theorem parts_cons_sep {c : α} (hc : sep c) (s : List α) : parts sep (c :: s) = parts sep s := by
  simpa [parts_nil] using parts_append_sep hc [] s

/-! ## Cutting in two -/

def CleanCut (sep : α → Bool) (a b : List α) : Prop :=
  (∀ c ∈ a.getLast?, sep c) ∨ ∀ c ∈ b.head?, sep c

instance (a b : List α) : Decidable (CleanCut sep a b) := inferInstanceAs (Decidable (_ ∨ _))

theorem parts_append_of_cleanCut {a b : List α} (h : CleanCut sep a b)
    : parts sep (a ++ b) = parts sep a ++ parts sep b := by
  rcases h with ha | hb
  . cases a using List.reverseRecOn with
    | nil => rw [List.nil_append, parts_nil, List.nil_append]
    | append_singleton a c =>
      have hc : sep c := ha c (by simp)
      rw [List.append_assoc, List.singleton_append, parts_append_sep hc, parts_append_sep hc, parts_nil,
        List.append_nil]
  . cases b with
    | nil => rw [List.append_nil, parts_nil, List.append_nil]
    | cons c b =>
      have hc : sep c := hb c (by simp)
      rw [parts_append_sep hc, parts_cons_sep hc]

theorem exists_first_part (sep : α → Bool) (b : List α)
    : ∃ y rest, b = y ++ rest ∧ (∀ c ∈ y, sep c = false) ∧ ∀ c ∈ rest.head?, sep c := by
  refine ⟨b.takeWhile (fun c => !sep c), b.dropWhile (fun c => !sep c), List.takeWhile_append_dropWhile.symm,
    ?_, ?_⟩
  . intro c hc
    simpa using List.mem_takeWhile_imp hc
  . intro c hc
    have hne : b.dropWhile (fun c => !sep c) ≠ [] := by
      rintro heq
      rw [heq] at hc
      cases hc
    have hhead := List.head_dropWhile_not (fun c => !sep c) hne
    rw [List.head?_eq_some_head hne, Option.mem_some_iff] at hc
    rw [hc] at hhead
    simpa using hhead

theorem exists_last_part (sep : α → Bool) (a : List α)
    : ∃ front x, a = front ++ x ∧ (∀ c ∈ x, sep c = false) ∧ ∀ c ∈ front.getLast?, sep c := by
  rcases exists_first_part sep a.reverse with ⟨y, rest, heq, hy, hrest⟩
  refine ⟨rest.reverse, y.reverse, ?_, ?_, ?_⟩
  . rw [← List.reverse_append, ← heq, List.reverse_reverse]
  . intro c hc
    exact hy c (List.mem_reverse.mp hc)
  . rwa [List.getLast?_reverse]

theorem parts_eq_nil {s : List α} (h : parts sep s = []) : ∀ c ∈ s, sep c := by
  induction s with
  | nil => simp
  | cons c s ih =>
    rcases exists_first_part sep (c :: s) with ⟨y, rest, heq, hy, hrest⟩
    cases y with
    | cons d y =>
      rw [heq, parts_append_of_cleanCut (.inr hrest), parts_of_no_sep (List.cons_ne_nil d y) hy] at h
      cases h
    | nil =>
      rw [List.nil_append] at heq
      have hc : sep c := hrest c (by simp [← heq])
      rw [parts_cons_sep hc] at h
      exact List.forall_mem_cons.mpr ⟨hc, ih h⟩

theorem parts_append_ne {a b : List α} (h : ¬CleanCut sep a b) (xs : List (List α))
    : parts sep (a ++ b) ≠ xs ++ parts sep b := by
  rcases exists_last_part sep a with ⟨front, x, rfl, hx, hfront⟩
  rcases exists_first_part sep b with ⟨y, rest, rfl, hy, hrest⟩
  have hxne : x ≠ [] := by
    rintro rfl
    exact h (.inl (by simpa using hfront))
  have hyne : y ≠ [] := by
    rintro rfl
    exact h (.inr (by simpa using hrest))
  have hmiddle : parts sep (x ++ y) = [x ++ y] := by
    apply parts_of_no_sep (by simp [hxne])
    simpa only [List.mem_append, or_imp, forall_and] using ⟨hx, hy⟩
  have hwhole : parts sep (front ++ x ++ (y ++ rest)) = (parts sep front ++ [x ++ y]) ++ parts sep rest := by
    rw [show front ++ x ++ (y ++ rest) = front ++ (x ++ y) ++ rest by simp only [List.append_assoc],
      parts_append_of_cleanCut (.inr hrest), parts_append_of_cleanCut (.inl hfront), hmiddle]
  have hbehind : parts sep (y ++ rest) = [y] ++ parts sep rest := by
    rw [parts_append_of_cleanCut (.inr hrest), parts_of_no_sep hyne hy]
  rw [hwhole, hbehind, ← List.append_assoc]
  intro heq
  have hlast := (List.append_inj' (List.append_cancel_right heq) rfl).2
  simp only [List.cons.injEq, and_true] at hlast
  exact hxne (List.append_left_eq_self.mp hlast)

theorem parts_append_iff {a b : List α} {xs : List (List α)}
    : parts sep (a ++ b) = xs ++ parts sep b ↔ CleanCut sep a b ∧ parts sep a = xs := by
  by_cases h : CleanCut sep a b
  . rw [parts_append_of_cleanCut h, List.append_left_inj, and_iff_right h]
  . exact iff_of_false (parts_append_ne h xs) (fun hcut => h hcut.1)

/-! ## Replacing the elements -/

theorem splitOnP_map {β : Type v} (f : α → β) (sep : β → Bool) (s : List α)
    : (s.map f).splitOnP sep = (s.splitOnP (sep ∘ f)).map (List.map f) := by
  induction s with
  | nil => simp
  | cons c s ih =>
    rw [List.map_cons, List.splitOnP_cons_eq_if_modifyHead, List.splitOnP_cons_eq_if_modifyHead, ih]
    cases hc : sep (f c) with
    | true => simp [hc]
    | false =>
      cases hsplit : s.splitOnP (sep ∘ f) with
      | nil => exact absurd hsplit (List.splitOnP_ne_nil _ s)
      | cons part rest => simp [hc]

theorem parts_map {f : α → α} (hf : ∀ c, sep (f c) = sep c) (s : List α)
    : parts sep (s.map f) = (parts sep s).map (List.map f) := by
  have hsep : sep ∘ f = sep := by
    funext c
    exact hf c
  rw [parts, splitOnP_map, hsep, List.filter_map, parts]
  congr 2
  funext part
  simp

end Parts
