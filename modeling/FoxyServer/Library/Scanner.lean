import Mathlib.Computability.Language

/-!
This module contains scanners: machines that read their input one element at a time until they reach
a verdict. A family of languages, one for each state, describes a scanner if every step takes the
language of a state to its derivative. For such a scanner the three verdicts are determined by the
language of the start state alone.
-/

open Computability

inductive Verdict where
  | good
  | bad
  | more
  deriving DecidableEq, Repr

structure Scanner (σ : Type u) (α : Type v) where
  step : σ → α → Verdict × σ

namespace Scanner

variable {σ : Type u} {α : Type v}

/--
Read elements until the verdict is good or bad, or the input ends. Returns the verdict, the part of
the input that was not read and the state reached.
-/
def scan (m : Scanner σ α) (s : σ) : List α → Verdict × List α × σ
  | [] => (.more, [], s)
  | a :: l =>
    match m.step s a with
    | (.more, s') => m.scan s' l
    | (v, s') => (v, l, s')

theorem scan_rest_suffix (m : Scanner σ α) (s : σ) (l : List α) : (m.scan s l).2.1 <:+ l := by
  induction l generalizing s with
  | nil => simp [scan]
  | cons a l ih =>
    rw [scan]
    split
    . exact (ih _).trans (List.suffix_cons a l)
    . exact List.suffix_cons a l

theorem scan_append_of_more {m : Scanner σ α} {s s' : σ} {l r : List α}
    (h : m.scan s l = (.more, r, s')) (l' : List α) : m.scan s (l ++ l') = m.scan s' l' := by
  induction l generalizing s with
  | nil =>
    simp only [scan, Prod.mk.injEq, true_and] at h
    simp [h.2]
  | cons a l ih =>
    rw [scan] at h
    rw [List.cons_append, scan]
    rcases hstep : m.step s a with ⟨v, s1⟩
    rw [hstep] at h
    cases v with
    | more => exact ih h
    | good => simp at h
    | bad => simp at h

theorem scan_append_of_verdict {m : Scanner σ α} {s s' : σ} {l r : List α} {v : Verdict}
    (h : m.scan s l = (v, r, s')) (hv : v ≠ .more) (l' : List α)
    : m.scan s (l ++ l') = (v, r ++ l', s') := by
  induction l generalizing s with
  | nil =>
    simp only [scan, Prod.mk.injEq] at h
    exact absurd h.1.symm hv
  | cons a l ih =>
    rw [scan] at h
    rw [List.cons_append, scan]
    rcases hstep : m.step s a with ⟨v1, s1⟩
    rw [hstep] at h
    cases v1 with
    | more => exact ih h
    | good =>
      simp only [Prod.mk.injEq] at h ⊢
      simp [← h.1, ← h.2.1, ← h.2.2]
    | bad =>
      simp only [Prod.mk.injEq] at h ⊢
      simp [← h.1, ← h.2.1, ← h.2.2]

/--
`L s` is what the scanner still has to read in state `s` to reach a good verdict, for every state that
satisfies the invariant `I`.
-/
structure Recognises (m : Scanner σ α) (I : σ → Prop) (L : σ → Language α) : Prop where
  invariant : ∀ {s a s'}, I s → m.step s a = (.more, s') → I s'
  nil : ∀ {s}, I s → [] ∉ L s
  more : ∀ {s a s' w}, I s → m.step s a = (.more, s') → (a :: w ∈ L s ↔ w ∈ L s')
  good : ∀ {s a s' w}, I s → m.step s a = (.good, s') → (a :: w ∈ L s ↔ w = [])
  bad : ∀ {s a s' w}, I s → m.step s a = (.bad, s') → a :: w ∉ L s
  viable : ∀ {s}, I s → ∃ w, w ∈ L s

namespace Recognises

variable {m : Scanner σ α} {I : σ → Prop} {L : σ → Language α}

theorem scan_good_iff (h : m.Recognises I L) {s : σ} (hs : I s) {l r : List α}
    : (∃ s', m.scan s l = (.good, r, s')) ↔ ∃ w ∈ L s, l = w ++ r := by
  induction l generalizing s with
  | nil =>
    constructor
    . rintro ⟨s', heq⟩
      simp [scan] at heq
    . rintro ⟨w, hw, heq⟩
      rcases List.append_eq_nil_iff.mp heq.symm with ⟨rfl, -⟩
      exact absurd hw (h.nil hs)
  | cons a l ih =>
    -- the first element of a word is `a`, so a word of `L s` is `a` and a word of the derivative
    have hcons : (∃ w ∈ L s, a :: l = w ++ r) ↔ ∃ w, a :: w ∈ L s ∧ l = w ++ r := by
      constructor
      . rintro ⟨w, hw, heq⟩
        cases w with
        | nil => exact absurd hw (h.nil hs)
        | cons b w =>
          simp only [List.cons_append, List.cons.injEq] at heq
          exact ⟨w, heq.1 ▸ hw, heq.2⟩
      . rintro ⟨w, hw, rfl⟩
        exact ⟨a :: w, hw, rfl⟩
    rw [hcons, scan]
    rcases hstep : m.step s a with ⟨v, s'⟩
    cases v with
    | more =>
      simp only [h.more hs hstep]
      exact ih (h.invariant hs hstep)
    | good => simp [h.good hs hstep]
    | bad => simp [h.bad hs hstep]

theorem scan_more_iff (h : m.Recognises I L) {s : σ} (hs : I s) {l : List α}
    : (m.scan s l).1 = .more ↔ ∃ w, w ≠ [] ∧ l ++ w ∈ L s := by
  induction l generalizing s with
  | nil =>
    simp only [scan, true_iff, List.nil_append]
    rcases h.viable hs with ⟨w, hw⟩
    refine ⟨w, ?_, hw⟩
    rintro rfl
    exact h.nil hs hw
  | cons a l ih =>
    rw [scan]
    rcases hstep : m.step s a with ⟨v, s'⟩
    cases v with
    | more =>
      simp only [List.cons_append, h.more hs hstep]
      exact ih (h.invariant hs hstep)
    | good =>
      simp only [List.cons_append, h.good hs hstep]
      simp
    | bad =>
      simp only [List.cons_append, h.bad hs hstep]
      simp

theorem scan_bad (h : m.Recognises I L) {s s' : σ} (hs : I s) {l r : List α}
    (hscan : m.scan s l = (.bad, r, s'))
    : ∃ n ≤ l.length, r = l.drop n ∧ (∀ w, l.take n ++ w ∉ L s)
        ∧ ∀ k < n, ∃ w, l.take k ++ w ∈ L s := by
  induction l generalizing s with
  | nil => simp [scan] at hscan
  | cons a l ih =>
    rw [scan] at hscan
    rcases hstep : m.step s a with ⟨v, s1⟩
    rw [hstep] at hscan
    cases v with
    | more =>
      rcases ih (h.invariant hs hstep) hscan with ⟨n, hn, hr, hdead, hlive⟩
      refine ⟨n + 1, by simpa using hn, by simpa using hr, ?_, ?_⟩
      . intro w hw
        exact hdead w ((h.more hs hstep).mp hw)
      . intro k hk
        cases k with
        | zero => exact h.viable hs
        | succ k =>
          rcases hlive k (by omega) with ⟨w, hw⟩
          exact ⟨w, (h.more hs hstep).mpr hw⟩
    | good => simp at hscan
    | bad =>
      simp only [Prod.mk.injEq, true_and] at hscan
      refine ⟨1, by simp, by simp [hscan.1], ?_, ?_⟩
      . intro w hw
        exact h.bad hs hstep hw
      . intro k hk
        have : k = 0 := by omega
        subst this
        exact h.viable hs

end Recognises

/-! ## Languages read element by element -/

def cls (p : α → Prop) : Language α :=
  {w | ∃ a, p a ∧ w = [a]}

def word (w : List α) : Language α :=
  {v | v = w}

theorem mem_word {v w : List α} : v ∈ word w ↔ v = w := Iff.rfl

section Membership

variable {p : α → Prop} {K K' : Language α} {a : α} {w : List α}

theorem cons_mem_cls_mul : a :: w ∈ cls p * K ↔ p a ∧ w ∈ K := by
  rw [Language.mem_mul]
  constructor
  . rintro ⟨u, ⟨b, hb, rfl⟩, v, hv, heq⟩
    simp only [List.cons_append, List.nil_append, List.cons.injEq] at heq
    rcases heq with ⟨rfl, rfl⟩
    exact ⟨hb, hv⟩
  . rintro ⟨ha, hw⟩
    exact ⟨[a], ⟨a, ha, rfl⟩, w, hw, rfl⟩

theorem nil_notMem_cls_mul : [] ∉ cls p * K := by
  rw [Language.mem_mul]
  rintro ⟨u, ⟨b, hb, rfl⟩, v, hv, heq⟩
  simp at heq

theorem mem_star_mul_iff : w ∈ (cls p)∗ * K ↔ w ∈ K ∨ w ∈ cls p * ((cls p)∗ * K) := by
  conv_lhs => rw [← Language.one_add_self_mul_kstar_eq_kstar, add_mul, one_mul, mul_assoc]
  exact Language.mem_add ..

theorem cons_mem_star_mul
    : a :: w ∈ (cls p)∗ * K ↔ a :: w ∈ K ∨ (p a ∧ w ∈ (cls p)∗ * K) := by
  rw [mem_star_mul_iff, cons_mem_cls_mul]

theorem nil_mem_star_mul : [] ∈ (cls p)∗ * K ↔ [] ∈ K := by
  rw [mem_star_mul_iff]
  simp [nil_notMem_cls_mul]

theorem mem_star_mul_of_mem (h : w ∈ K) : w ∈ (cls p)∗ * K :=
  mem_star_mul_iff.mpr (.inl h)

theorem mem_star_cls : w ∈ (cls p)∗ ↔ ∀ a ∈ w, p a := by
  rw [← mul_one (cls p)∗]
  induction w with
  | nil => exact iff_of_true (nil_mem_star_mul.mpr Language.nil_mem_one) (by simp)
  | cons a w ih =>
    rw [cons_mem_star_mul, ih, Language.mem_one]
    simp

theorem mem_cls_mul_star : w ∈ cls p * (cls p)∗ ↔ w ≠ [] ∧ ∀ a ∈ w, p a := by
  cases w with
  | nil => simp [nil_notMem_cls_mul]
  | cons a w =>
    rw [cons_mem_cls_mul, mem_star_cls]
    simp

theorem word_cons (a : α) (w : List α) : word (a :: w) = cls (· = a) * word w := by
  ext v
  cases v with
  | nil =>
    rw [mem_word]
    simp [nil_notMem_cls_mul]
  | cons b v =>
    rw [cons_mem_cls_mul, mem_word, mem_word]
    simp

theorem word_nil : word ([] : List α) = 1 := by
  ext v
  rw [mem_word, Language.mem_one]

end Membership

end Scanner
