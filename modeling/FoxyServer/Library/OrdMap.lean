import Mathlib.Algebra.GroupWithZero.Nat
import Mathlib.Order.Defs.LinearOrder
import Mathlib.Data.List.Sort

/-!
This module contains finite maps kept as lists sorted by key, as an ordered associative container
keeps them. The sortedness is a field of the structure, so two maps are equal as soon as they agree
on every lookup.
-/

structure OrdMap (κ : Type u) (α : Type v) [LinearOrder κ] where
  entries : List (κ × α)
  sorted : entries.Pairwise (fun a b => a.1 < b.1)

namespace OrdMap

variable {κ : Type u} {α : Type v} [LinearOrder κ]

instance [DecidableEq α] : DecidableEq (OrdMap κ α) := fun m m' =>
  match m, m' with
  | ⟨l, _⟩, ⟨l', _⟩ => decidable_of_iff (l = l') (by simp)

def empty : OrdMap κ α where
  entries := []
  sorted := .nil

instance : Inhabited (OrdMap κ α) := ⟨empty⟩

def isEmpty (m : OrdMap κ α) : Bool :=
  m.entries.isEmpty

def find? (m : OrdMap κ α) (k : κ) : Option α :=
  go m.entries
where
  go : List (κ × α) → Option α
    | [] => none
    | (k', a) :: l => if k' = k then some a else go l

def alterEntries (k : κ) (f : Option α → α) : List (κ × α) → List (κ × α)
  | [] => [(k, f none)]
  | (k', a) :: l =>
    if k < k' then
      (k, f none) :: (k', a) :: l
    else if k' = k then
      (k, f (some a)) :: l
    else
      (k', a) :: alterEntries k f l

theorem mem_alterEntries {k : κ} {f : Option α → α} {l : List (κ × α)} {e : κ × α}
    (h : e ∈ alterEntries k f l) : e.1 = k ∨ e ∈ l := by
  induction l with
  | nil =>
    simp only [alterEntries, List.mem_singleton] at h
    simp [h]
  | cons hd tl ih =>
    rcases hd with ⟨k', a⟩
    rw [alterEntries] at h
    split_ifs at h
    . rcases List.mem_cons.mp h with rfl | h
      . simp
      . exact .inr h
    . rcases List.mem_cons.mp h with rfl | h
      . simp
      . exact .inr (List.mem_cons_of_mem _ h)
    . rcases List.mem_cons.mp h with rfl | h
      . simp
      . exact (ih h).imp_right (List.mem_cons_of_mem _)

theorem alterEntries_sorted (k : κ) (f : Option α → α) {l : List (κ × α)}
    (h : l.Pairwise (fun a b => a.1 < b.1))
    : (alterEntries k f l).Pairwise (fun a b => a.1 < b.1) := by
  induction l with
  | nil => simp [alterEntries]
  | cons hd tl ih =>
    rcases hd with ⟨k', a⟩
    rw [List.pairwise_cons] at h
    rw [alterEntries]
    split_ifs with h1 h2
    . rw [List.pairwise_cons, List.pairwise_cons]
      refine ⟨?_, h⟩
      intro e he
      rcases List.mem_cons.mp he with rfl | he
      . exact h1
      . exact h1.trans (h.1 e he)
    . subst h2
      rw [List.pairwise_cons]
      exact h
    . rw [List.pairwise_cons]
      refine ⟨?_, ih h.2⟩
      intro e he
      rcases mem_alterEntries he with he | he
      . rw [he]
        exact lt_of_le_of_ne (not_lt.mp h1) h2
      . exact h.1 e he

/--
Store `f (m.find? k)` under `k` and leave every other key alone. All updates are instances of it.
-/
def alter (m : OrdMap κ α) (k : κ) (f : Option α → α) : OrdMap κ α where
  entries := alterEntries k f m.entries
  sorted := alterEntries_sorted k f m.sorted

def insert (m : OrdMap κ α) (k : κ) (a : α) : OrdMap κ α :=
  m.alter k (fun old => old.getD a)

def set (m : OrdMap κ α) (k : κ) (a : α) : OrdMap κ α :=
  m.alter k (fun _ => a)

/--
Reading with `m[k]` gives the stored value; where there is none, it first stores a default one.
-/
def index [Inhabited α] (m : OrdMap κ α) (k : κ) : α × OrdMap κ α :=
  ((m.find? k).getD default, m.insert k default)

def setAll (m : OrdMap κ α) (l : List (κ × α)) : OrdMap κ α :=
  l.foldl (fun m e => m.set e.1 e.2) m

def ofList (l : List (κ × α)) : OrdMap κ α :=
  empty.setAll l

def insertAll (m : OrdMap κ α) (ks : List κ) (a : α) : OrdMap κ α :=
  ks.foldl (fun m k => m.insert k a) m

def overlay (m m' : OrdMap κ α) : OrdMap κ α :=
  m.setAll m'.entries

def filter (m : OrdMap κ α) (p : κ × α → Bool) : OrdMap κ α where
  entries := m.entries.filter p
  sorted := m.sorted.filter p

def keys (m : OrdMap κ α) : List κ :=
  m.entries.map Prod.fst

@[simp]
theorem find?_empty (k : κ) : (empty : OrdMap κ α).find? k = none := rfl

@[simp]
theorem isEmpty_empty : (empty : OrdMap κ α).isEmpty = true := rfl

@[simp]
theorem isEmpty_alter (m : OrdMap κ α) (k : κ) (f : Option α → α)
    : (m.alter k f).isEmpty = false := by
  simp only [isEmpty, alter]
  cases m.entries with
  | nil => rfl
  | cons hd tl =>
    rw [alterEntries]
    split_ifs <;> rfl

@[simp]
theorem isEmpty_insert (m : OrdMap κ α) (k : κ) (a : α) : (m.insert k a).isEmpty = false :=
  isEmpty_alter ..

theorem find?_go_eq_none_of_lt {k : κ} {l : List (κ × α)} (h : ∀ e ∈ l, k < e.1)
    : find?.go k l = none := by
  induction l with
  | nil => rfl
  | cons hd tl ih =>
    rw [find?.go, if_neg]
    . exact ih (fun e he => h e (List.mem_cons_of_mem _ he))
    . exact (h hd List.mem_cons_self).ne'

theorem find?_go_alterEntries (k k' : κ) (f : Option α → α) {l : List (κ × α)}
    (h : l.Pairwise (fun a b => a.1 < b.1))
    : find?.go k' (alterEntries k f l)
        =
      if k = k' then some (f (find?.go k l)) else find?.go k' l := by
  induction l with
  | nil => simp [alterEntries, find?.go]
  | cons hd tl ih =>
    rcases hd with ⟨k1, a⟩
    rw [List.pairwise_cons] at h
    by_cases hk : k = k'
    . subst hk
      rw [if_pos rfl, alterEntries]
      by_cases h1 : k < k1
      . have : find?.go k ((k1, a) :: tl) = none := by
          apply find?_go_eq_none_of_lt
          intro e he
          rcases List.mem_cons.mp he with rfl | he
          . exact h1
          . exact h1.trans (h.1 e he)
        rw [if_pos h1, this]
        simp [find?.go]
      . rw [if_neg h1]
        by_cases h2 : k1 = k
        . simp [find?.go, h2]
        . simp [find?.go, h2, ih h.2]
    . rw [if_neg hk, alterEntries]
      split_ifs with h1 h2
      . simp [find?.go, hk]
      . subst h2
        simp [find?.go, hk]
      . simp [find?.go, ih h.2, hk]

theorem find?_alter (m : OrdMap κ α) (k k' : κ) (f : Option α → α)
    : (m.alter k f).find? k' = if k = k' then some (f (m.find? k)) else m.find? k' :=
  find?_go_alterEntries k k' f m.sorted

theorem find?_insert (m : OrdMap κ α) (k k' : κ) (a : α)
    : (m.insert k a).find? k' = if k = k' then some ((m.find? k).getD a) else m.find? k' := by
  rw [insert, find?_alter]

theorem find?_set (m : OrdMap κ α) (k k' : κ) (a : α)
    : (m.set k a).find? k' = if k = k' then some a else m.find? k' := by
  rw [set, find?_alter]

theorem find?_go_eq_some_iff {k : κ} {a : α} {l : List (κ × α)}
    (h : l.Pairwise (fun a b => a.1 < b.1)) : find?.go k l = some a ↔ (k, a) ∈ l := by
  induction l with
  | nil => simp [find?.go]
  | cons hd tl ih =>
    rcases hd with ⟨k', a'⟩
    rw [List.pairwise_cons] at h
    rw [find?.go]
    split_ifs with hk
    . subst hk
      constructor
      . intro heq
        simp_all
      . intro hmem
        rcases List.mem_cons.mp hmem with heq | hmem
        . simp_all
        . exact absurd (h.1 _ hmem) (lt_irrefl _)
    . rw [ih h.2]
      simp [Ne.symm hk]

theorem find?_eq_some_iff {m : OrdMap κ α} {k : κ} {a : α}
    : m.find? k = some a ↔ (k, a) ∈ m.entries :=
  find?_go_eq_some_iff m.sorted

theorem mem_keys_iff {m : OrdMap κ α} {k : κ} : k ∈ m.keys ↔ ∃ a, m.find? k = some a := by
  simp [keys, find?_eq_some_iff]

theorem keys_sorted (m : OrdMap κ α) : m.keys.Pairwise (· < ·) := by
  rw [keys, List.pairwise_map]
  exact m.sorted

theorem keys_eq_of_mem_iff {β : Type w} {m : OrdMap κ α} {m' : OrdMap κ β} (h : ∀ k, k ∈ m.keys ↔ k ∈ m'.keys)
    : m.keys = m'.keys := by
  have hperm : m.keys.Perm m'.keys := by
    rw [List.perm_ext_iff_of_nodup (m.keys_sorted.imp ne_of_lt) (m'.keys_sorted.imp ne_of_lt)]
    exact h
  exact hperm.eq_of_pairwise (fun a b _ _ hab hba => absurd hab hba.asymm) m.keys_sorted m'.keys_sorted

theorem find?_filter (m : OrdMap κ α) (p : κ × α → Bool) (k : κ)
    : (m.filter p).find? k = (m.find? k).filter fun a => p (k, a) := by
  apply Option.ext
  intro a
  rw [Option.filter_eq_some_iff, find?_eq_some_iff, find?_eq_some_iff, filter, List.mem_filter]

/--
A map is its lookups.
-/
theorem ext_find? {m m' : OrdMap κ α} (h : ∀ k, m.find? k = m'.find? k) : m = m' := by
  have hperm : m.entries.Perm m'.entries := by
    have nodup (m : OrdMap κ α) : m.entries.Nodup := m.sorted.imp (fun hlt => by
      rintro rfl
      exact lt_irrefl _ hlt)
    rw [List.perm_ext_iff_of_nodup (nodup m) (nodup m')]
    rintro ⟨k, a⟩
    rw [← find?_eq_some_iff, ← find?_eq_some_iff, h]
  have hentries : m.entries = m'.entries :=
    hperm.eq_of_pairwise (fun a b _ _ hab hba => absurd hab hba.asymm) m.sorted m'.sorted
  cases m
  cases m'
  simpa using hentries

@[simp]
theorem insert_insert (m : OrdMap κ α) (k : κ) (a b : α)
    : (m.insert k a).insert k b = m.insert k a := by
  apply ext_find?
  intro k'
  simp only [find?_insert]
  split_ifs <;> simp

theorem insert_eq_self {m : OrdMap κ α} {k : κ} (h : k ∈ m.keys) (a : α) : m.insert k a = m := by
  rcases mem_keys_iff.mp h with ⟨b, hb⟩
  apply ext_find?
  intro k'
  rw [find?_insert]
  split
  next heq =>
    subst heq
    rw [hb]
    rfl
  next => rfl

theorem set_eq_self {m : OrdMap κ α} {k : κ} {a : α} (h : m.find? k = some a) : m.set k a = m := by
  apply ext_find?
  intro k'
  rw [find?_set]
  split
  next heq => rw [← heq, h]
  next => rfl

theorem mem_keys_insert {m : OrdMap κ α} {k k' : κ} {a : α}
    : k' ∈ (m.insert k a).keys ↔ k' ∈ m.keys ∨ k' = k := by
  rw [mem_keys_iff, mem_keys_iff, find?_insert]
  by_cases heq : k = k' <;> simp [heq, eq_comm]

theorem find?_insert_eq_some {m : OrdMap κ α} {k k' : κ} {a b : α} (h : (m.insert k a).find? k' = some b)
    : m.find? k' = some b ∨ k' = k ∧ b = a := by
  rw [find?_insert] at h
  split at h
  next heq =>
    subst heq
    cases hold : m.find? k with
    | none =>
      simp only [hold, Option.getD_none, Option.some.injEq] at h
      exact .inr ⟨rfl, h.symm⟩
    | some old =>
      rw [hold, Option.getD_some] at h
      exact .inl h
  next => exact .inl h

theorem insert_eq_set {m : OrdMap κ α} {k : κ} (h : m.find? k = none) (a : α)
    : m.insert k a = m.set k a := by
  apply ext_find?
  intro k'
  rw [find?_insert, find?_set, h]
  rfl

theorem alter_set (m : OrdMap κ α) (k : κ) (a : α) (f : Option α → α)
    : (m.set k a).alter k f = m.set k (f (some a)) := by
  apply ext_find?
  intro k'
  rw [find?_alter, find?_set, find?_set, find?_set, if_pos rfl]
  split_ifs <;> rfl

/-! ## Many entries at once -/

@[simp]
theorem setAll_nil (m : OrdMap κ α) : m.setAll [] = m := rfl

@[simp]
theorem setAll_cons (m : OrdMap κ α) (e : κ × α) (l : List (κ × α))
    : m.setAll (e :: l) = (m.set e.1 e.2).setAll l := rfl

theorem find?_setAll_of_notMem {k : κ} {l : List (κ × α)} (h : k ∉ l.map Prod.fst) (m : OrdMap κ α)
    : (m.setAll l).find? k = m.find? k := by
  induction l generalizing m with
  | nil => rfl
  | cons e l ih =>
    simp only [List.map_cons, List.mem_cons, not_or] at h
    rw [setAll_cons, ih h.2, find?_set, if_neg (Ne.symm h.1)]

theorem find?_setAll_of_mem {k : κ} {a : α} {l : List (κ × α)} (hnodup : (l.map Prod.fst).Nodup)
    (h : (k, a) ∈ l) (m : OrdMap κ α) : (m.setAll l).find? k = some a := by
  induction l generalizing m with
  | nil => cases h
  | cons e l ih =>
    rw [List.map_cons, List.nodup_cons] at hnodup
    rcases List.mem_cons.mp h with rfl | h
    . rw [setAll_cons, find?_setAll_of_notMem hnodup.1, find?_set, if_pos rfl]
    . exact ih hnodup.2 h (m.set e.1 e.2)

theorem nodup_keys (m : OrdMap κ α) : (m.entries.map Prod.fst).Nodup :=
  m.keys_sorted.imp ne_of_lt

theorem ofList_of_mem_iff {l : List (κ × α)} {m : OrdMap κ α} (hnodup : (l.map Prod.fst).Nodup)
    (h : ∀ e, e ∈ l ↔ e ∈ m.entries) : ofList l = m := by
  apply ext_find?
  intro k
  cases hfind : m.find? k with
  | some a => exact find?_setAll_of_mem hnodup ((h (k, a)).mpr (find?_eq_some_iff.mp hfind)) empty
  | none =>
    rw [ofList, find?_setAll_of_notMem _ empty, find?_empty]
    intro hmem
    rcases List.mem_map.mp hmem with ⟨⟨k', a⟩, hentry, rfl⟩
    rw [find?_eq_some_iff.mpr ((h (k', a)).mp hentry)] at hfind
    cases hfind

theorem ofList_entries (m : OrdMap κ α) : ofList m.entries = m :=
  ofList_of_mem_iff m.nodup_keys (fun _ => Iff.rfl)

theorem find?_overlay (m m' : OrdMap κ α) (k : κ)
    : (m.overlay m').find? k = (m'.find? k).or (m.find? k) := by
  cases hfind : m'.find? k with
  | some a => exact find?_setAll_of_mem m'.nodup_keys (find?_eq_some_iff.mp hfind) m
  | none =>
    apply find?_setAll_of_notMem
    intro hmem
    rcases mem_keys_iff.mp hmem with ⟨a, ha⟩
    rw [hfind] at ha
    cases ha

@[simp]
theorem overlay_empty (m : OrdMap κ α) : m.overlay empty = m := rfl

@[simp]
theorem empty_overlay (m : OrdMap κ α) : empty.overlay m = m :=
  ofList_entries m

theorem overlay_self (m : OrdMap κ α) : m.overlay m = m := by
  apply ext_find?
  intro k
  rw [find?_overlay, Option.or_self]

theorem overlay_set (m m' : OrdMap κ α) (k : κ) (a : α)
    : m.overlay (m'.set k a) = (m.overlay m').set k a := by
  apply ext_find?
  intro k'
  rw [find?_overlay, find?_set, find?_set, find?_overlay]
  split_ifs <;> rfl

theorem find?_insertAll (m : OrdMap κ α) (ks : List κ) (a : α) (k : κ)
    : (m.insertAll ks a).find? k = if k ∈ ks then some ((m.find? k).getD a) else m.find? k := by
  induction ks generalizing m with
  | nil => simp [insertAll]
  | cons k' ks ih =>
    rw [insertAll, List.foldl_cons, ← insertAll, ih, find?_insert]
    by_cases hk : k' = k
    . subst hk
      simp
    . simp [hk, Ne.symm hk]

theorem find?_insertAll_overlay (m m' : OrdMap κ α) (ks : List κ) (a : α) (k : κ)
    : ((m.overlay m').insertAll ks a).find? k = (m'.find? k).or ((m.insertAll ks a).find? k) := by
  rw [find?_insertAll, find?_insertAll, find?_overlay]
  cases m'.find? k with
  | none => rfl
  | some a' => split_ifs <;> rfl

theorem set_eq_set_iff {m m' : OrdMap κ α} {k : κ} {a : α}
    : m.set k a = m'.set k a ↔ ∀ k', k' ≠ k → m.find? k' = m'.find? k' := by
  constructor
  . intro h k' hk
    have hfind := congrArg (fun m => find? m k') h
    simpa only [find?_set, if_neg (Ne.symm hk)] using hfind
  . intro h
    apply ext_find?
    intro k'
    rw [find?_set, find?_set]
    split_ifs with hk
    . rfl
    . exact h k' (Ne.symm hk)

theorem alter_insert {f : Option α → α} {a : α} (hf : ∀ old : Option α, f (some (old.getD a)) = f old)
    (m : OrdMap κ α) (k k' : κ) : (m.insert k' a).alter k f = (m.alter k f).insert k' a := by
  apply ext_find?
  intro k1
  simp only [find?_insert, find?_alter]
  by_cases hk : k' = k
  . subst hk
    simp only [if_true, hf, Option.getD_some]
    split_ifs <;> rfl
  . rw [if_neg hk]
    by_cases hk1 : k' = k1
    . subst hk1
      simp [Ne.symm hk]
    . simp [hk1]

theorem alter_alter (m : OrdMap κ α) (k : κ) (f g : Option α → α)
    : (m.alter k f).alter k g = m.alter k (fun old => g (some (f old))) := by
  apply ext_find?
  intro k'
  simp only [find?_alter, if_true]
  split_ifs <;> rfl

def valuesAt (k : κ) (es : List (κ × α)) : List α :=
  (es.filter (fun e => e.1 = k)).map Prod.snd

theorem valuesAt_cons (k : κ) (e : κ × α) (es : List (κ × α))
    : valuesAt k (e :: es) = if e.1 = k then e.2 :: valuesAt k es else valuesAt k es := by
  rw [valuesAt, List.filter_cons]
  split <;> simp_all [valuesAt]

theorem valuesAt_map {β : Type w} (f : α → β) (k : κ) (es : List (κ × α))
    : valuesAt k (es.map (Prod.map id f)) = (valuesAt k es).map f := by
  induction es with
  | nil => rfl
  | cons e es ih =>
    rw [List.map_cons, valuesAt_cons, valuesAt_cons, ih, Prod.map_fst, id]
    split_ifs <;> rfl

def insertEach (m : OrdMap κ α) (es : List (κ × α)) : OrdMap κ α :=
  es.foldl (fun m e => m.insert e.1 e.2) m

theorem find?_insertEach (m : OrdMap κ α) (es : List (κ × α)) (k : κ)
    : (m.insertEach es).find? k = (m.find? k).or (valuesAt k es).head? := by
  induction es generalizing m with
  | nil => simp [insertEach, valuesAt]
  | cons e es ih =>
    rw [insertEach, List.foldl_cons, ← insertEach, ih, find?_insert, valuesAt_cons]
    by_cases hk : e.1 = k
    . rw [if_pos hk, if_pos hk, hk]
      cases m.find? k <;> rfl
    . rw [if_neg hk, if_neg hk]

theorem head?_valuesAt_entries (m : OrdMap κ α) (k : κ) : (valuesAt k m.entries).head? = m.find? k := by
  have hgo : ∀ es : List (κ × α), (valuesAt k es).head? = find?.go k es := by
    intro es
    induction es with
    | nil => rfl
    | cons e es ih =>
      rw [valuesAt_cons, find?.go]
      split_ifs
      . rfl
      . exact ih
  exact hgo m.entries

theorem insertEach_entries (m : OrdMap κ α) : empty.insertEach m.entries = m := by
  apply ext_find?
  intro k
  rw [find?_insertEach, find?_empty, Option.none_or, head?_valuesAt_entries]

theorem find?_setAll (m : OrdMap κ α) (es : List (κ × α)) (k : κ)
    : (m.setAll es).find? k = (valuesAt k es).getLast?.or (m.find? k) := by
  induction es generalizing m with
  | nil => rfl
  | cons e es ih =>
    rw [setAll_cons, ih, find?_set, valuesAt_cons]
    by_cases hk : e.1 = k
    . rw [if_pos hk, if_pos hk, List.getLast?_cons]
      cases (valuesAt k es).getLast? <;> rfl
    . rw [if_neg hk, if_neg hk]

/-! ## Maps to lists -/

section Append

variable {β : Type w}

def append (m : OrdMap κ (List β)) (k : κ) (l : List β) : OrdMap κ (List β) :=
  m.alter k (fun old => old.getD [] ++ l)

def appendAll (m : OrdMap κ (List β)) (es : List (κ × List β)) : OrdMap κ (List β) :=
  es.foldl (fun m e => m.append e.1 e.2) m

def size (m : OrdMap κ (List β)) : Nat :=
  (m.entries.map (fun e => e.2.length)).sum

@[simp]
theorem isEmpty_append (m : OrdMap κ (List β)) (k : κ) (l : List β) : (m.append k l).isEmpty = false :=
  isEmpty_alter ..

theorem insert_nil_eq_append (m : OrdMap κ (List β)) (k : κ) : m.insert k [] = m.append k [] := by
  simp only [insert, append, List.append_nil]

theorem append_append (m : OrdMap κ (List β)) (k : κ) (l l' : List β)
    : (m.append k l).append k l' = m.append k (l ++ l') := by
  rw [append, append, alter_alter, append]
  simp only [Option.getD_some, List.append_assoc]

theorem find?_append (m : OrdMap κ (List β)) (k k' : κ) (l : List β)
    : (m.append k l).find? k' = if k = k' then some ((m.find? k).getD [] ++ l) else m.find? k' := by
  rw [append, find?_alter]

@[simp]
theorem appendAll_nil (m : OrdMap κ (List β)) : m.appendAll [] = m := rfl

@[simp]
theorem appendAll_cons (m : OrdMap κ (List β)) (e : κ × List β) (es : List (κ × List β))
    : m.appendAll (e :: es) = (m.append e.1 e.2).appendAll es := rfl

theorem appendAll_append (m : OrdMap κ (List β)) (es es' : List (κ × List β))
    : m.appendAll (es ++ es') = (m.appendAll es).appendAll es' :=
  List.foldl_append

theorem isEmpty_appendAll {m : OrdMap κ (List β)} {es : List (κ × List β)}
    (h : m.isEmpty = false ∨ es ≠ []) : (m.appendAll es).isEmpty = false := by
  induction es generalizing m with
  | nil => exact h.resolve_right (by simp)
  | cons e es ih => exact ih (.inl (isEmpty_append m e.1 e.2))

theorem find?_appendAll (m : OrdMap κ (List β)) (es : List (κ × List β)) (k : κ)
    : (m.appendAll es).find? k
        =
      if valuesAt k es = [] then m.find? k else some ((m.find? k).getD [] ++ (valuesAt k es).flatten) := by
  induction es generalizing m with
  | nil => rfl
  | cons e es ih =>
    rw [appendAll_cons, ih, valuesAt_cons, find?_append]
    by_cases hk : e.1 = k
    . rw [if_pos hk, if_pos hk, if_neg (List.cons_ne_nil _ _), hk, List.flatten_cons]
      split_ifs with hnil
      . simp [hnil]
      . rw [Option.getD_some, List.append_assoc]
    . rw [if_neg hk, if_neg hk]

theorem sum_alterEntries (k : κ) (l : List β) (es : List (κ × List β))
    : ((alterEntries k (fun old => old.getD [] ++ l) es).map (fun e => e.2.length)).sum
        =
      (es.map (fun e => e.2.length)).sum + l.length := by
  induction es with
  | nil => simp [alterEntries]
  | cons e es ih =>
    rcases e with ⟨k', l'⟩
    rw [alterEntries]
    split_ifs
    . simp [Nat.add_comm]
    . simp only [List.map_cons, List.sum_cons, Option.getD_some, List.length_append]
      omega
    . simp only [List.map_cons, List.sum_cons, ih, Nat.add_assoc]

@[simp]
theorem size_append (m : OrdMap κ (List β)) (k : κ) (l : List β) : (m.append k l).size = m.size + l.length :=
  sum_alterEntries k l m.entries

theorem size_appendAll (m : OrdMap κ (List β)) (es : List (κ × List β))
    : (m.appendAll es).size = m.size + (es.map (fun e => e.2.length)).sum := by
  induction es generalizing m with
  | nil => rfl
  | cons e es ih => rw [appendAll_cons, ih, size_append, List.map_cons, List.sum_cons, Nat.add_assoc]

end Append

end OrdMap
