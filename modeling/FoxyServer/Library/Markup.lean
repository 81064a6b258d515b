import FoxyServer.Library.Bytes

/-!
This module contains the tags of a text with markup: a `<` begins a tag if what follows it can begin one, and
the next `>` ends it. A text between tags opens a tag itself exactly if it has such a `<` in it, and that
cannot go unseen: it leaves other tags behind than a text without one.
-/

namespace Markup

def lessThan : UInt8 := '<'.toUInt8

def greaterThan : UInt8 := '>'.toUInt8

def TagStart (b : UInt8) : Prop :=
  'A'.toUInt8 ≤ b ∧ b ≤ 'Z'.toUInt8 ∨ 'a'.toUInt8 ≤ b ∧ b ≤ 'z'.toUInt8 ∨ b ∈ Bytes.lit "/!?"

instance (b : UInt8) : Decidable (TagStart b) :=
  inferInstanceAs (Decidable (_ ∨ _))

def tagsFrom : Option Bytes → Bytes → List Bytes
  | _, [] => []
  | none, c :: s =>
    if c = lessThan ∧ ∃ d ∈ s.head?, TagStart d then tagsFrom (some [c]) s else tagsFrom none s
  | some tag, c :: s =>
    if c = greaterThan then (tag ++ [c]) :: tagsFrom none s else tagsFrom (some (tag ++ [c])) s

def tags (s : Bytes) : List Bytes :=
  tagsFrom none s

def OpensTag (s : Bytes) : Prop :=
  ∃ d, TagStart d ∧ [lessThan, d] <:+: s

theorem OpensTag.cons {s : Bytes} (h : OpensTag s) (c : UInt8) : OpensTag (c :: s) := by
  rcases h with ⟨d, hd, hwithin⟩
  exact ⟨d, hd, hwithin.trans (List.suffix_cons c s).isInfix⟩

theorem opensTag_cons {c : UInt8} {s : Bytes}
    : OpensTag (c :: s) ↔ (c = lessThan ∧ ∃ d ∈ s.head?, TagStart d) ∨ OpensTag s := by
  constructor
  . rintro ⟨d, hd, hwithin⟩
    rcases List.infix_cons_iff.mp hwithin with hbegins | hwithin
    . rcases List.cons_prefix_cons.mp hbegins with ⟨hc, hbegins⟩
      refine .inl ⟨hc.symm, d, ?_, hd⟩
      cases s with
      | nil => simp at hbegins
      | cons d' s =>
        rw [(List.cons_prefix_cons.mp hbegins).1]
        rfl
    . exact .inr ⟨d, hd, hwithin⟩
  . rintro (⟨rfl, d, hhead, hd⟩ | hopens)
    . cases s with
      | nil => cases hhead
      | cons d' s =>
        cases hhead
        exact ⟨d, hd, ⟨[], s, rfl⟩⟩
    . exact hopens.cons c

instance decidableOpensTag : (s : Bytes) → Decidable (OpensTag s)
  | [] => .isFalse (fun ⟨d, _, hwithin⟩ => by simp at hwithin)
  | _ :: s =>
    have := decidableOpensTag s
    decidable_of_iff _ opensTag_cons.symm

theorem tagsFrom_none_cons {c : UInt8} {s : Bytes} (h : ¬(c = lessThan ∧ ∃ d ∈ s.head?, TagStart d))
    : tagsFrom none (c :: s) = tagsFrom none s := by
  rw [tagsFrom, if_neg h]

/-! ## One text after another -/

theorem tagsFrom_append (tag : Option Bytes) (u v : Bytes)
    : tagsFrom tag (u ++ greaterThan :: v) = tagsFrom tag (u ++ [greaterThan]) ++ tagsFrom none v := by
  induction u generalizing tag with
  | nil =>
    cases tag with
    | none => rfl
    | some tag => rfl
  | cons c u ih =>
    have hhead : (u ++ greaterThan :: v).head? = (u ++ [greaterThan]).head? := by
      cases u <;> rfl
    cases tag with
    | none =>
      rw [List.cons_append, List.cons_append, tagsFrom, tagsFrom, hhead, ih, ih]
      split_ifs <;> rfl
    | some tag =>
      rw [List.cons_append, List.cons_append, tagsFrom, tagsFrom, ih, ih]
      split_ifs <;> rfl

def Closed (s : Bytes) : Prop :=
  ∃ u, s = u ++ [greaterThan]

theorem tags_append {s : Bytes} (h : Closed s) (t : Bytes) : tags (s ++ t) = tags s ++ tags t := by
  rcases h with ⟨u, rfl⟩
  rw [List.append_assoc]
  exact tagsFrom_append none u t

theorem tags_flatMap {α : Type u} {f : α → Bytes} (h : ∀ a, Closed (f a)) (l : List α) (t : Bytes)
    : tags (l.flatMap f ++ t) = l.flatMap (fun a => tags (f a)) ++ tags t := by
  induction l with
  | nil => rfl
  | cons a l ih => rw [List.flatMap_cons, List.flatMap_cons, List.append_assoc, tags_append (h a), ih,
      List.append_assoc]

theorem tagsFrom_text {u : Bytes} (h : lessThan ∉ u) (v : Bytes)
    : tagsFrom none (u ++ v) = tagsFrom none v := by
  induction u with
  | nil => rfl
  | cons c u ih =>
    rw [List.mem_cons, not_or] at h
    rw [List.cons_append, tagsFrom_none_cons, ih h.2]
    exact fun hopens => h.1 hopens.1.symm

/-! ## Pieces with two tags each -/

section Pieces

variable {α : Type u} {f : α → List Bytes} {l l' : List α}

theorem two_mul_length_le (h : ∀ a ∈ l, 2 ≤ (f a).length) : 2 * l.length ≤ (l.flatMap f).length := by
  induction l with
  | nil => exact Nat.zero_le _
  | cons a l ih =>
    have ha := h a List.mem_cons_self
    have hl := ih (fun b hb => h b (List.mem_cons_of_mem _ hb))
    rw [List.flatMap_cons, List.length_append, List.length_cons]
    omega

theorem length_of_two {first last : Bytes} (h : ∀ a ∈ l, f a = [first, last])
    : (l.flatMap f).length = 2 * l.length := by
  induction l with
  | nil => rfl
  | cons a l ih =>
    rw [List.flatMap_cons, List.length_append, h a List.mem_cons_self,
      ih (fun b hb => h b (List.mem_cons_of_mem _ hb)), List.length_cons]
    simp only [List.length_cons, List.length_nil]
    omega

def Loud (first last : Bytes) (piece : List Bytes) : Prop :=
  3 ≤ piece.length ∨ ∃ tag, piece = [first, tag] ∧ tag ≠ last

theorem two_le_of_loud {first last : Bytes} {piece : List Bytes} (h : Loud first last piece)
    : 2 ≤ piece.length := by
  rcases h with hmore | ⟨tag, rfl, -⟩
  . omega
  . exact le_refl 2

theorem not_loud_of_flatMap_eq {first last : Bytes}
    (hl : ∀ a ∈ l, f a = [first, last] ∨ Loud first last (f a))
    (hl' : ∀ a ∈ l', f a = [first, last]) (hlength : l.length = l'.length) (h : l.flatMap f = l'.flatMap f)
    : ∀ a ∈ l, f a = [first, last] := by
  induction l generalizing l' with
  | nil =>
    intro a ha
    cases ha
  | cons a l ih =>
    cases l' with
    | nil => cases hlength
    | cons a' l' =>
      simp only [List.length_cons, Nat.add_right_cancel_iff] at hlength
      rw [List.forall_mem_cons] at hl hl' ⊢
      rw [List.flatMap_cons, List.flatMap_cons, hl'.1] at h
      have ha : f a = [first, last] := by
        rcases hl.1 with hsame | hmore | ⟨tag, htag, hne⟩
        . exact hsame
        . exfalso
          -- one element has brought more than two tags and none fewer, so there are too many
          have hle := @two_mul_length_le _ f l (fun b hb => by
            cases hl.2 b hb with
            | inl hsame =>
              rw [hsame]
              exact le_refl 2
            | inr hloud => exact two_le_of_loud hloud)
          have htotal := congrArg List.length h
          rw [List.length_append, List.length_append, length_of_two hl'.2] at htotal
          simp only [List.length_cons, List.length_nil] at htotal
          omega
        . exfalso
          rw [htag] at h
          simp only [List.cons_append, List.cons.injEq, true_and] at h
          exact hne h.1
      refine ⟨ha, ih hl.2 hl'.2 hlength ?_⟩
      rw [ha] at h
      exact List.append_cancel_left h

end Pieces

/-! ## A text in front of a tag -/

structure IsTag (tag : Bytes) : Prop where
  opens : ∃ d ∈ tag.tail.head?, TagStart d
  ends : ∃ inner, tag = lessThan :: inner ++ [greaterThan] ∧ greaterThan ∉ inner

theorem tagsFrom_inside {tag u : Bytes} (h : greaterThan ∉ u)
    : tagsFrom (some tag) (u ++ [greaterThan]) = [tag ++ u ++ [greaterThan]] := by
  induction u generalizing tag with
  | nil =>
    rw [List.nil_append, tagsFrom, if_pos rfl, List.append_nil]
    rfl
  | cons c u ih =>
    rw [List.mem_cons, not_or] at h
    rw [List.cons_append, tagsFrom, if_neg (Ne.symm h.1), ih h.2]
    simp only [List.append_assoc, List.cons_append, List.nil_append]

theorem tags_tag {tag : Bytes} (h : IsTag tag) : tags tag = [tag] := by
  rcases h.ends with ⟨inner, rfl, hinner⟩
  have hopens := h.opens
  rw [List.cons_append, List.tail_cons] at hopens
  rw [tags, List.cons_append, tagsFrom, if_pos ⟨rfl, hopens⟩, tagsFrom_inside hinner]
  rfl

theorem tagsFrom_some_ne_nil (tag u : Bytes) : tagsFrom (some tag) (u ++ [greaterThan]) ≠ [] := by
  induction u generalizing tag with
  | nil => exact List.cons_ne_nil _ _
  | cons c u ih =>
    rw [List.cons_append, tagsFrom]
    split_ifs
    . exact List.cons_ne_nil _ _
    . exact ih _

variable {last : Bytes} (hlast : IsTag last)

include hlast

theorem tagsFrom_none_ne_nil (u : Bytes) : tagsFrom none (u ++ last) ≠ [] := by
  rcases hlast.ends with ⟨inner, hends, -⟩
  induction u with
  | nil =>
    rw [List.nil_append, ← tags, tags_tag hlast]
    exact List.cons_ne_nil _ _
  | cons c u ih =>
    rw [List.cons_append, tagsFrom]
    split_ifs
    . rw [hends, ← List.append_assoc]
      exact tagsFrom_some_ne_nil _ _
    . exact ih

theorem tagsFrom_some_last (tag u : Bytes)
    : 2 ≤ (tagsFrom (some tag) (u ++ last)).length
        ∨ tagsFrom (some tag) (u ++ last) = [tag ++ u ++ last] := by
  induction u generalizing tag with
  | nil =>
    rcases hlast.ends with ⟨inner, hends, hinner⟩
    right
    have hmem : greaterThan ∉ lessThan :: inner := by
      rw [List.mem_cons, not_or]
      exact ⟨by decide, hinner⟩
    rw [List.nil_append, List.append_nil, hends, tagsFrom_inside hmem, List.append_assoc]
  | cons c u ih =>
    rw [List.cons_append, tagsFrom]
    split_ifs
    . left
      have hpos := List.length_pos_iff.mpr (tagsFrom_none_ne_nil hlast u)
      rw [List.length_cons]
      omega
    . have hnext := ih (tag ++ [c])
      simp only [List.append_assoc, List.cons_append, List.nil_append] at hnext ⊢
      exact hnext

theorem tags_of_opensTag {u : Bytes} (h : OpensTag u) (between : Bytes)
    : 2 ≤ (tags (u ++ (between ++ last))).length
        ∨ ∃ tag, tags (u ++ (between ++ last)) = [tag] ∧ tag ≠ last := by
  induction u with
  | nil =>
    rcases h with ⟨d, -, hwithin⟩
    simp at hwithin
  | cons c u ih =>
    rw [tags, List.cons_append]
    by_cases hopens : c = lessThan ∧ ∃ d ∈ (u ++ (between ++ last)).head?, TagStart d
    . rw [tagsFrom, if_pos hopens, ← List.append_assoc]
      cases tagsFrom_some_last hlast [c] (u ++ between) with
      | inl hmore => exact .inl hmore
      | inr hone =>
        refine .inr ⟨_, hone, fun heq => ?_⟩
        have hlength := congrArg List.length heq
        rw [List.length_append, List.length_append, List.length_singleton] at hlength
        omega
    . rw [tagsFrom_none_cons hopens]
      apply ih
      cases opensTag_cons.mp h with
      | inl hhere =>
        rcases hhere with ⟨hc, d, hhead, hd⟩
        refine absurd ⟨hc, d, ?_, hd⟩ hopens
        rw [List.head?_append, Option.mem_def.mp hhead]
        rfl
      | inr hlater => exact hlater

theorem tags_of_not_opensTag {u between : Bytes} (h : ¬OpensTag u) (htext : lessThan ∉ between)
    (hbetween : ∃ b ∈ between.head?, ¬TagStart b) : tags (u ++ (between ++ last)) = [last] := by
  induction u with
  | nil =>
    rw [List.nil_append, tags, tagsFrom_text htext]
    exact tags_tag hlast
  | cons c u ih =>
    rw [opensTag_cons, not_or] at h
    rw [tags, List.cons_append, tagsFrom_none_cons, ← tags, ih h.2]
    rintro ⟨hc, d, hhead, hd⟩
    cases u with
    | nil =>
      rcases hbetween with ⟨b, hb, hnot⟩
      rw [List.nil_append, List.head?_append, Option.mem_def.mp hb] at hhead
      cases hhead
      exact hnot hd
    | cons b u => exact h.1 ⟨hc, d, hhead, hd⟩

end Markup
