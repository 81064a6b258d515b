import FoxyServer.Library.Bytes

/-!
This module contains texts of lines, each ended by a carriage return and a line feed, and the reader that
takes such lines off the front of a byte string up to the first empty one.
-/

namespace Bytes

def crlf : Bytes :=
  ['\r'.toUInt8, '\n'.toUInt8]

/-- No byte of the string ends a line, not even for a reader that takes a lone CR or LF for an end. -/
def OneLine (s : Bytes) : Prop :=
  ∀ b ∈ s, b ≠ '\r'.toUInt8 ∧ b ≠ '\n'.toUInt8

instance (s : Bytes) : Decidable s.OneLine :=
  inferInstanceAs (Decidable (∀ b ∈ s, _))

theorem oneLine_append {s t : Bytes} : (s ++ t).OneLine ↔ s.OneLine ∧ t.OneLine :=
  List.forall_mem_append

def unlines (lines : List Bytes) : Bytes :=
  lines.flatMap (· ++ crlf)

@[simp]
theorem unlines_nil : unlines [] = [] := rfl

@[simp]
theorem unlines_cons (line : Bytes) (lines : List Bytes)
    : unlines (line :: lines) = line ++ crlf ++ unlines lines := rfl

@[simp]
theorem unlines_append (lines lines' : List Bytes)
    : unlines (lines ++ lines') = unlines lines ++ unlines lines' :=
  List.flatMap_append

def readHeadFrom (line : Bytes) : Bytes → Option (List Bytes × Bytes)
  | [] => none
  | [_] => none
  | c :: d :: s =>
    if c = '\r'.toUInt8 ∧ d = '\n'.toUInt8 then
      if line = [] then
        some ([], s)
      else
        (readHeadFrom [] s).map (fun (lines, rest) => (line :: lines, rest))
    else
      readHeadFrom (line ++ [c]) (d :: s)

def readHead (s : Bytes) : Option (List Bytes × Bytes) :=
  readHeadFrom [] s

theorem readHeadFrom_line {s : Bytes} (hs : s.OneLine) (line t : Bytes)
    : readHeadFrom line (s ++ crlf ++ t) = readHeadFrom (line ++ s) (crlf ++ t) := by
  induction s generalizing line with
  | nil => simp
  | cons c s ih =>
    have hc := hs c List.mem_cons_self
    have hrest : OneLine s := fun b hb => hs b (List.mem_cons_of_mem _ hb)
    have hnext : ∃ d t', s ++ crlf ++ t = d :: t' := by
      cases s with
      | nil => exact ⟨_, _, rfl⟩
      | cons d s => exact ⟨_, _, rfl⟩
    rcases hnext with ⟨d, t', hnext⟩
    have ih := ih hrest (line ++ [c])
    rw [hnext, List.append_assoc, List.singleton_append] at ih
    rw [List.cons_append, List.cons_append, hnext, readHeadFrom, if_neg (fun h => hc.1 h.1)]
    exact ih

theorem readHeadFrom_crlf (line t : Bytes)
    : readHeadFrom line (crlf ++ t)
        =
      if line = [] then
        some ([], t)
      else
        (readHead t).map (fun (lines, rest) => (line :: lines, rest)) := by
  rw [crlf, List.cons_append, List.singleton_append, readHeadFrom, if_pos ⟨rfl, rfl⟩]
  rfl

theorem readHeadFrom_append {line s t rest : Bytes} {lines : List Bytes}
    (h : readHeadFrom line s = some (lines, rest)) : readHeadFrom line (s ++ t) = some (lines, rest ++ t) := by
  fun_induction readHeadFrom line s generalizing lines rest with
  | case1 => cases h
  | case2 => cases h
  | case3 c d s hcrlf =>
    simp only [Option.some.injEq, Prod.mk.injEq] at h
    rw [List.cons_append, List.cons_append, readHeadFrom, if_pos hcrlf, if_pos rfl, ← h.1, ← h.2]
  | case4 line c d s hcrlf hline ih =>
    rcases Option.map_eq_some_iff.mp h with ⟨⟨lines', rest'⟩, hrest, heq⟩
    simp only [Prod.mk.injEq] at heq
    rw [List.cons_append, List.cons_append, readHeadFrom, if_pos hcrlf, if_neg hline, ih hrest, ← heq.1,
      ← heq.2]
    rfl
  | case5 line c d s hcrlf ih =>
    rw [List.cons_append, List.cons_append, readHeadFrom, if_neg hcrlf]
    exact ih h

theorem readHeadFrom_eq_some {line s rest : Bytes} {lines : List Bytes}
    (h : readHeadFrom line s = some (lines, rest)) : line ++ s = unlines lines ++ crlf ++ rest := by
  fun_induction readHeadFrom line s generalizing lines rest with
  | case1 => cases h
  | case2 => cases h
  | case3 c d s hcrlf =>
    simp only [Option.some.injEq, Prod.mk.injEq] at h
    rw [← h.1, ← h.2, hcrlf.1, hcrlf.2]
    rfl
  | case4 line c d s hcrlf hline ih =>
    rcases Option.map_eq_some_iff.mp h with ⟨⟨lines', rest'⟩, hrest, heq⟩
    simp only [Prod.mk.injEq] at heq
    have ih := ih hrest
    rw [List.nil_append] at ih
    rw [← heq.1, ← heq.2, hcrlf.1, hcrlf.2, ih, unlines_cons, crlf]
    simp only [List.append_assoc, List.cons_append, List.nil_append]
  | case5 line c d s hcrlf ih =>
    rw [← ih h, List.append_assoc, List.singleton_append]

theorem exists_readHeadFrom {s : Bytes} (h : crlf ++ crlf <:+: s) (line : Bytes)
    : ∃ lines rest, readHeadFrom line s = some (lines, rest) := by
  fun_induction readHeadFrom line s with
  | case1 => exact absurd (List.infix_nil.mp h) (by decide)
  | case2 line c => exact absurd h.length_le (by simp [crlf])
  | case3 c d s hcrlf => exact ⟨_, _, rfl⟩
  | case4 line c d s hcrlf hline ih =>
    suffices hrest : ∃ lines rest, readHeadFrom [] s = some (lines, rest) by
      rcases hrest with ⟨lines, rest, hrest⟩
      rw [hrest]
      exact ⟨_, _, rfl⟩
    rcases List.infix_cons_iff.mp h with ⟨t, ht⟩ | h
    . simp only [crlf, List.cons_append, List.nil_append, List.cons.injEq] at ht
      rw [← ht.2.2]
      exact ⟨[], t, rfl⟩
    . apply ih
      rcases List.infix_cons_iff.mp h with ⟨t, ht⟩ | h
      . -- the line feed is no start of another line end
        simp only [crlf, List.cons_append, List.nil_append, List.cons.injEq] at ht
        exact absurd (ht.1.trans hcrlf.2) (by decide)
      . exact h
  | case5 line c d s hcrlf ih =>
    apply ih
    rcases List.infix_cons_iff.mp h with ⟨t, ht⟩ | h
    . simp only [crlf, List.cons_append, List.nil_append, List.cons.injEq] at ht
      exact absurd ⟨ht.1.symm, ht.2.1.symm⟩ hcrlf
    . exact h

/--
A reader of lines finds exactly these lines in front of the first empty one, and none of them ends earlier
for a reader that is less strict.
-/
def SplitsInto (s : Bytes) (lines : List Bytes) (rest : Bytes) : Prop :=
  readHead s = some (lines, rest) ∧ ∀ line ∈ lines, line.OneLine

instance (s : Bytes) (lines : List Bytes) (rest : Bytes) : Decidable (s.SplitsInto lines rest) :=
  inferInstanceAs (Decidable (_ ∧ ∀ line ∈ lines, _))

theorem splitsInto_unlines {lines : List Bytes} (hlines : ∀ line ∈ lines, line ≠ [] ∧ line.OneLine)
    (rest : Bytes) : (unlines lines ++ crlf ++ rest).SplitsInto lines rest := by
  refine ⟨?_, fun line hline => (hlines line hline).2⟩
  induction lines with
  | nil => rfl
  | cons line lines ih =>
    have hline := hlines line List.mem_cons_self
    have ih := ih (fun line hline => hlines line (List.mem_cons_of_mem _ hline))
    rw [unlines_cons, List.append_assoc, List.append_assoc, ← List.append_assoc (unlines lines), readHead,
      readHeadFrom_line hline.2, List.nil_append, readHeadFrom_crlf, if_neg hline.1, ih]
    rfl

theorem crlf_crlf_infix_unlines {lines : List Bytes} (hlines : lines ≠ []) (rest : Bytes)
    : crlf ++ crlf <:+: unlines lines ++ crlf ++ rest := by
  rcases List.eq_nil_or_concat lines with rfl | ⟨init, last, rfl⟩
  . exact absurd rfl hlines
  . refine ⟨unlines init ++ last, rest, ?_⟩
    rw [List.concat_eq_append, unlines_append, unlines_cons, unlines_nil]
    simp only [List.append_assoc, List.append_nil]

theorem SplitsInto.of_crlf_crlf {buffer t rest : Bytes} {lines : List Bytes}
    (hlines : (buffer ++ t).SplitsInto lines rest) (h : crlf ++ crlf <:+: buffer)
    : ∃ seen, buffer = unlines lines ++ crlf ++ seen ∧ rest = seen ++ t := by
  rcases exists_readHeadFrom h [] with ⟨lines', seen, hread⟩
  have hwhole := readHeadFrom_append (t := t) hread
  rw [← readHead, hlines.1] at hwhole
  simp only [Option.some.injEq, Prod.mk.injEq] at hwhole
  refine ⟨seen, ?_, hwhole.2⟩
  rw [hwhole.1, ← readHeadFrom_eq_some hread, List.nil_append]

theorem OneLine.of_crlf {line buffer t rest : Bytes} (hline : line.OneLine)
    (hbytes : buffer ++ t = line ++ crlf ++ rest) (h : crlf <:+: buffer)
    : ∃ seen, buffer = line ++ crlf ++ seen ∧ rest = seen ++ t := by
  rcases List.append_eq_append_iff.mp hbytes with ⟨missing, hmissing, hrest⟩ | ⟨seen, hseen, hrest⟩
  . rcases List.eq_nil_or_concat missing with rfl | ⟨init, last, rfl⟩
    . refine ⟨[], ?_, ?_⟩
      . simpa using hmissing.symm
      . simpa using hrest.symm
    . -- without the line feed there is no line end to be seen
      have hinit : buffer ++ init = line ++ ['\r'.toUInt8] := by
        rw [crlf, List.concat_eq_append, ← List.append_assoc, ← List.singleton_append,
          ← List.append_assoc] at hmissing
        exact (List.append_inj' hmissing.symm rfl).1
      have hlf : '\n'.toUInt8 ∈ line ++ ['\r'.toUInt8] := by
        rw [← hinit]
        exact List.mem_append_left _ (h.subset (by decide))
      rcases List.mem_append.mp hlf with hlf | hlf
      . exact absurd rfl (hline _ hlf).2
      . exact absurd hlf (by decide)
  . exact ⟨seen, hseen, hrest⟩

end Bytes
