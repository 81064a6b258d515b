import FoxyServer.Library.Machine
import Mathlib.Data.List.Forall2

/-!
This module contains readers that take one frame after another off a stream. If a reader never goes back on a frame
that it has read, then it does not matter in which pieces the stream arrives.
-/

/--
A frame that has been read takes up a part of the stream, and it is read in the same way when more of the stream
is known.
-/
structure Framing (α β : Type u) where
  read : List β → Option (α × List β)
  shorter : ∀ {s a t}, read s = some (a, t) → t.length < s.length
  extend : ∀ {s a t} (u : List β), read s = some (a, t) → read (s ++ u) = some (a, t ++ u)

namespace Framing

variable {α β : Type u} (framing : Framing α β)

def readAll (s : List β) : List α × List β :=
  match h : framing.read s with
  | none => ([], s)
  | some (a, t) =>
    have : t.length < s.length := framing.shorter h
    let (frames, rest) := readAll t
    (a :: frames, rest)
termination_by s.length

/-- What has been received and not been read is kept until the next piece arrives. -/
def receiver : Machine (List β) (List β) α where
  step buffer piece :=
    let (frames, rest) := framing.readAll (buffer ++ piece)
    .ok (rest, frames)

def Frames (a : α) (s : List β) : Prop :=
  framing.read s = some (a, [])

variable {framing} {s t : List β} {a : α}

theorem read_nil : framing.read [] = none := by
  cases hread : framing.read [] with
  | none => rfl
  | some frame => exact absurd (framing.shorter hread) (Nat.not_lt_zero _)

theorem readAll_of_none (h : framing.read s = none) : framing.readAll s = ([], s) := by
  rw [readAll]
  split
  next => rfl
  next hread => simp [h] at hread

theorem readAll_of_some (h : framing.read s = some (a, t))
    : framing.readAll s = (a :: (framing.readAll t).1, (framing.readAll t).2) := by
  rw [readAll]
  split
  next hread => simp [h] at hread
  next a' t' hread =>
    simp only [h, Option.some.injEq, Prod.mk.injEq] at hread
    rw [hread.1, hread.2]

theorem readAll_append (s t : List β)
    : framing.readAll (s ++ t)
        =
      ((framing.readAll s).1 ++ (framing.readAll ((framing.readAll s).2 ++ t)).1,
        (framing.readAll ((framing.readAll s).2 ++ t)).2) := by
  induction hlength : s.length using Nat.strongRecOn generalizing s with
  | ind n ih =>
    cases hread : framing.read s with
    | none =>
      rw [readAll_of_none hread]
      rfl
    | some frame =>
      rcases frame with ⟨a, rest⟩
      have hshorter : rest.length < n := hlength ▸ framing.shorter hread
      rw [readAll_of_some hread, readAll_of_some (framing.extend t hread), ih rest.length hshorter rest rfl]
      rfl

theorem read_readAll (s : List β) : framing.read (framing.readAll s).2 = none := by
  induction hlength : s.length using Nat.strongRecOn generalizing s with
  | ind n ih =>
    cases hread : framing.read s with
    | none =>
      rw [readAll_of_none hread]
      exact hread
    | some frame =>
      rcases frame with ⟨a, rest⟩
      have hshorter : rest.length < n := hlength ▸ framing.shorter hread
      rw [readAll_of_some hread]
      exact ih rest.length hshorter rest rfl

/-- However the stream is cut into pieces, the receiver ends up with what is read of the whole. -/
theorem run_receiver (s : List β) (hs : framing.read s = none) (pieces : List (List β))
    : framing.receiver.run s pieces
        = .ok ((framing.readAll (s ++ pieces.flatten)).2, (framing.readAll (s ++ pieces.flatten)).1) := by
  induction pieces generalizing s with
  | nil => rw [List.flatten_nil, List.append_nil, readAll_of_none hs, Machine.run_nil]
  | cons piece pieces ih =>
    have hrest := framing.read_readAll (s ++ piece)
    have hstep : framing.receiver.step s piece
        = .ok ((framing.readAll (s ++ piece)).2, (framing.readAll (s ++ piece)).1) := rfl
    rw [Machine.run_cons_of_step hstep, ih _ hrest, Outcome.ok_bind, List.flatten_cons,
      ← List.append_assoc s piece, readAll_append (s ++ piece)]

theorem Frames.read_prefix {s : List β} (h : framing.Frames a s) (hbegins : t <+: s) (hne : t ≠ s)
    : framing.read t = none := by
  rcases hbegins with ⟨u, rfl⟩
  cases hread : framing.read t with
  | none => rfl
  | some frame =>
    rcases frame with ⟨a', rest⟩
    have hwhole := framing.extend u hread
    rw [h] at hwhole
    simp only [Option.some.injEq, Prod.mk.injEq] at hwhole
    have hu : u = [] := (List.append_eq_nil_iff.mp hwhole.2.symm).2
    exact absurd (by rw [hu, List.append_nil]) hne

theorem readAll_flatten {as : List α} {frames : List (List β)} (h : List.Forall₂ framing.Frames as frames)
    : framing.readAll frames.flatten = (as, []) := by
  induction h with
  | nil => exact readAll_of_none read_nil
  | @cons a frame as frames hframe _ ih =>
    rw [List.flatten_cons, readAll_of_some (framing.extend frames.flatten hframe), List.nil_append, ih]

def CutAt (frames : List (List β)) (k : Nat) (rest received : List β) : Prop :=
  received = (frames.take k).flatten ++ rest
    ∧ (rest = [] ∨ ∃ frame, frames[k]? = some frame ∧ rest <+: frame ∧ rest ≠ frame)

theorem exists_cutAt {as : List α} {frames : List (List β)} (h : List.Forall₂ framing.Frames as frames)
    {received : List β} (hreceived : received <+: frames.flatten)
    : ∃ k rest, CutAt frames k rest received ∧ framing.readAll received = (as.take k, rest) := by
  induction h generalizing received with
  | nil =>
    have hnil : received = [] := by simpa using hreceived
    subst hnil
    exact ⟨0, [], ⟨rfl, .inl rfl⟩, readAll_of_none read_nil⟩
  | @cons a frame as frames hframe _ ih =>
    rw [List.flatten_cons] at hreceived
    by_cases hwhole : frame <+: received
    . rcases hwhole with ⟨more, rfl⟩
      rcases ih ((List.prefix_append_right_inj frame).mp hreceived)
        with ⟨k, rest, ⟨hmore, hrest⟩, hread⟩
      refine ⟨k + 1, rest, ⟨?_, hrest⟩, ?_⟩
      . rw [hmore, List.take_succ_cons, List.flatten_cons, List.append_assoc]
      . have hfirst := framing.extend more hframe
        rw [readAll_of_some hfirst, List.nil_append, hread, List.take_succ_cons]
    . have hpart : received <+: frame := by
        rcases List.prefix_or_prefix_of_prefix hreceived (List.prefix_append frame _) with h | h
        . exact h
        . exact absurd h hwhole
      have hne : received ≠ frame := by
        rintro rfl
        exact hwhole List.prefix_rfl
      exact ⟨0, received, ⟨rfl, .inr ⟨frame, rfl, hpart, hne⟩⟩, readAll_of_none (hframe.read_prefix hpart hne)⟩

/--
Whoever receives a part of a stream of frames, in whatever pieces, has read exactly those frames of which the last
element has arrived.
-/
theorem receive_prefix {as : List α} {frames : List (List β)} (h : List.Forall₂ framing.Frames as frames)
    {pieces : List (List β)} (hpieces : pieces.flatten <+: frames.flatten)
    : ∃ k rest, CutAt frames k rest pieces.flatten
        ∧ framing.receiver.run [] pieces = .ok (rest, as.take k) := by
  rcases exists_cutAt h hpieces with ⟨k, rest, hcut, hread⟩
  exact ⟨k, rest, hcut, by rw [run_receiver [] read_nil, List.nil_append, hread]⟩

theorem receive_all {as : List α} {frames : List (List β)} (h : List.Forall₂ framing.Frames as frames)
    {pieces : List (List β)} (hpieces : pieces.flatten = frames.flatten)
    : framing.receiver.run [] pieces = .ok ([], as) := by
  rw [run_receiver [] read_nil, List.nil_append, hpieces, readAll_flatten h]

end Framing
