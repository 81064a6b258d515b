import FoxyServer.Library.Bytes

/-!
This module contains the parts of `utility` and `std::vector` that read config statements.
-/

namespace Foxy

namespace utility

/--
Strip the quotes of a string argument and turn it into a directory path. Erasing the second quote of a
string that is a single quote is out of range.
-/
def isQuoted (s : Bytes) : Outcome (Bool × Bytes) :=
  let quote := '\x22'.toUInt8
  if s.head? ≠ some quote ∨ s.getLast? ≠ some quote then
    .ok (false, s)
  else
    match s.tail with
    | [] => .throws .outOfRange
    | s =>
      let s := s.dropLast
      .ok (true, if s.getLast? = some '/'.toUInt8 then s else s ++ Bytes.lit "/")

example : isQuoted (Bytes.lit "\"/static\"") = .ok (true, Bytes.lit "/static/") := by decide

def directoryOf (text : Bytes) : Bytes :=
  if text.getLast? = some '/'.toUInt8 then text else text ++ Bytes.lit "/"

theorem directoryOf_eq_self {text : Bytes} (h : text.getLast? = some '/'.toUInt8) : directoryOf text = text :=
  if_pos h

theorem getLast?_directoryOf (text : Bytes) : (directoryOf text).getLast? = some '/'.toUInt8 := by
  rw [directoryOf]
  split
  . assumption
  . rw [List.getLast?_append]
    rfl

theorem isQuoted_quoted (text : Bytes)
    : isQuoted ('\x22'.toUInt8 :: (text ++ ['\x22'.toUInt8])) = .ok (true, directoryOf text) := by
  have hlast : ('\x22'.toUInt8 :: (text ++ ['\x22'.toUInt8])).getLast? = some '\x22'.toUInt8 := by
    rw [← List.cons_append, List.getLast?_concat]
  simp only [isQuoted, hlast, List.head?_cons, List.tail_cons]
  rw [if_neg (by simp)]
  split
  next heq => simp at heq
  next => rw [List.dropLast_concat, directoryOf]

theorem isQuoted_of_unquoted {s : Bytes}
    (h : s.head? ≠ some '\x22'.toUInt8 ∨ s.getLast? ≠ some '\x22'.toUInt8)
    : isQuoted s = .ok (false, s) :=
  if_pos h

theorem isQuoted_eq_true_iff {s s' : Bytes}
    : isQuoted s = .ok (true, s')
        ↔
      ∃ text, s = '\x22'.toUInt8 :: (text ++ ['\x22'.toUInt8]) ∧ s' = directoryOf text := by
  constructor
  . intro h
    by_cases hhead : s.head? = some '\x22'.toUInt8
    . cases s with
      | nil => cases hhead
      | cons c tail =>
        rw [List.head?_cons, Option.some.injEq] at hhead
        rw [hhead] at h ⊢
        cases tail using List.reverseRecOn with
        | nil => cases h
        | append_singleton text d =>
          by_cases hd : d = '\x22'.toUInt8
          . rw [hd, isQuoted_quoted] at h
            cases h
            exact ⟨text, by rw [hd], rfl⟩
          . have hlast : ('\x22'.toUInt8 :: (text ++ [d])).getLast? ≠ some '\x22'.toUInt8 := by
              rw [← List.cons_append, List.getLast?_concat]
              simpa using hd
            rw [isQuoted_of_unquoted (.inr hlast)] at h
            cases h
    . rw [isQuoted_of_unquoted (.inl hhead)] at h
      cases h
  . rintro ⟨text, rfl, rfl⟩
    exact isQuoted_quoted text

theorem isQuoted_ne_undefined (s : Bytes) : isQuoted s ≠ .undefined := by
  rw [isQuoted]
  dsimp only
  split
  . exact fun h => by cases h
  . split <;> exact fun h => by cases h

theorem isQuoted_false {s s' : Bytes} (h : isQuoted s = .ok (false, s')) : s' = s := by
  simp only [isQuoted] at h
  split at h
  . simp only [Outcome.ok.injEq, Prod.mk.injEq, true_and] at h
    exact h.symm
  . split at h
    . cases h
    . simp at h

theorem getLast?_of_isQuoted {s s' : Bytes} (h : isQuoted s = .ok (true, s'))
    : s'.getLast? = some '/'.toUInt8 := by
  rcases isQuoted_eq_true_iff.mp h with ⟨text, -, rfl⟩
  exact getLast?_directoryOf text

end utility

/--
The token after the first occurrence of `keyword`, if the keyword is there. Dereferencing the iterator
one past a keyword that comes last is undefined.
-/
def operandOf (keyword : Bytes) (tokens : List Bytes) : Outcome (Option Bytes) :=
  match tokens.dropWhile (· ≠ keyword) with
  | [] => .ok none
  | [_] => .undefined
  | _ :: operand :: _ => .ok (some operand)

end Foxy
