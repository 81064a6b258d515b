import FoxyServer.Library.Bytes

/-!
This module contains what a program reads from: a connection that delivers its bytes in pieces, of which as
many are put into a buffer as it takes to see a delimiter, and the formatted extraction of words, numbers
and lines from such a buffer.
-/

/-- The pieces that successive reads of a connection deliver before it ends, in a regular way or not. -/
structure Source where
  chunks : List Bytes
  nonempty : ∀ chunk ∈ chunks, chunk ≠ []

namespace Source

/--
Read until the buffer has the delimiter in it. Returns the buffer, which may hold more than that, and the
pieces that have not been read; if the connection ends before, there is an exception.
-/
def readUntil (delim : Bytes) (buffer : Bytes) : List Bytes → Option (Bytes × List Bytes)
  | [] => if buffer.contains delim then some (buffer, []) else none
  | chunk :: chunks =>
    if buffer.contains delim then
      some (buffer, chunk :: chunks)
    else
      readUntil delim (buffer ++ chunk) chunks

variable {delim buffer buffer' : Bytes} {chunks chunks' : List Bytes}

theorem readUntil_eq_some (h : readUntil delim buffer chunks = some (buffer', chunks'))
    : delim <:+: buffer' ∧ buffer' ++ chunks'.flatten = buffer ++ chunks.flatten := by
  induction chunks generalizing buffer with
  | nil =>
    rw [readUntil] at h
    split_ifs at h with hfound
    simp only [Option.some.injEq, Prod.mk.injEq] at h
    rw [← h.1, ← h.2]
    exact ⟨Bytes.contains_iff.mp hfound, rfl⟩
  | cons chunk chunks ih =>
    rw [readUntil] at h
    split_ifs at h with hfound
    . simp only [Option.some.injEq, Prod.mk.injEq] at h
      rw [← h.1, ← h.2]
      exact ⟨Bytes.contains_iff.mp hfound, rfl⟩
    . rcases ih h with ⟨hdelim, hbytes⟩
      exact ⟨hdelim, by rw [hbytes, List.flatten_cons, List.append_assoc]⟩

theorem exists_readUntil (h : delim <:+: buffer ++ chunks.flatten)
    : ∃ buffer' chunks', readUntil delim buffer chunks = some (buffer', chunks') := by
  induction chunks generalizing buffer with
  | nil =>
    rw [List.flatten_nil, List.append_nil] at h
    exact ⟨buffer, [], by rw [readUntil, if_pos (Bytes.contains_iff.mpr h)]⟩
  | cons chunk chunks ih =>
    rw [readUntil]
    split_ifs
    . exact ⟨_, _, rfl⟩
    . exact ih (by rwa [List.flatten_cons, ← List.append_assoc] at h)

end Source

/--
An input stream over a buffer. Nothing can be extracted once the end of the buffer has been seen or an
extraction has failed.
-/
structure IStream where
  buffer : Bytes
  eof : Bool := false
  fail : Bool := false
  deriving DecidableEq

namespace IStream

def word (stream : IStream) : Bytes × IStream :=
  if stream.eof ∨ stream.fail then
    ([], { stream with fail := true })
  else
    let buffer := stream.buffer.dropWhile Bytes.isSpace
    let word := buffer.takeWhile (fun b => !Bytes.isSpace b)
    let rest := buffer.dropWhile (fun b => !Bytes.isSpace b)
    (word, { buffer := rest, eof := rest = [], fail := word = [] })

/--
`is >> n` for an `unsigned int`: what is stored in `n`, which is nothing if there is nothing to read. A
negative number wraps around; one that is too large fails, but is stored as the largest there is.
-/
def unsigned (stream : IStream) : Option Nat × IStream :=
  let skipped := stream.buffer.dropWhile Bytes.isSpace
  if stream.eof ∨ stream.fail then
    (none, { stream with fail := true })
  else if skipped = [] then
    (none, { buffer := [], eof := true, fail := true })
  else
    let negative := skipped.head? = some '-'.toUInt8
    let buffer := if negative ∨ skipped.head? = some '+'.toUInt8 then skipped.tail else skipped
    let digits := buffer.takeWhile Bytes.isDigit
    let rest := buffer.dropWhile Bytes.isDigit
    let n := Bytes.decimalValue digits
    if digits = [] then
      (some 0, { buffer := rest, eof := rest = [], fail := true })
    else if n < 4294967296 then
      (some (if negative ∧ n ≠ 0 then 4294967296 - n else n), { buffer := rest, eof := rest = [] })
    else
      (some (4294967295), { buffer := rest, eof := rest = [], fail := true })

def line (stream : IStream) : Bytes × IStream :=
  if stream.eof ∨ stream.fail then
    ([], { stream with fail := true })
  else
    let line := stream.buffer.takeWhile (· ≠ '\n'.toUInt8)
    match stream.buffer.dropWhile (· ≠ '\n'.toUInt8) with
    | [] => (line, { buffer := [], eof := true, fail := line = [] })
    | _ :: rest => (line, { buffer := rest })

end IStream
