import FoxyServer.Library.Bytes
import FoxyServer.Library.OrdMap

/-!
This module contains the AUTH table and the statements that read and write it. SQLite itself is a
parameter: the result codes and the rows it delivers.
-/

namespace Foxy

/--
The rows of the AUTH table. The user is the primary key, so there is at most one hash for each.
-/
abbrev AuthTable := OrdMap Bytes Bytes

/-- What SQLite returns while a statement is prepared and executed on a table. -/
structure Sqlite where
  prepareInsert : AuthTable → Bytes → Bytes → Int
  stepInsert : AuthTable → Bytes → Bytes → Int
  prepareSelect : AuthTable → Bytes → Int
  /-- The pass column of the rows that are delivered before the final code. -/
  rowsSelect : AuthTable → Bytes → List Bytes
  finalSelect : AuthTable → Bytes → Int

namespace Sqlite

def ok : Int := 0
def constraint : Int := 19
def done : Int := 101

/--
A row is added only if there is none for the user: a duplicate user yields SQLITE_CONSTRAINT.
-/
def RejectsDuplicates (sqlite : Sqlite) : Prop :=
  ∀ table user hash, table.find? user ≠ none → sqlite.prepareInsert table user hash = ok →
    sqlite.stepInsert table user hash = constraint

/--
The statements run without an I/O error: INSERT adds the row unless it is a duplicate, SELECT delivers
the rows of the user.
-/
structure Reliable (sqlite : Sqlite) : Prop where
  prepareInsert : ∀ table user hash, sqlite.prepareInsert table user hash = ok
  stepInsert : ∀ table user hash,
    sqlite.stepInsert table user hash = if table.find? user = none then done else constraint
  prepareSelect : ∀ table user, sqlite.prepareSelect table user = ok
  rowsSelect : ∀ table user, sqlite.rowsSelect table user = (table.find? user).toList
  finalSelect : ∀ table user, sqlite.finalSelect table user = done

def reliable : Sqlite where
  prepareInsert := fun _ _ _ => ok
  stepInsert := fun table user _ => if table.find? user = none then done else constraint
  prepareSelect := fun _ _ => ok
  rowsSelect := fun table user => (table.find? user).toList
  finalSelect := fun _ _ => done

theorem reliable_reliable : reliable.Reliable where
  prepareInsert := fun _ _ _ => rfl
  stepInsert := fun _ _ _ => rfl
  prepareSelect := fun _ _ => rfl
  rowsSelect := fun _ _ => rfl
  finalSelect := fun _ _ => rfl

theorem Reliable.rejectsDuplicates {sqlite : Sqlite} (h : sqlite.Reliable) : sqlite.RejectsDuplicates := by
  intro table user hash hpresent _
  rw [h.stepInsert, if_neg hpresent]

theorem reliable_rejectsDuplicates : reliable.RejectsDuplicates :=
  reliable_reliable.rejectsDuplicates

end Sqlite

namespace database

/--
Returns the last result code. The row is there afterwards if and only if the statement was executed and
the code is SQLITE_DONE.
-/
def dbInsert (sqlite : Sqlite) (generateHash : Bytes → Bytes) (table : AuthTable) (user pass : Bytes)
    : Int × AuthTable :=
  let hashedPassword := generateHash pass
  let rc := sqlite.prepareInsert table user hashedPassword
  if rc ≠ Sqlite.ok then
    (rc, table)
  else
    let rc := sqlite.stepInsert table user hashedPassword
    (rc, if rc = Sqlite.done then table.insert user hashedPassword else table)

/--
Returns the last result code and the new value of `pass`: the column of the last row, read as a C string.
It stays as it was if the statement cannot be prepared.
-/
def dbSelectPass (sqlite : Sqlite) (table : AuthTable) (user pass : Bytes) : Int × Bytes :=
  let rc := sqlite.prepareSelect table user
  if rc ≠ Sqlite.ok then
    (rc, pass)
  else
    let data := (sqlite.rowsSelect table user).foldl (fun _ row => Bytes.cStr row) []
    (sqlite.finalSelect table user, data)

end database

end Foxy
