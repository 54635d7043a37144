import Assortment.Storage.Error
import Assortment.Storage.Mutation

/-!
# A database in memory

Rows are kept by table and key text. A plan is applied in place, mutation by mutation; each mutation
that succeeds leaves a note of the row that it displaced, and when a later one fails the notes are
played back, newest first. So a plan takes effect as a whole or not at all.
-/
namespace Assortment.Storage

@[ext]
structure Address where
  table : String
  key : String
deriving DecidableEq, Inhabited

namespace Address

def cmp : Address → Address → Ordering :=
  compareLex (compareOn table) (compareOn key)

instance : Std.TransCmp cmp :=
  inferInstanceAs (Std.TransCmp (compareLex (compareOn table) (compareOn key)))

instance : Std.LawfulEqCmp cmp where
  eq_of_compare {a b} h := by
    simp only [cmp, compareLex_eq_eq, compareOn, Std.LawfulEqCmp.compare_eq_iff_eq] at h
    exact Address.ext h.1 h.2

end Address

/-- Where a mutation writes: its table, and the text of its key. -/
def Mutation.address (m : Mutation) : Address := ⟨m.table, m.key.written⟩

abbrev Rows := Std.ExtTreeMap Address Row Address.cmp

/-- A note of what was kept at an address before a mutation. -/
structure Displaced where
  address : Address
  previous : Option Row

namespace Rows

def write (rows : Rows) (m : Mutation) : Except StorageError (Rows × Displaced) :=
  match m.kind, rows[m.address]? with
  | .insert, some _ => .error (.keyTaken m.table m.address.key)
  | .insert, none => .ok (rows.insert m.address m.row, ⟨m.address, none⟩)
  | .update, found =>
      if m.values.isEmpty then .error (.nothingToWrite m.table m.address.key)
      else match found with
        | none => .error (.noSuchRow m.table m.address.key)
        | some row => .ok (rows.insert m.address (row.setAll m.values), ⟨m.address, some row⟩)

def restore (rows : Rows) (d : Displaced) : Rows :=
  match d.previous with
  | some row => rows.insert d.address row
  | none => rows.erase d.address

/-- Puts back what several mutations displaced, newest first. -/
def restoreAll (rows : Rows) (log : List Displaced) : Rows := log.foldl restore rows

/-- Carries out mutations one after the other, given the notes of those before, newest first; at the
first failure everything is put back. -/
def writeAll (rows : Rows) (log : List Displaced) : List Mutation → Except StorageError Unit × Rows
  | [] => (.ok (), rows)
  | m :: ms =>
      match rows.write m with
      | .ok (written, displaced) => writeAll written (displaced :: log) ms
      | .error e => (.error e, rows.restoreAll log)

/-- Putting back what a mutation displaced undoes it. -/
theorem restore_write {rows written : Rows} {m : Mutation} {d : Displaced}
    (h : rows.write m = .ok (written, d)) : written.restore d = rows := by
  unfold write at h
  split at h
  · cases h
  · cases h
    apply Std.ExtTreeMap.ext_getElem?
    intro a
    simp only [restore]
    grind
  · split at h
    · cases h
    · split at h
      · cases h
      · cases h
        apply Std.ExtTreeMap.ext_getElem?
        intro a
        simp only [restore]
        grind

end Rows

@[ext]
structure Database where
  rows : Rows := ∅
  opened : Nat := 0
  /-- Whether the next commit that has something to write is made to fail. -/
  armed : Bool := false

namespace Database

def empty : Database := {}

instance : EmptyCollection Database := ⟨empty⟩
instance : Inhabited Database := ⟨empty⟩

def injectedFailure : StorageError := .aborted "injected commit failure"

/-- Commits a plan. An empty plan opens no transaction. -/
def apply (db : Database) (plan : Plan) : Except StorageError Unit × Database :=
  if plan.isEmpty then (.ok (), db)
  else if db.armed then
    (.error injectedFailure, { db with opened := db.opened + 1, armed := false })
  else
    let (result, rows) := db.rows.writeAll [] plan.mutations
    (result, { db with rows := rows, opened := db.opened + 1 })

/-- Arms the failure of the next commit that has something to write. -/
def arm (db : Database) : Database := { db with armed := true }

def clear (db : Database) : Database := { db with rows := ∅ }

def row? (db : Database) (table key : String) : Option Row := db.rows[(⟨table, key⟩ : Address)]?

/-- The rows of a table with their keys, in key order. -/
def keyedRows (db : Database) (table : String) : List (String × Row) :=
  (db.rows.toList.filter (·.1.table == table)).map fun e => (e.1.key, e.2)

def rowsOf (db : Database) (table : String) : List Row := (db.keyedRows table).map (·.2)

def countOf (db : Database) (table : String) : Nat := (db.keyedRows table).length

end Database

end Assortment.Storage
