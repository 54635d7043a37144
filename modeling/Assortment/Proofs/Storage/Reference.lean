import Assortment.Proofs.Storage.Reading
import Assortment.Proofs.Storage.Row
import Assortment.Storage.Server
import Mathlib.Logic.Function.Basic

/-!
# The reference server

A server that carries out the statements it is sent by what their texts say. A table is a list of rows whose
order does not count, keys are compared as values and not by their texts, and bound values are stored as they
are. What a transaction writes is seen from outside when it is committed, and never if it is rolled back.
-/

namespace Assortment.Storage

/-- Whether a row has a key in a column. Nothing equals a null. -/
def Row.isAt (row : Row) (column : String) (key : Value) : Bool :=
  !key.isNull && row[column]? == some key

theorem Row.isAt_iff {row : Row} {column : String} {key : Value} (h : key.isNull = false) :
    row.isAt column key = true ↔ row[column]? = some key := by
  simp [isAt, h]

/-- The rows of each table. -/
abbrev Tables := String → List Row

namespace Sql

def malformed : Fault := .reported "42601" "syntax error"
def repeatedColumn : Fault := .reported "42701" "column specified more than once"
def keyExists : Fault := .reported uniqueViolation "duplicate key value violates unique constraint"

/-- The value with a number, counted from one. -/
def bound? (values : List Value) : Nat → Option Value
  | 0 => none
  | n + 1 => values[n]?

/-- Columns with the values of their placeholders. -/
def bindAll? (values : List Value) : List (String × Nat) → Option (List (String × Value))
  | [] => some []
  | (column, n) :: rest => do
      let value ← bound? values n
      let others ← bindAll? values rest
      some ((column, value) :: others)

/-- Adds a row unless the value of its first column is a key already. -/
def insertRow (tables : Tables) (table : String) (row : List (String × Value)) :
    Except Fault (Nat × Tables) :=
  match row with
  | [] => .error malformed
  | (column, key) :: _ =>
      if ¬ (row.map (·.1)).Nodup then .error repeatedColumn
      else if (tables table).any (·.isAt column key) then .error keyExists
      else .ok (1, Function.update tables table (Row.assign ∅ row :: tables table))

/-- Assigns columns of the rows with a key. -/
def updateRows (tables : Tables) (table keyColumn : String) (key : Value) (values : List (String × Value)) :
    Except Fault (Nat × Tables) :=
  if ¬ (values.map (·.1)).Nodup then .error repeatedColumn
  else .ok ((tables table).countP (·.isAt keyColumn key), Function.update tables table
    ((tables table).map fun row => if row.isAt keyColumn key then row.assign values else row))

/-- Carries out what a text says with the values bound to it; gives the number of rows written. -/
def run (values : List Value) (tables : Tables) : Sql → Except Fault (Nat × Tables)
  | insert table columns numbers =>
      if columns.length = numbers.length then
        match bindAll? values (columns.zip numbers) with
        | some row => insertRow tables table row
        | none => .error malformed
      else .error malformed
  | update table assignments keyColumn number =>
      match bindAll? values assignments, bound? values number with
      | some assigned, some key => updateRows tables table keyColumn key assigned
      | _, _ => .error malformed

end Sql

/-- The tables as they are seen from outside, and those of the transaction that is open. -/
structure Reference where
  tables : Tables
  working : Option Tables := none

namespace Reference

def current (s : Reference) : Tables := s.working.getD s.tables

/-- The state after rows were written, which are seen at once when no transaction is open. -/
def wrote (s : Reference) (tables : Tables) : Reference :=
  match s.working with
  | some _ => { s with working := some tables }
  | none => { s with tables := tables }

def server : Server Reference where
  answer
    | .begin, s => (.ok ⟨0, none⟩, { s with working := some s.current })
    | .commit, s => (.ok ⟨0, none⟩, ⟨s.current, none⟩)
    | .rollback, s => (.ok ⟨0, none⟩, { s with working := none })
    | .run text values, s =>
        match (Sql.read? text).elim (.error Sql.malformed) (Sql.run values s.current) with
        | .ok (affected, tables) => (.ok ⟨affected, none⟩, s.wrote tables)
        | .error fault => (.error fault, s)

end Reference

/-! ## Binding -/

namespace Sql

/-- Placeholders that are numbered in the order of the values get the values in that order. -/
theorem bindAll?_mapIdx (written : List (String × Value)) (before after : List Value) :
    bindAll? (before ++ (written.map (·.2) ++ after))
        ((written.map (·.1)).mapIdx fun i column => (column, before.length + i + 1)) = some written := by
  induction written generalizing before with
  | nil => rfl
  | cons w ws ih =>
      have hrest := ih (before ++ [w.2])
      simp only [List.append_assoc, List.singleton_append, List.length_append, List.length_singleton] at hrest
      have hnumbers : (fun i (column : String) => (column, before.length + (i + 1) + 1))
          = fun i column => (column, before.length + 1 + i + 1) := by
        funext i column
        rw [Nat.add_comm i 1, Nat.add_assoc before.length 1 i]
      have hfirst : bound? (before ++ w.2 :: (ws.map (·.2) ++ after)) (before.length + 0 + 1) = some w.2 := by
        simp [bound?]
      rw [List.map_cons, List.map_cons, List.mapIdx_cons, List.cons_append, bindAll?, hfirst, hnumbers, hrest]
      rfl

theorem zip_eq_mapIdx (columns : List String) :
    columns.zip ((List.range columns.length).map (· + 1)) = columns.mapIdx fun i column => (column, i + 1) := by
  apply List.ext_getElem
  · simp
  · simp

theorem bindAll?_insert (row : List (String × Value)) :
    bindAll? (row.map (·.2)) ((row.map (·.1)).zip ((List.range (row.map (·.1)).length).map (· + 1)))
      = some row := by
  rw [zip_eq_mapIdx]
  simpa using bindAll?_mapIdx row [] []

theorem bindAll?_update (values : List (String × Value)) (key : Value) :
    bindAll? (values.map (·.2) ++ [key]) ((values.map (·.1)).mapIdx fun i column => (column, i + 1))
      = some values := by
  simpa using bindAll?_mapIdx values [] [key]

end Sql

namespace Mutation

/-- Whether the names of a mutation are plain. -/
structure IsPlain (m : Mutation) : Prop where
  table : Sql.isPlain m.table = true
  columns : ∀ c ∈ m.keyColumn :: m.columns, Sql.isPlain c = true

/-- The text of an insert and its values: the key comes first. -/
structure BindsInsert (m : Mutation) : Prop where
  text : Sql.read? m.statement.text
    = some (.insert m.table (m.keyColumn :: m.columns) ((List.range (m.values.length + 1)).map (· + 1)))
  values : m.statement.values? = some (m.key :: m.values.map (·.2))
  meets : Sql.bindAll? (m.key :: m.values.map (·.2))
    ((m.keyColumn :: m.columns).zip ((List.range (m.values.length + 1)).map (· + 1)))
      = some ((m.keyColumn, m.key) :: m.values)

/-- The text of an update and its values: the key comes last. -/
structure BindsUpdate (m : Mutation) : Prop where
  text : Sql.read? m.statement.text
    = some (.update m.table (m.columns.mapIdx fun i c => (c, i + 1)) m.keyColumn (m.values.length + 1))
  values : m.statement.values? = some (m.values.map (·.2) ++ [m.key])
  meets : Sql.bindAll? (m.values.map (·.2) ++ [m.key]) (m.columns.mapIdx fun i c => (c, i + 1)) = some m.values
  meetsKey : Sql.bound? (m.values.map (·.2) ++ [m.key]) (m.values.length + 1) = some m.key

variable {m : Mutation}

theorem statement_eq_run {values : List Value} (h : m.statement.values? = some values) :
    m.statement = .run m.statement.text values := by
  revert h
  unfold statement
  cases m.kind <;> exact fun h => congrArg _ (Option.some.inj h)

theorem IsPlain.bindsInsert (h : m.IsPlain) (hk : m.kind = .insert) : m.BindsInsert := by
  have hread := Sql.read?_insertChars h.table h.columns (by simp)
  have hbind := Sql.bindAll?_insert ((m.keyColumn, m.key) :: m.values)
  have hlength : (m.keyColumn :: m.columns).length = m.values.length + 1 := by simp [Mutation.columns]
  have hstatement : m.statement = .run (String.ofList (Statement.insertChars m.table (m.keyColumn :: m.columns)))
      (m.key :: m.values.map (·.2)) := by
    rw [statement, hk]
  rw [hlength] at hread
  rw [List.map_cons, List.map_cons] at hbind
  exact ⟨by rw [hstatement]; exact hread, by rw [hstatement]; rfl, by rw [← hlength]; exact hbind⟩

theorem IsPlain.bindsUpdate (h : m.IsPlain) (hk : m.kind = .update) (hv : m.values ≠ []) : m.BindsUpdate := by
  obtain ⟨hkey, hcolumns⟩ := List.forall_mem_cons.1 h.columns
  have hread := Sql.read?_updateChars h.table hkey hcolumns (by simpa [Mutation.columns] using hv)
  have hlength : m.columns.length = m.values.length := by simp [Mutation.columns]
  have hstatement : m.statement = .run (String.ofList (Statement.updateChars m.table m.keyColumn m.columns))
      (m.values.map (·.2) ++ [m.key]) := by
    rw [statement, hk]
  rw [hlength] at hread
  exact ⟨by rw [hstatement]; exact hread, by rw [hstatement]; rfl, Sql.bindAll?_update _ _, by simp [Sql.bound?]⟩

end Mutation

/-! ## Answers -/

namespace Reference

variable {m : Mutation}

theorem answer_run {text : String} {sql : Sql} (h : Sql.read? text = some sql) (values : List Value)
    (published tables : Tables) :
    server.answer (.run text values) ⟨published, some tables⟩ = match sql.run values tables with
      | .ok (affected, changed) => (.ok ⟨affected, none⟩, ⟨published, some changed⟩)
      | .error fault => (.error fault, ⟨published, some tables⟩) := by
  simp only [server, h, Option.elim_some, current, Option.getD_some]
  rfl

theorem answer_insert (hk : m.kind = .insert) (ht : Sql.isPlain m.table = true)
    (hc : ∀ c ∈ m.keyColumn :: m.columns, Sql.isPlain c = true) (published tables : Tables) :
    server.answer m.statement ⟨published, some tables⟩
      = match Sql.insertRow tables m.table ((m.keyColumn, m.key) :: m.values) with
        | .ok (affected, changed) => (.ok ⟨affected, none⟩, ⟨published, some changed⟩)
        | .error fault => (.error fault, ⟨published, some tables⟩) := by
  have hbinds := Mutation.IsPlain.bindsInsert ⟨ht, hc⟩ hk
  rw [Mutation.statement_eq_run hbinds.values, answer_run hbinds.text, Sql.run,
    if_pos (by simp [Mutation.columns]), hbinds.meets]

theorem answer_update (hk : m.kind = .update) (hv : m.values ≠ []) (ht : Sql.isPlain m.table = true)
    (hc : ∀ c ∈ m.keyColumn :: m.columns, Sql.isPlain c = true) (published tables : Tables) :
    server.answer m.statement ⟨published, some tables⟩
      = match Sql.updateRows tables m.table m.keyColumn m.key m.values with
        | .ok (affected, changed) => (.ok ⟨affected, none⟩, ⟨published, some changed⟩)
        | .error fault => (.error fault, ⟨published, some tables⟩) := by
  have hbinds := Mutation.IsPlain.bindsUpdate ⟨ht, hc⟩ hk hv
  rw [Mutation.statement_eq_run hbinds.values, answer_run hbinds.text, Sql.run, hbinds.meets, hbinds.meetsKey]

end Reference

end Assortment.Storage
