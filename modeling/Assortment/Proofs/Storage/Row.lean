import Assortment.Storage.Mutation

/-!
# Columns of a row

What a list of columns makes of a row depends on nothing but the last value of each name. So setting one column after
the other comes to the same as assigning to each the last value that the list has for it, which is what the references
of a commit do. A column is read as a type exactly when it holds a value of the type.
-/

namespace Assortment.Storage
open Assortment.Time

/-! ## Setting columns -/

namespace Row

theorem mem_of_lastValue? {column : String} {v : Value} {values : List (String × Value)}
    (h : lastValue? column values = some v) : (column, v) ∈ values := by
  induction values with
  | nil => cases h
  | cons w ws ih =>
      rw [lastValue?] at h
      cases hw : lastValue? column ws with
      | some u =>
          rw [hw] at h
          cases h
          exact List.mem_cons_of_mem _ (ih hw)
      | none =>
          rw [hw, Option.none_or] at h
          split at h
          · rename_i he
            cases h
            exact List.mem_cons.2 (.inl (Prod.ext he.symm rfl))
          · cases h

theorem ne_of_lastValue?_eq_none {column : String} {values : List (String × Value)}
    (h : lastValue? column values = none) : ∀ v ∈ values, v.1 ≠ column := by
  induction values with
  | nil => intro v hv; cases hv
  | cons w ws ih =>
      rw [lastValue?, Option.or_eq_none_iff] at h
      intro v hv
      rcases List.mem_cons.1 hv with rfl | hv
      · intro he
        simp [he] at h
      · exact ih h.1 v hv

theorem lastValue?_cons_congr {column name : String} {v w : Value} {vs ws : List (String × Value)}
    (hv : name = column → v = w) (ht : lastValue? column vs = lastValue? column ws) :
    lastValue? column ((name, v) :: vs) = lastValue? column ((name, w) :: ws) := by
  rw [lastValue?, lastValue?, ht]
  by_cases hc : name = column
  · rw [hv hc]
  · simp [hc]

/-- Setting columns leads to a given row when each is set as that row has it, and the columns that are
not set have nothing to make up for. -/
theorem setAll_eq {row target : Row} {values : List (String × Value)}
    (hset : ∀ v ∈ values, target[v.1]? = some v.2)
    (hkeep : ∀ column, (∀ v ∈ values, v.1 ≠ column) → row[column]? = target[column]?) :
    row.setAll values = target := by
  apply Std.ExtTreeMap.ext_getElem?
  intro column
  rw [getElem?_setAll]
  cases hl : lastValue? column values with
  | some v => exact (hset _ (mem_of_lastValue? hl)).symm
  | none => exact hkeep column (ne_of_lastValue?_eq_none hl)

/-! ## Assigning columns -/

/-- The row in which each column that is named has the last value that is given for it. -/
def assign (row : Row) (values : List (String × Value)) : Row :=
  (values.map (·.1)).foldl (fun r column => r.alter column (lastValue? column values).or) row

theorem getElem?_foldl_alter (given : String → Option Value) (columns : List String) (row : Row) (column : String) :
    (columns.foldl (fun r c => r.alter c (given c).or) row)[column]?
      = if column ∈ columns then (given column).or row[column]? else row[column]? := by
  induction columns generalizing row with
  | nil => rfl
  | cons c columns ih =>
      rw [List.foldl_cons, ih, Std.ExtTreeMap.getElem?_alter]
      simp only [Std.LawfulEqCmp.compare_eq_iff_eq, List.mem_cons]
      by_cases hc : c = column
      · -- a column that is named again gets the same value again
        subst hc
        cases given c <;> simp
      · simp [hc, Ne.symm hc]

theorem getElem?_assign (row : Row) (values : List (String × Value)) (column : String) :
    (row.assign values)[column]? = (lastValue? column values).or row[column]? := by
  rw [assign, getElem?_foldl_alter (lastValue? · values)]
  split
  · rfl
  · rename_i hcolumn
    cases hl : lastValue? column values with
    | none => rfl
    | some v => exact absurd (List.mem_map_of_mem (mem_of_lastValue? hl)) hcolumn

theorem assign_eq_setAll (row : Row) (values : List (String × Value)) : row.assign values = row.setAll values := by
  apply Std.ExtTreeMap.ext_getElem?
  intro column
  rw [getElem?_assign, getElem?_setAll]

end Row

/-! ## Reading columns -/

theorem Value.text?_eq_some {v : Value} {s : String} : v.text? = some s ↔ v = .text (some s) := by
  cases v <;> simp [text?]

theorem Value.int?_eq_some {v : Value} {n : Int64} : v.int? = some n ↔ v = .int (some n) := by
  cases v <;> simp [int?]

theorem Value.timestamp?_eq_some {v : Value} {t : Instant} : v.timestamp? = some t ↔ v = .timestamp (some t) := by
  cases v <;> simp [timestamp?]

namespace Row

variable {row : Row} {column : String}

theorem text?_eq_some {s : String} : row.text? column = some s ↔ row[column]? = some (.text (some s)) := by
  simp [text?, Option.bind_eq_some_iff, Value.text?_eq_some]

theorem int?_eq_some {n : Int64} : row.int? column = some n ↔ row[column]? = some (.int (some n)) := by
  simp [int?, Option.bind_eq_some_iff, Value.int?_eq_some]

theorem timestamp?_eq_some {t : Instant} :
    row.timestamp? column = some t ↔ row[column]? = some (.timestamp (some t)) := by
  simp [timestamp?, Option.bind_eq_some_iff, Value.timestamp?_eq_some]

end Row

/-! ## Columns of a mutation -/

theorem Mutation.writes_iff {m : Mutation} {column : String} :
    m.writes column = true ↔ ∃ v ∈ m.values, v.1 = column := by
  simp [writes, value?]

end Assortment.Storage
