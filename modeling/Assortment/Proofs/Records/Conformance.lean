import Assortment.Proofs.Records.Revision
import Assortment.Proofs.Storage.Key
import Assortment.Storage.Statement
import Mathlib.Data.List.Flatten
import Mathlib.Tactic.MkIffOfInductiveProp

/-!
# Mutations within the layout

A database server would refuse a row that is not of the layout: a column that the table does not have or that is
written twice, a value of another type, a null where there must be none, a price over nothing, a status that
nobody knows. No mutation that is made for a product or an outbox entry gives it reason to, whatever the product.
-/

namespace Assortment.Records
open Assortment.Goods Assortment.Storage Assortment.Text Assortment.Time

/-! ## What a table takes -/

/-- A condition on the values of a column. -/
structure Check where
  column : String
  holds : Value → Bool

namespace Layout

/-- The denominator of a price is positive, and a product has one of four statuses. -/
def productChecks : List Check := [
  ⟨priceDenominator, fun v => v.int?.any (0 < ·)⟩,
  ⟨status, fun v => v.text?.any ["draft", "active", "inactive", "archived"].contains⟩]

/-- An outbox entry has one of three statuses. -/
def outboxChecks : List Check := [
  ⟨status, fun v => v.text?.any ["pending", "processed", "failed"].contains⟩]

end Layout

/-- Whether a column can hold a value. -/
@[mk_iff]
structure Column.Holds (c : Column) (v : Value) : Prop where
  type_eq : v.type = c.type
  notNull : c.nullable = false → v.isNull = false

/-- Whether a table takes a value for a column: the column is one of the table besides its key, it can hold the
value, and no check is against it. -/
@[mk_iff]
structure Table.Takes (t : Table) (checks : List Check) (v : String × Value) : Prop where
  column : ∃ c ∈ t.others, c.name = v.1 ∧ c.Holds v.2
  checks : ∀ check ∈ checks, check.column = v.1 → check.holds v.2 = true

attribute [simp] Column.holds_iff Table.takes_iff

/-- Whether a table takes a mutation. No column is written twice, and the key column not besides the key; an
insert has to say something of every column. -/
structure Table.Admits (t : Table) (checks : List Check) (m : Mutation) : Prop where
  table : m.table = t.name
  keyColumn : m.keyColumn = t.key.name
  key : m.key.IsKey t.key.type
  nodup : (m.keyColumn :: m.columns).Nodup
  values : ∀ v ∈ m.values, t.Takes checks v
  complete : m.kind = .insert → ∀ c ∈ t.others, c.name ∈ m.columns

/-- Whether one of the two tables takes a mutation. -/
def Conforms (m : Mutation) : Prop :=
  Layout.productTable.Admits Layout.productChecks m ∨ Layout.outboxTable.Admits Layout.outboxChecks m

/-! ## Mutations of products -/

variable {p : Product} {f : Field} {m : Mutation}

theorem isStatus_text (s : Status) : ["draft", "active", "inactive", "archived"].contains s.text = true := by
  cases s <;> rfl

theorem denominator_pos {price : Money} {n d : Int64} (h : price.storable? = some (n, d)) : 0 < d := by
  rw [Int64.lt_iff_toInt_lt, (Money.storable?_eq_some.1 h).2]
  exact Int.natCast_pos.2 price.amount.den_pos

/-- What is written for a field of a product is taken, whatever the product. -/
theorem takes_fieldValues {values : List (String × Value)} (h : fieldValues p f = .ok values) :
    ∀ v ∈ values, Layout.productTable.Takes Layout.productChecks v := by
  cases f with
  | basePrice =>
      obtain ⟨⟨n, d⟩, hs, rfl⟩ := map_eq_ok h
      have hd : 0 < d := denominator_pos (require_eq_ok.1 hs)
      simp +decide [Layout.productTable, Layout.productChecks, Value.type, Value.isNull, Value.int?, hd]
  | status =>
      have hs := isStatus_text p.status
      cases h
      split <;>
        simp +decide [Layout.productTable, Layout.productChecks, Value.type, Value.isNull, Value.text?, hs,
          -List.contains_eq_mem]
  | _ =>
      cases h
      simp +decide [discountValues, Layout.productTable, Layout.productChecks, Value.type, Value.isNull]

theorem takes_values {r : ProductRow} (h : ProductRow.ofProduct p = .ok r) :
    ∀ v ∈ r.values, Layout.productTable.Takes Layout.productChecks v := by
  obtain ⟨n, d, hs, rfl⟩ := ProductRow.ofProduct_eq_ok h
  have hd : 0 < d := denominator_pos hs
  have hstatus := isStatus_text p.status
  simp +decide [ProductRow.values, Layout.productTable, Layout.productChecks, Value.type, Value.isNull, Value.int?,
    Value.text?, hd, hstatus, -List.contains_eq_mem]

theorem admits_insertion (h : insertion p = .ok m) :
    Layout.productTable.Admits Layout.productChecks m := by
  obtain ⟨r, hr, rfl⟩ := map_eq_ok h
  exact {
    table := rfl
    keyColumn := rfl
    key := ⟨rfl, rfl, rfl⟩
    nodup := by simp +decide [Mutation.columns, ProductRow.values]
    values := takes_values hr
    complete := fun _ => by simp +decide [Mutation.columns, ProductRow.values, Layout.productTable] }

theorem admits_archival (p : Product) : Layout.productTable.Admits Layout.productChecks (archival p) where
  table := rfl
  keyColumn := rfl
  key := ⟨rfl, rfl, rfl⟩
  nodup := by simp +decide [Mutation.columns, archival]
  values := by
    have hstatus := isStatus_text p.status
    simp +decide [archival, Layout.productTable, Layout.productChecks, Value.type, Value.isNull, Value.text?, hstatus,
      -List.contains_eq_mem]
  complete := nofun

/-- The columns that are written for a field of a product that is archived or not. -/
def writtenColumns (isArchived : Bool) (f : Field) : List String :=
  fieldColumns f ++ if isArchived && f == .status then [Layout.archivedAt] else []

theorem columns_fieldValues {values : List (String × Value)} (h : fieldValues p f = .ok values) :
    values.map (·.1) = writtenColumns p.isArchived f := by
  cases f with
  | basePrice =>
      obtain ⟨⟨n, d⟩, _, rfl⟩ := map_eq_ok h
      simp [writtenColumns, fieldColumns]
  | status =>
      cases h
      cases p.isArchived <;> simp [writtenColumns, fieldColumns]
  | _ =>
      cases h
      simp [discountValues, writtenColumns, fieldColumns]

theorem columns_of_mapM {fs : List Field} {written : List (List (String × Value))}
    (h : fs.mapM (fieldValues p) = .ok written) :
    written.flatten.map (·.1) = fs.flatMap (writtenColumns p.isArchived) := by
  induction fs generalizing written with
  | nil =>
      cases h
      rfl
  | cons f fs ih =>
      obtain ⟨values, written, hf, hfs, rfl⟩ := mapM_cons_eq_ok h
      rw [List.flatten_cons, List.map_append, columns_fieldValues hf, ih hfs, List.flatMap_cons]

/-- The columns of all fields, the time of the last change and the key are different columns. -/
theorem nodup_writtenColumns (isArchived : Bool) :
    (Layout.productId :: (Field.all.flatMap (writtenColumns isArchived) ++ [Layout.updatedAt])).Nodup := by
  cases isArchived <;> decide

theorem admits_revision (h : revision p = .ok (some m)) :
    Layout.productTable.Admits Layout.productChecks m := by
  have hmem := fun v => mem_of_revision (v := v) h
  obtain ⟨written, hw, rfl⟩ := revision_eq_ok h
  exact {
    table := rfl
    keyColumn := rfl
    key := ⟨rfl, rfl, rfl⟩
    nodup := by
      -- The dirty fields are some of all fields, in the same order.
      have hsub : p.dirty.toList.Sublist Field.all := List.filter_sublist
      rw [Mutation.columns, List.map_append, columns_of_mapM hw]
      exact (nodup_writtenColumns p.isArchived).sublist (((hsub.flatMap _).append_right _).cons_cons _)
    values := by
      intro v hv
      rcases hmem v hv with rfl | ⟨f, values, _, hf, hv⟩
      · simp +decide [Layout.productTable, Layout.productChecks, Value.type, Value.isNull]
      · exact takes_fieldValues hf v hv
    complete := nofun }

/-! ## Mutations of outbox entries -/

theorem isStatus_entry (s : OutboxStatus) : ["pending", "processed", "failed"].contains s.text = true := by
  cases s <;> rfl

theorem admits_entry (o : OutboxEntry) : Layout.outboxTable.Admits Layout.outboxChecks o.insertion where
  table := rfl
  keyColumn := rfl
  key := ⟨rfl, rfl, rfl⟩
  nodup := by simp +decide [Mutation.columns, OutboxEntry.insertion, OutboxEntry.values]
  values := by
    have hstatus := isStatus_entry o.status
    simp +decide [OutboxEntry.insertion, OutboxEntry.values, Layout.outboxTable, Layout.outboxChecks, Value.type,
      Value.isNull, Value.text?, hstatus, -List.contains_eq_mem]
  complete := fun _ => by
    simp +decide [Mutation.columns, OutboxEntry.insertion, OutboxEntry.values, Layout.outboxTable]

theorem admits_noteDelivery (id : Uuid) (t : Instant) :
    Layout.outboxTable.Admits Layout.outboxChecks (OutboxEntry.noteDelivery id t) where
  table := rfl
  keyColumn := rfl
  key := ⟨rfl, rfl, rfl⟩
  nodup := by simp +decide [Mutation.columns, OutboxEntry.noteDelivery]
  values := by
    simp +decide [OutboxEntry.noteDelivery, Layout.outboxTable, Layout.outboxChecks, Value.type, Value.isNull]
  complete := nofun

theorem admits_noteFailure (id : Uuid) :
    Layout.outboxTable.Admits Layout.outboxChecks (OutboxEntry.noteFailure id) where
  table := rfl
  keyColumn := rfl
  key := ⟨rfl, rfl, rfl⟩
  nodup := by simp +decide [Mutation.columns, OutboxEntry.noteFailure]
  values := by
    simp +decide [OutboxEntry.noteFailure, Layout.outboxTable, Layout.outboxChecks, Value.type, Value.isNull]
  complete := nofun

end Assortment.Records
