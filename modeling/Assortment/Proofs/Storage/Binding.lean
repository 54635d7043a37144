import Assortment.Proofs.Storage.Reference
import Assortment.Proofs.Storage.Transaction

/-!
# Placeholders and their values

The text of a mutation is made of names only, and its values are bound in the order of the placeholders. So mutations
that differ in nothing but values are sent with one text, and each placeholder gets the value of its own column, a null
of its type included.
-/

namespace Assortment.Storage

/-! ## Texts without values -/

/-- Whether mutations differ in nothing but the values of their keys and columns. -/
structure Mutation.SameShape (m m' : Mutation) : Prop where
  kind : m.kind = m'.kind
  table : m.table = m'.table
  keyColumn : m.keyColumn = m'.keyColumn
  columns : m.columns = m'.columns

namespace Server

variable {σ : Type}

/-- The statements that are sent over the execution of a mutation. -/
def sent (server : Server σ) (m : Mutation) (s : σ) : List Statement :=
  (server.noting.execute m (s, [])).2.2.map (·.1)

theorem sent_of_isVoid (server : Server σ) {m : Mutation} (s : σ) (h : m.IsVoid) : server.sent m s = [] := by
  simp [sent, execute_of_isVoid _ _ h]

theorem sent_of_not_isVoid (server : Server σ) {m : Mutation} (s : σ) (h : ¬ m.IsVoid) :
    server.sent m s = [m.statement] := by
  simp [sent, execute_of_not_isVoid _ _ h, noting_answer]

end Server

namespace Mutation.SameShape

variable {m m' : Mutation} {σ : Type}

theorem text_eq (h : m.SameShape m') : m.statement.text = m'.statement.text := by
  unfold statement
  rw [h.kind, h.table, h.keyColumn, h.columns]
  cases m'.kind <;> rfl

theorem isVoid_iff (h : m.SameShape m') : m.IsVoid ↔ m'.IsVoid := by
  have hcolumns : ∀ m : Mutation, m.values = [] ↔ m.columns = [] := fun m => List.map_eq_nil_iff.symm
  rw [IsVoid, IsVoid, hcolumns, hcolumns, h.kind, h.columns]

theorem texts_eq (h : m.SameShape m') (server : Server σ) (s s' : σ) :
    (server.sent m s).map Statement.text = (server.sent m' s').map Statement.text := by
  by_cases hv : m.IsVoid
  · rw [server.sent_of_isVoid s hv, server.sent_of_isVoid s' (h.isVoid_iff.1 hv)]
  · rw [server.sent_of_not_isVoid s hv, server.sent_of_not_isVoid s' (mt h.isVoid_iff.2 hv)]
    simp [h.text_eq]

end Mutation.SameShape

/-! ## Values in their places -/

theorem Value.eq_null_of_isNull {v : Value} (h : v.isNull = true) : v = null v.type := by
  cases v <;> simp_all [isNull, type, null]

/-- Each placeholder of a plain text gets the value of its own column, and a null gets there as one of its type. What is
sent does not depend on the values. -/
theorem placeholders_meet_columns :
    (∀ m : Mutation, m.IsPlain →
      (m.kind = .insert → m.BindsInsert) ∧ (m.kind = .update → m.values ≠ [] → m.BindsUpdate)
        ∧ (¬ m.IsVoid → ∀ {σ : Type} (server : Server σ) (s : σ), server.sent m s = [m.statement]))
    ∧ (∀ v : Value, v.isNull = true → v = .null v.type)
    ∧ ∀ m m' : Mutation, m.SameShape m' → m.statement.text = m'.statement.text
      ∧ ∀ {σ : Type} (server : Server σ) (s s' : σ),
        (server.sent m s).map Statement.text = (server.sent m' s').map Statement.text := by
  refine ⟨fun m hplain => ⟨hplain.bindsInsert, hplain.bindsUpdate, ?_⟩, fun _ => Value.eq_null_of_isNull,
    fun m m' hshape => ⟨hshape.text_eq, hshape.texts_eq⟩⟩
  intro hv σ server s
  exact server.sent_of_not_isVoid s hv

/-- The name of an item and a note on it. -/
def Mutation.annotate (sku : String) (name note : Option String) : Mutation :=
  ⟨.update, "items", "sku", .text sku, [("name", .text name), ("note", .text note)]⟩

theorem Mutation.isPlain_annotate (sku : String) (name note : Option String) : (annotate sku name note).IsPlain :=
  ⟨(by decide : Sql.isPlain "items" = true), (by decide : ∀ c ∈ ["sku", "name", "note"], Sql.isPlain c = true)⟩

/-- A name that reads like a statement is sent with the text that every name is sent with. -/
theorem placeholders_meet_columns_quoted :
    (Mutation.annotate "A" (some "'; DROP TABLE items; --") none).BindsUpdate
      ∧ (Reference.server.sent (.annotate "A" (some "'; DROP TABLE items; --") none) ⟨fun _ => [], none⟩)
        = [.run "UPDATE items SET name = $1, note = $2 WHERE sku = $3"
            [.text (some "'; DROP TABLE items; --"), .text none, .text (some "A")]]
      ∧ (Reference.server.sent (.annotate "B" none (some "Lamp")) ⟨fun _ => [], none⟩).map Statement.text
        = ["UPDATE items SET name = $1, note = $2 WHERE sku = $3"]
      ∧ Value.text none = .null .text := by
  obtain ⟨hplain, hnull, hshape⟩ := placeholders_meet_columns
  obtain ⟨-, hbinds, hsent⟩ := hplain (.annotate "A" (some "'; DROP TABLE items; --") none)
    (Mutation.isPlain_annotate _ _ _)
  have htext : (Mutation.annotate "A" (some "'; DROP TABLE items; --") none).statement.text
      = "UPDATE items SET name = $1, note = $2 WHERE sku = $3" := by decide +kernel
  have hstatement := hsent (fun h => by cases h.2) Reference.server ⟨fun _ => [], none⟩
  have htexts := (hshape (.annotate "B" none (some "Lamp")) (.annotate "A" (some "'; DROP TABLE items; --") none)
    ⟨rfl, rfl, rfl, rfl⟩).2 Reference.server ⟨fun _ => [], none⟩ ⟨fun _ => [], none⟩
  refine ⟨hbinds rfl (by simp [Mutation.annotate]), hstatement.trans (by rw [← htext]; rfl),
    htexts.trans (by rw [hstatement, ← htext]; rfl), hnull (.text none) rfl⟩

end Assortment.Storage
