import Assortment.Proofs.Storage.Key
import Assortment.Proofs.Storage.Publish
import Assortment.Proofs.Storage.Reference
import Assortment.Proofs.Storage.Row
import Mathlib.Data.List.Nodup

/-!
# A server and a database agree

The same plans have the same results on the reference server and on the database in memory, and leave the same
rows, as long as each table has one key column that holds values of one type, no nulls and no JSON with numbers that
are not whole. One side finds a row by the text of its key and the other by the key, so texts must not collide; one
side reads the columns out of a text and their values out of a list, so both have to be in one order.
-/

namespace Assortment.Storage

/-- The key column of each table, with its type. -/
structure Schema where
  keyColumn : String → String
  keyType : String → ColumnType

namespace Schema

/-- Whether rows hold their keys. -/
def Keeps (schema : Schema) (rows : Rows) : Prop :=
  ∀ t key row, rows[(⟨t, key⟩ : Address)]? = some row → ∃ v : Value, row[schema.keyColumn t]? = some v
    ∧ v.IsKey (schema.keyType t) ∧ v.written = key

/-- Whether a mutation keeps to its table. -/
structure Allows (schema : Schema) (m : Mutation) : Prop where
  plain_table : Sql.isPlain m.table = true
  plain_columns : ∀ c ∈ m.keyColumn :: m.columns, Sql.isPlain c = true
  keyColumn_eq : m.keyColumn = schema.keyColumn m.table
  isKey : m.key.IsKey (schema.keyType m.table)
  distinct : (m.keyColumn :: m.columns).Nodup

end Schema

/-- Whether tables have the rows that are kept at their addresses. -/
structure Tables.Show (tables : Tables) (rows : Rows) : Prop where
  nodup : ∀ t, (tables t).Nodup
  mem_iff : ∀ t row, row ∈ tables t ↔ ∃ key, rows[(⟨t, key⟩ : Address)]? = some row

variable {schema : Schema} {m : Mutation} {ms : List Mutation} {rows : Rows} {tables : Tables} {row : Row}

/-! ## Keys -/

theorem Mutation.lastValue?_keyColumn (h : (m.keyColumn :: m.columns).Nodup) :
    Row.lastValue? m.keyColumn m.values = none := by
  cases hl : Row.lastValue? m.keyColumn m.values with
  | none => rfl
  | some v => exact absurd (List.mem_map_of_mem (Row.mem_of_lastValue? hl)) (List.nodup_cons.1 h).1

theorem Schema.Allows.row_keyColumn (ha : schema.Allows m) : m.row[m.keyColumn]? = some m.key := by
  simp [Mutation.row, Row.getElem?_ofList, Row.lastValue?, Mutation.lastValue?_keyColumn ha.distinct]

theorem Schema.Allows.setAll_keyColumn (ha : schema.Allows m) (row : Row) :
    (row.setAll m.values)[m.keyColumn]? = row[m.keyColumn]? := by
  simp [Row.getElem?_setAll, Mutation.lastValue?_keyColumn ha.distinct]

theorem Schema.Allows.isAt_setAll (ha : schema.Allows m) (row : Row) (key : Value) :
    (row.setAll m.values).isAt m.keyColumn key = row.isAt m.keyColumn key := by
  rw [Row.isAt, Row.isAt, ha.setAll_keyColumn]

namespace Schema.Keeps

theorem insert (hkeeps : schema.Keeps rows) (ha : schema.Allows m) (hrow : row[m.keyColumn]? = some m.key) :
    schema.Keeps (rows.insert m.address row) := by
  intro t key r hr
  rw [Rows.getElem?_insert] at hr
  split at hr
  · rename_i he
    cases he
    cases hr
    exact ⟨m.key, ha.keyColumn_eq ▸ hrow, ha.isKey, rfl⟩
  · exact hkeeps t key r hr

theorem key_eq (hkeeps : schema.Keeps rows) {t key key' : String} (h : rows[(⟨t, key⟩ : Address)]? = some row)
    (h' : rows[(⟨t, key'⟩ : Address)]? = some row) : key = key' := by
  obtain ⟨v, hv, _, rfl⟩ := hkeeps _ _ _ h
  obtain ⟨w, hw, _, rfl⟩ := hkeeps _ _ _ h'
  rw [Option.some.inj (hv.symm.trans hw)]

theorem isAt_iff (hkeeps : schema.Keeps rows) (ha : schema.Allows m) {key : String}
    (hrow : rows[(⟨m.table, key⟩ : Address)]? = some row) :
    row.isAt m.keyColumn m.key = true ↔ key = m.key.written := by
  obtain ⟨v, hv, hkey, rfl⟩ := hkeeps _ _ _ hrow
  rw [Row.isAt_iff ha.isKey.notNull, ha.keyColumn_eq, hv, Option.some_inj, hkey.written_inj ha.isKey]

end Schema.Keeps

/-- The row with the key of a mutation is the one at its address. -/
theorem Tables.Show.isAt_iff (hshow : tables.Show rows) (hkeeps : schema.Keeps rows) (ha : schema.Allows m)
    (hrow : row ∈ tables m.table) : row.isAt m.keyColumn m.key = true ↔ rows[m.address]? = some row := by
  obtain ⟨key, hkey⟩ := (hshow.mem_iff _ _).1 hrow
  rw [hkeeps.isAt_iff ha hkey]
  constructor
  · rintro rfl
    exact hkey
  · exact hkeeps.key_eq hkey

/-! ## Rows of a table -/

theorem Database.mem_rowsOf {db : Database} {t : String} :
    row ∈ db.rowsOf t ↔ ∃ key, db.rows[(⟨t, key⟩ : Address)]? = some row := by
  simp only [← Std.ExtTreeMap.mem_toList_iff_getElem?_eq_some, rowsOf, keyedRows, List.mem_map, List.mem_filter]
  constructor
  · rintro ⟨_, ⟨⟨⟨t', key⟩, r⟩, ⟨hr, ht⟩, rfl⟩, rfl⟩
    cases (beq_iff_eq.1 ht : t' = t)
    exact ⟨key, hr⟩
  · rintro ⟨key, hr⟩
    exact ⟨(key, row), ⟨(⟨t, key⟩, row), ⟨hr, by simp⟩, rfl⟩, rfl⟩

theorem Schema.Keeps.nodup_rowsOf {db : Database} (hkeeps : schema.Keeps db.rows) (t : String) :
    (db.rowsOf t).Nodup := by
  have hnodup : db.rows.toList.Nodup :=
    Std.ExtTreeMap.distinct_keys_toList.imp fun hne he =>
      hne (Std.LawfulEqCmp.compare_eq_iff_eq.2 (congrArg Prod.fst he))
  rw [Database.rowsOf, Database.keyedRows, List.map_map]
  refine (hnodup.filter _).map_on ?_
  rintro ⟨⟨t₁, key₁⟩, row⟩ h₁ ⟨⟨t₂, key₂⟩, _⟩ h₂ rfl
  obtain ⟨hr₁, ht₁⟩ := List.mem_filter.1 h₁
  obtain ⟨hr₂, ht₂⟩ := List.mem_filter.1 h₂
  rw [Std.ExtTreeMap.mem_toList_iff_getElem?_eq_some] at hr₁ hr₂
  cases (beq_iff_eq.1 ht₁ : t₁ = t)
  cases (beq_iff_eq.1 ht₂ : t₂ = t)
  rw [hkeeps.key_eq hr₁ hr₂]
  rfl

theorem Schema.Keeps.show_iff {db : Database} (hkeeps : schema.Keeps db.rows) :
    tables.Show db.rows ↔ ∀ t, (tables t).Perm (db.rowsOf t) := by
  constructor
  · intro hshow t
    rw [List.perm_ext_iff_of_nodup (hshow.nodup t) (hkeeps.nodup_rowsOf t)]
    intro row
    rw [hshow.mem_iff, Database.mem_rowsOf]
  · intro hperm
    refine ⟨fun t => (hperm t).nodup_iff.2 (hkeeps.nodup_rowsOf t), fun t row => ?_⟩
    rw [(hperm t).mem_iff, Database.mem_rowsOf]

/-! ## Single mutations -/

theorem Rows.getElem?_insert_table {a : Address} {t key : String} (h : t ≠ a.table) :
    (rows.insert a row)[(⟨t, key⟩ : Address)]? = rows[(⟨t, key⟩ : Address)]? := by
  rw [getElem?_insert, if_neg]
  rintro rfl
  exact h rfl

theorem Tables.Show.insert (hshow : tables.Show rows) (hnone : rows[m.address]? = none)
    (hfresh : row ∉ tables m.table) :
    Tables.Show (Function.update tables m.table (row :: tables m.table)) (rows.insert m.address row) := by
  constructor
  · intro t
    by_cases ht : t = m.table
    · subst ht
      simpa using ⟨hfresh, hshow.nodup _⟩
    · simpa [ht] using hshow.nodup t
  · intro t r
    by_cases ht : t = m.table
    · subst ht
      rw [Function.update_self, List.mem_cons, hshow.mem_iff]
      constructor
      · rintro (rfl | ⟨key, hkey⟩)
        · exact ⟨m.key.written, by simp [Mutation.address]⟩
        · refine ⟨key, ?_⟩
          rw [Rows.getElem?_insert, if_neg, hkey]
          intro he
          rw [← he, hnone] at hkey
          cases hkey
      · rintro ⟨key, hkey⟩
        rw [Rows.getElem?_insert] at hkey
        split at hkey
        · cases hkey
          exact .inl rfl
        · exact .inr ⟨key, hkey⟩
    · simp only [Function.update_of_ne ht, Rows.getElem?_insert_table (a := m.address) ht, hshow.mem_iff]

theorem Tables.Show.update (hshow : tables.Show rows) (hkeeps : schema.Keeps rows) (ha : schema.Allows m)
    (hrow : rows[m.address]? = some row) :
    Tables.Show (Function.update tables m.table ((tables m.table).map fun r =>
        if r.isAt m.keyColumn m.key then r.setAll m.values else r))
      (rows.insert m.address (row.setAll m.values)) := by
  -- One row has the key, before and after, and the others are not touched.
  have hat : ∀ r ∈ tables m.table, r.isAt m.keyColumn m.key = true → r = row := by
    intro r hr hisAt
    have hfound := (hshow.isAt_iff hkeeps ha hr).1 hisAt
    rw [hrow] at hfound
    exact (Option.some.inj hfound).symm
  have hkept : (row.setAll m.values).isAt m.keyColumn m.key = true := by
    rw [ha.isAt_setAll]
    exact (hkeeps.isAt_iff ha hrow).2 rfl
  constructor
  · intro t
    by_cases ht : t = m.table
    · subst ht
      rw [Function.update_self]
      refine List.Nodup.map_on (fun r hr r' hr' he => ?_) (hshow.nodup _)
      split at he <;> split at he
      · rename_i h h'
        rw [hat r hr h, hat r' hr' h']
      · rename_i h h'
        rw [hat r hr h] at he
        exact absurd (he ▸ hkept) h'
      · rename_i h h'
        rw [hat r' hr' h'] at he
        exact absurd (he ▸ hkept) h
      · exact he
    · simpa [ht] using hshow.nodup t
  · intro t r
    by_cases ht : t = m.table
    · subst ht
      rw [Function.update_self, List.mem_map]
      constructor
      · rintro ⟨r', hr', rfl⟩
        obtain ⟨key, hkey⟩ := (hshow.mem_iff _ _).1 hr'
        have hiff := hkeeps.isAt_iff ha hkey
        split
        · rename_i h
          rw [hat r' hr' h]
          exact ⟨m.key.written, by simp [Mutation.address]⟩
        · rename_i h
          refine ⟨key, ?_⟩
          rw [Rows.getElem?_insert, if_neg, hkey]
          intro he
          exact h (hiff.2 (Address.mk.inj he).2.symm)
      · rintro ⟨key, hkey⟩
        rw [Rows.getElem?_insert] at hkey
        split at hkey
        · cases hkey
          refine ⟨row, (hshow.mem_iff _ _).2 ⟨_, hrow⟩, if_pos ?_⟩
          rwa [ha.isAt_setAll] at hkept
        · rename_i hne
          refine ⟨r, (hshow.mem_iff _ _).2 ⟨_, hkey⟩, if_neg fun h => hne ?_⟩
          rw [Mutation.address, (hkeeps.isAt_iff ha hkey).1 h]
    · simp only [Function.update_of_ne ht, Rows.getElem?_insert_table (a := m.address) ht, hshow.mem_iff]

/-- Whether the server is told of the same as the database: of one error, or of rows that its open transaction
then shows. -/
inductive Schema.Alike (schema : Schema) (published : Tables) :
    Except StorageError Rows → Except StorageError Unit × Reference → Prop where
  | refused {e : StorageError} {tables : Tables} :
      schema.Alike published (.error e) (.error e, ⟨published, some tables⟩)
  | done {rows : Rows} {tables : Tables} : tables.Show rows → schema.Keeps rows →
      schema.Alike published (.ok rows) (.ok (), ⟨published, some tables⟩)

variable (published : Tables)

theorem Schema.Allows.execute_insert (ha : schema.Allows m) (hk : m.kind = .insert) (hshow : tables.Show rows)
    (hkeeps : schema.Keeps rows) :
    schema.Alike published (rows.change m) (Reference.server.execute m ⟨published, some tables⟩) := by
  have hanswer := Reference.answer_insert hk ha.plain_table ha.plain_columns published tables
  have hdistinct : (((m.keyColumn, m.key) :: m.values).map (·.1)).Nodup := ha.distinct
  rw [Sql.insertRow, if_neg (not_not.2 hdistinct), m.assign_eq_row] at hanswer
  cases hr : rows[m.address]? with
  | some row =>
      have hany : (tables m.table).any (·.isAt m.keyColumn m.key) = true :=
        List.any_eq_true.2 ⟨row, (hshow.mem_iff _ _).2 ⟨_, hr⟩, (hkeeps.isAt_iff ha hr).2 rfl⟩
      rw [if_pos hany] at hanswer
      rw [Rows.change_insert_taken hk hr, Server.execute, hk]
      simp only [hanswer]
      exact .refused
  | none =>
      have hany : ¬ (tables m.table).any (·.isAt m.keyColumn m.key) = true := by
        simp only [List.any_eq_true, not_exists, not_and]
        intro row hrow hisAt
        rw [(hshow.isAt_iff hkeeps ha hrow).1 hisAt] at hr
        cases hr
      have hfresh : m.row ∉ tables m.table := fun hrow => hany (List.any_eq_true.2
        ⟨m.row, hrow, (Row.isAt_iff ha.isKey.notNull).2 ha.row_keyColumn⟩)
      rw [if_neg hany] at hanswer
      rw [Rows.change_insert hk hr, Server.execute, hk]
      simp only [hanswer]
      exact .done (hshow.insert hr hfresh) (hkeeps.insert ha ha.row_keyColumn)

theorem Schema.Allows.execute_update (ha : schema.Allows m) (hk : m.kind = .update) (hshow : tables.Show rows)
    (hkeeps : schema.Keeps rows) :
    schema.Alike published (rows.change m) (Reference.server.execute m ⟨published, some tables⟩) := by
  by_cases hv : m.values = []
  · simp only [Rows.change, Server.execute, hk, hv, List.isEmpty_nil, if_true]
    exact .refused
  have hanswer := Reference.answer_update hk hv ha.plain_table ha.plain_columns published tables
  have hdistinct : (m.values.map (·.1)).Nodup := (List.nodup_cons.1 ha.distinct).2
  simp only [Sql.updateRows, if_neg (not_not.2 hdistinct), Row.assign_eq_setAll] at hanswer
  rw [Server.execute, hk]
  simp only [hanswer, List.isEmpty_iff, hv, if_false]
  cases hr : rows[m.address]? with
  | some row =>
      have hcount : (tables m.table).countP (·.isAt m.keyColumn m.key) ≠ 0 := fun hnone =>
        List.countP_eq_zero.1 hnone row ((hshow.mem_iff _ _).2 ⟨_, hr⟩) ((hkeeps.isAt_iff ha hr).2 rfl)
      have hkept : (row.setAll m.values)[m.keyColumn]? = some m.key :=
        (ha.setAll_keyColumn row).trans ((Row.isAt_iff ha.isKey.notNull).1 ((hkeeps.isAt_iff ha hr).2 rfl))
      rw [Rows.change_update hk hv hr, if_neg hcount]
      exact .done (hshow.update hkeeps ha hr) (hkeeps.insert ha hkept)
  | none =>
      have hcount : (tables m.table).countP (·.isAt m.keyColumn m.key) = 0 := by
        refine List.countP_eq_zero.2 fun row hrow hisAt => ?_
        rw [(hshow.isAt_iff hkeeps ha hrow).1 hisAt] at hr
        cases hr
      have hchange : rows.change m = .error (.noSuchRow m.table m.key.written) := by
        simp [Rows.change, hk, hv, hr]
      rw [hchange, if_pos hcount]
      exact .refused

theorem Schema.Allows.execute_alike (ha : schema.Allows m) (hshow : tables.Show rows)
    (hkeeps : schema.Keeps rows) :
    schema.Alike published (rows.change m) (Reference.server.execute m ⟨published, some tables⟩) := by
  cases hk : m.kind with
  | insert => exact ha.execute_insert published hk hshow hkeeps
  | update => exact ha.execute_update published hk hshow hkeeps

theorem Schema.Allows.executeAll_alike (hall : ∀ m ∈ ms, schema.Allows m) (hshow : tables.Show rows)
    (hkeeps : schema.Keeps rows) :
    schema.Alike published (rows.changeAll ms) (Reference.server.executeAll ms ⟨published, some tables⟩) := by
  induction ms generalizing rows tables with
  | nil => exact .done hshow hkeeps
  | cons m ms ih =>
      obtain ⟨ha, hall⟩ := List.forall_mem_cons.1 hall
      have hm := ha.execute_alike published hshow hkeeps
      rw [Rows.changeAll, Server.executeAll]
      revert hm
      generalize rows.change m = changed
      generalize Reference.server.execute m ⟨published, some tables⟩ = executed
      rintro (_ | ⟨hshow', hkeeps'⟩)
      · exact .refused
      · exact ih hall hshow' hkeeps'

/-! ## Plans -/

/-- A plan has one result on both sides, and what it leaves is again alike. -/
theorem Reference.apply_agrees (plan : Plan) {db : Database} (harmed : db.armed = false)
    (hkeeps : schema.Keeps db.rows) (hall : ∀ m ∈ plan.mutations, schema.Allows m)
    (hrows : ∀ t, (tables t).Perm (db.rowsOf t)) :
    (server.apply plan ⟨tables, none⟩).1 = (db.apply plan).1
      ∧ (server.apply plan ⟨tables, none⟩).2.working = none
      ∧ (∀ t, ((server.apply plan ⟨tables, none⟩).2.tables t).Perm ((db.apply plan).2.rowsOf t))
      ∧ schema.Keeps (db.apply plan).2.rows := by
  by_cases hp : plan.mutations = []
  · rw [Database.apply_of_nil hp, Server.apply, if_pos (by simp [Plan.isEmpty, hp])]
    exact ⟨rfl, rfl, hrows, hkeeps⟩
  have hbegin : server.answer .begin ⟨tables, none⟩ = (.ok ⟨0, none⟩, ⟨tables, some tables⟩) := rfl
  have halike := Schema.Allows.executeAll_alike tables hall (hkeeps.show_iff.2 hrows) hkeeps
  rw [Server.apply, if_neg (by simp [Plan.isEmpty, hp])]
  simp only [hbegin]
  revert halike
  generalize hchanged : db.rows.changeAll plan.mutations = changed
  generalize server.executeAll plan.mutations ⟨tables, some tables⟩ = executed
  rintro (_ | ⟨hshow', hkeeps'⟩)
  · rw [Database.apply_of_changeAll_error hp harmed hchanged]
    exact ⟨rfl, rfl, hrows, hkeeps⟩
  · rw [Database.apply_of_changeAll_ok hp harmed hchanged]
    exact ⟨rfl, rfl, hkeeps'.show_iff.1 hshow', hkeeps'⟩

/-- Items under text keys. -/
def Schema.items : Schema := ⟨fun _ => "sku", fun _ => .text⟩

def Mutation.stock (sku name : String) : Mutation :=
  ⟨.insert, "items", "sku", .text sku, [("name", .text name), ("count", .int (some 0))]⟩

def Mutation.rename (sku name : String) : Mutation :=
  ⟨.update, "items", "sku", .text sku, [("name", .text name)]⟩

theorem Schema.items_allows_stock (sku name : String) : Schema.items.Allows (.stock sku name) :=
  ⟨(by decide : Sql.isPlain "items" = true),
    (by decide : ∀ c ∈ ["sku", "name", "count"], Sql.isPlain c = true), rfl, ⟨rfl, rfl, rfl⟩,
    (by decide : ["sku", "name", "count"].Nodup)⟩

theorem Schema.items_allows_rename (sku name : String) : Schema.items.Allows (.rename sku name) :=
  ⟨(by decide : Sql.isPlain "items" = true), (by decide : ∀ c ∈ ["sku", "name"], Sql.isPlain c = true), rfl,
    ⟨rfl, rfl, rfl⟩, (by decide : ["sku", "name"].Nodup)⟩

/-- A database with one item. -/
def Database.shelf : Database where
  rows := (∅ : Rows).insert (Mutation.stock "A" "Lamp").address (Mutation.stock "A" "Lamp").row

/-- The item is renamed, one is added, and a third cannot be renamed. -/
theorem Reference.apply_agrees_shelf :
    (server.apply ⟨[.rename "A" "Lantern", .stock "B" "Desk"]⟩ ⟨Database.shelf.rowsOf, none⟩).1 = .ok ()
      ∧ (server.apply ⟨[.stock "B" "Desk", .rename "C" "Chair"]⟩ ⟨Database.shelf.rowsOf, none⟩).1
        = .error (.noSuchRow "items" "C") := by
  have hkeeps : Schema.items.Keeps Database.shelf.rows :=
    Schema.Keeps.insert (fun t key row h => by simp at h) (Schema.items_allows_stock "A" "Lamp")
      (Schema.items_allows_stock "A" "Lamp").row_keyColumn
  have hallows := Schema.items_allows_stock
  have hrenames := Schema.items_allows_rename
  have hdone := apply_agrees ⟨[.rename "A" "Lantern", .stock "B" "Desk"]⟩ rfl hkeeps
    (by simp [hallows, hrenames]) fun t => .refl (Database.shelf.rowsOf t)
  have hmissing := apply_agrees ⟨[.stock "B" "Desk", .rename "C" "Chair"]⟩ rfl hkeeps
    (by simp [hallows, hrenames]) fun t => .refl (Database.shelf.rowsOf t)
  exact ⟨hdone.1.trans (by decide +kernel), hmissing.1.trans (by decide +kernel)⟩

end Assortment.Storage
