import Assortment.Proofs.Storage.Row
import Assortment.Storage.Database

/-!
# Commits by copy

The reference for a commit carries the mutations out on a private copy of the rows and publishes the
copy only when none of them fails, and assigns to each column its last value. The database writes in place, one
column after the other, and keeps notes instead; both give the same result and leave the same database.
-/

namespace Assortment.Storage

theorem Mutation.assign_eq_row (m : Mutation) : Row.assign ∅ ((m.keyColumn, m.key) :: m.values) = m.row :=
  Row.assign_eq_setAll ..

namespace Rows

/-! ## Single rows -/

theorem getElem?_insert (rows : Rows) (a b : Address) (row : Row) :
    (rows.insert a row)[b]? = if a = b then some row else rows[b]? := by
  rw [Std.ExtTreeMap.getElem?_insert]
  simp only [Std.LawfulEqCmp.compare_eq_iff_eq]

theorem insert_insert (rows : Rows) (a : Address) (r r' : Row) :
    (rows.insert a r).insert a r' = rows.insert a r' := by
  apply Std.ExtTreeMap.ext_getElem?
  intro b
  rw [getElem?_insert, getElem?_insert, getElem?_insert]
  split <;> rfl

/-! ## Mutations on a copy -/

/-- What one mutation makes of a copy of the rows. -/
def change (rows : Rows) (m : Mutation) : Except StorageError Rows :=
  match m.kind with
  | .insert =>
      if rows[m.address]?.isSome then .error (.keyTaken m.table m.key.written)
      else .ok (rows.insert m.address (Row.assign ∅ ((m.keyColumn, m.key) :: m.values)))
  | .update =>
      if m.values = [] then .error (.nothingToWrite m.table m.key.written)
      else match rows[m.address]? with
        | none => .error (.noSuchRow m.table m.key.written)
        | some row => .ok (rows.insert m.address (row.assign m.values))

/-- What mutations make of a copy of the rows, one after the other up to the first that fails. -/
def changeAll (rows : Rows) : List Mutation → Except StorageError Rows
  | [] => .ok rows
  | m :: ms =>
      match rows.change m with
      | .ok changed => changed.changeAll ms
      | .error e => .error e

theorem changeAll_cons_eq_ok {rows rows' : Rows} {m : Mutation} {ms : List Mutation}
    (h : rows.changeAll (m :: ms) = .ok rows') :
    ∃ changed, rows.change m = .ok changed ∧ changed.changeAll ms = .ok rows' := by
  rw [changeAll] at h
  cases hm : rows.change m with
  | error e => rw [hm] at h; cases h
  | ok changed => rw [hm] at h; exact ⟨changed, rfl, h⟩

theorem changeAll_pair {rows changed copy : Rows} {m m' : Mutation} (h : rows.change m = .ok changed)
    (h' : changed.change m' = .ok copy) : rows.changeAll [m, m'] = .ok copy := by
  simp only [changeAll, h, h']

theorem change_insert {rows : Rows} {m : Mutation} (hk : m.kind = .insert)
    (h : rows[m.address]? = none) : rows.change m = .ok (rows.insert m.address m.row) := by
  simp [change, hk, h, m.assign_eq_row]

theorem change_insert_taken {rows : Rows} {m : Mutation} {row : Row} (hk : m.kind = .insert)
    (h : rows[m.address]? = some row) :
    rows.change m = .error (.keyTaken m.table m.key.written) := by
  simp [change, hk, h]

theorem change_update {rows : Rows} {m : Mutation} {row : Row} (hk : m.kind = .update)
    (hv : m.values ≠ []) (h : rows[m.address]? = some row) :
    rows.change m = .ok (rows.insert m.address (row.setAll m.values)) := by
  simp [change, hk, hv, h, row.assign_eq_setAll]

theorem change_update_missing {rows : Rows} {m : Mutation} (hk : m.kind = .update) (hv : m.values ≠ [])
    (h : rows[m.address]? = none) : rows.change m = .error (.noSuchRow m.table m.key.written) := by
  simp [change, hk, hv, h]

theorem change_insert_eq_ok {rows rows' : Rows} {m : Mutation} (hk : m.kind = .insert)
    (h : rows.change m = .ok rows') :
    rows[m.address]? = none ∧ rows' = rows.insert m.address m.row := by
  simp only [change, hk] at h
  split at h
  · cases h
  · rename_i hr
    cases h
    exact ⟨by simpa using hr, by rw [m.assign_eq_row]⟩

theorem change_update_eq_ok {rows rows' : Rows} {m : Mutation} (hk : m.kind = .update)
    (h : rows.change m = .ok rows') :
    ∃ row, rows[m.address]? = some row ∧ rows' = rows.insert m.address (row.setAll m.values) := by
  simp only [change, hk] at h
  split at h
  · cases h
  · cases hr : rows[m.address]? with
    | none => rw [hr] at h; cases h
    | some row =>
        rw [hr] at h
        cases h
        exact ⟨row, rfl, by rw [row.assign_eq_setAll]⟩

theorem getElem?_change {rows rows' : Rows} {m : Mutation} {a : Address} (h : rows.change m = .ok rows')
    (ha : m.address ≠ a) : rows'[a]? = rows[a]? := by
  cases hk : m.kind with
  | insert =>
      obtain ⟨_, rfl⟩ := change_insert_eq_ok hk h
      rw [getElem?_insert, if_neg ha]
  | update =>
      obtain ⟨row, _, rfl⟩ := change_update_eq_ok hk h
      rw [getElem?_insert, if_neg ha]

/-- Mutations keep what each of them keeps. -/
theorem changeAll_keeps {P : Rows → Prop} {rows rows' : Rows} {ms : List Mutation}
    (hstep : ∀ m ∈ ms, ∀ before after, before.change m = .ok after → P before → P after)
    (h : rows.changeAll ms = .ok rows') (hrows : P rows) : P rows' := by
  induction ms generalizing rows with
  | nil =>
      cases h
      exact hrows
  | cons m ms ih =>
      obtain ⟨changed, hm, h⟩ := changeAll_cons_eq_ok h
      exact ih (fun m' hm' => hstep m' (List.mem_cons_of_mem m hm')) h
        (hstep m List.mem_cons_self rows changed hm hrows)

/-! ## Writing in place -/

/-- Writing in place makes the same of the rows as changing a copy, and notes the row that was there. -/
theorem write_eq (rows : Rows) (m : Mutation) :
    rows.write m = (rows.change m).map fun written => (written, ⟨m.address, rows[m.address]?⟩) := by
  unfold write change
  cases hk : m.kind with
  | insert =>
      cases hr : rows[m.address]? with
      | none => simp [Except.map, m.assign_eq_row]
      | some row => simp [Except.map, Mutation.address]
  | update =>
      simp only [List.isEmpty_iff]
      split
      · rfl
      · cases hr : rows[m.address]? with
        | none => rfl
        | some row => simp [Except.map, row.assign_eq_setAll]

theorem write_of_change {rows changed : Rows} {m : Mutation} (h : rows.change m = .ok changed) :
    rows.write m = .ok (changed, ⟨m.address, rows[m.address]?⟩) := by
  rw [write_eq, h]; rfl

/-- The notes of a commit that is under way put back the rows with which it started, whatever prefix of
its mutations they were taken of. -/
theorem writeAll_eq {rows start : Rows} {log : List Displaced} (ms : List Mutation)
    (h : rows.restoreAll log = start) :
    rows.writeAll log ms = match rows.changeAll ms with
      | .ok copy => (.ok (), copy)
      | .error e => (.error e, start) := by
  induction ms generalizing rows log with
  | nil => rfl
  | cons m ms ih =>
      unfold writeAll changeAll
      cases hc : rows.change m with
      | error e => rw [write_eq, hc]; simp [Except.map, h]
      | ok changed =>
          have hw := write_of_change hc
          -- The newest note goes first and undoes `m`, which leaves the notes of the mutations before it.
          have hlog : changed.restoreAll (⟨m.address, rows[m.address]?⟩ :: log) = start := by
            rw [← h, restoreAll, List.foldl_cons, restore_write hw]; rfl
          rw [hw]
          exact ih hlog

theorem writeAll_nil (rows : Rows) (ms : List Mutation) :
    rows.writeAll [] ms = match rows.changeAll ms with
      | .ok copy => (.ok (), copy)
      | .error e => (.error e, rows) :=
  writeAll_eq ms rfl

end Rows

namespace Database

/-! ## Commits -/

/-- Commits a plan by copy. -/
def publish (db : Database) (plan : Plan) : Except StorageError Unit × Database :=
  if plan.mutations = [] then (.ok (), db)
  else
    let begun := { db with opened := db.opened + 1 }
    if db.armed then (.error injectedFailure, { begun with armed := false })
    else match db.rows.changeAll plan.mutations with
      | .ok copy => (.ok (), { begun with rows := copy })
      | .error e => (.error e, begun)

variable {db : Database} {plan : Plan}

theorem apply_of_nil (h : plan.mutations = []) : db.apply plan = (.ok (), db) := by
  simp [apply, Plan.isEmpty, h]

theorem apply_of_armed (h : plan.mutations ≠ []) (ha : db.armed = true) :
    db.apply plan = (.error injectedFailure, { db with opened := db.opened + 1, armed := false }) := by
  simp [apply, Plan.isEmpty, h, ha]

theorem apply_of_changeAll_ok {copy : Rows} (h : plan.mutations ≠ []) (ha : db.armed = false)
    (hc : db.rows.changeAll plan.mutations = .ok copy) :
    db.apply plan = (.ok (), { db with rows := copy, opened := db.opened + 1 }) := by
  simp [apply, Plan.isEmpty, h, ha, Rows.writeAll_nil, hc]

theorem apply_of_changeAll_error {e : StorageError} (h : plan.mutations ≠ []) (ha : db.armed = false)
    (hc : db.rows.changeAll plan.mutations = .error e) :
    db.apply plan = (.error e, { db with opened := db.opened + 1 }) := by
  simp [apply, Plan.isEmpty, h, ha, Rows.writeAll_nil, hc]

/-- A commit with something to write either fails and leaves the rows, or makes of them what its mutations
make of a copy. -/
theorem apply_cases (h : plan.mutations ≠ []) :
    (∃ e, (db.apply plan).1 = .error e ∧ (db.apply plan).2.rows = db.rows)
      ∨ ((db.apply plan).1 = .ok () ∧ db.rows.changeAll plan.mutations = .ok (db.apply plan).2.rows) := by
  cases ha : db.armed with
  | true =>
      rw [apply_of_armed h ha]
      exact .inl ⟨_, rfl, rfl⟩
  | false =>
      cases hc : db.rows.changeAll plan.mutations with
      | ok copy =>
          rw [apply_of_changeAll_ok h ha hc]
          exact .inr ⟨rfl, rfl⟩
      | error e =>
          rw [apply_of_changeAll_error h ha hc]
          exact .inl ⟨_, rfl, rfl⟩

theorem rows_apply (db : Database) (plan : Plan) :
    (db.apply plan).2.rows = db.rows ∨ db.rows.changeAll plan.mutations = .ok (db.apply plan).2.rows := by
  by_cases h : plan.mutations = []
  · exact .inl (by rw [apply_of_nil h])
  · exact (apply_cases h).imp (fun ⟨_, _, hrows⟩ => hrows) fun ⟨_, hrows⟩ => hrows

/-- A commit in place gives the result of a commit by copy, and leaves the same rows, the same number
of transactions and the same armed failure. -/
theorem apply_eq_publish (db : Database) (plan : Plan) : db.apply plan = db.publish plan := by
  unfold publish
  split
  · rename_i h
    exact apply_of_nil h
  · rename_i h
    split
    · rename_i ha
      exact apply_of_armed h ha
    · rename_i ha
      have ha : db.armed = false := by simpa using ha
      cases hc : db.rows.changeAll plan.mutations with
      | ok copy => exact apply_of_changeAll_ok h ha hc
      | error e => exact apply_of_changeAll_error h ha hc

end Database

end Assortment.Storage
