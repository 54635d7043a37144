import Assortment.Proofs.Service.Upkeep
import Mathlib.Data.List.Induction

/-!
# Entries on their way

An outbox entry that was committed is read back as it was, and stays so whatever else is committed, apart from what
the marks on it say: its status is that of the last mark, and its time of delivery that of the last delivery. Marks
on other entries and writes of other tables do not touch it, since no two identifiers have one text.
-/

namespace Assortment.Service
open Assortment.Goods Assortment.Records Assortment.Storage Assortment.Text Assortment.Time

/-! ## Marks -/

namespace Mark

/-- The entry that a mark is on. -/
def entryId : Mark → Uuid
  | delivered id _ => id
  | failed id => id

def status : Mark → OutboxStatus
  | delivered .. => .processed
  | failed _ => .failed

def time? : Mark → Option Instant
  | delivered _ t => some t
  | failed _ => none

theorem address_mutation (mark : Mark) : mark.mutation.address = entryAddress mark.entryId := by
  cases mark <;> rfl

theorem values_ne_nil (mark : Mark) : mark.mutation.values ≠ [] := by
  cases mark <;> exact List.cons_ne_nil _ _

end Mark

/-- An entry with several marks on it, the last of which decides. -/
def marked (o : OutboxEntry) (marks : List Mark) : OutboxEntry :=
  { o with
    status := (marks.getLast?.map Mark.status).getD o.status
    processedAt := (marks.filterMap Mark.time?).getLast?.or o.processedAt }

@[simp]
theorem eventId_marked (o : OutboxEntry) (marks : List Mark) : (marked o marks).eventId = o.eventId := rfl

@[simp]
theorem marked_nil (o : OutboxEntry) : marked o [] = o := rfl

theorem foldl_entry (o : OutboxEntry) (marks : List Mark) : marks.foldl Mark.entry o = marked o marks := by
  induction marks using List.reverseRecOn with
  | nil => simp [marked]
  | append_singleton marks mark ih =>
      rw [List.foldl_append, ih]
      cases mark <;> simp [marked, Mark.entry, Mark.status, Mark.time?]

theorem marked_marked (o : OutboxEntry) (marks marks' : List Mark) :
    marked (marked o marks) marks' = marked o (marks ++ marks') := by
  rw [← foldl_entry, ← foldl_entry, ← foldl_entry, List.foldl_append]

/-! ## Writes -/

/-- A write that can be committed while an entry is on its way: of the outbox, or of another table. -/
inductive Write where
  | outbox (write : OutboxWrite)
  | elsewhere (m : Mutation) (h : m.table ≠ Layout.outboxEvents)

namespace Write

def mutation : Write → Mutation
  | outbox write => write.mutation
  | elsewhere m _ => m

/-- The mark that a write sets on an entry, if it sets one. -/
def mark? (id : Uuid) : Write → Option Mark
  | outbox (.mark mark) => if mark.entryId = id then some mark else none
  | outbox (.entry _) | elsewhere .. => none

end Write

def planOf (writes : List Write) : Plan := ⟨writes.map Write.mutation⟩

/-- What can happen to a database: writes are committed together, or a commit is made to fail. -/
inductive Incident where
  | commit (writes : List Write)
  | arm

def Incident.after (db : Database) : Incident → Database
  | commit writes => (db.apply (planOf writes)).2
  | arm => db.arm

/-- The marks that are set on an entry, none if the commit fails. -/
def Incident.marks (id : Uuid) (db : Database) : Incident → List Mark
  | commit writes => if (db.apply (planOf writes)).1.isOk then writes.filterMap (Write.mark? id) else []
  | arm => []

/-- The marks that are set on an entry in the course of several incidents. -/
def marksOn (id : Uuid) (db : Database) : List Incident → List Mark
  | [] => []
  | incident :: rest => incident.marks id db ++ marksOn id (incident.after db) rest

/-- Whether the row under the identifier of an entry is read as the entry. -/
def Holds (db : Database) (o : OutboxEntry) : Prop :=
  ∃ row, db.row? Layout.outboxEvents o.eventId.text = some row ∧ OutboxEntry.ofRow row = .ok o

variable {rows rows' : Rows} {db : Database} {o : OutboxEntry}

theorem holds_of_row (h : db.rows[entryAddress o.eventId]? = some o.row) : Holds db o :=
  ⟨o.row, h, o.ofRow_row⟩

theorem change_write (h : rows[entryAddress o.eventId]? = some o.row) (w : Write)
    (hc : rows.change w.mutation = .ok rows') :
    rows'[entryAddress o.eventId]? = some (marked o (w.mark? o.eventId).toList).row := by
  cases w with
  | elsewhere m hm =>
      have hne : m.address ≠ entryAddress o.eventId := fun he => hm (congrArg Address.table he)
      exact (Rows.getElem?_change hc hne).trans h
  | outbox write =>
      cases write with
      | entry o' =>
          -- An entry under the same identifier would have found its place taken.
          obtain ⟨hfree, rfl⟩ := Rows.change_insert_eq_ok rfl hc
          have hne : entryAddress o'.eventId ≠ entryAddress o.eventId := by
            intro he
            have hfree : rows[entryAddress o'.eventId]? = none := hfree
            rw [he, h] at hfree
            cases hfree
          exact (Rows.getElem?_change hc hne).trans h
      | mark mark =>
          by_cases hid : mark.entryId = o.eventId
          · have haddr : mark.mutation.address = entryAddress o.eventId := by rw [mark.address_mutation, hid]
            obtain ⟨row, hr, rfl⟩ := Rows.change_update_eq_ok mark.kind_mutation hc
            rw [haddr, h] at hr
            cases hr
            rw [Write.mark?, if_pos hid, haddr, mark.setAll_mutation, ← foldl_entry]
            exact (Rows.getElem?_insert ..).trans (if_pos rfl)
          · have hne : mark.mutation.address ≠ entryAddress o.eventId := by
              rw [mark.address_mutation]
              exact fun he => hid (Uuid.eq_of_text_eq (congrArg Address.key he))
            rw [Write.mark?, if_neg hid]
            exact (Rows.getElem?_change hc hne).trans h

theorem changeAll_writes (h : rows[entryAddress o.eventId]? = some o.row) (writes : List Write)
    (hc : rows.changeAll (writes.map Write.mutation) = .ok rows') :
    rows'[entryAddress o.eventId]? = some (marked o (writes.filterMap (Write.mark? o.eventId))).row := by
  induction writes generalizing rows o with
  | nil =>
      cases hc
      rwa [List.filterMap_nil, marked_nil]
  | cons w writes ih =>
      obtain ⟨changed, hw, hc⟩ := Rows.changeAll_cons_eq_ok hc
      have hfirst : (w :: writes).filterMap (Write.mark? o.eventId)
          = (w.mark? o.eventId).toList ++ writes.filterMap (Write.mark? o.eventId) := by
        cases hm : w.mark? o.eventId <;> simp [hm]
      have hstep := ih (o := marked o (w.mark? o.eventId).toList) (change_write h w hw) hc
      rwa [eventId_marked, marked_marked, ← hfirst] at hstep

theorem Incident.row_after (h : db.rows[entryAddress o.eventId]? = some o.row) (incident : Incident) :
    (incident.after db).rows[entryAddress o.eventId]? = some (marked o (incident.marks o.eventId db)).row := by
  cases incident with
  | arm => exact h
  | commit writes =>
      rw [Incident.marks, Incident.after]
      by_cases hnil : (planOf writes).mutations = []
      · rw [Database.apply_of_nil hnil]
        cases List.map_eq_nil_iff.1 hnil
        exact h
      · rcases db.apply_cases hnil with ⟨e, hfailed, hsame⟩ | ⟨hdone, hc⟩
        · rw [hfailed, hsame]
          exact h
        · rw [hdone]
          exact changeAll_writes h writes hc

/-- An entry in the outbox stays there as it was, with the marks on it. -/
theorem row_afterAll (h : db.rows[entryAddress o.eventId]? = some o.row) (incidents : List Incident) :
    (incidents.foldl Incident.after db).rows[entryAddress o.eventId]?
      = some (marked o (marksOn o.eventId db incidents)).row := by
  induction incidents generalizing db o with
  | nil => exact h
  | cons incident incidents ih =>
      have hstep := ih (o := marked o (incident.marks o.eventId db)) (incident.row_after h)
      rwa [eventId_marked, marked_marked] at hstep

theorem holds_afterAll (h : db.rows[entryAddress o.eventId]? = some o.row) (incidents : List Incident) :
    Holds (incidents.foldl Incident.after db) (marked o (marksOn o.eventId db incidents)) := by
  apply holds_of_row
  rw [eventId_marked]
  exact row_afterAll h incidents

/-! ## Entries in the outbox -/

theorem row_of_insertion {db' : Database} (hfree : db.row? Layout.outboxEvents o.eventId.text = none)
    (hdone : db.apply ⟨[o.insertion]⟩ = (.ok (), db')) : db'.rows[entryAddress o.eventId]? = some o.row := by
  cases harmed : db.armed with
  | true =>
      rw [Database.apply_of_armed (List.cons_ne_nil _ _) harmed] at hdone
      cases hdone
  | false =>
      rw [apply_insertion (m := o.insertion) harmed rfl hfree] at hdone
      cases hdone
      exact (Rows.getElem?_insert ..).trans (if_pos rfl)

/-- A mark needs an entry to be there. -/
theorem change_mark_missing {mark : Mark} (h : rows[entryAddress mark.entryId]? = none) :
    rows.change mark.mutation = .error (.noSuchRow Layout.outboxEvents mark.entryId.text) := by
  have hmissing : rows[mark.mutation.address]? = none := mark.address_mutation ▸ h
  rw [Rows.change_update_missing mark.kind_mutation mark.values_ne_nil hmissing]
  cases mark <;> rfl

theorem apply_mark_missing {mark : Mark} (hfree : db.row? Layout.outboxEvents mark.entryId.text = none) :
    db.apply ⟨[mark.mutation]⟩ =
      if db.armed then (.error Database.injectedFailure, { db with opened := db.opened + 1, armed := false })
      else (.error (.noSuchRow Layout.outboxEvents mark.entryId.text), { db with opened := db.opened + 1 }) := by
  split
  · rename_i harmed
    exact Database.apply_of_armed (List.cons_ne_nil _ _) harmed
  · rename_i harmed
    have hfails : db.rows.changeAll [mark.mutation]
        = .error (.noSuchRow Layout.outboxEvents mark.entryId.text) := by
      rw [Rows.changeAll, change_mark_missing hfree]
    exact Database.apply_of_changeAll_error (List.cons_ne_nil _ _) (by simpa using harmed) hfails

/-- An entry whose identifier is not taken is committed unless a failure was armed. Once committed it is read
back as it was, with its status that of the last mark on it and its time of delivery that of the last delivery,
whatever else is committed or fails to be. Before that there is nothing to mark. -/
theorem entry_survives {db : Database} {o : OutboxEntry}
    (hfree : db.row? Layout.outboxEvents o.eventId.text = none) :
    (db.armed = false → (db.apply ⟨[o.insertion]⟩).1 = .ok ())
    ∧ (∀ db', db.apply ⟨[o.insertion]⟩ = (.ok (), db') → Holds db' o
      ∧ ∀ incidents, Holds (incidents.foldl Incident.after db') (marked o (marksOn o.eventId db' incidents)))
    ∧ ∀ mark : Mark, mark.entryId = o.eventId → db.apply ⟨[mark.mutation]⟩ =
      if db.armed then (.error Database.injectedFailure, { db with opened := db.opened + 1, armed := false })
      else (.error (.noSuchRow Layout.outboxEvents o.eventId.text), { db with opened := db.opened + 1 }) := by
  refine ⟨fun harmed => ?_, fun db' hdone => ?_, fun mark hid => ?_⟩
  · rw [apply_insertion (m := o.insertion) harmed rfl hfree]
  · have hrow := row_of_insertion hfree hdone
    exact ⟨holds_of_row hrow, holds_afterAll hrow⟩
  · rw [← hid] at hfree ⊢
    exact apply_mark_missing hfree

/-- A pending entry whose payload says nothing. -/
def emptyEntry : OutboxEntry := ⟨⟨1#128⟩, "DiscountRevoked", "lamp", .null, .pending, .epoch, none⟩

/-- A mark whose commit fails, and then a delivery among writes of another table and of another entry. -/
def lateDelivery : List Incident :=
  [.arm, .commit [.outbox (.mark (.failed ⟨1#128⟩))],
   .commit [.elsewhere ⟨.insert, Layout.products, Layout.productId, .text "lamp", []⟩ (by decide),
     .outbox (.entry { emptyEntry with eventId := ⟨2#128⟩ }), .outbox (.mark (.delivered ⟨1#128⟩ .epoch)),
     .outbox (.mark (.failed ⟨2#128⟩))]]

theorem entry_survives_late : (∅ : Database).row? Layout.outboxEvents emptyEntry.eventId.text = none
    ∧ (∃ db', (∅ : Database).apply ⟨[emptyEntry.insertion]⟩ = (.ok (), db') ∧ Holds db' emptyEntry
      ∧ Holds (lateDelivery.foldl Incident.after db')
        { emptyEntry with status := .processed, processedAt := some .epoch })
    ∧ ((∅ : Database).apply ⟨[OutboxEntry.noteFailure emptyEntry.eventId]⟩).1
      = .error (.noSuchRow Layout.outboxEvents emptyEntry.eventId.text) := by
  have hfree : (∅ : Database).row? Layout.outboxEvents emptyEntry.eventId.text = none :=
    Std.ExtTreeMap.getElem?_empty
  obtain ⟨hcommitted, hkept, hmissing⟩ := entry_survives hfree
  have hdone : (∅ : Database).apply ⟨[emptyEntry.insertion]⟩
      = (.ok (), ((∅ : Database).apply ⟨[emptyEntry.insertion]⟩).2) := Prod.ext (hcommitted rfl) rfl
  obtain ⟨hheld, hlater⟩ := hkept _ hdone
  refine ⟨hfree, ⟨_, hdone, hheld, ?_⟩, ?_⟩
  · have hmarked : marked emptyEntry
        (marksOn emptyEntry.eventId ((∅ : Database).apply ⟨[emptyEntry.insertion]⟩).2 lateDelivery)
        = { emptyEntry with status := .processed, processedAt := some .epoch } := by decide +kernel
    exact hmarked ▸ hlater lateDelivery
  · exact congrArg Prod.fst (hmissing (.failed emptyEntry.eventId) rfl)

end Assortment.Service
