import Assortment.Proofs.Service.Catalog
import Assortment.Proofs.Service.Outbox

/-!
# What always holds of stored products

Whatever is done to a service, by commands or by those who deliver the entries of the outbox, every product
that is found is in order, and every entry of the outbox can be read.
-/

namespace Assortment.Service
open Assortment.Goods Assortment.Records Assortment.Storage Assortment.Text Assortment.Time

/-! ## Deeds -/

/-- A write of the outbox that no command makes: an entry of any kind, or a mark on one. -/
inductive OutboxWrite where
  | entry (o : OutboxEntry)
  | mark (mark : Mark)

/-- The mutation that carries out a write of the outbox. -/
def OutboxWrite.mutation : OutboxWrite → Mutation
  | .entry o => o.insertion
  | .mark m => m.mutation

/-- What can be done to a service over the database in memory: a command at a time, writes of the outbox
that are committed together, and the arming of a commit failure. -/
inductive Deed where
  | command (now : Instant) (command : Command)
  | write (writes : List OutboxWrite)
  | arm

/-- The time that the clock showed for a deed. -/
def Deed.reading? : Deed → Option Instant
  | command now _ => some now
  | write _ | arm => none

/-- The state after a deed. -/
def State.undergo (state : State Database) : Deed → State Database
  | .command now command => (State.executeAt .memory now command state).2
  | .write writes => { state with store := (state.store.apply ⟨writes.map OutboxWrite.mutation⟩).2 }
  | .arm => { state with store := state.store.arm }

/-! ## Writes of the outbox -/

variable {rows rows' : Rows}

theorem OutboxWrite.address_ne (w : OutboxWrite) (id : ProductId) : w.mutation.address ≠ productAddress id := by
  have htable : w.mutation.address.table = Layout.outboxEvents := by
    cases w with
    | entry o => rfl
    | mark mark => exact mark.table_mutation
  intro he
  rw [he] at htable
  exact products_ne_outboxEvents htable

theorem Coherent.change_write (h : Coherent rows) (w : OutboxWrite) (hc : rows.change w.mutation = .ok rows') :
    Coherent rows' := by
  cases w with
  | entry o =>
      obtain ⟨_, rfl⟩ := Rows.change_insert_eq_ok rfl hc
      exact h.insert_entry o
  | mark mark => exact h.change_mark mark hc

/-- Writes of the outbox keep rows coherent and leave every product as it is. -/
theorem apply_writes {db : Database} (h : Coherent db.rows) (writes : List OutboxWrite) :
    Coherent (db.apply ⟨writes.map OutboxWrite.mutation⟩).2.rows
      ∧ ∀ id, found? (db.apply ⟨writes.map OutboxWrite.mutation⟩).2.rows id = found? db.rows id := by
  rcases Database.rows_apply db ⟨writes.map OutboxWrite.mutation⟩ with he | hc
  · rw [he]
    exact ⟨h, fun _ => rfl⟩
  · refine Rows.changeAll_keeps (P := fun rows => Coherent rows ∧ ∀ id, found? rows id = found? db.rows id)
      (fun m hm before after hchange ⟨hcoherent, hfound⟩ => ?_) hc ⟨h, fun _ => rfl⟩
    obtain ⟨w, _, rfl⟩ := List.mem_map.1 hm
    refine ⟨hcoherent.change_write w hchange, fun id => ?_⟩
    rw [← hfound id, found?, found?, Rows.getElem?_change hchange (w.address_ne id)]

/-! ## Products in order -/

/-- Whether every product that is found is sound, and settled if it is archived. -/
structure Orderly (rows : Rows) : Prop where
  coherent : Coherent rows
  sound : ∀ id p, found? rows id = some p → p.Sound
  settled : ∀ id p, found? rows id = some p → p.Settled

/-- Whether every product that is found was created at the latest at its last change and at all the given
times. -/
def Precedes (rows : Rows) (times : List Instant) : Prop :=
  ∀ id p, found? rows id = some p → p.createdAt ≤ p.updatedAt ∧ ∀ t ∈ times, p.createdAt ≤ t

variable {now : Instant} {command : Command} {uid : Uuid} {result : Except Failure Receipt}
  {times : List Instant}

theorem Orderly.empty : Orderly ∅ where
  coherent := .empty
  sound id p h := by
    rw [found?_empty] at h
    cases h
  settled id p h := by
    rw [found?_empty] at h
    cases h

theorem precedes_empty (times : List Instant) : Precedes ∅ times := by
  intro id p h
  rw [found?_empty] at h
  cases h

theorem Orderly.ends (h : Orderly rows) (he : Ends now command uid rows result rows') : Orderly rows' where
  coherent := he.coherent h.coherent
  sound := he.forall_found? (fun _ => Product.Sound.committed_iff.2)
    (fun _ _ _ hadv hbefore => .advances hadv hbefore) h.sound
  settled := he.forall_found? (fun _ hq => hq) (fun _ _ _ hadv hbefore => .advances hadv hbefore) h.settled

theorem Precedes.ends (h : Precedes rows (now :: times)) (hnow : ∀ t ∈ times, now ≤ t)
    (he : Ends now command uid rows result rows') : Precedes rows' times := by
  have hall : ∀ t ∈ now :: times, now ≤ t := List.forall_mem_cons.2 ⟨Int.le_refl _, hnow⟩
  have hrows' : Precedes rows' (now :: times) := by
    refine he.forall_found? (fun _ hq => hq) (fun before q e hadv hbefore => ?_) h
    refine ⟨createdAt_le_of_advances hadv fun p hp => (hbefore p hp).2 now List.mem_cons_self, ?_⟩
    cases before with
    | none => exact fun t ht => hadv.createdAt_of_none ▸ hall t ht
    | some p => exact fun t ht => hadv.accounted.createdAt ▸ (hbefore p rfl).2 t ht
  exact fun id p hp => ⟨(hrows' id p hp).1, (List.forall_mem_cons.1 (hrows' id p hp).2).2⟩

/-! ## Runs -/

variable {state : State Database}

theorem Orderly.undergo (h : Orderly state.store.rows) (deed : Deed) :
    Orderly (state.undergo deed).store.rows := by
  cases deed with
  | command now command => exact h.ends (ends_executeAt h.coherent now command)
  | write writes =>
      obtain ⟨hcoherent, hfound⟩ := apply_writes h.coherent writes
      exact ⟨hcoherent, fun id p hp => h.sound id p (hfound id ▸ hp),
        fun id p hp => h.settled id p (hfound id ▸ hp)⟩
  | arm => exact h

theorem Orderly.run (h : Orderly state.store.rows) (deeds : List Deed) :
    Orderly (deeds.foldl State.undergo state).store.rows := by
  induction deeds generalizing state with
  | nil => exact h
  | cons deed deeds ih => exact ih (h.undergo deed)

theorem Precedes.run {deeds : List Deed}
    (h : Precedes state.store.rows (deeds.filterMap Deed.reading?)) (ho : Orderly state.store.rows)
    (hmono : (deeds.filterMap Deed.reading?).Pairwise (· ≤ ·)) :
    Precedes (deeds.foldl State.undergo state).store.rows [] := by
  induction deeds generalizing state with
  | nil => exact h
  | cons deed deeds ih =>
      cases deed with
      | command now command =>
          -- The time of a command is the first of those to come; the others are not before it.
          obtain ⟨hnow, hmono⟩ := List.pairwise_cons.1 hmono
          exact ih (h.ends hnow (ends_executeAt ho.coherent now command)) (ho.undergo _) hmono
      | write writes =>
          have hfound := (apply_writes ho.coherent writes).2
          exact ih (fun id p hp => h id p (hfound id ▸ hp)) (ho.undergo (.write writes)) hmono
      | arm => exact ih h (ho.undergo .arm) hmono

/-! ## What is found -/

/-- A product that can be shown under an identifier. -/
structure Presentable (id : ProductId) (p : Product) : Prop where
  id_eq : p.id = id
  id : isBlank id.text = false
  name : p.name ≠ "" ∧ trim p.name = p.name
  description : trim p.description = p.description
  category : p.category ≠ "" ∧ trim p.category = p.category
  price : 0 < p.basePrice.amount
  parts : ∃ n d : Int64, n.toInt = p.basePrice.amount.num ∧ d.toInt = p.basePrice.amount.den
  discount : ∀ d, p.discount = some d → p.status ≠ .draft ∧ 0 < d.percentage ∧ d.percentage ≤ 100
    ∧ d.start.floorMicro = d.start ∧ d.finish.floorMicro = d.finish ∧ d.start < d.finish
  archived : p.status = .archived ↔ p.archivedAt.isSome = true
  archivedAt : ∀ t, p.archivedAt = some t → t = p.updatedAt

theorem presentable_of_sound {p : Product} (h : p.Sound) (hp : p.Settled) : Presentable p.id p where
  id_eq := rfl
  id := h.id
  name := h.name
  description := h.description
  category := h.category
  price := h.price
  parts := by
    obtain ⟨⟨n, d⟩, hs⟩ := Option.isSome_iff_exists.1 h.storable
    exact ⟨n, d, Money.storable?_eq_some.1 hs⟩
  discount d hd := by
    refine ⟨fun hs => ?_, d.percentage_pos, d.percentage_le, d.start_aligned, d.finish_aligned,
      d.start_lt_finish⟩
    rw [h.draft hs] at hd
    cases hd
  archived := by
    rw [hp]
    split <;> simp_all
  archivedAt t ht := by
    rw [hp] at ht
    split at ht
    · exact (Option.some.inj ht).symm
    · cases ht

/-- After any deeds on a service that starts with an empty database, every product is either not found or
found in order, and every entry of the outbox is read. When the clock never goes back, no product is found to
be changed before it was created. -/
theorem found_presentable (clock : Clock) (nth : Nat → Uuid) (deeds : List Deed) :
    (∀ id, ((deeds.foldl State.undergo (.start clock nth)).get .memory id).1 = .error (.notFound id)
      ∨ ∃ p, ((deeds.foldl State.undergo (.start clock nth)).get .memory id).1 = .ok p ∧ Presentable id p
        ∧ ((deeds.filterMap Deed.reading?).Pairwise (· ≤ ·) → p.createdAt ≤ p.updatedAt))
    ∧ ∀ key row,
      (deeds.foldl State.undergo (.start clock nth)).store.row? Layout.outboxEvents key = some row →
        ∃ o, OutboxEntry.ofRow row = .ok o := by
  have hstart : Orderly (State.start clock nth).store.rows := .empty
  have ho : Orderly (deeds.foldl State.undergo (.start clock nth)).store.rows := hstart.run deeds
  refine ⟨fun id => ?_, fun key row hrow => ?_⟩
  · have hget : ((deeds.foldl State.undergo (.start clock nth)).get .memory id).1 = _ :=
      ho.coherent.loadProduct_eq id
    cases hf : found? (deeds.foldl State.undergo (.start clock nth)).store.rows id with
    | none =>
        rw [hf] at hget
        exact .inl hget
    | some p =>
        rw [hf] at hget
        obtain ⟨rfl, _⟩ := ho.coherent.of_found? hf
        refine .inr ⟨p, hget, presentable_of_sound (ho.sound _ p hf) (ho.settled _ p hf), fun hmono => ?_⟩
        exact ((precedes_empty _).run hstart hmono _ p hf).1
  · obtain ⟨o, _, rfl⟩ := ho.coherent.entry key row hrow
    exact ⟨o, o.ofRow_row⟩

end Assortment.Service
