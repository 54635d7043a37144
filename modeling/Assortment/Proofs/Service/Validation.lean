import Assortment.Proofs.Service.Precision

/-!
# Checks before and after loading

A command whose input is refused at once would also be refused by the product, for the same reason. Past that
check there are two reasons left that lie in the input: a price that is too long to store, and a discount whose
period is over by the time it is granted.
-/

namespace Assortment.Goods

/-- Whether both parts of the reduced amount fit in 64 bits. -/
def Money.Fits (m : Money) : Prop := ∃ n d : Int64, n.toInt = m.amount.num ∧ d.toInt = m.amount.den

theorem Money.storable?_eq_none {m : Money} : m.storable? = none ↔ ¬ m.Fits := by
  simp only [Money.Fits, ← Money.storable?_eq_some, Option.eq_none_iff_forall_ne_some, Prod.forall, not_exists, ne_eq]

end Assortment.Goods

namespace Assortment.Service
open Assortment.Goods Assortment.Records Assortment.Storage Assortment.Text Assortment.Time

/-! ## The same checks -/

variable {id : ProductId} {name description category : String} {price : Money} {now : Instant} {p q : Product}
  {request : Request} {c : Change} {r : Refusal}

theorem check_alter (hid : isBlank id.text = false) (request : Request) :
    (Command.alter id request).check = request.check := by
  simp [Command.check, checkId, hid, bind, Except.bind]

/-- The draft that a creation comes to. -/
def drafted (id : ProductId) (name description category : String) (price : Money) (now : Instant) : Product where
  id := id
  name := trim name
  description := trim description
  category := trim category
  basePrice := price
  discount := none
  status := .draft
  createdAt := now
  updatedAt := now
  archivedAt := none
  dirty := Product.initialFields
  pending := [⟨id, now, .created (trim name) (trim description) (trim category) price⟩]

/-- A creation makes the checks of its command, and then only asks whether the price can be stored. -/
theorem create_eq_check : Product.create id name description category price now =
    (Command.create id name description category price).check.bind fun _ =>
      (storablePrice price).map fun _ => drafted id name description category price now := by
  simp only [Product.create, Command.check, checkId, checkText, bind, Except.bind]
  cases hid : isBlank id.text
  · cases hname : isBlank name
    · cases hcategory : isBlank category
      · cases hpositive : price.isPositive
        · rfl
        · cases hparts : price.storable? <;> simp [storablePrice, require, hparts, drafted, Except.map]
      · rfl
    · rfl
  · rfl

theorem create_of_check_error (h : (Command.create id name description category price).check = .error r) :
    Product.create id name description category price now = .error r := by
  rw [create_eq_check, h]
  rfl

theorem product_refused_iff (h : (Command.create id name description category price).check = .ok ()) :
    Product.create id name description category price now = .error r
      ↔ ¬ price.Fits ∧ r = .invalidBasePrice := by
  rw [create_eq_check, h, ← Money.storable?_eq_none]
  cases hparts : price.storable? with
  | some parts => simp [storablePrice, require, hparts, Except.bind, Except.map]
  | none =>
      simp only [storablePrice, require, hparts, Except.bind, Except.map, true_and, Except.error.injEq]
      exact eq_comm

/-- An update of a product that is not archived makes the checks of its request and no other. -/
theorem update_eq_check (ha : p.status ≠ .archived) : p.update name description category now =
    (Request.update name description category).check.map fun _ =>
      p.retext (trim name) (trim description) (trim category) now := by
  have ha : p.isArchived = false := by simpa [Product.isArchived] using ha
  simp only [Product.update, Request.check, checkText, bind, Except.bind, ha]
  cases hname : isBlank name
  · cases hcategory : isBlank category
    · rfl
    · rfl
  · rfl

theorem update_refused_iff (hid : isBlank id.text = false) (ha : p.status ≠ .archived) :
    (Command.alter id (.update name description category)).check = .error r
      ↔ p.update name description category now = .error r := by
  rw [check_alter hid, update_eq_check ha]
  cases (Request.update name description category).check <;> simp [Except.map]

theorem exists_discount {percentage : Rat} {start finish : Instant}
    (h : (Command.alter id (.grantDiscount percentage start finish)).check = .ok ()) :
    ∃ d, Discount.make percentage start finish = .ok d := by
  obtain ⟨_, _, hrequest⟩ := bind_eq_ok h
  obtain ⟨d, hd, _⟩ := map_eq_ok hrequest
  exact ⟨d, hd⟩

/-! ## Reasons that only show later -/

/-- How a command whose input was checked can still be refused for it, given which products are found. -/
inductive Command.RefusedLate (now : Instant) (found : Product → Prop) : Command → Refusal → Prop where
  | unstorable {id : ProductId} {name description category : String} {price : Money} : ¬ price.Fits →
      RefusedLate now found (.create id name description category price) .invalidBasePrice
  | expired {id : ProductId} {percentage : Rat} {start finish : Instant} {p : Product} :
      found p → p.status = .active → finish.floorMicro ≤ now →
      RefusedLate now found (.alter id (.grantDiscount percentage start finish)) .invalidDiscountPeriod

theorem perform_refused (h : p.perform c now = .error r) (hr : r.isValidation = true) :
    (∃ name description category, c = .update name description category
      ∧ (Request.update name description category).check = .error r)
    ∨ ∃ d, c = .grantDiscount d ∧ p.status = .active ∧ d.finish ≤ now ∧ r = .invalidDiscountPeriod := by
  cases c with
  | update name description category =>
      left
      by_cases ha : p.status = .archived
      · simp only [Product.perform, Product.update, Product.isArchived_iff.2 ha, if_true] at h
        cases h
        cases hr
      · rw [Product.perform, update_eq_check ha] at h
        cases hcheck : (Request.update name description category).check with
        | ok _ =>
            rw [hcheck] at h
            cases h
        | error r' =>
            rw [hcheck] at h
            cases h
            exact ⟨name, description, category, rfl, hcheck⟩
  | grantDiscount d =>
      simp only [Product.perform, Product.grantDiscount] at h
      split at h
      · cases h
        cases hr
      · split at h
        · cases h
          cases hr
        · rename_i hactive
          split at h
          · rename_i hover
            cases h
            refine .inr ⟨d, rfl, ?_, of_decide_eq_true hover, rfl⟩
            cases hs : p.status <;> simp [hs, Status.allowsDiscount] at hactive ⊢
          · cases h
  -- The others are only ever refused for the state of the product.
  | activate =>
      simp only [Product.perform, Product.activate] at h
      split at h <;> cases h <;> cases hr
  | deactivate =>
      simp only [Product.perform, Product.deactivate] at h
      split at h <;> cases h <;> cases hr
  | archive =>
      simp only [Product.perform, Product.archive] at h
      split at h <;> cases h
      cases hr
  | dropDiscount =>
      simp only [Product.perform, Product.dropDiscount] at h
      split_ifs at h <;> cases h <;> cases hr

theorem perform_over {d : Discount} (hactive : p.status = .active) (hover : d.finish ≤ now) :
    p.perform (.grantDiscount d) now = .error .invalidDiscountPeriod := by
  simp [Product.perform, Product.grantDiscount, Product.isArchived, Discount.isOver, Status.allowsDiscount, hactive,
    hover]

namespace Request

theorem change_of_check (h : request.check = .ok ()) : ∃ c, request.change = .ok c := by
  cases request with
  | grantDiscount percentage start finish =>
      obtain ⟨d, hd, _⟩ := map_eq_ok h
      exact ⟨.grantDiscount d, by rw [change, hd]; rfl⟩
  | _ => exact ⟨_, rfl⟩

theorem change_eq_update (h : request.change = .ok (.update name description category)) :
    request = .update name description category := by
  cases request with
  | grantDiscount percentage start finish =>
      obtain ⟨_, _, hd⟩ := map_eq_ok h
      cases hd
  | update _ _ _ =>
      cases h
      rfl
  | _ => cases h

theorem change_eq_grantDiscount {d : Discount} (h : request.change = .ok (.grantDiscount d)) :
    ∃ percentage start finish, request = .grantDiscount percentage start finish
      ∧ Discount.make percentage start finish = .ok d := by
  cases request with
  | grantDiscount percentage start finish =>
      obtain ⟨d', hd', hd⟩ := map_eq_ok h
      cases hd
      exact ⟨percentage, start, finish, rfl, hd'⟩
  | _ => cases h

end Request

/-! ## Proposals -/

namespace Proposal

theorem exists_alter (hd : p.dirty = ∅) (hc : request.change = .ok c) (hq : p.perform c now = .ok q) :
    ∃ proposal, alter request p now = .ok proposal := by
  by_cases harchive : c = .archive
  · subst harchive
    cases change_eq_archive hc
    exact ⟨_, alter_archive hq⟩
  · have hprice : q.dirty.contains .basePrice = false := by
      simp [contains_dirty_of_perform hd hq, Change.contains_fields_basePrice]
    obtain ⟨change, hrevision⟩ := exists_revision hprice
    exact ⟨_, alter_revision hc harchive hq hrevision⟩

theorem alter_refused_iff (hcheck : request.check = .ok ()) (hd : p.dirty = ∅) (hr : r.isValidation = true) :
    alter request p now = .error r ↔ ∃ percentage start finish, request = .grantDiscount percentage start finish
      ∧ p.status = .active ∧ finish.floorMicro ≤ now ∧ r = .invalidDiscountPeriod := by
  obtain ⟨c, hc⟩ := Request.change_of_check hcheck
  constructor
  · intro h
    cases hq : p.perform c now with
    | ok q =>
        obtain ⟨proposal, hproposal⟩ := exists_alter hd hc hq
        rw [hproposal] at h
        cases h
    | error r' =>
        rw [alter_refused hc hq] at h
        cases h
        rcases perform_refused hq hr with ⟨name, description, category, rfl, hrefused⟩ | ⟨d, rfl, hactive, hover, hr⟩
        · -- The request has passed the check already.
          rw [← Request.change_eq_update hc, hcheck] at hrefused
          cases hrefused
        · obtain ⟨percentage, start, finish, rfl, hmake⟩ := Request.change_eq_grantDiscount hc
          exact ⟨percentage, start, finish, rfl, hactive, (Discount.make_eq_ok_iff.1 hmake).2.2 ▸ hover, hr⟩
  · rintro ⟨percentage, start, finish, rfl, hactive, hover, rfl⟩
    obtain ⟨d, hmake, rfl⟩ := map_eq_ok hc
    exact alter_refused hc (perform_over hactive ((Discount.make_eq_ok_iff.1 hmake).2.2 ▸ hover))

theorem create_refused_iff (hcheck : (Command.create id name description category price).check = .ok ()) :
    create id name description category price now = .error r ↔ ¬ price.Fits ∧ r = .invalidBasePrice := by
  rw [← product_refused_iff hcheck]
  cases hp : Product.create id name description category price now with
  | error r' => simp [create, hp, bind, Except.bind]
  | ok p =>
      obtain ⟨proposal, hproposal, _⟩ := create_advances hp
      simp [hproposal]

end Proposal

/-! ## Commands -/

variable {σ : Type} {backend : Backend σ} {command : Command} {state : State σ}

/-- What a backend finds is never refused. -/
def Backend.NeverRefuses (backend : Backend σ) : Prop :=
  ∀ id store r, (backend.find id store).1 ≠ .error (.refused r)

theorem memory_neverRefuses : Backend.memory.NeverRefuses := by
  intro id db r h
  simp only [Backend.memory, loadProduct] at h
  split at h
  · cases h
  · rename_i row _
    cases hread : ProductRow.ofRow row >>= ProductRow.toProduct <;> rw [hread] at h <;> cases h

theorem server_neverRefuses (server : Server σ) : (Backend.server server).NeverRefuses := by
  intro id store r h
  simp only [Backend.server, queryProduct, productOfAnswer] at h
  split at h
  · cases h
  · split at h
    · cases h
    · split at h
      · cases h
      · rename_i record _
        cases hread : record.toProduct <;> rw [hread] at h <;> cases h

theorem settle_ne_refused (backend : Backend σ) (proposal : Proposal) (state : State σ) (r : Refusal) :
    (State.settle backend proposal state).1.result ≠ .error (.refused r) := by
  unfold State.settle
  dsimp only
  split <;> simp

theorem result_refused_iff : (State.executeAt backend now command state).1.result = .error (.refused r)
    ↔ (propose backend now command state.store).1 = .error (.refused r) := by
  unfold State.executeAt
  split
  · rename_i f store h
    simp [h]
  · rename_i proposal store h
    simp [h, settle_ne_refused]

theorem mapError_refused_iff {α : Type} {x : Except Refusal α} :
    x.mapError Failure.refused = .error (.refused r) ↔ x = .error r := by
  cases x <;> simp

theorem refused_iff (hclean : backend.LoadsClean) (hnever : backend.NeverRefuses) (hcheck : command.check = .ok ())
    (hr : r.isValidation = true) : (State.executeAt backend now command state).1.result = .error (.refused r)
      ↔ command.RefusedLate now (fun p => (backend.find command.product state.store).1 = .ok p) r := by
  rw [result_refused_iff]
  unfold propose
  rw [hcheck]
  cases command with
  | create id name description category price =>
      dsimp only
      rw [mapError_refused_iff, Proposal.create_refused_iff hcheck]
      constructor
      · rintro ⟨hprice, rfl⟩
        exact .unstorable hprice
      · rintro ⟨hprice⟩
        exact ⟨hprice, rfl⟩
  | alter id request =>
      obtain ⟨_, _, hrequest⟩ := bind_eq_ok hcheck
      dsimp only [Command.product]
      cases hfind : backend.find id state.store with
      | mk found store =>
          cases found with
          | error f =>
              have hf : f ≠ .refused r := fun he => hnever id state.store r (by rw [hfind, he])
              constructor
              · intro h
                exact absurd (Except.error.inj h) hf
              · intro h
                cases h with
                | expired hp => cases hp
          | ok p =>
              obtain ⟨hdirty, _⟩ := hclean id state.store p (by rw [hfind])
              dsimp only
              rw [mapError_refused_iff, Proposal.alter_refused_iff hrequest hdirty hr]
              constructor
              · rintro ⟨percentage, start, finish, rfl, hactive, hover, rfl⟩
                exact .expired rfl hactive hover
              · intro h
                cases h with
                | expired hp hactive hover =>
                    cases hp
                    exact ⟨_, _, _, rfl, hactive, hover, rfl⟩

/-- The checks that a command makes of its input are those that the product makes, and find the same fault first. So
past its check a command is only refused for its input because its price is too long to store or because the
discount that it asks for is over. -/
theorem checks_agree :
    (∀ id name description category price now,
      (∀ r, (Command.create id name description category price).check = .error r →
        Product.create id name description category price now = .error r)
      ∧ ((Command.create id name description category price).check = .ok () →
        (price.Fits → ∃ p, Product.create id name description category price now = .ok p)
        ∧ (¬ price.Fits → Product.create id name description category price now = .error .invalidBasePrice)))
    ∧ (∀ id name description category (p : Product) now, isBlank id.text = false → p.status ≠ .archived →
      ∀ r, (Command.alter id (.update name description category)).check = .error r
        ↔ p.update name description category now = .error r)
    ∧ (∀ id percentage start finish, (Command.alter id (.grantDiscount percentage start finish)).check = .ok () →
      ∃ d, Discount.make percentage start finish = .ok d)
    ∧ ∀ (now : Instant) (command : Command) (r : Refusal), command.check = .ok () → r.isValidation = true →
      (∀ state : State Database, (State.executeAt .memory now command state).1.result = .error (.refused r)
        ↔ command.RefusedLate now (fun p => (Backend.memory.find command.product state.store).1 = .ok p) r)
      ∧ ∀ {σ : Type} (server : Server σ) (state : State σ),
        (State.executeAt (.server server) now command state).1.result = .error (.refused r)
          ↔ command.RefusedLate now
            (fun p => ((Backend.server server).find command.product state.store).1 = .ok p) r := by
  refine ⟨fun id name description category price now => ⟨fun r h => create_of_check_error h, fun h => ?_⟩,
    fun id name description category p now hid ha r => update_refused_iff hid ha,
    fun id percentage start finish h => exists_discount h, fun now command r hcheck hr => ⟨fun state => ?_, ?_⟩⟩
  · refine ⟨fun hprice => ?_, fun hprice => (product_refused_iff h).2 ⟨hprice, rfl⟩⟩
    cases hp : Product.create id name description category price now with
    | ok p => exact ⟨p, rfl⟩
    | error r => exact absurd hprice ((product_refused_iff h).1 hp).1
  · exact refused_iff memory_loadsClean memory_neverRefuses hcheck hr
  · intro σ server state
    exact refused_iff (server_loadsClean server) (server_neverRefuses server) hcheck hr

def longPrice : Money := ⟨2 ^ 63⟩

/-- The request of a discount whose period is over at dusk. -/
def pastDiscount : Request :=
  .grantDiscount (1 / 4) ⟨-9000000, by decide, by decide⟩ dusk

theorem checks_agree_lamp :
    Product.create ⟨"lamp"⟩ " " "" "" longPrice dusk = .error .invalidName
    ∧ Product.create ⟨"lamp"⟩ "Lamp" "" "Light" longPrice dusk = .error .invalidBasePrice
    ∧ (∃ p, Product.create ⟨"lamp"⟩ "Lamp" "" "Light" ⟨10⟩ dusk = .ok p)
    ∧ (drafted ⟨"lamp"⟩ "Lamp" "" "Light" longPrice dusk).update "Lamp" "" " " dusk = .error .invalidCategory
    ∧ (∃ d, Discount.make (1 / 4) .epoch ⟨1000, by decide, by decide⟩ = .ok d)
    ∧ (State.executeAt .memory dusk (.alter ⟨"lamp"⟩ pastDiscount) lampOnSale).1.result
      = .error (.refused .invalidDiscountPeriod) := by
  obtain ⟨hcreate, hupdate, hdiscount, hrefused⟩ := checks_agree
  have hlong : ¬ longPrice.Fits := Money.storable?_eq_none.1 (by decide +kernel)
  have hsale : (Backend.memory.find ⟨"lamp"⟩ lampOnSale.store).1.map (·.status) = .ok .active := by decide +kernel
  obtain ⟨p, hp, hactive⟩ := map_eq_ok hsale
  refine ⟨?_, ?_, ?_, ?_, ?_, ?_⟩
  · exact (hcreate ⟨"lamp"⟩ " " "" "" longPrice dusk).1 .invalidName (by decide +kernel)
  · exact ((hcreate ⟨"lamp"⟩ "Lamp" "" "Light" longPrice dusk).2 (by decide +kernel)).2 hlong
  · exact ((hcreate ⟨"lamp"⟩ "Lamp" "" "Light" ⟨10⟩ dusk).2 (by decide +kernel)).1
      ⟨10, 1, by decide +kernel, by decide +kernel⟩
  · exact (hupdate ⟨"lamp"⟩ "Lamp" "" " " _ dusk (by decide +kernel) (by decide) .invalidCategory).1
      (by decide +kernel)
  · exact hdiscount ⟨"lamp"⟩ _ _ _ (by decide +kernel)
  · exact ((hrefused dusk (.alter ⟨"lamp"⟩ pastDiscount) .invalidDiscountPeriod (by decide +kernel) rfl).1
      lampOnSale).2 (.expired hp hactive (by decide))

end Assortment.Service
