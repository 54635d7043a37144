import Assortment.Proofs.Goods.Changes
import Assortment.Proofs.Text.Json
import Assortment.Proofs.Time.Rfc3339
import Assortment.Records.Payload
import Mathlib.Data.List.Nodup

/-!
# Payloads tell events apart

The members of a payload have different keys, so sorting them into an object loses none, and each can be read off
again: the type names the kind of the occurrence, and every text stands for one value. Only a price outside of what
can be stored is written as a null.
-/

namespace Assortment.Records
open Assortment.Goods Assortment.Text Assortment.Time

/-! ## Keys -/

def commonKeys : List String := ["event_type", "aggregate_id", "occurred_at"]

/-- The keys that only the payload of an occurrence like this one has. -/
def occurrenceKeys : Occurrence → List String
  | .created .. => ["name", "description", "category", "base_price_numerator", "base_price_denominator"]
  | .updated .. => ["name", "description", "category"]
  | .discountApplied .. => ["discount_percentage", "start_date", "end_date"]
  | .activated | .deactivated | .archived | .discountRemoved => []

def payloadMembers (e : Event) : List (String × Json) := commonMembers e ++ occurrenceMembers e.what

variable {e e' : Event}

theorem keys_payloadMembers (e : Event) :
    (payloadMembers e).map (·.1) = commonKeys ++ occurrenceKeys e.what := by
  rw [payloadMembers, List.map_append]
  cases e.what <;> rfl

theorem nodup_keys (o : Occurrence) : (commonKeys ++ occurrenceKeys o).Nodup := by
  cases o <;> simp [commonKeys, occurrenceKeys]

theorem nodup_payloadMembers (e : Event) : ((payloadMembers e).map (·.1)).Nodup := by
  rw [keys_payloadMembers]
  exact nodup_keys e.what

theorem payload_eq (e : Event) : ∃ members, payload e = .obj members ∧ members.Perm (payloadMembers e) :=
  Json.object_eq_of_nodup (nodup_payloadMembers e)

theorem type_mem (e : Event) : ("event_type", Json.str e.what.type) ∈ payloadMembers e := by
  simp [payloadMembers, commonMembers]

theorem type_eq_of_perm (h : (payloadMembers e).Perm (payloadMembers e')) : e.what.type = e'.what.type := by
  have hmember := List.inj_on_of_nodup_map (nodup_payloadMembers e') (h.subset (type_mem e)) (type_mem e') rfl
  exact Json.str.inj (congrArg Prod.snd hmember)

theorem occurrenceKeys_eq {o o' : Occurrence} (h : o.type = o'.type) : occurrenceKeys o = occurrenceKeys o' := by
  cases o <;> cases o' <;> simp [Occurrence.type] at h <;> rfl

/-- Equal payloads have equal members, as the type among them tells which keys there are. -/
theorem payloadMembers_eq (h : payload e = payload e') : payloadMembers e = payloadMembers e' := by
  obtain ⟨members, he, hperm⟩ := payload_eq e
  obtain ⟨members', he', hperm'⟩ := payload_eq e'
  have hsame : members = members' := Json.obj.inj (he.symm.trans (h.trans he'))
  subst hsame
  have hmembers := hperm.symm.trans hperm'
  refine Json.members_eq_of_perm hmembers ?_ (nodup_payloadMembers e')
  rw [keys_payloadMembers, keys_payloadMembers, occurrenceKeys_eq (type_eq_of_perm hmembers)]

/-! ## Values -/

theorem encode_injective : Function.Injective Ratio.encode := by
  intro p q h
  have hdecoded := congrArg Ratio.decode? h
  rwa [Ratio.decode?_encode, Ratio.decode?_encode, Option.some.injEq] at hdecoded

/-- An occurrence whose price, if it tells of one, can be written as two 64-bit integers. -/
def PriceFits : Occurrence → Prop
  | .created _ _ _ price => ∃ n d : Int64, n.toInt = price.amount.num ∧ d.toInt = price.amount.den
  | _ => True

theorem numbers_of_fits {price : Money} {n d : Int64}
    (h : n.toInt = price.amount.num ∧ d.toInt = price.amount.den) :
    numberOrNull price.numerator? = .int price.amount.num
      ∧ numberOrNull price.denominator? = .int price.amount.den := by
  rw [Money.numerator?, Money.denominator?, fit64?_eq_some.2 h.1, fit64?_eq_some.2 h.2]
  exact ⟨congrArg Json.int h.1, congrArg Json.int h.2⟩

theorem occurrence_eq {o o' : Occurrence} (ho : PriceFits o) (ho' : PriceFits o') (htype : o.type = o'.type)
    (h : occurrenceMembers o = occurrenceMembers o') : o = o' := by
  cases o with
  | created name description category price =>
      cases o' with
      | created name' description' category' price' =>
          obtain ⟨n, d, hfits⟩ := ho
          obtain ⟨n', d', hfits'⟩ := ho'
          simp only [occurrenceMembers, numbers_of_fits hfits, numbers_of_fits hfits', List.cons.injEq, Prod.mk.injEq,
            Json.str.injEq, Json.int.injEq, Int.natCast_inj, true_and, and_true] at h
          obtain ⟨rfl, rfl, rfl, hnum, hden⟩ := h
          rw [Money.ext (Rat.ext hnum hden)]
      | _ => simp [Occurrence.type] at htype
  | updated name description category =>
      cases o' with
      | updated name' description' category' => simpa [occurrenceMembers] using h
      | _ => simp [Occurrence.type] at htype
  | discountApplied percentage start finish =>
      cases o' with
      | discountApplied percentage' start' finish' =>
          simp only [occurrenceMembers, List.cons.injEq, Prod.mk.injEq, Json.str.injEq, true_and, and_true] at h
          rw [encode_injective h.1, Instant.eq_of_rfc3339_eq h.2.1, Instant.eq_of_rfc3339_eq h.2.2]
      | _ => simp [Occurrence.type] at htype
  | activated | deactivated | archived | discountRemoved =>
      cases o' <;> simp [Occurrence.type] at htype ⊢

theorem event_eq (he : PriceFits e.what) (he' : PriceFits e'.what) (h : payload e = payload e') : e = e' := by
  obtain ⟨hcommon, hvariant⟩ := List.append_inj (payloadMembers_eq h) rfl
  simp only [commonMembers, List.cons.injEq, Prod.mk.injEq, true_and, and_true, Json.str.injEq] at hcommon
  obtain ⟨htype, hproduct, htime⟩ := hcommon
  exact Event.ext (ProductId.ext hproduct) (Instant.eq_of_rfc3339_eq htime) (occurrence_eq he he' htype hvariant)

/-- The price that a new product announces fits. -/
theorem priceFits_of_create {id : ProductId} {name description category : String} {price : Money} {now : Instant}
    {p : Product} (h : Product.create id name description category price now = .ok p) :
    ∀ e ∈ p.pending, PriceFits e.what := by
  obtain ⟨_, _, _, _, hs, rfl⟩ := Product.create_eq_ok h
  obtain ⟨⟨n, d⟩, hs⟩ := Option.isSome_iff_exists.1 hs
  intro e he
  rw [List.mem_singleton.1 he]
  exact ⟨n, d, Money.storable?_eq_some.1 hs⟩

/-- Events with the same payload are the same, as long as their prices fit, as those of new products do. The payload
is an object with the common members and those of the occurrence, none of which takes the place of another. -/
theorem payload_tells_event :
    (∀ e e' : Event, PriceFits e.what → PriceFits e'.what → payload e = payload e' → e = e')
    ∧ (∀ id name description category price now p, Product.create id name description category price now = .ok p →
      ∀ e ∈ p.pending, PriceFits e.what)
    ∧ ∀ e : Event, ∃ members, payload e = .obj members
      ∧ members.Perm (commonMembers e ++ occurrenceMembers e.what)
      ∧ (members.map (·.1)).Perm
        (["event_type", "aggregate_id", "occurred_at"] ++ occurrenceKeys e.what)
      ∧ (members.map (·.1)).Nodup := by
  refine ⟨fun e e' he he' h => event_eq he he' h, fun _ _ _ _ _ _ _ h => priceFits_of_create h, fun e => ?_⟩
  obtain ⟨members, he, hperm⟩ := payload_eq e
  have hkeys := hperm.map (·.1)
  refine ⟨members, he, hperm, ?_, hkeys.nodup_iff.2 (nodup_payloadMembers e)⟩
  rwa [keys_payloadMembers] at hkeys

/-- The announcement of a lamp at the price `n / d`. -/
def lampAnnounced (n d : Int64) : Event := ⟨⟨"lamp"⟩, .epoch, .created "Lamp" "" "Light" (.ofParts n d)⟩

theorem payload_tells_event_lamp :
    (payload (lampAnnounced 3998 200) = payload (lampAnnounced 1999 100)
      ∧ lampAnnounced 3998 200 = lampAnnounced 1999 100)
    ∧ ∃ p, Product.create ⟨"lamp"⟩ "Lamp" "" "Light" (.ofParts 3998 200) .epoch = .ok p
      ∧ ∀ e ∈ p.pending, PriceFits e.what := by
  have hsame : payload (lampAnnounced 3998 200) = payload (lampAnnounced 1999 100) := by decide +kernel
  have hfits : PriceFits (lampAnnounced 3998 200).what := ⟨1999, 100, by decide +kernel⟩
  have hfits' : PriceFits (lampAnnounced 1999 100).what := ⟨1999, 100, by decide +kernel⟩
  have hcreated : (Product.create ⟨"lamp"⟩ "Lamp" "" "Light" (.ofParts 3998 200) .epoch).isOk = true := by
    decide +kernel
  refine ⟨⟨hsame, payload_tells_event.1 _ _ hfits hfits' hsame⟩, ?_⟩
  cases hp : Product.create ⟨"lamp"⟩ "Lamp" "" "Light" (.ofParts 3998 200) .epoch with
  | error r =>
      rw [hp] at hcreated
      cases hcreated
  | ok p => exact ⟨p, rfl, payload_tells_event.2.1 _ _ _ _ _ _ p hp⟩

end Assortment.Records
