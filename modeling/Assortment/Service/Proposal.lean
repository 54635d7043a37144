import Assortment.Records.Outbox
import Assortment.Records.ProductRow
import Assortment.Service.Command

/-!
# Proposals

A proposal is what a command has come to before anything is committed: the product as it is to be, and
the mutation of its row. Its plan is that mutation and one new outbox entry for every pending event.
-/
namespace Assortment.Service
open Assortment.Goods Assortment.Records Assortment.Storage Assortment.Text Assortment.Time

structure Proposal where
  /-- The name under which the command is counted. -/
  command : String
  product : Product
  mutation : Option Mutation
deriving DecidableEq

/-- What the caller of a command gets: the committed product and its events. -/
structure Receipt where
  product : Product
  events : List Event
deriving DecidableEq

namespace Proposal

def create (id : ProductId) (name description category : String) (price : Money) (now : Instant) :
    Except Refusal Proposal := do
  let product ← Product.create id name description category price now
  let mutation ← insertion product
  return ⟨"create_product", product, some mutation⟩

/-- Proposes to do what is asked of a product. Archiving writes its columns whatever is dirty. -/
def alter (request : Request) (product : Product) (now : Instant) : Except Refusal Proposal := do
  let change ← request.change
  let changed ← product.perform change now
  let mutation ←
    match request with
    | .archive => .ok (some (archival changed))
    | _ => revision changed
  return ⟨request.name, changed, mutation⟩

/-- The plan: the mutation of the product if there is one, and an outbox entry for each pending event
under the given identifiers. -/
def plan (p : Proposal) (ids : List Uuid) : Plan :=
  ((∅ : Plan).push p.mutation).pushAll
    (List.zipWith (fun id e => some (OutboxEntry.ofEvent id e).insertion) ids p.product.pending)

/-- What the caller gets once the plan is committed. -/
def receipt (p : Proposal) : Receipt := ⟨p.product.committed, p.product.pending⟩

end Proposal

end Assortment.Service
