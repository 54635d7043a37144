/-!
# The lifecycle of a product

A product starts as a draft, goes on and off sale, and can be archived from everywhere; archived is
final. Each status has one stored form.
-/
namespace Assortment.Goods

inductive Status where
  | draft
  | active
  | inactive
  | archived
deriving DecidableEq, Inhabited

structure UnknownStatus where
  found : String
deriving DecidableEq

def UnknownStatus.message (e : UnknownStatus) : String :=
  "unknown product status: " ++ e.found

namespace Status

def text : Status → String
  | draft => "draft"
  | active => "active"
  | inactive => "inactive"
  | archived => "archived"

def read (s : String) : Except UnknownStatus Status :=
  if s = "draft" then .ok draft
  else if s = "active" then .ok active
  else if s = "inactive" then .ok inactive
  else if s = "archived" then .ok archived
  else .error ⟨s⟩

/-- Whether this is the status of a new product. -/
def isInitial (s : Status) : Bool := s == default

/-- Whether no other status can follow. -/
def isFinal : Status → Bool
  | archived => true
  | _ => false

def allowsActivation : Status → Bool
  | draft | inactive => true
  | _ => false

def allowsDeactivation : Status → Bool
  | active => true
  | _ => false

def allowsArchiving (s : Status) : Bool := !s.isFinal

def allowsDiscount : Status → Bool
  | active => true
  | _ => false

theorem read_text (s : Status) : read s.text = .ok s := by
  cases s <;> rfl

end Status

end Assortment.Goods
