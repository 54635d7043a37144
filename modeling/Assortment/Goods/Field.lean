/-!
# Sets of product fields

The fields whose changes are tracked, and sets of them. A set lists its members in the order in which
the fields are declared, and its number has one bit for each member in that order.
-/
namespace Assortment.Goods

/-- A part of a product whose changes are tracked. -/
inductive Field where
  | name
  | description
  | category
  | basePrice
  | discount
  | status
deriving DecidableEq

namespace Field

def all : List Field := [name, description, category, basePrice, discount, status]

/-- The bit that stands for the field in the number of a set. -/
def bit : Field → Nat
  | name => 1
  | description => 2
  | category => 4
  | basePrice => 8
  | discount => 16
  | status => 32

theorem mem_all (f : Field) : f ∈ all := by
  cases f <;> decide

end Field

@[ext]
structure FieldSet where
  name : Bool
  description : Bool
  category : Bool
  basePrice : Bool
  discount : Bool
  status : Bool
deriving DecidableEq

namespace FieldSet

def empty : FieldSet := ⟨false, false, false, false, false, false⟩

instance : EmptyCollection FieldSet := ⟨empty⟩
instance : Inhabited FieldSet := ⟨empty⟩

def contains (s : FieldSet) : Field → Bool
  | .name => s.name
  | .description => s.description
  | .category => s.category
  | .basePrice => s.basePrice
  | .discount => s.discount
  | .status => s.status

/-- The set with a field put in or taken out. -/
def put (s : FieldSet) (f : Field) (present : Bool) : FieldSet :=
  match f with
  | .name => { s with name := present }
  | .description => { s with description := present }
  | .category => { s with category := present }
  | .basePrice => { s with basePrice := present }
  | .discount => { s with discount := present }
  | .status => { s with status := present }

def insert (s : FieldSet) (f : Field) : FieldSet := s.put f true

def erase (s : FieldSet) (f : Field) : FieldSet := s.put f false

def insertAll (s : FieldSet) (fs : List Field) : FieldSet := fs.foldl insert s

/-- The members, in declaration order. -/
def toList (s : FieldSet) : List Field := Field.all.filter s.contains

def isEmpty (s : FieldSet) : Bool := s.toList.isEmpty

/-- The sum of the members' bits. -/
def bits (s : FieldSet) : Nat := s.toList.foldl (fun n f => n + f.bit) 0

theorem contains_put (s : FieldSet) (f g : Field) (b : Bool) :
    (s.put f b).contains g = if f = g then b else s.contains g := by
  cases f <;> cases g <;> rfl

theorem contains_empty (f : Field) : (∅ : FieldSet).contains f = false := by
  cases f <;> rfl

theorem contains_insert (s : FieldSet) (f g : Field) :
    (s.insert f).contains g = (decide (f = g) || s.contains g) := by
  rw [insert, contains_put]
  by_cases h : f = g <;> simp [h]

theorem contains_insertAll (s : FieldSet) (fs : List Field) (g : Field) :
    (s.insertAll fs).contains g = (decide (g ∈ fs) || s.contains g) := by
  unfold insertAll
  induction fs generalizing s with
  | nil => simp
  | cons f fs ih =>
      rw [List.foldl_cons, ih, contains_insert]
      by_cases h : f = g
      · simp [h]
      · have hne : ¬ g = f := fun he => h he.symm
        simp [h, hne]

theorem eq_of_contains_eq {s t : FieldSet} (h : ∀ f, s.contains f = t.contains f) : s = t :=
  FieldSet.ext (h .name) (h .description) (h .category) (h .basePrice) (h .discount) (h .status)

theorem mem_toList {s : FieldSet} {f : Field} : f ∈ s.toList ↔ s.contains f = true := by
  simp [toList, Field.mem_all]

end FieldSet

end Assortment.Goods
