import Assortment.Storage.Row

/-!
# Mutations and plans

A mutation writes one row of one table, found by the text of its key. A plan is a list of mutations that
are committed together; adding nothing to it is allowed and has no effect.
-/
namespace Assortment.Storage

/-- The two ways to write a row. -/
inductive Mutation.Kind where
  /-- A new row; there must be none under the key yet. -/
  | insert
  /-- Some columns of a row that must be there. -/
  | update
deriving DecidableEq

@[ext]
structure Mutation where
  kind : Mutation.Kind
  table : String
  keyColumn : String
  key : Value
  /-- The columns to write besides the key column. -/
  values : List (String × Value)
deriving DecidableEq

namespace Mutation

/-- The first value that is written to a column. -/
def value? (m : Mutation) (column : String) : Option Value :=
  (m.values.find? (·.1 == column)).map (·.2)

def writes (m : Mutation) (column : String) : Bool := (m.value? column).isSome

/-- The row that an insert leaves: the key column and the others. -/
def row (m : Mutation) : Row := Row.ofList ((m.keyColumn, m.key) :: m.values)

end Mutation

/-- Mutations that are committed together, in order. -/
@[ext]
structure Plan where
  mutations : List Mutation := []
deriving DecidableEq

namespace Plan

def empty : Plan := ⟨[]⟩

instance : EmptyCollection Plan := ⟨empty⟩
instance : Inhabited Plan := ⟨empty⟩

/-- The plan with one more mutation at its end, if there is one to add. -/
def push (p : Plan) : Option Mutation → Plan
  | some m => ⟨p.mutations ++ [m]⟩
  | none => p

/-- The plan with more mutations at its end, as far as there are any. -/
def pushAll (p : Plan) (ms : List (Option Mutation)) : Plan := ms.foldl push p

def size (p : Plan) : Nat := p.mutations.length

def isEmpty (p : Plan) : Bool := p.mutations.isEmpty

@[simp]
theorem mutations_empty : (∅ : Plan).mutations = [] := rfl

@[simp]
theorem mutations_push (p : Plan) (m : Option Mutation) :
    (p.push m).mutations = p.mutations ++ m.toList := by
  cases m <;> simp [push]

@[simp]
theorem mutations_pushAll (p : Plan) (ms : List (Option Mutation)) :
    (p.pushAll ms).mutations = p.mutations ++ ms.filterMap id := by
  unfold pushAll
  induction ms generalizing p with
  | nil => simp
  | cons m ms ih => cases m <;> simp [ih]

end Plan

end Assortment.Storage
