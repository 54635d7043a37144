import Assortment.Storage.Error
import Assortment.Storage.Mutation
import Std.Data.ExtTreeMap

/-!
# Metrics

Counters by name, and the size of every plan that was committed. A plan that is not empty counts once,
as a commit or as a failure; an empty one does not count.
-/
namespace Assortment.Service
open Assortment.Storage

/-- What has been counted so far. -/
structure Metrics where
  counters : Std.ExtTreeMap String Nat := ∅
  /-- The sizes of the committed plans, in order. -/
  commitSizes : List Nat := []

namespace Metrics

def increment (m : Metrics) (counter : String) : Metrics :=
  { m with counters := m.counters.insert counter (m.counters.getD counter 0 + 1) }

/-- Counts what became of a plan. -/
def observe (m : Metrics) (plan : Plan) (result : Except StorageError Unit) : Metrics :=
  if plan.isEmpty then m
  else match result with
    | .ok _ =>
        let counted := m.increment "store_commits_total"
        { counted with commitSizes := counted.commitSizes ++ [plan.size] }
    | .error _ => m.increment "store_commit_failures_total"

def countCommand (m : Metrics) (command : String) : Metrics :=
  m.increment ("catalog_commands_total\x7bcommand=" ++ command ++ "\x7d")

end Metrics

end Assortment.Service
