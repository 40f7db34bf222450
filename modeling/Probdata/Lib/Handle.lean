/-
# A handle and what is done with it

A resource is reached through a handle that is live until it is freed. Both a
use and a free ask for a live handle. `Handle.run` follows a list of them, and
is `none` from the first one that meets a freed handle.
-/
import Mathlib.Data.List.Count

namespace Probdata

inductive Handle
  | live
  | freed
  deriving DecidableEq, Repr

namespace Handle

inductive Op
  | use
  | free
  deriving DecidableEq, Repr

def does : Handle → Op → Option Handle
  | live, .use => some live
  | live, .free => some freed
  | freed, _ => none

/-- The handle after the operations. -/
def run : List Op → Handle → Option Handle
  | [], h => some h
  | op :: ops, h => (h.does op).bind (run ops)

variable {ops ops' : List Op} {h : Handle}

@[simp] theorem run_nil : run [] h = some h := rfl

@[simp] theorem run_use (ops : List Op) : run (.use :: ops) live = run ops live := rfl

@[simp] theorem run_free (ops : List Op) : run (.free :: ops) live = run ops freed := rfl

@[simp] theorem run_cons_freed (op : Op) (ops : List Op) : run (op :: ops) freed = none := rfl

theorem run_append (ops ops' : List Op) (h : Handle) :
    run (ops ++ ops') h = (run ops h).bind (run ops') := by
  induction ops generalizing h with
  | nil => rfl
  | cons op ops ih =>
    simp only [List.cons_append, run, Option.bind_assoc]
    exact Option.bind_congr fun h _ => ih h

theorem run_append_of_live (hl : run ops h = some live) :
    run (ops ++ ops') h = run ops' live := by
  rw [run_append, hl, Option.bind_some]

/-- A handle that ends freed, never used afterwards, was freed exactly once. -/
theorem count_of_freed (hf : run ops live = some freed) : ops.count .free = 1 := by
  induction ops with
  | nil => cases hf
  | cons op ops ih =>
    cases op with
    | use => simpa using ih hf
    | free =>
      cases ops with
      | nil => rfl
      | cons op ops => cases hf

end Handle
end Probdata
