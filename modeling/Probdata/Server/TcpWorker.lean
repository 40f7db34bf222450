/-
# The TCP worker of the server and its test

`probdata_server_tcp_fastprof_worker` serves tests with one `iperf_test` until
ten calls in a row fail, a reset fails, or the thread is cancelled. The test is
deleted both behind the loop and by the cleanup handler, which also runs when it
is popped. So the worker frees its test exactly once only where it does not come
past the delete behind its loop (`freesOnce_iff`).
-/
import Probdata.Lib.Handle
import Probdata.Fastprof.Tcp
import Probdata.Server.UdtWorker

namespace Probdata
namespace Server

open Fastprof

/-- Where the worker can act on a request to cancel it. The numbers are those of
the iterations of its loop. The log line before the loop only takes and releases
the lock of the log, so a request made there waits for `pthread_testcancel`. -/
inductive CancelPoint
  | testcancel (i : ℕ)
  | runServer (i : ℕ)
  /-- The message about a call that failed. -/
  | failed (i : ℕ)
  /-- The message about too many errors. -/
  | tooMany (i : ℕ)
  | reset (i : ℕ)
  /-- The delete behind the loop, before or after it has freed the test. -/
  | delete (freed : Bool)
  /-- The reset of the handler that `pthread_cleanup_pop` runs. -/
  | handler
  deriving DecidableEq, Repr

/-- What the worker meets: the test that `iperf_run_server` leaves in each
iteration and the value it returns, the library at each reset, and where a
request to cancel the thread is acted on. -/
structure TcpInputs where
  runServer : ℕ → IperfTest × ℤ
  lib : ℕ → IperfLib
  ctrl : FastprofCtrl ℚ
  cancel : Option CancelPoint

inductive TcpPc
  | start
  | loop
  /-- Behind the loop, before the delete. -/
  | behind
  | exited
  deriving DecidableEq, Repr

/-- The variables of the worker, the number of its iteration, whether its
cleanup handler is on the stack, and what it has done with the test. -/
structure TcpWorker where
  pc : TcpPc
  iter : ℕ
  errCnt : ℤ
  pushed : Bool
  ops : List Handle.Op
  deriving DecidableEq, Repr

namespace TcpWorker

def start : TcpWorker := ⟨.start, 0, 0, false, []⟩

/-- `probdata_server_tcp_prof_reset` in iteration `i`. -/
def profReset (I : TcpInputs) (i : ℕ) : ℤ :=
  (fTcpProfReset (I.lib i) (I.runServer i).1 I.ctrl).2

def resets (w : TcpWorker) : TcpWorker := { w with ops := w.ops ++ [.use] }

def deletes (w : TcpWorker) : TcpWorker := { w with ops := w.ops ++ [.free] }

/-- `probdata_server_tcp_fastprof_cleanup_handler` -/
def cleanupHandler (w : TcpWorker) : TcpWorker := w.resets.deletes

/-- The request is acted on: the handler runs if it is on the stack. -/
def cancelled (w : TcpWorker) : TcpWorker :=
  let w := if w.pushed then { w with pushed := false }.cleanupHandler else w
  { w with pc := .exited }

/-- The end of an iteration. -/
def reset (I : TcpInputs) (w : TcpWorker) : TcpWorker :=
  if I.cancel = some (.reset w.iter) then w.resets.cancelled
  else if profReset I w.iter < 0 then { w.resets with pc := .behind }
  else { w.resets with iter := w.iter + 1 }

def iteration (I : TcpInputs) (w : TcpWorker) : TcpWorker :=
  if I.cancel = some (.testcancel w.iter) then w.cancelled
  else if I.cancel = some (.runServer w.iter) then w.cancelled
  else if (I.runServer w.iter).2 < 0 then
    if I.cancel = some (.failed w.iter) then w.cancelled
    else
      let w := { w with errCnt := w.errCnt + 1 }
      if w.errCnt ≥ pMaxErrorNum then
        if I.cancel = some (.tooMany w.iter) then w.cancelled else { w with pc := .behind }
      else w.reset I
  else { w with errCnt := 0 }.reset I

/-- What follows the loop: the delete, and `pthread_cleanup_pop(1)`, which takes
the handler off the stack and runs it. -/
def behind (I : TcpInputs) (w : TcpWorker) : TcpWorker :=
  if I.cancel = some (.delete false) then w.cancelled
  else if I.cancel = some (.delete true) then w.deletes.cancelled
  else
    let w := { w.deletes with pushed := false }
    if I.cancel = some .handler then w.resets.cancelled
    else { w.cleanupHandler with pc := .exited }

def step (I : TcpInputs) (w : TcpWorker) : TcpWorker :=
  match w.pc with
  | .start => { w with pc := .loop, pushed := true }
  | .loop => w.iteration I
  | .behind => w.behind I
  | .exited => w

def run (I : TcpInputs) : ℕ → TcpWorker
  | 0 => start
  | n + 1 => (run I n).step I

/-- The test was freed exactly once if the worker has exited, and it was neither
reset nor freed after that. -/
structure FreedOnce (w : TcpWorker) : Prop where
  once : w.pc = .exited → w.ops.count .free = 1
  clean : Handle.run w.ops .live ≠ none

/-! ### The outcomes -/

/-- Iteration `i` is the tenth in a row whose `iperf_run_server` fails. -/
def TenErrors (I : TcpInputs) (i : ℕ) : Prop :=
  9 ≤ i ∧ ∀ j ≤ i, i ≤ j + 9 → (I.runServer j).2 < 0

/-- The outcomes of iteration `i` end the loop. -/
def Leaves (I : TcpInputs) (i : ℕ) : Prop := TenErrors I i ∨ profReset I i < 0

/-- The request is acted on in iteration `i`, if the loop comes to it. -/
def ActsIn (I : TcpInputs) (i : ℕ) : Prop :=
  I.cancel = some (.testcancel i) ∨ I.cancel = some (.runServer i) ∨
    (I.cancel = some (.failed i) ∧ (I.runServer i).2 < 0) ∨
    (I.cancel = some (.tooMany i) ∧ TenErrors I i) ∨
    (I.cancel = some (.reset i) ∧ ¬ TenErrors I i)

/-- The calls in a row that failed before iteration `i`. -/
def inARow (I : TcpInputs) : ℕ → ℕ
  | 0 => 0
  | i + 1 => if (I.runServer i).2 < 0 then inARow I i + 1 else 0

variable {I : TcpInputs} {w : TcpWorker} {i n : ℕ}

theorem inARow_succ_of_neg (h : (I.runServer i).2 < 0) : inARow I (i + 1) = inARow I i + 1 := by
  rw [inARow, if_pos h]

theorem inARow_succ_of_nonneg (h : ¬ (I.runServer i).2 < 0) : inARow I (i + 1) = 0 := by
  rw [inARow, if_neg h]

/-- At least `k` calls in a row failed if the last `k` of them did. -/
theorem le_inARow_iff {k : ℕ} : k ≤ inARow I n ↔
    k ≤ n ∧ ∀ j < n, n ≤ j + k → (I.runServer j).2 < 0 := by
  induction n generalizing k with
  | zero => simp [inARow]
  | succ n ih =>
    by_cases h : (I.runServer n).2 < 0
    · rw [inARow_succ_of_neg h]
      cases k with
      | zero => simp; omega
      | succ k =>
        rw [Nat.succ_le_succ_iff, ih]
        constructor
        · rintro ⟨hk, hall⟩
          refine ⟨by omega, fun j hj hle => ?_⟩
          rcases Nat.lt_succ_iff_lt_or_eq.mp hj with hj | rfl
          · exact hall j hj (by omega)
          · exact h
        · rintro ⟨hk, hall⟩
          exact ⟨by omega, fun j hj hle => hall j (by omega) (by omega)⟩
    · rw [inARow_succ_of_nonneg h]
      constructor
      · intro hk
        exact ⟨by omega, fun j hj hle => by omega⟩
      · rintro ⟨-, hall⟩
        by_contra hk
        exact h (hall n (by omega) (by omega))

theorem tenErrors_iff : TenErrors I i ↔ 10 ≤ inARow I (i + 1) := by
  rw [le_inARow_iff, TenErrors]
  constructor
  · rintro ⟨h9, hall⟩
    exact ⟨by omega, fun j hj hle => hall j (by omega) (by omega)⟩
  · rintro ⟨h10, hall⟩
    exact ⟨by omega, fun j hj hle => hall j (by omega) (by omega)⟩

theorem TenErrors.neg (h : TenErrors I i) : (I.runServer i).2 < 0 :=
  h.2 i le_rfl (by omega)

/-! ### An iteration -/

/-- The worker is at the head of iteration `i`. -/
structure InLoop (I : TcpInputs) (i : ℕ) (w : TcpWorker) : Prop where
  pc : w.pc = .loop
  iter : w.iter = i
  errCnt : w.errCnt = inARow I i
  pushed : w.pushed = true
  live : Handle.run w.ops .live = some .live

/-- The worker has left its loop with the test live. -/
structure IsBehind (w : TcpWorker) : Prop where
  pc : w.pc = .behind
  pushed : w.pushed = true
  live : Handle.run w.ops .live = some .live

/-- The worker has exited, and its test is freed. -/
structure HasFreed (w : TcpWorker) : Prop where
  pc : w.pc = .exited
  freed : Handle.run w.ops .live = some .freed

theorem hasFreed_cancelled (hp : w.pushed = true) (hl : Handle.run w.ops .live = some .live) :
    w.cancelled.HasFreed := by
  rw [cancelled, if_pos hp]
  refine ⟨rfl, ?_⟩
  simp [cleanupHandler, resets, deletes, Handle.run_append_of_live hl]

theorem live_resets (hl : Handle.run w.ops .live = some .live) :
    Handle.run w.resets.ops .live = some .live := by
  simp [resets, Handle.run_append_of_live hl]

/-- What an iteration makes of the worker, by the outcomes and the request. -/
structure Turn (I : TcpInputs) (i : ℕ) (w' : TcpWorker) : Prop where
  acts : ActsIn I i → w'.HasFreed
  leaves : ¬ ActsIn I i → Leaves I i → w'.IsBehind
  goes : ¬ ActsIn I i → ¬ Leaves I i → InLoop I (i + 1) w'

theorem turn_cancelled (hp : w.pushed = true) (hl : Handle.run w.ops .live = some .live)
    (ha : ActsIn I i) : Turn I i w.cancelled :=
  ⟨fun _ => hasFreed_cancelled hp hl, fun hn => absurd ha hn, fun hn => absurd ha hn⟩

/-- The end of an iteration that is not the tenth in a row to fail. -/
theorem turn_reset (hpc : w.pc = .loop) (hp : w.pushed = true)
    (hl : Handle.run w.ops .live = some .live) (he : w.errCnt = inARow I (w.iter + 1))
    (ht : ¬ TenErrors I w.iter) (ha : ActsIn I w.iter ↔ I.cancel = some (.reset w.iter)) :
    Turn I w.iter (w.reset I) := by
  unfold reset
  by_cases hc : I.cancel = some (.reset w.iter)
  · rw [if_pos hc]
    exact turn_cancelled hp (live_resets hl) (ha.mpr hc)
  rw [if_neg hc]
  by_cases hr : profReset I w.iter < 0
  · rw [if_pos hr]
    exact ⟨fun h => absurd (ha.mp h) hc, fun _ _ => ⟨rfl, hp, live_resets hl⟩,
      fun _ hn => absurd (Or.inr hr) hn⟩
  · rw [if_neg hr]
    exact ⟨fun h => absurd (ha.mp h) hc, fun _ h => absurd h (by simp [Leaves, ht, hr]),
      fun _ _ => ⟨hpc, rfl, he, hp, live_resets hl⟩⟩

theorem turn_step (h : InLoop I i w) : Turn I i (w.step I) := by
  have hstep : w.step I = w.iteration I := by rw [step, h.pc]
  rw [hstep]
  have hi := h.iter
  subst hi
  unfold iteration
  by_cases htest : I.cancel = some (.testcancel w.iter)
  · rw [if_pos htest]
    exact turn_cancelled h.pushed h.live (Or.inl htest)
  rw [if_neg htest]
  by_cases hrun : I.cancel = some (.runServer w.iter)
  · rw [if_pos hrun]
    exact turn_cancelled h.pushed h.live (Or.inr (Or.inl hrun))
  rw [if_neg hrun]
  by_cases hneg : (I.runServer w.iter).2 < 0
  · rw [if_pos hneg]
    by_cases hfail : I.cancel = some (.failed w.iter)
    · rw [if_pos hfail]
      exact turn_cancelled h.pushed h.live (Or.inr (Or.inr (Or.inl ⟨hfail, hneg⟩)))
    rw [if_neg hfail]
    have herr : w.errCnt + 1 = inARow I (w.iter + 1) := by
      rw [inARow_succ_of_neg hneg, h.errCnt, Nat.cast_succ]
    have hten : w.errCnt + 1 ≥ pMaxErrorNum ↔ TenErrors I w.iter := by
      rw [herr, tenErrors_iff, pMaxErrorNum]
      omega
    dsimp only
    by_cases ht : TenErrors I w.iter
    · rw [if_pos (hten.mpr ht)]
      by_cases hmany : I.cancel = some (.tooMany w.iter)
      · rw [if_pos hmany]
        exact turn_cancelled h.pushed h.live (Or.inr (Or.inr (Or.inr (Or.inl ⟨hmany, ht⟩))))
      · rw [if_neg hmany]
        have ha : ¬ ActsIn I w.iter := by simp [ActsIn, htest, hrun, hfail, hmany, ht]
        exact ⟨fun h' => absurd h' ha, fun _ _ => ⟨rfl, h.pushed, h.live⟩,
          fun _ hn => absurd (Or.inl ht) hn⟩
    · rw [if_neg fun h' => ht (hten.mp h')]
      exact turn_reset (w := { w with errCnt := w.errCnt + 1 }) h.pc h.pushed h.live herr ht
        (by simp [ActsIn, htest, hrun, hfail, ht])
  · rw [if_neg hneg]
    have ht : ¬ TenErrors I w.iter := fun h' => hneg h'.neg
    exact turn_reset (w := { w with errCnt := 0 }) h.pc h.pushed h.live
      (by rw [inARow_succ_of_nonneg hneg, Nat.cast_zero]) ht
      (by simp [ActsIn, htest, hrun, hneg, ht])

/-- Behind the loop the test is freed, and then used again by a handler unless
the request is acted on before. -/
theorem behind_cases (h : w.IsBehind) :
    (I.cancel = some (.delete false) → (w.step I).HasFreed) ∧
      (I.cancel ≠ some (.delete false) → Handle.run (w.step I).ops .live = none) := by
  have hstep : w.step I = w.behind I := by rw [step, h.pc]
  rw [hstep]
  unfold behind
  constructor
  · intro hc
    rw [if_pos hc]
    exact hasFreed_cancelled h.pushed h.live
  · intro hc
    rw [if_neg hc]
    split
    · simp [cancelled, deletes, cleanupHandler, resets, h.pushed, Handle.run_append_of_live h.live]
    · dsimp only
      split
      · simp [cancelled, deletes, resets, Handle.run_append_of_live h.live]
      · simp [cleanupHandler, deletes, resets, Handle.run_append_of_live h.live]

/-! ### A run -/

theorem HasFreed.freedOnce (h : w.HasFreed) : w.FreedOnce :=
  ⟨fun _ => Handle.count_of_freed h.freed, by rw [h.freed]; exact Option.some_ne_none _⟩

theorem freedOnce_of_live (hpc : w.pc ≠ .exited) (hl : Handle.run w.ops .live = some .live) :
    w.FreedOnce :=
  ⟨fun h => absurd h hpc, by rw [hl]; exact Option.some_ne_none _⟩

/-- The worker comes to the head of an iteration that no iteration before ends. -/
theorem inLoop_run (hbefore : ∀ j < i, ¬ Leaves I j ∧ ¬ ActsIn I j) :
    InLoop I i (run I (i + 1)) := by
  induction i with
  | zero => exact ⟨rfl, rfl, rfl, rfl, rfl⟩
  | succ i ih =>
    have hi := hbefore i (Nat.lt_succ_self i)
    exact (turn_step (ih fun j hj => hbefore j (Nat.lt_succ_of_lt hj))).goes hi.2 hi.1

/-- Wherever the outcomes end the loop, the request is acted on in an iteration up
to there, or in the delete before it has freed the test. -/
def Rescued (I : TcpInputs) : Prop :=
  ∀ i, Leaves I i → I.cancel = some (.delete false) ∨ ∃ j ≤ i, ActsIn I j

/-- What holds after every step of a worker whose test is freed once. -/
inductive Route (I : TcpInputs) (w : TcpWorker) : Prop
  | started (h : w = start)
  | loop (i : ℕ) (h : InLoop I i w) (hbefore : ∀ j < i, ¬ ActsIn I j)
  | behind (h : w.IsBehind) (hc : I.cancel = some (.delete false))
  | freed (h : w.HasFreed)

theorem Route.freedOnce (h : Route I w) : w.FreedOnce := by
  cases h with
  | started h => exact h ▸ freedOnce_of_live (by decide) rfl
  | loop i h _ => exact freedOnce_of_live (by simp [h.pc]) h.live
  | behind h _ => exact freedOnce_of_live (by simp [h.pc]) h.live
  | freed h => exact h.freedOnce

theorem Route.step (hr : Rescued I) (h : Route I w) : Route I (w.step I) := by
  cases h with
  | started h =>
    subst h
    exact .loop 0 (inLoop_run fun j hj => absurd hj (Nat.not_lt_zero j))
      fun j hj => absurd hj (Nat.not_lt_zero j)
  | loop i h hbefore =>
    have hi := turn_step h
    by_cases ha : ActsIn I i
    · exact .freed (hi.acts ha)
    have hbefore' : ∀ j < i + 1, ¬ ActsIn I j := by
      intro j hj
      rcases Nat.lt_succ_iff_lt_or_eq.mp hj with hj | rfl
      · exact hbefore j hj
      · exact ha
    by_cases hl : Leaves I i
    · rcases hr i hl with hc | ⟨j, hj, haj⟩
      · exact .behind (hi.leaves ha hl) hc
      · exact absurd haj (hbefore' j (Nat.lt_succ_of_le hj))
    · exact .loop (i + 1) (hi.goes ha hl) hbefore'
  | behind h hc => exact .freed ((behind_cases h).1 hc)
  | freed h =>
    have hstep : w.step I = w := by rw [TcpWorker.step, h.pc]
    rw [hstep]
    exact .freed h

theorem route_run (hr : Rescued I) (n : ℕ) : Route I (run I n) := by
  induction n with
  | zero => exact .started rfl
  | succ n ih => exact ih.step hr

/-- A worker that is not rescued uses its test after it was freed. -/
theorem exists_run_of_not_rescued (hr : ¬ Rescued I) :
    ∃ n, Handle.run (run I n).ops .live = none := by
  classical
  simp only [Rescued, not_forall, not_or, not_exists, not_and] at hr
  obtain ⟨k, hk, hc, hnone⟩ := hr
  -- the first iteration whose outcomes end the loop
  have hex : ∃ i, Leaves I i := ⟨k, hk⟩
  have hle : Nat.find hex ≤ k := Nat.find_min' hex hk
  have hloop : InLoop I (Nat.find hex) (run I (Nat.find hex + 1)) := inLoop_run
    fun j hj => ⟨Nat.find_min hex hj, hnone j (hj.le.trans hle)⟩
  have hbehind : (run I (Nat.find hex + 2)).IsBehind :=
    (turn_step hloop).leaves (hnone _ hle) (Nat.find_spec hex)
  exact ⟨Nat.find hex + 3, (behind_cases hbehind).2 hc⟩

/-- The worker frees its test exactly once, and neither resets nor frees it after
that, if and only if it does not come past the delete behind its loop. -/
theorem freesOnce_iff (I : TcpInputs) : (∀ n, (run I n).FreedOnce) ↔ Rescued I := by
  constructor
  · intro h
    by_contra hr
    obtain ⟨n, hn⟩ := exists_run_of_not_rescued hr
    exact (h n).clean hn
  · intro hr n
    exact (route_run hr n).freedOnce

/-- Every call of `iperf_run_server` fails, and nobody cancels the worker. -/
def failingInputs : TcpInputs where
  runServer := fun _ => (⟨'s', [], 5001, 10, 1460, 0, 0, 1⟩, -1)
  lib := fun _ => plainIperf
  ctrl := plainCtrl (10 ^ 10) 60
  cancel := none

/-- After ten errors in a row the test is freed, and then reset and freed again. -/
theorem not_freesOnce_tenErrors : ¬ ∀ n, (run failingInputs n).FreedOnce := by
  intro h
  have hused : Handle.run (run failingInputs 12).ops .live = none := by decide
  exact (h 12).clean hused

end TcpWorker
end Server
end Probdata
