/-
# The UDT worker of the server, and its client

`probdata_server_udt_fastprof_worker` serves tests until the server's status
changes, a limit on the tests is passed, or too many fail. The client of the
same session counts the same tests with the loop of `f_udt_client_run`. The two
agree on the limit exactly if the client does not go on to a test that the
worker no longer waits for (`servesAll_iff_mod`).
-/
import Probdata.Fastprof.Length
import Probdata.Fastprof.Udt

namespace Probdata
namespace Server

open Fastprof

def pMaxErrorNum : ℤ := 10

/-- Why the worker left its loop: the status is no longer `P_RUN_M2M_UDT`, the
limit on the tests, too many errors, or a reset that failed. -/
inductive Left
  | status
  | limit
  | errors
  | reset
  deriving DecidableEq, Repr

/-- The variables of the worker; `left` is none while it is in its loop. -/
structure UdtWorker where
  errCnt : ℤ
  okCnt : ℤ
  left : Option Left
  deriving DecidableEq, Repr

namespace UdtWorker

def start : UdtWorker := ⟨0, 0, none⟩

/-- The checks before a test is served. -/
def head (maxProfLimit : ℤ) (runUdt : Bool) (w : UdtWorker) : UdtWorker :=
  if !runUdt then { w with left := some .status }
  else if w.okCnt > maxProfLimit then { w with left := some .limit }
  else if w.errCnt ≥ pMaxErrorNum then { w with left := some .errors }
  else w

/-- `tpg_server_run` returned `ret`; `reset` says whether a reset succeeds. -/
def served (ret : ℤ) (reset : Bool) (w : UdtWorker) : UdtWorker :=
  if ret < 0 then
    if !reset then { w with left := some .reset }
    else
      let w := { w with errCnt := w.errCnt + 1 }
      if w.errCnt > pMaxErrorNum then { w with left := some .errors } else w
  else if ret = 0 then w
  else { w with errCnt := 0, okCnt := w.okCnt + 1 }

/-- An iteration of the loop, while the status is `P_RUN_M2M_UDT`. -/
def step (maxProfLimit : ℤ) (call : ℤ × Bool) (w : UdtWorker) : UdtWorker :=
  if w.left = none then
    let w := w.head maxProfLimit true
    if w.left = none then w.served call.1 call.2 else w
  else w

/-- The loop after the given calls of `tpg_server_run`. -/
def run (maxProfLimit : ℤ) (calls : List (ℤ × Bool)) : UdtWorker :=
  calls.foldl (fun w call => w.step maxProfLimit call) start

/-- After the given calls, and the checks that follow, the worker has left its
loop because of its limit. -/
def pastLimit (maxProfLimit : ℤ) (calls : List (ℤ × Bool)) : Bool :=
  let w := run maxProfLimit calls
  if w.left = none then (w.head maxProfLimit true).left = some .limit else w.left = some .limit

/-- The tests that the calls served. -/
def tests (calls : List (ℤ × Bool)) : ℕ := calls.countP fun call => 0 < call.1

/-- While it is in its loop the worker has counted the tests it served, and it
leaves because of its limit only past it. -/
structure Counts (N : ℤ) (n : ℕ) (w : UdtWorker) : Prop where
  okCnt : w.left = none → w.okCnt = n
  limit : w.left = some .limit → N < n

variable {N : ℤ} {n : ℕ} {w : UdtWorker}

theorem Counts.ofLeft {l : Left} (hw : w.left = some l) (hl : l ≠ .limit) : w.Counts N n :=
  ⟨fun h => absurd (hw.symm.trans h) (by simp),
    fun h => absurd (Option.some.inj (hw.symm.trans h)) hl⟩

theorem Counts.head (h : w.Counts N n) (hw : w.left = none) : (w.head N true).Counts N n := by
  have hok := h.okCnt hw
  unfold UdtWorker.head
  simp only [Bool.not_true, Bool.false_eq_true, ↓reduceIte]
  split
  · rename_i hN
    exact ⟨fun hn => by simp at hn, fun _ => hok ▸ hN⟩
  split
  · exact ⟨fun hn => by simp at hn, fun hl => by simp at hl⟩
  · exact h

theorem Counts.served (h : w.Counts N n) (hw : w.left = none) (call : ℤ × Bool) :
    (w.served call.1 call.2).Counts N (n + tests [call]) := by
  have hok := h.okCnt hw
  unfold UdtWorker.served
  rcases lt_trichotomy call.1 0 with hneg | hzero | hpos
  · have ht : tests [call] = 0 := by simp [tests, List.countP_cons]; omega
    rw [if_pos hneg]
    split
    · exact Counts.ofLeft rfl (by simp)
    dsimp only
    split
    · exact Counts.ofLeft rfl (by simp)
    · rw [ht]; exact ⟨fun _ => hok, fun hl => absurd (hw.symm.trans hl) (by simp)⟩
  · have ht : tests [call] = 0 := by simp [tests, List.countP_cons]; omega
    rw [if_neg (by omega), if_pos hzero, ht]
    exact h
  · have ht : tests [call] = 1 := by simp [tests, List.countP_cons]; omega
    rw [if_neg (by omega), if_neg (by omega), ht]
    exact ⟨fun _ => by push_cast; rw [← hok], fun hl => absurd (hw.symm.trans hl) (by simp)⟩

theorem Counts.step (h : w.Counts N n) (call : ℤ × Bool) :
    (w.step N call).Counts N (n + tests [call]) := by
  have hmono : ∀ {w' : UdtWorker}, w'.Counts N n → w'.left ≠ none →
      w'.Counts N (n + tests [call]) := fun h' hne =>
    ⟨fun hn => absurd hn hne, fun hl => lt_of_lt_of_le (h'.limit hl) (by push_cast; omega)⟩
  unfold UdtWorker.step
  split
  · rename_i hw
    dsimp only
    split
    · rename_i hw'
      exact (h.head hw).served hw' call
    · rename_i hw'
      exact hmono (h.head hw) hw'
  · rename_i hw
    exact hmono h hw

theorem counts_run (N : ℤ) (calls : List (ℤ × Bool)) : (run N calls).Counts N (tests calls) := by
  induction calls using List.reverseRecOn with
  | nil => exact ⟨fun _ => rfl, fun h => by cases h⟩
  | append_singleton calls call ih =>
    have hr : run N (calls ++ [call]) = (run N calls).step N call := by simp [run]
    have ht : tests (calls ++ [call]) = tests calls + tests [call] := by
      simp [tests, List.countP_append]
    rw [hr, ht]
    exact ih.step call

/-- The worker passes its limit only by serving more tests. -/
theorem lt_of_pastLimit {calls : List (ℤ × Bool)} (h : pastLimit N calls = true) :
    N < tests calls := by
  have hc := counts_run N calls
  unfold pastLimit at h
  dsimp only at h
  split at h
  · rename_i hw
    exact (hc.head hw).limit (by simpa using h)
  · exact hc.limit (by simpa using h)

/-- Without errors the worker leaves its loop because of its limit only. -/
theorem step_of_nonneg {call : ℤ × Bool} (hc : 0 ≤ call.1)
    (h : w.errCnt = 0 ∧ (w.left = none ∨ w.left = some .limit)) :
    (w.step N call).errCnt = 0 ∧
      ((w.step N call).left = none ∨ (w.step N call).left = some .limit) := by
  have hhead : (w.head N true).errCnt = 0 ∧ (w.left = none →
      (w.head N true).left = none ∨ (w.head N true).left = some .limit) := by
    unfold UdtWorker.head
    simp only [Bool.not_true, Bool.false_eq_true, ↓reduceIte, h.1, pMaxErrorNum]
    split
    · exact ⟨rfl, fun _ => Or.inr rfl⟩
    · exact ⟨h.1, fun hw => Or.inl hw⟩
  unfold UdtWorker.step
  split
  · rename_i hw
    dsimp only
    split
    · rename_i hw'
      unfold UdtWorker.served
      rw [if_neg (by omega)]
      split
      · exact ⟨hhead.1, Or.inl hw'⟩
      · exact ⟨rfl, Or.inl hw'⟩
    · exact ⟨hhead.1, hhead.2 hw⟩
  · exact h

theorem run_of_nonneg {calls : List (ℤ × Bool)} (hcalls : ∀ call ∈ calls, 0 ≤ call.1) :
    (run N calls).errCnt = 0 ∧
      ((run N calls).left = none ∨ (run N calls).left = some .limit) := by
  induction calls using List.reverseRecOn with
  | nil => exact ⟨rfl, Or.inl rfl⟩
  | append_singleton calls call ih =>
    have hr : run N (calls ++ [call]) = (run N calls).step N call := by simp [run]
    rw [hr]
    exact step_of_nonneg (hcalls call (by simp)) (ih fun c hc => hcalls c (by simp [hc]))

/-- Serving more tests than the limit, without errors in between, takes the
worker past the limit. -/
theorem pastLimit_of_lt {calls : List (ℤ × Bool)} (hcalls : ∀ call ∈ calls, 0 ≤ call.1)
    (h : N < tests calls) : pastLimit N calls = true := by
  unfold pastLimit
  dsimp only
  rcases (run_of_nonneg (N := N) hcalls).2 with hw | hw
  · have hok := (counts_run N calls).okCnt hw
    rw [if_pos hw, head, if_neg (by simp), if_pos (by omega)]
    rfl
  · rw [if_neg (by rw [hw]; simp), hw]
    rfl

end UdtWorker

/-! ### The two ends of a session -/

section Session

variable {K : Type*} [Field K] [LinearOrder K]

/-- The search stops short of a limit whose residue is not 1. -/
theorem not_goes_of_mod {P : Setup K} (h0 : 0 ≤ P.ctrl.maxLimit) (h1 : P.ctrl.maxLimit % 3 ≠ 1) :
    ¬ Goes P (P.ctrl.maxLimit + 1).toNat := by
  intro hG
  have hN : P.lim.maxProf = P.ctrl.maxLimit := by
    simp only [Setup.lim, FastprofCtrl.limits]
    rw [if_neg (not_lt.mpr h0)]
  have hlast : ∀ i : ℕ, (i : ℤ) ≤ P.ctrl.maxLimit + 1 → i % 3 = 0 → (i : ℤ) < P.ctrl.maxLimit := by
    intro i hi h3
    rw [← hN]
    exact (hG.limits i (by omega) h3).1
  have h3 : P.ctrl.maxLimit % 3 = 0 ∨ P.ctrl.maxLimit % 3 = 2 := by omega
  rcases h3 with h3 | h3
  · have := hlast P.ctrl.maxLimit.toNat (by omega) (by omega)
    omega
  · have := hlast (P.ctrl.maxLimit + 1).toNat (by omega) (by omega)
    omega

variable [FloorRing K]

/-- The client never starts a test of a run after the worker has left its loop
because of its limit, each of the tests before being one that the worker
served. -/
def ServesAll (P : Setup K) (args : Args (FastprofUdtProf K) (TpgProfile K)) : Prop :=
  ∀ n calls, (fUdtClientRun P args (n + 1)).started ≠ (fUdtClientRun P args n).started →
    UdtWorker.tests calls = (fUdtClientRun P args n).started →
    UdtWorker.pastLimit P.ctrl.maxLimit calls = false

/-- The tests that the client has started are those of the loop of `Client`. -/
theorem started_fUdtClientRun (P : Setup K) (args : Args (FastprofUdtProf K) (TpgProfile K))
    (n : ℕ) : (fUdtClientRun P args n).started = (Vars.run (udtProfiler P) P args n).started := by
  rw [← fUdtClientRun_vars]
  rfl

/-- The client starts a test after serving `m` of them only if the search goes
on that far. -/
theorem servesAll_iff (P : Setup K) (args : Args (FastprofUdtProf K) (TpgProfile K)) :
    ServesAll P args ↔ ¬ Goes P (P.ctrl.maxLimit + 1).toNat := by
  set m := (P.ctrl.maxLimit + 1).toNat with hm
  unfold ServesAll
  simp only [started_fUdtClientRun]
  constructor
  · intro hall hG
    have hst := (Search.starts_run_iff P m).mpr hG
    have hrun := Vars.started_run (udtProfiler P) args hst
    have hpast := hall m (List.replicate m (1, true))
      (by rw [Vars.started_run_succ, if_pos hst]; exact Nat.succ_ne_self _)
      (by rw [hrun]; simp [UdtWorker.tests, List.countP_replicate])
    rw [UdtWorker.pastLimit_of_lt (fun c hc => by rw [List.eq_of_mem_replicate hc]; decide)
      (by simp only [UdtWorker.tests, List.countP_replicate]; simp; omega)] at hpast
    cases hpast
  · intro hG n calls hne htests
    by_contra hpast
    have hst : Search.starts P (Search.run P n) = true := by
      by_contra hst
      exact hne (by rw [Vars.started_run_succ, if_neg hst])
    have hlt := UdtWorker.lt_of_pastLimit (by simpa using hpast)
    rw [htests, Vars.started_run _ _ hst] at hlt
    exact hG ((Search.starts_run_iff P m).mp (Search.starts_mono hst (by omega)))

/-- The client and the worker agree on a limit whose residue is not 1, and
otherwise only in a run that ends before the client is past the worker. -/
theorem servesAll_iff_mod (P : Setup K) (args : Args (FastprofUdtProf K) (TpgProfile K)) :
    ServesAll P args ↔ (0 ≤ P.ctrl.maxLimit ∧ P.ctrl.maxLimit % 3 ≠ 1) ∨
      ¬ Goes P (P.ctrl.maxLimit + 1).toNat := by
  rw [servesAll_iff]
  exact ⟨Or.inr, fun h => h.elim (fun h => not_goes_of_mod h.1 h.2) id⟩

/-- With a limit of one test the client goes on to a third. -/
theorem not_servesAll_one :
    ¬ ServesAll (plainSetup (10 ^ 10) 1 fun _ => 900) plainUdtArgs := by
  rw [servesAll_iff, not_not, ← Search.starts_run_iff]
  decide +kernel

end Session

end Server
end Probdata
