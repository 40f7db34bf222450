/-
# How long the UDT worker serves

While the server's status stays `P_RUN_M2M_UDT`, the worker calls `tpg_server_run` until
more tests than its limit have been served, ten calls in a row have failed, or a reset
has failed (`serves_iff`). A call that finds no client for 15 seconds returns 0 and counts
for neither, so an idle worker waits on; the calls that are not idle are bounded.

Key theorem: `lifetime`, with how many of them the worker makes at most. The check behind
its call, `err_cnt > P_MAX_ERROR_NUM`, is never the one that stops it (`served_errCnt`).
-/
import Mathlib.Order.Bounds.Basic
import Probdata.Server.UdtWorker

namespace Probdata
namespace Server
namespace UdtWorker

/-- The calls in a row that have failed, with idle ones in between or not. -/
def streak (calls : List (ℤ × Bool)) : ℕ :=
  calls.foldl (fun k call => if call.1 < 0 then k + 1 else if call.1 = 0 then k else 0) 0

/-- After the given calls the worker makes another one. -/
def serves (maxProfLimit : ℤ) (calls : List (ℤ × Bool)) : Bool :=
  let w := run maxProfLimit calls
  w.left = none && (w.head maxProfLimit true).left = none

variable {N : ℤ} {calls : List (ℤ × Bool)} {call : ℤ × Bool}

theorem streak_snoc (calls : List (ℤ × Bool)) (call : ℤ × Bool) : streak (calls ++ [call]) =
    if call.1 < 0 then streak calls + 1 else if call.1 = 0 then streak calls else 0 := by
  simp [streak]

theorem tests_snoc (calls : List (ℤ × Bool)) (call : ℤ × Bool) :
    tests (calls ++ [call]) = tests calls + if 0 < call.1 then 1 else 0 := by
  simp [tests, List.countP_append, List.countP_cons]

theorem run_snoc (N : ℤ) (calls : List (ℤ × Bool)) (call : ℤ × Bool) :
    run N (calls ++ [call]) = (run N calls).step N call := by
  simp [run]

/-! ### One call -/

theorem serves_eq_true_iff : serves N calls = true ↔
    (run N calls).left = none ∧ ((run N calls).head N true).left = none := by
  unfold serves
  dsimp only
  rw [Bool.and_eq_true, decide_eq_true_iff, decide_eq_true_iff]

theorem head_left_iff {w : UdtWorker} (hw : w.left = none) :
    (w.head N true).left = none ↔ w.okCnt ≤ N ∧ w.errCnt < 10 := by
  unfold head
  rw [if_neg (by decide)]
  by_cases hN : w.okCnt > N
  · rw [if_pos hN]
    exact iff_of_false (by simp) (by omega)
  by_cases he : w.errCnt ≥ pMaxErrorNum
  · rw [if_neg hN, if_pos he]
    exact iff_of_false (by simp) (by simp only [pMaxErrorNum] at he; omega)
  · rw [if_neg hN, if_neg he]
    exact iff_of_true hw (by simp only [pMaxErrorNum] at he; omega)

theorem head_eq_self {w : UdtWorker} (hN : w.okCnt ≤ N) (he : w.errCnt < 10) : w.head N true = w := by
  unfold head
  rw [if_neg (by decide), if_neg (by omega), if_neg (by simp only [pMaxErrorNum]; omega)]

/-- The counters of a worker that makes the next call. -/
structure Serving (N : ℤ) (calls : List (ℤ × Bool)) (w : UdtWorker) : Prop where
  left : w.left = none
  okCnt : w.okCnt = tests calls
  errCnt : w.errCnt = streak calls
  limit : (tests calls : ℤ) ≤ N
  errors : streak calls < 10

theorem Serving.run_snoc (h : (run N calls).Serving N calls) (call : ℤ × Bool) :
    run N (calls ++ [call]) = (run N calls).served call.1 call.2 := by
  have hhead : (run N calls).head N true = run N calls := by
    refine head_eq_self ?_ ?_
    · rw [h.okCnt]
      exact h.limit
    · have hlt := h.errors
      rw [h.errCnt]
      omega
  rw [UdtWorker.run_snoc, step, if_pos h.left]
  dsimp only
  rw [hhead, if_pos h.left]

/-- The worker goes on after a call whose reset, if it needs one, succeeds. -/
def Goes (call : ℤ × Bool) : Prop := call.1 < 0 → call.2 = true

/-- The counters after a call. The check behind the call finds at most ten errors. -/
theorem served_errCnt {w : UdtWorker} (hw : w.Serving N calls) (hgoes : Goes call) :
    (w.served call.1 call.2).left = none ∧
      (w.served call.1 call.2).okCnt = tests (calls ++ [call]) ∧
      (w.served call.1 call.2).errCnt = streak (calls ++ [call]) := by
  have hok := hw.okCnt
  have herr := hw.errCnt
  have hlt := hw.errors
  unfold served
  rw [tests_snoc, streak_snoc]
  by_cases hneg : call.1 < 0
  · have hle : ¬ (w.errCnt + 1 > pMaxErrorNum) := by
      simp only [pMaxErrorNum]
      omega
    rw [if_pos hneg, if_neg (by simp [hgoes hneg]), if_neg hle, if_pos hneg, if_neg (by omega)]
    exact ⟨hw.left, by simpa using hok, by push_cast; rw [← herr]⟩
  by_cases hzero : call.1 = 0
  · rw [if_neg hneg, if_pos hzero, if_neg hneg, if_pos hzero, if_neg (by omega)]
    exact ⟨hw.left, by simpa using hok, herr⟩
  · rw [if_neg hneg, if_neg hzero, if_neg hneg, if_neg hzero, if_pos (by omega)]
    exact ⟨hw.left, by push_cast; rw [← hok], rfl⟩

theorem left_served {w : UdtWorker} (hgoes : ¬ Goes call) : (w.served call.1 call.2).left ≠ none := by
  obtain ⟨hneg, hreset⟩ : call.1 < 0 ∧ call.2 = false := by simpa [Goes] using hgoes
  rw [served, if_pos hneg, if_pos (by simp [hreset])]
  simp

/-! ### A run -/

theorem not_serves_snoc (h : serves N calls = false) : serves N (calls ++ [call]) = false := by
  have hstep : (run N (calls ++ [call])).left ≠ none := by
    rw [run_snoc]
    unfold step
    by_cases hw : (run N calls).left = none
    · have hhead : ((run N calls).head N true).left ≠ none := by
        simpa [serves, hw] using h
      rw [if_pos hw]
      dsimp only
      rw [if_neg hhead]
      exact hhead
    · rw [if_neg hw]
      exact hw
  simp [serves, hstep]

theorem serving_of_serves (h : serves N calls = true) : (run N calls).Serving N calls := by
  induction calls using List.reverseRecOn with
  | nil =>
    have h0 : (0 : ℤ) ≤ N := by
      have hhead : (start.head N true).left = none := (serves_eq_true_iff.mp h).2
      exact ((head_left_iff (w := start) rfl).mp hhead).1
    exact ⟨rfl, rfl, rfl, h0, by decide⟩
  | append_singleton calls call ih =>
    have hprev : serves N calls = true := by
      by_contra hno
      rw [not_serves_snoc (by simpa using hno)] at h
      exact absurd h (by decide)
    have hw := ih hprev
    have hrun := hw.run_snoc call
    have hleft : ((run N calls).served call.1 call.2).left = none ∧
        (((run N calls).served call.1 call.2).head N true).left = none := by
      simpa [serves, hrun] using h
    have hgoes : Goes call := by
      by_contra hno
      exact left_served hno hleft.1
    obtain ⟨h1, h2, h3⟩ := served_errCnt hw hgoes
    obtain ⟨hlimit, herrors⟩ := (head_left_iff h1).mp hleft.2
    rw [hrun]
    exact ⟨h1, h2, h3, h2 ▸ hlimit, by rw [h3] at herrors; omega⟩

/-- The worker makes another call exactly if it would have before the last one, that call
needed no reset that failed, and the limits are not reached. -/
theorem serves_snoc_iff : serves N (calls ++ [call]) = true ↔ serves N calls = true ∧ Goes call ∧
    (tests (calls ++ [call]) : ℤ) ≤ N ∧ streak (calls ++ [call]) < 10 := by
  by_cases hprev : serves N calls = true
  · have hw := serving_of_serves hprev
    rw [serves, hw.run_snoc call]
    by_cases hgoes : Goes call
    · obtain ⟨h1, h2, h3⟩ := served_errCnt hw hgoes
      have hlast := head_left_iff (N := N) h1
      rw [h2, h3] at hlast
      simp only [h1, decide_true, Bool.true_and, decide_eq_true_eq, hlast, hprev, hgoes, true_and]
      omega
    · simp [left_served hgoes, hgoes]
  · rw [not_serves_snoc (by simpa using hprev)]
    simp [hprev]

/-- The worker makes another call as long as it has not served more tests than its limit,
has seen no ten errors in a row, and every reset has succeeded. -/
theorem serves_iff (N : ℤ) (calls : List (ℤ × Bool)) : serves N calls = true ↔
    (tests calls : ℤ) ≤ N ∧ (∀ call ∈ calls, Goes call) ∧
      ∀ pre, pre <+: calls → streak pre < 10 := by
  induction calls using List.reverseRecOn with
  | nil =>
    have hstart : serves N [] = true ↔ (0 : ℤ) ≤ N := by
      have hhead := head_left_iff (N := N) (w := start) rfl
      simp only [serves, run, List.foldl_nil, Bool.and_eq_true, decide_eq_true_eq, hhead]
      simp [start]
    rw [hstart]
    simp [tests, streak]
  | append_singleton calls call ih =>
    rw [serves_snoc_iff, ih]
    have hle : tests calls ≤ tests (calls ++ [call]) := by
      rw [tests_snoc]
      omega
    constructor
    · rintro ⟨⟨-, hgoes, hpre⟩, hcall, hlimit, hstreak⟩
      refine ⟨hlimit, fun c hc => ?_, fun pre hp => ?_⟩
      · rcases List.mem_append.mp hc with hc | hc
        · exact hgoes c hc
        · exact List.mem_singleton.mp hc ▸ hcall
      · rcases List.prefix_concat_iff.mp (by simpa using hp) with rfl | hp
        · simpa using hstreak
        · exact hpre pre hp
    · rintro ⟨hlimit, hgoes, hpre⟩
      refine ⟨⟨by omega, fun c hc => hgoes c (by simp [hc]), fun pre hp => hpre pre
        (hp.trans (List.prefix_append _ _))⟩, hgoes call (by simp), hlimit, hpre _ List.prefix_rfl⟩

/-! ### The calls that are not idle -/

/-- The first `n` of the calls `f`. -/
def firsts (f : ℕ → ℤ × Bool) (n : ℕ) : List (ℤ × Bool) := (List.range n).map f

/-- How many of the first `n` calls the worker makes and finds a client, or an error, in. -/
def busy (N : ℤ) (f : ℕ → ℤ × Bool) (n : ℕ) : ℕ :=
  (List.range n).countP fun i => serves N (firsts f i) && (f i).1 ≠ 0

theorem firsts_succ (f : ℕ → ℤ × Bool) (n : ℕ) : firsts f (n + 1) = firsts f n ++ [f n] := by
  simp [firsts, List.range_succ]

theorem busy_succ (N : ℤ) (f : ℕ → ℤ × Bool) (n : ℕ) : busy N f (n + 1) =
    busy N f n + if serves N (firsts f n) = true ∧ (f n).1 ≠ 0 then 1 else 0 := by
  simp [busy, List.range_succ, List.countP_append, List.countP_cons]

/-- A test that succeeds pays for the nine errors that can come before it. -/
theorem busy_le_of_serves {f : ℕ → ℤ × Bool} {n : ℕ} (h : serves N (firsts f n) = true) :
    busy N f n ≤ 10 * tests (firsts f n) + streak (firsts f n) := by
  induction n with
  | zero => simp [busy]
  | succ n ih =>
    rw [firsts_succ] at h ⊢
    have hprev := (serves_snoc_iff.mp h).1
    have hlt := (serving_of_serves hprev).errors
    have hn := ih hprev
    rw [busy_succ, tests_snoc, streak_snoc]
    rcases lt_trichotomy (f n).1 0 with hneg | hzero | hpos
    · rw [if_pos ⟨hprev, by omega⟩, if_neg (by omega), if_pos hneg]
      omega
    · rw [if_neg (by simp [hzero]), if_neg (by omega), if_neg (by omega), if_pos hzero]
      omega
    · rw [if_pos ⟨hprev, by omega⟩, if_pos hpos, if_neg (by omega), if_neg (by omega)]
      omega

theorem busy_le (N : ℤ) (f : ℕ → ℤ × Bool) (n : ℕ) : busy N f n ≤ 10 * (N + 1).toNat := by
  induction n with
  | zero => simp [busy]
  | succ n ih =>
    rw [busy_succ]
    by_cases h : serves N (firsts f n) = true
    · have hw := serving_of_serves h
      have hbusy := busy_le_of_serves h
      have hlimit := hw.limit
      have herrors := hw.errors
      split <;> omega
    · rw [if_neg (by simp [h])]
      exact ih

/-- Nine errors before each test. -/
def worstCase (i : ℕ) : ℤ × Bool := (if i % 10 = 9 then 1 else -1, true)

theorem worstCase_counts (n : ℕ) :
    tests (firsts worstCase n) = n / 10 ∧ streak (firsts worstCase n) = n % 10 := by
  induction n with
  | zero => exact ⟨rfl, rfl⟩
  | succ n ih =>
    rw [firsts_succ, tests_snoc, streak_snoc, ih.1, ih.2, worstCase]
    by_cases h : n % 10 = 9
    · rw [if_pos h, if_pos (by decide), if_neg (by decide), if_neg (by decide)]
      omega
    · rw [if_neg h, if_neg (by decide), if_pos (by decide)]
      omega

theorem busy_worstCase {n : ℕ} (h : n ≤ 10 * (N + 1).toNat) : busy N worstCase n = n := by
  induction n with
  | zero => rfl
  | succ n ih =>
    have hserves : serves N (firsts worstCase n) = true := by
      refine (serves_iff N _).mpr ⟨?_, fun c hc _ => ?_, fun pre hp => ?_⟩
      · rw [(worstCase_counts n).1]
        omega
      · obtain ⟨i, -, rfl⟩ := List.mem_map.mp hc
        rfl
      · obtain ⟨m, rfl⟩ : ∃ m, pre = firsts worstCase m := by
          refine ⟨pre.length, ?_⟩
          have hpre := List.prefix_iff_eq_take.mp hp
          have hlen : pre.length ≤ n := by simpa [firsts] using hp.length_le
          rw [firsts, ← List.map_take, List.take_range, min_eq_left hlen] at hpre
          exact hpre
        rw [(worstCase_counts m).2]
        omega
    have hne : (worstCase n).1 ≠ 0 := by
      unfold worstCase
      dsimp only
      split <;> decide
    rw [busy_succ, ih (by omega), if_pos ⟨hserves, hne⟩]

theorem busy_isGreatest (N : ℤ) :
    IsGreatest {k | ∃ f n, k = busy N f n} (10 * (N + 1).toNat) := by
  constructor
  · exact ⟨worstCase, _, (busy_worstCase le_rfl).symm⟩
  · rintro k ⟨f, n, rfl⟩
    exact busy_le N f n

/-- **When the worker makes another call, and how many that are not idle it makes.** -/
theorem lifetime (N : ℤ) :
    (∀ calls, serves N calls = true ↔ (tests calls : ℤ) ≤ N ∧ (∀ call ∈ calls, Goes call) ∧
      ∀ pre, pre <+: calls → streak pre < 10) ∧
    IsGreatest {k | ∃ f n, k = busy N f n} (10 * (N + 1).toNat) :=
  ⟨serves_iff N, busy_isGreatest N⟩

end UdtWorker
end Server
end Probdata
