/-
# The bookkeeping of a client's run

The counters and maxima of the loop, stated on its variables: `Bookkept` holds
after every step of a run without failures (`Vars.run_bookkept`), a run ends,
and ends for the reason its flag names (`Vars.run_done`).
-/
import Mathlib.Algebra.Order.Ring.Rat
import Probdata.Fastprof.Length
import Probdata.Fastprof.Tcp
import Probdata.Fastprof.Udt

namespace Probdata
namespace Fastprof

variable {K Prof Entry : Type*} [Field K] [LinearOrder K]

/-- What the counters of the loop say of the tests run so far. -/
structure Bookkept (s : Vars K Prof Entry) : Prop where
  profileNum : s.profileNum = s.tests.length
  visitedList : s.visitedList.length = s.tests.length
  history : s.history.length = s.tests.length
  maxPerf : s.maxPerfGbps = (s.tests.map fun t => t.trial.perfMbps / 1000).foldl max 0
  maxTheta : 0 < s.maxPerfGbps → ∃ pre t post, s.tests = pre ++ t :: post ∧
    t.trial.perfMbps / 1000 = s.maxPerfGbps ∧
    (∀ u ∈ pre, u.trial.perfMbps / 1000 < s.maxPerfGbps) ∧ s.maxTheta = t.trial.theta
  noImpCounter : s.noImpCounter =
    Running.sinceImp 0 (s.tests.map fun t => t.trial.perfMbps / 1000)

/-- How a run may have ended, for the limits `N` and `L` and the ratio `pgr`. -/
def EndsBy (N L : ℤ) (pgr bw : K) (s : Vars K Prof Entry) : Prop :=
  (s.flag = 1 ∧ N ≤ s.tests.length) ∨
    (s.flag = 2 ∧ s.tests.length < N ∧ L ≤ s.noImpCounter) ∨
    (s.flag = 3 ∧ pgr ≤ s.maxPerfGbps / bw)

namespace Vars

omit [LinearOrder K] in
theorem gbps_trials (s : Vars K Prof Entry) :
    gbps s.trials = s.tests.map fun t => t.trial.perfMbps / 1000 := by
  simp [gbps, trials, Trial.gbps, Function.comp_def]

theorem Tracks.bookkept {s : Vars K Prof Entry} (h : s.Tracks) (hpc : ∀ r, s.pc ≠ .ret r) :
    Bookkept s := by
  have hE := h hpc
  have hlen := s.tests_length
  refine ⟨?_, ?_, ?_, ?_, fun hpos => ?_, ?_⟩
  · rw [hlen]; exact hE.profileNum
  · rw [hlen]; exact hE.visited
  · rw [hlen]; exact hE.history
  · rw [← gbps_trials]; exact hE.maxPerf
  · have hpos' : 0 < bestGbps s.trials := by rw [← hE.maxPerf]; exact hpos
    have hmax : s.maxPerfGbps = bestGbps s.trials := hE.maxPerf
    have htheta : s.maxTheta = restart s.trials := hE.maxTheta
    obtain ⟨pre, t, post, hs, hfb, hbest, hlt⟩ := firstBest_test hpos'
    rw [hmax, htheta, restart, if_pos hpos', hfb, ← hbest]
    exact ⟨pre, t, post, hs, rfl, hlt, rfl⟩
  · rw [← gbps_trials]; exact hE.noImpCounter

variable [FloorRing K] {P : Setup K}

theorem run_pc (F : Profiler K Prof Entry) (P : Setup K) (args : Args Prof Entry) (n : ℕ) :
    (run F P args n).pc = (Search.run P n).pc :=
  congrArg Search.pc (run_search F P args n).1

theorem run_trials (F : Profiler K Prof Entry) (P : Setup K) (args : Args Prof Entry) (n : ℕ) :
    (run F P args n).trials = (Search.run P n).trials :=
  congrArg Search.trials (run_search F P args n).1

theorem run_bookkept (hP : P.out.Good) (F : Profiler K Prof Entry) (args : Args Prof Entry)
    (n : ℕ) : Bookkept (run F P args n) :=
  (run_search F P args n).2.bookkept fun r => by rw [run_pc]; exact Search.run_pc_of_good hP n r

/-- Every iteration after the first starts at the best point so far. -/
theorem run_theta (F : Profiler K Prof Entry) (args : Args Prof Entry) {n : ℕ}
    (hpc : (run F P args (n + 1)).pc = .head) :
    (run F P args (n + 1)).theta = (run F P args (n + 1)).maxTheta := by
  obtain ⟨hs, ht⟩ := run_search F P args (n + 1)
  have hE := ht fun r => by rw [hpc]; simp
  have hth : (run F P args (n + 1)).theta = (Search.run P (n + 1)).theta := congrArg Search.theta hs
  have hhead : (Search.step P (Search.run P n)).pc = .head := by
    rw [← Search.run_succ, ← hs]; exact hpc
  have hmax : (run F P args (n + 1)).maxTheta = restart (run F P args (n + 1)).trials := hE.maxTheta
  rw [hth, hmax, run_trials, Search.run_succ]
  exact Search.restart_of_head hhead

theorem run_tests_lt (F : Profiler K Prof Entry) (args : Args Prof Entry) (n : ℕ)
    (hN : 0 < P.lim.maxProf) : ((run F P args n).tests.length : ℤ) < P.lim.maxProf + 3 := by
  rw [tests_length, run_trials]
  rcases eq_or_ne (Search.run P n).trials [] with h | h
  · rw [h]; simp only [List.length_nil]; omega
  · exact (Search.sound_run P n).bound h

theorem run_tests_nil (F : Profiler K Prof Entry) (args : Args Prof Entry) (n : ℕ)
    (hN : P.lim.maxProf ≤ 0) : (run F P args n).tests = [] := by
  have h := Search.run_trials_of_nonpos hN n
  rw [← run_trials F P args n] at h
  exact List.map_eq_nil_iff.mp h

variable [IsStrictOrderedRing K]

omit [FloorRing K] in
theorem bwGbps_ne_zero {ctrl : FastprofCtrl K} (h : ctrl.bwBps ≠ 0) : ctrl.bwGbps ≠ 0 :=
  div_ne_zero h (by simp [fGB])

/-- No test is started once the ratio is reached. -/
theorem run_not_reached (hbw : P.ctrl.bwBps ≠ 0) (hP : P.out.Good) (F : Profiler K Prof Entry)
    (args : Args Prof Entry) {n : ℕ}
    (h : (run F P args (n + 1)).started ≠ (run F P args n).started) :
    ¬ P.lim.perfGainRatio ≤ (run F P args n).maxPerfGbps / P.ctrl.bwGbps := by
  have hmax : (run F P args n).maxPerfGbps = bestGbps (Search.run P n).trials := by
    rw [← run_trials F P args n]
    exact ((run_search F P args n).2 fun r => by
      rw [run_pc]; exact Search.run_pc_of_good hP n r).maxPerf
  have hst : Search.starts P (Search.run P n) = true := by
    by_contra hst
    rw [started_run_succ, if_neg hst] at h
    exact h rfl
  have hno := Search.not_reached_of_starts (Search.sound_run P n) hst
  rw [hmax]
  simpa [Search.reached, pgrReached, bwGbps_ne_zero hbw] using hno

/-- A run without failures ends by one of the three conditions of its loop. -/
theorem run_done (hbw : P.ctrl.bwBps ≠ 0) (hP : P.out.Good) (F : Profiler K Prof Entry)
    (args : Args Prof Entry) : ∃ n, (run F P args n).pc = .done ∧
      EndsBy P.lim.maxProf P.lim.noImp P.lim.perfGainRatio P.ctrl.bwGbps (run F P args n) := by
  set n := P.lim.maxProf.toNat + 3
  have hpc : (Search.run P n).pc = .done := by
    have hend := Search.run_ends P
    have hret := Search.run_pc_of_good hP n
    rcases h : (Search.run P n).pc with _ | _ | _ | _ | r
    · rw [h] at hend; cases hend
    · rw [h] at hend; cases hend
    · rw [h] at hend; cases hend
    · rfl
    · exact absurd h (hret r)
  have hpc' : (run F P args n).pc = .done := by rw [run_pc]; exact hpc
  have hE := (run_search F P args n).2 fun r => by rw [hpc']; simp
  have hflag : (run F P args n).flag = (Search.run P n).flag :=
    congrArg Search.flag (run_search F P args n).1
  have himp : (run F P args n).noImpCounter = stale (Search.run P n).trials := by
    rw [← run_trials F P args n]; exact hE.noImpCounter
  have hmax : (run F P args n).maxPerfGbps = bestGbps (Search.run P n).trials := by
    rw [← run_trials F P args n]; exact hE.maxPerf
  refine ⟨n, hpc', ?_⟩
  rw [EndsBy, tests_length, run_trials, hflag, himp, hmax]
  rcases (Search.sound_run P n).done hpc with h | h | ⟨h, hr⟩
  · exact Or.inl h
  · exact Or.inr (Or.inl h)
  · refine Or.inr (Or.inr ⟨h, ?_⟩)
    simpa [Search.reached, pgrReached, bwGbps_ne_zero hbw] using hr

end Vars

/-- The bookkeeping of a run that is after its `n`-th step in the state `run n`. -/
structure KeepsBooks (N L : ℤ) (pgr bw : K) (run : ℕ → Vars K Prof Entry) : Prop where
  bookkept : ∀ n, Bookkept (run n)
  loopHead : ∀ n, (run (n + 1)).pc = .head → (run (n + 1)).theta = (run (n + 1)).maxTheta
  fewer : 0 < N → ∀ n, ((run n).tests.length : ℤ) < N + 3
  none : N ≤ 0 → ∀ n, (run n).tests = []
  ratio : ∀ n, (run (n + 1)).started ≠ (run n).started → ¬ pgr ≤ (run n).maxPerfGbps / bw
  ends : ∃ n, (run n).pc = .done ∧ EndsBy N L pgr bw (run n)

variable [IsStrictOrderedRing K] [FloorRing K]

theorem Vars.run_keepsBooks {P : Setup K} (hbw : P.ctrl.bwBps ≠ 0) (hP : P.out.Good)
    (F : Profiler K Prof Entry) (args : Args Prof Entry) :
    KeepsBooks P.lim.maxProf P.lim.noImp P.lim.perfGainRatio P.ctrl.bwGbps
      (Vars.run F P args) where
  bookkept := run_bookkept hP F args
  loopHead _ := run_theta F args
  fewer hN n := run_tests_lt F args n hN
  none hN n := run_tests_nil F args n hN
  ratio _ := run_not_reached hbw hP F args
  ends := run_done hbw hP F args

/-- The bookkeeping of both searches is exact. -/
theorem clientRun_keepsBooks (P : Setup K) (hbw : P.ctrl.bwBps ≠ 0) (hP : P.out.Good) :
    (∀ lib args, KeepsBooks P.lim.maxProf P.lim.noImp P.lim.perfGainRatio P.ctrl.bwGbps
      fun n => (fTcpClientRun lib P args n).vars) ∧
    ∀ args, KeepsBooks P.lim.maxProf P.lim.noImp P.lim.perfGainRatio P.ctrl.bwGbps
      fun n => (fUdtClientRun P args n).vars := by
  constructor
  · intro lib args
    simp only [fTcpClientRun_vars]
    exact Vars.run_keepsBooks hbw hP (tcpProfiler lib P) args
  · intro args
    simp only [fUdtClientRun_vars]
    exact Vars.run_keepsBooks hbw hP (udtProfiler P) args

theorem clientRun_keepsBooks_plain :
    (∀ lib args, KeepsBooks 60 30 (3 / 4) 10
      fun n => (fTcpClientRun lib (plainSetup (10 ^ 10) 60 fun _ => 900) args n).vars) ∧
    ∀ args, KeepsBooks 60 30 (3 / 4) 10
      fun n => (fUdtClientRun (plainSetup (10 ^ 10) 60 fun _ => 900) args n).vars := by
  have h := clientRun_keepsBooks (plainSetup (10 ^ 10) 60 fun _ => 900) (by decide +kernel)
    (plainOutcomes_good _)
  have e1 : (plainSetup (10 ^ 10) 60 fun _ => 900).lim.maxProf = 60 := by decide +kernel
  have e2 : (plainSetup (10 ^ 10) 60 fun _ => 900).lim.noImp = 30 := by decide +kernel
  have e3 : (plainSetup (10 ^ 10) 60 fun _ => 900).lim.perfGainRatio = 3 / 4 := by decide +kernel
  have e4 : (plainSetup (10 ^ 10) 60 fun _ => 900).ctrl.bwGbps = 10 := by decide +kernel
  rwa [e1, e2, e3, e4] at h

end Fastprof
end Probdata
