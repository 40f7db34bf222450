/-
# How long a search goes on

Whether a run starts its `m`-th test (counted from 0) depends on the throughputs
of the tests before it and on nothing else: they were measured and recorded,
their best never reached the ratio, and at the head of every iteration up to
there the limits were not exhausted (`Search.starts_run_iff`).
-/
import Probdata.Fastprof.ClientSearch

namespace Probdata
namespace Fastprof

variable {K Prof Entry : Type*} [Field K]

/-- The throughputs that the first `m` tests of a run measure, in Gb/s. -/
def Setup.throughputs (P : Setup K) (m : ℕ) : List K :=
  (List.range m).map fun i => (P.out.test i).getD 0 / 1000

theorem Setup.throughputs_succ (P : Setup K) (m : ℕ) :
    P.throughputs (m + 1) = P.throughputs m ++ [(P.out.test m).getD 0 / 1000] := by
  simp [Setup.throughputs, List.range_succ]

variable [LinearOrder K]

/-- The outcomes let a search go on to its `m`-th test. -/
structure Goes (P : Setup K) (m : ℕ) : Prop where
  openLog : P.out.openLog = true
  recorded : ∀ i < m, (P.out.test i).isSome = true ∧ P.out.composed i = true ∧
    P.out.added i = true
  ratio : ∀ i ≤ m, pgrReached (Running.best 0 (P.throughputs i)) P.ctrl.bwGbps
    P.lim.perfGainRatio = false
  limits : ∀ i ≤ m, i % 3 = 0 → (i : ℤ) < P.lim.maxProf ∧
    (Running.sinceImp 0 (P.throughputs i) : ℤ) < P.lim.noImp

theorem goes_zero_iff {P : Setup K} : Goes P 0 ↔ P.out.openLog = true ∧
    pgrReached (Running.best 0 (P.throughputs 0)) P.ctrl.bwGbps P.lim.perfGainRatio = false ∧
    (0 % 3 = 0 → ((0 : ℕ) : ℤ) < P.lim.maxProf ∧
      (Running.sinceImp 0 (P.throughputs 0) : ℤ) < P.lim.noImp) := by
  constructor
  · exact fun h => ⟨h.openLog, h.ratio 0 le_rfl, h.limits 0 le_rfl⟩
  · rintro ⟨hlog, hratio, hlim⟩
    refine ⟨hlog, fun i hi => absurd hi (Nat.not_lt_zero i), fun i hi => ?_, fun i hi hm => ?_⟩
    · obtain rfl := Nat.le_zero.mp hi
      exact hratio
    · obtain rfl := Nat.le_zero.mp hi
      exact hlim hm

theorem goes_succ_iff {P : Setup K} {m : ℕ} : Goes P (m + 1) ↔ Goes P m ∧
    ((P.out.test m).isSome = true ∧ P.out.composed m = true ∧ P.out.added m = true) ∧
    pgrReached (Running.best 0 (P.throughputs (m + 1))) P.ctrl.bwGbps P.lim.perfGainRatio = false ∧
    ((m + 1) % 3 = 0 → ((m + 1 : ℕ) : ℤ) < P.lim.maxProf ∧
      (Running.sinceImp 0 (P.throughputs (m + 1)) : ℤ) < P.lim.noImp) := by
  constructor
  · intro h
    refine ⟨⟨h.openLog, fun i hi => h.recorded i (by omega), fun i hi => h.ratio i (by omega),
      fun i hi => h.limits i (by omega)⟩, h.recorded m (by omega), h.ratio (m + 1) le_rfl,
      h.limits (m + 1) le_rfl⟩
  · rintro ⟨hG, hrec, hratio, hlim⟩
    refine ⟨hG.openLog, fun i hi => ?_, fun i hi => ?_, fun i hi hm => ?_⟩
    · rcases Nat.lt_succ_iff_lt_or_eq.mp hi with h | rfl
      · exact hG.recorded i h
      · exact hrec
    · rcases Nat.le_succ_iff.mp hi with h | rfl
      · exact hG.ratio i h
      · exact hratio
    · rcases Nat.le_succ_iff.mp hi with h | rfl
      · exact hG.limits i h hm
      · exact hlim hm

namespace Search

variable {P : Setup K}

/-- A test after which the search still runs. -/
theorem running_trial_iff {m : Marker} {pt : K × K} {s : Search K} {n : ℕ}
    (hn : s.trials.length = n) (hr : reached P s.trials = false) :
    (trial P m pt s).pc.running = true ↔
      ((P.out.test n).isSome = true ∧ P.out.composed n = true ∧ P.out.added n = true) ∧
        reached P (trial P m pt s).trials = false := by
  subst hn
  rcases trial_cases P m pt s with ⟨hno, he⟩ | ⟨t, -, -, hy, ⟨hrec, he⟩ | ⟨-, hre, he⟩ | ⟨hnot, he⟩⟩
  · simp [he, hno, Pc.running]
  · rw [he]
    simp only [Pc.running, Bool.false_eq_true, false_iff]
    rintro ⟨⟨-, h⟩, -⟩
    exact hrec h
  · rw [he]
    simp [Pc.running, hre]
  · rw [he]
    simp only [Marker.running_next, true_iff]
    have hrun : (trial P m pt s).pc.running = true := by rw [he]; exact m.running_next
    exact ⟨recorded_of_running hrun, reached_snoc hr hnot⟩

theorem gbps_trial {m : Marker} {pt : K × K} {s : Search K} {n : ℕ} (hn : s.trials.length = n)
    (h : (P.out.test n).isSome = true) :
    gbps (trial P m pt s).trials = gbps s.trials ++ [(P.out.test n).getD 0 / 1000] := by
  subst hn
  rcases trial_cases P m pt s with ⟨hno, -⟩ | ⟨t, -, -, hy, ⟨-, he⟩ | ⟨-, -, he⟩ | ⟨-, he⟩⟩
  · rw [hno] at h; cases h
  all_goals rw [he, gbps_snoc, hy]; rfl

/-- What it takes to start a test. -/
theorem starts_iff {s : Search K} (hs : Sound P s) : starts P s = true ↔
    s.pc.running = true ∧ reached P s.trials = false ∧ (s.trials.length % 3 = 0 →
      (s.trials.length : ℤ) < P.lim.maxProf ∧ (stale s.trials : ℤ) < P.lim.noImp) := by
  constructor
  · intro h
    refine ⟨running_of_starts h, not_reached_of_starts hs h, fun h3 => ?_⟩
    unfold starts at h
    split at h
    · simp only [Bool.and_eq_true, decide_eq_true_eq] at h
      exact h.1
    · rename_i hpc; have := (hs.minus hpc).1; omega
    · rename_i hpc; have := (hs.star hpc).1; omega
    · cases h
    · cases h
  · rintro ⟨hrun, hno, hlim⟩
    unfold starts
    split
    · rename_i hpc
      obtain ⟨h1, h2⟩ := hlim (hs.head hpc).1
      simp [h1, h2, hno]
    · rfl
    · rfl
    · rename_i hpc; rw [hpc] at hrun; cases hrun
    · rename_i r hpc; rw [hpc] at hrun; cases hrun

variable [FloorRing K]

theorem running_succ_iff (n : ℕ) : (run P (n + 1)).pc.running = true ↔
    starts P (run P n) = true ∧ ((P.out.test n).isSome = true ∧ P.out.composed n = true ∧
      P.out.added n = true) ∧ reached P (run P (n + 1)).trials = false := by
  rw [run_succ]
  rcases step_cases P (run P n) with ⟨hst, -, hpc⟩ | ⟨hst, m, pt, s', htr, h1, h2⟩
  · simp [hst, hpc]
  · have hn : s'.trials.length = n := by rw [htr]; exact run_length (running_of_starts hst)
    have hr : reached P s'.trials = false := by
      rw [htr]; exact not_reached_of_starts (sound_run P n) hst
    rw [h1, h2, running_trial_iff hn hr]
    simp [hst]

theorem gbps_run_succ {n : ℕ} (hst : starts P (run P n) = true)
    (h : (P.out.test n).isSome = true) :
    gbps (run P (n + 1)).trials = gbps (run P n).trials ++ [(P.out.test n).getD 0 / 1000] := by
  rw [run_succ]
  rcases step_cases P (run P n) with ⟨hno, -⟩ | ⟨-, m, pt, s', htr, h1, -⟩
  · rw [hst] at hno; cases hno
  · have hn : s'.trials.length = n := by rw [htr]; exact run_length (running_of_starts hst)
    rw [h1, gbps_trial hn h, htr]

/-- While a search runs, its throughputs are those of the outcomes. -/
theorem run_gbps {n : ℕ} (h : (run P n).pc.running = true) :
    gbps (run P n).trials = P.throughputs n := by
  induction n with
  | zero => rfl
  | succ n ih =>
    obtain ⟨hst, hrec, -⟩ := (running_succ_iff n).mp h
    rw [gbps_run_succ hst hrec.1, ih (running_of_starts hst), Setup.throughputs_succ]

theorem reached_run {n : ℕ} (h : (run P n).pc.running = true) : reached P (run P n).trials =
    pgrReached (Running.best 0 (P.throughputs n)) P.ctrl.bwGbps P.lim.perfGainRatio := by
  rw [reached, bestGbps, run_gbps h]

theorem stale_run {n : ℕ} (h : (run P n).pc.running = true) :
    stale (run P n).trials = Running.sinceImp 0 (P.throughputs n) := by
  rw [stale, run_gbps h]

theorem starts_run_iff (P : Setup K) (n : ℕ) : starts P (run P n) = true ↔ Goes P n := by
  have hlast : ∀ n, starts P (run P n) = true ↔ (run P n).pc.running = true ∧
      pgrReached (Running.best 0 (P.throughputs n)) P.ctrl.bwGbps P.lim.perfGainRatio = false ∧
      (n % 3 = 0 → (n : ℤ) < P.lim.maxProf ∧
        (Running.sinceImp 0 (P.throughputs n) : ℤ) < P.lim.noImp) := by
    intro n
    rw [starts_iff (sound_run P n)]
    refine and_congr_right fun hrun => ?_
    rw [reached_run hrun, stale_run hrun, run_length hrun]
  induction n with
  | zero =>
    have hpc : (run P 0).pc.running = true ↔ P.out.openLog = true := by
      show (if P.out.openLog then Pc.head else Pc.ret (-1)).running = true ↔ _
      split <;> rename_i ho <;> simp [ho, Pc.running]
    rw [hlast, hpc, goes_zero_iff]
  | succ n ih =>
    have hG : Goes P n ↔ starts P (run P n) = true := ih.symm
    rw [hlast, goes_succ_iff, hG]
    constructor
    · rintro ⟨hrun, hratio, hlim⟩
      obtain ⟨hst, hrec, -⟩ := (running_succ_iff n).mp hrun
      exact ⟨hst, hrec, hratio, hlim⟩
    · rintro ⟨hst, hrec, hratio, hlim⟩
      refine ⟨(running_succ_iff n).mpr ⟨hst, hrec, ?_⟩, hratio, hlim⟩
      rw [reached, bestGbps, gbps_run_succ hst hrec.1, run_gbps (running_of_starts hst),
        ← Setup.throughputs_succ]
      exact hratio

/-- A search that starts no test at its `m`-th step starts none later. -/
theorem starts_mono {m n : ℕ} (h : starts P (run P n) = true) (hm : m ≤ n) :
    starts P (run P m) = true := by
  induction n with
  | zero =>
    obtain rfl : m = 0 := by omega
    exact h
  | succ n ih =>
    rcases Nat.le_succ_iff.mp hm with h' | rfl
    · exact ih ((running_succ_iff n).mp (running_of_starts h)).1 h'
    · exact h

end Search

/-! ### The tests that a client starts -/

namespace Vars

variable {F : Profiler K Prof Entry} {P : Setup K}

theorem started_test (m : Marker) (pt : K × K) (s : Vars K Prof Entry) :
    (s.test F P m pt).started = s.started + 1 := by
  have hp : (s.program F m pt).started = s.started + 1 := by cases m <;> rfl
  rcases hy : P.out.test s.trials.length with _ | y
  · rw [test_of_none hy]; exact hp
  · rw [test_of_some hy]
    have hr : ((s.program F m pt).ran F m pt y (P.out.sent s.trials.length)).started =
        s.started + 1 := by rw [← hp]; cases m <;> rfl
    dsimp only
    split
    · exact hr
    · rw [started_compare]; exact hr

variable [FloorRing K]

theorem started_head {s : Vars K Prof Entry} (h : s.ledger.Exact s.pc s.trials)
    (hpc : s.pc = .head) : (s.head F P).started =
      if Search.starts P s.search then s.started + 1 else s.started := by
  have hnum : s.profileNum = s.trials.length := h.profileNum
  have himp : s.noImpCounter = stale s.trials := h.noImpCounter
  have hmax : s.maxPerfGbps = bestGbps s.trials := h.maxPerf
  set s0 : Vars K Prof Entry := { s with flag := -1 }
  have himp1 : (s0.scale P).noImpCounter = s.noImpCounter := by unfold scale; split <;> rfl
  have hmax1 : (s0.scale P).maxPerfGbps = s.maxPerfGbps := by unfold scale; split <;> rfl
  have hst1 : (s0.scale P).started = s.started := by unfold scale; split <;> rfl
  have hst : Search.starts P s.search = ((s.profileNum < P.lim.maxProf : Bool) &&
      (s.noImpCounter < P.lim.noImp : Bool) &&
      !pgrReached s.maxPerfGbps P.ctrl.bwGbps P.lim.perfGainRatio) := by
    rw [hnum, himp, hmax]
    unfold Search.starts
    rw [show s.search.pc = .head from hpc]
    rfl
  rw [hst]
  unfold head
  dsimp only
  split
  · rename_i h1
    rw [if_neg (by simp [not_lt.mpr (show P.lim.maxProf ≤ s.profileNum from h1)])]
  rename_i h1
  have h1' : s.profileNum < P.lim.maxProf := not_le.mp h1
  split
  · rename_i h2
    rw [himp1] at h2
    rw [if_neg (by simp [not_lt.mpr h2])]
    exact hst1
  rename_i h2
  rw [himp1] at h2
  have h2' : s.noImpCounter < P.lim.noImp := not_le.mp h2
  split
  · rename_i h3
    rw [hmax1] at h3
    rw [if_neg (by simp [h3])]
    exact hst1
  · rename_i h3
    rw [hmax1] at h3
    rw [if_pos (by simp [h1', h2', h3]), started_test]
    exact congrArg (· + 1) hst1

theorem started_step {s : Vars K Prof Entry} (h : s.Tracks) : (s.step F P).started =
    if Search.starts P s.search then s.started + 1 else s.started := by
  have hpc : s.search.pc = s.pc := rfl
  unfold step
  split
  · rename_i h0
    exact started_head (h fun r => by rw [h0]; simp) h0
  · rename_i h0
    rw [started_test, Search.starts, hpc, h0]
    rfl
  · rename_i h0
    rw [Search.starts, hpc, h0]
    have hs : (s.star F P).started =
        ((s.climb P).test F P .star (s.climb P).theta).started := by
      unfold star
      dsimp only
      split <;> rfl
    rw [hs, started_test]
    rfl
  · rename_i h0
    rw [Search.starts, hpc, h0]
    rfl
  · rename_i r h0
    rw [Search.starts, hpc, h0]
    rfl

theorem started_run_succ (F : Profiler K Prof Entry) (P : Setup K) (args : Args Prof Entry)
    (n : ℕ) : (run F P args (n + 1)).started =
      if Search.starts P (Search.run P n) then (run F P args n).started + 1
      else (run F P args n).started := by
  obtain ⟨hs, ht⟩ := run_search F P args n
  rw [run_succ, started_step ht, hs]

/-- A step starts a test exactly if the search does. -/
theorem started_ne_iff (F : Profiler K Prof Entry) (P : Setup K) (args : Args Prof Entry) (n : ℕ) :
    (run F P args (n + 1)).started ≠ (run F P args n).started ↔
      Search.starts P (Search.run P n) = true := by
  rw [started_run_succ]
  split
  · rename_i h
    exact iff_of_true (Nat.succ_ne_self _) h
  · rename_i h
    exact iff_of_false (fun hne => hne rfl) h

theorem started_run (F : Profiler K Prof Entry) (args : Args Prof Entry) {n : ℕ}
    (h : Search.starts P (Search.run P n) = true) : (run F P args n).started = n := by
  induction n with
  | zero => rfl
  | succ n ih =>
    have hst := Search.starts_mono h (Nat.le_succ n)
    rw [started_run_succ, if_pos hst, ih hst]

end Vars

end Fastprof
end Probdata
