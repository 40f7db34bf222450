/-
# What a run returns

A run that returns 0 makes its caller announce the next phase. It should do so
only for a search that ended by one of its three conditions, with a measured
test in `prof_max` (`Completed`); every other run should return a negative
value (`ReturnsFaithfully`).

The loop also returns 0 where a record is not composed or not added, and after
a search none of whose tests was better than 0, which never writes `prof_max`.
Step by step these are the only ways out that return the wrong value
(`Search.faithful_step`), so a run returns faithfully exactly if no step of it
takes one of them (`Vars.Fit`).
-/
import Probdata.Fastprof.BestTest
import Probdata.Fastprof.Bookkeeping

namespace Probdata
namespace Fastprof

variable {K Prof Entry : Type*} [Field K] [LinearOrder K]

/-- The record of the `n`-th test, if the test succeeds, is composed and added. -/
def Outcomes.Recorded {K : Type*} (o : Outcomes K) (n : ℕ) : Prop :=
  (o.test n).isSome = true → o.composed n = true ∧ o.added n = true

/-! ### The search -/

namespace Search

/-- What a step of the search must not do: leave the loop at its head before a
test was better than 0, or make a test that is not recorded. -/
def Fit (P : Setup K) (s : Search K) : Prop :=
  s.pc.running = true →
    if starts P s then P.out.Recorded s.trials.length else 0 < bestGbps s.trials

/-- The loop was not left with the value 0, or its end was reached with a test
better than 0. -/
structure Faithful (s : Search K) : Prop where
  ret : ∀ r, s.pc = .ret r → r < 0
  done : s.pc = .done → 0 < bestGbps s.trials

theorem faithful_of_running {s : Search K} (h : s.pc.running = true) : s.Faithful := by
  constructor
  · intro r hr; rw [hr] at h; cases h
  · intro hd; rw [hd] at h; cases h

/-- A test is left faithfully exactly if it is recorded. -/
theorem faithful_trial (P : Setup K) (m : Marker) (pt : K × K) (s : Search K) :
    (trial P m pt s).Faithful ↔ P.out.Recorded s.trials.length := by
  rcases trial_cases P m pt s with ⟨hn, he⟩ | ⟨t, -, -, hy, ⟨hrec, he⟩ | ⟨hlt, -, he⟩ | ⟨-, he⟩⟩
  · refine iff_of_true ⟨fun r hr => ?_, fun hd => ?_⟩ fun h => ?_
    · rw [he] at hr
      obtain rfl : -1 = r := by simpa using hr
      decide
    · rw [he] at hd; cases hd
    · rw [hn] at h; cases h
  · refine iff_of_false (fun h => ?_) fun h => hrec (h (by rw [hy]; rfl))
    have := h.ret 0 (by rw [he])
    omega
  · have hrun : (trial P m pt s).pc = .done := by rw [he]
    refine iff_of_true ⟨fun r hr => ?_, fun _ => ?_⟩ fun _ => ?_
    · rw [hrun] at hr; cases hr
    · rw [he]
      show 0 < bestGbps (s.trials ++ [t])
      rw [bestGbps_snoc_of_lt hlt]
      exact lt_of_le_of_lt (bestGbps_nonneg _) hlt
    · by_contra hc
      have hret : (trial P m pt s).pc = .ret 0 := by
        simp only [trial, hy]
        rw [if_pos]
        rcases h1 : P.out.composed s.trials.length <;> rcases h2 : P.out.added s.trials.length <;>
          simp_all
      rw [hrun] at hret; cases hret
  · have hrun : (trial P m pt s).pc.running = true := by rw [he]; exact m.running_next
    exact iff_of_true (faithful_of_running hrun) fun _ => (recorded_of_running hrun).2

theorem faithful_congr {s s' : Search K} (hpc : s.pc = s'.pc) (ht : s.trials = s'.trials) :
    s.Faithful ↔ s'.Faithful := by
  constructor
  · exact fun h => ⟨fun r hr => h.ret r (hpc.trans hr), fun hd => ht ▸ h.done (hpc.trans hd)⟩
  · exact fun h => ⟨fun r hr => h.ret r (hpc.symm.trans hr),
      fun hd => ht.symm ▸ h.done (hpc.symm.trans hd)⟩

variable [FloorRing K]

/-- A step keeps the search faithful exactly if it is fit. -/
theorem faithful_step {P : Setup K} {s : Search K} (h : s.Faithful) :
    (step P s).Faithful ↔ s.Fit P := by
  by_cases hrun : s.pc.running = true
  · rcases step_cases P s with ⟨hst, htr, hend⟩ | ⟨hst, m, pt, s', hs', htr, hpc⟩
    · -- a running search that starts no test leaves the loop at its head
      have hdone : (step P s).pc = .done := by
        unfold starts at hst
        split at hst
        · rename_i hpc
          have hstep := step_of_head P hpc
          rw [hstep] at hend ⊢
          rcases head_cases P s with ⟨-, e, -⟩ | ⟨-, -, e, -⟩ | ⟨-, -, e, -⟩ | ⟨h1, h2, h3, -⟩
          · exact e
          · exact e
          · exact e
          · simp [h1, h2, h3] at hst
        · cases hst
        · cases hst
        · rename_i hpc; rw [hpc] at hrun; cases hrun
        · rename_i hpc; rw [hpc] at hrun; cases hrun
      constructor
      · intro hf _
        rw [if_neg (by rw [hst]; simp), ← htr]
        exact hf.done hdone
      · intro hfit
        have hpos := hfit hrun
        rw [if_neg (by rw [hst]; simp), ← htr] at hpos
        refine ⟨fun r hr => ?_, fun _ => hpos⟩
        rw [hdone] at hr; cases hr
    · rw [faithful_congr hpc htr, faithful_trial, hs']
      exact ⟨fun hr _ => by rw [if_pos hst]; exact hr, fun hf => by simpa [hst] using hf hrun⟩
  · have hstep : step P s = s := by
      unfold step
      split
      · rename_i hpc; rw [hpc] at hrun; exact absurd rfl hrun
      · rename_i hpc; rw [hpc] at hrun; exact absurd rfl hrun
      · rename_i hpc; rw [hpc] at hrun; exact absurd rfl hrun
      · rfl
      · rfl
    rw [hstep]
    exact iff_of_true h fun hr => absurd hr hrun

theorem faithful_start (P : Setup K) : (start P).Faithful := by
  unfold start
  constructor
  · intro r hr
    dsimp only at hr
    split at hr
    · cases hr
    · obtain rfl : -1 = r := by simpa using hr
      decide
  · intro hd
    dsimp only at hd
    split at hd <;> cases hd

/-- A run stays faithful exactly as long as its steps are fit. -/
theorem faithful_run_iff (P : Setup K) : (∀ n, (run P n).Faithful) ↔ ∀ n, (run P n).Fit P := by
  constructor
  · intro h n
    rw [← faithful_step (h n), ← run_succ]
    exact h (n + 1)
  · intro h n
    induction n with
    | zero => exact faithful_start P
    | succ n ih =>
      rw [run_succ]
      exact (faithful_step ih).mpr (h n)

end Search

/-! ### The profile of the best test -/

namespace Vars

/-- The variables of a run that was given `q` for `prof_max`: it is there until
a test is better than 0. -/
structure Twin (q : Prof) (s u : Vars K Prof Entry) : Prop where
  nonneg : 0 ≤ s.maxPerfGbps
  same : u = { s with profMax := if 0 < s.maxPerfGbps then s.profMax else q }

variable {F : Profiler K Prof Entry} {P : Setup K} {q : Prof} {s u s' u' : Vars K Prof Entry}

theorem twin_ite {p p' : Prop} [Decidable p] [Decidable p'] (hp : p ↔ p')
    (h : p → Twin q s u) (h' : ¬ p → Twin q s' u') :
    Twin q (if p then s else s') (if p' then u else u') := by
  by_cases hc : p
  · rw [if_pos hc, if_pos (hp.mp hc)]; exact h hc
  · rw [if_neg hc, if_neg fun hc' => hc (hp.mpr hc')]; exact h' hc

theorem twin_compare (m : Marker) (pt : K × K) (h : Twin q s u) :
    Twin q (s.compare P m pt) (u.compare P m pt) := by
  have hym : u.y m = s.y m := by rw [h.same]; cases m <;> rfl
  have hmax : u.maxPerfGbps = s.maxPerfGbps := by rw [h.same]
  unfold compare
  dsimp only
  apply twin_ite (by rw [hym, hmax])
  · -- both take the profile that was just tested
    intro hy
    have hpos : 0 < s.y m := lt_of_le_of_lt h.nonneg hy
    obtain ⟨h0, rfl⟩ := h
    dsimp only
    apply twin_ite (by rw [hym])
    · exact fun _ => ⟨hpos.le, by dsimp only; rw [if_pos hpos, hym]⟩
    · exact fun _ => ⟨hpos.le, by dsimp only; rw [if_pos hpos, hym]⟩
  · intro _
    obtain ⟨h0, rfl⟩ := h
    exact ⟨h0, rfl⟩

theorem twin_test (m : Marker) (pt : K × K) (h : Twin q s u) :
    Twin q (s.test F P m pt) (u.test F P m pt) := by
  have htr : u.trials = s.trials := by rw [h.same]; rfl
  rcases hy : P.out.test s.trials.length with _ | y
  · rw [test_of_none hy, test_of_none (by rw [htr]; exact hy)]
    obtain ⟨h0, rfl⟩ := h
    cases m <;> exact ⟨h0, rfl⟩
  · rw [test_of_some hy, test_of_some (by rw [htr]; exact hy), htr]
    set n := P.out.sent s.trials.length
    have hran : Twin q ((s.program F m pt).ran F m pt y n) ((u.program F m pt).ran F m pt y n) := by
      obtain ⟨h0, rfl⟩ := h
      cases m <;> exact ⟨h0, rfl⟩
    have hvisit : Twin q ((((s.program F m pt).ran F m pt y n).record F).visit m)
        ((((u.program F m pt).ran F m pt y n).record F).visit m) := by
      obtain ⟨h0, rfl⟩ := h
      cases m <;> exact ⟨h0, rfl⟩
    apply twin_ite Iff.rfl
    · intro _
      obtain ⟨h0, he⟩ := hran
      rw [he]
      exact ⟨h0, rfl⟩
    · exact fun _ => twin_compare m pt hvisit

theorem twin_star (h : Twin q s u) : Twin q (s.star F P) (u.star F P) := by
  have hc : Twin q (s.climb P) (u.climb P) := by
    obtain ⟨h0, rfl⟩ := h
    exact ⟨h0, rfl⟩
  have hth : (u.climb P).theta = (s.climb P).theta := by rw [hc.same]
  have ht := twin_test (F := F) (P := P) .star (s.climb P).theta hc
  have hpc : ((u.climb P).test F P .star (s.climb P).theta).pc =
      ((s.climb P).test F P .star (s.climb P).theta).pc := by rw [ht.same]
  unfold star
  dsimp only
  rw [hth]
  apply twin_ite (by rw [hpc])
  · intro _
    rw [ht.same]
    exact ⟨ht.nonneg, rfl⟩
  · exact fun _ => ht

variable [FloorRing K]

theorem twin_head (h : Twin q s u) : Twin q (s.head F P) (u.head F P) := by
  have hscale : Twin q (({ s with flag := -1 } : Vars K Prof Entry).scale P)
      (({ u with flag := -1 } : Vars K Prof Entry).scale P) := by
    obtain ⟨h0, rfl⟩ := h
    exact twin_ite Iff.rfl (fun _ => ⟨h0, rfl⟩) fun _ => ⟨h0, rfl⟩
  unfold head
  dsimp only
  refine twin_ite (by rw [h.same]) (fun _ => ⟨h.nonneg, by rw [h.same]⟩) fun _ => ?_
  refine twin_ite (by rw [hscale.same]) (fun _ => ⟨hscale.nonneg, by rw [hscale.same]⟩) fun _ => ?_
  refine twin_ite (by rw [hscale.same]) (fun _ => ⟨hscale.nonneg, by rw [hscale.same]⟩) fun _ => ?_
  rw [hscale.same]
  exact twin_test .plus _ ⟨hscale.nonneg, rfl⟩

theorem twin_step (h : Twin q s u) : Twin q (s.step F P) (u.step F P) := by
  have hpc : u.pc = s.pc := by rw [h.same]
  have hth : u.thetaMinus = s.thetaMinus := by rw [h.same]
  unfold step
  rw [hpc, hth]
  cases s.pc with
  | head => exact twin_head h
  | minus => exact twin_test .minus s.thetaMinus h
  | star => exact twin_star h
  | done => exact h
  | ret r => exact h

/-- A run differs from one with another `prof_max` only there, and only while
no test was better than 0. -/
theorem twin_run (F : Profiler K Prof Entry) (P : Setup K) (args : Args Prof Entry) (q : Prof)
    (n : ℕ) : Twin q (run F P args n) (run F P { args with profMax := q } n) := by
  induction n with
  | zero =>
    refine ⟨le_refl _, ?_⟩
    show start P { args with profMax := q } =
      { start P args with profMax := if (0 : K) < 0 then args.profMax else q }
    rw [if_neg (lt_irrefl _)]
    rfl
  | succ n ih =>
    rw [run_succ, run_succ]
    exact twin_step ih

/-- What a step is given: the loop is left at its head. -/
def Leaves (P : Setup K) (s : Vars K Prof Entry) : Prop :=
  s.pc = .head ∧ (s.profileNum ≥ P.lim.maxProf ∨ s.noImpCounter ≥ P.lim.noImp ∨
    pgrReached s.maxPerfGbps P.ctrl.bwGbps P.lim.perfGainRatio = true)

/-- A step does not take a wrong way out: a test that it makes is recorded if it
succeeds, and the loop is not left at its head before a test was better than 0. -/
structure Fit (P : Setup K) (s : Vars K Prof Entry) : Prop where
  recorded : s.pc.running = true → ¬ s.Leaves P → P.out.Recorded s.tests.length
  leaves : s.Leaves P → 0 < s.maxPerfGbps

omit [FloorRing K] in
/-- A running loop is left at its head where the search starts no test. -/
theorem leaves_iff (h : s.Tracks) (hrun : s.pc.running = true) :
    s.Leaves P ↔ Search.starts P s.search = false := by
  have hE := h fun r hr => by rw [hr] at hrun; cases hrun
  have hnum : s.profileNum = s.search.trials.length := hE.profileNum
  have himp : s.noImpCounter = stale s.search.trials := hE.noImpCounter
  have hmax : s.maxPerfGbps = bestGbps s.search.trials := hE.maxPerf
  have hpc : s.search.pc = s.pc := rfl
  unfold Leaves Search.starts Search.reached
  rw [hnum, himp, hmax, hpc]
  rcases hs : s.pc with _ | _ | _ | _ | r
  · simp only [true_and, ge_iff_le, Bool.and_eq_false_iff, decide_eq_false_iff_not, not_lt,
      Bool.not_eq_eq_eq_not, Bool.not_false, or_assoc]
  · simp
  · simp
  · rw [hs] at hrun; cases hrun
  · rw [hs] at hrun; cases hrun

omit [FloorRing K] in
theorem fit_iff (h : s.Tracks) : s.Fit P ↔ s.search.Fit P := by
  by_cases hrun : s.pc.running = true
  · have hE := h fun r hr => by rw [hr] at hrun; cases hrun
    have hmax : s.maxPerfGbps = bestGbps s.search.trials := hE.maxPerf
    have hlen : s.tests.length = s.search.trials.length := s.tests_length
    have hst := leaves_iff (P := P) h hrun
    constructor
    · intro hf _
      split
      · rename_i hc
        rw [← hlen]
        exact hf.recorded hrun fun hl => by rw [hst.mp hl] at hc; cases hc
      · rename_i hc
        rw [← hmax]
        exact hf.leaves (hst.mpr (Bool.eq_false_iff.mpr hc))
    · intro hf
      have hf' := hf hrun
      constructor
      · intro _ hl
        rw [if_pos (by by_contra hc; exact hl (hst.mpr (Bool.eq_false_iff.mpr hc))), ← hlen] at hf'
        exact hf'
      · intro hl
        rw [if_neg (by rw [hst.mp hl]; simp), ← hmax] at hf'
        exact hf'
  · refine iff_of_true ⟨fun hr => absurd hr hrun, fun hl => ?_⟩ fun hr => absurd hr hrun
    rw [hl.1] at hrun
    exact absurd rfl hrun

end Vars

/-! ### The two clients -/

/-- After `n` steps the search has ended by one of its three conditions, and
`prof_max` holds a measured test, whatever it held before the run. -/
structure Completed (F : Profiler K Prof Entry) (run : Args Prof Entry → ℕ → Vars K Prof Entry)
    (args : Args Prof Entry) (n : ℕ) : Prop where
  done : (run args n).pc = .done
  flag : (run args n).flag = 1 ∨ (run args n).flag = 2 ∨ (run args n).flag = 3
  assigned : ∀ q, (run { args with profMax := q } n).profMax = (run args n).profMax
  measured : ∃ t ∈ (run args n).tests, F.perfMbps (run args n).profMax = t.trial.perfMbps

/-- A run that has ended returns 0 only for a completed search, and a negative
value for every other one. -/
def ReturnsFaithfully (F : Profiler K Prof Entry)
    (run : Args Prof Entry → ℕ → Vars K Prof Entry) (args : Args Prof Entry) : Prop :=
  ∀ n, (run args n).pc.running = false →
    ((run args n).returned = 0 → Completed F run args n) ∧
      (¬ Completed F run args n → (run args n).returned < 0)

namespace Vars

variable [FloorRing K] {F : Profiler K Prof Entry} {P : Setup K} {args : Args Prof Entry} {n : ℕ}

/-- A search that reached its end is completed exactly if a test was better than 0. -/
theorem completed_iff (hpc : (run F P args n).pc = .done) (hq : ∃ q, q ≠ args.profMax) :
    Completed F (run F P) args n ↔ 0 < bestGbps (Search.run P n).trials := by
  have hret : ∀ r, (run F P args n).pc ≠ .ret r := fun r => by rw [hpc]; simp
  have hE := (run_search F P args n).2 hret
  have hmax : (run F P args n).maxPerfGbps = bestGbps (Search.run P n).trials := by
    rw [← run_trials F P args n]; exact hE.maxPerf
  have htwin : ∀ q, (run F P { args with profMax := q } n).profMax =
      if 0 < (run F P args n).maxPerfGbps then (run F P args n).profMax else q := fun q => by
    rw [(twin_run F P args q n).same]
  rw [← hmax]
  constructor
  · intro hc
    by_contra hpos
    -- with another `prof_max` the run would end with the other one
    obtain ⟨q, hq⟩ := hq
    have h1 := (hc.assigned q).symm.trans (htwin q)
    have h2 : (run F P args n).profMax = _ := htwin args.profMax
    rw [if_neg hpos] at h1 h2
    exact hq (h1.symm.trans h2)
  · intro hpos
    refine ⟨hpc, ?_, fun q => by rw [htwin, if_pos hpos], ?_⟩
    · have hflag : (run F P args n).flag = (Search.run P n).flag :=
        congrArg Search.flag (run_search F P args n).1
      rw [hflag]
      rcases (Search.sound_run P n).done (by rw [← run_pc F P args]; exact hpc) with h | h | h
      · exact Or.inl h.1
      · exact Or.inr (Or.inl h.1)
      · exact Or.inr (Or.inr h.1)
    · have hbest : 0 < bestGbps (run F P args n).trials := by
        rw [run_trials, ← hmax]; exact hpos
      obtain ⟨pre, v, post, hs, hfb, -, -⟩ := firstBest_test hbest
      exact ⟨v, by rw [hs]; simp, ((programmed_run F P args n).best hret _ hfb hbest).2⟩

/-- A run returns faithfully exactly if its search is left faithfully. -/
theorem returnsFaithfully_iff (hq : ∃ q, q ≠ args.profMax) :
    ReturnsFaithfully F (run F P) args ↔ ∀ n, (run F P args n).Fit P := by
  have hfit : (∀ n, (run F P args n).Fit P) ↔ ∀ n, (Search.run P n).Faithful := by
    rw [Search.faithful_run_iff]
    refine forall_congr' fun n => ?_
    rw [fit_iff (run_search F P args n).2, (run_search F P args n).1]
  rw [hfit]
  constructor
  · intro h n
    have hn := h n
    rw [run_pc] at hn
    constructor
    · intro r hr
      have hpc : (run F P args n).pc = .ret r := by rw [run_pc]; exact hr
      have hret : (run F P args n).returned = r := by unfold returned; rw [hpc]
      have hnot : ¬ Completed F (run F P) args n := fun hc => by
        have := hc.done
        rw [hpc] at this; cases this
      have := (hn (by rw [hr]; rfl)).2 hnot
      rwa [hret] at this
    · intro hd
      have hpc : (run F P args n).pc = .done := by rw [run_pc]; exact hd
      have hret : (run F P args n).returned = 0 := by unfold returned; rw [hpc]
      exact (completed_iff hpc hq).mp ((hn (by rw [hd]; rfl)).1 hret)
  · intro h n hend
    rcases hpc : (run F P args n).pc with _ | _ | _ | _ | r
    · rw [hpc] at hend; cases hend
    · rw [hpc] at hend; cases hend
    · rw [hpc] at hend; cases hend
    · have hd : (Search.run P n).pc = .done := by rw [← run_pc F P args]; exact hpc
      have hc := (completed_iff hpc hq).mpr ((h n).done hd)
      exact ⟨fun _ => hc, fun hnot => absurd hc hnot⟩
    · have hr : (Search.run P n).pc = .ret r := by rw [← run_pc F P args]; exact hpc
      have hneg := (h n).ret r hr
      have hret : (run F P args n).returned = r := by unfold returned; rw [hpc]
      rw [hret]
      exact ⟨fun h0 => by omega, fun _ => hneg⟩

end Vars

variable [FloorRing K]

/-- The two clients return faithfully exactly if no step of their runs takes a
wrong way out. -/
theorem clientRun_returnsFaithfully_iff (P : Setup K) :
    (∀ lib args, ReturnsFaithfully (tcpProfiler lib P) (fun a n => (fTcpClientRun lib P a n).vars)
      args ↔ ∀ n, (fTcpClientRun lib P args n).vars.Fit P) ∧
    ∀ args, ReturnsFaithfully (udtProfiler P) (fun a n => (fUdtClientRun P a n).vars)
      args ↔ ∀ n, (fUdtClientRun P args n).vars.Fit P := by
  constructor
  · intro lib args
    simp only [fTcpClientRun_vars]
    apply Vars.returnsFaithfully_iff
    exact ⟨{ args.profMax with tcpProf := args.profMax.tcpProf + 1 }, fun h => by
      have := congrArg FastprofTcpProf.tcpProf h
      simp at this⟩
  · intro args
    simp only [fUdtClientRun_vars]
    apply Vars.returnsFaithfully_iff
    exact ⟨{ args.profMax with udtProf := args.profMax.udtProf + 1 }, fun h => by
      have := congrArg FastprofUdtProf.udtProf h
      simp at this⟩

/-- The first record cannot be added to the history, and the run returns 0. -/
theorem not_returnsFaithfully_unrecorded :
    ¬ ReturnsFaithfully
      (tcpProfiler plainIperf ⟨plainArith, plainCtrl (10 ^ 10) 60,
        { plainOutcomes (fun _ => 900) with added := fun _ => false }⟩)
      (fun a n => (fTcpClientRun plainIperf ⟨plainArith, plainCtrl (10 ^ 10) 60,
        { plainOutcomes (fun _ => 900) with added := fun _ => false }⟩ a n).vars) plainTcpArgs := by
  intro h
  have hpc : (fTcpClientRun plainIperf ⟨plainArith, plainCtrl (10 ^ 10) 60,
      { plainOutcomes (fun _ => 900) with added := fun _ => false }⟩ plainTcpArgs 1).vars.pc =
      .ret 0 := by decide +kernel
  have hn := h 1
  dsimp only at hn
  have hret : (fTcpClientRun plainIperf ⟨plainArith, plainCtrl (10 ^ 10) 60,
      { plainOutcomes (fun _ => 900) with added := fun _ => false }⟩ plainTcpArgs 1).vars.returned =
      0 := by unfold Vars.returned; rw [hpc]
  have hc := (hn (by rw [hpc]; rfl)).1 hret
  have hdone := hpc.symm.trans hc.done
  cases hdone

end Fastprof
end Probdata
