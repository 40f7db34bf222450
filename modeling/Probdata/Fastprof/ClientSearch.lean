/-
# The loop of a client is the search

`Vars.search` forgets the profiles, the history and the counters of the loop.
Where the counters are exact (`Vars.Tracks`), a step of the loop is a step of
the search on what is left, and keeps them exact (`step_search`). So along a
run the counters are what the search computes from its tests (`run_search`).
-/
import Probdata.Fastprof.SearchRun
import Probdata.Fastprof.Client

namespace Probdata
namespace Fastprof
namespace Vars

variable {K Prof Entry : Type*}

/-- The tests of a run, without what they were programmed with. -/
def trials (s : Vars K Prof Entry) : List (Trial K) := s.tests.map Test.trial

/-- The search that the variables are in. -/
def search (s : Vars K Prof Entry) : Search K where
  pc := s.pc
  flag := s.flag
  trials := s.trials
  theta := s.theta
  thetaPlus := s.thetaPlus
  thetaMinus := s.thetaMinus
  delta := s.delta
  adjPlus := s.ckAdjustPlus
  adjMinus := s.ckAdjustMinus
  ak := s.ak
  a := s.a
  c := s.c
  k := s.k
  rtt := s.rttMs
  window := (s.bufSizeMin, s.bufSizeMax)

/-- The counters among the variables. -/
def ledger (s : Vars K Prof Entry) : Ledger K where
  profileNum := s.profileNum
  noImpCounter := s.noImpCounter
  visited := s.visitedList.length
  history := s.history.length
  maxPerf := s.maxPerfGbps
  maxTheta := s.maxTheta
  yPlus := s.yPlusGbps
  yMinus := s.yMinusGbps

theorem tests_length (s : Vars K Prof Entry) : s.tests.length = s.trials.length := by
  simp [trials]

/-! ### The pieces of a test -/

section Pieces

variable (F : Profiler K Prof Entry) (m : Marker) (pt : K × K) (s : Vars K Prof Entry)

theorem search_setY (y : K) : (s.setY m y).search = s.search := by cases m <;> rfl

theorem ledger_setY (y : K) : (s.setY m y).ledger = s.ledger.setY m y := by cases m <;> rfl

theorem search_record : (s.record F).search = s.search := rfl

theorem ledger_record :
    (s.record F).ledger = { s.ledger with history := s.ledger.history + 1 } := by
  simp [record, ledger]

theorem y_record : (s.record F).y m = s.y m := by cases m <;> rfl

variable [Field K]

theorem search_visit : (s.visit m).search = s.search := rfl

theorem ledger_visit : (s.visit m).ledger = { s.ledger with
    profileNum := s.ledger.profileNum + 1, visited := s.ledger.visited + 1 } := by
  simp [visit, ledger]

theorem y_visit : (s.visit m).y m = s.y m := by cases m <;> rfl

/-- Programming the profile changes nothing that the search or the counters
see, except the throughput about to be measured. -/
theorem search_program : (s.program F m pt).search = s.search := search_setY m s 0

theorem ledger_program : (s.program F m pt).ledger = s.ledger.setY m 0 := ledger_setY m s 0

theorem search_ran (y : K) (n : ℤ) : (s.ran F m pt y n).search =
    { s.search with trials := s.trials ++ [⟨pt, s.search.window, y⟩] } := by
  cases m <;> simp [ran, search, trials, setY]

theorem ledger_ran (y : K) (n : ℤ) : (s.ran F m pt y n).ledger = s.ledger.setY m (y / 1000) := by
  conv_rhs => rw [← F.perfMbps_ran y n s.prof (s.entry F)]
  exact ledger_setY m s _

theorem y_ran (y : K) (n : ℤ) : (s.ran F m pt y n).y m = y / 1000 := by
  conv_rhs => rw [← F.perfMbps_ran y n s.prof (s.entry F)]
  cases m <;> rfl

variable [LinearOrder K] (P : Setup K)

theorem ledger_compare : (s.compare P m pt).ledger = { s.ledger with
    maxPerf := if s.y m > s.ledger.maxPerf then s.y m else s.ledger.maxPerf
    maxTheta := if s.y m > s.ledger.maxPerf then pt else s.ledger.maxTheta
    noImpCounter := if s.y m > s.ledger.maxPerf then 0 else s.ledger.noImpCounter + 1 } := by
  by_cases hy : s.y m > s.maxPerfGbps
  · have hy' : s.y m > s.ledger.maxPerf := hy
    rw [if_pos hy', if_pos hy', if_pos hy', compare, if_pos hy]
    dsimp only
    split <;> rfl
  · have hy' : ¬ s.y m > s.ledger.maxPerf := hy
    rw [if_neg hy', if_neg hy', if_neg hy', compare, if_neg hy]
    rfl

theorem started_compare : (s.compare P m pt).started = s.started := by
  unfold compare
  split
  · dsimp only
    split <;> rfl
  · rfl

theorem search_compare : (s.compare P m pt).search =
    if s.ledger.maxPerf < s.y m ∧ pgrReached (s.y m) P.ctrl.bwGbps P.lim.perfGainRatio = true then
      { s.search with flag := 3, pc := .done }
    else { s.search with pc := m.next } := by
  by_cases hy : s.y m > s.maxPerfGbps
  · rw [compare, if_pos hy]
    dsimp only
    by_cases hr : pgrReached (s.y m) P.ctrl.bwGbps P.lim.perfGainRatio = true
    · rw [if_pos hr, if_pos ⟨hy, hr⟩]
      rfl
    · rw [if_neg hr, if_neg fun h => hr h.2]
      rfl
  · rw [compare, if_neg hy, if_neg fun h => hy h.1]
    rfl

end Pieces

/-! ### A test -/

variable [Field K] [LinearOrder K]

/-- The counters are exact, unless the loop was left by a `return`. -/
def Tracks (s : Vars K Prof Entry) : Prop :=
  (∀ r, s.pc ≠ .ret r) → s.ledger.Exact s.pc s.trials

variable {F : Profiler K Prof Entry} {P : Setup K} {m : Marker} {s : Vars K Prof Entry}

/-- The variables of a test that returned, up to the comparison. -/
theorem test_of_some {pt : K × K} {y : K} (h : P.out.test s.trials.length = some y) :
    s.test F P m pt =
      let s' := (s.program F m pt).ran F m pt y (P.out.sent s.trials.length)
      if !P.out.composed s.trials.length || !P.out.added s.trials.length then
        { s' with pc := .ret 0 }
      else ((s'.record F).visit m).compare P m pt := by
  unfold test
  rw [tests_length]
  simp only [h]
  rcases P.out.composed s.trials.length <;> rcases P.out.added s.trials.length <;> rfl

theorem test_of_none {pt : K × K} (h : P.out.test s.trials.length = none) :
    s.test F P m pt = { s.program F m pt with pc := .ret (-1) } := by
  unfold test
  rw [tests_length]
  simp only [h]

/-- The counters after a test that was recorded. -/
theorem ledger_test (pt : K × K) (y : K) (n : ℤ) :
    ((((s.program F m pt).ran F m pt y n).record F).visit m |>.compare P m pt).ledger =
      s.ledger.count m pt (y / 1000) := by
  rw [ledger_compare, y_visit, y_record, y_ran, ledger_visit, ledger_record, ledger_ran,
    ledger_program]
  cases m <;> rfl

/-- `firstBest_spec` for the tests themselves. -/
theorem firstBest_test {s : Vars K Prof Entry} (h : 0 < bestGbps s.trials) :
    ∃ pre v post, s.tests = pre ++ v :: post ∧ firstBest s.trials = some v.trial ∧
      v.trial.gbps = bestGbps s.trials ∧ ∀ u ∈ pre, u.trial.gbps < v.trial.gbps := by
  obtain ⟨pre, t, post, he, hfb, hbest, hlt⟩ := firstBest_spec h
  obtain ⟨pre', rest, hs, hpre, hrest⟩ := List.map_eq_append_iff.mp he
  obtain ⟨v, post', hr, rfl, -⟩ := List.map_eq_cons_iff.mp hrest
  refine ⟨pre', v, post', by rw [hs, hr], hfb, hbest, fun u hu => ?_⟩
  exact hlt u.trial (hpre ▸ List.mem_map_of_mem hu)

theorem le_bestGbps {s : Vars K Prof Entry} {t : Test K Entry} (h : t ∈ s.tests) :
    t.trial.gbps ≤ bestGbps s.trials :=
  Running.le_best_of_mem (List.mem_map_of_mem (List.mem_map_of_mem h))

/-- A test of the loop is a test of the search. -/
theorem search_test (pt : K × K) (hbest : s.maxPerfGbps = bestGbps s.trials) :
    (s.test F P m pt).search = Search.trial P m pt s.search := by
  have htr : s.search.trials = s.trials := rfl
  rcases hy : P.out.test s.trials.length with _ | y
  · rw [test_of_none hy, Search.trial, htr, hy]
    show { (s.program F m pt).search with pc := .ret (-1) } = _
    rw [search_program]
    rfl
  · rw [test_of_some hy, Search.trial, htr, hy]
    simp only
    set n := P.out.sent s.trials.length
    have hran : ((s.program F m pt).ran F m pt y n).search =
        { s.search with trials := s.trials ++ [⟨pt, s.search.window, y⟩] } := by
      rw [search_ran, search_program, show (s.program F m pt).trials = s.trials from
        congrArg Search.trials (search_program F m pt s)]
    split
    · show { ((s.program F m pt).ran F m pt y n).search with pc := .ret 0 } = _
      rw [hran]
    · have hmax : ((((s.program F m pt).ran F m pt y n).record F).visit m).ledger.maxPerf =
          bestGbps s.trials := by
        rw [ledger_visit, ledger_record, ledger_ran, ledger_program, ← hbest]
        cases m <;> rfl
      rw [search_compare, y_visit, y_record, y_ran, search_visit, search_record, hran, hmax]
      -- the loop compares the throughput, the search the best with this test
      by_cases hlt : bestGbps s.trials < y / 1000
      · have hb : bestGbps (s.trials ++ [⟨pt, s.search.window, y⟩]) = y / 1000 :=
          bestGbps_snoc_of_lt (t := ⟨pt, s.search.window, y⟩) hlt
        rw [Search.reached, hb]
      · rw [if_neg fun h => hlt h.1, if_neg fun h => hlt h.1]

/-- A test keeps the counters exact. -/
theorem tracks_test (pt : K × K) (h : s.ledger.Exact s.pc s.trials) (hm : m.follows s.pc) :
    (s.test F P m pt).Tracks := by
  intro hret
  have hs := search_test (F := F) (P := P) (m := m) pt h.maxPerf
  have hpc : (s.test F P m pt).pc = (Search.trial P m pt s.search).pc := congrArg Search.pc hs
  have htr : (s.test F P m pt).trials = (Search.trial P m pt s.search).trials :=
    congrArg Search.trials hs
  rcases Search.trial_cases P m pt s.search with ⟨-, he⟩ | ⟨t, hpt, -, hy, ⟨-, he⟩ | hgo⟩
  · exact absurd (by rw [hpc, he]) (hret (-1))
  · exact absurd (by rw [hpc, he]) (hret 0)
  · have hrec : (!P.out.composed s.trials.length || !P.out.added s.trials.length) = false := by
      by_contra hr
      refine hret 0 ?_
      rw [test_of_some hy]
      exact congrArg Vars.pc (if_pos ((Bool.eq_false_or_eq_true _).resolve_right hr))
    have hled : (s.test F P m pt).ledger = s.ledger.count m t.theta t.gbps := by
      rw [test_of_some hy]
      simp only [hrec, Bool.false_eq_true, ↓reduceIte]
      rw [ledger_test, hpt]
      rfl
    rw [hled, hpc, htr]
    have hc := h.count hm t
    rcases hgo with ⟨-, -, he⟩ | ⟨-, he⟩
    · rw [he]; exact hc.ofPc (by simp) (by simp)
    · rw [he]; exact hc

/-! ### A step -/

theorem search_climb (P : Setup K) {s : Vars K Prof Entry} (h : s.ledger.Exact s.pc s.trials)
    (hpc : s.pc = .star) : (s.climb P).search = Search.climb P s.search := by
  obtain ⟨hp, hm⟩ := h.yStar hpc
  have hp' : s.search.trials[s.search.trials.length - 2]?.map Trial.gbps = some s.yPlusGbps := hp
  have hm' : s.search.trials[s.search.trials.length - 1]?.map Trial.gbps = some s.yMinusGbps := hm
  unfold Search.climb
  dsimp only
  rw [hp', hm']
  rfl

theorem star_search (h : s.ledger.Exact s.pc s.trials) (hpc : s.pc = .star) :
    (s.star F P).search = Search.star P s.search ∧ (s.star F P).Tracks := by
  have hx : (s.climb P).ledger.Exact (s.climb P).pc (s.climb P).trials := h
  have hc := search_climb P h hpc
  have ht : ((s.climb P).test F P .star (s.climb P).theta).search =
      Search.trial P .star (Search.climb P s.search).theta (Search.climb P s.search) := by
    rw [search_test _ hx.maxPerf, hc, ← hc]
    rfl
  have hT : ((s.climb P).test F P .star (s.climb P).theta).Tracks := tracks_test _ hx hpc
  have hpc' := congrArg Search.pc ht
  unfold star Search.star
  simp only
  by_cases hh : ((s.climb P).test F P .star (s.climb P).theta).pc = .head
  · rw [if_pos hh, if_pos (hpc' ▸ hh)]
    -- the variable holds the point the search restarts from
    have hE := hT fun r => by rw [hh]; simp
    have hmax : restart ((s.climb P).test F P .star (s.climb P).theta).search.trials =
        ((s.climb P).test F P .star (s.climb P).theta).maxTheta := hE.maxTheta.symm
    refine ⟨?_, fun _ => hE⟩
    rw [← ht, hmax]
    rfl
  · rw [if_neg hh, if_neg (hpc' ▸ hh)]
    exact ⟨ht, hT⟩

theorem search_scale (h : s.ledger.Exact s.pc s.trials) :
    (s.scale P).search = Search.scale P s.search := by
  have himp : (stale s.search.trials : ℤ) = s.noImpCounter := h.noImpCounter.symm
  unfold scale Search.scale
  rw [himp]
  split <;> rfl

theorem ledger_scale (P : Setup K) (s : Vars K Prof Entry) : (s.scale P).ledger = s.ledger := by
  unfold scale; split <;> rfl

theorem Tracks.ofExact {s : Vars K Prof Entry} (pc : Pc) (h : s.ledger.Exact pc s.trials)
    (hpc : s.pc = .done) : s.Tracks := fun _ => by
  rw [hpc]
  exact h.ofPc (by simp) (by simp)

variable [FloorRing K]

theorem head_search (h : s.ledger.Exact s.pc s.trials) (hpc : s.pc = .head) :
    (s.head F P).search = Search.head P s.search ∧ (s.head F P).Tracks := by
  set s0 : Vars K Prof Entry := { s with flag := -1 }
  have h0 : s0.ledger.Exact s0.pc s0.trials := h
  have hscale : (s0.scale P).search = Search.scale P s0.search := search_scale h0
  have h1 : (s0.scale P).ledger.Exact (s0.scale P).pc (s0.scale P).trials := by
    have e1 : (s0.scale P).pc = s0.pc := by unfold scale; split <;> rfl
    have e2 : (s0.scale P).trials = s0.trials := by unfold scale; split <;> rfl
    rw [ledger_scale, e1, e2]
    exact h0
  have habs : Search.head P s.search =
      if (s0.trials.length : ℤ) ≥ P.lim.maxProf then { s0.search with flag := 1, pc := .done }
      else if (stale (Search.scale P s0.search).trials : ℤ) ≥ P.lim.noImp then
        { Search.scale P s0.search with flag := 2, pc := .done }
      else if Search.reached P (Search.scale P s0.search).trials then
        { Search.scale P s0.search with flag := 3, pc := .done }
      else
        Search.trial P .plus
          (Search.perturb P (Search.measure P (Search.scale P s0.search))).thetaPlus
          (Search.perturb P (Search.measure P (Search.scale P s0.search))) := rfl
  rw [← hscale] at habs
  have hnum : (s0.trials.length : ℤ) = s0.profileNum := h0.profileNum.symm
  have himp : (stale (s0.scale P).search.trials : ℤ) = (s0.scale P).noImpCounter :=
    h1.noImpCounter.symm
  have hreach : Search.reached P (s0.scale P).search.trials =
      pgrReached (s0.scale P).maxPerfGbps P.ctrl.bwGbps P.lim.perfGainRatio := by
    rw [Search.reached, ← show _ = bestGbps (s0.scale P).search.trials from h1.maxPerf]; rfl
  have hcon : s.head F P =
      if s0.profileNum ≥ P.lim.maxProf then { s0 with flag := 1, pc := .done }
      else if (s0.scale P).noImpCounter ≥ P.lim.noImp then
        { s0.scale P with flag := 2, pc := .done }
      else if pgrReached (s0.scale P).maxPerfGbps P.ctrl.bwGbps P.lim.perfGainRatio then
        { s0.scale P with flag := 3, pc := .done }
      else
        (((s0.scale P).measure P).perturb P).test F P .plus
          (((s0.scale P).measure P).perturb P).thetaPlus := rfl
  rw [habs, hcon, hnum, himp, hreach]
  split
  · exact ⟨rfl, Tracks.ofExact s0.pc h0 rfl⟩
  split
  · exact ⟨rfl, Tracks.ofExact (s0.scale P).pc h1 rfl⟩
  split
  · exact ⟨rfl, Tracks.ofExact (s0.scale P).pc h1 rfl⟩
  · have hpc' : (s0.scale P).pc = .head := by rw [← hpc]; unfold scale; split <;> rfl
    have h2 : (((s0.scale P).measure P).perturb P).ledger.Exact
      (((s0.scale P).measure P).perturb P).pc (((s0.scale P).measure P).perturb P).trials := h1
    exact ⟨search_test _ h2.maxPerf, tracks_test _ h2 hpc'⟩

/-- A step of the loop is a step of the search, and keeps the counters exact. -/
theorem step_search (h : s.Tracks) :
    (s.step F P).search = Search.step P s.search ∧ (s.step F P).Tracks := by
  rcases hpc : s.pc with _ | _ | _ | _ | r
  · have hc := step_of_head F P hpc
    have ha : Search.step P s.search = Search.head P s.search := by
      unfold Search.step; rw [show s.search.pc = .head from hpc]
    rw [hc, ha]
    exact head_search (h fun r => by rw [hpc]; simp) hpc
  · have hc := step_of_minus F P hpc
    have ha : Search.step P s.search = Search.trial P .minus s.search.thetaMinus s.search := by
      unfold Search.step; rw [show s.search.pc = .minus from hpc]
    have hE := h fun r => by rw [hpc]; simp
    rw [hc, ha]
    exact ⟨search_test _ hE.maxPerf, tracks_test _ hE hpc⟩
  · have hc := step_of_star F P hpc
    have ha : Search.step P s.search = Search.star P s.search := by
      unfold Search.step; rw [show s.search.pc = .star from hpc]
    rw [hc, ha]
    exact star_search (h fun r => by rw [hpc]; simp) hpc
  · have hc : s.step F P = s := by unfold step; rw [hpc]
    have ha : Search.step P s.search = s.search := by
      unfold Search.step; rw [show s.search.pc = .done from hpc]
    rw [hc, ha]
    exact ⟨rfl, h⟩
  · have hc : s.step F P = s := by unfold step; rw [hpc]
    have ha : Search.step P s.search = s.search := by
      unfold Search.step; rw [show s.search.pc = .ret r from hpc]
    rw [hc, ha]
    exact ⟨rfl, h⟩

/-! ### A run -/

theorem run_succ (F : Profiler K Prof Entry) (P : Setup K) (args : Args Prof Entry) (n : ℕ) :
    run F P args (n + 1) = (run F P args n).step F P :=
  Function.iterate_succ_apply' _ _ _

theorem tracks_start (P : Setup K) (args : Args Prof Entry) : (start P args).Tracks := by
  intro hret
  have hpc : (start P args).pc = .head := by
    by_contra h
    refine hret (-1) ?_
    unfold start at h ⊢
    simp_all
  rw [hpc]
  exact {
    profileNum := rfl
    noImpCounter := by rw [show (start P args).trials = [] from rfl, stale_nil]; rfl
    visited := rfl
    history := rfl
    maxPerf := rfl
    maxTheta := by rw [show (start P args).trials = [] from rfl, restart_nil]; rfl
    yMinus := fun h => by cases h
    yStar := fun h => by cases h }

/-- A run of the loop is a run of the search, with exact counters. -/
theorem run_search (F : Profiler K Prof Entry) (P : Setup K) (args : Args Prof Entry) (n : ℕ) :
    (run F P args n).search = Search.run P n ∧ (run F P args n).Tracks := by
  induction n with
  | zero => exact ⟨rfl, tracks_start P args⟩
  | succ n ih =>
    obtain ⟨hs, ht⟩ := step_search (F := F) (P := P) ih.2
    rw [run_succ, Search.run_succ, ← ih.1]
    exact ⟨hs, ht⟩

end Vars

end Fastprof
end Probdata
