/-
# What is read of the best test

`prof_max` is a copy of a profile struct, so it holds the handle of the one
entry that every test programs. After the loop its throughput is the best
test's, and the parameters read through its handle are the last test's
(`Vars.run_report`): they are the best test's only if the last test was
programmed with the same ones (`Vars.reportsBest_iff`).
-/
import Probdata.Fastprof.ClientSearch
import Probdata.Fastprof.Tcp
import Probdata.Fastprof.Udt

namespace Probdata
namespace Fastprof

variable {K Prof Entry : Type*} [Field K] [LinearOrder K]

/-- What is read after the loop are the parameters and the throughput of the
first test that no test exceeded. -/
def ReportsBest (F : Profiler K Prof Entry) (s : Vars K Prof Entry) : Prop :=
  ∃ pre t post, s.tests = pre ++ t :: post ∧ (∀ u ∈ pre, u.trial.gbps < t.trial.gbps) ∧
    (∀ u ∈ post, u.trial.gbps ≤ t.trial.gbps) ∧
    s.report F = (F.setting t.entry, t.trial.perfMbps)

/-- The last test is planned with the parameters of the first best one. -/
def LastAsBest (F : Profiler K Prof Entry) (ts : List (Trial K)) : Prop :=
  ∀ t ∈ firstBest ts, ∀ u ∈ ts.getLast?, F.planned u = F.planned t

namespace Vars

/-- The profiles of a run whose profile has the handle `h`. -/
structure Programmed (F : Profiler K Prof Entry) (h : ℕ) (s : Vars K Prof Entry) : Prop where
  handle : F.handle s.prof = h
  planned : ∀ t ∈ s.tests, F.setting t.entry = F.planned t.trial
  last : (∀ r, s.pc ≠ .ret r) → ∀ t ∈ s.tests.getLast?, F.setting (s.store h) = F.setting t.entry
  best : (∀ r, s.pc ≠ .ret r) → ∀ t, firstBest s.trials = some t → 0 < bestGbps s.trials →
    F.handle s.profMax = h ∧ F.perfMbps s.profMax = t.perfMbps

variable {F : Profiler K Prof Entry} {P : Setup K} {h : ℕ}

theorem compare_prof (m : Marker) (pt : K × K) (s : Vars K Prof Entry) :
    (s.compare P m pt).prof = s.prof ∧ (s.compare P m pt).store = s.store ∧
      (s.compare P m pt).tests = s.tests := by
  unfold compare
  split
  · dsimp only
    split <;> exact ⟨rfl, rfl, rfl⟩
  · exact ⟨rfl, rfl, rfl⟩

theorem compare_profMax (m : Marker) (pt : K × K) (s : Vars K Prof Entry) :
    (s.compare P m pt).profMax = if s.y m > s.maxPerfGbps then s.prof else s.profMax := by
  unfold compare
  split
  · dsimp only
    split <;> rfl
  · rfl

/-- A test that returned, before it is compared. -/
structure Ran (F : Profiler K Prof Entry) (h : ℕ) (t : Trial K) (s s' : Vars K Prof Entry) :
    Prop where
  handle : F.handle s'.prof = h
  perfMbps : F.perfMbps s'.prof = t.perfMbps
  profMax : s'.profMax = s.profMax
  maxPerf : s'.maxPerfGbps = s.maxPerfGbps
  tests : ∃ e, s'.tests = s.tests ++ [⟨t, e⟩] ∧ F.setting e = F.planned t ∧
    F.setting (s'.store h) = F.setting e

omit [LinearOrder K] in
theorem ran_ran (m : Marker) (pt : K × K) {s : Vars K Prof Entry} (hs : F.handle s.prof = h)
    (y : K) (n : ℤ) :
    Ran F h ⟨pt, (s.bufSizeMin, s.bufSizeMax), y⟩ s ((s.program F m pt).ran F m pt y n) := by
  have hprof : (s.program F m pt).prof = s.prof := by cases m <;> rfl
  have htests : (s.program F m pt).tests = s.tests := by cases m <;> rfl
  have hmin : (s.program F m pt).bufSizeMin = s.bufSizeMin := by cases m <;> rfl
  have hmax : (s.program F m pt).bufSizeMax = s.bufSizeMax := by cases m <;> rfl
  have hentry : (s.program F m pt).entry F =
      F.program (F.value (s.bufSizeMin, s.bufSizeMax) pt) (s.entry F) := by
    rw [entry, hprof]
    simp only [program, Function.update_self]
  refine ⟨?_, ?_, by cases m <;> rfl, by cases m <;> rfl, (s.program F m pt).entry F, ?_, ?_, ?_⟩
  · rw [← hs, ← hprof]
    exact F.handle_ran y n (s.program F m pt).prof ((s.program F m pt).entry F)
  · exact F.perfMbps_ran y n (s.program F m pt).prof ((s.program F m pt).entry F)
  · show (s.program F m pt).tests ++ _ = _
    rw [htests, hmin, hmax]
  · rw [hentry, F.setting_program]; rfl
  · rw [← F.setting_ran y n (s.program F m pt).prof ((s.program F m pt).entry F), ← hs, ← hprof]
    simp only [ran, Function.update_self]

/-- What a test makes of the profiles: it fails; or its record is lost, and the
search returns; or it is compared with the best so far. -/
inductive Tested (F : Profiler K Prof Entry) (h : ℕ) (pt : K × K) (s s' : Vars K Prof Entry) : Prop
  | failed (hpc : s'.pc = .ret (-1)) (prof : s'.prof = s.prof) (profMax : s'.profMax = s.profMax)
      (tests : s'.tests = s.tests)
  | lost (y : K) (hpc : s'.pc = .ret 0)
      (ran : Ran F h ⟨pt, (s.bufSizeMin, s.bufSizeMax), y⟩ s s')
  | compared (y : K) (s₁ : Vars K Prof Entry) (hpc : ∀ r, s'.pc ≠ .ret r)
      (ran : Ran F h ⟨pt, (s.bufSizeMin, s.bufSizeMax), y⟩ s s₁) (prof : s'.prof = s₁.prof)
      (store : s'.store = s₁.store) (tests : s'.tests = s₁.tests)
      (profMax : s'.profMax = if y / 1000 > s.maxPerfGbps then s₁.prof else s.profMax)

theorem tested_test (m : Marker) (pt : K × K) {s : Vars K Prof Entry} (hs : F.handle s.prof = h) :
    Tested F h pt s (s.test F P m pt) := by
  rcases hy : P.out.test s.trials.length with _ | y
  · rw [test_of_none hy]
    exact .failed rfl (by cases m <;> rfl) (by cases m <;> rfl) (by cases m <;> rfl)
  have hran := ran_ran m pt hs y (P.out.sent s.trials.length)
  rw [test_of_some hy]
  dsimp only
  set s₁ := (s.program F m pt).ran F m pt y (P.out.sent s.trials.length) with hs₁
  split
  · exact .lost y rfl ⟨hran.handle, hran.perfMbps, hran.profMax, hran.maxPerf, hran.tests⟩
  · obtain ⟨hprof, hstore, htests⟩ := compare_prof (P := P) m pt ((s₁.record F).visit m)
    refine .compared y s₁ ?_ hran hprof hstore htests ?_
    · intro r
      unfold compare
      split
      · dsimp only
        split
        · simp
        · cases m <;> simp [Marker.next]
      · cases m <;> simp [Marker.next]
    · rw [compare_profMax, y_visit, y_record, y_ran, ← hran.profMax, ← hran.maxPerf]
      rfl

/-- A test leaves the entry as it programmed it, and copies the handle if it is
the best so far. -/
theorem programmed_test {m : Marker} (pt : K × K) {s : Vars K Prof Entry}
    (hs : s.Programmed F h) (hE : s.ledger.Exact s.pc s.trials) (hpc : ∀ r, s.pc ≠ .ret r) :
    (s.test F P m pt).Programmed F h := by
  have hplanned : ∀ t e, F.setting e = F.planned t →
      ∀ u ∈ s.tests ++ [⟨t, e⟩], F.setting u.entry = F.planned u.trial := by
    intro t e hplan u hu
    rcases List.mem_append.mp hu with hu | hu
    · exact hs.planned u hu
    · rw [List.mem_singleton.mp hu]
      exact hplan
  cases tested_test (P := P) m pt hs.handle with
  | failed hret hprof _ htests =>
    exact ⟨hprof ▸ hs.handle, htests ▸ hs.planned, fun hr => absurd hret (hr (-1)),
      fun hr => absurd hret (hr (-1))⟩
  | lost y hret hran =>
    obtain ⟨e, htests, hplan, -⟩ := hran.tests
    exact ⟨hran.handle, htests ▸ hplanned _ e hplan, fun hr => absurd hret (hr 0),
      fun hr => absurd hret (hr 0)⟩
  | compared y s₁ _ hran hprof hstore htests hmax =>
    obtain ⟨e, htests₁, hplan, hlast⟩ := hran.tests
    rw [htests₁] at htests
    have htrials : (s.test F P m pt).trials = s.trials ++ [⟨pt, (s.bufSizeMin, s.bufSizeMax), y⟩] := by
      rw [trials, htests]
      simp [trials]
    refine ⟨hprof ▸ hran.handle, htests ▸ hplanned _ e hplan, fun _ => ?_, fun _ => ?_⟩
    · rw [hstore, htests, List.getLast?_append]
      intro u hu
      obtain rfl := Option.some.inj hu
      exact hlast
    · rw [hmax, htrials, show s.maxPerfGbps = bestGbps s.trials from hE.maxPerf]
      intro u hu hpos
      by_cases hb : y / 1000 > bestGbps s.trials
      · rw [firstBest_snoc_of_lt hb] at hu
        obtain rfl := Option.some.inj hu
        rw [if_pos hb]
        exact ⟨hran.handle, hran.perfMbps⟩
      · have hle : y / 1000 ≤ bestGbps s.trials := not_lt.mp hb
        rw [bestGbps_snoc_of_le hle] at hpos
        rw [firstBest_snoc_of_le hle hpos] at hu
        rw [if_neg hb]
        exact hs.best hpc u hu hpos

/-- Two states with the same tests and profiles, at the same place, or both before
the search returned. -/
structure Aside (s s' : Vars K Prof Entry) : Prop where
  pc : s'.pc = s.pc ∨ (∀ r, s.pc ≠ .ret r) ∧ ∀ r, s'.pc ≠ .ret r
  prof : s'.prof = s.prof
  store : s'.store = s.store
  profMax : s'.profMax = s.profMax
  tests : s'.tests = s.tests

section Keeps

variable {I : Vars K Prof Entry → Prop} {s : Vars K Prof Entry}

theorem star_keeps (hcongr : ∀ s s', Aside s s' → I s → I s')
    (htest : ∀ m pt s, I s → s.ledger.Exact s.pc s.trials → (∀ r, s.pc ≠ .ret r) →
      I (s.test F P m pt))
    (hs : I s) (hE : s.ledger.Exact s.pc s.trials) (hpc : ∀ r, s.pc ≠ .ret r) : I (s.star F P) := by
  have hc : I (s.climb P) := hcongr s _ ⟨.inl rfl, rfl, rfl, rfl, rfl⟩ hs
  have ht := htest .star (s.climb P).theta (s.climb P) hc hE hpc
  unfold star
  dsimp only
  split
  · exact hcongr ((s.climb P).test F P .star (s.climb P).theta) _ ⟨.inl rfl, rfl, rfl, rfl, rfl⟩ ht
  · exact ht

theorem aside_scale (s : Vars K Prof Entry) :
    Aside s (({ s with flag := -1 } : Vars K Prof Entry).scale P) := by
  unfold scale
  split <;> exact ⟨.inl rfl, rfl, rfl, rfl, rfl⟩

variable [FloorRing K]

theorem head_keeps (hcongr : ∀ s s', Aside s s' → I s → I s')
    (htest : ∀ m pt s, I s → s.ledger.Exact s.pc s.trials → (∀ r, s.pc ≠ .ret r) →
      I (s.test F P m pt))
    (hs : I s) (hE : s.ledger.Exact s.pc s.trials) (hpc : s.pc = .head) : I (s.head F P) := by
  have hret : ∀ r, s.pc ≠ .ret r := fun r => by rw [hpc]; simp
  have hscale := aside_scale (P := P) s
  set s1 := ({ s with flag := -1 } : Vars K Prof Entry).scale P with hs1
  have hI1 : I s1 := hcongr s s1 hscale hs
  have hE1 : s1.ledger.Exact s1.pc s1.trials := by
    rw [hs1]
    unfold scale
    split <;> exact hE
  have hret1 : ∀ r, s1.pc ≠ .ret r := hscale.pc.elim (fun h => h ▸ hret) And.right
  unfold head
  dsimp only
  rw [← hs1]
  split
  · exact hcongr s _ ⟨.inr ⟨hret, by simp⟩, rfl, rfl, rfl, rfl⟩ hs
  split
  · exact hcongr s1 _ ⟨.inr ⟨hret1, by simp⟩, rfl, rfl, rfl, rfl⟩ hI1
  split
  · exact hcongr s1 _ ⟨.inr ⟨hret1, by simp⟩, rfl, rfl, rfl, rfl⟩ hI1
  · exact htest _ _ _ (hcongr s1 _ ⟨.inl rfl, rfl, rfl, rfl, rfl⟩ hI1) hE1 hret1

/-- What every test keeps, and what depends on the tests and the profiles only, a
step keeps. -/
theorem step_keeps (hcongr : ∀ s s', Aside s s' → I s → I s')
    (htest : ∀ m pt s, I s → s.ledger.Exact s.pc s.trials → (∀ r, s.pc ≠ .ret r) →
      I (s.test F P m pt))
    (hs : I s) (ht : s.Tracks) : I (s.step F P) := by
  unfold step
  split
  · rename_i hpc
    exact head_keeps hcongr htest hs (ht fun r => by rw [hpc]; simp) hpc
  · rename_i hpc
    have hret : ∀ r, s.pc ≠ .ret r := fun r => by rw [hpc]; simp
    exact htest _ _ _ hs (ht hret) hret
  · rename_i hpc
    have hret : ∀ r, s.pc ≠ .ret r := fun r => by rw [hpc]; simp
    exact star_keeps hcongr htest hs (ht hret) hret
  · exact hs
  · exact hs

end Keeps

theorem Programmed.aside {s s' : Vars K Prof Entry} (ha : Aside s s') (hs : s.Programmed F h) :
    s'.Programmed F h := by
  have htrials : s'.trials = s.trials := by
    rw [trials, ha.tests]
    rfl
  have hpc : (∀ r, s'.pc ≠ .ret r) → ∀ r, s.pc ≠ .ret r := fun hr =>
    ha.pc.elim (fun h => h ▸ hr) And.left
  refine ⟨by rw [ha.prof]; exact hs.handle, by rw [ha.tests]; exact hs.planned,
    fun hr => ?_, fun hr => ?_⟩
  · rw [ha.store, ha.tests]
    exact hs.last (hpc hr)
  · rw [ha.profMax, htrials]
    exact hs.best (hpc hr)

variable [FloorRing K]

theorem programmed_step {s : Vars K Prof Entry} (hs : s.Programmed F h) (ht : s.Tracks) :
    (s.step F P).Programmed F h :=
  step_keeps (fun _ _ => Programmed.aside) (fun _ pt _ => programmed_test pt) hs ht

theorem programmed_run (F : Profiler K Prof Entry) (P : Setup K) (args : Args Prof Entry)
    (n : ℕ) : (run F P args n).Programmed F (F.handle args.prof) := by
  induction n with
  | zero =>
    exact {
      handle := rfl
      planned := fun t ht => by cases ht
      last := fun _ t ht => by cases ht
      best := fun _ t _ hpos => absurd hpos (lt_irrefl _) }
  | succ n ih =>
    rw [run_succ]
    exact programmed_step ih (run_search F P args n).2

/-- After the loop the parameters are those of the last test, and the
throughput that of the first best one. -/
theorem run_report {F : Profiler K Prof Entry} {P : Setup K} {args : Args Prof Entry} {n : ℕ}
    (hpc : (run F P args n).pc = .done) {t u : Trial K}
    (ht : firstBest (run F P args n).trials = some t) (hpos : 0 < bestGbps (run F P args n).trials)
    (hu : (run F P args n).trials.getLast? = some u) :
    (run F P args n).report F = (F.planned u, t.perfMbps) := by
  have hret : ∀ r, (run F P args n).pc ≠ .ret r := fun r => by rw [hpc]; simp
  have hp := programmed_run F P args n
  obtain ⟨hh, hperf⟩ := hp.best hret t ht hpos
  obtain ⟨v, hv, hvu⟩ : ∃ v, (run F P args n).tests.getLast? = some v ∧ v.trial = u := by
    rw [trials, List.getLast?_map] at hu
    simpa using hu
  have hlast := hp.last hret v hv
  have hplan := hp.planned v (List.mem_of_getLast? hv)
  rw [report, hh, hperf, hlast, hplan, hvu]

/-- What a run reports is its best test exactly if its last test was planned
with the same parameters. -/
theorem reportsBest_iff (F : Profiler K Prof Entry) (P : Setup K) (args : Args Prof Entry) {n : ℕ}
    (hpc : (run F P args n).pc = .done)
    (hpos : ∃ t ∈ (run F P args n).tests, 0 < t.trial.gbps) :
    ReportsBest F (run F P args n) ↔ LastAsBest F (Search.run P n).trials := by
  have htr : (run F P args n).trials = (Search.run P n).trials :=
    congrArg Search.trials (run_search F P args n).1
  have hbest : 0 < bestGbps (run F P args n).trials := by
    obtain ⟨t, ht, hy⟩ := hpos
    exact lt_of_lt_of_le hy (le_bestGbps ht)
  obtain ⟨pre, v, post, hs, hfb, hmax, hlt⟩ := firstBest_test hbest
  obtain ⟨u, hu⟩ : ∃ u, (run F P args n).trials.getLast? = some u :=
    ⟨_, List.getLast?_eq_some_getLast (by rw [trials, hs]; simp)⟩
  have hrep := run_report hpc hfb hbest hu
  have hplan : F.setting v.entry = F.planned v.trial :=
    (programmed_run F P args n).planned v (by rw [hs]; simp)
  have hle : ∀ w ∈ post, w.trial.gbps ≤ v.trial.gbps := fun w hw => by
    rw [hmax]; exact le_bestGbps (by rw [hs]; simp [hw])
  rw [← htr, LastAsBest, hfb, hu]
  constructor
  · rintro ⟨pre', w, post', hs', hlt', hle', hrep'⟩ t' ht' u' hu'
    obtain rfl : v.trial = t' := by simpa using ht'
    obtain rfl : u = u' := by simpa using hu'
    obtain rfl : v = w := Running.first_max_unique (f := fun x : Test K Entry => x.trial.gbps)
      (hs.symm.trans hs') hlt hle hlt' hle'
    rw [← hplan]
    exact congrArg Prod.fst (hrep.symm.trans hrep')
  · intro hsame
    refine ⟨pre, v, post, hs, hlt, hle, ?_⟩
    rw [hrep, hplan, hsame _ rfl u rfl]

end Vars

instance (F : Profiler K Prof Entry) (ts : List (Trial K)) : Decidable (LastAsBest F ts) :=
  inferInstanceAs (Decidable (∀ t ∈ firstBest ts, ∀ u ∈ ts.getLast?, F.planned u = F.planned t))

variable [IsStrictOrderedRing K] [FloorRing K]

/-- What the two clients report after their loops is the best test exactly if
the last test of the search was planned with the best one's parameters. -/
theorem clientRun_reportsBest_iff (P : Setup K) (n : ℕ) :
    (∀ lib args, (fTcpClientRun lib P args n).pc = .done →
      (∃ t ∈ (fTcpClientRun lib P args n).tests, 0 < t.trial.perfMbps) →
      (ReportsBest (tcpProfiler lib P) (fTcpClientRun lib P args n).vars ↔
        LastAsBest (tcpProfiler lib P) (Search.run P n).trials)) ∧
    ∀ args, (fUdtClientRun P args n).pc = .done →
      (∃ t ∈ (fUdtClientRun P args n).tests, 0 < t.trial.perfMbps) →
      (ReportsBest (udtProfiler P) (fUdtClientRun P args n).vars ↔
        LastAsBest (udtProfiler P) (Search.run P n).trials) := by
  have hgbps : ∀ {t : Trial K}, 0 < t.perfMbps → 0 < t.gbps := fun h => div_pos h (by norm_num)
  constructor
  · rintro lib args hpc ⟨t, ht, hy⟩
    have hrun := fTcpClientRun_vars lib P args n
    have hpc' : (Vars.run (tcpProfiler lib P) P args n).pc = .done := hrun ▸ hpc
    have ht' : t ∈ (Vars.run (tcpProfiler lib P) P args n).tests := hrun ▸ ht
    rw [hrun]
    exact Vars.reportsBest_iff (tcpProfiler lib P) P args hpc' ⟨t, ht', hgbps hy⟩
  · rintro args hpc ⟨t, ht, hy⟩
    have hrun := fUdtClientRun_vars P args n
    have hpc' : (Vars.run (udtProfiler P) P args n).pc = .done := hrun ▸ hpc
    have ht' : t ∈ (Vars.run (udtProfiler P) P args n).tests := hrun ▸ ht
    rw [hrun]
    exact Vars.reportsBest_iff (udtProfiler P) P args hpc' ⟨t, ht', hgbps hy⟩

/-- Three tests whose throughputs rise. -/
theorem clientRun_reportsBest_iff_rising :
    ReportsBest (tcpProfiler plainIperf (plainSetup (10 ^ 10) 3 fun n => 100 * (n + 1)))
        (fTcpClientRun plainIperf (plainSetup (10 ^ 10) 3 fun n => 100 * (n + 1))
          plainTcpArgs 4).vars ∧
      ReportsBest (udtProfiler (plainSetup (10 ^ 10) 3 fun n => 100 * (n + 1)))
        (fUdtClientRun (plainSetup (10 ^ 10) 3 fun n => 100 * (n + 1)) plainUdtArgs 4).vars :=
  have h := clientRun_reportsBest_iff (plainSetup (10 ^ 10) 3 fun n => 100 * (n + 1)) 4
  ⟨(h.1 plainIperf plainTcpArgs (by decide +kernel) (by decide +kernel)).mpr (by decide +kernel),
    (h.2 plainUdtArgs (by decide +kernel) (by decide +kernel)).mpr (by decide +kernel)⟩

/-- The first of three tests is the best; the third one's number of streams and
buffer size are read as the best parameters. -/
theorem not_reportsBest_falling :
    (fTcpClientRun plainIperf (plainSetup (10 ^ 10) 3 fun n => 900 - 100 * n)
        plainTcpArgs 4).flag = 1 ∧
      ¬ ReportsBest (tcpProfiler plainIperf (plainSetup (10 ^ 10) 3 fun n => 900 - 100 * n))
        (fTcpClientRun plainIperf (plainSetup (10 ^ 10) 3 fun n => 900 - 100 * n)
          plainTcpArgs 4).vars := by
  refine ⟨by decide +kernel, ?_⟩
  rw [fTcpClientRun_vars, Vars.reportsBest_iff _ _ _ (by decide +kernel) (by decide +kernel)]
  decide +kernel

end Fastprof
end Probdata
