/-
# The throughput that a search leaves in `prof_max`

`prof_max` is written where a test improves on the best so far, and the best so
far is 0 in the beginning: after a search it holds the best throughput of the
tests that were compared, or what it held before if none of them is positive
(`Vars.keepsBest_run`). A test whose record was not added ends the search before
it is compared.
-/
import Probdata.Fastprof.BestTest

namespace Probdata
namespace Fastprof

variable {K Prof Entry : Type*} [Field K] [LinearOrder K]

/-- The throughputs that a run measured, in Mbps. -/
def Vars.measured (s : Vars K Prof Entry) : List K := s.tests.map fun t => t.trial.perfMbps

/-- Those of them that were compared: a search that returns 0 out of a test does
not come to the last one. -/
def Vars.compared (s : Vars K Prof Entry) : List K :=
  if s.pc = .ret 0 then s.measured.dropLast else s.measured

/-- What a variable that held `b` holds after the throughputs `ys` were compared. -/
def kept (b : K) (ys : List K) : K := if 0 < Running.best 0 ys then Running.best 0 ys else b

theorem kept_snoc (b : K) (ys : List K) (y : K) :
    kept b (ys ++ [y]) = if Running.best 0 ys < y then y else kept b ys := by
  unfold kept
  by_cases h : Running.best 0 ys < y
  · have hpos : 0 < y := lt_of_le_of_lt (Running.le_best 0 ys) h
    rw [Running.best_snoc_of_lt h, if_pos hpos, if_pos h]
  · rw [Running.best_snoc_of_le (not_lt.mp h), if_neg h]

namespace Vars

variable {F : Profiler K Prof Entry} {P : Setup K} {b : K}

omit [Field K] [LinearOrder K] in
theorem compared_of_ne {s : Vars K Prof Entry} (h : s.pc ≠ .ret 0) : s.compared = s.measured :=
  if_neg h

/-- `prof_max` holds the best of what was compared. -/
def KeepsBest (F : Profiler K Prof Entry) (b : K) (s : Vars K Prof Entry) : Prop :=
  F.perfMbps s.profMax = kept b s.compared

theorem KeepsBest.aside {s s' : Vars K Prof Entry} (ha : Aside s s') (hs : s.KeepsBest F b) :
    s'.KeepsBest F b := by
  have hcompared : s'.compared = s.compared := by
    rcases ha.pc with hpc | ⟨hpc, hpc'⟩
    · rw [compared, compared, hpc, measured, measured, ha.tests]
    · rw [compared_of_ne (hpc 0), compared_of_ne (hpc' 0), measured, measured, ha.tests]
  unfold KeepsBest at hs ⊢
  rw [ha.profMax, hs, hcompared]

variable [IsStrictOrderedRing K]

theorem bestGbps_eq (s : Vars K Prof Entry) :
    bestGbps s.trials = Running.best 0 s.measured / 1000 := by
  have hmono : Monotone fun y : K => y / 1000 := fun x y h =>
    div_le_div_of_nonneg_right h (by norm_num)
  have hbest := Running.best_map hmono 0 s.measured
  rw [zero_div] at hbest
  rw [← hbest, bestGbps, gbps, trials, measured, List.map_map, List.map_map]
  rfl

theorem keepsBest_test {m : Marker} (pt : K × K) {s : Vars K Prof Entry} (hs : s.KeepsBest F b)
    (hE : s.ledger.Exact s.pc s.trials) (hpc : ∀ r, s.pc ≠ .ret r) :
    (s.test F P m pt).KeepsBest F b := by
  have hs' : F.perfMbps s.profMax = kept b s.measured := by
    rw [← compared_of_ne (hpc 0)]
    exact hs
  have hmeasured : ∀ {s' : Vars K Prof Entry} {t e}, s'.tests = s.tests ++ [⟨t, e⟩] →
      s'.measured = s.measured ++ [t.perfMbps] := by
    intro s' t e htests
    rw [measured, htests, List.map_append]
    rfl
  unfold KeepsBest
  cases tested_test (P := P) m pt (s := s) rfl with
  | failed hret _ hmax htests =>
    rw [compared_of_ne (by rw [hret]; simp), hmax, measured, htests]
    exact hs'
  | lost y hret hran =>
    -- the record is lost, and the test is not compared
    obtain ⟨e, htests, -⟩ := hran.tests
    rw [compared, if_pos hret, hmeasured htests, List.dropLast_concat, hran.profMax]
    exact hs'
  | compared y s₁ hret hran _ _ htests hmax =>
    obtain ⟨e, htests₁, -⟩ := hran.tests
    have hlt : y / 1000 > s.maxPerfGbps ↔ Running.best 0 s.measured < y := by
      rw [show s.maxPerfGbps = bestGbps s.trials from hE.maxPerf, bestGbps_eq, gt_iff_lt,
        div_lt_div_iff_of_pos_right (by norm_num)]
    rw [compared_of_ne (hret 0), hmeasured (htests.trans htests₁), kept_snoc, hmax]
    simp only [hlt]
    split
    · exact hran.perfMbps
    · exact hs'

variable [FloorRing K]

theorem keepsBest_step {s : Vars K Prof Entry} (hs : s.KeepsBest F b) (ht : s.Tracks) :
    (s.step F P).KeepsBest F b :=
  step_keeps (fun _ _ => KeepsBest.aside) (fun _ pt _ => keepsBest_test pt) hs ht

/-- **What a search leaves in `prof_max`.** -/
theorem keepsBest_run (F : Profiler K Prof Entry) (P : Setup K) (args : Args Prof Entry) (n : ℕ) :
    F.perfMbps (run F P args n).profMax =
      kept (F.perfMbps args.profMax) (run F P args n).compared := by
  induction n with
  | zero =>
    have hnone : (run F P args 0).compared = [] := by
      unfold compared
      split <;> rfl
    rw [hnone]
    exact (if_neg (lt_irrefl (0 : K))).symm
  | succ n ih =>
    rw [run_succ]
    exact keepsBest_step ih (run_search F P args n).2

end Vars

end Fastprof
end Probdata
