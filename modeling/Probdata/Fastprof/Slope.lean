/-
# The gradient is the slope between the tested points

In exact arithmetic a clipped perturbation leaves each coordinate with the gain
that it really moved (`ckAdjust_mul`, `ckAdjust_sub_mul`), and the two points of
an iteration differ in both coordinates (`Interval.clip_sub_ne_clip_add`). So
nothing is divided by zero, and a coordinate of `ghat` is the slope between the
two points that were tested, for every gain, negative ones included.
-/
import Probdata.Lib.Interval
import Probdata.Fastprof.Bookkeeping
import Probdata.Fastprof.Length
import Probdata.Fastprof.Tcp
import Probdata.Fastprof.Udt

namespace Probdata
namespace Fastprof

variable {K : Type*} [Field K] [LinearOrder K]

section Coordinate

variable [IsStrictOrderedRing K]

theorem iterativeMin_lt_max : (fIterativeMin : K) < fIterativeMax := by
  unfold fIterativeMin fIterativeMax; norm_num

/-! ### A coordinate -/

theorem clampTheta_eq (x : K) :
    clampTheta x = Interval.clip fIterativeMin fIterativeMax x := by
  have hlt : (fIterativeMin : K) < fIterativeMax := iterativeMin_lt_max
  rw [Interval.clip_eq_ite hlt.le]
  unfold clampTheta
  dsimp only
  by_cases hx : x > fIterativeMax
  · rw [if_pos hx, if_pos hx, if_neg (not_lt.mpr hlt.le)]
  · rw [if_neg hx, if_neg hx]

theorem clipTheta_eq (t : K) : clipTheta t = Interval.clip fIterativeMin fIterativeMax t :=
  (Interval.clip_eq_ite iterativeMin_lt_max.le t).symm

theorem projTheta_eq (x : K) : projTheta x = Interval.clip fIterativeMin fIterativeMax x := by
  have hlt : (fIterativeMin : K) < fIterativeMax := iterativeMin_lt_max
  unfold projTheta
  dsimp only
  split
  · rename_i hx
    have hx' : (fIterativeMax : K) ≤ x := hx
    rw [if_neg (not_le.mpr hlt), Interval.clip, min_eq_left hx', max_eq_right hlt.le]
  · rename_i hx
    have hx' : x < fIterativeMax := not_le.mp hx
    rw [Interval.clip, min_eq_right hx'.le]
    split
    · rename_i hlo; exact (max_eq_left hlo).symm
    · rename_i hlo; exact (max_eq_right (not_le.mp hlo).le).symm

theorem clampTheta_mem (x : K) : fIterativeMin ≤ clampTheta x ∧ clampTheta x ≤ fIterativeMax := by
  rw [clampTheta_eq]
  exact ⟨Interval.le_clip _ _ _, Interval.clip_le iterativeMin_lt_max.le _⟩

theorem clipTheta_mem (x : K) : fIterativeMin ≤ clipTheta x ∧ clipTheta x ≤ fIterativeMax := by
  rw [clipTheta_eq]
  exact ⟨Interval.le_clip _ _ _, Interval.clip_le iterativeMin_lt_max.le _⟩

theorem projTheta_mem (x : K) : fIterativeMin ≤ projTheta x ∧ projTheta x ≤ fIterativeMax := by
  rw [projTheta_eq]
  exact ⟨Interval.le_clip _ _ _, Interval.clip_le iterativeMin_lt_max.le _⟩

/-- The adjusted gain is what the clipped coordinate moved. -/
theorem ckAdjust_mul (E : Arith K) {ck delta theta : K} (hck : ck ≠ 0) (hd : delta ≠ 0)
    (hlo : fIterativeMin ≤ theta) (hhi : theta ≤ fIterativeMax) :
    ckAdjust E ck theta (theta + ck * delta) * delta = clipTheta (theta + ck * delta) - theta := by
  have hh : ck * delta ≠ 0 := mul_ne_zero hck hd
  have hstep : theta + ck * delta - theta = ck * delta := by ring
  have hlt : (fIterativeMin : K) < fIterativeMax := iterativeMin_lt_max
  have hmul : ∀ y : K, ck * |y / (ck * delta)| * delta = ck * delta * |y / (ck * delta)| :=
    fun y => by ring
  unfold ckAdjust clipTheta
  rw [hstep, Arith.div_of_ne hh, Arith.div_of_ne hh]
  by_cases h1 : theta + ck * delta > fIterativeMax
  · rw [if_pos h1, if_pos h1, hmul, Interval.step_clip_hi hhi h1]
  rw [if_neg h1, if_neg h1]
  by_cases h2 : theta + ck * delta < fIterativeMin
  · rw [if_pos h2, if_pos h2, hmul, Interval.step_clip_lo hlo h2]
  · rw [if_neg h2, if_neg h2]
    ring

theorem ckAdjust_sub_mul (E : Arith K) {ck delta theta : K} (hck : ck ≠ 0) (hd : delta ≠ 0)
    (hlo : fIterativeMin ≤ theta) (hhi : theta ≤ fIterativeMax) :
    ckAdjust E ck theta (theta - ck * delta) * delta = theta - clipTheta (theta - ck * delta) := by
  have hneg : theta - ck * delta = theta + ck * -delta := by ring
  have h := ckAdjust_mul E hck (neg_ne_zero.mpr hd) hlo hhi
  rw [hneg]
  linear_combination -h

/-- A coordinate of a perturbation with the gain `ck`: the point it starts from
is in the box, the perturbed points are clipped to it, the divisors of the
clipping and of the gradient are not zero, and the adjusted gains are the
distances to the clipped points. -/
structure ExactPerturb (ck delta theta plus minus adjPlus adjMinus : K) : Prop where
  mem : 1 ≤ theta ∧ theta ≤ 25
  plus_eq : plus = max 1 (min 25 (theta + ck * delta))
  minus_eq : minus = max 1 (min 25 (theta - ck * delta))
  stepPlus : theta + ck * delta - theta ≠ 0
  stepMinus : theta - ck * delta - theta ≠ 0
  movedPlus : adjPlus * delta = plus - theta
  movedMinus : adjMinus * delta = theta - minus
  width : (adjPlus + adjMinus) * delta ≠ 0

theorem exactPerturb (E : Arith K) {ck delta : K} (hck : ck ≠ 0) (hd : delta ≠ 0) (x : K) :
    ExactPerturb ck delta (clampTheta x) (clipTheta (clampTheta x + ck * delta))
      (clipTheta (clampTheta x - ck * delta))
      (ckAdjust E ck (clampTheta x) (clampTheta x + ck * delta))
      (ckAdjust E ck (clampTheta x) (clampTheta x - ck * delta)) := by
  obtain ⟨hlo, hhi⟩ := clampTheta_mem x
  have hh : ck * delta ≠ 0 := mul_ne_zero hck hd
  have hplus := ckAdjust_mul E hck hd hlo hhi
  have hminus := ckAdjust_sub_mul E hck hd hlo hhi
  refine ⟨⟨hlo, hhi⟩, clipTheta_eq _, clipTheta_eq _, ?_, ?_, hplus, hminus, ?_⟩
  · rwa [add_sub_cancel_left]
  · rw [sub_sub_cancel_left]
    exact neg_ne_zero.mpr hh
  · have hne := Interval.clip_sub_ne_clip_add iterativeMin_lt_max hlo hhi hh
    rw [← clipTheta_eq, ← clipTheta_eq] at hne
    rw [add_mul, hplus, hminus]
    intro h
    exact hne (by linear_combination -h)

end Coordinate

/-- The gradient is the slope between the two points. -/
theorem ExactPerturb.gradient {ck delta theta plus minus adjPlus adjMinus : K}
    (h : ExactPerturb ck delta theta plus minus adjPlus adjMinus) (E : Arith K) (yPlus yMinus : K) :
    plus - minus ≠ 0 ∧
      gradient E yPlus yMinus adjPlus adjMinus delta = (yPlus - yMinus) / (plus - minus) := by
  have hw : (adjPlus + adjMinus) * delta = plus - minus := by
    rw [add_mul, h.movedPlus, h.movedMinus]; ring
  refine ⟨hw ▸ h.width, ?_⟩
  unfold Fastprof.gradient
  rw [Arith.div_of_ne h.width, hw]

omit [LinearOrder K] in
theorem fPerturb_ne_zero (above : Bool) : (fPerturb above : K) ≠ 0 := by
  cases above <;> simp [fPerturb]

/-! ### The search -/

/-- What lets the gains be divided, and not vanish. -/
structure Setup.Gains (P : Setup K) : Prop where
  cVal : P.ctrl.cVal ≠ 0
  cScale : P.ctrl.cScale ≠ 0
  powGamma : ∀ k : ℕ, 0 < P.arith.pow (k + 1) P.ctrl.gamma
  powAlpha : ∀ k : ℕ, 0 < P.arith.pow (P.ctrl.AVal + k + 1) P.ctrl.alpha

namespace Search

variable {P : Setup K} {s : Search K}

/-- The gain `ck` of an iteration. -/
def ck (P : Setup K) (s : Search K) : K := s.c / P.arith.pow (s.k + 1) P.ctrl.gamma

/-- Both coordinates of the perturbation of an iteration. -/
def PerturbedExactly (P : Setup K) (s : Search K) : Prop :=
  ExactPerturb (ck P s) s.delta.1 s.theta.1 s.thetaPlus.1 s.thetaMinus.1 s.adjPlus.1 s.adjMinus.1 ∧
    ExactPerturb (ck P s) s.delta.2 s.theta.2 s.thetaPlus.2 s.thetaMinus.2 s.adjPlus.2 s.adjMinus.2

theorem perturbedExactly_perturb [IsStrictOrderedRing K] (hP : P.Gains) (hc : s.c ≠ 0) :
    PerturbedExactly P (perturb P s) := by
  have hpow := (hP.powGamma (s.k + 1)).ne'
  have hck : P.arith.div s.c (P.arith.pow ((s.k + 1 : ℕ) + 1) P.ctrl.gamma) ≠ 0 := by
    rw [Arith.div_of_ne hpow]
    exact div_ne_zero hc hpow
  have heq : ck P (perturb P s) =
      P.arith.div s.c (P.arith.pow ((s.k + 1 : ℕ) + 1) P.ctrl.gamma) :=
    (Arith.div_of_ne hpow s.c).symm
  unfold PerturbedExactly
  rw [heq]
  exact ⟨exactPerturb P.arith hck (fPerturb_ne_zero _) s.theta.1,
    exactPerturb P.arith hck (fPerturb_ne_zero _) s.theta.2⟩

theorem c_scale_ne_zero (hP : P.Gains) (hc : s.c ≠ 0) : (scale P s).c ≠ 0 := by
  unfold scale
  split
  · exact mul_ne_zero hc hP.cScale
  · exact hc

/-- What holds of the gains and of the two perturbed points along a run. -/
structure Perturbed (P : Setup K) (s : Search K) : Prop where
  c : s.c ≠ 0
  exact : s.pc = .minus ∨ s.pc = .star → PerturbedExactly P s
  minus : s.pc = .minus →
    (s.trials[s.trials.length - 1]?).map Trial.theta = some s.thetaPlus
  star : s.pc = .star →
    (s.trials[s.trials.length - 2]?).map Trial.theta = some s.thetaPlus ∧
      (s.trials[s.trials.length - 1]?).map Trial.theta = some s.thetaMinus

theorem Perturbed.ofPc {s' : Search K} (hc : s'.c ≠ 0) (h1 : s'.pc ≠ .minus)
    (h2 : s'.pc ≠ .star) : Perturbed P s' :=
  ⟨hc, fun h => (h.elim h1 h2).elim, fun h => absurd h h1, fun h => absurd h h2⟩

/-- A test leaves the perturbation of the iteration as it was. -/
theorem perturbedExactly_trial {m : Marker} {pt : K × K} (h : PerturbedExactly P s) :
    PerturbedExactly P (trial P m pt s) := by
  rw [trial_frame]
  exact h

theorem c_trial (m : Marker) (pt : K × K) : (trial P m pt s).c = s.c := by rw [trial_frame]

theorem perturbed_plus {s : Search K} (h : PerturbedExactly P s) (hc : s.c ≠ 0) :
    Perturbed P (trial P .plus s.thetaPlus s) := by
  have hth : (trial P .plus s.thetaPlus s).thetaPlus = s.thetaPlus := by rw [trial_frame]
  refine ⟨by rw [c_trial]; exact hc, fun _ => perturbedExactly_trial h, fun hpc => ?_, fun hpc => ?_⟩
  · obtain ⟨t, ht, htr⟩ := trial_next P .plus s.thetaPlus s (by rw [hpc]; rfl)
    rw [htr, hth]
    simp [ht]
  · have := trial_pc P .plus s.thetaPlus s (by rw [hpc]; rfl)
    rw [this] at hpc
    cases hpc

theorem perturbed_minus {s : Search K} (h : Perturbed P s) (hpc : s.pc = .minus) :
    Perturbed P (trial P .minus s.thetaMinus s) := by
  have hth : (trial P .minus s.thetaMinus s).thetaPlus = s.thetaPlus := by rw [trial_frame]
  have hth' : (trial P .minus s.thetaMinus s).thetaMinus = s.thetaMinus := by rw [trial_frame]
  refine ⟨by rw [c_trial]; exact h.c, fun _ => perturbedExactly_trial (h.exact (Or.inl hpc)),
    fun hpc' => ?_, fun hpc' => ?_⟩
  · have := trial_pc P .minus s.thetaMinus s (by rw [hpc']; rfl)
    rw [this] at hpc'
    cases hpc'
  · obtain ⟨t, ht, htr⟩ := trial_next P .minus s.thetaMinus s (by rw [hpc']; rfl)
    have hlast := h.minus hpc
    have hpos : 0 < s.trials.length := by
      rcases hl : s.trials with _ | ⟨_, _⟩
      · rw [hl] at hlast; simp at hlast
      · simp
    have hprev : (s.trials ++ [t]).length - 2 = s.trials.length - 1 := by simp
    rw [htr, hth, hth', hprev, List.getElem?_append_left (by omega)]
    exact ⟨hlast, by simp [ht]⟩

variable [IsStrictOrderedRing K] [FloorRing K]

theorem perturbed_step (hP : P.Gains) (h : Perturbed P s) : Perturbed P (step P s) := by
  rcases hpc : s.pc with _ | _ | _ | _ | r
  · have hstep := step_of_head P hpc
    have hc : (scale P { s with flag := -1 }).c ≠ 0 := c_scale_ne_zero hP h.c
    rw [hstep]
    rcases head_eq P hpc with ⟨-, he⟩ | ⟨-, s0, f, hs0, he⟩
    · rw [he]
      exact perturbed_plus (perturbedExactly_perturb hP hc) hc
    · have hc0 : s0.c ≠ 0 := by
        rcases hs0 with rfl | rfl
        · exact h.c
        · exact hc
      rw [he]
      exact .ofPc hc0 (by simp) (by simp)
  · have hstep := step_of_minus P hpc
    rw [hstep]
    exact perturbed_minus h hpc
  · have hstep := step_of_star P hpc
    have hstar : (star P s).c = s.c := by
      unfold star
      dsimp only
      split <;> rw [trial_frame] <;> rfl
    have hne : ∀ m : Marker, m ≠ .star → (star P s).pc ≠ m.next := by
      intro m hm hpc'
      rw [star_pc] at hpc'
      have hnext := trial_pc P .star (climb P s).theta (climb P s) (by
        rw [hpc']; exact m.running_next)
      rw [hnext] at hpc'
      cases m <;> simp [Marker.next] at hpc' hm
    rw [hstep]
    exact .ofPc (by rw [hstar]; exact h.c) (hne .plus (by simp)) (hne .minus (by simp))
  · have hstep := step_of_ended P (s := s) (by rw [hpc]; rfl)
    rw [hstep]; exact h
  · have hstep := step_of_ended P (s := s) (by rw [hpc]; rfl)
    rw [hstep]; exact h

theorem perturbed_run (hP : P.Gains) (n : ℕ) : Perturbed P (run P n) := by
  induction n with
  | zero =>
    have hne : (start P).pc ≠ .minus ∧ (start P).pc ≠ .star := by
      unfold start
      dsimp only
      constructor <;> split <;> simp
    exact .ofPc hP.cVal hne.1 hne.2
  | succ n ih => rw [run_succ]; exact perturbed_step hP ih

end Search

/-! ### The two clients -/

variable {Prof Entry : Type*}

/-- The perturbation of an iteration, after its first test was started: `pow`
returned no divisor 0, and both coordinates are exact. -/
structure Vars.PerturbsExactly (P : Setup K) (s : Vars K Prof Entry) : Prop where
  powAlpha : P.arith.pow (P.ctrl.AVal + s.k + 1) P.ctrl.alpha ≠ 0
  powGamma : P.arith.pow (s.k + 1) P.ctrl.gamma ≠ 0
  ak : s.ak = s.a / P.arith.pow (P.ctrl.AVal + s.k + 1) P.ctrl.alpha
  fst : ExactPerturb (s.c / P.arith.pow (s.k + 1) P.ctrl.gamma) s.delta.1 s.theta.1
    s.thetaPlus.1 s.thetaMinus.1 s.ckAdjustPlus.1 s.ckAdjustMinus.1
  snd : ExactPerturb (s.c / P.arith.pow (s.k + 1) P.ctrl.gamma) s.delta.2 s.theta.2
    s.thetaPlus.2 s.thetaMinus.2 s.ckAdjustPlus.2 s.ckAdjustMinus.2

/-- The projection onto the box, `[1, 25]²`, of a step from `theta` along `ghat`. -/
def Vars.ascended (s : Vars K Prof Entry) (ghat : K × K) : K × K :=
  (max fIterativeMin (min fIterativeMax (s.theta.1 + s.ak * ghat.1)),
    max fIterativeMin (min fIterativeMax (s.theta.2 + s.ak * ghat.2)))

/-- The gradient step of an iteration, from `s`, before its third test, to `s'`
behind it: the last two tests were made at the perturbed points, the gradient is
the slope between them, and the third test is started, and made if it returns, at
the projection onto the box. An iteration that is not left there restarts from
the best point. -/
structure Vars.ClimbsExactly (s s' : Vars K Prof Entry) : Prop where
  plus : (s.tests[s.tests.length - 2]?).map (fun t => (t.trial.theta, t.trial.perfMbps / 1000)) =
    some (s.thetaPlus, s.yPlusGbps)
  minus : (s.tests[s.tests.length - 1]?).map (fun t => (t.trial.theta, t.trial.perfMbps / 1000)) =
    some (s.thetaMinus, s.yMinusGbps)
  width : s.thetaPlus.1 - s.thetaMinus.1 ≠ 0 ∧ s.thetaPlus.2 - s.thetaMinus.2 ≠ 0
  ghat : s'.ghat =
    ((s.yPlusGbps - s.yMinusGbps) / (s.thetaPlus.1 - s.thetaMinus.1),
      (s.yPlusGbps - s.yMinusGbps) / (s.thetaPlus.2 - s.thetaMinus.2))
  started : s'.started = s.started + 1
  tested : (∃ t, s'.tests = s.tests ++ [t] ∧ t.trial.theta = s.ascended s'.ghat) ∨
    s'.tests = s.tests ∧ s'.pc = .ret (-1)
  theta : s'.pc ≠ .head → s'.theta = s.ascended s'.ghat
  restarts : s'.pc = .head → s'.theta = s'.maxTheta

/-- Every iteration of a run perturbs and climbs exactly. -/
structure SearchesExactly (P : Setup K) (run : ℕ → Vars K Prof Entry) : Prop where
  perturbs : ∀ n, (run n).pc = .head → (run (n + 1)).started ≠ (run n).started →
    (run (n + 1)).PerturbsExactly P
  climbs : ∀ n, (run n).pc = .star → (run n).ClimbsExactly (run (n + 1))

variable [IsStrictOrderedRing K] [FloorRing K]

namespace Vars

variable {P : Setup K}

omit [IsStrictOrderedRing K] in
/-- An iteration that is begun tests at the first of its two points. -/
theorem search_run_succ_of_head (F : Profiler K Prof Entry) (args : Args Prof Entry) {n : ℕ}
    (hpc : (run F P args n).pc = .head) (hst : Search.starts P (Search.run P n) = true) :
    (run F P args (n + 1)).search = Search.trial P .plus
      (Search.entered P (Search.run P n)).thetaPlus (Search.entered P (Search.run P n)) := by
  have hpc' : (Search.run P n).pc = .head := by rw [← run_pc F P args]; exact hpc
  rw [(run_search F P args (n + 1)).1, Search.run_succ]
  rcases Search.head_eq P hpc' with ⟨-, he⟩ | ⟨hno, -⟩
  · rw [← he]
    unfold Search.step
    rw [hpc']
  · rw [hst] at hno
    cases hno

theorem run_perturbsExactly (hP : P.Gains) (F : Profiler K Prof Entry) (args : Args Prof Entry)
    {n : ℕ} (hpc : (run F P args n).pc = .head)
    (hne : (run F P args (n + 1)).started ≠ (run F P args n).started) :
    (run F P args (n + 1)).PerturbsExactly P := by
  have hs := search_run_succ_of_head F args hpc ((started_ne_iff F P args n).mp hne)
  have hc : (Search.scale P { Search.run P n with flag := -1 }).c ≠ 0 :=
    Search.c_scale_ne_zero hP (Search.perturbed_run hP n).c
  have hx : Search.PerturbedExactly P (run F P args (n + 1)).search := by
    rw [hs]
    exact Search.perturbedExactly_trial (Search.perturbedExactly_perturb hP hc)
  refine ⟨(hP.powAlpha _).ne', (hP.powGamma _).ne', ?_, hx.1, hx.2⟩
  have hak : ∀ σ : Search K, (Search.perturb P σ).ak = (Search.perturb P σ).a /
      P.arith.pow (P.ctrl.AVal + (Search.perturb P σ).k + 1) P.ctrl.alpha := fun σ =>
    Arith.div_of_ne (hP.powAlpha (σ.k + 1)).ne' σ.a
  show (run F P args (n + 1)).search.ak = (run F P args (n + 1)).search.a /
    P.arith.pow (P.ctrl.AVal + (run F P args (n + 1)).search.k + 1) P.ctrl.alpha
  rw [hs, Search.trial_frame]
  exact hak _

omit [LinearOrder K] [IsStrictOrderedRing K] [FloorRing K] in
/-- A test, by its point and its throughput. -/
theorem getElem?_tests {s : Vars K Prof Entry} {i : ℕ} {pt : K × K} {y : K}
    (hpt : (s.trials[i]?).map Trial.theta = some pt)
    (hy : (s.trials[i]?).map Trial.gbps = some y) :
    (s.tests[i]?).map (fun t => (t.trial.theta, t.trial.perfMbps / 1000)) = some (pt, y) := by
  rw [trials, List.getElem?_map] at hpt hy
  rcases hi : s.tests[i]? with _ | v
  · rw [hi] at hpt
    cases hpt
  · rw [hi] at hpt hy
    simp only [Option.map_some, Option.some.injEq] at hpt hy ⊢
    exact Prod.ext hpt hy

omit [IsStrictOrderedRing K] [FloorRing K] in
/-- A test keeps the gradient and the point, and is made at the point it is given,
unless it fails. -/
theorem test_made (F : Profiler K Prof Entry) (m : Marker) (pt : K × K) (s : Vars K Prof Entry) :
    (s.test F P m pt).ghat = s.ghat ∧ (s.test F P m pt).theta = s.theta ∧
      ((∃ t, (s.test F P m pt).tests = s.tests ++ [t] ∧ t.trial.theta = pt) ∨
        (s.test F P m pt).tests = s.tests ∧ (s.test F P m pt).pc = .ret (-1)) := by
  rcases hy : P.out.test s.trials.length with _ | y
  · rw [test_of_none hy]
    cases m <;> exact ⟨rfl, rfl, .inr ⟨rfl, rfl⟩⟩
  · have hcompare : ∀ u : Vars K Prof Entry, (u.compare P m pt).ghat = u.ghat ∧
        (u.compare P m pt).theta = u.theta ∧ (u.compare P m pt).tests = u.tests := by
      intro u
      unfold compare
      split
      · dsimp only
        split <;> exact ⟨rfl, rfl, rfl⟩
      · exact ⟨rfl, rfl, rfl⟩
    rw [test_of_some hy]
    dsimp only
    split
    · cases m <;> exact ⟨rfl, rfl, .inl ⟨_, rfl, rfl⟩⟩
    · obtain ⟨hg, hth, hts⟩ := hcompare ((((s.program F m pt).ran F m pt y
        (P.out.sent s.trials.length)).record F).visit m)
      rw [hg, hth, hts]
      cases m <;> exact ⟨rfl, rfl, .inl ⟨_, rfl, rfl⟩⟩

omit [FloorRing K] in
/-- The gradient step leads to the projection onto the box, and to a test there. -/
theorem star_climbs (F : Profiler K Prof Entry) (s : Vars K Prof Entry) :
    (s.star F P).ghat = (s.climb P).ghat ∧ (s.star F P).started = s.started + 1 ∧
      ((∃ t, (s.star F P).tests = s.tests ++ [t] ∧ t.trial.theta = s.ascended (s.climb P).ghat) ∨
        (s.star F P).tests = s.tests ∧ (s.star F P).pc = .ret (-1)) ∧
      ((s.star F P).pc ≠ .head → (s.star F P).theta = s.ascended (s.climb P).ghat) ∧
      ((s.star F P).pc = .head → (s.star F P).theta = (s.star F P).maxTheta) := by
  have hasc : (s.climb P).theta = s.ascended (s.climb P).ghat :=
    Prod.ext (projTheta_eq _) (projTheta_eq _)
  obtain ⟨hg, hth, htests⟩ := test_made (P := P) F .star (s.climb P).theta (s.climb P)
  have hstarted : ((s.climb P).test F P .star (s.climb P).theta).started = s.started + 1 :=
    started_test .star (s.climb P).theta (s.climb P)
  rw [hasc] at hth htests
  unfold star
  dsimp only
  rw [hasc] at hg hstarted ⊢
  split
  · rename_i hpc
    refine ⟨hg, hstarted, ?_, fun h => absurd hpc h, fun _ => rfl⟩
    exact htests.imp_right fun h => by rw [hpc] at h; cases h.2
  · rename_i hpc
    exact ⟨hg, hstarted, htests, fun _ => hth, fun h => absurd h hpc⟩

theorem run_climbsExactly (hP : P.Gains) (F : Profiler K Prof Entry) (args : Args Prof Entry)
    {n : ℕ} (hpc : (run F P args n).pc = .star) :
    (run F P args n).ClimbsExactly (run F P args (n + 1)) := by
  obtain ⟨hs, ht⟩ := run_search F P args n
  have hE := ht fun r => by rw [hpc]; simp
  have hx : Search.Perturbed P (run F P args n).search := by
    rw [hs]
    exact Search.perturbed_run hP n
  obtain ⟨hplus, hminus⟩ := hx.star hpc
  obtain ⟨hyPlus, hyMinus⟩ := hE.yStar hpc
  obtain ⟨hx1, hx2⟩ := hx.exact (Or.inr hpc)
  have hlen : (run F P args n).search.trials.length = (run F P args n).tests.length :=
    (tests_length _).symm
  have hlen' : (run F P args n).trials.length = (run F P args n).tests.length :=
    (tests_length _).symm
  rw [hlen] at hplus hminus
  rw [hlen'] at hyPlus hyMinus
  obtain ⟨hw1, hg1⟩ := hx1.gradient P.arith (run F P args n).yPlusGbps (run F P args n).yMinusGbps
  obtain ⟨hw2, hg2⟩ := hx2.gradient P.arith (run F P args n).yPlusGbps (run F P args n).yMinusGbps
  have hsucc : run F P args (n + 1) = (run F P args n).star F P := by
    rw [run_succ, step_of_star F P hpc]
  obtain ⟨hg, hstarted, htests, htheta, hrestart⟩ := star_climbs (P := P) F (run F P args n)
  rw [← hg, ← hsucc] at htests htheta
  rw [← hsucc] at hg hstarted hrestart
  exact ⟨getElem?_tests hplus hyPlus, getElem?_tests hminus hyMinus, ⟨hw1, hw2⟩,
    hg.trans (Prod.ext hg1 hg2), hstarted, htests, htheta, hrestart⟩

theorem run_searchesExactly (hP : P.Gains) (F : Profiler K Prof Entry) (args : Args Prof Entry) :
    SearchesExactly P (run F P args) where
  perturbs _ hpc hne := run_perturbsExactly hP F args hpc hne
  climbs _ hpc := run_climbsExactly hP F args hpc

end Vars

/-- Every iteration of both searches is exact, whatever the gains are that do
not vanish. -/
theorem clientRun_searchesExactly (P : Setup K) (hc : P.ctrl.cVal ≠ 0) (hs : P.ctrl.cScale ≠ 0)
    (hgamma : ∀ k : ℕ, 0 < P.arith.pow (k + 1) P.ctrl.gamma)
    (halpha : ∀ k : ℕ, 0 < P.arith.pow (P.ctrl.AVal + k + 1) P.ctrl.alpha) :
    (∀ lib args, SearchesExactly P fun n => (fTcpClientRun lib P args n).vars) ∧
      ∀ args, SearchesExactly P fun n => (fUdtClientRun P args n).vars := by
  have hP : P.Gains := ⟨hc, hs, hgamma, halpha⟩
  constructor
  · intro lib args
    simp only [fTcpClientRun_vars]
    exact Vars.run_searchesExactly hP (tcpProfiler lib P) args
  · intro args
    simp only [fUdtClientRun_vars]
    exact Vars.run_searchesExactly hP (udtProfiler P) args

theorem clientRun_searchesExactly_plain :
    (∀ lib args, SearchesExactly (plainSetup (10 ^ 10) 60 fun _ => 900)
        fun n => (fTcpClientRun lib (plainSetup (10 ^ 10) 60 fun _ => 900) args n).vars) ∧
      ∀ args, SearchesExactly (plainSetup (10 ^ 10) 60 fun _ => 900)
        fun n => (fUdtClientRun (plainSetup (10 ^ 10) 60 fun _ => 900) args n).vars :=
  clientRun_searchesExactly (plainSetup (10 ^ 10) 60 fun _ => 900)
    (by decide +kernel) (by decide +kernel) (fun _ => one_pos) fun _ => one_pos

end Fastprof
end Probdata
