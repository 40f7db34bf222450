/-
# The search both loops carry out

`f_tcp_client_run` and `f_udt_client_run` are the same stochastic search over
`[1, 25]²`: from a base point test a perturbed point, its mirror image, and the
point the two suggest, then restart from the best point so far. This module
states that search over its own data: the state keeps the list of the tests
made and nothing that can be computed from it, so the counters and the maxima
of the code are functions of the tests (`best`, `restart`, `Running.sinceImp`).

`Setup` is what a run is given: the control block and what it draws from
outside. `Search.step` makes at most one test; a run iterates it.
-/
import Probdata.Lib.Running
import Probdata.Fastprof.Step

namespace Probdata
namespace Fastprof

/-- What a run of a search is given. -/
structure Setup (K : Type*) where
  arith : Arith K
  ctrl : FastprofCtrl K
  out : Outcomes K

/-- A test of a search: its point, the window it was mapped through, and the
throughput it measured. -/
structure Trial (K : Type*) where
  theta : K × K
  window : ℤ × ℤ
  perfMbps : K

/-- The state of a search. -/
structure Search (K : Type*) where
  pc : Pc
  flag : ℤ
  trials : List (Trial K)
  theta : K × K
  thetaPlus : K × K
  thetaMinus : K × K
  delta : K × K
  adjPlus : K × K
  adjMinus : K × K
  ak : K
  a : K
  c : K
  k : ℕ
  rtt : K
  window : ℤ × ℤ

/-- The limits of a run. -/
def Setup.lim {K : Type*} [Field K] [LinearOrder K] (P : Setup K) : Limits K := P.ctrl.limits

variable {K : Type*} [Field K]

def Trial.gbps (t : Trial K) : K := t.perfMbps / 1000

/-- The throughputs of the tests, in Gb/s. -/
def gbps (ts : List (Trial K)) : List K := ts.map Trial.gbps

@[simp] theorem gbps_snoc (ts : List (Trial K)) (t : Trial K) :
    gbps (ts ++ [t]) = gbps ts ++ [t.gbps] := by simp [gbps]

@[simp] theorem gbps_length (ts : List (Trial K)) : (gbps ts).length = ts.length := by simp [gbps]

variable [LinearOrder K]

/-- The best throughput of the tests, 0 before any is positive. -/
def bestGbps (ts : List (Trial K)) : K := Running.best 0 (gbps ts)

/-- The number of tests since the last one that improved on all before it. -/
def stale (ts : List (Trial K)) : ℕ := Running.sinceImp 0 (gbps ts)

/-- The first test that reached the best throughput. -/
def firstBest (ts : List (Trial K)) : Option (Trial K) := ts[Running.firstBest 0 (gbps ts)]?

/-- The point the next iteration starts from. -/
def restart (ts : List (Trial K)) : K × K :=
  if 0 < bestGbps ts then ((firstBest ts).map Trial.theta).getD (0, 0) else (0, 0)

namespace Search

/-- The quotient of the best throughput and the bandwidth has reached the ratio. -/
def reached (P : Setup K) (ts : List (Trial K)) : Bool :=
  pgrReached (bestGbps ts) P.ctrl.bwGbps P.lim.perfGainRatio

/-- A test at the point `pt`: the search ends with flag 3 if it improves on all
before it and reaches the ratio, and is left if it fails or is not recorded. -/
def trial (P : Setup K) (m : Marker) (pt : K × K) (s : Search K) : Search K :=
  match P.out.test s.trials.length with
  | none => { s with pc := .ret (-1) }
  | some y =>
    let ts := s.trials ++ [⟨pt, s.window, y⟩]
    if !P.out.composed s.trials.length || !P.out.added s.trials.length then
      { s with trials := ts, pc := .ret 0 }
    else if bestGbps s.trials < y / 1000 ∧ reached P ts then
      { s with trials := ts, flag := 3, pc := .done }
    else { s with trials := ts, pc := m.next }

/-- The gains are scaled once half of the impeded limit is spent. -/
def scale (P : Setup K) (s : Search K) : Search K :=
  if (stale s.trials : ℤ) ≥ P.lim.noImp.tdiv 2 then
    { s with a := s.a * P.ctrl.aScale, c := s.c * P.ctrl.cScale }
  else s

/-- The perturbed points of an iteration, and the gains they are left with. -/
def perturb (P : Setup K) (s : Search K) : Search K :=
  let theta := (clampTheta s.theta.1, clampTheta s.theta.2)
  let k := s.k + 1
  let ck := P.arith.div s.c (P.arith.pow (k + 1) P.ctrl.gamma)
  let delta := (fPerturb (P.out.signs s.k).1, fPerturb (P.out.signs s.k).2)
  let plus := (theta.1 + ck * delta.1, theta.2 + ck * delta.2)
  let minus := (theta.1 - ck * delta.1, theta.2 - ck * delta.2)
  { s with
    theta := theta
    k := k
    ak := P.arith.div s.a (P.arith.pow (P.ctrl.AVal + k + 1) P.ctrl.alpha)
    delta := delta
    adjPlus := (ckAdjust P.arith ck theta.1 plus.1, ckAdjust P.arith ck theta.2 plus.2)
    adjMinus := (ckAdjust P.arith ck theta.1 minus.1, ckAdjust P.arith ck theta.2 minus.2)
    thetaPlus := (clipTheta plus.1, clipTheta plus.2)
    thetaMinus := (clipTheta minus.1, clipTheta minus.2) }

/-- The point that the last two tests suggest. -/
def climb (P : Setup K) (s : Search K) : Search K :=
  let n := s.trials.length
  let yPlus := ((s.trials[n - 2]?).map Trial.gbps).getD 0
  let yMinus := ((s.trials[n - 1]?).map Trial.gbps).getD 0
  let g1 := gradient P.arith yPlus yMinus s.adjPlus.1 s.adjMinus.1 s.delta.1
  let g2 := gradient P.arith yPlus yMinus s.adjPlus.2 s.adjMinus.2 s.delta.2
  { s with theta := (projTheta (s.theta.1 + s.ak * g1), projTheta (s.theta.2 + s.ak * g2)) }

variable [FloorRing K]

/-- The round-trip time and the window of an iteration. -/
def measure (P : Setup K) (s : Search K) : Search K :=
  let rtt := pingRtt P.ctrl.bwBps s.rtt (P.out.ping s.k)
  { s with
    rtt := rtt
    window := bufWindow P.arith fBufMin (bufSafeguardMax P.ctrl.hostMaxBuf)
      (bdpB P.ctrl.bwBps rtt) s.window }

/-- The head of the loop and the test at the perturbed point. -/
def head (P : Setup K) (s : Search K) : Search K :=
  let s := { s with flag := -1 }
  if (s.trials.length : ℤ) ≥ P.lim.maxProf then { s with flag := 1, pc := .done }
  else
    let s := scale P s
    if (stale s.trials : ℤ) ≥ P.lim.noImp then { s with flag := 2, pc := .done }
    else if reached P s.trials then { s with flag := 3, pc := .done }
    else
      let s := perturb P (measure P s)
      trial P .plus s.thetaPlus s

/-- The gradient step, the test at the new point, and the restart. -/
def star (P : Setup K) (s : Search K) : Search K :=
  let s := climb P s
  let s := trial P .star s.theta s
  if s.pc = .head then { s with theta := restart s.trials } else s

def step (P : Setup K) (s : Search K) : Search K :=
  match s.pc with
  | .head => head P s
  | .minus => trial P .minus s.thetaMinus s
  | .star => star P s
  | .done => s
  | .ret _ => s

theorem step_of_head (P : Setup K) {s : Search K} (h : s.pc = .head) : step P s = head P s := by
  unfold step
  rw [h]

theorem step_of_minus (P : Setup K) {s : Search K} (h : s.pc = .minus) :
    step P s = trial P .minus s.thetaMinus s := by
  unfold step
  rw [h]

theorem step_of_star (P : Setup K) {s : Search K} (h : s.pc = .star) : step P s = star P s := by
  unfold step
  rw [h]

/-- The start of a search. -/
def start (P : Setup K) : Search K where
  pc := if P.out.openLog then .head else .ret (-1)
  flag := -1
  trials := []
  theta := (fRand P.out.start.1 (P.arith.toInt (fIterativeMin : K) + 1)
      (P.arith.toInt (fIterativeMax : K) - 1),
    fRand P.out.start.2 (P.arith.toInt (fIterativeMin : K) + 1)
      (P.arith.toInt (fIterativeMax : K) - 1))
  thetaPlus := (0, 0)
  thetaMinus := (0, 0)
  delta := (1, 1)
  adjPlus := (0, 0)
  adjMinus := (0, 0)
  ak := 0
  a := P.ctrl.aVal
  c := P.ctrl.cVal
  k := 0
  rtt := P.ctrl.rttMs
  window := (fBufMin, bufSafeguardMax P.ctrl.hostMaxBuf)

/-- The state after `n` steps of a run. -/
def run (P : Setup K) (n : ℕ) : Search K := (step P)^[n] (start P)

/-- The step from here starts a test. -/
def starts (P : Setup K) (s : Search K) : Bool :=
  match s.pc with
  | .head => (s.trials.length : ℤ) < P.lim.maxProf && (stale s.trials : ℤ) < P.lim.noImp &&
      !reached P s.trials
  | .minus | .star => true
  | .done | .ret _ => false

end Search

/-! ### A plain setup

The defaults of the command line with exponents 0, where every `pow` is 1, over
the rationals. -/

def plainArith : Arith ℚ where
  pow _ _ := 1
  divZero x := x
  conv _ := 0x80000000#32

/-- A bandwidth of `bw` bit/s and a limit of `N` tests. -/
def plainCtrl (bw : ℚ) (N : ℤ) : FastprofCtrl ℚ where
  role := .client
  remoteIp := []
  tcpPort := 5020
  udtPort := 5005
  hostMaxBuf := 212992
  bwBps := bw
  rttMs := 50
  mss := 1500
  AVal := 0
  aVal := 15
  aScale := 5 / 4
  cVal := 11 / 2
  cScale := 23 / 20
  alpha := 0
  gamma := 0
  pgr := 3 / 4
  impededLimit := 30
  maxLimit := N
  duration := 10

/-- Every test succeeds, and the `n`-th measures `y n` Mbps. -/
def plainOutcomes (y : ℕ → ℚ) : Outcomes ℚ where
  openLog := true
  start := (11, 11)
  signs _ := (true, true)
  ping _ := 50
  test n := some (y n)
  sent _ := 0
  composed _ := true
  added _ := true

def plainSetup (bw : ℚ) (N : ℤ) (y : ℕ → ℚ) : Setup ℚ := ⟨plainArith, plainCtrl bw N, plainOutcomes y⟩

end Fastprof
end Probdata
