/-
# The loop of a FastProf client

`f_tcp_client_run` and `f_udt_client_run` are one loop written out twice, over
two kinds of profile. `Profiler` is what they do differently: the values a
point stands for, how the profile is programmed with them, what a test leaves
in it, and the record composed from it. The loop here has a profiler for a
parameter; `Tcp` and `Udt` give the two.

A library object (`iperf_test`, `tpg_profile`) is an entry of a store, named by
a handle. A profile struct holds the handle, so the `memcpy` of one copies the
handle, and programming a profile writes the entry.

The loop is a step function on its variables: a step runs from one test of an
iteration to the next. Two fields are not variables of the code: `started`
counts the tests started, and `tests` records each test that returned, with its
point and the entry as programmed.
-/
import Probdata.Fastprof.Search

namespace Probdata
namespace Fastprof

/-- The numbers of a line of the history, as a search composes them. -/
structure HistoryLine (K : Type*) where
  protocol : Protocol
  numStreams : ℤ
  mssSize : ℤ
  bufferSize : ℤ
  blockSize : ℤ
  duration : ℤ
  transSize : ℤ
  averagePerf : K

/-- A kind of profile: `Prof` is its struct, `Entry` the library's object.

* `value`: the values of a point, over a window of buffer sizes
* `program`: the entry programmed with two values, before a test
* `ran`: what a test that measured some Mbps and sent some bytes leaves
* `setting`: the two parameters that are recommended in the end, `settings`
  what they are programmed to be for two values -/
structure Profiler (K Prof Entry : Type*) where
  handle : Prof → ℕ
  perfMbps : Prof → K
  setting : Entry → ℤ × ℤ
  settings : K × K → ℤ × ℤ
  value : ℤ × ℤ → K × K → K × K
  program : K × K → Entry → Entry
  ran : K → ℤ → Prof → Entry → Prof × Entry
  compose : Prof → Entry → HistoryLine K
  handle_ran : ∀ y n p e, handle (ran y n p e).1 = handle p
  perfMbps_ran : ∀ y n p e, perfMbps (ran y n p e).1 = y
  setting_ran : ∀ y n p e, setting (ran y n p e).2 = setting e
  setting_program : ∀ v e, setting (program v e) = settings v

/-- `struct fastprof_tcp_trace`, `struct fastprof_udt_trace`: the two values of
a test, its marker and its throughput. -/
structure FastprofTrace (K : Type*) where
  value : K × K
  marker : Marker
  perfMbps : K
  runOrNot : ℤ

/-- The parameters that a test is programmed with. -/
def Profiler.planned {K Prof Entry : Type*} (F : Profiler K Prof Entry) (t : Trial K) : ℤ × ℤ :=
  F.settings (F.value t.window t.theta)

/-- A test, with the entry as it was programmed. -/
structure Test (K Entry : Type*) where
  trial : Trial K
  entry : Entry

/-- The variables of a client's run, its arguments included. -/
structure Vars (K Prof Entry : Type*) where
  pc : Pc
  prof : Prof
  profMax : Prof
  store : ℕ → Entry
  rttMs : K
  history : List (HistoryLine K)
  a : K
  c : K
  bufSizeMin : ℤ
  bufSizeMax : ℤ
  value : K × K
  theta : K × K
  thetaPlus : K × K
  thetaMinus : K × K
  delta : K × K
  yPlusGbps : K
  yMinusGbps : K
  yStarGbps : K
  maxTheta : K × K
  maxPerfGbps : K
  ak : K
  ckAdjustPlus : K × K
  ckAdjustMinus : K × K
  ghat : K × K
  k : ℕ
  profileNum : ℤ
  noImpCounter : ℤ
  flag : ℤ
  visitedList : List (FastprofTrace K)
  started : ℕ
  tests : List (Test K Entry)

/-- What a client is run with besides the control block. -/
structure Args (Prof Entry : Type*) where
  prof : Prof
  profMax : Prof
  store : ℕ → Entry

namespace Vars

variable {K Prof Entry : Type*}

/-- The variable for the throughput of a test. -/
def setY (s : Vars K Prof Entry) (m : Marker) (y : K) : Vars K Prof Entry :=
  match m with
  | .plus => { s with yPlusGbps := y }
  | .minus => { s with yMinusGbps := y }
  | .star => { s with yStarGbps := y }

def y (s : Vars K Prof Entry) (m : Marker) : K :=
  match m with
  | .plus => s.yPlusGbps
  | .minus => s.yMinusGbps
  | .star => s.yStarGbps

/-- The entry of a profile. -/
def entry (F : Profiler K Prof Entry) (s : Vars K Prof Entry) : Entry := s.store (F.handle s.prof)

/-- The record of a test is composed and added to the history. -/
def record (F : Profiler K Prof Entry) (s : Vars K Prof Entry) : Vars K Prof Entry :=
  { s with history := s.history ++ [F.compose s.prof (s.entry F)] }

variable [Field K]

/-- The profile is programmed for the point `pt`. -/
def program (F : Profiler K Prof Entry) (m : Marker) (pt : K × K) (s : Vars K Prof Entry) :
    Vars K Prof Entry :=
  let v := F.value (s.bufSizeMin, s.bufSizeMax) pt
  { s.setY m 0 with
    value := v
    started := s.started + 1
    store := Function.update s.store (F.handle s.prof) (F.program v (s.entry F)) }

/-- The test measured `y` Mbps and sent `n` bytes. -/
def ran (F : Profiler K Prof Entry) (m : Marker) (pt : K × K) (y : K) (n : ℤ)
    (s : Vars K Prof Entry) : Vars K Prof Entry :=
  let (p, e) := F.ran y n s.prof (s.entry F)
  { s.setY m (F.perfMbps p / 1000) with
    prof := p
    store := Function.update s.store (F.handle s.prof) e
    tests := s.tests ++ [⟨⟨pt, (s.bufSizeMin, s.bufSizeMax), y⟩, s.entry F⟩] }

/-- The test is counted and pushed on the visited list. -/
def visit (m : Marker) (s : Vars K Prof Entry) : Vars K Prof Entry :=
  { s with
    profileNum := s.profileNum + 1
    visitedList := s.visitedList ++ [⟨s.value, m, s.y m * 1000, 1⟩] }

variable [LinearOrder K]

/-- The throughput of a test is compared with the best so far. -/
def compare (P : Setup K) (m : Marker) (pt : K × K) (s : Vars K Prof Entry) :
    Vars K Prof Entry :=
  if s.y m > s.maxPerfGbps then
    let s := { s with maxPerfGbps := s.y m, maxTheta := pt, profMax := s.prof, noImpCounter := 0 }
    if pgrReached s.maxPerfGbps P.ctrl.bwGbps P.lim.perfGainRatio then
      { s with flag := 3, pc := .done }
    else { s with pc := m.next }
  else { s with noImpCounter := s.noImpCounter + 1, pc := m.next }

/-- A test at the point `pt`, with everything up to the next one. -/
def test (F : Profiler K Prof Entry) (P : Setup K) (m : Marker) (pt : K × K)
    (s : Vars K Prof Entry) : Vars K Prof Entry :=
  let n := s.tests.length
  let s := s.program F m pt
  match P.out.test n with
  | none => { s with pc := .ret (-1) }
  | some y =>
    let s := s.ran F m pt y (P.out.sent n)
    if !P.out.composed n then { s with pc := .ret 0 }
    else if !P.out.added n then { s with pc := .ret 0 }
    else ((s.record F).visit m).compare P m pt

/-- The perturbed points of an iteration, clipped. -/
def perturb (P : Setup K) (s : Vars K Prof Entry) : Vars K Prof Entry :=
  let theta := (clampTheta s.theta.1, clampTheta s.theta.2)
  let k := s.k + 1
  let ak := P.arith.div s.a (P.arith.pow (P.ctrl.AVal + k + 1) P.ctrl.alpha)
  let ck := P.arith.div s.c (P.arith.pow (k + 1) P.ctrl.gamma)
  let delta := (fPerturb (P.out.signs s.k).1, fPerturb (P.out.signs s.k).2)
  let plus := (theta.1 + ck * delta.1, theta.2 + ck * delta.2)
  let minus := (theta.1 - ck * delta.1, theta.2 - ck * delta.2)
  { s with
    theta := theta
    k := k
    ak := ak
    delta := delta
    ckAdjustPlus := (ckAdjust P.arith ck theta.1 plus.1, ckAdjust P.arith ck theta.2 plus.2)
    thetaPlus := (clipTheta plus.1, clipTheta plus.2)
    ckAdjustMinus := (ckAdjust P.arith ck theta.1 minus.1, ckAdjust P.arith ck theta.2 minus.2)
    thetaMinus := (clipTheta minus.1, clipTheta minus.2) }

/-- The gradient step. -/
def climb (P : Setup K) (s : Vars K Prof Entry) : Vars K Prof Entry :=
  let g1 := gradient P.arith s.yPlusGbps s.yMinusGbps s.ckAdjustPlus.1 s.ckAdjustMinus.1 s.delta.1
  let g2 := gradient P.arith s.yPlusGbps s.yMinusGbps s.ckAdjustPlus.2 s.ckAdjustMinus.2 s.delta.2
  { s with
    ghat := (g1, g2)
    theta := (projTheta (s.theta.1 + s.ak * g1), projTheta (s.theta.2 + s.ak * g2)) }

/-- The gradient step and the test at the new point; an iteration that is not
left there restarts from the best point so far. -/
def star (F : Profiler K Prof Entry) (P : Setup K) (s : Vars K Prof Entry) :
    Vars K Prof Entry :=
  let s := s.climb P
  let s := s.test F P .star s.theta
  if s.pc = .head then { s with theta := s.maxTheta } else s

/-- The gains are scaled once half of the impeded limit is spent. -/
def scale (P : Setup K) (s : Vars K Prof Entry) : Vars K Prof Entry :=
  if s.noImpCounter ≥ P.lim.noImp.tdiv 2 then
    { s with a := s.a * P.ctrl.aScale, c := s.c * P.ctrl.cScale }
  else s

variable [FloorRing K]

/-- The ping of an iteration, and the window it gives. -/
def measure (P : Setup K) (s : Vars K Prof Entry) : Vars K Prof Entry :=
  let rttMs := pingRtt P.ctrl.bwBps s.rttMs (P.out.ping s.k)
  let w := bufWindow P.arith fBufMin (bufSafeguardMax P.ctrl.hostMaxBuf)
    (bdpB P.ctrl.bwBps rttMs) (s.bufSizeMin, s.bufSizeMax)
  { s with rttMs := rttMs, bufSizeMin := w.1, bufSizeMax := w.2 }

/-- The head of the loop, up to and with the test at `theta_plus`. -/
def head (F : Profiler K Prof Entry) (P : Setup K) (s : Vars K Prof Entry) :
    Vars K Prof Entry :=
  let s := { s with flag := -1 }
  if s.profileNum ≥ P.lim.maxProf then { s with flag := 1, pc := .done }
  else
    let s := s.scale P
    if s.noImpCounter ≥ P.lim.noImp then { s with flag := 2, pc := .done }
    else if pgrReached s.maxPerfGbps P.ctrl.bwGbps P.lim.perfGainRatio then
      { s with flag := 3, pc := .done }
    else
      let s := (s.measure P).perturb P
      s.test F P .plus s.thetaPlus

/-- One step of the loop, at most one test. -/
def step (F : Profiler K Prof Entry) (P : Setup K) (s : Vars K Prof Entry) :
    Vars K Prof Entry :=
  match s.pc with
  | .head => s.head F P
  | .minus => s.test F P .minus s.thetaMinus
  | .star => s.star F P
  | .done => s
  | .ret _ => s

section Step

variable (F : Profiler K Prof Entry) (P : Setup K) {s : Vars K Prof Entry}

theorem step_of_head (h : s.pc = .head) : s.step F P = s.head F P := by
  unfold step
  rw [h]

theorem step_of_minus (h : s.pc = .minus) : s.step F P = s.test F P .minus s.thetaMinus := by
  unfold step
  rw [h]

theorem step_of_star (h : s.pc = .star) : s.step F P = s.star F P := by
  unfold step
  rw [h]

end Step

/-- The variables at the head of the first iteration. -/
def start (P : Setup K) (args : Args Prof Entry) : Vars K Prof Entry where
  pc := if P.out.openLog then .head else .ret (-1)
  prof := args.prof
  profMax := args.profMax
  store := args.store
  rttMs := P.ctrl.rttMs
  history := []
  a := P.ctrl.aVal
  c := P.ctrl.cVal
  bufSizeMin := fBufMin
  bufSizeMax := bufSafeguardMax P.ctrl.hostMaxBuf
  value := (-1, -1)
  theta := (fRand P.out.start.1 (P.arith.toInt (fIterativeMin : K) + 1)
      (P.arith.toInt (fIterativeMax : K) - 1),
    fRand P.out.start.2 (P.arith.toInt (fIterativeMin : K) + 1)
      (P.arith.toInt (fIterativeMax : K) - 1))
  thetaPlus := (0, 0)
  thetaMinus := (0, 0)
  delta := (1, 1)
  yPlusGbps := 0
  yMinusGbps := 0
  yStarGbps := 0
  maxTheta := (0, 0)
  maxPerfGbps := 0
  ak := 0
  ckAdjustPlus := (0, 0)
  ckAdjustMinus := (0, 0)
  ghat := (0, 0)
  k := 0
  profileNum := 0
  noImpCounter := 0
  flag := -1
  visitedList := []
  started := 0
  tests := []

/-- The variables after `n` steps of a run. -/
def run (F : Profiler K Prof Entry) (P : Setup K) (args : Args Prof Entry) (n : ℕ) :
    Vars K Prof Entry :=
  (step F P)^[n] (start P args)

end Vars

variable {K Prof Entry : Type*}

/-- What is read of the best test once the loop has ended: the parameters of
the entry of `prof_max`, and `prof_max->perf_Mbps`. -/
def Vars.report (F : Profiler K Prof Entry) (s : Vars K Prof Entry) : (ℤ × ℤ) × K :=
  (F.setting (s.store (F.handle s.profMax)), F.perfMbps s.profMax)

/-- The value a run returns. -/
def Vars.returned (s : Vars K Prof Entry) : ℤ :=
  match s.pc with
  | .ret r => r
  | _ => 0

end Fastprof
end Probdata
