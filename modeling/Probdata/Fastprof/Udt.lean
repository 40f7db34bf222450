/-
# The UDT client, `fastprof_udt.cpp`

`f_udt_client_run` with its local variables, a step from one test of an
iteration to the next. The first coordinate of a point is the block size, in
units of the payload of a packet; the second the buffer size, over the window.
The `tpg_profile` is not reset between tests: each test sets the block size, the
four buffer sizes and the throughput, and reads its throughput back from the
entry.

`udtStep_vars` shows the loop to be the loop of `Client` for `udtProfiler`.
-/
import Probdata.Fastprof.Client

namespace Probdata
namespace Fastprof

/-- The fields of `struct tpg_profile` that the loop uses. -/
structure TpgProfile (K : Type*) where
  blocksize : ℤ
  udtMss : ℤ
  udtSendBufsize : ℤ
  udtRecvBufsize : ℤ
  udpSendBufsize : ℤ
  udpRecvBufsize : ℤ
  totalStreamNum : ℤ
  profTimeDuration : ℤ
  totalSentBytes : ℤ
  clientPerfMbps : K

/-- `struct fastprof_udt_prof` -/
structure FastprofUdtProf (K : Type*) where
  udtProf : ℕ
  perfMbps : K

/-- `struct fastprof_udt_trace` -/
structure FastprofUdtTrace (K : Type*) where
  blkSize : K
  bufSize : K
  marker : Marker
  perfMbps : K
  runOrNot : ℤ

/-- The variables of `f_udt_client_run`, its arguments included, with the ghosts
`started` and `tests` (see `Client`). -/
structure UdtVars (K : Type*) where
  pc : Pc
  prof : FastprofUdtProf K
  profMax : FastprofUdtProf K
  store : ℕ → (TpgProfile K)
  rttMs : K
  history : List (HistoryLine K)
  a : K
  c : K
  bufferSizeMin : ℤ
  bufferSizeMax : ℤ
  blockSize : K
  bufferSize : K
  theta : K × K
  thetaPlus : K × K
  thetaMinus : K × K
  delta : K × K
  yPlusGbps : K
  yMinusGbps : K
  yStarGbps : K
  maxTheta : K × K
  maxPerfGbps : K
  ak : K
  ckAdjustPlus : K × K
  ckAdjustMinus : K × K
  ghat : K × K
  k : ℕ
  profileNumber : ℤ
  noImpCounter : ℤ
  flag : ℤ
  visitedList : List (FastprofUdtTrace K)
  started : ℕ
  tests : List (Test K (TpgProfile K))

variable {K : Type*} [Field K]

def fUdtThetaToVal (thetaMin thetaMax valueMin valueMax theta : K) : K :=
  (theta - thetaMin) * (valueMax - valueMin) / (thetaMax - thetaMin) + valueMin

/-- The numbers that `f_udt_m2m_record_compose` takes from the profile. -/
def fUdtM2mRecordCompose (t : TpgProfile K) : HistoryLine K where
  protocol := .udt
  numStreams := t.totalStreamNum
  mssSize := t.udtMss
  bufferSize := t.udtSendBufsize
  blockSize := t.blocksize
  duration := t.profTimeDuration
  transSize := t.totalSentBytes
  averagePerf := t.clientPerfMbps

/-! ### The loop -/

/-- The variable that a test assigns its throughput to. -/
def UdtVars.setY (s : UdtVars K) (m : Marker) (y : K) : UdtVars K :=
  match m with
  | .plus => { s with yPlusGbps := y }
  | .minus => { s with yMinusGbps := y }
  | .star => { s with yStarGbps := y }

def UdtVars.y (s : UdtVars K) (m : Marker) : K :=
  match m with
  | .plus => s.yPlusGbps
  | .minus => s.yMinusGbps
  | .star => s.yStarGbps

/-- The test measured `y` Mbps and sent `n` bytes; its throughput is read back
from the entry. -/
def udtRan (m : Marker) (pt : K × K) (y : K) (n : ℤ) (s : UdtVars K) : UdtVars K :=
  let t := { s.store s.prof.udtProf with totalSentBytes := n, clientPerfMbps := y }
  let prof := { s.prof with perfMbps := t.clientPerfMbps }
  { s.setY m (prof.perfMbps / 1000) with
    prof := prof
    store := Function.update s.store s.prof.udtProf t
    tests := s.tests ++
      [⟨⟨pt, (s.bufferSizeMin, s.bufferSizeMax), y⟩, s.store s.prof.udtProf⟩] }

/-- The record of the test is composed and added to the history. -/
def udtRecord (s : UdtVars K) : UdtVars K :=
  { s with history := s.history ++ [fUdtM2mRecordCompose (s.store s.prof.udtProf)] }

/-- The test is counted and pushed on the visited list. -/
def udtVisit (m : Marker) (s : UdtVars K) : UdtVars K :=
  { s with
    profileNumber := s.profileNumber + 1
    visitedList := s.visitedList ++ [⟨s.blockSize, s.bufferSize, m, s.y m * 1000, 1⟩] }

variable [LinearOrder K]

/-- The comparison of the test's throughput with the best so far. -/
def udtCompare (P : Setup K) (m : Marker) (pt : K × K) (s : UdtVars K) : UdtVars K :=
  if s.y m > s.maxPerfGbps then
    let s := { s with maxPerfGbps := s.y m, maxTheta := pt, profMax := s.prof, noImpCounter := 0 }
    if pgrReached s.maxPerfGbps P.ctrl.bwGbps P.lim.perfGainRatio then
      { s with flag := 3, pc := .done }
    else { s with pc := m.next }
  else { s with noImpCounter := s.noImpCounter + 1, pc := m.next }

/-- The perturbed points of an iteration, clipped. -/
def udtPerturb (P : Setup K) (s : UdtVars K) : UdtVars K :=
  let theta := (clampTheta s.theta.1, clampTheta s.theta.2)
  let k := s.k + 1
  let ak := P.arith.div s.a (P.arith.pow (P.ctrl.AVal + k + 1) P.ctrl.alpha)
  let ck := P.arith.div s.c (P.arith.pow (k + 1) P.ctrl.gamma)
  let delta := (fPerturb (P.out.signs s.k).1, fPerturb (P.out.signs s.k).2)
  let plus := (theta.1 + ck * delta.1, theta.2 + ck * delta.2)
  let minus := (theta.1 - ck * delta.1, theta.2 - ck * delta.2)
  { s with
    theta := theta
    k := k
    ak := ak
    delta := delta
    ckAdjustPlus := (ckAdjust P.arith ck theta.1 plus.1, ckAdjust P.arith ck theta.2 plus.2)
    thetaPlus := (clipTheta plus.1, clipTheta plus.2)
    ckAdjustMinus := (ckAdjust P.arith ck theta.1 minus.1, ckAdjust P.arith ck theta.2 minus.2)
    thetaMinus := (clipTheta minus.1, clipTheta minus.2) }

/-- The gradient step. -/
def udtClimb (P : Setup K) (s : UdtVars K) : UdtVars K :=
  let g1 := gradient P.arith s.yPlusGbps s.yMinusGbps s.ckAdjustPlus.1 s.ckAdjustMinus.1 s.delta.1
  let g2 := gradient P.arith s.yPlusGbps s.yMinusGbps s.ckAdjustPlus.2 s.ckAdjustMinus.2 s.delta.2
  { s with
    ghat := (g1, g2)
    theta := (projTheta (s.theta.1 + s.ak * g1), projTheta (s.theta.2 + s.ak * g2)) }

/-- The gains are scaled once half of the impeded limit is spent. -/
def udtScale (P : Setup K) (s : UdtVars K) : UdtVars K :=
  if s.noImpCounter ≥ P.lim.noImp.tdiv 2 then
    { s with a := s.a * P.ctrl.aScale, c := s.c * P.ctrl.cScale }
  else s

variable [FloorRing K]

/-- The profile is programmed for the point `pt`. -/
def udtProgram (P : Setup K) (m : Marker) (pt : K × K) (s : UdtVars K) : UdtVars K :=
  let blockUnit : ℤ := P.ctrl.mss - (20 + 8 + 16)
  let blockSize : K :=
    fUdtThetaToVal fIterativeMin fIterativeMax (fBlkMin : K) (fBlkMax : K) pt.1
  let bufferSize : K :=
    fUdtThetaToVal fIterativeMin fIterativeMax (s.bufferSizeMin : K) (s.bufferSizeMax : K) pt.2
  let t := { s.store s.prof.udtProf with
    blocksize := P.arith.toInt (fRound (blockSize * blockUnit))
    udtSendBufsize := P.arith.toInt (fRound (bufferSize * 1))
    udtRecvBufsize := P.arith.toInt (fRound (bufferSize * 1))
    udpSendBufsize := P.arith.toInt (fRound (bufferSize * 1 * (1 / 2)))
    udpRecvBufsize := P.arith.toInt (fRound (bufferSize * 1 * (1 / 2)))
    clientPerfMbps := 0 }
  { s.setY m 0 with
    blockSize := blockSize
    bufferSize := bufferSize
    started := s.started + 1
    store := Function.update s.store s.prof.udtProf t }

/-- A test at the point `pt`, with everything up to the next one. -/
def udtTest (P : Setup K) (m : Marker) (pt : K × K) (s : UdtVars K) : UdtVars K :=
  let n := s.tests.length
  let s := udtProgram P m pt s
  match P.out.test n with
  | none => { s with pc := .ret (-1) }
  | some y =>
    let s := udtRan m pt y (P.out.sent n) s
    if !P.out.composed n then { s with pc := .ret 0 }
    else if !P.out.added n then { s with pc := .ret 0 }
    else udtCompare P m pt (udtVisit m (udtRecord s))

/-- The ping of an iteration, and the window it gives. -/
def udtMeasure (P : Setup K) (s : UdtVars K) : UdtVars K :=
  let rttMs := pingRtt P.ctrl.bwBps s.rttMs (P.out.ping s.k)
  let w := bufWindow P.arith fBufMin (bufSafeguardMax P.ctrl.hostMaxBuf)
    (bdpB P.ctrl.bwBps rttMs) (s.bufferSizeMin, s.bufferSizeMax)
  { s with rttMs := rttMs, bufferSizeMin := w.1, bufferSizeMax := w.2 }

/-- The head of the loop, up to and with the test at `theta_plus`. -/
def udtHead (P : Setup K) (s : UdtVars K) : UdtVars K :=
  let s := { s with flag := -1 }
  if s.profileNumber ≥ P.lim.maxProf then { s with flag := 1, pc := .done }
  else
    let s := udtScale P s
    if s.noImpCounter ≥ P.lim.noImp then { s with flag := 2, pc := .done }
    else if pgrReached s.maxPerfGbps P.ctrl.bwGbps P.lim.perfGainRatio then
      { s with flag := 3, pc := .done }
    else
      let s := udtPerturb P (udtMeasure P s)
      udtTest P .plus s.thetaPlus s

/-- The gradient step and the test at the new point; an iteration that is not
left there restarts from the best point so far. -/
def udtStar (P : Setup K) (s : UdtVars K) : UdtVars K :=
  let s := udtClimb P s
  let s := udtTest P .star s.theta s
  if s.pc = .head then { s with theta := s.maxTheta } else s

/-- One step of `f_udt_client_run`, at most one test. -/
def udtStep (P : Setup K) (s : UdtVars K) : UdtVars K :=
  match s.pc with
  | .head => udtHead P s
  | .minus => udtTest P .minus s.thetaMinus s
  | .star => udtStar P s
  | .done => s
  | .ret _ => s

/-- The variables at the head of the first iteration. -/
def udtStart (P : Setup K) (args : Args (FastprofUdtProf K) (TpgProfile K)) : UdtVars K where
  pc := if P.out.openLog then .head else .ret (-1)
  prof := args.prof
  profMax := args.profMax
  store := args.store
  rttMs := P.ctrl.rttMs
  history := []
  a := P.ctrl.aVal
  c := P.ctrl.cVal
  bufferSizeMin := fBufMin
  bufferSizeMax := bufSafeguardMax P.ctrl.hostMaxBuf
  blockSize := -1
  bufferSize := -1
  theta := (fRand P.out.start.1 (P.arith.toInt (fIterativeMin : K) + 1)
      (P.arith.toInt (fIterativeMax : K) - 1),
    fRand P.out.start.2 (P.arith.toInt (fIterativeMin : K) + 1)
      (P.arith.toInt (fIterativeMax : K) - 1))
  thetaPlus := (0, 0)
  thetaMinus := (0, 0)
  delta := (1, 1)
  yPlusGbps := 0
  yMinusGbps := 0
  yStarGbps := 0
  maxTheta := (0, 0)
  maxPerfGbps := 0
  ak := 0
  ckAdjustPlus := (0, 0)
  ckAdjustMinus := (0, 0)
  ghat := (0, 0)
  k := 0
  profileNumber := 0
  noImpCounter := 0
  flag := -1
  visitedList := []
  started := 0
  tests := []

/-- The variables of `f_udt_client_run` after `n` steps. -/
def fUdtClientRun (P : Setup K) (args : Args (FastprofUdtProf K) (TpgProfile K)) (n : ℕ) :
    UdtVars K :=
  (udtStep P)^[n] (udtStart P args)

/-! ### The loop of `Client` -/

/-- What `f_udt_client_run` does with its profile. -/
def udtProfiler (P : Setup K) : Profiler K (FastprofUdtProf K) (TpgProfile K) where
  handle := FastprofUdtProf.udtProf
  perfMbps := FastprofUdtProf.perfMbps
  setting t := (t.blocksize, t.udtSendBufsize)
  settings v := (P.arith.toInt (fRound (v.1 * (P.ctrl.mss - (20 + 8 + 16) : ℤ))),
    P.arith.toInt (fRound (v.2 * 1)))
  value w pt :=
    (fUdtThetaToVal fIterativeMin fIterativeMax (fBlkMin : K) (fBlkMax : K) pt.1,
      fUdtThetaToVal fIterativeMin fIterativeMax (w.1 : K) (w.2 : K) pt.2)
  program v t := { t with
    blocksize := P.arith.toInt (fRound (v.1 * (P.ctrl.mss - (20 + 8 + 16) : ℤ)))
    udtSendBufsize := P.arith.toInt (fRound (v.2 * 1))
    udtRecvBufsize := P.arith.toInt (fRound (v.2 * 1))
    udpSendBufsize := P.arith.toInt (fRound (v.2 * 1 * (1 / 2)))
    udpRecvBufsize := P.arith.toInt (fRound (v.2 * 1 * (1 / 2)))
    clientPerfMbps := 0 }
  ran y n prof t :=
    let t := { t with totalSentBytes := n, clientPerfMbps := y }
    ({ prof with perfMbps := t.clientPerfMbps }, t)
  compose _ := fUdtM2mRecordCompose
  handle_ran _ _ _ _ := rfl
  perfMbps_ran _ _ _ _ := rfl
  setting_ran _ _ _ _ := rfl
  setting_program _ _ := rfl

def FastprofUdtTrace.trace {K : Type*} (t : FastprofUdtTrace K) : FastprofTrace K :=
  ⟨(t.blkSize, t.bufSize), t.marker, t.perfMbps, t.runOrNot⟩

/-- The variables as those of `Client`. -/
def UdtVars.vars {K : Type*} (s : UdtVars K) : Vars K (FastprofUdtProf K) (TpgProfile K) where
  pc := s.pc
  prof := s.prof
  profMax := s.profMax
  store := s.store
  rttMs := s.rttMs
  history := s.history
  a := s.a
  c := s.c
  bufSizeMin := s.bufferSizeMin
  bufSizeMax := s.bufferSizeMax
  value := (s.blockSize, s.bufferSize)
  theta := s.theta
  thetaPlus := s.thetaPlus
  thetaMinus := s.thetaMinus
  delta := s.delta
  yPlusGbps := s.yPlusGbps
  yMinusGbps := s.yMinusGbps
  yStarGbps := s.yStarGbps
  maxTheta := s.maxTheta
  maxPerfGbps := s.maxPerfGbps
  ak := s.ak
  ckAdjustPlus := s.ckAdjustPlus
  ckAdjustMinus := s.ckAdjustMinus
  ghat := s.ghat
  k := s.k
  profileNum := s.profileNumber
  noImpCounter := s.noImpCounter
  flag := s.flag
  visitedList := s.visitedList.map FastprofUdtTrace.trace
  started := s.started
  tests := s.tests

section Simulation

variable (P : Setup K) (m : Marker) (pt : K × K) (s : UdtVars K)

theorem udtProgram_vars : (udtProgram P m pt s).vars = s.vars.program (udtProfiler P) m pt := by
  cases m <;> rfl

theorem udtRan_vars (y : K) (n : ℤ) :
    (udtRan m pt y n s).vars = s.vars.ran (udtProfiler P) m pt y n := by
  cases m <;> rfl

theorem udtRecord_vars : (udtRecord s).vars = s.vars.record (udtProfiler P) := rfl

omit [LinearOrder K] [FloorRing K] in
theorem udtVisit_vars : (udtVisit m s).vars = s.vars.visit m := by
  simp only [udtVisit, UdtVars.vars, List.map_append]
  cases m <;> rfl

omit [FloorRing K] in
theorem udtCompare_vars : (udtCompare P m pt s).vars = s.vars.compare P m pt := by
  have hy : s.vars.y m = s.y m := by cases m <;> rfl
  unfold udtCompare Vars.compare
  dsimp only
  rw [hy, apply_ite UdtVars.vars, apply_ite UdtVars.vars]
  rfl

theorem udtTest_vars : (udtTest P m pt s).vars = s.vars.test (udtProfiler P) P m pt := by
  have ht : s.vars.tests = s.tests := rfl
  rcases hy : P.out.test s.tests.length with _ | y
  · simp only [udtTest, Vars.test, ht, hy, ← udtProgram_vars]
    rfl
  · simp only [udtTest, Vars.test, ht, hy, ← udtProgram_vars, ← udtRan_vars]
    rw [apply_ite UdtVars.vars, apply_ite UdtVars.vars, udtCompare_vars, udtVisit_vars,
      udtRecord_vars P]
    rfl

omit [FloorRing K] in
theorem udtScale_vars : (udtScale P s).vars = s.vars.scale P := by
  unfold udtScale
  rw [apply_ite UdtVars.vars]
  rfl

theorem udtHead_vars : (udtHead P s).vars = s.vars.head (udtProfiler P) P := by
  have hperturb : ∀ s : UdtVars K,
      (udtPerturb P (udtMeasure P s)).vars = (s.vars.measure P).perturb P := fun _ => rfl
  have hflag : { s.vars with flag := -1 } = UdtVars.vars { s with flag := -1 } := rfl
  have hscale := udtScale_vars P { s with flag := -1 }
  simp only [udtHead, Vars.head, apply_ite UdtVars.vars, udtTest_vars, hperturb]
  rw [hflag, ← hscale, ← hperturb]
  rfl

theorem udtStar_vars : (udtStar P s).vars = s.vars.star (udtProfiler P) P := by
  have htest := udtTest_vars P .star (udtClimb P s).theta (udtClimb P s)
  unfold udtStar
  dsimp only
  rw [apply_ite UdtVars.vars]
  unfold Vars.star
  dsimp only
  rw [show s.vars.climb P = (udtClimb P s).vars from rfl,
    show (udtClimb P s).vars.theta = (udtClimb P s).theta from rfl, ← htest]
  rfl

/-- A step of `f_udt_client_run` is a step of the loop of `Client`. -/
theorem udtStep_vars : (udtStep P s).vars = s.vars.step (udtProfiler P) P := by
  have hpc : s.vars.pc = s.pc := rfl
  unfold udtStep Vars.step
  rw [hpc]
  cases s.pc with
  | head => exact udtHead_vars P s
  | minus => exact udtTest_vars P .minus s.thetaMinus s
  | star => exact udtStar_vars P s
  | done => rfl
  | ret r => rfl

theorem fUdtClientRun_vars (args : Args (FastprofUdtProf K) (TpgProfile K)) (n : ℕ) :
    (fUdtClientRun P args n).vars = Vars.run (udtProfiler P) P args n := by
  induction n with
  | zero => rfl
  | succ n ih =>
    unfold fUdtClientRun Vars.run at ih ⊢
    rw [Function.iterate_succ_apply', Function.iterate_succ_apply', udtStep_vars, ih]

end Simulation

/-- A zero entry for every handle; the profile has handle 0. -/
def plainUdtArgs : Args (FastprofUdtProf ℚ) (TpgProfile ℚ) where
  prof := ⟨0, -1⟩
  profMax := ⟨1, -1⟩
  store _ := ⟨0, 1500, 0, 0, 0, 0, 1, 10, 0, 0⟩

end Fastprof
end Probdata
