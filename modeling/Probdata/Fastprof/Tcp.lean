/-
# The TCP client, `fastprof_tcp.cpp`

`f_tcp_client_run` with its local variables, a step from one test of an
iteration to the next. The first coordinate of a point is the buffer size, over
the window; the second the number of streams. Each test resets the
`iperf_test` and programs it anew. What libiperf does to an entry when it is
reset is a parameter (`IperfLib`).

`tcpStep_vars` shows the loop to be the loop of `Client` for `tcpProfiler`.
-/
import Probdata.Fastprof.Client

namespace Probdata
namespace Fastprof

/-- The fields of `struct iperf_test` and its settings that FastProf uses. -/
structure IperfTest where
  role : Char
  serverHostname : List UInt8
  serverPort : ℤ
  duration : ℤ
  mss : ℤ
  blksize : ℤ
  socketBufsize : ℤ
  numStreams : ℤ
  deriving DecidableEq, Repr

/-- `iperf_test_reset`, and `iperf_defaults` with its return value. -/
structure IperfLib where
  reset : IperfTest → IperfTest
  defaults : IperfTest → IperfTest × ℤ

/-- `struct fastprof_tcp_prof` -/
structure FastprofTcpProf (K : Type*) where
  tcpProf : ℕ
  totalSent : ℤ
  perfMbps : K

/-- `struct fastprof_tcp_trace` -/
structure FastprofTcpTrace (K : Type*) where
  bufSize : K
  streamNum : K
  marker : Marker
  perfMbps : K
  runOrNot : ℤ

/-- The variables of `f_tcp_client_run`, its arguments included, with the ghosts
`started` and `tests` (see `Client`). -/
structure TcpVars (K : Type*) where
  pc : Pc
  prof : FastprofTcpProf K
  profMax : FastprofTcpProf K
  store : ℕ → IperfTest
  rttMs : K
  history : List (HistoryLine K)
  a : K
  c : K
  bufSizeMin : ℤ
  bufSizeMax : ℤ
  bufSize : K
  streamNum : K
  theta : K × K
  thetaPlus : K × K
  thetaMinus : K × K
  delta : K × K
  yPlusGbps : K
  yMinusGbps : K
  yStarGbps : K
  maxTheta : K × K
  maxPerfGbps : K
  ak : K
  ckAdjustPlus : K × K
  ckAdjustMinus : K × K
  ghat : K × K
  k : ℕ
  profileNum : ℤ
  noImpCounter : ℤ
  flag : ℤ
  visitedList : List (FastprofTcpTrace K)
  started : ℕ
  tests : List (Test K IperfTest)

variable {K : Type*} [Field K]

def fTcpProfInit (t : IperfTest) (ctrl : FastprofCtrl K) : IperfTest :=
  { t with
    role := if ctrl.role = .client then 'c' else 's'
    serverHostname := ctrl.remoteIp
    serverPort := ctrl.tcpPort
    mss := ctrl.mss - 40
    duration := ctrl.duration }

/-- `f_tcp_prof_reset` on the entry, with its return value. -/
def fTcpProfReset (lib : IperfLib) (t : IperfTest) (ctrl : FastprofCtrl K) : IperfTest × ℤ :=
  let (t, r) := lib.defaults (lib.reset t)
  if r ≠ 0 then (t, -1) else (fTcpProfInit t ctrl, 0)

def fTcpThetaToVal (thetaMin thetaMax valMin valMax theta : K) : K :=
  (theta - thetaMin) * (valMax - valMin) / (thetaMax - thetaMin) + valMin

/-- The numbers that `f_tcp_m2m_record_compose` takes from the profile. -/
def fTcpM2mRecordCompose (prof : FastprofTcpProf K) (t : IperfTest) : HistoryLine K where
  protocol := .tcp
  numStreams := t.numStreams
  mssSize := t.mss
  bufferSize := t.socketBufsize
  blockSize := t.blksize
  duration := t.duration
  transSize := prof.totalSent
  averagePerf := prof.perfMbps

/-! ### The loop -/

/-- The variable that a test assigns its throughput to. -/
def TcpVars.setY (s : TcpVars K) (m : Marker) (y : K) : TcpVars K :=
  match m with
  | .plus => { s with yPlusGbps := y }
  | .minus => { s with yMinusGbps := y }
  | .star => { s with yStarGbps := y }

def TcpVars.y (s : TcpVars K) (m : Marker) : K :=
  match m with
  | .plus => s.yPlusGbps
  | .minus => s.yMinusGbps
  | .star => s.yStarGbps

/-- The test measured `y` Mbps and sent `n` bytes. -/
def tcpRan (m : Marker) (pt : K × K) (y : K) (n : ℤ) (s : TcpVars K) : TcpVars K :=
  let prof := { s.prof with totalSent := n, perfMbps := y }
  { s.setY m (prof.perfMbps / 1000) with
    prof := prof
    tests := s.tests ++ [⟨⟨pt, (s.bufSizeMin, s.bufSizeMax), y⟩, s.store s.prof.tcpProf⟩] }

/-- The record of the test is composed and added to the history. -/
def tcpRecord (s : TcpVars K) : TcpVars K :=
  { s with history := s.history ++ [fTcpM2mRecordCompose s.prof (s.store s.prof.tcpProf)] }

/-- The test is counted and pushed on the visited list. -/
def tcpVisit (m : Marker) (s : TcpVars K) : TcpVars K :=
  { s with
    profileNum := s.profileNum + 1
    visitedList := s.visitedList ++ [⟨s.bufSize, s.streamNum, m, s.y m * 1000, 1⟩] }

variable [LinearOrder K]

/-- The comparison of the test's throughput with the best so far. -/
def tcpCompare (P : Setup K) (m : Marker) (pt : K × K) (s : TcpVars K) : TcpVars K :=
  if s.y m > s.maxPerfGbps then
    let s := { s with maxPerfGbps := s.y m, maxTheta := pt, profMax := s.prof, noImpCounter := 0 }
    if pgrReached s.maxPerfGbps P.ctrl.bwGbps P.lim.perfGainRatio then
      { s with flag := 3, pc := .done }
    else { s with pc := m.next }
  else { s with noImpCounter := s.noImpCounter + 1, pc := m.next }

/-- The perturbed points of an iteration, clipped. -/
def tcpPerturb (P : Setup K) (s : TcpVars K) : TcpVars K :=
  let theta := (clampTheta s.theta.1, clampTheta s.theta.2)
  let k := s.k + 1
  let ak := P.arith.div s.a (P.arith.pow (P.ctrl.AVal + k + 1) P.ctrl.alpha)
  let ck := P.arith.div s.c (P.arith.pow (k + 1) P.ctrl.gamma)
  let delta := (fPerturb (P.out.signs s.k).1, fPerturb (P.out.signs s.k).2)
  let plus := (theta.1 + ck * delta.1, theta.2 + ck * delta.2)
  let minus := (theta.1 - ck * delta.1, theta.2 - ck * delta.2)
  { s with
    theta := theta
    k := k
    ak := ak
    delta := delta
    ckAdjustPlus := (ckAdjust P.arith ck theta.1 plus.1, ckAdjust P.arith ck theta.2 plus.2)
    thetaPlus := (clipTheta plus.1, clipTheta plus.2)
    ckAdjustMinus := (ckAdjust P.arith ck theta.1 minus.1, ckAdjust P.arith ck theta.2 minus.2)
    thetaMinus := (clipTheta minus.1, clipTheta minus.2) }

/-- The gradient step. -/
def tcpClimb (P : Setup K) (s : TcpVars K) : TcpVars K :=
  let g1 := gradient P.arith s.yPlusGbps s.yMinusGbps s.ckAdjustPlus.1 s.ckAdjustMinus.1 s.delta.1
  let g2 := gradient P.arith s.yPlusGbps s.yMinusGbps s.ckAdjustPlus.2 s.ckAdjustMinus.2 s.delta.2
  { s with
    ghat := (g1, g2)
    theta := (projTheta (s.theta.1 + s.ak * g1), projTheta (s.theta.2 + s.ak * g2)) }

/-- The gains are scaled once half of the impeded limit is spent. -/
def tcpScale (P : Setup K) (s : TcpVars K) : TcpVars K :=
  if s.noImpCounter ≥ P.lim.noImp.tdiv 2 then
    { s with a := s.a * P.ctrl.aScale, c := s.c * P.ctrl.cScale }
  else s

variable [FloorRing K]

/-- The profile is reset and programmed for the point `pt`. The return value of
the reset is not looked at. -/
def tcpProgram (lib : IperfLib) (P : Setup K) (m : Marker) (pt : K × K) (s : TcpVars K) :
    TcpVars K :=
  let bufSize : K :=
    fTcpThetaToVal fIterativeMin fIterativeMax (s.bufSizeMin : K) (s.bufSizeMax : K) pt.1
  let streamNum : K :=
    fTcpThetaToVal fIterativeMin fIterativeMax (fStreamNumMin : K) (fStreamNumMax : K) pt.2
  let t := (fTcpProfReset lib (s.store s.prof.tcpProf) P.ctrl).1
  let t := { t with
    socketBufsize := P.arith.toInt (fRound (bufSize * 1 * (1 / 2)))
    numStreams := P.arith.toInt (fRound (streamNum * 1)) }
  { s.setY m 0 with
    bufSize := bufSize
    streamNum := streamNum
    started := s.started + 1
    store := Function.update s.store s.prof.tcpProf t }

/-- A test at the point `pt`, with everything up to the next one. -/
def tcpTest (lib : IperfLib) (P : Setup K) (m : Marker) (pt : K × K) (s : TcpVars K) :
    TcpVars K :=
  let n := s.tests.length
  let s := tcpProgram lib P m pt s
  match P.out.test n with
  | none => { s with pc := .ret (-1) }
  | some y =>
    let s := tcpRan m pt y (P.out.sent n) s
    if !P.out.composed n then { s with pc := .ret 0 }
    else if !P.out.added n then { s with pc := .ret 0 }
    else tcpCompare P m pt (tcpVisit m (tcpRecord s))

/-- The ping of an iteration, and the window it gives. -/
def tcpMeasure (P : Setup K) (s : TcpVars K) : TcpVars K :=
  let rttMs := pingRtt P.ctrl.bwBps s.rttMs (P.out.ping s.k)
  let w := bufWindow P.arith fBufMin (bufSafeguardMax P.ctrl.hostMaxBuf)
    (bdpB P.ctrl.bwBps rttMs) (s.bufSizeMin, s.bufSizeMax)
  { s with rttMs := rttMs, bufSizeMin := w.1, bufSizeMax := w.2 }

/-- The head of the loop, up to and with the test at `theta_plus`. -/
def tcpHead (lib : IperfLib) (P : Setup K) (s : TcpVars K) : TcpVars K :=
  let s := { s with flag := -1 }
  if s.profileNum ≥ P.lim.maxProf then { s with flag := 1, pc := .done }
  else
    let s := tcpScale P s
    if s.noImpCounter ≥ P.lim.noImp then { s with flag := 2, pc := .done }
    else if pgrReached s.maxPerfGbps P.ctrl.bwGbps P.lim.perfGainRatio then
      { s with flag := 3, pc := .done }
    else
      let s := tcpPerturb P (tcpMeasure P s)
      tcpTest lib P .plus s.thetaPlus s

/-- The gradient step and the test at the new point; an iteration that is not
left there restarts from the best point so far. -/
def tcpStar (lib : IperfLib) (P : Setup K) (s : TcpVars K) : TcpVars K :=
  let s := tcpClimb P s
  let s := tcpTest lib P .star s.theta s
  if s.pc = .head then { s with theta := s.maxTheta } else s

/-- One step of `f_tcp_client_run`, at most one test. -/
def tcpStep (lib : IperfLib) (P : Setup K) (s : TcpVars K) : TcpVars K :=
  match s.pc with
  | .head => tcpHead lib P s
  | .minus => tcpTest lib P .minus s.thetaMinus s
  | .star => tcpStar lib P s
  | .done => s
  | .ret _ => s

/-- The variables at the head of the first iteration. -/
def tcpStart (P : Setup K) (args : Args (FastprofTcpProf K) IperfTest) : TcpVars K where
  pc := if P.out.openLog then .head else .ret (-1)
  prof := args.prof
  profMax := args.profMax
  store := args.store
  rttMs := P.ctrl.rttMs
  history := []
  a := P.ctrl.aVal
  c := P.ctrl.cVal
  bufSizeMin := fBufMin
  bufSizeMax := bufSafeguardMax P.ctrl.hostMaxBuf
  bufSize := -1
  streamNum := -1
  theta := (fRand P.out.start.1 (P.arith.toInt (fIterativeMin : K) + 1)
      (P.arith.toInt (fIterativeMax : K) - 1),
    fRand P.out.start.2 (P.arith.toInt (fIterativeMin : K) + 1)
      (P.arith.toInt (fIterativeMax : K) - 1))
  thetaPlus := (0, 0)
  thetaMinus := (0, 0)
  delta := (1, 1)
  yPlusGbps := 0
  yMinusGbps := 0
  yStarGbps := 0
  maxTheta := (0, 0)
  maxPerfGbps := 0
  ak := 0
  ckAdjustPlus := (0, 0)
  ckAdjustMinus := (0, 0)
  ghat := (0, 0)
  k := 0
  profileNum := 0
  noImpCounter := 0
  flag := -1
  visitedList := []
  started := 0
  tests := []

/-- The variables of `f_tcp_client_run` after `n` steps. -/
def fTcpClientRun (lib : IperfLib) (P : Setup K) (args : Args (FastprofTcpProf K) IperfTest)
    (n : ℕ) : TcpVars K :=
  (tcpStep lib P)^[n] (tcpStart P args)

/-! ### The loop of `Client` -/

/-- What `f_tcp_client_run` does with its profile. -/
def tcpProfiler (lib : IperfLib) (P : Setup K) : Profiler K (FastprofTcpProf K) IperfTest where
  handle := FastprofTcpProf.tcpProf
  perfMbps := FastprofTcpProf.perfMbps
  setting t := (t.socketBufsize, t.numStreams)
  settings v := (P.arith.toInt (fRound (v.1 * 1 * (1 / 2))), P.arith.toInt (fRound (v.2 * 1)))
  value w pt :=
    (fTcpThetaToVal fIterativeMin fIterativeMax (w.1 : K) (w.2 : K) pt.1,
      fTcpThetaToVal fIterativeMin fIterativeMax (fStreamNumMin : K) (fStreamNumMax : K) pt.2)
  program v t := { (fTcpProfReset lib t P.ctrl).1 with
    socketBufsize := P.arith.toInt (fRound (v.1 * 1 * (1 / 2)))
    numStreams := P.arith.toInt (fRound (v.2 * 1)) }
  ran y n prof t := ({ prof with totalSent := n, perfMbps := y }, t)
  compose := fTcpM2mRecordCompose
  handle_ran _ _ _ _ := rfl
  perfMbps_ran _ _ _ _ := rfl
  setting_ran _ _ _ _ := rfl
  setting_program _ _ := rfl

def FastprofTcpTrace.trace {K : Type*} (t : FastprofTcpTrace K) : FastprofTrace K :=
  ⟨(t.bufSize, t.streamNum), t.marker, t.perfMbps, t.runOrNot⟩

/-- The variables as those of `Client`. -/
def TcpVars.vars {K : Type*} (s : TcpVars K) : Vars K (FastprofTcpProf K) IperfTest where
  pc := s.pc
  prof := s.prof
  profMax := s.profMax
  store := s.store
  rttMs := s.rttMs
  history := s.history
  a := s.a
  c := s.c
  bufSizeMin := s.bufSizeMin
  bufSizeMax := s.bufSizeMax
  value := (s.bufSize, s.streamNum)
  theta := s.theta
  thetaPlus := s.thetaPlus
  thetaMinus := s.thetaMinus
  delta := s.delta
  yPlusGbps := s.yPlusGbps
  yMinusGbps := s.yMinusGbps
  yStarGbps := s.yStarGbps
  maxTheta := s.maxTheta
  maxPerfGbps := s.maxPerfGbps
  ak := s.ak
  ckAdjustPlus := s.ckAdjustPlus
  ckAdjustMinus := s.ckAdjustMinus
  ghat := s.ghat
  k := s.k
  profileNum := s.profileNum
  noImpCounter := s.noImpCounter
  flag := s.flag
  visitedList := s.visitedList.map FastprofTcpTrace.trace
  started := s.started
  tests := s.tests

section Simulation

variable (lib : IperfLib) (P : Setup K) (m : Marker) (pt : K × K) (s : TcpVars K)

theorem tcpProgram_vars :
    (tcpProgram lib P m pt s).vars = s.vars.program (tcpProfiler lib P) m pt := by
  cases m <;> rfl

theorem tcpRan_vars (y : K) (n : ℤ) :
    (tcpRan m pt y n s).vars = s.vars.ran (tcpProfiler lib P) m pt y n := by
  have hstore : Function.update s.store s.prof.tcpProf (s.store s.prof.tcpProf) = s.store :=
    Function.update_eq_self _ _
  have hran : s.vars.ran (tcpProfiler lib P) m pt y n =
      { (tcpRan m pt y n s).vars with
        store := Function.update s.store s.prof.tcpProf (s.store s.prof.tcpProf) } := by
    cases m <;> rfl
  rw [hran, hstore]
  cases m <;> rfl

theorem tcpRecord_vars : (tcpRecord s).vars = s.vars.record (tcpProfiler lib P) := rfl

omit [LinearOrder K] [FloorRing K] in
theorem tcpVisit_vars : (tcpVisit m s).vars = s.vars.visit m := by
  simp only [tcpVisit, TcpVars.vars, List.map_append]
  cases m <;> rfl

omit [FloorRing K] in
theorem tcpCompare_vars : (tcpCompare P m pt s).vars = s.vars.compare P m pt := by
  have hy : s.vars.y m = s.y m := by cases m <;> rfl
  unfold tcpCompare Vars.compare
  dsimp only
  rw [hy, apply_ite TcpVars.vars, apply_ite TcpVars.vars]
  rfl

theorem tcpTest_vars :
    (tcpTest lib P m pt s).vars = s.vars.test (tcpProfiler lib P) P m pt := by
  have ht : s.vars.tests = s.tests := rfl
  rcases hy : P.out.test s.tests.length with _ | y
  · simp only [tcpTest, Vars.test, ht, hy, ← tcpProgram_vars]
    rfl
  · simp only [tcpTest, Vars.test, ht, hy, ← tcpProgram_vars, ← tcpRan_vars]
    rw [apply_ite TcpVars.vars, apply_ite TcpVars.vars, tcpCompare_vars, tcpVisit_vars,
      tcpRecord_vars lib P]
    rfl

omit [FloorRing K] in
theorem tcpScale_vars : (tcpScale P s).vars = s.vars.scale P := by
  unfold tcpScale
  rw [apply_ite TcpVars.vars]
  rfl

theorem tcpHead_vars : (tcpHead lib P s).vars = s.vars.head (tcpProfiler lib P) P := by
  have hperturb : ∀ s : TcpVars K,
      (tcpPerturb P (tcpMeasure P s)).vars = (s.vars.measure P).perturb P := fun _ => rfl
  have hflag : { s.vars with flag := -1 } = TcpVars.vars { s with flag := -1 } := rfl
  have hscale := tcpScale_vars P { s with flag := -1 }
  simp only [tcpHead, Vars.head, apply_ite TcpVars.vars, tcpTest_vars, hperturb]
  rw [hflag, ← hscale, ← hperturb]
  rfl

theorem tcpStar_vars : (tcpStar lib P s).vars = s.vars.star (tcpProfiler lib P) P := by
  have htest := tcpTest_vars lib P .star (tcpClimb P s).theta (tcpClimb P s)
  unfold tcpStar
  dsimp only
  rw [apply_ite TcpVars.vars]
  unfold Vars.star
  dsimp only
  rw [show s.vars.climb P = (tcpClimb P s).vars from rfl,
    show (tcpClimb P s).vars.theta = (tcpClimb P s).theta from rfl, ← htest]
  rfl

/-- A step of `f_tcp_client_run` is a step of the loop of `Client`. -/
theorem tcpStep_vars : (tcpStep lib P s).vars = s.vars.step (tcpProfiler lib P) P := by
  have hpc : s.vars.pc = s.pc := rfl
  unfold tcpStep Vars.step
  rw [hpc]
  cases s.pc with
  | head => exact tcpHead_vars lib P s
  | minus => exact tcpTest_vars lib P .minus s.thetaMinus s
  | star => exact tcpStar_vars lib P s
  | done => rfl
  | ret r => rfl

theorem fTcpClientRun_vars (args : Args (FastprofTcpProf K) IperfTest) (n : ℕ) :
    (fTcpClientRun lib P args n).vars = Vars.run (tcpProfiler lib P) P args n := by
  induction n with
  | zero => rfl
  | succ n ih =>
    unfold fTcpClientRun Vars.run at ih ⊢
    rw [Function.iterate_succ_apply', Function.iterate_succ_apply', tcpStep_vars, ih]

end Simulation

/-- A reset that restores the defaults of the library. -/
def plainIperf : IperfLib where
  reset _ := ⟨'c', [], 5201, 10, 0, 131072, 0, 1⟩
  defaults t := (t, 0)

/-- The same entry for every handle; the profile has handle 0. -/
def plainTcpArgs : Args (FastprofTcpProf ℚ) IperfTest where
  prof := ⟨0, 0, -1⟩
  profMax := ⟨1, 0, -1⟩
  store _ := ⟨'c', [], 5201, 10, 0, 131072, 0, 1⟩

end Fastprof
end Probdata
