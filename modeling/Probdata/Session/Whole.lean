/-
# The client as a whole

`Client` is the client's side of a session, with its history and its searches given
from outside. Here they are those of `Fastprof`: a client reads its command line,
connects, looks into the history, runs its searches one after the other on one
control block, and prints what it recommends. `World` is everything that a client
meets, `Memory` what its memory holds where nothing has been written.

`step` is one iteration of the loop of `probdata_client`; `step_iteration` says that
it is one of `Client.iteration`, with the environment that the state gives, unless the
client is killed in it: a search that has come to the end of its loop prints the profile
that its `prof_max` points to, and nothing need have been written there.
-/
import Probdata.Session.Params
import Probdata.Session.Handlers
import Probdata.Session.Connect
import Probdata.Session.Recommend
import Probdata.Fastprof.Turns

namespace Probdata
namespace Session

open Wire Bytes Text Fastprof

/-- What a client meets.

* `maxMem`, `args`: the buffers of the system, and the command line
* `special`, `arith`: what exact arithmetic leaves open
* `firstPing`: the round trip time before the client connects
* `feed`: the bytes of the server, and the outcomes of the calls on the channel
* `profiles`: the profile folder
* `lib`, `iperf`, `tpg`: what libiperf does, and the entries of new profiles
* `prepared`, `out`: whether a profile can be prepared, and what a search draws
* `record`: the record that is composed of a test

Searches are told apart by the number of searches before them, in the history or
online. -/
structure World where
  maxMem : BitVec 32
  args : List Arg
  special : Dbl → ℚ
  arith : Arith ℚ
  id : List UInt8
  id_length : id.length = pIdpktSize
  firstPing : ℚ
  feed : Feed
  profiles : Profiles
  lib : IperfLib
  iperf : ℕ → IperfTest
  tpg : ℕ → TpgProfile ℚ
  prepared : Kind → ℕ → Bool
  out : Kind → ℕ → Outcomes ℚ
  record : Prob → HistoryLine ℚ → MemRecord

/-- What memory holds that nothing has been written to: fields of `struct probdata`,
of the control block, of a `prof_max` and of a record, the variable of
`probdata_unit_atof`, the throughput in a new UDT profile, and what stands behind
`db_file_handler` if that is no null pointer, or behind a handle. The handle in a
`prof_max` is `wild` if reading behind it kills the process. -/
structure Memory where
  status : Status
  controlHostMaxBuf : BitVec 32
  controlLocalIp : List UInt8
  var : ℕ → ℚ
  dbFile : Option (ℕ → List Char)
  recordMax : MemRecord
  tcpMax : FastprofTcpProf ℚ
  tcpStore : ℕ → IperfTest
  udtMax : FastprofUdtProf ℚ
  udtStore : ℕ → TpgProfile ℚ
  udtPerf : ℕ → ℚ
  wild : Kind → Bool

/-- What can be seen of a client: its calls on the channel and its acts, the ping
before it connects, the file of the history that it opens, the turns of its searches
with the file that their records go to, and the blocks that it prints. -/
inductive Event
  | op (o : Op Item Act)
  | ping
  | opens (filename : List Char)
  | turn (k : Kind) (filename : List Char) (t : Turn)
  | prints (blocks : List Recommendation)

/-- A client, with what it has done so far. `written` says which `prof_max` a search has
written. -/
structure Whole where
  ret : Option ℤ
  prob : Prob
  params : Params
  rttMs : ℚ
  calls : ℕ
  dbFile : Option (ℕ → List Char)
  recordMax : MemRecord
  tcpMax : FastprofTcpProf ℚ
  tcpStore : ℕ → IperfTest
  udtMax : FastprofUdtProf ℚ
  udtStore : ℕ → TpgProfile ℚ
  udtPerf : ℕ → ℚ
  wild : Kind → Bool
  written : Kind → Bool
  profiles : Profiles
  feed : Feed
  log : List Event

/-- A C string as text. -/
def chars (a : List UInt8) : List Char := (cstr a).map fun b => Char.ofNat b.toNat

/-- The files after a search that has composed some record, and added the records
`rs`: one that could not be added has still made the folder. -/
def addRecords (composed : Bool) (localIp remoteIp : List Char) (rs : List MemRecord)
    (d : Profiles) : Profiles :=
  if composed then rs.foldl (fun d r => (addRecord d localIp remoteIp r).2) d.makeFolder else d

namespace Whole

variable (W : World) (x : Whole)

/-- `f_m2m_db_search` in `probdata_client_search_m2m` -/
def lookup : ℤ × MemRecord × Profiles :=
  fM2mDbSearch x.profiles (x.dbFile.map fun f => f x.calls) (chars x.prob.controlLocalIp)
    (chars x.prob.remoteIp) x.recordMax

/-- What a search of the kind `k` is given. -/
def setup (k : Kind) : Setup ℚ where
  arith := W.arith
  ctrl := controlBlock (profInit x.prob) x.params x.rttMs
  out := { W.out k x.calls with
    added := fun _ => (x.profiles.makeFolder.fopen (historyFile (profInit x.prob))).isSome }

/-- `f_tcp_client_run` in `probdata_client_tcp_fastprof_run`, after `n` steps. -/
def tcpRun (n : ℕ) : TcpVars ℚ :=
  fTcpClientRun W.lib (x.setup W .tcp)
    { prof := ⟨x.calls, 0, -1⟩
      profMax := x.tcpMax
      store := Function.update x.tcpStore x.calls
        (fTcpProfInit (W.iperf x.calls) (x.setup W .tcp).ctrl) } n

/-- `f_udt_client_run` in `probdata_client_udt_fastprof_run`, after `n` steps. -/
def udtRun (n : ℕ) : UdtVars ℚ :=
  fUdtClientRun (x.setup W .udt)
    { prof := ⟨x.calls, x.udtPerf x.calls⟩
      profMax := x.udtMax
      store := Function.update x.udtStore x.calls (W.tpg x.calls) } n

/-- The value that a search returns. -/
def returned : Kind → ℤ
  | .tcp => (x.tcpRun W (Search.steps (x.setup W .tcp))).vars.returned
  | .udt => (x.udtRun W (Search.steps (x.setup W .udt))).vars.returned

/-- Where a search of the kind `k` ends. -/
def endPc : Kind → Pc
  | .tcp => (x.tcpRun W (Search.steps (x.setup W .tcp))).pc
  | .udt => (x.udtRun W (Search.steps (x.setup W .udt))).pc

/-- Some test of a search of the kind `k` is better than none: its `prof_max` is written. -/
def improves : Kind → Bool
  | .tcp => (x.tcpRun W (Search.steps (x.setup W .tcp))).vars.compared.any fun y => 0 < y
  | .udt => (x.udtRun W (Search.steps (x.setup W .udt))).vars.compared.any fun y => 0 < y

/-- What the client meets in its next handler. -/
def env : ClientEnv where
  id := W.id
  id_length := W.id_length
  found := 0 ≤ x.lookup.1
  online := true
  run k := if W.prepared k x.calls then some (0 ≤ x.returned W k) else none

/-- The turns of the search of the kind `k`. -/
def turns : Kind → List Turn
  | .tcp => Search.turns (x.setup W .tcp) fun n => (x.tcpRun W n).vars.search
  | .udt => Search.turns (x.setup W .udt) fun n => (x.udtRun W n).vars.search

/-- What an operation of a handler shows. -/
def events (o : Op Item Act) : List Event :=
  match o with
  | .act (.proc .runM2mDb) =>
    .op o :: if x.profiles.folder = true ∧ x.dbFile.isNone = true then [.opens (historyFile x.prob)] else []
  | .act (.search k) => .op o :: (x.turns W k).map (.turn k (historyFile (profInit x.prob)))
  | _ => [.op o]

/-- The files after a search with the setup `P` that made `n` tests. -/
def recorded (P : Setup ℚ) (n : ℕ) (history : List (HistoryLine ℚ)) : Profiles :=
  addRecords ((List.range n).any P.out.composed) (chars (profInit x.prob).controlLocalIp)
    (chars x.prob.remoteIp) (history.map (W.record x.prob)) x.profiles

/-- What a search of the kind `k` leaves. -/
def searched (k : Kind) : Whole :=
  match k with
  | .tcp =>
    let t := x.tcpRun W (Search.steps (x.setup W .tcp))
    { x with
      tcpMax := t.profMax
      tcpStore := t.store
      written := Function.update x.written .tcp (x.written .tcp || x.improves W .tcp)
      rttMs := t.rttMs
      profiles := x.recorded W (x.setup W .tcp) t.tests.length t.history
      calls := x.calls + 1 }
  | .udt =>
    let u := x.udtRun W (Search.steps (x.setup W .udt))
    { x with
      udtMax := u.profMax
      udtStore := u.store
      written := Function.update x.written .udt (x.written .udt || x.improves W .udt)
      rttMs := u.rttMs
      profiles := x.recorded W (x.setup W .udt) u.tests.length u.history
      calls := x.calls + 1 }

/-- What the search leaves that the client's status asks for. -/
def answered : Whole :=
  match x.prob.status with
  | .runM2mDb =>
    { x with recordMax := x.lookup.2.1, profiles := x.lookup.2.2, calls := x.calls + 1 }
  | .runM2mTcp => if W.prepared .tcp x.calls then x.searched W .tcp else x
  | .runM2mUdt => if W.prepared .udt x.calls then x.searched W .udt else x
  | _ => x

/-- The kind of search that the client's status asks for, if it can be prepared. -/
def asked : Option Kind :=
  match x.prob.status with
  | .runM2mTcp => if W.prepared .tcp x.calls then some .tcp else none
  | .runM2mUdt => if W.prepared .udt x.calls then some .udt else none
  | _ => none

/-- The lines behind the loop of a search read a `prof_max` that was never written. -/
def strays (k : Kind) : Bool :=
  x.endPc W k = .done ∧ x.written k = false ∧ x.improves W k = false

/-- The search in which the client is killed, if it is. -/
def killed : Option Kind := (x.asked W).filter fun k => x.strays W k && x.wild k

/-- Whether its handler initialises a profile. -/
def prepares : Bool :=
  match x.prob.status with
  | .runM2mTcp => W.prepared .tcp x.calls
  | .runM2mUdt => W.prepared .udt x.calls
  | _ => false

/-- What the handler of the client's status does. -/
def handled : Played Item Act (ℤ × Prob) :=
  (Client.procCtrlPacket (x.env W) ⟨0, 0⟩ x.prob).play x.feed

/-- `probdata_client_proc_ctrl_packet` -/
def process : Whole :=
  match x.killed W with
  | some k =>
    { x.answered W with
      ret := some sigsegv
      log := x.log ++ [.act (.proc k.asks), .act (.search k)].flatMap (x.events W) }
  | none =>
    let r := x.handled W
    { x.answered W with
      prob := if x.prepares W then profInit r.result.2 else r.result.2
      feed := r.feed
      ret := if r.result.1 < 0 then some (-1) else none
      log := x.log ++ r.ops.flatMap (x.events W) }

/-- What `probdata_client_poll_ctrl_channel` does. -/
def polled : Played Item Act (ℤ × Prob) := (Client.pollCtrlChannel x.prob).play x.feed

/-- The client after it. -/
def poll : Whole :=
  { x with
    prob := x.polled.result.2
    feed := x.polled.feed
    log := x.log ++ x.polled.ops.map .op }

/-- The blocks that are printed after the loop. -/
def blocks : List Recommendation :=
  recommendations (chars x.prob.controlLocalIp) (chars x.prob.remoteIp)
    (tcpStart (x.setup W .tcp) ⟨⟨0, 0, -1⟩, x.tcpMax, x.tcpStore⟩)
    (udtStart (x.setup W .udt) ⟨⟨0, -1⟩, x.udtMax, x.udtStore⟩) x.recordMax

/-- One of them is that of a profile behind a handle that is wild. -/
def blocksStray : Bool :=
  (x.blocks W).any fun b =>
    match b with
    | .tcp .. => !x.written .tcp && x.wild .tcp
    | .udt .. => !x.written .udt && x.wild .udt
    | .record _ => false

/-- An iteration of the loop of `probdata_client`, and what follows the loop. -/
def step : Whole :=
  if x.ret.isSome then x
  else if x.prob.status ≠ .programDone then
    if x.polled.result.1 < 0 then { x.poll with ret := some (-1) }
    else if x.polled.result.1 = 0 then x.poll
    else x.poll.process W
  else if x.blocksStray W then { x with ret := some sigsegv }
  else { x with ret := some 0, log := x.log ++ [.prints (x.blocks W)] }

end Whole

namespace World

variable (W : World) (m : Memory)

/-- What the client is configured to be, if it is a client. -/
def configured : Option Prob :=
  (configure W.maxMem (W.args.map Arg.toOpt)
    (newAndDefault m.status m.controlHostMaxBuf m.controlLocalIp)).filter fun p => p.role = .client

/-- `probdata_client`, up to its loop, where `p` is configured. -/
def started (p : Prob) : Whole :=
  let q := setParams W.special m.var W.args Params.default
  let env : ClientEnv := ⟨W.id, W.id_length, false, true, fun _ => none⟩
  let r := (Client.start env p).play W.feed
  { ret := r.result.ret
    prob := r.result.prob
    params := q
    rttMs := if q.rttMs < 0 ∧ 0 ≤ W.firstPing then W.firstPing else q.rttMs
    calls := 0
    dbFile := m.dbFile
    recordMax := m.recordMax
    tcpMax := m.tcpMax
    tcpStore := m.tcpStore
    udtMax := m.udtMax
    udtStore := m.udtStore
    udtPerf := m.udtPerf
    wild := m.wild
    written := fun _ => false
    profiles := W.profiles
    feed := r.feed
    log := (if q.rttMs < 0 then [.ping] else []) ++ r.ops.map .op }

/-- The client after `n` iterations, if the command line is one of a client. -/
def run (n : ℕ) : Option Whole :=
  (W.configured m).map fun p => (Whole.step W)^[n] (W.started m p)

/-- What can be seen of it. -/
def seen (n : ℕ) : Option (Option ℤ × List Event) := (W.run m n).map fun x => (x.ret, x.log)

end World

/-! ### An iteration is one of the client of a session -/

/-- An iteration, played: the poll, and the handler if a packet has come. -/
theorem play_iteration (env : ClientEnv) (data : Ctrlmsg) {p : Prob} (hp : p.status ≠ .programDone)
    (f : Feed) : (Client.iteration env data p).play f =
      let r := (Client.pollCtrlChannel p).play f
      let r' := (Client.procCtrlPacket env data r.result.2).play r.feed
      if r.result.1 < 0 then ⟨r.ops, r.feed, ⟨some (-1), r.result.2⟩⟩
      else if r.result.1 = 0 then ⟨r.ops, r.feed, ⟨none, r.result.2⟩⟩
      else ⟨r.ops ++ r'.ops, r'.feed, ⟨if r'.result.1 < 0 then some (-1) else none, r'.result.2⟩⟩ := by
  unfold Client.iteration
  rw [if_pos hp]
  refine (Prog.play_bind _ _ f).trans ?_
  dsimp only
  by_cases h1 : ((Client.pollCtrlChannel p).play f).result.1 < 0
  · rw [if_pos h1, if_pos h1]
    simp [Prog.play, Played.after]
  rw [if_neg h1, if_neg h1]
  by_cases h2 : ((Client.pollCtrlChannel p).play f).result.1 = 0
  · rw [if_pos h2, if_pos h2]
    simp [Prog.play, Played.after]
  rw [if_neg h2, if_neg h2]
  refine (congrArg _ (Prog.play_bind _ _ _)).trans ?_
  simp [Prog.play, Played.after]

namespace Whole

variable (W : World)

theorem process_told {x : Whole} (h : x.killed W = none) :
    (x.process W).prob.told = (x.handled W).result.2.told := by
  unfold process
  rw [h]
  dsimp only
  split <;> rfl

theorem process_ret {x : Whole} (h : x.killed W = none) :
    (x.process W).ret = if (x.handled W).result.1 < 0 then some (-1) else none := by
  unfold process
  rw [h]

/-- What a handler leaves, but for the state of the session. -/
theorem exists_process (x : Whole) : ∃ p f r l,
    x.process W = { x.answered W with prob := p, feed := f, ret := r, log := l } := by
  unfold process
  split <;> exact ⟨_, _, _, _, rfl⟩

/-- Each step in the loop that the client survives is an iteration of `Client`, in the
environment that the state gives; the state differs in the address of the control block
at most. -/
theorem step_iteration {x : Whole} (hx : x.ret = none) (hst : x.prob.status ≠ .programDone)
    (hk : x.poll.killed W = none) :
    ∃ ops fs y, Exec (Client.iteration (x.poll.env W) ⟨0, 0⟩ x.prob) ops fs y ∧
      (x.step W).ret = y.ret ∧ (x.step W).prob.told = y.prob.told := by
  obtain ⟨fs, hexec⟩ := exec_play (Client.iteration (x.poll.env W) ⟨0, 0⟩ x.prob) x.feed
  refine ⟨_, fs, _, hexec, ?_⟩
  have hplay := play_iteration (x.poll.env W) ⟨0, 0⟩ hst x.feed
  dsimp only at hplay
  have hstep : x.step W = if x.polled.result.1 < 0 then { x.poll with ret := some (-1) }
      else if x.polled.result.1 = 0 then x.poll else x.poll.process W := by
    unfold step
    rw [if_neg (by simp [hx]), if_pos hst]
  rw [hstep, hplay]
  unfold polled
  split
  · exact ⟨rfl, rfl⟩
  split
  · exact ⟨hx, rfl⟩
  · exact ⟨process_ret W hk, process_told W hk⟩

end Whole

end Session
end Probdata
