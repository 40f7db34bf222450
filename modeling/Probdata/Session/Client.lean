/-
# The client of a session, `probdata_client.cpp`

`probdata_client` from its connecting on: the loop over the control packets and
the handlers. What the client finds outside the channel, its history and how its
searches end, is given by a `ClientEnv`.
-/
import Mathlib.Algebra.Group.Nat.Defs
import Probdata.Session.Server

namespace Probdata
namespace Session

open Wire Bytes

/-- What a client meets.

* `id`: the id it makes up
* `found`: `f_m2m_db_search` finds a record
* `online`: the answer to the question whether to profile online
* `run`: what becomes of a search: none if its profile cannot be prepared, else
  whether it returns 0 -/
structure ClientEnv where
  id : List UInt8
  id_length : id.length = pIdpktSize
  found : Bool
  online : Bool
  run : Kind → Option Bool

/-- An id of zeros. -/
theorem length_zeroId : (List.replicate pIdpktSize (0 : UInt8)).length = pIdpktSize :=
  List.length_replicate

namespace Client

/-- `probdata_client_connect`, with the connection established. An address that does not
fit makes the list longer, where the source writes on behind `local_ip`. -/
def connect (env : ClientEnv) (p : Prob) : Prog Item Act (ℤ × Prob) := do
  let p := { p with id := env.id }
  let ret ← sendNbytes .id p.id
  if ret < 0 then return (-1, p)
  else
    let (ret, bs) ← recvNbytes .len 4
    if ret < 0 then return (-1, p)
    else
      let len := ofLe32 (overlay bs (le32 0))
      let (ret, bs) ← recvNbytes .addr len.toInt
      let p := { p with localIp := overlay bs p.localIp }
      if ret < 0 then return (-1, p)
      else return (0, { p with controlLocalIp := overlay (cstr p.localIp) p.controlLocalIp })

/-- `probdata_client_poll_ctrl_channel` -/
def pollCtrlChannel (p : Prob) : Prog Item Act (ℤ × Prob) := do
  let (ret, bs) ← recvNbytes .status 1
  match bs with
  | [] => return (-1, p)
  | b :: _ => return if ret ≤ 0 then (-1, p) else (ret, { p with status := Status.ofCode b })

/-- `probdata_client_search_d2d`, which finds nothing yet. -/
def searchD2d : ℤ := -1

/-- `probdata_client_search_m2m` -/
def searchM2m (env : ClientEnv) : ℤ := if env.found then 0 else -1

/-- `probdata_client_tcp_fastprof_run` and `probdata_client_udt_fastprof_run` -/
def fastprofRun (env : ClientEnv) (k : Kind) : Prog Item Act ℤ :=
  match env.run k with
  | none => return -1
  | some ok => do
    .perform (.search k)
    return if ok then 0 else -1

/-- `PROBDATA_DEBUG` is defined: the client goes on without an answer. -/
def probdataDebug : Bool := true

/-- `probdata_client_proc_ctrl_packet` -/
def procCtrlPacket (env : ClientEnv) (data : Ctrlmsg) (p : Prob) : Prog Item Act (ℤ × Prob) := do
  .perform (.proc p.status)
  match p.status with
  | .ctrlChanEst => return (← sendCtrlPacket .twowayHandshake, p)
  | .twowayHandshake =>
    let (ret, p) ← ctrlmsgExchange data p
    if ret < 0 then return (-1, p)
    else if cstr p.srcFile ≠ [] then return (← sendCtrlPacket .runD2dDb, p)
    else if cstr p.dstFile ≠ [] then
      let _ ← sendCtrlPacket .clientTerminate
      return (-1, p)
    else return (← sendCtrlPacket .runM2mDb, p)
  | .runD2dDb =>
    if searchD2d < 0 then return (← sendCtrlPacket .runD2dTcp, p)
    else if env.online then
      if p.udtOnly then return (← sendCtrlPacket .runD2dUdt, p)
      else return (← sendCtrlPacket .runD2dTcp, p)
    else return (← sendCtrlPacket .programDone, p)
  | .runD2dTcp => return (← sendCtrlPacket .runD2dUdt, p)
  | .runD2dUdt => return (← sendCtrlPacket .programDone, p)
  | .runM2mDb =>
    if searchM2m env < 0 then return (← sendCtrlPacket .runM2mTcp, p)
    else if probdataDebug || env.online then
      if p.udtOnly then return (← sendCtrlPacket .runM2mUdt, p)
      else return (← sendCtrlPacket .runM2mTcp, p)
    else return (← sendCtrlPacket .programDone, p)
  | .runM2mTcp =>
    let ret ← fastprofRun env .tcp
    if ret < 0 then return (-1, p) else return (← sendCtrlPacket .runM2mUdt, p)
  | .runM2mUdt =>
    let ret ← fastprofRun env .udt
    if ret < 0 then return (-1, p) else return (← sendCtrlPacket .programDone, p)
  | .programDone => return (0, p)
  | .serverError => return (0, p)
  | .accessDenied => return (0, p)
  | _ => return (-1, p)

/-- An iteration of the loop of `probdata_client`, and what follows the loop. -/
def iteration (env : ClientEnv) (data : Ctrlmsg) (p : Prob) : Prog Item Act Side :=
  if p.status ≠ .programDone then do
    let (ret, p) ← pollCtrlChannel p
    if ret < 0 then return ⟨some (-1), p⟩
    else if ret = 0 then return ⟨none, p⟩
    else
      let (ret, p) ← procCtrlPacket env data p
      return ⟨if ret < 0 then some (-1) else none, p⟩
  else return ⟨some 0, p⟩

def next (env : ClientEnv) (data : Ctrlmsg) (x : Side) : Option (Prog Item Act Side) :=
  match x.ret with
  | some _ => none
  | none => some (iteration env data x.prob)

/-- `probdata_client`, up to its loop. -/
def start (env : ClientEnv) (p : Prob) : Prog Item Act Side := do
  let (ret, p) ← connect env p
  if ret < 0 then return ⟨some (-1), p⟩ else return ⟨none, { p with status := .programStart }⟩

/-! ### Without failures -/

/-- The packet that the client sends in answer to a status. -/
def sends (env : ClientEnv) (p : Prob) : Option Status :=
  match p.status with
  | .ctrlChanEst => some .twowayHandshake
  | .twowayHandshake =>
    if cstr p.srcFile ≠ [] then some .runD2dDb
    else if cstr p.dstFile ≠ [] then some .clientTerminate
    else some .runM2mDb
  | .runD2dDb => some .runD2dTcp
  | .runD2dTcp => some .runD2dUdt
  | .runD2dUdt => some .programDone
  | .runM2mDb => if env.found && p.udtOnly then some .runM2mUdt else some .runM2mTcp
  | .runM2mTcp => if env.run .tcp = some true then some .runM2mUdt else none
  | .runM2mUdt => if env.run .udt = some true then some .programDone else none
  | _ => none

/-- The client goes on after a status. -/
def goesOn (env : ClientEnv) (p : Prob) : Bool :=
  match p.status with
  | .twowayHandshake => cstr p.srcFile ≠ [] ∨ cstr p.dstFile = []
  | .runM2mTcp => env.run .tcp = some true
  | .runM2mUdt => env.run .udt = some true
  | .ctrlChanEst | .runD2dDb | .runD2dTcp | .runD2dUdt | .runM2mDb => true
  | .programDone | .serverError | .accessDenied => true
  | _ => false

def searches (env : ClientEnv) (k : Kind) : List Act :=
  if env.run k = none then [] else [.search k]

/-- What the client does with a status before it answers it, the server's
parameters being `m`. -/
def handles (env : ClientEnv) (p : Prob) (m : Ctrlmsg) : List (Op Item Act) :=
  match p.status with
  | .twowayHandshake => outs .ctrlmsg p.offer.bytes ++ inns .ctrlmsg m.bytes
  | .runM2mTcp => acting (searches env .tcp)
  | .runM2mUdt => acting (searches env .udt)
  | _ => []

def answers (st : Option Status) : List (Op Item Act) :=
  match st with
  | none => []
  | some st => outs .status [st.code]

/-- The client's state after a status. -/
def after (p : Prob) (m : Ctrlmsg) : Prob :=
  match p.status with
  | .twowayHandshake => p.agree m
  | _ => p

theorem does_answer (st : Status) (p : Prob) :
    Does (do return (← sendCtrlPacket st, p)) (answers (some st)) ((0 : ℤ), p) :=
  (does_sendCtrlPacket st).bind_ret rfl

/-- The end of a handler that runs a search. -/
theorem does_search (env : ClientEnv) (k : Kind) (st : Status) (p : Prob) :
    Does (do
        let ret ← fastprofRun env k
        if ret < 0 then return (-1, p) else return (← sendCtrlPacket st, p))
      (acting (searches env k) ++ answers (if env.run k = some true then some st else none))
      (if env.run k = some true then 0 else -1, p) := by
  unfold fastprofRun searches
  rcases env.run k with _ | ok
  · exact .ret _
  · cases ok
    · exact .act (.ret _)
    · exact .act (does_answer st p)

theorem does_procCtrlPacket (env : ClientEnv) (data : Ctrlmsg) {p : Prob}
    (hp : p.role = .client) (m : Ctrlmsg) :
    Does (procCtrlPacket env data p)
      (.act (.proc p.status) :: (handles env p m ++ answers (sends env p)))
      (if goesOn env p then 0 else -1, after p m) := by
  unfold procCtrlPacket handles sends goesOn after
  cases p.status with
  | ctrlChanEst => exact .act (does_answer _ _)
  | twowayHandshake =>
    have hx := does_ctrlmsgExchangeCli p m
    rw [show ctrlmsgExchangeCli p = ctrlmsgExchange data p by rw [ctrlmsgExchange, hp]] at hx
    refine .act (hx.bind ?_)
    dsimp only
    rw [if_neg (by omega), show (p.agree m).srcFile = p.srcFile from rfl,
      show (p.agree m).dstFile = p.dstFile from rfl]
    by_cases hsrc : cstr p.srcFile = []
    · by_cases hdst : cstr p.dstFile = []
      · simp only [hsrc, hdst, ne_eq, not_true_eq_false, if_false, or_true, decide_true, if_true]
        exact does_answer _ _
      · simp only [hsrc, hdst, ne_eq, not_true_eq_false, not_false_eq_true, if_false, if_true,
          or_self, decide_false, Bool.false_eq_true]
        exact (does_sendCtrlPacket _).bind_ret rfl
    · simp only [hsrc, ne_eq, not_false_eq_true, if_true, true_or, decide_true]
      exact does_answer _ _
  | runD2dDb => exact .act (does_answer _ _)
  | runD2dTcp => exact .act (does_answer _ _)
  | runD2dUdt => exact .act (does_answer _ _)
  | runM2mDb =>
    refine .act ?_
    unfold searchM2m
    cases env.found with
    | false => exact does_answer _ _
    | true => cases p.udtOnly <;> exact does_answer _ _
  | runM2mTcp => exact .act (by simpa using does_search env .tcp .runM2mUdt p)
  | runM2mUdt => exact .act (by simpa using does_search env .udt .programDone p)
  | programDone => exact .act (.ret _)
  | serverError => exact .act (.ret _)
  | accessDenied => exact .act (.ret _)
  | programStart => exact .act (.ret _)
  | clientTerminate => exact .act (.ret _)
  | other b => exact .act (.ret _)

theorem does_pollCtrlChannel (p : Prob) (b : UInt8) :
    Does (pollCtrlChannel p) (inns .status [b]) (1, { p with status := Status.ofCode b }) :=
  (does_recvNbytes .status [b]).bind_ret rfl

/-- What the client does with the status `st`, once it is the client's. -/
def takes (env : ClientEnv) (p : Prob) (st : Status) (m : Ctrlmsg) : List (Op Item Act) :=
  .inn .status st.code :: .act (.proc st) ::
    (handles env { p with status := st } m ++ answers (sends env { p with status := st }))

/-- The client's state after the status `st`. -/
def taken (p : Prob) (st : Status) (m : Ctrlmsg) : Prob := after { p with status := st } m

variable {env : ClientEnv} {data : Ctrlmsg} {p : Prob} {st : Status} {waits : Bool}
  {s : List (Op Item Act)}

theorem does_iteration (env : ClientEnv) (data : Ctrlmsg) (hp : p.role = .client)
    (hdone : p.status ≠ .programDone) (hst : Status.ofCode st.code = st) (m : Ctrlmsg) :
    Does (iteration env data p) (takes env p st m)
      ⟨if goesOn env { p with status := st } then none else some (-1), taken p st m⟩ := by
  set q : Prob := { p with status := st }
  have hq : q.role = .client := hp
  have hpoll : Does (pollCtrlChannel p) (inns .status [st.code]) (1, q) := by
    have h := does_pollCtrlChannel p st.code
    rwa [hst] at h
  have hproc := does_procCtrlPacket env data hq m
  unfold iteration
  rw [if_pos hdone]
  refine hpoll.bind ?_
  dsimp only
  rw [if_neg (by omega), if_neg (by omega)]
  refine hproc.bind_ret ?_
  cases goesOn env q <;> rfl

theorem runs_takes (hp : p.role = .client) (hdone : p.status ≠ .programDone)
    (hst : Status.ofCode st.code = st) (hgo : goesOn env { p with status := st } = true)
    (m : Ctrlmsg) (h : Runs (next env data) waits (.ret ⟨none, taken p st m⟩) s) :
    Runs (next env data) waits (.ret ⟨none, p⟩) (takes env p st m ++ s) := by
  have hit := does_iteration env data hp hdone hst m
  rw [if_pos hgo] at hit
  exact Does.runs_loop rfl hit h

/-- A client that does not go on leaves its loop. -/
theorem runs_quits (hp : p.role = .client) (hdone : p.status ≠ .programDone)
    (hst : Status.ofCode st.code = st) (hgo : goesOn env { p with status := st } = false)
    (m : Ctrlmsg) : Runs (next env data) false (.ret ⟨none, p⟩) (takes env p st m) := by
  have hit := does_iteration env data hp hdone hst m
  rw [if_neg (by simp [hgo])] at hit
  exact Does.runs_last rfl hit rfl

theorem runs_done (hdone : p.status = .programDone) :
    Runs (next env data) false (.ret ⟨none, p⟩) [] := by
  refine .loop rfl ?_
  unfold iteration
  rw [if_neg (by simp [hdone])]
  exact .fin rfl rfl

/-! ### The beginning -/

/-- The client once it has been told its address. -/
def opened (env : ClientEnv) (ip : List UInt8) (p : Prob) : Prob :=
  { p with
    id := env.id
    localIp := overlay ip p.localIp
    controlLocalIp := overlay (cstr (overlay ip p.localIp)) p.controlLocalIp
    status := .programStart }

def opens (env : ClientEnv) (ip : List UInt8) : List (Op Item Act) :=
  outs .id env.id ++ (inns .len (le32 (BitVec.ofNat 32 ip.length)) ++ inns .addr ip)

/-- The client is told an address of `ip.length` bytes. -/
theorem does_connect (env : ClientEnv) (p : Prob) {ip : List UInt8} (hip : ip.length < 2 ^ 31) :
    Does (connect env p) (opens env ip) (0, { opened env ip p with status := p.status }) := by
  have hlen : (ofLe32 (overlay (le32 (BitVec.ofNat 32 ip.length)) (le32 0))).toInt = ip.length := by
    rw [overlay_of_length_le (by simp), ofLe32_le32, BitVec.toInt_ofNat', Int.bmod_eq_of_le] <;>
      omega
  refine (does_sendNbytes .id env.id).bind ?_
  rw [if_neg (by omega)]
  refine (does_recvNbytes .len (le32 (BitVec.ofNat 32 ip.length))).bind ?_
  dsimp only
  rw [if_neg (by omega), hlen]
  exact (does_recvNbytes .addr ip).bind_ret rfl

theorem does_start (env : ClientEnv) (p : Prob) {ip : List UInt8} (hip : ip.length ≤ 15) :
    Does (start env p) (opens env ip) ⟨none, opened env ip p⟩ :=
  (does_connect env p (by omega)).bind_ret rfl

end Client

end Session
end Probdata
