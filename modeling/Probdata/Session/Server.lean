/-
# The server of a session, `probdata_server.cpp`

`probdata_server` once it has accepted a client: the loop over the control
packets, the handlers, and the cleaning up. `select` with a zero timeout is
polled until something can be read, which here is the `read` itself. A join
returns. The process is killed where it stops a TCP worker that it has no handle
of.
-/
import Probdata.Lib.Wire.Lockstep
import Probdata.Session.Exchange

namespace Probdata
namespace Session

open Wire Bytes

/-- A side of a session: the value its main function has returned, or its process was
killed with, if any. -/
structure Side where
  ret : Option ℤ
  prob : Prob

/-- What a server meets: the client's address, what the memory of the local struct
of the exchange holds, and for each worker that it would start, by the name of the
thread, whether it can create the thread, if it can prepare the profile. -/
structure ServerEnv where
  addr : UInt8 × UInt8 × UInt8 × UInt8
  data : Ctrlmsg
  run : ℕ → Option Bool

/-- `inet_ntoa` -/
def inetNtoa (a : UInt8 × UInt8 × UInt8 × UInt8) : List UInt8 :=
  let dec (b : UInt8) := (Nat.toDigits 10 b.toNat).map fun c => c.toNat.toUInt8
  dec a.1 ++ 46 :: dec a.2.1 ++ 46 :: dec a.2.2.1 ++ 46 :: dec a.2.2.2

theorem inetNtoa_length_le (a : UInt8 × UInt8 × UInt8 × UInt8) : (inetNtoa a).length ≤ 15 := by
  have hdec : ∀ b : UInt8, (Nat.toDigits 10 b.toNat).length ≤ 3 := by
    intro b
    have h : ∀ n < 256, (Nat.toDigits 10 n).length ≤ 3 := by decide +kernel
    exact h b.toNat b.toNat_lt
  have h1 := hdec a.1
  have h2 := hdec a.2.1
  have h3 := hdec a.2.2.1
  have h4 := hdec a.2.2.2
  simp only [inetNtoa, List.length_append, List.length_cons, List.length_map]
  omega

namespace Server

/-- `probdata_server_accept`, with no client before. -/
def accept (env : ServerEnv) (p : Prob) : Prog Item Act (ℤ × Prob) := do
  let (ret, bs) ← recvNbytes .id pIdpktSize
  let p := { p with id := overlay bs p.id }
  if ret < 0 then return (-1, p)
  else
    let ip := inetNtoa env.addr
    let ret ← sendNbytes .len (le32 (BitVec.ofNat 32 ip.length))
    if ret < 0 then return (-1, p)
    else
      let ret ← sendNbytes .addr ip
      if ret < 0 then return (-1, p) else return (0, p)

/-- `probdata_server_poll_ctrl_channel` -/
def pollCtrlChannel (p : Prob) : Prog Item Act (ℤ × Prob) := do
  let (ret, bs) ← recvNbytes .status 1
  match bs with
  | [] => return (-1, p)
  | b :: _ => return if ret ≤ 0 then (-1, p) else (1, { p with status := Status.ofCode b })

/-- The handle of a worker. -/
def worker (k : Kind) (p : Prob) : Option ℕ :=
  match k with
  | .tcp => p.tcpWorker
  | .udt => p.udtWorker

/-- A worker is created, and its handle overwritten. -/
def created (k : Kind) (p : Prob) : Prob :=
  match k with
  | .tcp => { p with tcpWorker := some p.threads, threads := p.threads + 1 }
  | .udt => { p with udtWorker := some p.threads, threads := p.threads + 1 }

/-- `probdata_server_tcp_fastprof_run` and `probdata_server_udt_fastprof_run` -/
def fastprofRun (env : ServerEnv) (k : Kind) (p : Prob) : Prog Item Act (ℤ × Prob) :=
  match env.run p.threads with
  | none => return (-1, p)
  | some ok => do
    .perform (.profile k)
    if ok then
      .perform (.create k p.threads)
      return (0, created k p)
    else
      -- the new handle has no thread, but the old one is gone
      .perform (.forget k (worker k p))
      return (-1, p)

/-- The TCP worker is stopped, if not UDT alone was asked for. The process does not
live on if `*(prob->prob_tcp_worker)` has nothing to read. -/
def stopTcp (p : Prob) : Prog Item Act Bool :=
  if p.udtOnly then return true
  else do
    .perform (.cancel .tcp p.tcpWorker)
    if p.tcpWorker = none then return false
    else
      .perform (.join .tcp p.tcpWorker)
      return true

/-- A worker that has a handle is joined, and the join returns. -/
def joinWorker (k : Kind) (p : Prob) : Prog Item Act Unit :=
  if worker k p ≠ none then .perform (.join k (worker k p)) else return ()

/-- `probdata_server_proc_ctrl_packet`, which returns nothing if the process is
killed in it. -/
def procCtrlPacket (env : ServerEnv) (p : Prob) : Prog Item Act (Option ℤ × Prob) := do
  .perform (.proc p.status)
  match p.status with
  | .twowayHandshake =>
    let ret ← sendCtrlPacket .twowayHandshake
    if ret < 0 then return (some (-1), p)
    else
      let (ret, p) ← ctrlmsgExchange env.data p
      return (some (if ret < 0 then -1 else 0), p)
  | .runD2dDb => return (some (← sendCtrlPacket .runD2dDb), p)
  | .runD2dTcp => return (some (← sendCtrlPacket .runD2dTcp), p)
  | .runD2dUdt => return (some (← sendCtrlPacket .runD2dUdt), p)
  | .runM2mDb => return (some (← sendCtrlPacket .runM2mDb), p)
  | .runM2mTcp =>
    let (ret, p) ← fastprofRun env .tcp p
    if ret < 0 then return (some (-1), p)
    else return (some (← sendCtrlPacket .runM2mTcp), p)
  | .runM2mUdt =>
    let lives ← stopTcp p
    if lives then
      let ret ← sendCtrlPacket .runM2mUdt
      if ret < 0 then return (some (-1), p)
      else
        let (ret, p) ← fastprofRun env .udt p
        return (some (if ret < 0 then -1 else 0), p)
    else return (none, p)
  | .programDone =>
    joinWorker .udt p
    joinWorker .tcp p
    return (some (← sendCtrlPacket .programDone), p)
  | _ => return (some 0, p)

/-- What the main function returns on a handler that has returned `ret`, if it does. -/
def ended : Option ℤ → Option ℤ
  | none => some sigsegv
  | some ret => if ret < 0 then some (-1) else none

/-- `probdata_server_clean_up`, as far as the workers are concerned. -/
def cleanUp (p : Prob) : Prog Item Act Prob := do
  .perform (.forget .udt p.udtWorker)
  .perform (.forget .tcp p.tcpWorker)
  return { p with udtWorker := none, tcpWorker := none }

/-- The condition of the server's loop. -/
def goesOn (st : Status) : Bool := st ≠ .programDone ∧ st ≠ .serverError ∧ st ≠ .clientTerminate

/-- An iteration of the loop of `probdata_server`, and what follows the loop. -/
def iteration (env : ServerEnv) (p : Prob) : Prog Item Act Side :=
  if goesOn p.status then do
    let (ret, p) ← pollCtrlChannel p
    if ret < 0 then return ⟨some (-1), p⟩
    else if ret = 0 then return ⟨none, p⟩
    else
      let (ret, p) ← procCtrlPacket env p
      return ⟨ended ret, p⟩
  else do
    let p ← cleanUp p
    return ⟨some 0, p⟩

def next (env : ServerEnv) (x : Side) : Option (Prog Item Act Side) :=
  match x.ret with
  | some _ => none
  | none => some (iteration env x.prob)

/-- `probdata_server`, up to its loop. -/
def start (env : ServerEnv) (p : Prob) : Prog Item Act Side := do
  let p := { p with status := .programStart }
  let (ret, p) ← accept env p
  if ret < 0 then return ⟨some (-1), p⟩
  else
    let p := { p with status := .ctrlChanEst }
    let ret ← sendCtrlPacket .ctrlChanEst
    return ⟨if ret < 0 then some (-1) else none, p⟩

/-! ### Without failures -/

/-- A packet of the client: a status, and the parameters that follow it if it
is the one of the handshake. -/
structure Packet where
  code : UInt8
  msg : Ctrlmsg

def Packet.status (k : Packet) : Status := Status.ofCode k.code

/-- What stopping the TCP worker does, where it has a handle. -/
def stops (p : Prob) : List Act :=
  if p.udtOnly then [] else [.cancel .tcp p.tcpWorker, .join .tcp p.tcpWorker]

/-- The TCP worker is to be stopped, and has no handle. -/
def strays (p : Prob) : Bool := !p.udtOnly && p.tcpWorker.isNone

def joins (k : Kind) (p : Prob) : List Act :=
  if worker k p ≠ none then [.join k (worker k p)] else []

/-- What a start that succeeds does. -/
def starts (k : Kind) (p : Prob) : List Act := [.profile k, .create k p.threads]

/-- What a start that fails does. -/
def fails (env : ServerEnv) (k : Kind) (p : Prob) : List Act :=
  if env.run p.threads = none then [] else [.profile k, .forget k (worker k p)]

def reply (st : Status) : List (Op Item Act) := outs .status [st.code]

/-- What the server ends with at a packet, its status being the packet's, if it does. -/
def ends (env : ServerEnv) (p : Prob) : Option ℤ :=
  match p.status with
  | .runM2mTcp => if env.run p.threads = some true then none else some (-1)
  | .runM2mUdt =>
    if strays p then some sigsegv
    else if env.run p.threads = some true then none
    else some (-1)
  | _ => none

/-- What the server does with a packet that it goes on after, its status being the
packet's. -/
def handles (p : Prob) (m : Ctrlmsg) : List (Op Item Act) :=
  match p.status with
  | .twowayHandshake =>
    reply .twowayHandshake ++ (inns .ctrlmsg m.bytes ++ outs .ctrlmsg (p.answer m).bytes)
  | .runD2dDb => reply .runD2dDb
  | .runD2dTcp => reply .runD2dTcp
  | .runD2dUdt => reply .runD2dUdt
  | .runM2mDb => reply .runM2mDb
  | .runM2mTcp => acting (starts .tcp p) ++ reply .runM2mTcp
  | .runM2mUdt => acting (stops p) ++ (reply .runM2mUdt ++ acting (starts .udt p))
  | .programDone => acting (joins .udt p) ++ (acting (joins .tcp p) ++ reply .programDone)
  | _ => []

/-- What it does with a packet that it ends at. -/
def breaks (env : ServerEnv) (p : Prob) : List (Op Item Act) :=
  match p.status with
  | .runM2mTcp => acting (fails env .tcp p)
  | .runM2mUdt =>
    if strays p then acting [.cancel .tcp none]
    else acting (stops p) ++ (reply .runM2mUdt ++ acting (fails env .udt p))
  | _ => []

/-- The server's state after a packet. -/
def after (p : Prob) (m : Ctrlmsg) : Prob :=
  match p.status with
  | .twowayHandshake => p.accept m
  | .runM2mTcp => created .tcp p
  | .runM2mUdt => created .udt p
  | _ => p

section Starts

variable {env : ServerEnv} {p : Prob}

/-- Where the server goes on after a start. -/
theorem of_ends_eq_none (h : ends env p = none) :
    (p.status = .runM2mTcp → env.run p.threads = some true) ∧
      (p.status = .runM2mUdt → strays p = false ∧ env.run p.threads = some true) := by
  unfold ends at h
  constructor
  · intro hst
    rw [hst] at h
    by_contra hrun
    rw [if_neg hrun] at h
    cases h
  · intro hst
    rw [hst] at h
    dsimp only at h
    split at h
    · cases h
    · rename_i hstray
      refine ⟨Bool.not_eq_true _ ▸ hstray, ?_⟩
      by_contra hrun
      rw [if_neg hrun] at h
      cases h

theorem does_fastprofRun (k : Kind) (h : env.run p.threads = some true) :
    Does (fastprofRun env k p) (acting (starts k p)) (0, created k p) := by
  unfold fastprofRun
  rw [h]
  exact .act (.act (.ret _))

theorem does_fastprofRun_fails (k : Kind) (h : env.run p.threads ≠ some true) :
    Does (fastprofRun env k p) (acting (fails env k p)) (-1, p) := by
  unfold fastprofRun fails
  cases hrun : env.run p.threads with
  | none => exact .ret _
  | some ok =>
    obtain rfl : ok = false := by
      rw [hrun] at h
      simpa using h
    exact .act (.act (.ret _))

theorem does_stopTcp (h : strays p = false) : Does (stopTcp p) (acting (stops p)) true := by
  unfold stopTcp stops
  split
  · exact .ret _
  · rename_i hudt
    have hworker : p.tcpWorker ≠ none := by
      rintro hnone
      simp [strays, hudt, hnone] at h
    refine .act ?_
    rw [if_neg hworker]
    exact .act (.ret _)

theorem does_stopTcp_strays (h : strays p = true) :
    Does (stopTcp p) (acting [.cancel .tcp none]) false := by
  obtain ⟨hudt, hnone⟩ : p.udtOnly = false ∧ p.tcpWorker = none := by simpa [strays] using h
  unfold stopTcp
  rw [if_neg (by simp [hudt]), hnone]
  exact .act (.ret _)

end Starts

theorem does_joinWorker (k : Kind) (p : Prob) : Does (joinWorker k p) (acting (joins k p)) () := by
  unfold joinWorker joins
  split
  · exact .act (.ret _)
  · exact .ret _

/-- An answer that ends a handler. -/
theorem does_reply (st : Status) (p : Prob) :
    Does (do return (some (← sendCtrlPacket st), p)) (reply st) (some (0 : ℤ), p) :=
  (does_sendCtrlPacket st).bind_ret rfl

theorem does_procCtrlPacket (env : ServerEnv) {p : Prob} (hp : p.role = .server) (m : Ctrlmsg)
    (hends : ends env p = none) :
    Does (procCtrlPacket env p) (.act (.proc p.status) :: handles p m) (some 0, after p m) := by
  obtain ⟨htcp, hudt⟩ := of_ends_eq_none hends
  unfold procCtrlPacket handles after
  cases hst : p.status with
  | twowayHandshake =>
    have hx := does_ctrlmsgExchangeSrv env.data p m
    rw [show ctrlmsgExchangeSrv env.data p = ctrlmsgExchange env.data p by
      rw [ctrlmsgExchange, hp]] at hx
    refine .act ((does_sendCtrlPacket _).bind ?_)
    rw [if_neg (by omega)]
    exact hx.bind_ret rfl
  | runM2mTcp =>
    refine .act ((does_fastprofRun .tcp (htcp hst)).bind ?_)
    dsimp only
    rw [if_neg (by omega)]
    exact does_reply _ _
  | runM2mUdt =>
    obtain ⟨hstray, hrun⟩ := hudt hst
    refine .act ((does_stopTcp hstray).bind ?_)
    rw [if_pos rfl]
    refine (does_sendCtrlPacket _).bind ?_
    rw [if_neg (by omega)]
    exact (does_fastprofRun .udt hrun).bind_ret rfl
  | programDone =>
    exact .act ((does_joinWorker .udt p).bind ((does_joinWorker .tcp p).bind (does_reply _ _)))
  | runD2dDb => exact .act (does_reply _ _)
  | runD2dTcp => exact .act (does_reply _ _)
  | runD2dUdt => exact .act (does_reply _ _)
  | runM2mDb => exact .act (does_reply _ _)
  | _ => exact .act (.ret _)

/-- A packet that the server ends at. -/
theorem does_procCtrlPacket_ends {env : ServerEnv} {p : Prob} {r : ℤ} (hends : ends env p = some r) :
    ∃ ret, ended ret = some r ∧
      Does (procCtrlPacket env p) (.act (.proc p.status) :: breaks env p) (ret, p) := by
  unfold ends at hends
  unfold procCtrlPacket breaks
  cases hst : p.status with
  | runM2mTcp =>
    rw [hst] at hends
    dsimp only at hends
    split at hends
    · cases hends
    · rename_i hrun
      cases hends
      exact ⟨some (-1), rfl, .act ((does_fastprofRun_fails .tcp hrun).bind_ret rfl)⟩
  | runM2mUdt =>
    rw [hst] at hends
    dsimp only at hends
    split at hends
    · rename_i hstray
      cases hends
      refine ⟨none, rfl, .act ?_⟩
      rw [if_pos hstray]
      exact (does_stopTcp_strays hstray).bind_ret rfl
    · rename_i hstray
      split at hends
      · cases hends
      · rename_i hrun
        cases hends
        refine ⟨some (-1), rfl, .act ?_⟩
        rw [if_neg hstray]
        refine (does_stopTcp (Bool.not_eq_true _ ▸ hstray)).bind ?_
        rw [if_pos rfl]
        refine (does_sendCtrlPacket _).bind ?_
        rw [if_neg (by omega)]
        exact (does_fastprofRun_fails .udt hrun).bind_ret rfl
  | _ => simp [hst] at hends

theorem does_pollCtrlChannel (p : Prob) (b : UInt8) :
    Does (pollCtrlChannel p) (inns .status [b]) (1, { p with status := Status.ofCode b }) :=
  (does_recvNbytes .status [b]).bind_ret rfl

/-- What the server does with a packet that it goes on after. -/
def takes (p : Prob) (k : Packet) : List (Op Item Act) :=
  .inn .status k.code :: .act (.proc k.status) :: handles { p with status := k.status } k.msg

/-- The server's state after a packet. -/
def taken (p : Prob) (k : Packet) : Prob := after { p with status := k.status } k.msg

/-- What the server does with a packet that it ends at. -/
def cuts (env : ServerEnv) (p : Prob) (k : Packet) : List (Op Item Act) :=
  .inn .status k.code :: .act (.proc k.status) :: breaks env { p with status := k.status }

/-- What the server ends with at a packet, if it does. -/
def endsAt (env : ServerEnv) (p : Prob) (k : Packet) : Option ℤ :=
  ends env { p with status := k.status }

section Iteration

variable {env : ServerEnv} {p : Prob} {k : Packet}

theorem does_iteration (hp : p.role = .server) (hgo : goesOn p.status = true)
    (hends : endsAt env p k = none) : Does (iteration env p) (takes p k) ⟨none, taken p k⟩ := by
  set q : Prob := { p with status := k.status }
  have hq : q.role = .server := hp
  have hproc := does_procCtrlPacket env hq k.msg hends
  unfold iteration
  rw [if_pos hgo]
  refine Does.bind (does_pollCtrlChannel p k.code) ?_
  dsimp only
  rw [if_neg (by omega), if_neg (by omega)]
  exact hproc.bind_ret rfl

theorem does_iteration_ends (hgo : goesOn p.status = true) {r : ℤ}
    (hends : endsAt env p k = some r) :
    Does (iteration env p) (cuts env p k) ⟨some r, { p with status := k.status }⟩ := by
  obtain ⟨ret, hret, hproc⟩ := does_procCtrlPacket_ends hends
  unfold iteration
  rw [if_pos hgo]
  refine Does.bind (does_pollCtrlChannel p k.code) ?_
  dsimp only
  rw [if_neg (by omega), if_neg (by omega), ← hret]
  exact hproc.bind_ret rfl

end Iteration

/-- What the server does after its loop. -/
def forgets (p : Prob) : List Act := [.forget .udt p.udtWorker, .forget .tcp p.tcpWorker]

variable {env : ServerEnv} {p : Prob} {waits : Bool} {s : List (Op Item Act)}

theorem runs_takes {k : Packet} (hp : p.role = .server) (hgo : goesOn p.status = true)
    (hends : endsAt env p k = none) (h : Runs (next env) waits (.ret ⟨none, taken p k⟩) s) :
    Runs (next env) waits (.ret ⟨none, p⟩) (takes p k ++ s) :=
  Does.runs_loop rfl (does_iteration hp hgo hends) h

theorem runs_cuts {k : Packet} {r : ℤ} (hgo : goesOn p.status = true)
    (hends : endsAt env p k = some r) :
    Runs (next env) false (.ret ⟨none, p⟩) (cuts env p k) :=
  Does.runs_last rfl (does_iteration_ends hgo hends) rfl

theorem runs_forgets (hgo : goesOn p.status = false) :
    Runs (next env) false (.ret ⟨none, p⟩) (acting (forgets p)) := by
  have hit : Does (iteration env p) (acting (forgets p))
      ⟨some 0, { p with udtWorker := none, tcpWorker := none }⟩ := by
    unfold iteration
    rw [if_neg (by simp [hgo])]
    exact .act (.act (.ret _))
  exact Does.runs_last rfl hit rfl

/-- A server that waits for a packet ends if the connection does. -/
theorem runs_waits (hgo : goesOn p.status = true) :
    Runs (next env) true (.ret ⟨none, p⟩) [] := by
  refine .loop rfl ?_
  unfold iteration
  rw [if_pos hgo]
  exact .eof rfl Nat.one_pos rfl rfl

/-! ### The beginning -/

/-- The server once it has accepted the client `id`. -/
def opened (p : Prob) (id : List UInt8) : Prob :=
  { p with id := overlay id p.id, status := .ctrlChanEst }

def opens (env : ServerEnv) (id : List UInt8) : List (Op Item Act) :=
  inns .id id ++ (outs .len (le32 (BitVec.ofNat 32 (inetNtoa env.addr).length)) ++
    outs .addr (inetNtoa env.addr)) ++ reply .ctrlChanEst

theorem does_start (env : ServerEnv) (p : Prob) {id : List UInt8} (hid : id.length = pIdpktSize) :
    Does (start env p) (opens env id) ⟨none, opened p id⟩ := by
  have hrecv : Does (recvNbytes .id id.length : Prog Item Act _) _ _ := does_recvNbytes .id id
  rw [hid] at hrecv
  have haccept : Does (accept env { p with status := .programStart })
      (inns .id id ++ (outs .len (le32 (BitVec.ofNat 32 (inetNtoa env.addr).length)) ++
        outs .addr (inetNtoa env.addr)))
      (0, { p with id := overlay id p.id, status := .programStart }) := by
    refine hrecv.bind ?_
    dsimp only
    rw [if_neg (by omega)]
    refine (does_sendNbytes .len _).bind ?_
    rw [if_neg (by omega)]
    exact (does_sendNbytes .addr _).bind_ret rfl
  refine haccept.bind ?_
  dsimp only
  rw [if_neg (by omega)]
  exact (does_sendCtrlPacket _).bind_ret rfl

end Server

end Session
end Probdata
