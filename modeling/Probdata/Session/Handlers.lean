/-
# What the handlers of a client depend on

Two clients whose states differ in the address of the control block alone do the
same: they read it in no handler, and pass it on (`alike_procCtrlPacket`). Before
they have connected they may differ in their status too (`alike_start`).
-/
import Probdata.Lib.Wire.Play
import Probdata.Session.Client

namespace Probdata
namespace Session

open Wire Bytes

/-! ### Two clients -/

/-- The client's state apart from the address in the control block. -/
def Prob.told (p : Prob) : Prob := { p with controlLocalIp := [] }

theorem Prob.exists_of_told {p q : Prob} (h : p.told = q.told) :
    ∃ a, q = { p with controlLocalIp := a } :=
  ⟨q.controlLocalIp,
    (congrArg (fun r : Prob => { r with controlLocalIp := q.controlLocalIp }) h).symm⟩

/-- Two results that differ in that address alone. -/
def SameProb (x y : ℤ × Prob) : Prop := x.1 = y.1 ∧ x.2.told = y.2.told

theorem sameProb_of_told (r : ℤ) {p q : Prob} (h : p.told = q.told) :
    Alike SameProb (.ret (r, p) : Prog Item Act _) (.ret (r, q)) := .ret ⟨rfl, h⟩

theorem alike_pollCtrlChannel {p q : Prob} (h : p.told = q.told) :
    Alike SameProb (Client.pollCtrlChannel p) (Client.pollCtrlChannel q) := by
  obtain ⟨a, rfl⟩ := Prob.exists_of_told h
  refine Alike.bind_same _ fun x => ?_
  obtain ⟨ret, bs⟩ := x
  cases bs with
  | nil => exact sameProb_of_told _ rfl
  | cons b bs =>
    dsimp only
    split
    · exact sameProb_of_told _ rfl
    · exact sameProb_of_told _ rfl

/-- Two environments that a handler of the status `st` cannot tell apart. -/
structure EnvAlike (st : Status) (env env' : ClientEnv) : Prop where
  found : st = .runM2mDb → env.found = env'.found
  online : env.online = env'.online
  tcp : st = .runM2mTcp → env.run .tcp = env'.run .tcp
  udt : st = .runM2mUdt → env.run .udt = env'.run .udt

theorem alike_ctrlmsgExchange (data : Ctrlmsg) {p q : Prob} (h : p.told = q.told) :
    Alike SameProb (ctrlmsgExchange data p) (ctrlmsgExchange data q) := by
  obtain ⟨a, rfl⟩ := Prob.exists_of_told h
  have hret : ∀ r, Alike SameProb (.ret (r, p) : Prog Item Act _)
      (.ret (r, { p with controlLocalIp := a })) := fun r => sameProb_of_told r rfl
  unfold ctrlmsgExchange
  dsimp only
  split
  · refine Alike.bind_same _ fun r => Alike.ite Iff.rfl (hret _) ?_
    exact Alike.bind_same _ fun x => Alike.ite Iff.rfl (hret _) (sameProb_of_told _ rfl)
  · refine Alike.bind_same _ fun x => Alike.ite Iff.rfl (hret _) ?_
    exact Alike.bind_same _ fun r => Alike.ite Iff.rfl (sameProb_of_told _ rfl) (sameProb_of_told _ rfl)
  · exact hret _

/-- A packet is sent, and the client's state does not change. -/
theorem alike_send (st : Status) {p q : Prob} (h : p.told = q.told) :
    Alike SameProb (do return (← sendCtrlPacket st, p) : Prog Item Act _)
      (do return (← sendCtrlPacket st, q)) :=
  Alike.bind_same _ fun _ => .ret ⟨rfl, h⟩

theorem fastprofRun_congr {env env' : ClientEnv} {k : Kind} (h : env.run k = env'.run k) :
    Client.fastprofRun env k = Client.fastprofRun env' k := by
  rw [Client.fastprofRun, h, Client.fastprofRun]

theorem alike_procCtrlPacket (data : Ctrlmsg) {env env' : ClientEnv} {p q : Prob}
    (h : p.told = q.told) (henv : EnvAlike p.status env env') :
    Alike SameProb (Client.procCtrlPacket env data p) (Client.procCtrlPacket env' data q) := by
  obtain ⟨a, rfl⟩ := Prob.exists_of_told h
  have hsend : ∀ st, Alike SameProb (do return (← sendCtrlPacket st, p) : Prog Item Act _)
      (do return (← sendCtrlPacket st, { p with controlLocalIp := a })) := fun st => alike_send st rfl
  have hret : ∀ r, Alike SameProb (.ret (r, p) : Prog Item Act _)
      (.ret (r, { p with controlLocalIp := a })) := fun r => sameProb_of_told r rfl
  refine Alike.bind_same _ fun _ => ?_
  dsimp only
  split
  · exact hsend _
  · refine (alike_ctrlmsgExchange data h).bind fun x y hxy => ?_
    obtain ⟨r, p'⟩ := x
    obtain ⟨r', q'⟩ := y
    obtain ⟨rfl, hp⟩ := hxy
    obtain ⟨b, rfl⟩ := Prob.exists_of_told hp
    refine Alike.ite Iff.rfl (sameProb_of_told _ rfl) (Alike.ite Iff.rfl (alike_send _ rfl) ?_)
    exact Alike.ite Iff.rfl (Alike.bind_same _ fun _ => sameProb_of_told _ rfl) (alike_send _ rfl)
  · refine Alike.ite Iff.rfl (hsend _) (Alike.ite (by rw [henv.online]) ?_ (hsend _))
    exact Alike.ite Iff.rfl (hsend _) (hsend _)
  · exact hsend _
  · exact hsend _
  · rename_i hst
    have hfound : Client.searchM2m env = Client.searchM2m env' := by
      rw [Client.searchM2m, henv.found hst, Client.searchM2m]
    refine Alike.ite (by rw [hfound]) (hsend _) (Alike.ite (by rw [henv.online]) ?_ (hsend _))
    exact Alike.ite Iff.rfl (hsend _) (hsend _)
  · rename_i hst
    rw [fastprofRun_congr (henv.tcp hst)]
    exact Alike.bind_same _ fun r => Alike.ite Iff.rfl (hret _) (hsend _)
  · rename_i hst
    rw [fastprofRun_congr (henv.udt hst)]
    exact Alike.bind_same _ fun r => Alike.ite Iff.rfl (hret _) (hsend _)
  all_goals exact hret _

/-- A client connects, whatever its status is and its control block holds. -/
theorem alike_start (env : ClientEnv) (p : Prob) (st : Status) (a : List UInt8) :
    Alike (fun x y : Side => x.ret = y.ret ∧ (x.ret = none → x.prob.told = y.prob.told))
      (Client.start env p) (Client.start env { p with status := st, controlLocalIp := a }) := by
  have hconnect : Alike (fun x y : ℤ × Prob => x.1 = y.1 ∧
      { x.2 with status := .programStart }.told = { y.2 with status := .programStart }.told)
      (Client.connect env p)
      (Client.connect env { p with status := st, controlLocalIp := a }) := by
    refine Alike.bind_same _ fun r => Alike.ite Iff.rfl (.ret ⟨rfl, rfl⟩) ?_
    refine Alike.bind_same _ fun x => Alike.ite Iff.rfl (.ret ⟨rfl, rfl⟩) ?_
    refine Alike.bind_same _ fun y => ?_
    exact Alike.ite Iff.rfl (.ret ⟨rfl, rfl⟩) (.ret ⟨rfl, rfl⟩)
  refine hconnect.bind fun x y hxy => ?_
  obtain ⟨r, p'⟩ := x
  obtain ⟨r', q'⟩ := y
  obtain ⟨rfl, hp⟩ := hxy
  exact Alike.ite Iff.rfl (.ret ⟨rfl, fun h => nomatch h⟩) (.ret ⟨rfl, fun _ => hp⟩)

/-! ### The acts of a handler -/

section Within

variable {A : Act → Prop}

theorem within_sendNbytes (t : Item) (bs : List UInt8) :
    (sendNbytes t bs : Prog Item Act ℤ).Within A := by
  have hloop : ∀ (count : ℤ) (fuel : ℕ) (bs : List UInt8),
      (sendLoop t count fuel bs : Prog Item Act ℤ).Within A := by
    intro count fuel
    induction fuel with
    | zero => exact fun bs => trivial
    | succ fuel ih =>
      intro bs
      refine Prog.Within.ite (fun _ => trivial) fun _ r => ?_
      rcases r with _ | _ | r
      · trivial
      · trivial
      · exact ih _
  exact hloop _ _ bs

theorem within_recvNbytes (t : Item) (count : ℤ) :
    (recvNbytes t count : Prog Item Act (ℤ × List UInt8)).Within A := by
  have hloop : ∀ (fuel nleft : ℕ) (buf : List UInt8),
      (recvLoop t fuel nleft buf : Prog Item Act (ℤ × List UInt8)).Within A := by
    intro fuel
    induction fuel with
    | zero => exact fun nleft buf => trivial
    | succ fuel ih =>
      intro nleft buf
      refine Prog.Within.ite (fun _ => trivial) fun _ r => ?_
      rcases r with _ | _ | ⟨b, bs⟩
      · trivial
      · trivial
      · exact ih _ _
  exact hloop _ _ []

theorem within_send (st : Status) (p : Prob) :
    (do return (← sendCtrlPacket st, p) : Prog Item Act (ℤ × Prob)).Within A :=
  Prog.Within.bind ((within_sendNbytes _ _).bind fun _ => trivial) fun _ => trivial

theorem within_ctrlmsgExchange (data : Ctrlmsg) (p : Prob) : (ctrlmsgExchange data p).Within A := by
  unfold ctrlmsgExchange
  split
  · refine Prog.Within.bind (within_sendNbytes _ _) fun r => ?_
    refine Prog.Within.ite (fun _ => trivial) fun _ => ?_
    refine Prog.Within.bind (within_recvNbytes _ _) fun x => ?_
    exact Prog.Within.ite (fun _ => trivial) fun _ => trivial
  · refine Prog.Within.bind (within_recvNbytes _ _) fun x => ?_
    refine Prog.Within.ite (fun _ => trivial) fun _ => ?_
    refine Prog.Within.bind (within_sendNbytes _ _) fun r => ?_
    exact Prog.Within.ite (fun _ => trivial) fun _ => trivial
  · trivial

end Within

/-- The status that asks for a search. -/
def Kind.asks : Kind → Status
  | .tcp => .runM2mTcp
  | .udt => .runM2mUdt

/-- An act of the handler of the status `st`: it is processed, and a search that can
be prepared is run. -/
def HandlerAct (env : ClientEnv) (st : Status) (a : Act) : Prop :=
  a = .proc st ∨ ∃ k, a = .search k ∧ st = k.asks ∧ env.run k ≠ none

theorem within_procCtrlPacket (env : ClientEnv) (data : Ctrlmsg) (p : Prob) :
    (Client.procCtrlPacket env data p).Within (HandlerAct env p.status) := by
  have hsearch : ∀ k : Kind, p.status = k.asks → ∀ f : ℤ → Prog Item Act (ℤ × Prob),
      (∀ r, (f r).Within (HandlerAct env p.status)) →
      ((Client.fastprofRun env k).bind f).Within (HandlerAct env p.status) := by
    intro k hst f hf
    refine Prog.Within.bind ?_ hf
    unfold Client.fastprofRun
    split
    · trivial
    · rename_i ok hrun
      exact ⟨.inr ⟨k, rfl, hst, by simp [hrun]⟩, trivial⟩
  have hsend : ∀ st, (do return (← sendCtrlPacket st, p) : Prog Item Act (ℤ × Prob)).Within
      (HandlerAct env p.status) := fun st => within_send st p
  refine Prog.Within.bind ⟨.inl rfl, trivial⟩ fun _ => ?_
  dsimp only
  split
  · exact hsend _
  · refine (within_ctrlmsgExchange data p).bind fun x => ?_
    refine Prog.Within.ite (fun _ => trivial) fun _ => ?_
    refine Prog.Within.ite (fun _ => within_send _ _) fun _ => ?_
    refine Prog.Within.ite (fun _ => ?_) fun _ => within_send _ _
    exact Prog.Within.bind ((within_sendNbytes _ _).bind fun _ => trivial) fun _ => trivial
  · refine Prog.Within.ite (fun _ => hsend _) fun _ => ?_
    refine Prog.Within.ite (fun _ => ?_) fun _ => hsend _
    exact Prog.Within.ite (fun _ => hsend _) fun _ => hsend _
  · exact hsend _
  · exact hsend _
  · refine Prog.Within.ite (fun _ => hsend _) fun _ => ?_
    refine Prog.Within.ite (fun _ => ?_) fun _ => hsend _
    exact Prog.Within.ite (fun _ => hsend _) fun _ => hsend _
  · rename_i hst
    exact hsearch .tcp hst _ fun r => Prog.Within.ite (fun _ => trivial) fun _ => hsend _
  · rename_i hst
    exact hsearch .udt hst _ fun r => Prog.Within.ite (fun _ => trivial) fun _ => hsend _
  all_goals trivial

/-! ### The addresses -/

/-- The addresses of a client, its own also in the control block. -/
def Prob.addresses (p : Prob) : List UInt8 × List UInt8 × List UInt8 :=
  (p.localIp, p.remoteIp, p.controlLocalIp)

theorem yields_pollCtrlChannel (p : Prob) :
    (Client.pollCtrlChannel p).Yields fun x => x.2.addresses = p.addresses := by
  refine Prog.Yields.bind_any _ fun x => ?_
  obtain ⟨ret, bs⟩ := x
  cases bs with
  | nil => exact rfl
  | cons b bs =>
    have hp : ∀ x : ℤ × Prob, x = (if ret ≤ 0 then (-1, p)
        else (ret, { p with status := Status.ofCode b })) → x.2.addresses = p.addresses := by
      rintro x rfl
      split <;> rfl
    exact hp _ rfl

theorem yields_ctrlmsgExchange (data : Ctrlmsg) (p : Prob) :
    (ctrlmsgExchange data p).Yields fun x => x.2.addresses = p.addresses := by
  unfold ctrlmsgExchange
  split
  · refine Prog.Yields.bind_any _ fun r => Prog.Yields.ite rfl ?_
    exact Prog.Yields.bind_any _ fun x => Prog.Yields.ite rfl rfl
  · refine Prog.Yields.bind_any _ fun x => Prog.Yields.ite rfl ?_
    exact Prog.Yields.bind_any _ fun r => Prog.Yields.ite rfl rfl
  · exact rfl

/-- No handler changes them. -/
theorem yields_procCtrlPacket (env : ClientEnv) (data : Ctrlmsg) (p : Prob) :
    (Client.procCtrlPacket env data p).Yields fun x => x.2.addresses = p.addresses := by
  have hsend : ∀ (st : Status) (q : Prob), q.addresses = p.addresses →
      (do return (← sendCtrlPacket st, q) : Prog Item Act (ℤ × Prob)).Yields
        fun x => x.2.addresses = p.addresses :=
    fun st q hq => Prog.Yields.bind_any _ fun _ => hq
  refine Prog.Yields.bind_any _ fun _ => ?_
  dsimp only
  split
  · exact hsend _ _ rfl
  · refine (yields_ctrlmsgExchange data p).bind fun x hx => Prog.Yields.ite hx ?_
    refine Prog.Yields.ite (hsend _ _ hx) (Prog.Yields.ite ?_ (hsend _ _ hx))
    exact Prog.Yields.bind_any _ fun _ => hx
  · refine Prog.Yields.ite (hsend _ _ rfl) (Prog.Yields.ite ?_ (hsend _ _ rfl))
    exact Prog.Yields.ite (hsend _ _ rfl) (hsend _ _ rfl)
  · exact hsend _ _ rfl
  · exact hsend _ _ rfl
  · refine Prog.Yields.ite (hsend _ _ rfl) (Prog.Yields.ite ?_ (hsend _ _ rfl))
    exact Prog.Yields.ite (hsend _ _ rfl) (hsend _ _ rfl)
  · exact Prog.Yields.bind_any _ fun r => Prog.Yields.ite rfl (hsend _ _ rfl)
  · exact Prog.Yields.bind_any _ fun r => Prog.Yields.ite rfl (hsend _ _ rfl)
  all_goals exact rfl

end Session
end Probdata
