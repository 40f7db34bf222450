/-
# The conversation of a session

What the client and the server of a session send to each other and do, in one
order, for every configuration of the two and everything they meet. A round of
it is about one status: the server takes it as a packet and sends it back, and
the client answers with the next one. `Talk` says that from a point on both
sides run through their side of it; `talk_session` that they do from the start.
-/
import Probdata.Session.Client

namespace Probdata
namespace Session

open Wire Bytes

/-- A client and a server as `main` starts them, and what they meet. The server can
start its workers. -/
structure Parties where
  client : Prob
  server : Prob
  clientConfigured : Configured .client client
  serverConfigured : Configured .server server
  clientEnv : ClientEnv
  serverEnv : ServerEnv
  starts : ∀ n, serverEnv.run n = some true
  data : Ctrlmsg

namespace Parties

variable (S : Parties)

/-- A packet that is a status alone. -/
def packet (st : Status) : Server.Packet := ⟨st.code, ⟨0, 0⟩⟩

/-- A round: the server takes `st` and does `before`, it sends `st` back and
does `later`, and the client does `work`. -/
def round (st : Status) (before work later : List Act) : List (Entry Item Act) :=
  does false (.proc st :: before) ++ (msgs false .status [st.code] ++
    (does true (.proc st :: work) ++ does false later))

/-- The next status, sent by the client, and what follows. -/
def thenSend (st : Status) (G : List (Entry Item Act)) : List (Entry Item Act) :=
  msgs true .status [st.code] ++ G

theorem side_round (st : Status) (before work later : List Act) :
    side (round st before work later) =
      .inn .status st.code :: .act (.proc st) :: acting work := by
  simp only [round, side_append, side_does_false, side_does_true, side_msgs_false,
    List.nil_append, List.append_nil]
  rfl

theorem side_swapped_round (st : Status) (before work later : List Act) :
    side (swapped (round st before work later)) =
      .act (.proc st) :: (acting before ++ (outs .status [st.code] ++ acting later)) := by
  simp only [round, swapped_append, swapped_does, swapped_msgs, Bool.not_false, Bool.not_true,
    side_append, side_does_false, side_does_true, side_msgs_true, List.nil_append]
  rfl

/-- The parts of the conversation that the client `c` and the server `s` have
still before them, when the named packet is on its way. -/
def doneTalk (s : Prob) : List (Entry Item Act) :=
  round .programDone (Server.joins .udt s ++ Server.joins .tcp s) [] [] ++
    does false (Server.forgets s)

def udtTalk (s : Prob) : List (Entry Item Act) :=
  round .runM2mUdt (Server.stops s) (Client.searches S.clientEnv .udt) (Server.starts .udt s) ++
    if S.clientEnv.run .udt = some true then
      thenSend .programDone (doneTalk (Server.taken s (packet .runM2mUdt)))
    else []

def tcpTalk (s : Prob) : List (Entry Item Act) :=
  round .runM2mTcp (Server.starts .tcp s) (Client.searches S.clientEnv .tcp) [] ++
    if S.clientEnv.run .tcp = some true then
      thenSend .runM2mUdt (S.udtTalk (Server.taken s (packet .runM2mTcp)))
    else []

def m2mTalk (c s : Prob) : List (Entry Item Act) :=
  round .runM2mDb [] [] [] ++
    if S.clientEnv.found && c.udtOnly then
      thenSend .runM2mUdt (S.udtTalk (Server.taken s (packet .runM2mDb)))
    else thenSend .runM2mTcp (S.tcpTalk (Server.taken s (packet .runM2mDb)))

def d2dUdtTalk (s : Prob) : List (Entry Item Act) :=
  round .runD2dUdt [] [] [] ++ thenSend .programDone (doneTalk (Server.taken s (packet .runD2dUdt)))

def d2dTcpTalk (s : Prob) : List (Entry Item Act) :=
  round .runD2dTcp [] [] [] ++ thenSend .runD2dUdt (d2dUdtTalk (Server.taken s (packet .runD2dTcp)))

def d2dTalk (s : Prob) : List (Entry Item Act) :=
  round .runD2dDb [] [] [] ++ thenSend .runD2dTcp (d2dTcpTalk (Server.taken s (packet .runD2dDb)))

def terminateTalk (s : Prob) : List (Entry Item Act) :=
  does false [.proc .clientTerminate] ++ does false (Server.forgets s)

/-- The client and the server after the exchange. -/
def agreed (c s : Prob) : Prob := Client.taken c .twowayHandshake (s.answer c.offer)

def accepted (c s : Prob) : Prob := Server.taken s ⟨Status.twowayHandshake.code, c.offer⟩

/-- The round of the handshake, with the exchange. -/
def exchangeRound (c s : Prob) : List (Entry Item Act) :=
  round .twowayHandshake [] [] [] ++
    (msgs true .ctrlmsg c.offer.bytes ++ msgs false .ctrlmsg (s.answer c.offer).bytes)

def handshakeTalk (c s : Prob) : List (Entry Item Act) :=
  exchangeRound c s ++
    if cstr c.srcFile ≠ [] then thenSend .runD2dDb (d2dTalk (accepted c s))
    else if cstr c.dstFile ≠ [] then thenSend .clientTerminate (terminateTalk (accepted c s))
    else thenSend .runM2mDb (S.m2mTalk (agreed c s) (accepted c s))

/-- The client once connected, and the server. -/
def clientOpened : Prob := Client.opened S.clientEnv (inetNtoa S.serverEnv.addr) S.client

def serverOpened : Prob := Server.opened S.server S.clientEnv.id

/-- The whole conversation. -/
def talk : List (Entry Item Act) :=
  msgs true .id S.clientEnv.id ++
    (msgs false .len (le32 (BitVec.ofNat 32 (inetNtoa S.serverEnv.addr).length)) ++
      msgs false .addr (inetNtoa S.serverEnv.addr)) ++
    (msgs false .status [Status.ctrlChanEst.code] ++ (does true [.proc .ctrlChanEst] ++
      thenSend .twowayHandshake (S.handshakeTalk
        (Client.taken S.clientOpened .ctrlChanEst ⟨0, 0⟩) S.serverOpened)))

def clientNext : Side → Option (Prog Item Act Side) := Client.next S.clientEnv S.data

def serverNext : Side → Option (Prog Item Act Side) := Server.next S.serverEnv

/-! ### Both sides run through it -/

/-- With the packet `st` on its way, the client `c` and the server `s` run
through their sides of `G`. -/
def Talk (st : Status) (c s : Prob) (G : List (Entry Item Act)) : Prop :=
  ∃ waits waits', Runs S.clientNext waits (.ret ⟨none, c⟩) (side G) ∧
    Runs S.serverNext waits' (.ret ⟨none, s⟩) (.inn .status st.code :: side (swapped G)) ∧
    ¬ (waits = true ∧ waits' = true)

/-- Both are in their loops. -/
structure Ready (c s : Prob) : Prop where
  client : c.role = .client
  server : s.role = .server
  clientStatus : c.status ≠ .programDone
  serverStatus : Server.goesOn s.status = true

/-- The server goes on after every packet, if it has the worker that it has to stop. -/
theorem endsAt_eq_none {st : Status} (s : Prob) {k : Server.Packet} (hst : k.status = st)
    (h : st = .runM2mUdt → Server.strays s = false) : Server.endsAt S.serverEnv s k = none := by
  unfold Server.endsAt Server.ends
  rw [hst]
  cases st with
  | runM2mTcp => exact if_pos (S.starts _)
  | runM2mUdt =>
    have hstray : Server.strays { s with status := .runM2mUdt } = false := h rfl
    dsimp only
    rw [hstray]
    exact if_pos (S.starts _)
  | _ => rfl

variable {S} {st st' : Status} {c s : Prob} {m m' : Ctrlmsg} {R G : List (Entry Item Act)}

/-- A round after which the client goes on. -/
theorem Talk.step (hr : Ready c s) (hst : Status.ofCode st.code = st)
    (hgo : Client.goesOn S.clientEnv { c with status := st } = true)
    (hc : Client.takes S.clientEnv c st m = side R ++ outs .status [st'.code])
    (hs : Server.takes s ⟨st.code, m'⟩ = .inn .status st.code :: side (swapped R))
    (hstop : st = .runM2mUdt → Server.strays s = false)
    (h : S.Talk st' (Client.taken c st m) (Server.taken s ⟨st.code, m'⟩) G) :
    S.Talk st c s (R ++ thenSend st' G) := by
  obtain ⟨waits, waits', hl, hr', hw⟩ := h
  refine ⟨waits, waits', ?_, ?_, hw⟩
  · have h := Client.runs_takes hr.client hr.clientStatus hst hgo m hl
    rw [hc] at h
    rw [side_append, thenSend, side_append, side_msgs_true, ← List.append_assoc]
    exact h
  · have hends := S.endsAt_eq_none s (k := ⟨st.code, m'⟩) hst hstop
    have h := Server.runs_takes hr.server hr.serverStatus hends hr'
    rw [hs] at h
    rw [swapped_append, thenSend, swapped_append, swapped_msgs, side_append, side_append]
    exact h

/-- A round after which the client does not go on. -/
theorem Talk.quit (hr : Ready c s) (hst : Status.ofCode st.code = st)
    (hgo : Client.goesOn S.clientEnv { c with status := st } = false)
    (hc : Client.takes S.clientEnv c st m = side R)
    (hs : Server.takes s ⟨st.code, m'⟩ = .inn .status st.code :: side (swapped R))
    (hstop : st = .runM2mUdt → Server.strays s = false)
    (hgo' : Server.goesOn (Server.taken s ⟨st.code, m'⟩).status = true) :
    S.Talk st c s R := by
  refine ⟨false, true, ?_, ?_, by simp⟩
  · rw [← hc]
    exact Client.runs_quits hr.client hr.clientStatus hst hgo m
  · rw [← hs, ← List.append_nil (Server.takes _ _)]
    exact Server.runs_takes hr.server hr.serverStatus (S.endsAt_eq_none s hst hstop)
      (Server.runs_waits hgo')

theorem talk_done (hr : Ready c s) : S.Talk .programDone c s (doneTalk s) := by
  have hs : Server.takes s (packet .programDone) = .inn .status Status.programDone.code ::
      side (swapped (round .programDone (Server.joins .udt s ++ Server.joins .tcp s) [] [])) := by
    rw [side_swapped_round]
    simp only [acting, List.map_append, List.append_assoc]
    rfl
  refine ⟨false, false, ?_, ?_, by simp⟩
  · rw [doneTalk, side_append, side_round, side_does_false]
    exact Client.runs_takes hr.client hr.clientStatus rfl rfl ⟨0, 0⟩ (Client.runs_done rfl)
  · rw [doneTalk, swapped_append, side_append, swapped_does, ← List.cons_append, ← hs]
    exact Server.runs_takes hr.server hr.serverStatus rfl (by
      rw [Bool.not_false, side_does_true]
      exact Server.runs_forgets rfl)

theorem talk_udt (hr : Ready c s) (hstop : Server.strays s = false) :
    S.Talk .runM2mUdt c s (S.udtTalk s) := by
  have hc : Client.takes S.clientEnv c .runM2mUdt ⟨0, 0⟩ = side (round .runM2mUdt (Server.stops s)
      (Client.searches S.clientEnv .udt) (Server.starts .udt s)) ++
      Client.answers (if S.clientEnv.run .udt = some true then some .programDone else none) := by
    rw [side_round]
    rfl
  have hs : Server.takes s (packet .runM2mUdt) = .inn .status Status.runM2mUdt.code ::
      side (swapped (round .runM2mUdt (Server.stops s) (Client.searches S.clientEnv .udt)
        (Server.starts .udt s))) := by
    rw [side_swapped_round]
    rfl
  unfold udtTalk
  by_cases hrun : S.clientEnv.run .udt = some true
  · rw [if_pos hrun] at hc ⊢
    exact Talk.step hr rfl (by simp [Client.goesOn, hrun]) hc hs (fun _ => hstop)
      (talk_done ⟨hr.client, hr.server, nofun, rfl⟩)
  · rw [if_neg hrun] at hc ⊢
    rw [List.append_nil]
    exact Talk.quit hr rfl (by simp [Client.goesOn, hrun]) (hc.trans (List.append_nil _)) hs
      (fun _ => hstop) rfl

theorem talk_tcp (hr : Ready c s) : S.Talk .runM2mTcp c s (S.tcpTalk s) := by
  have hc : Client.takes S.clientEnv c .runM2mTcp ⟨0, 0⟩ = side (round .runM2mTcp
      (Server.starts .tcp s) (Client.searches S.clientEnv .tcp) []) ++
      Client.answers (if S.clientEnv.run .tcp = some true then some .runM2mUdt else none) := by
    rw [side_round]
    rfl
  have hs : Server.takes s (packet .runM2mTcp) = .inn .status Status.runM2mTcp.code ::
      side (swapped (round .runM2mTcp (Server.starts .tcp s) (Client.searches S.clientEnv .tcp)
        [])) := by
    rw [side_swapped_round]
    rfl
  unfold tcpTalk
  by_cases hrun : S.clientEnv.run .tcp = some true
  · rw [if_pos hrun] at hc ⊢
    exact Talk.step hr rfl (by simp [Client.goesOn, hrun]) hc hs nofun
      (talk_udt ⟨hr.client, hr.server, nofun, rfl⟩ (Bool.and_false _))
  · rw [if_neg hrun] at hc ⊢
    rw [List.append_nil]
    exact Talk.quit hr rfl (by simp [Client.goesOn, hrun]) (hc.trans (List.append_nil _)) hs nofun
      rfl

theorem talk_m2m (hr : Ready c s) (hudt : c.udtOnly = true → s.udtOnly = true) :
    S.Talk .runM2mDb c s (S.m2mTalk c s) := by
  have hs : Server.takes s (packet .runM2mDb) = .inn .status Status.runM2mDb.code ::
      side (swapped (round .runM2mDb [] [] [])) := rfl
  have hr' : Ready (Client.taken c .runM2mDb ⟨0, 0⟩) (Server.taken s (packet .runM2mDb)) :=
    ⟨hr.client, hr.server, nofun, rfl⟩
  have hc : Client.takes S.clientEnv c .runM2mDb ⟨0, 0⟩ = side (round .runM2mDb [] [] []) ++
      Client.answers (if S.clientEnv.found && c.udtOnly then some .runM2mUdt else some .runM2mTcp) :=
    rfl
  unfold m2mTalk
  split
  · rename_i h
    rw [if_pos h] at hc
    have hs' : s.udtOnly = true := hudt (Bool.and_eq_true_iff.mp h).2
    have hstop : Server.strays (Server.taken s (packet .runM2mDb)) = false :=
      congrArg (fun b => !b && s.tcpWorker.isNone) hs'
    exact Talk.step hr rfl rfl hc hs nofun (talk_udt hr' hstop)
  · rename_i h
    rw [if_neg h] at hc
    exact Talk.step hr rfl rfl hc hs nofun (talk_tcp hr')

theorem talk_d2dUdt (hr : Ready c s) : S.Talk .runD2dUdt c s (d2dUdtTalk s) :=
  Talk.step hr rfl rfl (m := ⟨0, 0⟩) rfl rfl nofun (talk_done ⟨hr.client, hr.server, nofun, rfl⟩)

theorem talk_d2dTcp (hr : Ready c s) : S.Talk .runD2dTcp c s (d2dTcpTalk s) :=
  Talk.step hr rfl rfl (m := ⟨0, 0⟩) rfl rfl nofun (talk_d2dUdt ⟨hr.client, hr.server, nofun, rfl⟩)

theorem talk_d2d (hr : Ready c s) : S.Talk .runD2dDb c s (d2dTalk s) :=
  Talk.step hr rfl rfl (m := ⟨0, 0⟩) rfl rfl nofun (talk_d2dTcp ⟨hr.client, hr.server, nofun, rfl⟩)

theorem side_exchangeRound (c s : Prob) : side (exchangeRound c s) =
    .inn .status Status.twowayHandshake.code :: .act (.proc .twowayHandshake) ::
      (outs .ctrlmsg c.offer.bytes ++ inns .ctrlmsg (s.answer c.offer).bytes) := by
  rw [exchangeRound, side_append, side_round, side_append, side_msgs_true, side_msgs_false]
  rfl

theorem side_swapped_exchangeRound (c s : Prob) : side (swapped (exchangeRound c s)) =
    .act (.proc .twowayHandshake) :: (outs .status [Status.twowayHandshake.code] ++
      (inns .ctrlmsg c.offer.bytes ++ outs .ctrlmsg (s.answer c.offer).bytes)) := by
  rw [exchangeRound, swapped_append, side_append, side_swapped_round, swapped_append, swapped_msgs,
    swapped_msgs, side_append]
  rw [Bool.not_true, Bool.not_false, side_msgs_true, side_msgs_false]
  rfl

/-- A client with nothing but a destination leaves, and tells the server. -/
theorem talk_terminate (hr : Ready c s) (hsrc : cstr c.srcFile = []) (hdst : cstr c.dstFile ≠ []) :
    S.Talk .twowayHandshake c s
      (exchangeRound c s ++ thenSend .clientTerminate (terminateTalk (accepted c s))) := by
  have hgo : Client.goesOn S.clientEnv { c with status := .twowayHandshake } = false := by
    simp [Client.goesOn, hsrc, hdst]
  have hsends : Client.sends S.clientEnv { c with status := .twowayHandshake } =
      some .clientTerminate := by
    simp [Client.sends, hsrc, hdst]
  have hc : Client.takes S.clientEnv c .twowayHandshake (s.answer c.offer) =
      side (exchangeRound c s) ++ outs .status [Status.clientTerminate.code] := by
    rw [side_exchangeRound, Client.takes, hsends]
    rfl
  have hs : Server.takes s ⟨Status.twowayHandshake.code, c.offer⟩ =
      .inn .status Status.twowayHandshake.code :: side (swapped (exchangeRound c s)) := by
    rw [side_swapped_exchangeRound]
    rfl
  refine ⟨false, false, ?_, ?_, by simp⟩
  · rw [side_append, thenSend, side_append, side_msgs_true, terminateTalk, side_append,
      side_does_false, side_does_false, List.append_nil, List.append_nil, ← hc]
    exact Client.runs_quits hr.client hr.clientStatus rfl hgo _
  · have hrole : (accepted c s).role = .server := hr.server
    have hend : Runs S.serverNext false (.ret ⟨none, accepted c s⟩)
        (Server.takes (accepted c s) (packet .clientTerminate) ++
          acting (Server.forgets (accepted c s))) :=
      Server.runs_takes hrole rfl rfl (Server.runs_forgets rfl)
    have h := Server.runs_takes hr.server hr.serverStatus rfl hend
    rw [hs] at h
    rw [swapped_append, thenSend, swapped_append, swapped_msgs, side_append, side_append]
    exact h

theorem talk_handshake (hr : Ready c s) : S.Talk .twowayHandshake c s (S.handshakeTalk c s) := by
  have hc : Client.takes S.clientEnv c .twowayHandshake (s.answer c.offer) =
      side (exchangeRound c s) ++ Client.answers (
        if cstr c.srcFile ≠ [] then some .runD2dDb
        else if cstr c.dstFile ≠ [] then some .clientTerminate
        else some .runM2mDb) := by
    rw [side_exchangeRound]
    rfl
  have hs : Server.takes s ⟨Status.twowayHandshake.code, c.offer⟩ =
      .inn .status Status.twowayHandshake.code :: side (swapped (exchangeRound c s)) := by
    rw [side_swapped_exchangeRound]
    rfl
  have hr' : Ready (agreed c s) (accepted c s) := ⟨hr.client, hr.server, nofun, rfl⟩
  have hudt : (agreed c s).udtOnly = (accepted c s).udtOnly := rfl
  unfold handshakeTalk
  by_cases hsrc : cstr c.srcFile = []
  · by_cases hdst : cstr c.dstFile = []
    · simp only [hsrc, hdst, ne_eq, not_true_eq_false, if_false] at hc ⊢
      exact Talk.step hr rfl (by simp [Client.goesOn, hdst]) hc hs nofun (talk_m2m hr' hudt.symm.trans)
    · simp only [hsrc, hdst, ne_eq, not_true_eq_false, not_false_eq_true, if_false, if_true]
      exact talk_terminate hr hsrc hdst
  · simp only [hsrc, ne_eq, not_false_eq_true, if_true] at hc ⊢
    exact Talk.step hr rfl (by simp [Client.goesOn, hsrc]) hc hs nofun (talk_d2d hr')

variable (S)

/-- The two programs at the start of a session. -/
def init : Config Item Act Side Side :=
  ⟨Client.start S.clientEnv S.client, Server.start S.serverEnv S.server, [], [], [], []⟩

/-- From their starts both sides run through the conversation. -/
theorem runs_talk : ∃ waits waits', Runs S.clientNext waits S.init.left (side S.talk) ∧
    Runs S.serverNext waits' S.init.right (side (swapped S.talk)) ∧
    ¬ (waits = true ∧ waits' = true) := by
  set c : Prob := Client.taken S.clientOpened .ctrlChanEst ⟨0, 0⟩ with hc
  have hready : Ready c S.serverOpened :=
    ⟨S.clientConfigured.1, S.serverConfigured.1, nofun, rfl⟩
  obtain ⟨waits, waits', hl, hr, hw⟩ := talk_handshake (S := S) hready
  have hclient := Client.does_start S.clientEnv S.client (inetNtoa_length_le S.serverEnv.addr)
  have hserver := Server.does_start S.serverEnv S.server S.clientEnv.id_length
  have hrole : S.clientOpened.role = .client := S.clientConfigured.1
  have hest : Runs S.clientNext waits (.ret ⟨none, S.clientOpened⟩)
      (Client.takes S.clientEnv S.clientOpened .ctrlChanEst ⟨0, 0⟩ ++
        side (S.handshakeTalk c S.serverOpened)) :=
    Client.runs_takes hrole nofun rfl rfl ⟨0, 0⟩ hl
  refine ⟨waits, waits', ?_, ?_, hw⟩
  · have h := hclient.runs hest
    simp only [talk, side_append, side_msgs_true, side_msgs_false, side_does_true, thenSend]
    exact h
  · have h := hserver.runs hr
    simp only [talk, swapped_append, swapped_msgs, swapped_does, Bool.not_true, Bool.not_false,
      side_append, side_msgs_true, side_msgs_false, side_does_false, thenSend]
    simp only [Server.opens, List.append_assoc] at h
    simp only [List.append_assoc]
    exact h

/-! ### Every reachable state -/

/-- The states that the two parties reach from their starts. -/
def Reachable (σ : Config Item Act Side Side) : Prop :=
  Reaches S.clientNext S.serverNext S.init σ

theorem invariant {σ : Config Item Act Side Side} (h : S.Reachable σ) :
    Invariant S.clientNext S.serverNext S.talk σ := by
  obtain ⟨waits, waits', hl, hr, hw⟩ := S.runs_talk
  exact (Invariant.init hl hr hw).reaches h

/-- The conversation can be followed to its end. -/
theorem exists_end : ∃ σ, S.Reachable σ ∧ σ.leftLog = side S.talk ∧
    σ.rightLog = side (swapped S.talk) := by
  obtain ⟨waits, waits', hl, hr, -⟩ := S.runs_talk
  rw [← List.append_nil S.talk] at hl hr
  obtain ⟨σ, hσ⟩ := exists_passed hl hr rfl rfl
  exact ⟨σ, hσ.reaches, hσ.leftLog, hσ.rightLog⟩

end Parties

/-! ### Plain sessions -/

/-- A side that was started on a host with buffers of 100 bytes. -/
def startedProb (os : List Opt) : Option Prob :=
  configure 100 os (newAndDefault .programStart 0 [])

/-- The options of a memory-to-memory client. -/
def plainOpts (udt : Bool) : List Opt := .client [49] :: if udt then [.udt] else []

/-- A memory-to-memory session in which every search succeeds. -/
def plainParties (udt found : Bool) : Parties where
  client := (startedProb (plainOpts udt)).get (by cases udt <;> rfl)
  server := (startedProb [.server]).get rfl
  clientConfigured := by
    cases udt <;> exact ⟨rfl, .programStart, 0, [], 100, _, (Option.some_get _).symm⟩
  serverConfigured := ⟨rfl, .programStart, 0, [], 100, _, (Option.some_get _).symm⟩
  clientEnv := ⟨List.replicate pIdpktSize 0, length_zeroId, found, true, fun _ => some true⟩
  serverEnv := ⟨(127, 0, 0, 1), ⟨0, 0⟩, fun _ => some true⟩
  starts _ := rfl
  data := ⟨0, 0⟩

end Session
end Probdata
