/-
# Memory-to-memory sessions

What the two sides of a session do in the order of their conversation, and the
conversation of a session whose client was started without files.
-/
import Probdata.Session.InStep

namespace Probdata
namespace Session

open Wire Bytes

namespace Parties

/-! ### What the conversation is made of -/

section Talk

variable {st : Status} {before work later : List Act} {G : List (Entry Item Act)}

@[simp] theorem acts_round : acts (side (round st before work later)) = .proc st :: work := by
  rw [side_round]
  exact congrArg (List.cons _) (acts_acting work)

@[simp] theorem acts_swapped_round :
    acts (side (swapped (round st before work later))) = .proc st :: (before ++ later) := by
  rw [side_swapped_round]
  simp [acts]

@[simp] theorem sent_round : sent (side (round st before work later)) = [] := by
  rw [side_round]
  exact sent_acting work

@[simp] theorem acts_thenSend : acts (side (thenSend st G)) = acts (side G) := by
  simp [thenSend]

@[simp] theorem acts_swapped_thenSend :
    acts (side (swapped (thenSend st G))) = acts (side (swapped G)) := by
  simp [thenSend]

@[simp] theorem sent_thenSend :
    sent (side (thenSend st G)) = (.status, st.code) :: sent (side G) := by
  simp [thenSend]

@[simp] theorem acts_exchangeRound (c s : Prob) :
    acts (side (exchangeRound c s)) = [.proc .twowayHandshake] := by
  simp [exchangeRound]

@[simp] theorem acts_swapped_exchangeRound (c s : Prob) :
    acts (side (swapped (exchangeRound c s))) = [.proc .twowayHandshake] := by
  simp [exchangeRound]

@[simp] theorem statuses_exchangeRound (c s : Prob) :
    statuses (sent (side (exchangeRound c s))) = [] := by
  simp [exchangeRound, statuses_map_of_ne (t := .ctrlmsg) (by decide)]

end Talk

variable (S : Parties) (s : Prob)

@[simp] theorem acts_doneTalk : acts (side (doneTalk s)) = [.proc .programDone] := by
  simp [doneTalk]

@[simp] theorem acts_swapped_doneTalk : acts (side (swapped (doneTalk s))) =
    .proc .programDone :: (Server.joins .udt s ++ Server.joins .tcp s ++ Server.forgets s) := by
  simp [doneTalk]

theorem acts_udtTalk : acts (side (S.udtTalk s)) =
    .proc .runM2mUdt :: (Client.searches S.clientEnv .udt ++
      if S.clientEnv.run .udt = some true then [.proc .programDone] else []) := by
  unfold udtTalk
  split <;> simp

theorem acts_tcpTalk (s : Prob) : acts (side (S.tcpTalk s)) =
    .proc .runM2mTcp :: (Client.searches S.clientEnv .tcp ++
      if S.clientEnv.run .tcp = some true then
        acts (side (S.udtTalk (Server.taken s (packet .runM2mTcp))))
      else []) := by
  unfold tcpTalk
  split <;> simp

theorem acts_swapped_udtTalk : acts (side (swapped (S.udtTalk s))) =
    .proc .runM2mUdt :: (Server.stops s ++ Server.starts .udt s ++
      if S.clientEnv.run .udt = some true then
        acts (side (swapped (doneTalk (Server.taken s (packet .runM2mUdt)))))
      else []) := by
  unfold udtTalk
  split <;> simp

theorem statuses_udtTalk : statuses (sent (side (S.udtTalk s))) =
    if S.clientEnv.run .udt = some true then [.programDone] else [] := by
  unfold udtTalk
  split <;> simp [doneTalk, Status.ofCode_code]

/-! ### A client without files -/

/-- The client was started without files. -/
structure MemoryToMemory (S : Parties) : Prop where
  src : cstr S.client.srcFile = []
  dst : cstr S.client.dstFile = []

/-- The client after its connecting. -/
def clientEst : Prob := Client.taken S.clientOpened .ctrlChanEst ⟨0, 0⟩

/-- The conversation up to the client's `P_RUN_M2M_DB`. -/
def opening : List (Entry Item Act) :=
  msgs true .id S.clientEnv.id ++
    (msgs false .len (le32 (BitVec.ofNat 32 (inetNtoa S.serverEnv.addr).length)) ++
      msgs false .addr (inetNtoa S.serverEnv.addr)) ++
    (msgs false .status [Status.ctrlChanEst.code] ++ (does true [.proc .ctrlChanEst] ++
      thenSend .twowayHandshake (exchangeRound S.clientEst S.serverOpened ++
        thenSend .runM2mDb [])))

/-- The rest of it. -/
def m2mPart : List (Entry Item Act) :=
  S.m2mTalk (agreed S.clientEst S.serverOpened) (accepted S.clientEst S.serverOpened)

/-- The server after `P_RUN_M2M_DB`, and after `P_RUN_M2M_TCP`. -/
def serverDb : Prob := Server.taken (accepted S.clientEst S.serverOpened) (packet .runM2mDb)

def serverTcp : Prob := Server.taken S.serverDb (packet .runM2mTcp)

variable {S}

theorem MemoryToMemory.talk_eq (h : S.MemoryToMemory) : S.talk = S.opening ++ S.m2mPart := by
  have hsrc : ¬ cstr S.clientEst.srcFile ≠ [] := not_not.mpr h.src
  have hdst : ¬ cstr S.clientEst.dstFile ≠ [] := not_not.mpr h.dst
  have hshake : S.handshakeTalk S.clientEst S.serverOpened =
      exchangeRound S.clientEst S.serverOpened ++ thenSend .runM2mDb S.m2mPart := by
    rw [handshakeTalk, if_neg hsrc, if_neg hdst]
    rfl
  have htalk : S.talk = msgs true .id S.clientEnv.id ++
      (msgs false .len (le32 (BitVec.ofNat 32 (inetNtoa S.serverEnv.addr).length)) ++
        msgs false .addr (inetNtoa S.serverEnv.addr)) ++
      (msgs false .status [Status.ctrlChanEst.code] ++ (does true [.proc .ctrlChanEst] ++
        thenSend .twowayHandshake (S.handshakeTalk S.clientEst S.serverOpened))) := rfl
  rw [htalk, hshake, opening]
  simp only [thenSend, List.append_assoc, List.append_nil]

variable (S)

theorem acts_opening : acts (side S.opening) = [.proc .ctrlChanEst, .proc .twowayHandshake] := by
  simp [opening]

theorem acts_swapped_opening : acts (side (swapped S.opening)) = [.proc .twowayHandshake] := by
  simp [opening]

theorem statuses_opening :
    statuses (sent (side S.opening)) = [.twowayHandshake, .runM2mDb] := by
  simp [opening, statuses_map_of_ne (t := .id) nofun, Status.ofCode_code]

/-- A client that has a record and wants UDT alone asks for UDT at once. -/
theorem m2mPart_udt (hf : S.clientEnv.found = true) (ht : Prob.udtOnly S.client = true) :
    S.m2mPart = round .runM2mDb [] [] [] ++ thenSend .runM2mUdt (S.udtTalk S.serverDb) := by
  have h : (S.clientEnv.found && Prob.udtOnly S.client) = true := by rw [hf, ht, Bool.and_self]
  exact congrArg (round .runM2mDb [] [] [] ++ ·) (if_pos h)

theorem m2mPart_tcp (h : ¬ (S.clientEnv.found = true ∧ Prob.udtOnly S.client = true)) :
    S.m2mPart = round .runM2mDb [] [] [] ++ thenSend .runM2mTcp (S.tcpTalk S.serverDb) := by
  have h : ¬ (S.clientEnv.found && Prob.udtOnly S.client) = true := by rwa [Bool.and_eq_true]
  exact congrArg (round .runM2mDb [] [] [] ++ ·) (if_neg h)

theorem sent_subset {l L : List (Op Item Act)} (h : l <+: L) :
    statuses (sent l) ⊆ statuses (sent L) := by
  obtain ⟨r, rfl⟩ := h
  simp

theorem acts_subset {l L : List (Op Item Act)} (h : l <+: L) : acts l ⊆ acts L := by
  obtain ⟨r, rfl⟩ := h
  simp

end Parties

end Session
end Probdata
