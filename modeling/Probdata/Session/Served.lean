/-
# Who serves the first test

The server starts its TCP worker before it tells the client to go on, and its
UDT worker after that. So the client's first UDT test is served exactly if the
server happens to have finished with the packet by then, and if it has no TCP
worker left, which it has where the client wants UDT alone and asked for TCP all
the same (`Parties.served_iff`).
-/
import Probdata.Lib.Wire.Path
import Probdata.Session.MemoryToMemory

namespace Probdata
namespace Session

open Wire Bytes

/-- A TCP worker was created and has not been joined: it runs until it is
cancelled. -/
def TcpRuns (s : List (Op Item Act)) : Prop :=
  ∃ h, .create .tcp h ∈ acts s ∧ .join .tcp (some h) ∉ acts s

/-- A client that starts its first test of the kind `k` in the state `σ` finds
the profile and the worker of that kind; and if it is UDT no TCP worker runs. -/
structure Served (k : Kind) (σ : Config Item Act Side Side) : Prop where
  profile : .profile k ∈ acts σ.rightLog
  worker : ∃ h, .create k h ∈ acts σ.rightLog
  alone : k = .udt → ¬ TcpRuns σ.rightLog

/-- The side is between two packets: at the head of its loop, or reading. -/
def Rests (p : Prog Item Act Side) : Prop := (∃ v, p = .ret v) ∨ Waiting p

namespace Parties

variable (S : Parties)

/-- The client starts its UDT tests in the state `σ` when the server rests, and
not after TCP tests that the server has been told there would not be. -/
def InTime (k : Kind) (σ : Config Item Act Side Side) : Prop :=
  k = .udt → Rests σ.right ∧ (S.clientEnv.found = true ∨ ¬ Prob.udtOnly S.client = true)

variable {S} {k : Kind} {σ τ : Config Item Act Side Side} {st : Status} {before later : List Act}
  {P R : List (Entry Item Act)}

/-- What comes after a round begins with a byte that the server reads. -/
def Follows (R : List (Entry Item Act)) : Prop := R = [] ∨ ∃ st G, R = thenSend st G

theorem Follows.side_swapped (h : Follows R) : side (swapped R) = [] ∨
    ∃ t b s, side (swapped R) = .inn t b :: s := by
  rcases h with rfl | ⟨st, G, rfl⟩
  · exact Or.inl rfl
  · refine Or.inr ⟨.status, st.code, side (swapped G), ?_⟩
    rw [thenSend, swapped_append, swapped_msgs, side_append, Bool.not_true, side_msgs_false]
    rfl

/-- When the client is about to search in the round of `st`, the server has sent
`st`, and done some of what it does `later`. -/
theorem at_search {q : Prog Item Act Side} (hσ : S.Reachable σ)
    (htalk : S.talk = P ++ (round st before [.search k] later ++ R))
    (hleft : σ.left = .act (.search k) q) (hP : .search k ∉ acts (side P))
    (hR : .search k ∉ acts (side R)) (hRs : Follows R) :
    ∃ l z waits, later = l ++ z ∧
      acts σ.rightLog = acts (side (swapped P)) ++ .proc st :: (before ++ l) ∧
      Runs S.serverNext waits σ.right (acting z ++ side (swapped R)) := by
  have hA : .act (.search k) ∉ side (P ++ (does false (.proc st :: before) ++
      (msgs false .status [st.code] ++ does true [.proc st]))) := by
    rw [← mem_acts]
    simpa using hP
  have hB : .act (.search k) ∉ side (does false later ++ R) := by
    rw [← mem_acts]
    simpa using hR
  have hX : side (swapped (P ++ (does false (.proc st :: before) ++
      (msgs false .status [st.code] ++ does true [.proc st])))) =
        side (swapped P) ++ acting (.proc st :: before) ++ [.out .status st.code] := by
    simp [outs]
  have hZ : side (swapped (does false later ++ R)) = acting later ++ side (swapped R) := by simp
  obtain ⟨l, z, waits, hl, hlog, hruns⟩ := (S.invariant hσ).at_act
    (htalk.trans (by simp [round, does])) hleft hA hB hX hZ hRs.side_swapped
  obtain ⟨l, z, rfl, rfl, rfl⟩ := List.map_eq_append_iff.mp hl
  refine ⟨l, z, waits, rfl, ?_, hruns⟩
  have hout : acts (.out .status st.code :: acting l : List (Op Item Act)) = l := acts_acting l
  rw [hlog, acts_append, acts_append, acts_acting]
  refine (congrArg (_ ++ ·) hout).trans ?_
  simp

/-! ### The two kinds -/

/-- Only a memory-to-memory client searches. -/
theorem memoryToMemory_of_search (h : .search k ∈ acts (side S.talk)) : S.MemoryToMemory := by
  have htalk : acts (side S.talk) =
      .proc .ctrlChanEst :: acts (side (S.handshakeTalk S.clientEst S.serverOpened)) := by
    simp [talk, clientEst]
  rw [htalk, handshakeTalk] at h
  by_cases hsrc : cstr S.clientEst.srcFile = []
  · by_cases hdst : cstr S.clientEst.dstFile = []
    · exact ⟨hsrc, hdst⟩
    · simp [hsrc, hdst, terminateTalk] at h
  · simp [hsrc, d2dTalk, d2dTcpTalk, d2dUdtTalk] at h

/-- The act that a party is about to perform is one of its side. -/
theorem mem_of_left {e : Act} {q : Prog Item Act Side} (hσ : S.Reachable σ)
    (hleft : σ.left = .act e q) : e ∈ acts (side S.talk) := by
  obtain ⟨s, s', waits, waits', hl, -⟩ := S.invariant hσ
  have hruns := hl.runs
  rw [hleft] at hruns
  cases hruns with
  | act _ =>
    rw [mem_acts, ← hl.log]
    simp

theorem searches_of_run (h : S.clientEnv.run k ≠ none) :
    Client.searches S.clientEnv k = [.search k] :=
  if_neg h

/-- The first TCP test is always served. -/
theorem served_tcp {q : Prog Item Act Side} (hσ : S.Reachable σ)
    (hleft : σ.left = .act (.search .tcp) q) : Served .tcp σ := by
  have hmem := mem_of_left hσ hleft
  have hm := memoryToMemory_of_search hmem
  rw [hm.talk_eq] at hmem
  by_cases hcase : S.clientEnv.found = true ∧ Prob.udtOnly S.client = true
  · rw [S.m2mPart_udt hcase.1 hcase.2] at hmem
    simp [acts_opening, acts_udtTalk, Client.searches] at hmem
  have hrun : S.clientEnv.run .tcp ≠ none := by
    intro hrun
    rw [S.m2mPart_tcp hcase] at hmem
    simp [acts_opening, acts_tcpTalk, Client.searches, hrun] at hmem
  have htalk : S.talk = S.opening ++ (round .runM2mDb [] [] [] ++ thenSend .runM2mTcp []) ++
      (round .runM2mTcp (Server.starts .tcp S.serverDb) [.search .tcp] [] ++
        if S.clientEnv.run .tcp = some true then
          thenSend .runM2mUdt (S.udtTalk S.serverTcp)
        else []) := by
    rw [hm.talk_eq, S.m2mPart_tcp hcase, tcpTalk, searches_of_run hrun]
    simp only [thenSend, List.append_assoc, List.append_nil]
    rfl
  obtain ⟨l, z, waits, hlz, hlog, -⟩ := at_search hσ htalk hleft (by simp [acts_opening])
    (by split <;> simp [acts_udtTalk, Client.searches]) (by
      split
      · exact Or.inr ⟨_, _, rfl⟩
      · exact Or.inl rfl)
  constructor
  · rw [hlog]
    simp [Server.starts]
  · rw [hlog]
    exact ⟨S.serverDb.threads, by simp [Server.starts]⟩
  · intro hk
    cases hk

/-- A server that has to start its UDT worker does not rest. -/
theorem rests_iff {waits : Bool} {p : Prog Item Act Side} {s : Prob} {l z : List Act}
    {Y : List (Op Item Act)} (hlz : Server.starts .udt s = l ++ z)
    (hY : Y = [] ∨ ∃ t b s', Y = .inn t b :: s')
    (h : Runs S.serverNext waits p (acting z ++ Y)) : Rests p ↔ z = [] := by
  constructor
  · intro hrests
    by_contra hz
    obtain ⟨e, z, rfl⟩ := List.exists_cons_of_ne_nil hz
    have he : e ∈ Server.starts .udt s := by simp [hlz]
    rcases hrests with ⟨v, rfl⟩ | hwait
    · cases h with
      | @loop _ q _ hq hruns =>
        have hnot : Runs S.serverNext waits q (.act e :: (acting z ++ Y)) := hruns
        obtain ⟨_ | r, p⟩ := v
        · obtain rfl : Server.iteration S.serverEnv p = q := Option.some.inj hq
          by_cases hgo : Server.goesOn p.status = true
          · refine hnot.not_waiting ?_
            unfold Server.iteration
            rw [if_pos hgo]
            exact ⟨_, _, _, rfl⟩
          · unfold Server.iteration at hnot
            rw [if_neg hgo] at hnot
            cases hnot with
            | act _ => simp [Server.starts] at he
        · cases hq
    · exact h.not_waiting hwait
  · rintro rfl
    exact h.rests hY

/-- Some of what starts the UDT worker, and all of it. -/
theorem started_iff {s : Prob} {l z L : List Act} (hlz : Server.starts .udt s = l ++ z)
    (hL : .profile .udt ∉ L ∧ ∀ h, .create .udt h ∉ L) :
    (.profile .udt ∈ L ++ l ∧ ∃ h, .create .udt h ∈ L ++ l) ↔ z = [] := by
  simp only [List.mem_append, hL.1, hL.2, false_or]
  rcases l with _ | ⟨e, _ | ⟨e', l⟩⟩
  · have hz : Server.starts .udt s = z := hlz
    simp [← hz, Server.starts]
  · obtain ⟨rfl, hz⟩ := List.cons.inj hlz
    have hz : [Act.create .udt s.threads] = z := hz
    simp [← hz]
  · obtain ⟨rfl, hlz'⟩ := List.cons.inj hlz
    obtain ⟨rfl, hnil⟩ := List.cons.inj hlz'
    have hz : z = [] := (List.append_eq_nil_iff.mp hnil.symm).2
    simp [hz]

/-- When the client is about to search in the UDT round, the server has done `l`
of what starts its worker, and all of it if it rests. -/
theorem at_udt {q : Prog Item Act Side} {s : Prob} (hσ : S.Reachable σ)
    (htalk : S.talk = P ++ S.udtTalk s) (hleft : σ.left = .act (.search .udt) q)
    (hP : .search .udt ∉ acts (side P)) :
    ∃ l z, Server.starts .udt s = l ++ z ∧ acts σ.rightLog =
        acts (side (swapped P)) ++ .proc .runM2mUdt :: (Server.stops s ++ l) ∧
      (Rests σ.right ↔ z = []) := by
  have hrun : S.clientEnv.run .udt ≠ none := by
    intro hrun
    have hmem := mem_of_left hσ hleft
    rw [htalk] at hmem
    simp [acts_udtTalk, Client.searches, hrun, hP] at hmem
  rw [udtTalk, searches_of_run hrun] at htalk
  have hY : Follows (if S.clientEnv.run .udt = some true then
      thenSend .programDone (doneTalk (Server.taken s (packet .runM2mUdt))) else []) := by
    split
    · exact Or.inr ⟨_, _, rfl⟩
    · exact Or.inl rfl
  obtain ⟨l, z, waits, hlz, hlog, hruns⟩ := at_search hσ htalk hleft hP (by split <;> simp) hY
  exact ⟨l, z, hlz, hlog, rests_iff hlz hY.side_swapped hruns⟩

theorem served_udt_of_log {s : Prob} {l z L : List Act}
    (hlog : acts σ.rightLog = L ++ l) (hlz : Server.starts .udt s = l ++ z)
    (hL : .profile .udt ∉ L ∧ ∀ h, .create .udt h ∉ L) (hrests : Rests σ.right ↔ z = [])
    (htcp : TcpRuns σ.rightLog ↔ ¬ (S.clientEnv.found = true ∨ ¬ Prob.udtOnly S.client = true)) :
    Served .udt σ ↔ S.InTime .udt σ := by
  have hstarted := started_iff hlz hL
  rw [← hlog, ← hrests] at hstarted
  constructor
  · rintro ⟨h1, h2, h3⟩ -
    exact ⟨hstarted.mp ⟨h1, h2⟩, not_not.mp (htcp.not.mp (h3 rfl))⟩
  · intro h
    obtain ⟨h1, h2⟩ := h rfl
    exact ⟨(hstarted.mpr h1).1, (hstarted.mpr h1).2, fun _ => htcp.not.mpr (not_not.mpr h2)⟩

/-- The conversation up to the UDT round, of a client that begins with TCP. -/
def untilUdt (S : Parties) : List (Entry Item Act) :=
  S.opening ++ (round .runM2mDb [] [] [] ++ thenSend .runM2mTcp
    (round .runM2mTcp (Server.starts .tcp S.serverDb) [.search .tcp] [] ++
      thenSend .runM2mUdt []))

theorem talk_eq_udt (hm : S.MemoryToMemory)
    (hcase : ¬ (S.clientEnv.found = true ∧ Prob.udtOnly S.client = true))
    (hrun : S.clientEnv.run .tcp = some true) : S.talk = S.untilUdt ++ S.udtTalk S.serverTcp := by
  rw [hm.talk_eq, S.m2mPart_tcp hcase, tcpTalk, if_pos hrun, searches_of_run (by simp [hrun])]
  simp only [untilUdt, thenSend, List.append_assoc, List.append_nil]
  rfl

/-- What has been done of a start of UDT is not about the TCP worker. -/
theorem not_tcp_of_starts {s : Prob} {l z : List Act} (hlz : Server.starts .udt s = l ++ z) (h : ℕ) :
    .create .tcp h ∉ l ∧ .join .tcp (some h) ∉ l := by
  have hsub : l ⊆ Server.starts .udt s := by simp [hlz]
  refine ⟨fun hmem => ?_, fun hmem => ?_⟩ <;> simpa [Server.starts] using hsub hmem

/-- Where UDT alone is run, the TCP worker is never created. -/
theorem served_udt_alone {q : Prog Item Act Side} (hσ : S.Reachable σ)
    (hleft : σ.left = .act (.search .udt) q)
    (hcase : S.clientEnv.found = true ∧ Prob.udtOnly S.client = true) :
    Served .udt σ ↔ S.InTime .udt σ := by
  have hm := memoryToMemory_of_search (mem_of_left hσ hleft)
  have htalk : S.talk = S.opening ++ (round .runM2mDb [] [] [] ++ thenSend .runM2mUdt []) ++
      S.udtTalk S.serverDb := by
    rw [hm.talk_eq, S.m2mPart_udt hcase.1 hcase.2]
    simp only [thenSend, List.append_assoc, List.append_nil]
  have hstops : Server.stops S.serverDb = [] := if_pos hcase.2
  obtain ⟨l, z, hlz, hlog, hrests⟩ := at_udt hσ htalk hleft (by simp [acts_opening])
  have hlog' : acts σ.rightLog =
      [.proc .twowayHandshake, .proc .runM2mDb, .proc .runM2mUdt] ++ l := by
    rw [hlog, hstops]
    simp [acts_swapped_opening]
  refine served_udt_of_log hlog' hlz (by simp) hrests ?_
  simp [TcpRuns, hlog', hcase.1, (not_tcp_of_starts hlz _).1]

/-- After a TCP search the TCP worker is joined, unless UDT alone was asked for. -/
theorem served_udt_afterTcp {q : Prog Item Act Side} (hσ : S.Reachable σ)
    (hleft : σ.left = .act (.search .udt) q)
    (hcase : ¬ (S.clientEnv.found = true ∧ Prob.udtOnly S.client = true)) :
    Served .udt σ ↔ S.InTime .udt σ := by
  have hm := memoryToMemory_of_search (mem_of_left hσ hleft)
  have hrun : S.clientEnv.run .tcp = some true := by
    by_contra hrun
    have hmem := mem_of_left hσ hleft
    rw [hm.talk_eq, S.m2mPart_tcp hcase] at hmem
    simp [acts_opening, acts_tcpTalk, Client.searches, hrun] at hmem
  obtain ⟨l, z, hlz, hlog, hrests⟩ := at_udt hσ (talk_eq_udt hm hcase hrun) hleft
    (by simp [untilUdt, acts_opening])
  have hlog' : acts σ.rightLog =
      [.proc .twowayHandshake, .proc .runM2mDb, .proc .runM2mTcp, .profile .tcp,
        .create .tcp S.serverDb.threads, .proc .runM2mUdt] ++ Server.stops S.serverTcp ++ l := by
    rw [hlog]
    simp [untilUdt, acts_swapped_opening, Server.starts]
  refine served_udt_of_log hlog' hlz ?_ hrests ?_
  · unfold Server.stops
    split <;> simp
  by_cases hudt : Prob.udtOnly S.client = true
  · have hstops : Server.stops S.serverTcp = [] := if_pos hudt
    have hnot : ¬ S.clientEnv.found = true := fun hf => hcase ⟨hf, hudt⟩
    refine iff_of_true ⟨S.serverDb.threads, ?_⟩ (by simp [hudt, hnot])
    rw [hlog', hstops]
    simp [(not_tcp_of_starts hlz _).2]
  · have hstops : Server.stops S.serverTcp =
        [.cancel .tcp (some S.serverDb.threads), .join .tcp (some S.serverDb.threads)] :=
      if_neg hudt
    refine iff_of_false ?_ (not_not.mpr (Or.inr hudt))
    rintro ⟨h, hcreate, hjoin⟩
    rw [hlog', hstops] at hcreate hjoin
    simp [(not_tcp_of_starts hlz _).1] at hcreate
    simp [hcreate] at hjoin

/-- Whether the client's first UDT test is served. -/
theorem served_udt_iff {q : Prog Item Act Side} (hσ : S.Reachable σ)
    (hleft : σ.left = .act (.search .udt) q) : Served .udt σ ↔ S.InTime .udt σ := by
  by_cases hcase : S.clientEnv.found = true ∧ Prob.udtOnly S.client = true
  · exact served_udt_alone hσ hleft hcase
  · exact served_udt_afterTcp hσ hleft hcase

/-- In every run the client's first tests are all served exactly if they are all
started in time. -/
theorem served_iff {ts : List (Config Item Act Side Side × Config Item Act Side Side)}
    (h : Path S.clientNext S.serverNext S.init ts τ) :
    (∀ x ∈ ts, ∀ k, Performs (.search k) x.1 x.2 → Served k x.1) ↔
      ∀ x ∈ ts, ∀ k, Performs (.search k) x.1 x.2 → S.InTime k x.1 := by
  have hiff : ∀ x ∈ ts, ∀ k, Performs (.search k) x.1 x.2 → (Served k x.1 ↔ S.InTime k x.1) := by
    intro x hx k hp
    obtain ⟨hreach, hstep⟩ := h.of_mem hx
    obtain ⟨q, hq⟩ := hstep.left_of_performs hp
    cases k with
    | tcp => exact iff_of_true (served_tcp hreach hq) nofun
    | udt => exact served_udt_iff hreach hq
  exact forall₂_congr fun x hx => forall₂_congr fun k hp => hiff x hx k hp

/-! ### Two orders -/

/-- A run to a search, in one of the orders of what both sides do. -/
theorem exists_search {A B : List (Entry Item Act)} {k : Kind} (S : Parties)
    (hl : side S.talk = side A ++ .act (.search k) :: side B)
    (hr : side (swapped S.talk) = side (swapped (A ++ B))) :
    ∃ σ τ ts, Path S.clientNext S.serverNext S.init ts σ ∧ Step S.clientNext S.serverNext σ τ ∧
      Performs (.search k) σ τ ∧ σ.leftLog = side A ∧ σ.rightLog = side (swapped A) := by
  obtain ⟨waits, waits', hruns, hruns', -⟩ := S.runs_talk
  have hl' : side S.talk = side (A ++ .act true (.search k) :: B) := by
    rw [hl, side_append, side_cons]
    rfl
  have hr' : side (swapped S.talk) = side (swapped (A ++ .act true (.search k) :: B)) := by
    rw [hr, swapped_append, swapped_append, side_append, side_append]
    rfl
  rw [hl'] at hruns
  rw [hr'] at hruns'
  obtain ⟨σ, hσ⟩ := exists_passed hruns hruns' rfl rfl
  have hleft : Runs S.clientNext waits σ.left (.act (.search k) :: side B) := hσ.left
  obtain ⟨q, hq⟩ := hleft.exists_act S.serverNext
  obtain ⟨ts, hts⟩ := (hσ.reaches.trans hq).exists_path
  exact ⟨_, _, _, hts, Step.act rfl, rfl, hσ.leftLog, hσ.rightLog⟩

/-- A session in which every search succeeds, up to the server's answer in the
UDT round, and from its next packet on. -/
def untilAnswer (S : Parties) : List (Entry Item Act) :=
  S.untilUdt ++ (does false (.proc .runM2mUdt :: Server.stops S.serverTcp) ++
    msgs false .status [Status.runM2mUdt.code])

def fromDone (S : Parties) : List (Entry Item Act) :=
  thenSend .programDone (doneTalk (Server.taken S.serverTcp (packet .runM2mUdt)))

theorem plainParties_talk : (plainParties false false).talk =
    (plainParties false false).untilAnswer ++ (does true [.proc .runM2mUdt, .search .udt] ++
      (does false (Server.starts .udt (plainParties false false).serverTcp) ++
        (plainParties false false).fromDone)) := by
  have hrun : (plainParties false false).clientEnv.run .udt = some true := rfl
  rw [talk_eq_udt ⟨rfl, rfl⟩ (by decide) rfl, udtTalk, if_pos hrun, searches_of_run (by simp [hrun])]
  simp only [round, untilAnswer, fromDone, List.append_assoc]

/-- The server starts its worker before the client looks at the answer: every
search of the run is started in time. -/
theorem served_iff_plain : ∃ ts τ, Path (plainParties false false).clientNext
      (plainParties false false).serverNext (plainParties false false).init ts τ ∧
    (∃ x ∈ ts, Performs (.search .udt) x.1 x.2) ∧
    ∀ x ∈ ts, ∀ k, Performs (.search k) x.1 x.2 → (plainParties false false).InTime k x.1 := by
  set S := plainParties false false with hS
  set A := S.untilAnswer ++ (does false (Server.starts .udt S.serverTcp) ++
    does true [.proc .runM2mUdt]) with hA
  obtain ⟨σ, τ, ts, hts, hstep, hp, hl, hr⟩ := exists_search (A := A) (B := S.fromDone) (k := .udt) S
    (by rw [hS, plainParties_talk, hA, hS]; simp [acting])
    (by rw [hS, plainParties_talk, hA, hS]; simp)
  have hpath := hts.snoc hstep
  have hacts : acts σ.rightLog = [.proc .twowayHandshake, .proc .runM2mDb, .proc .runM2mTcp,
      .profile .tcp, .create .tcp 0, .proc .runM2mUdt, .cancel .tcp (some 0), .join .tcp (some 0),
      .profile .udt, .create .udt 1] := by
    rw [hr]
    decide
  have hserved : Served .udt σ := by
    refine ⟨by simp [hacts], ⟨1, by simp [hacts]⟩, ?_⟩
    rintro - ⟨h, h1, h2⟩
    rw [hacts] at h1 h2
    simp at h1
    simp [h1] at h2
  have hnot : .search .udt ∉ acts σ.leftLog := by
    rw [hl]
    decide
  refine ⟨_, τ, hpath, ⟨(σ, τ), by simp, hp⟩, (served_iff hpath).mp fun x hx k hk => ?_⟩
  cases k with
  | tcp =>
    obtain ⟨hreach, hstep'⟩ := hpath.of_mem hx
    obtain ⟨q, hq⟩ := hstep'.left_of_performs hk
    exact served_tcp hreach hq
  | udt =>
    rcases List.mem_append.mp hx with hx | hx
    · refine absurd (acts_subset (hts.leftLog_grows hx) ?_) hnot
      have hlog : x.2.leftLog = x.1.leftLog ++ [.act (.search .udt)] := hk
      simp [hlog, acts]
    · rw [List.mem_singleton.mp hx]
      exact hserved

/-- The client starts its first UDT test as soon as it has the answer: there is no
profile and no worker for it. -/
theorem not_served_plain : ∃ ts τ, Path (plainParties false false).clientNext
      (plainParties false false).serverNext (plainParties false false).init ts τ ∧
    ∃ x ∈ ts, Performs (.search .udt) x.1 x.2 ∧ .profile .udt ∉ acts x.1.rightLog ∧
      ¬ Served .udt x.1 := by
  set S := plainParties false false with hS
  obtain ⟨σ, τ, ts, hts, hstep, hp, -, hr⟩ := exists_search
    (A := S.untilAnswer ++ does true [.proc .runM2mUdt])
    (B := does false (Server.starts .udt S.serverTcp) ++ S.fromDone) (k := .udt) S
    (by rw [hS, plainParties_talk]; simp [acting])
    (by rw [hS, plainParties_talk]; simp)
  have hnot : .profile .udt ∉ acts σ.rightLog := by
    rw [hr]
    decide
  exact ⟨_, τ, hts.snoc hstep, (σ, τ), by simp, hp, hnot, fun h => hnot h.profile⟩

end Parties

end Session
end Probdata
