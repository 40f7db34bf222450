/-
# A session in lock step

In every state that a client and a server reach, whatever their configuration
and what they meet, the two are at a point of their conversation
(`Parties.inStep`): no byte is taken for another item than the one it was sent
as, no status is lost or processed twice, the phases are entered once and in the
same order, and neither waits for the other in vain.
-/
import Probdata.Session.Conversation

namespace Probdata
namespace Session

open Wire Bytes

/-! ### Statuses -/

/-- The statuses among the bytes of a channel. -/
def statuses (bs : List (Item × UInt8)) : List Status :=
  bs.filterMap fun x => if x.1 = .status then some (Status.ofCode x.2) else none

/-- The statuses that were processed. -/
def procs (s : List (Op Item Act)) : List Status :=
  (acts s).filterMap fun e =>
    match e with
    | .proc st => some st
    | _ => none

/-- The statuses of the phases of a run. -/
def Status.isRun : Status → Bool
  | .runM2mDb | .runM2mTcp | .runM2mUdt | .runD2dDb | .runD2dTcp | .runD2dUdt => true
  | _ => false

/-- The phases that were entered. -/
def phases (s : List (Op Item Act)) : List Status := (procs s).filter Status.isRun

@[simp] theorem statuses_append (a b : List (Item × UInt8)) :
    statuses (a ++ b) = statuses a ++ statuses b :=
  List.filterMap_append

@[simp] theorem statuses_nil : statuses [] = [] := rfl

@[simp] theorem statuses_cons_status (b : UInt8) (bs : List (Item × UInt8)) :
    statuses ((.status, b) :: bs) = Status.ofCode b :: statuses bs :=
  rfl

theorem statuses_map_of_ne {t : Item} (ht : t ≠ .status) (bs : List UInt8) :
    statuses (bs.map (Prod.mk t)) = [] := by
  rw [statuses, List.filterMap_eq_nil_iff]
  intro x hx
  obtain ⟨b, -, rfl⟩ := List.mem_map.mp hx
  exact if_neg ht

@[simp] theorem procs_append (a b : List (Op Item Act)) : procs (a ++ b) = procs a ++ procs b := by
  rw [procs, acts_append, List.filterMap_append]
  rfl

@[simp] theorem phases_append (a b : List (Op Item Act)) :
    phases (a ++ b) = phases a ++ phases b := by
  rw [phases, procs_append, List.filter_append]
  rfl

/-- No status is read or processed. -/
def Neutral (s : List (Op Item Act)) : Prop := statuses (got s) = [] ∧ procs s = []

theorem Neutral.append {s s' : List (Op Item Act)} (h : Neutral s) (h' : Neutral s') :
    Neutral (s ++ s') := by
  refine ⟨?_, ?_⟩
  · rw [got_append, statuses_append, h.1, h'.1]
    rfl
  · rw [procs_append, h.2, h'.2]
    rfl

/-- A status that is read is processed at once, and no other is. -/
inductive InOrder : List (Op Item Act) → Prop
  | nil : InOrder []
  | status (b : UInt8) {s : List (Op Item Act)} :
      InOrder s → InOrder (.inn .status b :: .act (.proc (Status.ofCode b)) :: s)
  | other {o : Op Item Act} {s : List (Op Item Act)} :
      Neutral [o] → InOrder s → InOrder (o :: s)

theorem InOrder.neutral_append {s s' : List (Op Item Act)} (hs : Neutral s) (h : InOrder s') :
    InOrder (s ++ s') := by
  induction s with
  | nil => exact h
  | cons o s ih =>
    rw [← List.singleton_append] at hs
    simp only [Neutral, got_append, statuses_append, procs_append, List.append_eq_nil_iff] at hs
    exact .other ⟨hs.1.1, hs.2.1⟩ (ih ⟨hs.1.2, hs.2.2⟩)

/-- What is processed are the statuses read, except that the last one read may
still have to be. -/
theorem InOrder.of_initial {L l : List (Op Item Act)} (h : InOrder L) (hl : l <+: L) :
    ∃ r, statuses (got l) = procs l ++ r ∧ r.length ≤ 1 := by
  induction h generalizing l with
  | nil =>
    rw [List.prefix_nil.mp hl]
    exact ⟨[], rfl, Nat.zero_le _⟩
  | @status b s _ ih =>
    rcases l with _ | ⟨o, l⟩
    · exact ⟨[], rfl, Nat.zero_le _⟩
    obtain ⟨rfl, hl1⟩ := List.cons_prefix_cons.mp hl
    rcases l with _ | ⟨o, l⟩
    · exact ⟨[Status.ofCode b], rfl, Nat.le_refl _⟩
    obtain ⟨rfl, hl2⟩ := List.cons_prefix_cons.mp hl1
    obtain ⟨r, hr, hlen⟩ := ih hl2
    refine ⟨r, ?_, hlen⟩
    show Status.ofCode b :: statuses (got l) = Status.ofCode b :: procs l ++ r
    rw [hr]
    rfl
  | @other o s ho _ ih =>
    rcases l with _ | ⟨o', l⟩
    · exact ⟨[], rfl, Nat.zero_le _⟩
    obtain ⟨rfl, hl1⟩ := List.cons_prefix_cons.mp hl
    obtain ⟨r, hr, hlen⟩ := ih hl1
    refine ⟨r, ?_, hlen⟩
    rw [← List.singleton_append, got_append, statuses_append, procs_append, ho.1, ho.2]
    exact hr

/-- Nothing is read once `P_PROGRAM_DONE` has been processed. -/
def Quiet (L : List (Op Item Act)) : Prop :=
  ∀ l r, L = l ++ r → .programDone ∈ procs l → got r = []

theorem Quiet.append {s s' : List (Op Item Act)} (hs : .programDone ∉ procs s) (h : Quiet s') :
    Quiet (s ++ s') := by
  intro l r hlr hmem
  rcases List.append_eq_append_iff.mp hlr with ⟨a, rfl, rfl⟩ | ⟨a, rfl, rfl⟩
  · refine h a r rfl ?_
    rw [procs_append, List.mem_append] at hmem
    exact hmem.resolve_left hs
  · rw [procs_append, List.mem_append, not_or] at hs
    exact absurd hmem hs.1

theorem Quiet.of_got {s : List (Op Item Act)} (h : got s = []) : Quiet s := by
  rintro l r rfl -
  rw [got_append, List.append_eq_nil_iff] at h
  exact h.2

/-- Nothing is read after the status that is read first. -/
theorem Quiet.of_status {b : UInt8} {st : Status} {s : List (Op Item Act)} (h : got s = []) :
    Quiet (.inn .status b :: .act (.proc st) :: s) := by
  intro l r hlr hmem
  rcases l with _ | ⟨o, l⟩
  · cases hmem
  have htail := congrArg got (List.cons.inj hlr).2
  rw [List.append_eq, got_append] at htail
  exact (List.append_eq_nil_iff.mp (htail.symm.trans h)).2

/-! ### The conversation -/

namespace Parties

variable {S : Parties} {st st' : Status} {c s : Prob} {before work later : List Act}
  {R G : List (Entry Item Act)}

/-- With the packet `st` on its way, what comes is in order on both sides; both
enter the same phases, each once, and none before that of `st`. -/
structure Sound (st : Status) (G : List (Entry Item Act)) : Prop where
  clientOrder : InOrder (side G)
  serverOrder : InOrder (.inn .status st.code :: side (swapped G))
  samePhases : phases (side (swapped G)) = phases (side G)
  sorted : (phases (side G)).Pairwise fun a b => a.code.toNat < b.code.toNat
  above : ∀ a ∈ phases (side G), st.code.toNat ≤ a.code.toNat
  clientQuiet : Quiet (side G)
  serverQuiet : Quiet (side (swapped G))

/-- Acts among which no packet is processed. -/
def Silent (es : List Act) : Prop := ∀ st, .proc st ∉ es

theorem neutral_acting {es : List Act} (h : Silent es) : Neutral (acting es) := by
  refine ⟨by rw [got_acting]; rfl, ?_⟩
  rw [procs, acts_acting, List.filterMap_eq_nil_iff]
  intro e he
  cases e with
  | proc st => exact absurd he (h st)
  | _ => rfl

theorem neutral_outs (t : Item) (bs : List UInt8) : Neutral (outs t bs) := by
  refine ⟨by rw [got_outs]; rfl, ?_⟩
  rw [procs, acts_outs]
  rfl

theorem neutral_inns {t : Item} (ht : t ≠ .status) (bs : List UInt8) : Neutral (inns t bs) := by
  constructor
  · rw [got_inns, statuses_map_of_ne ht]
  · rw [procs, acts_inns]
    rfl

theorem procs_status (b : UInt8) (st : Status) (s : List (Op Item Act)) :
    procs (.inn .status b :: .act (.proc st) :: s) = st :: procs s :=
  rfl

theorem procs_proc (st : Status) (s : List (Op Item Act)) :
    procs (.act (.proc st) :: s) = st :: procs s :=
  rfl

theorem phases_proc (st : Status) (s : List (Op Item Act)) :
    phases (.act (.proc st) :: s) = phases [.act (.proc st)] ++ phases s :=
  phases_append [.act (.proc st)] s

theorem phases_status (b : UInt8) (st : Status) (s : List (Op Item Act)) :
    phases (.inn .status b :: .act (.proc st) :: s) = phases [.act (.proc st)] ++ phases s :=
  phases_append [.inn .status b, .act (.proc st)] s

theorem phases_neutral_append {w : List (Op Item Act)} (hw : Neutral w) (s : List (Op Item Act)) :
    phases (w ++ s) = phases s := by
  rw [phases, procs_append, hw.2]
  rfl

/-- A status is the only phase that processing it can enter. -/
theorem mem_phases_singleton {st a : Status} (h : a ∈ phases [.act (.proc st)]) : a = st :=
  List.mem_singleton.mp (List.mem_of_mem_filter h)

/-- A round `R` about the status `st`, as each side has it. -/
structure SoundRound (st : Status) (R : List (Entry Item Act)) : Prop where
  client : ∃ w, side R = .inn .status st.code :: .act (.proc st) :: w ∧ Neutral w
  server : ∃ w, side (swapped R) = .act (.proc st) :: w ∧ Neutral w

theorem soundRound (hb : Silent before) (hw : Silent work) (hl : Silent later) :
    SoundRound st (round st before work later) := by
  exact ⟨⟨_, side_round st before work later, neutral_acting hw⟩,
    ⟨_, side_swapped_round st before work later,
      (neutral_acting hb).append ((neutral_outs _ _).append (neutral_acting hl))⟩⟩

theorem soundRound_exchange (c s : Prob) :
    SoundRound .twowayHandshake (exchangeRound c s) :=
  ⟨⟨_, side_exchangeRound c s, (neutral_outs _ _).append (neutral_inns (t := .ctrlmsg) nofun _)⟩,
    ⟨_, side_swapped_exchangeRound c s,
      (neutral_outs _ _).append ((neutral_inns (t := .ctrlmsg) nofun _).append (neutral_outs _ _))⟩⟩

/-- What follows the round of `st`. -/
structure SoundAfter (st : Status) (G : List (Entry Item Act)) : Prop where
  clientOrder : InOrder (side G)
  serverOrder : InOrder (side (swapped G))
  samePhases : phases (side (swapped G)) = phases (side G)
  sorted : (phases (side G)).Pairwise fun a b => a.code.toNat < b.code.toNat
  above : ∀ a ∈ phases (side G), st.code.toNat < a.code.toNat
  clientQuiet : Quiet (side G)
  serverQuiet : Quiet (side (swapped G))

theorem soundAfter_nil : SoundAfter st [] :=
  ⟨.nil, .nil, rfl, .nil, nofun, .of_got rfl, .of_got rfl⟩

theorem Sound.after (h : Sound st' G) (hlt : st.code.toNat < st'.code.toNat) :
    SoundAfter st (thenSend st' G) := by
  have hout : Neutral (outs .status [st'.code]) := neutral_outs .status [st'.code]
  have hs : side (thenSend st' G) = outs .status [st'.code] ++ side G := by
    rw [thenSend, side_append, side_msgs_true]
  have hs' : side (swapped (thenSend st' G)) = .inn .status st'.code :: side (swapped G) := by
    rw [thenSend, swapped_append, swapped_msgs, side_append]
    rfl
  have hph : phases (side (thenSend st' G)) = phases (side G) := by
    rw [hs, phases_neutral_append hout]
  constructor
  · rw [hs]
    exact h.clientOrder.neutral_append hout
  · rw [hs']
    exact h.serverOrder
  · rw [hph, hs']
    exact h.samePhases
  · rw [hph]
    exact h.sorted
  · rw [hph]
    exact fun a ha => Nat.lt_of_lt_of_le hlt (h.above a ha)
  · rw [hs]
    exact h.clientQuiet.append (by rw [hout.2]; exact List.not_mem_nil)
  · rw [hs']
    exact h.serverQuiet.append (s := [.inn .status st'.code]) List.not_mem_nil

theorem SoundRound.append (hR : SoundRound st R) (hst : Status.ofCode st.code = st)
    (hdone : st ≠ .programDone) (h : SoundAfter st G) : Sound st (R ++ G) := by
  obtain ⟨⟨w, hw, hwn⟩, ⟨w', hw', hwn'⟩⟩ := hR
  have hs : side (R ++ G) = .inn .status st.code :: .act (.proc st) :: (w ++ side G) := by
    rw [side_append, hw]
    rfl
  have hs' : side (swapped (R ++ G)) = .act (.proc st) :: (w' ++ side (swapped G)) := by
    rw [swapped_append, side_append, hw']
    rfl
  have hph : phases (side (R ++ G)) = phases [.act (.proc st)] ++ phases (side G) := by
    rw [hs, phases_status, phases_neutral_append hwn]
  have hnot : ∀ {v : List (Op Item Act)}, Neutral v → .programDone ∉ st :: procs v := by
    intro v hv
    rw [hv.2]
    simpa using Ne.symm hdone
  constructor
  · rw [hs]
    have h1 := InOrder.status st.code (h.clientOrder.neutral_append hwn)
    rwa [hst] at h1
  · rw [hs']
    have h1 := InOrder.status st.code (h.serverOrder.neutral_append hwn')
    rwa [hst] at h1
  · rw [hph, hs', phases_proc, phases_neutral_append hwn', h.samePhases]
  · rw [hph, List.pairwise_append]
    refine ⟨?_, h.sorted, ?_⟩
    · exact (List.pairwise_singleton _ st).sublist List.filter_sublist
    · intro a ha b hb
      rw [mem_phases_singleton ha]
      exact h.above b hb
  · rw [hph]
    intro a ha
    rcases List.mem_append.mp ha with ha | ha
    · rw [mem_phases_singleton ha]
    · exact Nat.le_of_lt (h.above a ha)
  · rw [hs]
    exact h.clientQuiet.append (s := .inn .status st.code :: .act (.proc st) :: w)
      (by rw [procs_status]; exact hnot hwn)
  · rw [hs']
    exact h.serverQuiet.append (s := .act (.proc st) :: w')
      (by rw [procs_proc]; exact hnot hwn')

theorem silent_nil : Silent [] := fun _ => List.not_mem_nil

theorem silent_stops (s : Prob) : Silent (Server.stops s) := by
  intro st
  unfold Server.stops
  split <;> simp

theorem silent_joins (k : Kind) (s : Prob) : Silent (Server.joins k s) := by
  intro st
  unfold Server.joins
  split <;> simp

theorem silent_starts (k : Kind) (s : Prob) : Silent (Server.starts k s) := by
  intro st
  simp [Server.starts]

theorem silent_forgets (s : Prob) : Silent (Server.forgets s) := by
  intro st
  simp [Server.forgets]

theorem silent_searches (env : ClientEnv) (k : Kind) : Silent (Client.searches env k) := by
  intro st
  unfold Client.searches
  split <;> simp

theorem Silent.append {es es' : List Act} (h : Silent es) (h' : Silent es') : Silent (es ++ es') :=
  fun st hmem => (List.mem_append.mp hmem).elim (h st) (h' st)

/-- The last packet of a conversation, which the client may still process. -/
theorem sound_last {w : List (Op Item Act)} (hst : Status.ofCode st.code = st)
    (hrun : st.isRun = false)
    (hs : side G = [] ∨ side G = [.inn .status st.code, .act (.proc st)])
    (hs' : side (swapped G) = .act (.proc st) :: w) (hw : Neutral w) (hgot : got w = []) :
    Sound st G := by
  have hst' : phases [.act (.proc st)] = [] := by
    show List.filter Status.isRun [st] = []
    simp [hrun]
  have hph : phases (side G) = [] := by
    rcases hs with hs | hs <;> rw [hs]
    · rfl
    · exact hst'
  have hph' : phases (side (swapped G)) = [] := by
    rw [hs', phases_proc, hst', ← List.append_nil w, phases_neutral_append hw]
    rfl
  refine ⟨?_, ?_, by rw [hph, hph'], by rw [hph]; exact .nil, by rw [hph]; exact nofun, ?_, ?_⟩
  · rcases hs with hs | hs <;> rw [hs]
    · exact .nil
    · have h := InOrder.status st.code .nil
      rwa [hst] at h
  · have h := InOrder.status st.code (InOrder.nil.neutral_append hw)
    rwa [hst, List.append_nil, ← hs'] at h
  · rcases hs with hs | hs <;> rw [hs]
    · exact Quiet.of_got rfl
    · exact Quiet.of_status rfl
  · rw [hs']
    exact Quiet.of_got hgot

theorem sound_done (s : Prob) : Sound .programDone (doneTalk s) := by
  have hjoins := (silent_joins .udt s).append (silent_joins .tcp s)
  have hw := ((neutral_acting hjoins).append ((neutral_outs .status [Status.programDone.code]).append
    (neutral_acting silent_nil))).append (neutral_acting (silent_forgets s))
  refine sound_last rfl rfl (Or.inr ?_) ?_ hw (by simp)
  · rw [doneTalk, side_append, side_round, side_does_false]
    rfl
  · rw [doneTalk, swapped_append, side_append, side_swapped_round, swapped_does, Bool.not_false,
      side_does_true]
    rfl

theorem sound_terminate (s : Prob) : Sound .clientTerminate (terminateTalk s) := by
  refine sound_last rfl rfl (Or.inl ?_) ?_ (neutral_acting (silent_forgets s)) (got_acting _)
  · rw [terminateTalk, side_append, side_does_false, side_does_false]
    rfl
  · rw [terminateTalk, swapped_append, side_append, swapped_does, swapped_does, Bool.not_false,
      side_does_true, side_does_true]
    rfl

variable (S)

theorem sound_udt (s : Prob) : Sound .runM2mUdt (S.udtTalk s) := by
  have hR : SoundRound .runM2mUdt _ := soundRound (silent_stops s)
    (silent_searches S.clientEnv .udt) (silent_starts .udt s)
  refine hR.append rfl nofun ?_
  split
  · exact (sound_done _).after (by decide)
  · exact soundAfter_nil

theorem sound_tcp (s : Prob) : Sound .runM2mTcp (S.tcpTalk s) := by
  have hR : SoundRound .runM2mTcp _ := soundRound (silent_starts .tcp s)
    (silent_searches S.clientEnv .tcp) silent_nil
  refine hR.append rfl nofun ?_
  split
  · exact (S.sound_udt _).after (by decide)
  · exact soundAfter_nil

theorem sound_m2m (c s : Prob) : Sound .runM2mDb (S.m2mTalk c s) := by
  refine (soundRound silent_nil silent_nil silent_nil).append rfl nofun ?_
  split
  · exact (S.sound_udt _).after (by decide)
  · exact (S.sound_tcp _).after (by decide)

theorem sound_d2d (s : Prob) : Sound .runD2dDb (d2dTalk s) := by
  have hplain : ∀ st, SoundRound st (round st [] [] []) := fun st =>
    soundRound silent_nil silent_nil silent_nil
  have hudt : ∀ s, Sound .runD2dUdt (d2dUdtTalk s) := fun s =>
    (hplain _).append rfl nofun ((sound_done _).after (by decide))
  have htcp : ∀ s, Sound .runD2dTcp (d2dTcpTalk s) := fun s =>
    (hplain _).append rfl nofun ((hudt _).after (by decide))
  exact (hplain _).append rfl nofun ((htcp _).after (by decide))

theorem sound_handshake (c s : Prob) : Sound .twowayHandshake (S.handshakeTalk c s) := by
  refine (soundRound_exchange c s).append rfl nofun ?_
  split
  · exact (sound_d2d _).after (by decide)
  split
  · exact (sound_terminate _).after (by decide)
  · exact (S.sound_m2m _ _).after (by decide)

theorem SoundAfter.neutral_append {A : List (Entry Item Act)} (hA : Neutral (side A))
    (hA' : Neutral (side (swapped A))) (h : SoundAfter st G) : SoundAfter st (A ++ G) := by
  have hph : phases (side (A ++ G)) = phases (side G) := by
    rw [side_append, phases_neutral_append hA]
  constructor
  · rw [side_append]
    exact h.clientOrder.neutral_append hA
  · rw [swapped_append, side_append]
    exact h.serverOrder.neutral_append hA'
  · rw [hph, swapped_append, side_append, phases_neutral_append hA']
    exact h.samePhases
  · rw [hph]
    exact h.sorted
  · rw [hph]
    exact h.above
  · rw [side_append]
    exact h.clientQuiet.append (by rw [hA.2]; exact List.not_mem_nil)
  · rw [swapped_append, side_append]
    exact h.serverQuiet.append (by rw [hA'.2]; exact List.not_mem_nil)

/-- The server's first status, which only the client processes. -/
theorem SoundAfter.established (h : SoundAfter st G) :
    SoundAfter st (msgs false .status [Status.ctrlChanEst.code] ++
      (does true [.proc .ctrlChanEst] ++ G)) := by
  have hout : Neutral (outs .status [Status.ctrlChanEst.code]) := neutral_outs _ _
  have hs : side (msgs false .status [Status.ctrlChanEst.code] ++
      (does true [.proc .ctrlChanEst] ++ G)) =
        .inn .status Status.ctrlChanEst.code :: .act (.proc .ctrlChanEst) :: side G := by
    rw [side_append, side_append, side_msgs_false, side_does_true]
    rfl
  have hs' : side (swapped (msgs false .status [Status.ctrlChanEst.code] ++
      (does true [.proc .ctrlChanEst] ++ G))) =
        outs .status [Status.ctrlChanEst.code] ++ side (swapped G) := by
    rw [swapped_append, swapped_append, swapped_msgs, swapped_does, side_append, side_append,
      Bool.not_false, Bool.not_true, side_msgs_true, side_does_false]
    rfl
  have hph : phases (.inn .status Status.ctrlChanEst.code :: .act (.proc .ctrlChanEst) :: side G) =
      phases (side G) :=
    phases_status _ _ _
  constructor <;> simp only [hs, hs']
  · exact .status _ h.clientOrder
  · exact h.serverOrder.neutral_append hout
  · rw [hph, phases_neutral_append hout]
    exact h.samePhases
  · rw [hph]
    exact h.sorted
  · rw [hph]
    exact h.above
  · exact h.clientQuiet.append
      (s := [.inn .status Status.ctrlChanEst.code, .act (.proc .ctrlChanEst)]) (by decide)
  · exact h.serverQuiet.append (by rw [hout.2]; exact List.not_mem_nil)

theorem sound_talk : SoundAfter .programStart S.talk := by
  have hafter : SoundAfter .programStart _ :=
    (S.sound_handshake (Client.taken S.clientOpened .ctrlChanEst ⟨0, 0⟩) S.serverOpened).after
      (by decide)
  have h := hafter.established
  refine h.neutral_append ?_ ?_
  · rw [side_append, side_append, side_msgs_true, side_msgs_false, side_msgs_false]
    exact (neutral_outs _ _).append ((neutral_inns (t := .len) nofun _).append
      (neutral_inns (t := .addr) nofun _))
  · rw [swapped_append, swapped_append, swapped_msgs, swapped_msgs, swapped_msgs, side_append,
      side_append, Bool.not_false, Bool.not_true, side_msgs_true, side_msgs_false, side_msgs_true]
    exact (neutral_inns (t := .id) nofun _).append ((neutral_outs _ _).append (neutral_outs _ _))

/-! ### Every reachable state -/

/-- A state is in lock step.

* `toClient`, `toServer`: what was read and is in flight is what was sent, each
  byte as the same item
* `clientReads`, `serverReads`: what is in flight is what is read next
* `clientStatuses`, `serverStatuses`: the statuses processed are those that the
  other side sent, in order, except for at most one of those read
* `clientPhases`, `serverPhases`, `samePhases`: the phases entered
* `progress`, `noDeadlock`: somebody can go on, unless both have ended
* `ends`: nothing is left in flight in the end -/
structure InStep (σ : Config Item Act Side Side) : Prop where
  toClient : sent σ.rightLog = got σ.leftLog ++ σ.toLeft
  toServer : sent σ.leftLog = got σ.rightLog ++ σ.toRight
  clientReads : ∃ waits s, Runs S.clientNext waits σ.left s ∧ σ.toLeft <+: got s
  serverReads : ∃ waits s, Runs S.serverNext waits σ.right s ∧ σ.toRight <+: got s
  clientStatuses : ∃ r, statuses (got σ.leftLog) = procs σ.leftLog ++ r ∧ r.length ≤ 1 ∧
    procs σ.leftLog <+: statuses (sent σ.rightLog)
  serverStatuses : ∃ r, statuses (got σ.rightLog) = procs σ.rightLog ++ r ∧ r.length ≤ 1 ∧
    procs σ.rightLog <+: statuses (sent σ.leftLog)
  clientPhases : (phases σ.leftLog).Nodup
  serverPhases : (phases σ.rightLog).Nodup
  samePhases : phases σ.leftLog <+: phases σ.rightLog ∨ phases σ.rightLog <+: phases σ.leftLog
  progress : (Finished S.clientNext σ.left ∧ Finished S.serverNext σ.right) ∨
    ∃ τ, Step S.clientNext S.serverNext σ τ
  noDeadlock : Waiting σ.left → Waiting σ.right → ¬ (σ.toLeft = [] ∧ σ.toRight = [])
  ends : .programDone ∈ procs σ.leftLog → .programDone ∈ procs σ.rightLog →
    σ.toLeft = [] ∧ σ.toRight = []

theorem phases_initial {a b : List (Op Item Act)} (h : a <+: b) : phases a <+: phases b := by
  obtain ⟨s, rfl⟩ := h
  exact ⟨phases s, (phases_append a s).symm⟩

/-- The statuses that one side has processed, of those that the other sent. -/
theorem procs_initial {L l l' : List (Op Item Act)} {inbox : List (Item × UInt8)}
    (hL : InOrder L) (hl : l <+: L) (hsent : sent l' = got l ++ inbox) :
    ∃ r, statuses (got l) = procs l ++ r ∧ r.length ≤ 1 ∧ procs l <+: statuses (sent l') := by
  obtain ⟨r, hr, hlen⟩ := hL.of_initial hl
  refine ⟨r, hr, hlen, r ++ statuses inbox, ?_⟩
  rw [hsent, statuses_append, hr, List.append_assoc]

theorem phases_nodup {L l : List (Op Item Act)} (hl : l <+: L)
    (h : (phases L).Pairwise fun a b => a.code.toNat < b.code.toNat) : (phases l).Nodup := by
  have hl' := h.sublist (phases_initial hl).sublist
  exact hl'.imp fun hlt heq => absurd hlt (by rw [heq]; exact Nat.lt_irrefl _)

/-- Every reachable state of every session is in lock step. -/
theorem inStep {σ : Config Item Act Side Side} (h : S.Reachable σ) : S.InStep σ := by
  have hinv := S.invariant h
  have hsound := S.sound_talk
  obtain ⟨s, hs, hin⟩ := hinv.leftLog
  obtain ⟨s', hs', hin'⟩ := hinv.swap.leftLog
  have hl : σ.leftLog <+: side S.talk := ⟨s, hs.symm⟩
  have hr : σ.rightLog <+: side (swapped S.talk) := ⟨s', hs'.symm⟩
  have hsame := phases_initial hr
  rw [hsound.samePhases] at hsame
  have hsorted := hsound.sorted
  exact {
    toClient := hinv.got_toLeft
    toServer := hinv.swap.got_toLeft
    clientReads := hinv.toLeft_initial
    serverReads := hinv.swap.toLeft_initial
    clientStatuses := procs_initial hsound.clientOrder hl hinv.got_toLeft
    serverStatuses := procs_initial hsound.serverOrder hr hinv.swap.got_toLeft
    clientPhases := phases_nodup hl hsorted
    serverPhases := phases_nodup hr (hsound.samePhases ▸ hsorted)
    samePhases := List.prefix_or_prefix_of_prefix (phases_initial hl) hsame
    progress := hinv.progress
    noDeadlock := hinv.not_waiting
    ends := by
      intro hdone hdone'
      have h1 := hsound.clientQuiet _ _ hs hdone
      have h2 := hsound.serverQuiet _ _ hs' hdone'
      rw [h1] at hin
      rw [h2] at hin'
      exact ⟨List.prefix_nil.mp hin, List.prefix_nil.mp hin'⟩ }

/-- A session that goes through all its phases, in its last state. -/
theorem inStep_plain : ∃ σ, (plainParties false false).Reachable σ ∧
    procs σ.leftLog = [.ctrlChanEst, .twowayHandshake, .runM2mDb, .runM2mTcp, .runM2mUdt,
      .programDone] ∧
    (plainParties false false).InStep σ := by
  obtain ⟨σ, hσ, hl, -⟩ := (plainParties false false).exists_end
  refine ⟨σ, hσ, ?_, inStep _ hσ⟩
  rw [hl]
  decide

end Parties

end Session
end Probdata
