/-
# Two clients that differ in what was never written

Two clients are on one `Level` if they differ in the address of their control block,
in what was never written, and in what was read from there. `Reads` is a step that
reads such a value; any other keeps two clients on one level, which then show the same
(`Agree.step`).
-/
import Probdata.Session.Whole

namespace Probdata
namespace Session

open Wire Bytes Text Fastprof

/-! ### Files -/

/-- The same folder and the same files, whatever is in them. -/
structure SameFiles (d d' : Profiles) : Prop where
  folder : d.folder = d'.folder
  mkdir : d.mkdir = d'.mkdir
  opens : ∀ name, (d.file name).isSome = (d'.file name).isSome

namespace SameFiles

variable {d d' e : Profiles}

theorem refl (d : Profiles) : SameFiles d d := ⟨rfl, rfl, fun _ => rfl⟩

theorem symm (h : SameFiles d d') : SameFiles d' d :=
  ⟨h.folder.symm, h.mkdir.symm, fun name => (h.opens name).symm⟩

theorem trans (h : SameFiles d d') (h' : SameFiles d' e) : SameFiles d e :=
  ⟨h.folder.trans h'.folder, h.mkdir.trans h'.mkdir, fun name => (h.opens name).trans (h'.opens name)⟩

theorem makeFolder (h : SameFiles d d') : SameFiles d.makeFolder d'.makeFolder :=
  ⟨by simp only [Profiles.makeFolder, h.folder, h.mkdir], h.mkdir, h.opens⟩

theorem fopen (h : SameFiles d d') (name : List Char) :
    (d.fopen name).isSome = (d'.fopen name).isSome := by
  unfold Profiles.fopen
  rw [h.folder]
  split
  · exact h.opens name
  · rfl

theorem makeFolder_makeFolder (d : Profiles) : SameFiles d.makeFolder.makeFolder d.makeFolder :=
  ⟨by simp [Profiles.makeFolder], rfl, fun _ => rfl⟩

theorem append (d : Profiles) (filename text : List Char) : SameFiles (d.append filename text) d := by
  refine ⟨rfl, rfl, fun name => ?_⟩
  change Option.isSome (if name = filename then _ else _) = _
  split
  · rw [Option.isSome_map]
  · rfl

/-- A record makes the folder, and its line changes what is in its file. -/
theorem addRecord (d : Profiles) (localIp remoteIp : List Char) (r : MemRecord) :
    SameFiles (Fastprof.addRecord d localIp remoteIp r).2 d.makeFolder := by
  unfold Fastprof.addRecord
  dsimp only
  split
  · exact refl _
  · exact append _ _ _

theorem addRecords (h : SameFiles d d') (composed : Bool) (localIp remoteIp localIp' remoteIp' : List Char)
    (rs rs' : List MemRecord) : SameFiles (Session.addRecords composed localIp remoteIp rs d)
      (Session.addRecords composed localIp' remoteIp' rs' d') := by
  have hfold : ∀ (localIp remoteIp : List Char) (rs : List MemRecord) (d e : Profiles),
      SameFiles d e.makeFolder → SameFiles
        (rs.foldl (fun d r => (Fastprof.addRecord d localIp remoteIp r).2) d) e.makeFolder := by
    intro localIp remoteIp rs
    induction rs with
    | nil => exact fun d e hd => hd
    | cons r rs ih =>
      intro d e hd
      exact ih _ e ((addRecord d localIp remoteIp r).trans (hd.makeFolder.trans (makeFolder_makeFolder e)))
  cases composed with
  | false => exact h
  | true =>
    exact (hfold localIp remoteIp rs _ d (refl _)).trans
      (h.makeFolder.trans (hfold localIp' remoteIp' rs' _ d' (refl _)).symm)

end SameFiles

/-! ### The searches of a client -/

namespace Whole

variable (W : World) (x : Whole)

theorem tcpRun_search (n : ℕ) : (x.tcpRun W n).vars.search = Search.run (x.setup W .tcp) n := by
  rw [tcpRun, fTcpClientRun_vars]
  exact (Vars.run_search _ _ _ n).1

theorem udtRun_search (n : ℕ) : (x.udtRun W n).vars.search = Search.run (x.setup W .udt) n := by
  rw [udtRun, fUdtClientRun_vars]
  exact (Vars.run_search _ _ _ n).1

/-- A search in its last state. -/
def last (k : Kind) : Search ℚ := Search.run (x.setup W k) (Search.steps (x.setup W k))

theorem turns_eq (k : Kind) :
    x.turns W k = Search.turns (x.setup W k) (Search.run (x.setup W k)) := by
  cases k with
  | tcp => exact congrArg (Search.turns _) (funext (x.tcpRun_search W))
  | udt => exact congrArg (Search.turns _) (funext (x.udtRun_search W))

theorem returned_eq (k : Kind) : x.returned W k =
    match (x.last W k).pc with
    | .ret r => r
    | _ => 0 := by
  cases k with
  | tcp =>
    have h := x.tcpRun_search W (Search.steps (x.setup W .tcp))
    rw [last, ← h]
    rfl
  | udt =>
    have h := x.udtRun_search W (Search.steps (x.setup W .udt))
    rw [last, ← h]
    rfl

/-- Some test that was compared in a search is better than none. -/
def improved (s : Search ℚ) : Bool :=
  let ys := s.trials.map Trial.perfMbps
  (if s.pc = .ret 0 then ys.dropLast else ys).any fun y => 0 < y

theorem endPc_eq (k : Kind) : x.endPc W k = (x.last W k).pc := by
  cases k with
  | tcp => exact congrArg Search.pc (x.tcpRun_search W _)
  | udt => exact congrArg Search.pc (x.udtRun_search W _)

theorem improves_eq (k : Kind) : x.improves W k = improved (x.last W k) := by
  have hmeasured : ∀ {Prof Entry : Type} (s : Vars ℚ Prof Entry),
      s.measured = s.search.trials.map Trial.perfMbps := fun s => (List.map_map ..).symm
  have himproved : ∀ {Prof Entry : Type} (s : Vars ℚ Prof Entry),
      (s.compared.any fun y => 0 < y) = improved s.search := fun s => by
    rw [Vars.compared, hmeasured]
    rfl
  cases k with
  | tcp => rw [improves, himproved, x.tcpRun_search W, last]
  | udt => rw [improves, himproved, x.udtRun_search W, last]

/-- What a search leaves behind, in terms of its last state. -/
theorem searched_eq (k : Kind) : (x.searched W k).rttMs = (x.last W k).rtt ∧ ∃ rs, (x.searched W k).profiles =
      addRecords ((List.range (x.last W k).trials.length).any (W.out k x.calls).composed)
        (chars (profInit x.prob).controlLocalIp) (chars x.prob.remoteIp) rs x.profiles := by
  cases k with
  | tcp =>
    have h := x.tcpRun_search W (Search.steps (x.setup W .tcp))
    have hlen : (x.tcpRun W (Search.steps (x.setup W .tcp))).tests.length =
        (x.last W .tcp).trials.length := by
      rw [last, ← h]
      exact (List.length_map _).symm
    refine ⟨by rw [last, ← h]; rfl, (x.tcpRun W (Search.steps (x.setup W .tcp))).history.map
      (W.record x.prob), ?_⟩
    rw [← hlen]
    rfl
  | udt =>
    have h := x.udtRun_search W (Search.steps (x.setup W .udt))
    have hlen : (x.udtRun W (Search.steps (x.setup W .udt))).tests.length =
        (x.last W .udt).trials.length := by
      rw [last, ← h]
      exact (List.length_map _).symm
    refine ⟨by rw [last, ← h]; rfl, (x.udtRun W (Search.steps (x.setup W .udt))).history.map
      (W.record x.prob), ?_⟩
    rw [← hlen]
    rfl

end Whole

/-! ### Two clients -/

/-- The bandwidth of the command line is one that was read, or the default. -/
def World.read (W : World) : Bool := bandwidthRead W.args true

/-- Two clients that differ in what was never written, or read from there, alone. -/
structure Level (W : World) (x y : Whole) : Prop where
  prob : x.prob.told = y.prob.told
  others : x.params.others = y.params.others
  bandwidth : W.read = true → x.params.bandwidth = y.params.bandwidth
  rttMs : x.rttMs = y.rttMs
  calls : x.calls = y.calls
  written : x.written = y.written
  profiles : SameFiles x.profiles y.profiles
  feed : x.feed = y.feed

/-- The address of the control block is no matter once a profile is initialised. -/
theorem historyFile_profInit_congr {p q : Prob} (h : p.told = q.told) :
    historyFile (profInit p) = historyFile (profInit q) := by
  obtain ⟨a, rfl⟩ := Prob.exists_of_told h
  have hnul : (0 : UInt8) ∉ cstr p.localIp := fun h0 => by
    simpa using List.mem_takeWhile_imp h0
  have hcstr : ∀ a, cstr (setString (cstr p.localIp) a) = cstr p.localIp := cstr_setString hnul
  have hp : cstr (profInit p).controlLocalIp = cstr p.localIp := hcstr _
  have hq : cstr (profInit { p with controlLocalIp := a }).controlLocalIp = cstr p.localIp := hcstr _
  rw [historyFile, historyFile, hp, hq]
  rfl

namespace Level

variable {W : World} {x y : Whole}

/-- Their searches are given the same, but for the bandwidth. -/
theorem setup (h : Level W x y) (k : Kind) : y.setup W k = { x.setup W k with
    ctrl := { (x.setup W k).ctrl with bwBps := y.params.bandwidth } } := by
  have hfile := historyFile_profInit_congr h.prob
  obtain ⟨a, hq⟩ := Prob.exists_of_told h.prob
  have hctrl : controlBlock (profInit y.prob) y.params y.rttMs =
      { controlBlock (profInit x.prob) x.params x.rttMs with bwBps := y.params.bandwidth } := by
    rw [Params.eq_of_others h.others, ← h.rttMs, hq]
    rfl
  have hout : (y.setup W k).out = (x.setup W k).out := by
    simp only [Whole.setup, hfile, ← h.calls, h.profiles.makeFolder.fopen]
  change (⟨W.arith, controlBlock (profInit y.prob) y.params y.rttMs, (y.setup W k).out⟩ : Setup ℚ) = _
  rw [hctrl, hout]
  rfl

theorem setup_lim (h : Level W x y) (k : Kind) : (y.setup W k).lim = (x.setup W k).lim := by
  rw [h.setup k]
  rfl

theorem setup_out (h : Level W x y) (k : Kind) : (y.setup W k).out = (x.setup W k).out := by
  rw [h.setup k]

theorem setup_begins (h : Level W x y) (k : Kind) :
    Search.Begins (y.setup W k) ↔ Search.Begins (x.setup W k) := by
  constructor
  · intro hb
    exact ⟨h.setup_out k ▸ hb.openLog, h.setup_lim k ▸ hb.maxProf, h.setup_lim k ▸ hb.noImp⟩
  · intro hb
    exact ⟨h.setup_out k ▸ hb.openLog, h.setup_lim k ▸ hb.maxProf, h.setup_lim k ▸ hb.noImp⟩

/-- Their searches do the same if the bandwidth was read, or is not used. -/
theorem search (h : Level W x y) {k : Kind} (hk : W.read = true ∨ ¬ Search.Begins (x.setup W k)) :
    x.turns W k = y.turns W k ∧ (x.last W k).pc = (y.last W k).pc ∧
      (x.last W k).rtt = (y.last W k).rtt ∧ x.improves W k = y.improves W k ∧
      (x.last W k).trials.length = (y.last W k).trials.length := by
  rcases hk with hread | hx
  · have hsetup : y.setup W k = x.setup W k := by
      rw [h.setup k, ← h.bandwidth hread]
      rfl
    simp only [Whole.turns_eq, Whole.improves_eq, Whole.last, hsetup, and_self]
  · have hy : ¬ Search.Begins (y.setup W k) := fun hb => hx ((h.setup_begins k).mp hb)
    have hsteps : Search.steps (y.setup W k) = Search.steps (x.setup W k) := by
      rw [Search.steps, h.setup_lim, Search.steps]
    have hidle : ∀ n, Search.idle (y.setup W k) n = Search.idle (x.setup W k) n := fun n => by
      rw [Search.idle, h.setup_out, h.setup_lim, Search.idle]
    obtain ⟨hpc, htr, -, hrtt⟩ := Search.run_of_not_begins hx (Search.steps (x.setup W k))
    obtain ⟨hpc', htr', -, hrtt'⟩ := Search.run_of_not_begins hy (Search.steps (y.setup W k))
    have hsame : ((y.last W k).pc, (y.last W k).flag) = ((x.last W k).pc, (x.last W k).flag) := by
      rw [Whole.last, hpc', hsteps, hidle]
      exact hpc.symm
    refine ⟨?_, (congrArg Prod.fst hsame).symm, ?_, ?_, ?_⟩
    · rw [Whole.turns_eq, Whole.turns_eq]
      exact Search.turns_of_not_begins hx (h.setup_lim k).symm (by rw [h.setup_out])
    · rw [Whole.last, hrtt, Whole.last, hrtt', h.setup k]
    · rw [Whole.improves_eq, Whole.improves_eq, Whole.last, Whole.last, Whole.improved, htr,
        Whole.improved, htr']
      simp
    · rw [Whole.last, htr, Whole.last, htr']

end Level

/-! ### One step -/

namespace Whole

variable (W : World) (x : Whole)

/-- The client after it has looked into the history. -/
def looked (x : Whole) : Whole :=
  { x with recordMax := x.lookup.2.1, profiles := x.lookup.2.2, calls := x.calls + 1 }

/-- A handler runs a search, or looks into the history, or leaves both alone. -/
theorem answered_cases : (∃ k, x.asked W = some k ∧ x.answered W = x.searched W k) ∨
    x.asked W = none ∧ (x.answered W = x ∨
      x.prob.status = .runM2mDb ∧ x.answered W = x.looked) := by
  unfold asked answered
  cases x.prob.status with
  | runM2mDb => exact .inr ⟨rfl, .inr ⟨rfl, rfl⟩⟩
  | runM2mTcp =>
    by_cases hp : W.prepared .tcp x.calls = true
    · exact .inl ⟨.tcp, if_pos hp, if_pos hp⟩
    · exact .inr ⟨if_neg hp, .inl (if_neg hp)⟩
  | runM2mUdt =>
    by_cases hp : W.prepared .udt x.calls = true
    · exact .inl ⟨.udt, if_pos hp, if_pos hp⟩
    · exact .inr ⟨if_neg hp, .inl (if_neg hp)⟩
  | _ => exact .inr ⟨rfl, .inl rfl⟩

theorem answered_prob : (x.answered W).prob = x.prob := by
  rcases x.answered_cases W with ⟨k, -, h⟩ | ⟨-, h | ⟨-, h⟩⟩
  · rw [h]
    cases k <;> rfl
  · rw [h]
  · rw [h]
    rfl

/-- A search of the kind `k` is run, it takes for the bandwidth what the variable of
`probdata_unit_atof` held, and asks whether that is negative. -/
structure Guesses (k : Kind) : Prop where
  prepared : W.prepared k x.calls = true
  notRead : W.read = false
  begins : Search.Begins (x.setup W k)

/-- The handler of the client's status reads only what was written. -/
structure Settled : Prop where
  lookup : x.prob.status = .runM2mDb → x.profiles.folder = false
  search : ∀ k : Kind, x.prob.status = k.asks → ¬ x.Guesses W k
  report : ∀ k : Kind, x.prob.status = k.asks → W.prepared k x.calls = true → x.strays W k = false

variable {x} in
theorem asked_eq_some {k : Kind} : x.asked W = some k ↔
    x.prob.status = k.asks ∧ W.prepared k x.calls = true := by
  unfold asked
  cases k <;> cases x.prob.status <;> simp [Kind.asks]

variable {x W} in
theorem killed_eq_some {k : Kind} : x.killed W = some k ↔
    (x.prob.status = k.asks ∧ W.prepared k x.calls = true) ∧
      x.strays W k = true ∧ x.wild k = true := by
  rw [killed, Option.filter_eq_some_iff, asked_eq_some, Bool.and_eq_true]

variable {x W} in
/-- A search that prints what was written does not kill the client. -/
theorem killed_eq_none (h : ∀ k, x.prob.status = k.asks → W.prepared k x.calls = true →
    x.strays W k = false) : x.killed W = none := by
  rw [killed, Option.filter_eq_none_iff]
  intro k hk
  obtain ⟨hst, hp⟩ := (asked_eq_some W).mp hk
  rw [h k hst hp]
  simp

theorem lookup_of_no_folder {x : Whole} (h : x.profiles.folder = false) :
    x.lookup = (-1, x.recordMax, x.profiles.makeFolder) := if_pos h

theorem events_proc (st : Status) : x.events W (.act (.proc st)) = .op (.act (.proc st)) ::
    if st = .runM2mDb ∧ x.profiles.folder = true ∧ x.dbFile.isNone = true then
      [.opens (historyFile x.prob)]
    else [] := by
  by_cases hst : st = .runM2mDb
  · subst hst
    simp [events]
  · rw [if_neg fun h => hst h.1]
    unfold events
    split
    · rename_i heq
      cases heq
      exact absurd rfl hst
    · rename_i heq; cases heq
    · rfl

end Whole

namespace Level

variable {W : World} {x y : Whole}

theorem polled (h : Level W x y) : x.polled.ops = y.polled.ops ∧ x.polled.feed = y.polled.feed ∧
    SameProb x.polled.result y.polled.result := by
  have hp := alike_pollCtrlChannel h.prob x.feed
  unfold Whole.polled
  rwa [← h.feed]

theorem poll (h : Level W x y) : Level W x.poll y.poll :=
  { h with
    prob := h.polled.2.2.2
    feed := h.polled.2.1 }

theorem status (h : Level W x y) : x.prob.status = y.prob.status := by
  have htold := congrArg Prob.status h.prob
  exact htold

/-- A search that does not guess does the same on both sides. -/
theorem search_of_settled (h : Level W x y) {k : Kind} (hk : ¬ x.Guesses W k)
    (hprepared : W.prepared k x.calls = true) : x.turns W k = y.turns W k ∧
      (x.last W k).pc = (y.last W k).pc ∧ (x.last W k).rtt = (y.last W k).rtt ∧
      x.improves W k = y.improves W k ∧
      (x.last W k).trials.length = (y.last W k).trials.length := by
  refine h.search ?_
  by_cases hread : W.read = true
  · exact .inl hread
  · exact .inr fun hb => hk ⟨hprepared, by simpa using hread, hb⟩

theorem strays (h : Level W x y) {k : Kind} (hk : ¬ x.Guesses W k)
    (hprepared : W.prepared k x.calls = true) : y.strays W k = x.strays W k := by
  obtain ⟨-, hpc, -, himproves, -⟩ := h.search_of_settled hk hprepared
  rw [Whole.strays, Whole.strays, Whole.endPc_eq, Whole.endPc_eq, hpc, himproves, h.written]

/-- Neither of the two is killed. -/
theorem killed (h : Level W x y) (hs : x.Settled W) : x.killed W = none ∧ y.killed W = none := by
  refine ⟨Whole.killed_eq_none hs.report, Whole.killed_eq_none fun k hst hp => ?_⟩
  have hst' : x.prob.status = k.asks := h.status.trans hst
  have hp' : W.prepared k x.calls = true := h.calls ▸ hp
  rw [h.strays (hs.search k hst') hp']
  exact hs.report k hst' hp'

theorem env (h : Level W x y) (hs : x.Settled W) :
    EnvAlike x.prob.status (x.env W) (y.env W) := by
  have hrun : ∀ k : Kind, x.prob.status = k.asks → (x.env W).run k = (y.env W).run k := by
    intro k hk
    change (if W.prepared k x.calls then _ else _) = (if W.prepared k y.calls then _ else _)
    rw [← h.calls]
    split
    · rename_i hp
      rw [Whole.returned_eq, Whole.returned_eq, (h.search_of_settled (hs.search k hk) hp).2.1]
    · rfl
  refine ⟨fun hst => ?_, rfl, hrun .tcp, hrun .udt⟩
  have hfolder := hs.lookup hst
  change decide (0 ≤ x.lookup.1) = decide (0 ≤ y.lookup.1)
  rw [Whole.lookup_of_no_folder hfolder, Whole.lookup_of_no_folder (h.profiles.folder ▸ hfolder)]

theorem handled (h : Level W x y) (hs : x.Settled W) :
    (x.handled W).ops = (y.handled W).ops ∧ (x.handled W).feed = (y.handled W).feed ∧
      SameProb (x.handled W).result (y.handled W).result := by
  have hp := alike_procCtrlPacket ⟨0, 0⟩ h.prob (h.env hs) x.feed
  unfold Whole.handled
  rwa [← h.feed]

/-- What the operations of the handler show. -/
theorem events (h : Level W x y) (hs : x.Settled W) :
    (x.handled W).ops.flatMap (x.events W) = (x.handled W).ops.flatMap (y.events W) := by
  refine List.flatMap_congr fun o ho => ?_
  cases o with
  | out t b => rfl
  | inn t b => rfl
  | act a =>
    have ha := (within_procCtrlPacket (x.env W) ⟨0, 0⟩ x.prob).acts x.feed a (mem_acts.mpr ho)
    rcases ha with rfl | ⟨k, rfl, hk, hrun⟩
    · rw [Whole.events_proc, Whole.events_proc]
      congr 1
      by_cases hst : x.prob.status = .runM2mDb
      · have hfolder := hs.lookup hst
        rw [if_neg (by simp [hfolder]), if_neg (by simp [← h.profiles.folder, hfolder])]
      · rw [if_neg fun h => hst h.1, if_neg fun h => hst h.1]
    · have hprepared : W.prepared k x.calls = true := by
        by_contra hp
        exact hrun (if_neg hp)
      change Event.op _ :: _ = Event.op _ :: _
      rw [(h.search_of_settled (hs.search k hk) hprepared).1, historyFile_profInit_congr h.prob]

/-- What a search leaves. -/
theorem searched (h : Level W x y) {k : Kind} (hk : ¬ x.Guesses W k)
    (hprepared : W.prepared k x.calls = true) : Level W (x.searched W k) (y.searched W k) := by
  obtain ⟨-, -, hrtt, himproves, hlen⟩ := h.search_of_settled hk hprepared
  obtain ⟨hr, rs, hfiles⟩ := x.searched_eq W k
  obtain ⟨hr', rs', hfiles'⟩ := y.searched_eq W k
  have hprofiles : SameFiles (x.searched W k).profiles (y.searched W k).profiles := by
    rw [hfiles, hfiles', ← hlen, ← h.calls]
    exact h.profiles.addRecords _ _ _ _ _ _ _
  have hrtt' : (x.searched W k).rttMs = (y.searched W k).rttMs := by rw [hr, hr', hrtt]
  have hcalls : x.calls + 1 = y.calls + 1 := by rw [h.calls]
  have hwritten : Function.update x.written k (x.written k || x.improves W k) =
      Function.update y.written k (y.written k || y.improves W k) := by
    rw [h.written, himproves]
  cases k with
  | tcp => exact ⟨h.prob, h.others, h.bandwidth, hrtt', hcalls, hwritten, hprofiles, h.feed⟩
  | udt => exact ⟨h.prob, h.others, h.bandwidth, hrtt', hcalls, hwritten, hprofiles, h.feed⟩

theorem answered (h : Level W x y) (hs : x.Settled W) : Level W (x.answered W) (y.answered W) := by
  have hsearched : ∀ k : Kind, x.prob.status = k.asks →
      Level W (if W.prepared k x.calls then x.searched W k else x)
        (if W.prepared k y.calls then y.searched W k else y) := by
    intro k hk
    rw [← h.calls]
    split
    · rename_i hp
      exact h.searched (hs.search k hk) hp
    · exact h
  unfold Whole.answered
  rw [← h.status]
  split
  · rename_i hst
    have hfolder := hs.lookup hst
    refine ⟨h.prob, h.others, h.bandwidth, h.rttMs, congrArg (· + 1) h.calls, h.written, ?_, h.feed⟩
    dsimp only
    rw [Whole.lookup_of_no_folder hfolder, Whole.lookup_of_no_folder (h.profiles.folder ▸ hfolder)]
    exact h.profiles.makeFolder
  · rename_i hst
    exact hsearched .tcp hst
  · rename_i hst
    exact hsearched .udt hst
  · exact h

end Level

/-- Two clients of which the same can be seen, and go on to be. -/
structure Agree (W : World) (x y : Whole) : Prop where
  ret : x.ret = y.ret
  log : x.log = y.log
  level : x.ret = none → Level W x y

namespace Whole

variable (W : World) (x : Whole)

/-- The next step handles a packet with the status `st`. -/
structure Handles (st : Status) : Prop where
  running : x.ret = none
  loops : x.prob.status ≠ .programDone
  polled : 0 < x.polled.result.1
  status : x.poll.prob.status = st

/-- The next step reads what was never written: the record to compare with, when it
prints; `db_file_handler`, when it looks into a folder that is there; a bandwidth
that was not read; or the `prof_max` of a search that has improved on nothing, behind
its loop. -/
inductive Reads : Prop
  | prints (hret : x.ret = none) (hst : x.prob.status = .programDone)
  | looksUp (h : x.Handles .runM2mDb) (hf : x.profiles.folder = true)
  | searches (k : Kind) (h : x.Handles k.asks) (hg : x.poll.Guesses W k)
  | reports (k : Kind) (h : x.Handles k.asks) (hp : W.prepared k x.poll.calls = true)
      (hs : x.poll.strays W k = true)

variable {W x}

theorem step_of_loops (hret : x.ret = none) (hst : x.prob.status ≠ .programDone) :
    x.step W = if x.polled.result.1 < 0 then { x.poll with ret := some (-1) }
      else if x.polled.result.1 = 0 then x.poll else x.poll.process W := by
  unfold step
  rw [if_neg (by simp [hret]), if_pos hst]

theorem step_of_handles {st : Status} (h : x.Handles st) : x.step W = x.poll.process W := by
  rw [step_of_loops h.running h.loops, if_neg (not_lt.mpr h.polled.le), if_neg h.polled.ne']

theorem step_of_done (hret : x.ret = none) (hst : x.prob.status = .programDone)
    (hw : x.blocksStray W = false) :
    x.step W = { x with ret := some 0, log := x.log ++ [.prints (x.blocks W)] } := by
  unfold step
  rw [if_neg (by simp [hret]), if_neg (by simp [hst]), if_neg (by simp [hw])]

theorem settled_of_not_reads {st : Status} (hr : ¬ x.Reads W) (h : x.Handles st) :
    x.poll.Settled W := by
  refine ⟨fun hst => ?_, fun k hk hg => ?_, fun k hk hp => ?_⟩
  · exact eq_false_of_ne_true fun hf => hr (.looksUp { h with status := hst } hf)
  · exact hr (.searches k { h with status := hk } hg)
  · exact eq_false_of_ne_true fun hs => hr (.reports k { h with status := hk } hp hs)

end Whole

theorem Level.process {W : World} {x y : Whole} (h : Level W x y) (hlog : x.log = y.log)
    (hs : x.Settled W) : Agree W (x.process W) (y.process W) := by
  obtain ⟨hops, hfeed, hret, hprob⟩ := h.handled hs
  obtain ⟨hx, hy⟩ := h.killed hs
  have ha := h.answered hs
  refine ⟨?_, ?_, fun _ => ?_⟩
  · rw [Whole.process_ret W hx, Whole.process_ret W hy, hret]
  · unfold Whole.process
    rw [hx, hy]
    change x.log ++ _ = y.log ++ _
    rw [hlog, h.events hs, hops]
  · have htold : (x.process W).prob.told = (y.process W).prob.told := by
      rw [Whole.process_told W hx, Whole.process_told W hy]
      exact hprob
    unfold Whole.process at htold ⊢
    rw [hx, hy] at htold ⊢
    exact ⟨htold, ha.others, ha.bandwidth, ha.rttMs, ha.calls, ha.written, ha.profiles, hfeed⟩

theorem Agree.poll_log {W : World} {x y : Whole} (h : Agree W x y) (hret : x.ret = none) :
    x.poll.log = y.poll.log := by
  change x.log ++ _ = y.log ++ _
  rw [h.log, (h.level hret).polled.1]

/-- A step that reads only what was written keeps two clients in agreement. -/
theorem Agree.step {W : World} {x y : Whole} (h : Agree W x y) (hr : ¬ x.Reads W) :
    Agree W (x.step W) (y.step W) := by
  by_cases hret : x.ret = none
  · have hl := h.level hret
    have hret' : y.ret = none := h.ret ▸ hret
    have hst : x.prob.status ≠ .programDone := fun hst => hr (.prints hret hst)
    have hst' : y.prob.status ≠ .programDone := hl.status ▸ hst
    have hlog := h.poll_log hret
    rw [Whole.step_of_loops hret hst, Whole.step_of_loops hret' hst', ← hl.polled.2.2.1]
    split
    · exact ⟨rfl, hlog, fun h => nomatch h⟩
    split
    · exact ⟨h.ret, hlog, fun _ => hl.poll⟩
    · rename_i h1 h2
      have hpos : 0 < x.polled.result.1 := by omega
      exact hl.poll.process hlog (Whole.settled_of_not_reads hr ⟨hret, hst, hpos, rfl⟩)
  · have hret' : y.ret ≠ none := h.ret ▸ hret
    unfold Whole.step
    rw [if_pos (Option.isSome_iff_ne_none.mpr hret), if_pos (Option.isSome_iff_ne_none.mpr hret')]
    exact h

end Session
end Probdata
