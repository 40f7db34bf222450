/-
# What a client recalls

The clients of a host look for records in the files that the clients before them have
added theirs to. Whatever their servers send behind an address that fits, whichever calls
on the channel fail, and after whichever packet a client is stopped, what a later client
finds of its pair of hosts is the best of all tests of the pair that were counted before,
in its own session too (`Visit.sessions_recall`).

That takes a client that looks into the right file: the handle of the file is a null
pointer in its memory, and the address in the control block ends where it should.
-/
import Probdata.Lib.Trace
import Probdata.Fastprof.Sessions
import Probdata.Session.CommandLine
import Probdata.Session.Rtt

namespace Probdata
namespace Session

open Wire Bytes Text Fastprof

/-! ### The tests of a session -/

namespace Whole

variable (W : World) (x : Whole)

/-- What a search of the client starts with. -/
def tcpArgs : Args (FastprofTcpProf ℚ) IperfTest where
  prof := ⟨x.calls, 0, -1⟩
  profMax := x.tcpMax
  store := Function.update x.tcpStore x.calls
    (fTcpProfInit (W.iperf x.calls) (x.setup W .tcp).ctrl)

def udtArgs : Args (FastprofUdtProf ℚ) (TpgProfile ℚ) where
  prof := ⟨x.calls, x.udtPerf x.calls⟩
  profMax := x.udtMax
  store := Function.update x.udtStore x.calls (W.tpg x.calls)

/-- The search of the kind `k` that is started now, at its end. -/
def ended (k : Kind) : Searched :=
  match k with
  | .tcp => .tcp W.lib (x.setup W .tcp) (x.tcpArgs W) (Search.steps (x.setup W .tcp))
  | .udt => .udt (x.setup W .udt) (x.udtArgs W) (Search.steps (x.setup W .udt))

/-- The search of an iteration of the client's loop. -/
def stepSearch : Option Searched :=
  if x.ret.isSome then none
  else if x.prob.status ≠ .programDone then
    if x.polled.result.1 ≤ 0 then none else (x.poll.asked W).map (x.poll.ended W)
  else none

/-- The tests that it counts. -/
def stepResults : List (Result ℚ) := ((x.stepSearch W).map Searched.results).getD []

end Whole

namespace World

variable (W : World) (m : Memory)

/-- The tests that are counted in `n` iterations of the client's loop. -/
def counted (n : ℕ) : List (Result ℚ) :=
  (List.range n).flatMap fun i => ((W.run m i).map (Whole.stepResults W)).getD []

theorem counted_succ {n : ℕ} {x : Whole} (hx : W.run m n = some x) :
    W.counted m (n + 1) = W.counted m n ++ x.stepResults W := by
  rw [counted, counted, List.range_succ, List.flatMap_append]
  simp [hx]

theorem counted_of_none (h : W.configured m = none) (n : ℕ) : W.counted m n = [] := by
  have hrun : ∀ i, W.run m i = none := fun i => by rw [run, h, Option.map_none]
  rw [counted, List.flatMap_eq_nil_iff]
  intro i _
  rw [hrun, Option.map_none, Option.getD_none]

/-- The record that is made of a line of the history is one that is composed of a test
with its numbers, for the two hosts. -/
def Composes (localIp remoteIp : Packed.HostAddr) (p : Prob) (l : HistoryLine ℚ) : Prop :=
  0 ≤ l.averagePerf ∧ ∃ tm t, tm.Current ∧ Fastprof.Represents t l ∧
    W.record p l = MemRecord.ofMem (l.protocol.compose localIp remoteIp tm t)

end World

/-! ### What a file tells -/

variable {localIp remoteIp : Packed.HostAddr} {rs : List (Result ℚ)} {d : Profiles}

/-- The file of the two hosts holds the records of the tests `rs`, in order. -/
def Remembers (localIp remoteIp : Packed.HostAddr) (rs : List (Result ℚ)) (d : Profiles) : Prop :=
  ∃ es, Stored localIp remoteIp es d ∧ (∀ e ∈ es, e.Readable) ∧
    List.Forall₂ MemRecord.Tells (es.filterMap Entry.record) rs ∧ ∀ x ∈ rs, 0 ≤ x.perfMbps

namespace Remembers

theorem empty (hd : d.makeFolder.folder = true)
    (hfile : d.file (profFile (latin localIp.text) (latin remoteIp.text)) = some []) :
    Remembers localIp remoteIp [] d :=
  ⟨[], ⟨hd, hfile, fun h => absurd rfl h⟩, by simp, .nil, by simp⟩

/-- What is recalled from the file. -/
theorem recalls (h : Remembers localIp remoteIp rs d) (m : MemRecord) :
    Recalls rs d (recalled localIp remoteIp d m) := by
  obtain ⟨es, hs, hes, htells, h0⟩ := h
  exact hs.recalls hes htells h0 m

theorem makeFolder (h : Remembers localIp remoteIp rs d) :
    Remembers localIp remoteIp rs d.makeFolder := by
  obtain ⟨es, hs, hes, htells, h0⟩ := h
  exact ⟨es, hs.makeFolder_of, hes, htells, h0⟩

/-- To look for a record changes nothing. -/
theorem search (h : Remembers localIp remoteIp rs d) (dbFile : Option (List Char)) (l r : List Char)
    (m : MemRecord) : Remembers localIp remoteIp rs (fM2mDbSearch d dbFile l r m).2.2 := by
  obtain ⟨es, hs, hes, htells, h0⟩ := h
  exact ⟨es, hs.search_files dbFile l r m, hes, htells, h0⟩

/-- The records of a campaign are those of its tests. -/
theorem add (hosts : Hosts localIp remoteIp) (h : Remembers localIp remoteIp rs d) (s : Campaign) :
    Remembers localIp remoteIp (rs ++ s.search.results)
      (s.records.foldl (Campaign.add localIp remoteIp s.search.protocol) d) := by
  obtain ⟨es, hs, hes, htells, h0⟩ := h
  refine ⟨_, hs.add hosts s, ?_, ?_, ?_⟩
  · intro e he
    rcases List.mem_append.mp he with he | he
    · exact hes e he
    · exact s.readable_entries hosts e he
  · rw [List.filterMap_append]
    exact List.rel_append htells s.tells_records
  · intro x hx
    rcases List.mem_append.mp hx with hx | hx
    · exact h0 x hx
    · exact s.nonneg x hx

/-- Records of other hosts go to another file. -/
theorem addRecords_of_ne (h : Remembers localIp remoteIp rs d) {l r : List Char}
    (hne : profFile (latin localIp.text) (latin remoteIp.text) ≠ profFile l r) (composed : Bool)
    (records : List MemRecord) :
    Remembers localIp remoteIp rs (addRecords composed l r records d) := by
  have hfold : ∀ (xs : List MemRecord) (d : Profiles), Remembers localIp remoteIp rs d →
      Remembers localIp remoteIp rs (xs.foldl (fun d x => (addRecord d l r x).2) d) := by
    intro xs
    induction xs with
    | nil => exact fun d hd => hd
    | cons x xs ih =>
      rintro d ⟨es, hs, hes, htells, h0⟩
      exact ih _ ⟨es, hs.addRecord_of_ne hne x, hes, htells, h0⟩
  cases composed with
  | false => exact h
  | true => exact hfold records _ h.makeFolder

end Remembers

/-! ### One search -/

namespace World.Composes

variable {W : World} {p : Prob}

/-- The lines of a search, with the records that are composed of them. -/
theorem exists_records {k : Protocol} {ls : List (HistoryLine ℚ)} (hk : ∀ l ∈ ls, l.protocol = k)
    (h : ∀ l ∈ ls, W.Composes localIp remoteIp p l) :
    ∃ records : List (Packed.Tm × Packed.Finished),
      List.Forall₂ (fun r l => Fastprof.Represents r.2 l) records ls ∧
        (∀ r ∈ records, r.1.Current) ∧ ls.map (W.record p) =
          records.map fun r => MemRecord.ofMem (k.compose localIp remoteIp r.1 r.2) := by
  induction ls with
  | nil => exact ⟨[], .nil, by simp, rfl⟩
  | cons l ls ih =>
    obtain ⟨records, hrep, hcurrent, hmap⟩ := ih (fun l hl => hk l (List.mem_cons_of_mem _ hl))
      fun l hl => h l (List.mem_cons_of_mem _ hl)
    obtain ⟨-, tm, t, htm, ht, hrecord⟩ := h l List.mem_cons_self
    refine ⟨(tm, t) :: records, .cons ht hrep, List.forall_mem_cons.mpr ⟨htm, hcurrent⟩, ?_⟩
    rw [List.map_cons, hmap, hrecord, hk l List.mem_cons_self, List.map_cons]

end World.Composes

namespace Whole

variable {W : World} {x : Whole}

/-- The pair of hosts of a client: its own address, as it was told, and that of its server. -/
def hosts (x : Whole) : List Char × List Char := (chars x.prob.localIp, chars x.prob.remoteIp)

theorem chars_profInit (p : Prob) : chars (profInit p).controlLocalIp = chars p.localIp := by
  have hnul : (0 : UInt8) ∉ cstr p.localIp := fun h0 => by
    simpa using List.mem_takeWhile_imp h0
  exact congrArg (List.map _) (cstr_setString hnul _)

/-- What a search adds: with a line in its history, it has composed some record. -/
theorem searched_profiles (x : Whole) (k : Kind) : ∃ composed : Bool,
    ((x.ended W k).history ≠ [] → composed = true) ∧ (x.searched W k).profiles =
      addRecords composed x.hosts.1 x.hosts.2
        ((x.ended W k).history.map (W.record x.prob)) x.profiles := by
  have hany : ∀ {n : ℕ} {c : ℕ → Bool}, (∃ i < n, c i = true) → (List.range n).any c = true :=
    fun ⟨i, hi, hc⟩ => List.any_eq_true.mpr ⟨i, List.mem_range.mpr hi, hc⟩
  rw [hosts, ← chars_profInit]
  cases k with
  | tcp =>
    refine ⟨_, fun hne => hany ?_, rfl⟩
    have h := Vars.composed_run (tcpProfiler_composes W.lib (x.setup W .tcp)) (x.setup W .tcp)
      (x.tcpArgs W) (Search.steps (x.setup W .tcp))
    rw [← fTcpClientRun_vars] at h
    obtain ⟨i, hi, hc⟩ := h hne
    exact ⟨i, hi, hc⟩
  | udt =>
    refine ⟨_, fun hne => hany ?_, rfl⟩
    have h := Vars.composed_run (udtProfiler_composes (x.setup W .udt)) (x.setup W .udt)
      (x.udtArgs W) (Search.steps (x.setup W .udt))
    rw [← fUdtClientRun_vars] at h
    obtain ⟨i, hi, hc⟩ := h hne
    exact ⟨i, hi, hc⟩

/-- A search of the two hosts adds the records of the tests that it counts. -/
theorem remembers_searched (hosts : Hosts localIp remoteIp)
    (h : Remembers localIp remoteIp rs x.profiles)
    (hx : x.hosts = (latin localIp.text, latin remoteIp.text)) {k : Kind}
    (hc : ∀ l ∈ (x.ended W k).history, W.Composes localIp remoteIp x.prob l) :
    Remembers localIp remoteIp (rs ++ (x.ended W k).results) (x.searched W k).profiles := by
  obtain ⟨composed, hcomposed, hprofiles⟩ := x.searched_profiles (W := W) k
  rw [hprofiles, hx]
  set s := x.ended W k with hs
  obtain ⟨records, hrep, hcurrent, hmap⟩ :=
    World.Composes.exists_records (Campaign.protocol_of_history s) hc
  by_cases hnil : s.history = []
  · have hresults : s.results = [] := by rw [← s.history_result, hnil, List.map_nil]
    rw [hnil, hresults, List.append_nil]
    cases composed with
    | false => exact h
    | true => exact h.makeFolder
  · have hnonneg : ∀ x ∈ s.results, 0 ≤ x.perfMbps := by
      rw [← s.history_result]
      intro x hx
      obtain ⟨l, hl, rfl⟩ := List.mem_map.mp hx
      exact (hc l hl).1
    have hadd : ∀ (p : Protocol) (d : Profiles) (r : MemRecord),
        p.add d (latin localIp.text) (latin remoteIp.text) r =
          addRecord d (latin localIp.text) (latin remoteIp.text) r := fun p d r => by
      cases p <;> rfl
    have hfold : addRecords composed (latin localIp.text) (latin remoteIp.text)
        (s.history.map (W.record x.prob)) x.profiles =
          records.foldl (Campaign.add localIp remoteIp s.protocol) x.profiles.makeFolder := by
      rw [hcomposed hnil, addRecords, if_pos rfl, hmap, List.foldl_map]
      refine List.foldl_ext _ _ _ fun d r _ => ?_
      rw [Campaign.add, hadd]
    rw [hfold]
    exact h.makeFolder.add hosts ⟨x.recordMax, s, records, hrep, hcurrent, hnonneg⟩

/-! ### One step -/

theorem addresses_poll (x : Whole) : x.poll.prob.addresses = x.prob.addresses :=
  (yields_pollCtrlChannel x.prob).result x.feed

theorem hosts_of_addresses {x y : Whole} (h : x.prob.addresses = y.prob.addresses) :
    x.hosts = y.hosts := by
  simp only [Prob.addresses, Prod.mk.injEq] at h
  rw [hosts, hosts, h.1, h.2.1]

/-- The client's address in its control block is the one that it was told. -/
def Named (x : Whole) : Prop := chars x.prob.controlLocalIp = chars x.prob.localIp

/-- Two states that differ in nothing that the history depends on. -/
structure Aside (x y : Whole) : Prop where
  profiles : y.profiles = x.profiles
  recordMax : y.recordMax = x.recordMax
  dbFile : y.dbFile = x.dbFile
  addresses : y.prob.addresses = x.prob.addresses

/-- An iteration handles a packet, or changes nothing that the history depends on. -/
theorem step_cases (x : Whole) :
    x.Handles x.poll.prob.status ∧ x.stepSearch W = (x.poll.asked W).map (x.poll.ended W) ∧
        x.step W = x.poll.process W ∨
      x.stepSearch W = none ∧ x.Aside (x.step W) := by
  unfold stepSearch step
  by_cases hret : x.ret.isSome = true
  · rw [if_pos hret, if_pos hret]
    exact .inr ⟨rfl, rfl, rfl, rfl, rfl⟩
  rw [if_neg hret, if_neg hret]
  by_cases hst : x.prob.status ≠ .programDone
  · rw [if_pos hst, if_pos hst]
    by_cases hneg : x.polled.result.1 < 0
    · rw [if_pos hneg, if_pos hneg.le]
      exact .inr ⟨rfl, rfl, rfl, rfl, x.addresses_poll⟩
    rw [if_neg hneg]
    by_cases hzero : x.polled.result.1 = 0
    · rw [if_pos hzero, if_pos hzero.le]
      exact .inr ⟨rfl, rfl, rfl, rfl, x.addresses_poll⟩
    · rw [if_neg hzero, if_neg (by omega)]
      exact .inl ⟨⟨by simpa using hret, hst, by omega, rfl⟩, rfl, rfl⟩
  · rw [if_neg hst, if_neg hst]
    split <;> exact .inr ⟨rfl, rfl, rfl, rfl, rfl⟩

/-- The addresses are kept, but that a search copies the one once more. -/
theorem addresses_step (x : Whole) : (x.step W).prob.addresses = x.prob.addresses ∨
    ∃ p, p.addresses = x.prob.addresses ∧ (x.step W).prob = profInit p := by
  rcases x.step_cases (W := W) with ⟨-, -, hstep⟩ | ⟨-, h⟩
  · have hproc : (x.poll.handled W).result.2.addresses = x.prob.addresses :=
      ((yields_procCtrlPacket (x.poll.env W) ⟨0, 0⟩ x.poll.prob).result x.poll.feed).trans
        x.addresses_poll
    rw [hstep]
    unfold process
    split
    · exact .inl ((congrArg Prob.addresses (x.poll.answered_prob W)).trans x.addresses_poll)
    · dsimp only
      split
      · exact .inr ⟨_, hproc, rfl⟩
      · exact .inl hproc
  · exact .inl h.addresses

theorem hosts_step (x : Whole) : (x.step W).hosts = x.hosts := by
  rcases x.addresses_step (W := W) with h | ⟨p, hp, h⟩
  · exact hosts_of_addresses h
  · simp only [Prob.addresses, Prod.mk.injEq] at hp
    rw [hosts, h, hosts, ← hp.1, ← hp.2.1]
    rfl

theorem Named.step (h : x.Named) : (x.step W).Named := by
  rcases x.addresses_step (W := W) with ha | ⟨p, hp, hx⟩
  · simp only [Prob.addresses, Prod.mk.injEq] at ha
    rw [Named, ha.1, ha.2.2]
    exact h
  · rw [Named, hx]
    exact chars_profInit p

theorem dbFile_step (x : Whole) : (x.step W).dbFile = x.dbFile := by
  rcases x.step_cases (W := W) with ⟨-, -, hstep⟩ | ⟨-, h⟩
  · obtain ⟨p, f, r, l, hprocess⟩ := x.poll.exists_process W
    rw [hstep, hprocess]
    change (x.poll.answered W).dbFile = x.poll.dbFile
    rcases x.poll.answered_cases W with ⟨k, -, h⟩ | ⟨-, h | ⟨-, h⟩⟩
    · rw [h]
      cases k <;> rfl
    · rw [h]
    · rw [h]
      rfl
  · exact h.dbFile

/-- A step of a client of the two hosts adds the tests that it counts. -/
theorem remembers_step (hosts : Hosts localIp remoteIp)
    (h : Remembers localIp remoteIp rs x.profiles)
    (hx : x.hosts = (latin localIp.text, latin remoteIp.text))
    (hc : ∀ s ∈ x.stepSearch W, ∀ l ∈ s.history, W.Composes localIp remoteIp x.poll.prob l) :
    Remembers localIp remoteIp (rs ++ x.stepResults W) (x.step W).profiles := by
  have hpoll : x.poll.hosts = (latin localIp.text, latin remoteIp.text) :=
    (hosts_of_addresses x.addresses_poll).trans hx
  have hnone : Remembers localIp remoteIp (rs ++ []) x.profiles := by rwa [List.append_nil]
  rw [stepResults]
  rcases x.step_cases (W := W) with ⟨-, hs, hstep⟩ | ⟨hs, ha⟩
  · rw [hs] at hc ⊢
    obtain ⟨p, f, r, l, hprocess⟩ := x.poll.exists_process W
    rw [hstep, hprocess]
    change Remembers localIp remoteIp _ (x.poll.answered W).profiles
    rcases x.poll.answered_cases W with ⟨k, hk, ha⟩ | ⟨hk, ha | ⟨-, ha⟩⟩
    · rw [hk] at hc ⊢
      rw [ha]
      exact remembers_searched (x := x.poll) hosts h hpoll (hc _ rfl)
    · rw [hk, ha]
      exact hnone
    · rw [hk, ha]
      exact hnone.search _ _ _ _
  · rw [hs, ha.profiles]
    exact hnone

/-- A step of a client of other hosts adds nothing to their file. -/
theorem remembers_step_of_ne (h : Remembers localIp remoteIp rs x.profiles)
    (hne : profFile (latin localIp.text) (latin remoteIp.text) ≠ profFile x.hosts.1 x.hosts.2) :
    Remembers localIp remoteIp rs (x.step W).profiles := by
  have hpoll : x.poll.hosts = x.hosts := hosts_of_addresses x.addresses_poll
  rcases x.step_cases (W := W) with ⟨-, -, hstep⟩ | ⟨-, ha⟩
  · obtain ⟨p, f, r, l, hprocess⟩ := x.poll.exists_process W
    rw [hstep, hprocess]
    change Remembers localIp remoteIp rs (x.poll.answered W).profiles
    rcases x.poll.answered_cases W with ⟨k, -, ha⟩ | ⟨-, ha | ⟨-, ha⟩⟩
    · obtain ⟨composed, -, hprofiles⟩ := x.poll.searched_profiles (W := W) k
      rw [ha, hprofiles, hpoll]
      exact h.addRecords_of_ne hne composed _
    · rw [ha]
      exact h
    · rw [ha]
      exact h.search _ _ _ _
  · rw [ha.profiles]
    exact h

/-- What a client of the two hosts finds in their file, if it looks into it. -/
theorem lookup_eq (hown : x.hosts = (latin localIp.text, latin remoteIp.text))
    (hdb : x.dbFile = none) (hnamed : x.Named) :
    x.poll.lookup = recalled localIp remoteIp x.profiles x.recordMax := by
  have hpoll := x.addresses_poll
  simp only [Prob.addresses, Prod.mk.injEq] at hpoll
  obtain ⟨hlocal, hremote⟩ := Prod.mk.inj hown
  change fM2mDbSearch x.profiles (x.dbFile.map fun f => f x.calls)
    (chars x.poll.prob.controlLocalIp) (chars x.poll.prob.remoteIp) x.recordMax = _
  rw [hpoll.2.1, hpoll.2.2, hdb, Option.map_none, show chars x.prob.controlLocalIp = _ from hnamed,
    hlocal, hremote, recalled]

theorem ret_of_step (h : (x.step W).ret = none) : x.ret = none := by
  rcases hret : x.ret with _ | r
  · rfl
  · have hstep : x.step W = x := if_pos (by rw [hret]; rfl)
    rw [hstep, hret] at h
    exact h

end Whole

/-! ### One session -/

namespace World

variable {W : World} {m : Memory} {n : ℕ} {x : Whole}

/-- The address in the control block, when the client has been configured. -/
theorem controlLocalIp_configured {p : Prob} (hp : W.configured m = some p) :
    p.controlLocalIp = 0 :: m.controlLocalIp.drop 1 := by
  have hconf := (Option.filter_eq_some_iff.mp hp).1
  obtain ⟨q, hq, rfl⟩ := Option.map_eq_some_iff.mp hconf
  have hkeep : OptionFree fun p => (p.localIp, p.controlLocalIp) :=
    ⟨fun _ _ => rfl, fun _ _ _ => rfl, fun _ _ => rfl, fun _ _ => rfl, fun _ _ => rfl⟩
  have hnew : (q.localIp, q.controlLocalIp) =
      (List.replicate pHostaddrLen 0, m.controlLocalIp) := by
    rw [hkeep.cmdParse hq, getMaxBuf]
    split <;> rfl
  obtain ⟨hlocal, hcontrol⟩ := Prod.mk.inj hnew
  change setString (cstr q.localIp) q.controlLocalIp = _
  rw [hlocal, hcontrol]
  rfl

/-- A client that has connected knows its address in the control block, where the memory
of the block holds a terminator behind it. -/
theorem named_started {p : Prob} (hp : W.configured m = some p)
    (hret : (W.started m p).ret = none)
    (hown : chars (W.started m p).prob.localIp = latin localIp.text)
    (hnul : m.controlLocalIp[localIp.text.length]? = some 0) : (W.started m p).Named := by
  set env : ClientEnv := ⟨W.id, W.id_length, false, true, fun _ => none⟩ with henv
  have hstart : (W.started m p).ret = ((Client.start env p).play W.feed).result.ret ∧
      (W.started m p).prob = ((Client.start env p).play W.feed).result.prob := ⟨rfl, rfl⟩
  have hplay : (Client.start env p).play W.feed = _ :=
    Prog.play_bind (Client.connect env p) _ W.feed
  obtain ⟨fs, hexec⟩ := exec_play (Client.connect env p) W.feed
  rcases exec_connect hexec with ⟨-, hfail⟩ | ⟨-, htold⟩
  · rw [hstart.1, hplay] at hret
    simp [hfail, Prog.play, Played.after] at hret
  · generalize bytesOf .addr _ = addr at htold
    have hprob : (W.started m p).prob = { told env p addr with status := .programStart } := by
      rw [hstart.2, hplay, htold]
      rfl
    rw [hprob] at hown
    rw [Whole.Named, hprob]
    have htext : cstr (overlay addr p.localIp) = localIp.text := latin_inj hown
    have hne : 0 < localIp.text.length := List.length_pos_iff.mpr localIp.ne_nil
    have hget : p.controlLocalIp[localIp.text.length]? = some 0 := by
      rw [controlLocalIp_configured hp, List.getElem?_cons, if_neg (by omega), List.getElem?_drop,
        show 1 + (localIp.text.length - 1) = localIp.text.length by omega]
      exact hnul
    have hcontrol : cstr (overlay localIp.text p.controlLocalIp) = localIp.text :=
      (isString_overlay_iff.mpr ⟨localIp.no_nul, hget⟩).cstr_eq
    change latin (cstr (overlay (cstr (overlay addr p.localIp)) p.controlLocalIp)) =
      latin (cstr (overlay addr p.localIp))
    rw [htext, hcontrol]

/-- The pair of hosts is settled when the client has connected. -/
theorem hosts_run (hx : W.run m n = some x) :
    ∃ p ∈ W.configured m, x.hosts = (W.started m p).hosts := by
  induction n generalizing x with
  | zero =>
    obtain ⟨p, hp, rfl⟩ := Option.map_eq_some_iff.mp hx
    exact ⟨p, hp, rfl⟩
  | succ n ih =>
    rw [run_succ] at hx
    obtain ⟨y, hy, rfl⟩ := Option.map_eq_some_iff.mp hx
    rw [y.hosts_step]
    exact ih hy

/-- What a session of the two hosts adds to their file. -/
theorem remembers_run (hosts : Hosts localIp remoteIp)
    (h : Remembers localIp remoteIp rs W.profiles)
    (hown : ∀ p ∈ W.configured m, (W.started m p).hosts = (latin localIp.text, latin remoteIp.text))
    (hc : ∀ i < n, ∀ x ∈ W.run m i, ∀ s ∈ x.stepSearch W, ∀ l ∈ s.history,
      W.Composes localIp remoteIp x.poll.prob l) (hx : W.run m n = some x) :
    Remembers localIp remoteIp (rs ++ W.counted m n) x.profiles := by
  induction n generalizing x with
  | zero =>
    obtain ⟨p, hp, rfl⟩ := Option.map_eq_some_iff.mp hx
    have hnone : W.counted m 0 = [] := rfl
    rw [hnone, List.append_nil]
    exact h
  | succ n ih =>
    rw [run_succ] at hx
    obtain ⟨y, hy, rfl⟩ := Option.map_eq_some_iff.mp hx
    have hr := ih (fun i hi => hc i (hi.trans n.lt_succ_self)) hy
    obtain ⟨p, hp, hhosts⟩ := hosts_run hy
    rw [counted_succ W m hy, ← List.append_assoc]
    exact Whole.remembers_step hosts hr (hhosts.trans (hown p hp)) (hc n n.lt_succ_self y hy)

/-- A session of other hosts adds nothing. -/
theorem remembers_run_of_ne (h : Remembers localIp remoteIp rs W.profiles)
    (hne : ∀ p ∈ W.configured m, profFile (latin localIp.text) (latin remoteIp.text) ≠
      profFile (W.started m p).hosts.1 (W.started m p).hosts.2) (hx : W.run m n = some x) :
    Remembers localIp remoteIp rs x.profiles := by
  induction n generalizing x with
  | zero =>
    obtain ⟨p, hp, rfl⟩ := Option.map_eq_some_iff.mp hx
    exact h
  | succ n ih =>
    rw [run_succ] at hx
    obtain ⟨y, hy, rfl⟩ := Option.map_eq_some_iff.mp hx
    obtain ⟨p, hp, hhosts⟩ := hosts_run hy
    exact Whole.remembers_step_of_ne (ih hy) (hhosts ▸ hne p hp)

/-- What a running client of the two hosts looks into. -/
theorem looks_run (hnull : m.dbFile = none)
    (hown : ∀ p ∈ W.configured m, (W.started m p).hosts = (latin localIp.text, latin remoteIp.text))
    (hnul : m.controlLocalIp[localIp.text.length]? = some 0) (hx : W.run m n = some x)
    (hret : x.ret = none) : x.dbFile = none ∧ x.Named := by
  induction n generalizing x with
  | zero =>
    obtain ⟨p, hp, rfl⟩ := Option.map_eq_some_iff.mp hx
    exact ⟨hnull, named_started hp hret (congrArg Prod.fst (hown p hp)) hnul⟩
  | succ n ih =>
    rw [run_succ] at hx
    obtain ⟨y, hy, rfl⟩ := Option.map_eq_some_iff.mp hx
    obtain ⟨hdb, hnamed⟩ := ih hy (Whole.ret_of_step hret)
    exact ⟨y.dbFile_step.trans hdb, hnamed.step⟩

/-- What it finds there: the best of the tests that the file held before the session, and
of those of the session so far. -/
theorem recalls_run (hosts : Hosts localIp remoteIp)
    (h : Remembers localIp remoteIp rs W.profiles)
    (hown : ∀ p ∈ W.configured m, (W.started m p).hosts = (latin localIp.text, latin remoteIp.text))
    (hc : ∀ i < n, ∀ x ∈ W.run m i, ∀ s ∈ x.stepSearch W, ∀ l ∈ s.history,
      W.Composes localIp remoteIp x.poll.prob l)
    (hnull : m.dbFile = none) (hnul : m.controlLocalIp[localIp.text.length]? = some 0)
    (hx : W.run m n = some x) (hret : x.ret = none) :
    Recalls (rs ++ W.counted m n) x.profiles x.poll.lookup := by
  obtain ⟨hdb, hnamed⟩ := looks_run hnull hown hnul hx hret
  obtain ⟨p, hp, hhosts⟩ := hosts_run hx
  rw [Whole.lookup_eq (hhosts.trans (hown p hp)) hdb hnamed]
  exact (remembers_run hosts h hown hc hx).recalls x.recordMax

end World

/-! ### Many sessions -/

/-- A session of a client on the host: what it meets, its memory, and the iterations of
its loop until it ends or is stopped. The files it meets are those that are there. -/
structure Visit where
  world : World
  memory : Memory
  iterations : ℕ

namespace Visit

/-- What it meets where the files are `d`. -/
def on (d : Profiles) (v : Visit) : World := { v.world with profiles := d }

/-- The client at the end of the session. -/
def client (d : Profiles) (v : Visit) : Option Whole := (v.on d).run v.memory v.iterations

/-- The files after it. -/
def leave (d : Profiles) (v : Visit) : Profiles := ((v.client d).map Whole.profiles).getD d

/-- The pair of hosts of its client. -/
def hosts (v : Visit) : Option (List Char × List Char) :=
  (v.world.configured v.memory).map fun p => (v.world.started v.memory p).hosts

/-- A session of the two hosts. -/
def isOf (localIp remoteIp : Packed.HostAddr) (v : Visit) : Bool :=
  v.hosts = some (latin localIp.text, latin remoteIp.text)

/-- The tests of the two hosts that are counted in many sessions, one after the other. -/
def countedBy (localIp remoteIp : Packed.HostAddr) : Profiles → List Visit → List (Result ℚ)
  | _, [] => []
  | d, v :: vs =>
    (if v.isOf localIp remoteIp then (v.on d).counted v.memory v.iterations else []) ++
      countedBy localIp remoteIp (v.leave d) vs

/-- A session that is well for the file of the two hosts: the address of its client
contains no `_`, as none does that `inet_ntoa` makes, and fits its array, as the arguments
of the client do, and if it is one of the two hosts, then the records are composed of its
tests. -/
structure Sound (localIp remoteIp : Packed.HostAddr) (d : Profiles) (v : Visit) : Prop where
  dotted : ∀ h ∈ v.hosts, '_' ∉ h.1
  address : AddressFits v.world.feed.stream
  arguments : ∀ o ∈ v.world.args.map Arg.toOpt, o.Fits
  composes : v.isOf localIp remoteIp = true → ∀ i < v.iterations, ∀ x ∈ (v.on d).run v.memory i,
    ∀ s ∈ x.stepSearch (v.on d), ∀ l ∈ s.history,
      (v.on d).Composes localIp remoteIp x.poll.prob l

theorem hosts_of_isOf {v : Visit} (h : v.isOf localIp remoteIp = true) (d : Profiles) :
    ∀ p ∈ (v.on d).configured v.memory,
      ((v.on d).started v.memory p).hosts = (latin localIp.text, latin remoteIp.text) := by
  intro p hp
  rw [isOf, decide_eq_true_eq, hosts] at h
  obtain ⟨q, hq, hh⟩ := Option.map_eq_some_iff.mp h
  obtain rfl : q = p := Option.some.inj (hq.symm.trans hp)
  exact hh

/-- A session leaves in the file of the two hosts what it counts, if it is theirs. -/
theorem Sound.remembers (pair : Hosts localIp remoteIp) (hdot : localIp.Dotted) {v : Visit}
    (hv : v.Sound localIp remoteIp d) (h : Remembers localIp remoteIp rs d) :
    Remembers localIp remoteIp (rs ++ if v.isOf localIp remoteIp then
      (v.on d).counted v.memory v.iterations else []) (v.leave d) := by
  unfold leave
  rcases hx : v.client d with _ | x
  · have hconf : (v.on d).configured v.memory = none := Option.map_eq_none_iff.mp hx
    rw [World.counted_of_none _ _ hconf, ite_self, List.append_nil]
    exact h
  by_cases hown : v.isOf localIp remoteIp = true
  · rw [if_pos hown]
    exact World.remembers_run pair h (hosts_of_isOf hown d) (hv.composes hown) hx
  · rw [if_neg hown, List.append_nil]
    refine World.remembers_run_of_ne h (fun p hp hname => hown ?_) hx
    have hhosts : v.hosts = some ((v.on d).started v.memory p).hosts :=
      Option.map_eq_some_iff.mpr ⟨p, hp, rfl⟩
    obtain ⟨hl, hr⟩ := profFile_inj hdot.not_mem (hv.dotted _ hhosts) hname
    rw [isOf, decide_eq_true_eq, hhosts, hl, hr]

theorem remembers_foldl (pair : Hosts localIp remoteIp) (hdot : localIp.Dotted) {d₀ : Profiles}
    {before vs : List Visit}
    (hvs : Trace.Along (fun b v => v.Sound localIp remoteIp (b.foldl leave d₀)) before vs)
    (h : Remembers localIp remoteIp rs (before.foldl leave d₀)) :
    Remembers localIp remoteIp (rs ++ countedBy localIp remoteIp (before.foldl leave d₀) vs)
      ((before ++ vs).foldl leave d₀) := by
  induction vs generalizing before rs with
  | nil =>
    rw [countedBy, List.append_nil, List.append_nil]
    exact h
  | cons v vs ih =>
    obtain ⟨hv, hvs⟩ := hvs
    have hsnoc : (before ++ [v]).foldl leave d₀ = leave (before.foldl leave d₀) v :=
      List.foldl_concat ..
    have hrest := ih hvs (hsnoc ▸ hv.remembers pair hdot h)
    rw [hsnoc, List.append_assoc, List.append_assoc] at hrest
    exact hrest

/-- The last of many sessions, if it is one of the two hosts. -/
theorem countedBy_snoc {v : Visit} (hown : v.isOf localIp remoteIp = true) {vs : List Visit} :
    countedBy localIp remoteIp d (vs ++ [v]) = countedBy localIp remoteIp d vs ++
      (v.on (vs.foldl leave d)).counted v.memory v.iterations := by
  induction vs generalizing d with
  | nil =>
    change (if _ then _ else _) ++ [] = _
    rw [if_pos hown, List.append_nil]
    rfl
  | cons u vs ih =>
    rw [List.cons_append, countedBy, ih, countedBy, List.append_assoc]
    rfl

/-- **What a client recalls of all sessions before it**, and of its own: if the sessions
are well for the file of its hosts, the handle of the file is a null pointer in its memory,
and its address has a terminator in the control block. -/
theorem sessions_recall (pair : Hosts localIp remoteIp) (hdot : localIp.Dotted) {d : Profiles}
    (hd : d.makeFolder.folder = true)
    (hfile : d.file (profFile (latin localIp.text) (latin remoteIp.text)) = some [])
    {vs : List Visit} {v : Visit}
    (hvs : Trace.Along (fun b v => v.Sound localIp remoteIp (b.foldl leave d)) [] (vs ++ [v]))
    (hown : v.isOf localIp remoteIp = true) (hnull : v.memory.dbFile = none)
    (hnul : v.memory.controlLocalIp[localIp.text.length]? = some 0) {x : Whole}
    (hx : v.client (vs.foldl leave d) = some x) (hret : x.ret = none) :
    Recalls (countedBy localIp remoteIp d (vs ++ [v])) x.profiles x.poll.lookup ∧
      ((x.poll.env (v.on (vs.foldl leave d))).found = true ↔
        countedBy localIp remoteIp d (vs ++ [v]) ≠ []) := by
  have hempty : Remembers localIp remoteIp [] d := .empty hd hfile
  rw [Trace.along_snoc, List.nil_append] at hvs
  have hbefore : Remembers localIp remoteIp ([] ++ countedBy localIp remoteIp d vs)
      (vs.foldl leave d) := remembers_foldl pair hdot hvs.1 hempty
  have hr : Recalls _ x.profiles x.poll.lookup := World.recalls_run pair hbefore
    (hosts_of_isOf hown (vs.foldl leave d)) (hvs.2.composes hown) hnull hnul hx hret
  rw [List.nil_append, ← countedBy_snoc hown] at hr
  refine ⟨hr, ?_⟩
  change decide (0 ≤ x.poll.lookup.1) = true ↔ _
  rw [decide_eq_true_eq]
  exact hr.found

/-! ### Two sessions -/

/-- The throughputs of the tests below, as the machine holds them. -/
def perfWord (q : ℚ) : BitVec 64 :=
  if q = 900 then 0x408C200000000000
  else if q = 800 then 0x4089000000000000
  else 0x4085E00000000000

/-- A client that is asked for its history and for a TCP search, whose three tests measure
900, 800 and 700 Mbps. -/
def fallingVisit : Visit where
  world :=
    { plainWorld with
      args := [.opt (.client Packed.longerIp.text), .param (.maxLimit 3)]
      feed :=
        { stream := le32 8 ++ Packed.shorterIp.text ++
            [Status.ctrlChanEst.code, Status.twowayHandshake.code] ++ (⟨0, 0⟩ : Ctrlmsg).bytes ++
            [Status.runM2mDb.code, Status.runM2mTcp.code]
          calls := fun _ => some 1000 }
      out := fun _ _ => plainOutcomes fun n => 900 - 100 * n
      record := fun _ l => MemRecord.ofMem (l.protocol.compose Packed.shorterIp Packed.longerIp
        Packed.sampleTm (l.finished (perfWord l.averagePerf))) }
  memory := { plainMemory none with controlLocalIp := List.replicate pHostaddrLen 0 }
  iterations := 4

theorem fallingVisit_sound : ∀ d ∈ [emptyProfiles, leave emptyProfiles fallingVisit],
    fallingVisit.Sound Packed.shorterIp Packed.longerIp d := by
  have hrep : ∀ d ∈ [emptyProfiles, leave emptyProfiles fallingVisit],
      ∀ i < fallingVisit.iterations, ∀ x ∈ (fallingVisit.on d).run fallingVisit.memory i,
        ∀ s ∈ x.stepSearch (fallingVisit.on d), ∀ l ∈ s.history,
          0 ≤ l.averagePerf ∧ Fastprof.Represents (l.finished (perfWord l.averagePerf)) l := by
    decide +kernel
  intro d hd
  refine ⟨by decide +kernel, by decide, by decide, fun _ i hi x hx s hs l hl => ?_⟩
  obtain ⟨h0, ht⟩ := hrep d hd i hi x hx s hs l hl
  exact ⟨h0, Packed.sampleTm, _, by decide, ht, rfl⟩

/-- After two such sessions the client recalls the best of the six tests. -/
theorem sessions_recall_falling : ∃ x,
    fallingVisit.client (leave emptyProfiles fallingVisit) = some x ∧
    Recalls (countedBy Packed.shorterIp Packed.longerIp emptyProfiles [fallingVisit, fallingVisit])
      x.profiles x.poll.lookup ∧
    ((x.poll.env (fallingVisit.on (leave emptyProfiles fallingVisit))).found = true ↔
      countedBy Packed.shorterIp Packed.longerIp emptyProfiles [fallingVisit, fallingVisit] ≠ []) := by
  have hret : (fallingVisit.client (leave emptyProfiles fallingVisit)).map Whole.ret =
      some none := by
    decide +kernel
  obtain ⟨x, hx, hx'⟩ := Option.map_eq_some_iff.mp hret
  have hvs : Trace.Along (fun b v => v.Sound Packed.shorterIp Packed.longerIp
      (b.foldl leave emptyProfiles)) [] ([fallingVisit] ++ [fallingVisit]) :=
    ⟨fallingVisit_sound _ (by simp), fallingVisit_sound _ (by simp), trivial⟩
  have hown : fallingVisit.isOf Packed.shorterIp Packed.longerIp = true := by decide +kernel
  exact ⟨x, hx, sessions_recall ⟨⟨by decide, by decide⟩, by decide, by decide⟩ shorterIp_dotted
    rfl rfl hvs hown rfl (by decide) hx hx'⟩

end Visit

end Session
end Probdata
