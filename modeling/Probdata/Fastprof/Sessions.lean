/-
# The history of many sessions

Each campaign of a pair of hosts first searches the file of their records, and then adds
one for every test that its search counts. So the file grows from campaign to campaign,
those of other pairs add nothing to it, and what is found in it is the best of all tests
before: its record goes through a packed struct, a line of text and `sscanf`, and comes back
with the parameters that the test was programmed with and its throughput to six digits.

Key theorem: `campaigns_recall`.
-/
import Probdata.Fastprof.History
import Probdata.Fastprof.Printed
import Probdata.Fastprof.Results

namespace Probdata
namespace Fastprof

open Text

/-! ### A campaign -/

/-- A finished test has the numbers of a line of the history. -/
structure Represents (t : Packed.Finished) (l : HistoryLine ℚ) : Prop where
  numStreams : t.numStreams.toInt = l.numStreams
  mssSize : t.mss.toInt = l.mssSize
  bufferSize : t.bufsize.toInt = l.bufferSize
  blockSize : t.blksize.toInt = l.blockSize
  duration : t.duration.toInt = l.duration
  transSize : t.totalSent.toInt = l.transSize
  averagePerf : Dbl.ofBits t.perfMbps = .num l.averagePerf

/-- A search of a campaign, after `n` steps. -/
inductive Searched
  | tcp (lib : IperfLib) (P : Setup ℚ) (args : Args (FastprofTcpProf ℚ) IperfTest) (n : ℕ)
  | udt (P : Setup ℚ) (args : Args (FastprofUdtProf ℚ) (TpgProfile ℚ)) (n : ℕ)

namespace Searched

def protocol : Searched → Protocol
  | .tcp _ _ _ _ => .tcp
  | .udt _ _ _ => .udt

def history : Searched → List (HistoryLine ℚ)
  | .tcp lib P args n => (fTcpClientRun lib P args n).history
  | .udt P args n => (fUdtClientRun P args n).history

/-- The tests it counted: what they were programmed with, and what they measured. -/
def results : Searched → List (Result ℚ)
  | .tcp lib P args n =>
    (fTcpClientRun lib P args n).vars.counted.map ((tcpProfiler lib P).result .tcp)
  | .udt P args n => (fUdtClientRun P args n).vars.counted.map ((udtProfiler P).result .udt)

theorem history_result (s : Searched) : s.history.map HistoryLine.result = s.results := by
  cases s with
  | tcp lib P args n =>
    have h := Vars.written_run (tcpProfiler_composes lib P) P args n
    rw [← fTcpClientRun_vars] at h
    exact h.history
  | udt P args n =>
    have h := Vars.written_run (udtProfiler_composes P) P args n
    rw [← fUdtClientRun_vars] at h
    exact h.history

end Searched

/-- A search with the records that are composed of its tests: the time of each, and its
numbers as the machine holds them. `recordMax` is what the search in the records meets
in memory. -/
structure Campaign where
  recordMax : MemRecord
  search : Searched
  records : List (Packed.Tm × Packed.Finished)
  represents : List.Forall₂ (fun r l => Represents r.2 l) records search.history
  current : ∀ r ∈ records, r.1.Current
  nonneg : ∀ x ∈ search.results, 0 ≤ x.perfMbps

variable (localIp remoteIp : Packed.HostAddr)

def Protocol.compose : Protocol → Packed.Tm → Packed.Finished → Layout.Mem
  | .tcp => Packed.fTcpM2mRecordCompose localIp remoteIp
  | .udt => Packed.fUdtM2mRecordCompose localIp remoteIp

def Protocol.add : Protocol → Profiles → List Char → List Char → MemRecord → ℤ × Profiles
  | .tcp => fTcpM2mRecordAdd
  | .udt => fUdtM2mRecordAdd

/-- The search in the records of the two hosts. -/
def recalled (d : Profiles) (recordMax : MemRecord) : ℤ × MemRecord × Profiles :=
  fM2mDbSearch d none (latin localIp.text) (latin remoteIp.text) recordMax

/-- A record is composed and added. -/
def Campaign.add (p : Protocol) (d : Profiles) (r : Packed.Tm × Packed.Finished) : Profiles :=
  (p.add d (latin localIp.text) (latin remoteIp.text)
    (MemRecord.ofMem (p.compose localIp remoteIp r.1 r.2))).2

/-- The files after a campaign: the search in the records, and the records it adds. -/
def Campaign.leave (d : Profiles) (s : Campaign) : Profiles :=
  s.records.foldl (Campaign.add localIp remoteIp s.search.protocol)
    (recalled localIp remoteIp d s.recordMax).2.2

/-! ### What is recalled -/

/-- A record tells the result of a test, the throughput to six digits. -/
structure MemRecord.Tells (r : MemRecord) (x : Result ℚ) : Prop where
  protocolName : r.protocolName = match x.protocol with
    | .tcp => "TCP".toList
    | .udt => "UDT".toList
  tuned : x.tuned = match x.protocol with
    | .tcp => (r.bufferSize, r.numStreams)
    | .udt => (r.blockSize, r.bufferSize)
  averagePerf : r.averagePerf = .num (millionths x.perfMbps)

/-- What is recalled of some results, from the files `d`: the first one of those whose
throughputs are printed as the largest, which no throughput exceeds by more than a
millionth; or nothing, if there are none. -/
def Recalls (rs : List (Result ℚ)) (d : Profiles) (ret : ℤ × MemRecord × Profiles) : Prop :=
  if rs = [] then ret.1 = -1
  else ∃ x r, Running.IsFirstMax (fun x => millionths x.perfMbps) rs x ∧
    (∀ y ∈ rs, y.perfMbps ≤ x.perfMbps + 1 / 10 ^ 6) ∧ r.Tells x ∧ ret = (0, r, d)

/-- Something is found if there is something. -/
theorem Recalls.found {rs : List (Result ℚ)} {d : Profiles} {ret : ℤ × MemRecord × Profiles}
    (h : Recalls rs d ret) : 0 ≤ ret.1 ↔ rs ≠ [] := by
  unfold Recalls at h
  split at h
  · rename_i hnil
    rw [h]
    exact iff_of_false (by decide) fun hne => hne hnil
  · rename_i hne
    obtain ⟨x, r, -, -, -, rfl⟩ := h
    exact iff_of_true (le_refl _) hne

/-- Names and tools of the two protocols. -/
def Protocol.names : Protocol → List Char × List Char
  | .tcp => ("TCP".toList, "iperf3".toList)
  | .udt => ("UDT".toList, "tpg".toList)

variable {localIp remoteIp}

/-- The addresses of a pair of hosts whose records are faithful. -/
structure Hosts (localIp remoteIp : Packed.HostAddr) : Prop where
  plain : localIp.Plain
  le : localIp.text.length ≤ remoteIp.text.length
  short : remoteIp.text.length ≤ 31

/-- What is printed of a composed record. -/
theorem ofMem_compose (h : Hosts localIp remoteIp) (p : Protocol) (tm : Packed.Tm)
    (t : Packed.Finished) : MemRecord.ofMem (p.compose localIp remoteIp tm t) =
      finishedRecord p.names.1 p.names.2 localIp remoteIp tm t := by
  have hlocal := h.plain.2
  have hshort := h.short
  have hascii : ∀ cs : List Char, (cs.all fun c => c ≠ '\x00' ∧ c.toNat < 256) = true →
      ∀ c ∈ cs, c ≠ '\x00' ∧ c.toNat < 256 := fun cs hcs => by
    simpa using List.all_eq_true.mp hcs
  cases p with
  | tcp =>
    exact ofMem_eq (hascii _ (by decide)) (hascii _ (by decide)) (by decide) (by decide) (by omega)
      (by omega) (Packed.faithful_of_le (by decide) (by decide) h.le h.short)
  | udt =>
    exact ofMem_eq (hascii _ (by decide)) (hascii _ (by decide)) (by decide) (by decide) (by omega)
      (by omega) (Packed.faithful_of_le (by decide) (by decide) h.le h.short)

/-- The entry that a test leaves in the file. -/
def Protocol.entry (localIp remoteIp : Packed.HostAddr) (p : Protocol)
    (r : Packed.Tm × Packed.Finished) : Entry :=
  match p with
  | .tcp => .tcp (finishedRecord p.names.1 p.names.2 localIp remoteIp r.1 r.2).printed
  | .udt => .udt (finishedRecord p.names.1 p.names.2 localIp remoteIp r.1 r.2).printed

theorem Campaign.add_eq (h : Hosts localIp remoteIp) (p : Protocol) (d : Profiles)
    {r : Packed.Tm × Packed.Finished} {q : ℚ} (hq : Dbl.ofBits r.2.perfMbps = .num q) (h0 : 0 ≤ q) :
    Campaign.add localIp remoteIp p d r =
      (p.entry localIp remoteIp r).write (latin localIp.text) (latin remoteIp.text) d := by
  have hline : (finishedRecord p.names.1 p.names.2 localIp remoteIp r.1 r.2).printed.line =
      (finishedRecord p.names.1 p.names.2 localIp remoteIp r.1 r.2).line :=
    MemRecord.line_printed hq h0
  have hadd : ∀ x : MemRecord, (p.add d (latin localIp.text) (latin remoteIp.text) x) =
      addRecord d (latin localIp.text) (latin remoteIp.text) x := fun x => by cases p <;> rfl
  have hwrite : (p.entry localIp remoteIp r).write (latin localIp.text) (latin remoteIp.text) d =
      (addRecord d (latin localIp.text) (latin remoteIp.text)
        (finishedRecord p.names.1 p.names.2 localIp remoteIp r.1 r.2).printed).2 := by cases p <;> rfl
  rw [Campaign.add, ofMem_compose h, hadd, hwrite, addRecord, addRecord, hline]

theorem readable_entry (h : Hosts localIp remoteIp) (p : Protocol) {r : Packed.Tm × Packed.Finished}
    (htm : r.1.Current) {q : ℚ} (hq : Dbl.ofBits r.2.perfMbps = .num q) (h0 : 0 ≤ q) :
    (p.entry localIp remoteIp r).Readable := by
  cases p with
  | tcp => exact printable_finished (by decide) (by decide) (by decide) (by decide) h.plain h.short htm hq h0
  | udt => exact printable_finished (by decide) (by decide) (by decide) (by decide) h.plain h.short htm hq h0

/-- The record of an entry tells the result that its line represents. -/
theorem tells_entry {p : Protocol} {r : Packed.Tm × Packed.Finished} {l : HistoryLine ℚ}
    (hr : Represents r.2 l) (hp : l.protocol = p) :
    ∀ x ∈ (p.entry localIp remoteIp r).record, x.Tells l.result := by
  intro x hx
  obtain rfl : (finishedRecord p.names.1 p.names.2 localIp remoteIp r.1 r.2).printed = x := by
    cases p <;> exact Option.some.inj hx
  have hperf : (finishedRecord p.names.1 p.names.2 localIp remoteIp r.1 r.2).averagePerf =
      .num l.averagePerf := hr.averagePerf
  rw [MemRecord.printed_eq hperf]
  subst hp
  cases hl : l.protocol with
  | tcp =>
    exact ⟨by simp [HistoryLine.result, hl, finishedRecord, Protocol.names],
      by simp [HistoryLine.result, hl, finishedRecord, ← hr.bufferSize, ← hr.numStreams], rfl⟩
  | udt =>
    exact ⟨by simp [HistoryLine.result, hl, finishedRecord, Protocol.names],
      by simp [HistoryLine.result, hl, finishedRecord, ← hr.bufferSize, ← hr.blockSize], rfl⟩

/-! ### The file -/

namespace Campaign

/-- The entries that a campaign leaves. -/
def entries (localIp remoteIp : Packed.HostAddr) (s : Campaign) : List Entry :=
  s.records.map (s.search.protocol.entry localIp remoteIp)

theorem protocol_of_history (s : Searched) : ∀ l ∈ s.history, l.protocol = s.protocol := by
  intro l hl
  have hmem : l.result ∈ s.results := by
    rw [← s.history_result]
    exact List.mem_map_of_mem hl
  cases s with
  | tcp lib P args n =>
    obtain ⟨t, -, ht⟩ := List.mem_map.mp hmem
    exact congrArg Result.protocol ht.symm
  | udt P args n =>
    obtain ⟨t, -, ht⟩ := List.mem_map.mp hmem
    exact congrArg Result.protocol ht.symm

/-- What is known of each record of a campaign. -/
theorem of_mem_records (s : Campaign) {r : Packed.Tm × Packed.Finished} (hr : r ∈ s.records) :
    ∃ l ∈ s.search.history, Represents r.2 l ∧ 0 ≤ l.averagePerf := by
  obtain ⟨l, hl, hrep⟩ := Running.exists_mem_of_forall₂ s.represents hr
  have hmem : l.result ∈ s.search.results := by
    rw [← s.search.history_result]
    exact List.mem_map_of_mem hl
  exact ⟨l, hl, hrep, s.nonneg _ hmem⟩

theorem readable_entries (h : Hosts localIp remoteIp) (s : Campaign) :
    ∀ e ∈ s.entries localIp remoteIp, e.Readable := by
  intro e he
  obtain ⟨r, hr, rfl⟩ := List.mem_map.mp he
  obtain ⟨l, -, hrep, h0⟩ := s.of_mem_records hr
  exact readable_entry h _ (s.current r hr) hrep.averagePerf h0

/-- The records that a campaign leaves tell the results of its search, in order. -/
theorem tells_records (s : Campaign) : List.Forall₂ MemRecord.Tells
    ((s.entries localIp remoteIp).filterMap Entry.record) s.search.results := by
  have hrecord : (s.entries localIp remoteIp).filterMap Entry.record =
      s.records.map fun r => (finishedRecord s.search.protocol.names.1 s.search.protocol.names.2
        localIp remoteIp r.1 r.2).printed := by
    rw [entries, List.filterMap_map, ← List.filterMap_eq_map]
    refine List.filterMap_congr fun r _ => ?_
    cases s.search.protocol <;> rfl
  rw [hrecord, ← s.search.history_result, List.forall₂_map_left_iff, List.forall₂_map_right_iff]
  obtain ⟨hlen, hrep⟩ := List.forall₂_iff_zip.mp s.represents
  refine List.forall₂_iff_zip.mpr ⟨hlen, fun {r l} hrl => ?_⟩
  have hp := protocol_of_history s.search l (List.of_mem_zip hrl).2
  have htells : ∀ x ∈ (s.search.protocol.entry localIp remoteIp r).record, x.Tells l.result :=
    tells_entry (hrep hrl) hp
  refine htells _ ?_
  cases s.search.protocol <;> rfl

/-- A campaign adds its entries to the file. -/
theorem foldl_add (h : Hosts localIp remoteIp) (s : Campaign) (d : Profiles) :
    s.records.foldl (Campaign.add localIp remoteIp s.search.protocol) d =
      (s.entries localIp remoteIp).foldl
        (Entry.write (latin localIp.text) (latin remoteIp.text)) d := by
  rw [entries, List.foldl_map]
  refine List.foldl_ext _ _ _ fun d r hr => ?_
  obtain ⟨l, -, hrep, h0⟩ := s.of_mem_records hr
  exact add_eq h _ d hrep.averagePerf h0

end Campaign

/-- The file of the two hosts holds the entries `es`, and nothing else. -/
structure Stored (localIp remoteIp : Packed.HostAddr) (es : List Entry) (d : Profiles) : Prop where
  makeFolder : d.makeFolder.folder = true
  file : d.file (profFile (latin localIp.text) (latin remoteIp.text)) = some (textOf es)
  folder : es.filterMap Entry.record ≠ [] → d.folder = true

/-- A search in the records makes the folder at most. -/
theorem fM2mDbSearch_files (d : Profiles) (dbFile : Option (List Char)) (l r : List Char)
    (m : MemRecord) :
    (fM2mDbSearch d dbFile l r m).2.2 = if d.folder = false then d.makeFolder else d := by
  unfold fM2mDbSearch
  split
  · rfl
  · cases dbFile.or (d.fopen (profFile l r)) <;> rfl

theorem Stored.makeFolder_of {es : List Entry} {d : Profiles} (h : Stored localIp remoteIp es d) :
    Stored localIp remoteIp es d.makeFolder := by
  have hmake : d.makeFolder.makeFolder.folder = true := by
    have hfolder := h.makeFolder
    simp only [Profiles.makeFolder] at hfolder ⊢
    simp [hfolder]
  exact ⟨hmake, h.file, fun _ => h.makeFolder⟩

/-- A search in the records, of any pair of hosts, leaves the file as it is. -/
theorem Stored.search_files {es : List Entry} {d : Profiles} (h : Stored localIp remoteIp es d)
    (dbFile : Option (List Char)) (l r : List Char) (m : MemRecord) :
    Stored localIp remoteIp es (fM2mDbSearch d dbFile l r m).2.2 := by
  rw [fM2mDbSearch_files]
  split
  · exact h.makeFolder_of
  · exact h

theorem textOf_append (es es' : List Entry) : textOf (es ++ es') = textOf es ++ textOf es' :=
  List.flatMap_append

/-- A campaign that leaves no record leaves no entry. -/
theorem Campaign.entries_eq_nil {s : Campaign}
    (h : (s.entries localIp remoteIp).filterMap Entry.record = []) :
    s.entries localIp remoteIp = [] := by
  have hlen : List.Forall₂ MemRecord.Tells
      ((s.entries localIp remoteIp).filterMap Entry.record) s.search.results := s.tells_records
  rw [h] at hlen
  have hresults : s.search.results = [] := List.forall₂_nil_left_iff.mp hlen
  have hhistory : s.search.history = [] := by
    rw [← s.search.history_result] at hresults
    exact List.map_eq_nil_iff.mp hresults
  have hrecords := s.represents
  rw [hhistory] at hrecords
  rw [Campaign.entries, List.forall₂_nil_right_iff.mp hrecords]
  rfl

/-- The records of a campaign are added to the file. -/
theorem Stored.add (hosts : Hosts localIp remoteIp) {es : List Entry} {d : Profiles}
    (h : Stored localIp remoteIp es d) (s : Campaign) :
    Stored localIp remoteIp (es ++ s.entries localIp remoteIp)
      (s.records.foldl (Campaign.add localIp remoteIp s.search.protocol) d) := by
  rw [s.foldl_add hosts]
  obtain ⟨hfile, hfolder⟩ := foldl_write_file (s.entries localIp remoteIp) h.makeFolder h.file
  rw [← textOf_append] at hfile
  by_cases hnil : (s.entries localIp remoteIp).filterMap Entry.record = []
  · rw [s.entries_eq_nil hnil, List.append_nil]
    exact h
  · have hmake : ∀ d : Profiles, d.folder = true → d.makeFolder.folder = true := fun d hd => by
      simp [Profiles.makeFolder, hd]
    exact ⟨hmake _ (hfolder (.inr hnil)), hfile, fun _ => hfolder (.inr hnil)⟩

theorem Stored.leave (hosts : Hosts localIp remoteIp) {es : List Entry} {d : Profiles}
    (h : Stored localIp remoteIp es d) (s : Campaign) :
    Stored localIp remoteIp (es ++ s.entries localIp remoteIp)
      (Campaign.leave localIp remoteIp d s) :=
  (h.search_files none _ _ s.recordMax).add hosts s

/-! ### The files of other hosts -/

/-- What `inet_ntoa` prints: digits and dots. -/
def Packed.HostAddr.Dotted (a : Packed.HostAddr) : Prop := ∀ b ∈ a.text, b = 46 ∨ 48 ≤ b ∧ b ≤ 57

theorem latin_inj {bs cs : List UInt8} (h : latin bs = latin cs) : bs = cs := by
  refine List.map_injective_iff.mpr (fun b c hbc => ?_) h
  have hnat := congrArg Char.toNat hbc
  rw [toNat_ofNat, toNat_ofNat] at hnat
  exact UInt8.toNat_inj.mp hnat

theorem Packed.HostAddr.Dotted.not_mem {a : Packed.HostAddr} (h : a.Dotted) : '_' ∉ latin a.text := by
  intro hmem
  obtain ⟨b, hb, hchar⟩ := List.mem_map.mp hmem
  have hnat := congrArg Char.toNat hchar
  rw [toNat_ofNat] at hnat
  have h95 : b = 95 := UInt8.toNat_inj.mp hnat
  rcases h b hb with rfl | ⟨-, hle⟩
  · exact absurd h95 (by decide)
  · rw [h95] at hle
    exact absurd hle (by decide)

/-- The name of a file tells the two hosts, as there is no `_` in the first. -/
theorem profFile_inj {l l' r r' : List Char} (hl : '_' ∉ l) (hl' : '_' ∉ l')
    (h : profFile l r = profFile l' r') : l = l' ∧ r = r' := by
  simp only [profFile, List.append_assoc, List.cons_append] at h
  have hrest := (List.cons.inj (List.append_cancel_left h)).2
  have htake : ∀ l u : List Char, '_' ∉ l → (l ++ '_' :: u).takeWhile (· ≠ '_') = l := by
    intro l u hl
    rw [List.takeWhile_append_of_pos fun c hc => by simpa using fun he : c = '_' => hl (he ▸ hc)]
    simp
  have hll : l = l' := by
    have h' := congrArg (List.takeWhile (· ≠ '_')) hrest
    rwa [htake l _ hl, htake l' _ hl'] at h'
  subst hll
  have hr := (List.cons.inj (List.append_cancel_left hrest)).2
  exact ⟨rfl, List.append_cancel_right hr⟩

/-- A record of other hosts is no entry of the file. -/
theorem Stored.addRecord_of_ne {es : List Entry} {d : Profiles} (h : Stored localIp remoteIp es d)
    {l r : List Char} (hne : profFile (latin localIp.text) (latin remoteIp.text) ≠ profFile l r)
    (x : MemRecord) : Stored localIp remoteIp es (addRecord d l r x).2 := by
  have hd := h.makeFolder_of
  unfold addRecord
  dsimp only
  split
  · exact hd
  · refine ⟨hd.makeFolder, ?_, hd.folder⟩
    exact (if_neg hne).trans hd.file

/-- A campaign of other hosts adds nothing to the file. -/
theorem Stored.leave_of_ne {es : List Entry} {d : Profiles} (h : Stored localIp remoteIp es d)
    {l r : Packed.HostAddr} (hne : profFile (latin localIp.text) (latin remoteIp.text) ≠
      profFile (latin l.text) (latin r.text)) (s : Campaign) :
    Stored localIp remoteIp es (Campaign.leave l r d s) := by
  have hr : Stored localIp remoteIp es (recalled l r d s.recordMax).2.2 :=
    h.search_files none _ _ s.recordMax
  unfold Campaign.leave
  generalize (recalled l r d s.recordMax).2.2 = d' at hr
  induction s.records generalizing d' with
  | nil => exact hr
  | cons x xs ih =>
    refine ih _ ?_
    unfold Campaign.add
    cases s.search.protocol with
    | tcp => exact hr.addRecord_of_ne hne _
    | udt => exact hr.addRecord_of_ne hne _

/-! ### Many campaigns -/

deriving instance DecidableEq for Packed.HostAddr

attribute [ext] Packed.HostAddr

/-- A campaign and its hosts. -/
structure HostCampaign where
  localIp : Packed.HostAddr
  remoteIp : Packed.HostAddr
  dotted : localIp.Dotted
  campaign : Campaign

namespace HostCampaign

def leave (d : Profiles) (b : HostCampaign) : Profiles :=
  Campaign.leave b.localIp b.remoteIp d b.campaign

/-- The campaign is one of the two hosts. -/
def isOf (localIp remoteIp : Packed.HostAddr) (b : HostCampaign) : Bool :=
  b.localIp = localIp ∧ b.remoteIp = remoteIp

/-- The campaigns of the two hosts. -/
def ofHosts (localIp remoteIp : Packed.HostAddr) (bs : List HostCampaign) : List Campaign :=
  (bs.filter (isOf localIp remoteIp)).map campaign

end HostCampaign

/-- The entries of many campaigns: those of the two hosts. -/
theorem Stored.leaves (hosts : Hosts localIp remoteIp) (hdot : localIp.Dotted) {es : List Entry}
    {d : Profiles} (h : Stored localIp remoteIp es d) (bs : List HostCampaign) :
    Stored localIp remoteIp
      (es ++ (HostCampaign.ofHosts localIp remoteIp bs).flatMap (Campaign.entries localIp remoteIp))
      (bs.foldl HostCampaign.leave d) := by
  induction bs generalizing es d with
  | nil =>
    rw [HostCampaign.ofHosts, List.filter_nil, List.map_nil, List.flatMap_nil, List.append_nil]
    exact h
  | cons b bs ih =>
    by_cases hb : b.isOf localIp remoteIp = true
    · have hcons : HostCampaign.ofHosts localIp remoteIp (b :: bs) =
          b.campaign :: HostCampaign.ofHosts localIp remoteIp bs := by
        rw [HostCampaign.ofHosts, List.filter_cons_of_pos hb]
        rfl
      have hleave : HostCampaign.leave d b = Campaign.leave localIp remoteIp d b.campaign := by
        rw [HostCampaign.isOf, decide_eq_true_eq] at hb
        rw [HostCampaign.leave, hb.1, hb.2]
      have hrest := ih (h.leave hosts b.campaign)
      rw [hcons, List.flatMap_cons, List.foldl_cons, hleave, ← List.append_assoc]
      exact hrest
    · have hcons : HostCampaign.ofHosts localIp remoteIp (b :: bs) =
          HostCampaign.ofHosts localIp remoteIp bs := by
        rw [HostCampaign.ofHosts, List.filter_cons_of_neg hb]
        rfl
      have hne : profFile (latin localIp.text) (latin remoteIp.text) ≠
          profFile (latin b.localIp.text) (latin b.remoteIp.text) := by
        intro hname
        obtain ⟨hl, hr⟩ := profFile_inj hdot.not_mem b.dotted.not_mem hname
        refine hb ?_
        rw [HostCampaign.isOf, decide_eq_true_eq]
        exact ⟨Packed.HostAddr.ext (latin_inj hl).symm, Packed.HostAddr.ext (latin_inj hr).symm⟩
      rw [hcons, List.foldl_cons]
      exact ih (h.leave_of_ne hne b.campaign)

theorem tells_flatMap (ss : List Campaign) : List.Forall₂ MemRecord.Tells
    ((ss.flatMap (Campaign.entries localIp remoteIp)).filterMap Entry.record)
    (ss.flatMap fun s => s.search.results) := by
  induction ss with
  | nil => exact .nil
  | cons s ss ih =>
    rw [List.flatMap_cons, List.filterMap_append, List.flatMap_cons]
    exact List.rel_append s.tells_records ih

/-- A file of readable entries is searched to its end. -/
theorem Stored.recall_of_folder {es : List Entry} {d : Profiles} (h : Stored localIp remoteIp es d)
    (hes : ∀ e ∈ es, e.Readable) (hfolder : d.folder = true) (m : MemRecord) :
    recalled localIp remoteIp d m =
      ((searchLines [] (es.foldl Entry.keep { m with averagePerf := .num (-1) })).1,
        (searchLines [] (es.foldl Entry.keep { m with averagePerf := .num (-1) })).2, d) := by
  have hopen : (none : Option (List Char)).or
      (d.fopen (profFile (latin localIp.text) (latin remoteIp.text))) = some (textOf es) := by
    rw [Profiles.fopen, if_pos hfolder, h.file]
    rfl
  rw [recalled, fM2mDbSearch, if_neg (by simp [hfolder]), hopen]
  dsimp only
  rw [searchLines_textOf hes (.inl rfl) rfl]

/-- A record is recalled exactly if there is one, and then the first best one. -/
theorem Stored.recall_eq {es : List Entry} {d : Profiles} (h : Stored localIp remoteIp es d)
    (hes : ∀ e ∈ es, e.Readable) (m : MemRecord) :
    (es.filterMap Entry.record = [] → (recalled localIp remoteIp d m).1 = -1) ∧
      (es.filterMap Entry.record ≠ [] → ∃ r,
        Running.IsFirstMax MemRecord.perf (es.filterMap Entry.record) r ∧
          recalled localIp remoteIp d m = (0, r, d)) := by
  constructor
  · intro hnil
    by_cases hfolder : d.folder = true
    · rw [h.recall_of_folder hes hfolder, foldl_keep_record, hnil]
      rfl
    · rw [recalled, fM2mDbSearch, if_pos (by simpa using hfolder)]
  · intro hne
    obtain ⟨r, hr⟩ := List.exists_mem_of_ne_nil _ hne
    have hprintable : ∀ r ∈ es.filterMap Entry.record, r.Printable := fun r hr => by
      obtain ⟨e, he, her⟩ := List.mem_filterMap.mp hr
      exact (hes e he).record her
    have hstart : MemRecord.perf { m with averagePerf := .num (-1) } < r.perf :=
      calc _ < (0 : ℚ) := by change (-1 : ℚ) < 0; norm_num
        _ ≤ r.perf := (hprintable r hr).perf_eq.2
    have hmax := Running.foldl_keep_isFirstMax hr hstart
    rw [← foldl_keep_record] at hmax
    refine ⟨_, hmax, ?_⟩
    obtain ⟨pre, post, hxs, -⟩ := hmax
    obtain ⟨hperf, hnonneg⟩ := (hprintable _
      (by rw [hxs]; exact List.mem_append_right _ List.mem_cons_self)).perf_eq
    have hfound : ¬ (Dbl.lt (.num (MemRecord.perf (es.foldl Entry.keep
        { m with averagePerf := .num (-1) }))) (.num 0) = true) := by
      simpa [Dbl.lt] using hnonneg
    rw [h.recall_of_folder hes (h.folder hne), searchLines, hperf, if_neg hfound]

/-- A result that is printed as the largest is no more than a millionth below any other. -/
theorem IsFirstMax.perfMbps_le {rs : List (Result ℚ)} {x : Result ℚ}
    (hx : Running.IsFirstMax (fun x => millionths x.perfMbps) rs x)
    (h0 : ∀ y ∈ rs, 0 ≤ y.perfMbps) : ∀ y ∈ rs, y.perfMbps ≤ x.perfMbps + 1 / 10 ^ 6 := by
  intro y hy
  have hle : millionths y.perfMbps ≤ millionths x.perfMbps := hx.le_of_mem hy
  have hy' := abs_le.mp (abs_millionths_sub_le (h0 y hy))
  have hx' := abs_le.mp (abs_millionths_sub_le (h0 x hx.mem))
  linarith [hy'.1, hx'.2]

/-- What is recalled from a file whose records tell the results `rs`. -/
theorem Stored.recalls {es : List Entry} {d : Profiles} (h : Stored localIp remoteIp es d)
    (hes : ∀ e ∈ es, e.Readable) {rs : List (Result ℚ)}
    (htells : List.Forall₂ MemRecord.Tells (es.filterMap Entry.record) rs)
    (hnonneg : ∀ x ∈ rs, 0 ≤ x.perfMbps) (recordMax : MemRecord) :
    Recalls rs d (recalled localIp remoteIp d recordMax) := by
  obtain ⟨hnone, hsome⟩ := h.recall_eq hes recordMax
  unfold Recalls
  split
  · rename_i hnil
    rw [hnil] at htells
    exact hnone (List.forall₂_nil_right_iff.mp htells)
  · rename_i hne
    have hne' : es.filterMap Entry.record ≠ [] :=
      fun hnil => hne (List.forall₂_nil_left_iff.mp (hnil ▸ htells))
    obtain ⟨r, hmax, hrecall⟩ := hsome hne'
    have hperf : ∀ (r : MemRecord) (x : Result ℚ), r.Tells x → r.perf = millionths x.perfMbps :=
      fun r x hx => by rw [MemRecord.perf, hx.averagePerf]
    obtain ⟨x, hx, htell⟩ := hmax.of_forall₂ hperf htells
    exact ⟨x, r, hx, IsFirstMax.perfMbps_le hx hnonneg, htell, hrecall⟩

/-- **What is recalled of many campaigns**, among those of other hosts. -/
theorem campaigns_recall (hosts : Hosts localIp remoteIp) (hdot : localIp.Dotted) {d : Profiles}
    (hd : d.makeFolder.folder = true)
    (hfile : d.file (profFile (latin localIp.text) (latin remoteIp.text)) = some [])
    (bs : List HostCampaign) (recordMax : MemRecord) :
    Recalls ((HostCampaign.ofHosts localIp remoteIp bs).flatMap fun s => s.search.results)
      (bs.foldl HostCampaign.leave d)
      (recalled localIp remoteIp (bs.foldl HostCampaign.leave d) recordMax) := by
  have hempty : Stored localIp remoteIp [] d := ⟨hd, hfile, fun h => absurd rfl h⟩
  have hstored := hempty.leaves hosts hdot bs
  rw [List.nil_append] at hstored
  generalize HostCampaign.ofHosts localIp remoteIp bs = ss at hstored ⊢
  refine hstored.recalls (fun e he => ?_) (tells_flatMap ss) (fun x hx => ?_) recordMax
  · obtain ⟨s, -, he⟩ := List.mem_flatMap.mp he
    exact s.readable_entries hosts e he
  · obtain ⟨s, -, hx⟩ := List.mem_flatMap.mp hx
    exact s.nonneg x hx

instance (t : Packed.Finished) (l : HistoryLine ℚ) : Decidable (Represents t l) :=
  decidable_of_iff (t.numStreams.toInt = l.numStreams ∧ t.mss.toInt = l.mssSize ∧
      t.bufsize.toInt = l.bufferSize ∧ t.blksize.toInt = l.blockSize ∧
      t.duration.toInt = l.duration ∧ t.totalSent.toInt = l.transSize ∧
      Dbl.ofBits t.perfMbps = .num l.averagePerf)
    ⟨fun h => ⟨h.1, h.2.1, h.2.2.1, h.2.2.2.1, h.2.2.2.2.1, h.2.2.2.2.2.1, h.2.2.2.2.2.2⟩,
      fun h => ⟨h.1, h.2, h.3, h.4, h.5, h.6, h.7⟩⟩

instance (tm : Packed.Tm) : Decidable tm.Current := Nat.decLt _ _

/-- The numbers of a line as the machine holds them, with its throughput as the word `w`. -/
def HistoryLine.finished {K : Type*} (l : HistoryLine K) (w : BitVec 64) : Packed.Finished :=
  ⟨.ofInt 32 l.numStreams, .ofInt 32 l.mssSize, .ofInt 32 l.bufferSize, .ofInt 32 l.blockSize,
    .ofInt 32 l.duration, .ofInt 64 l.transSize, w⟩

/-- Three TCP tests of 900, 800 and 700 Mbps. -/
def fallingCampaign : Campaign where
  recordMax := sampleRecord
  search := .tcp plainIperf (plainSetup (10 ^ 10) 3 fun n => 900 - 100 * n) plainTcpArgs 4
  records := List.zipWith (fun l w => (Packed.sampleTm, l.finished w))
    (fTcpClientRun plainIperf (plainSetup (10 ^ 10) 3 fun n => 900 - 100 * n) plainTcpArgs 4).history
    [0x408C200000000000, 0x4089000000000000, 0x4085E00000000000]
  represents := by decide +kernel
  current := by decide +kernel
  nonneg := by decide +kernel

theorem shorterIp_dotted : Packed.shorterIp.Dotted := by
  unfold Packed.HostAddr.Dotted
  decide +kernel

/-- Such a campaign of each of two pairs of hosts. -/
def twoCampaigns : List HostCampaign :=
  [⟨Packed.shorterIp, Packed.longerIp, shorterIp_dotted, fallingCampaign⟩,
    ⟨Packed.shorterIp, Packed.shorterIp, shorterIp_dotted, fallingCampaign⟩]

theorem campaigns_recall_falling :
    Recalls ((HostCampaign.ofHosts Packed.shorterIp Packed.longerIp twoCampaigns).flatMap
        fun s => s.search.results)
      (twoCampaigns.foldl HostCampaign.leave emptyProfiles)
      (recalled Packed.shorterIp Packed.longerIp
        (twoCampaigns.foldl HostCampaign.leave emptyProfiles) sampleRecord) :=
  campaigns_recall ⟨⟨by decide, by decide⟩, by decide, by decide⟩ shorterIp_dotted rfl rfl _ _

end Fastprof
end Probdata
