/-
# The search in the historical records

`f_m2m_db_search` (`fastprof.cpp`) reads the file of a pair of hosts line by line
and keeps the record with the best performance. A missing folder or file ends it
before `record_max` is touched; a line that is no record ends it after that, with
the best record so far left in `record_max`.

Key theorems: `fM2mDbSearch_written`, what is found in a file that the record
writers wrote; `fM2mDbSearch_unsuccessful_iff`, when a search that fails leaves a
negative performance.
-/
import Probdata.Fastprof.Record
import Probdata.Lib.Running

namespace Probdata
namespace Fastprof

open Text

/-- The lines that are passed over: `readline` is cleared before each call, so its
first byte is NUL where nothing was read. -/
def passedOver (readline : List Char) : Bool :=
  let c := readline.headD '\x00'
  c = '\n' || c = '\t' || c = ' ' || c = '\x00' || c = '#'

/-- The loop, and the test behind it. -/
def searchLines : List (List Char) → MemRecord → ℤ × MemRecord
  | [], recordMax => if recordMax.averagePerf.lt (.num 0) then (-1, recordMax) else (0, recordMax)
  | readline :: ls, recordMax =>
    if passedOver readline then searchLines ls recordMax
    else
      match MemRecord.ofLine readline with
      | none => (-1, recordMax)
      | some recordTmp =>
        searchLines ls (if recordMax.averagePerf.lt recordTmp.averagePerf then recordTmp else recordMax)

/-- `f_m2m_db_search`: what it returns, `record_max` after it, and the folder. `f` is
what is left of an open file. -/
def fM2mDbSearch (d : Profiles) (f : Option (List Char)) (localIp remoteIp : List Char)
    (recordMax : MemRecord) : ℤ × MemRecord × Profiles :=
  if d.folder = false then (-1, recordMax, d.makeFolder)
  else
    match f.or (d.fopen (profFile localIp remoteIp)) with
    | none => (-1, recordMax, d)
    | some text =>
      let (ret, recordMax) := searchLines (reads 511 text) { recordMax with averagePerf := .num (-1) }
      (ret, recordMax, d)

/-! ### What is written in a file -/

/-- A record that one of the two writers adds, or another line. -/
inductive Entry
  | tcp (r : MemRecord)
  | udt (r : MemRecord)
  | line (l : List Char)

def Entry.record : Entry → Option MemRecord
  | .tcp r => some r
  | .udt r => some r
  | .line _ => none

def Entry.write (localIp remoteIp : List Char) (d : Profiles) : Entry → Profiles
  | .tcp r => (fTcpM2mRecordAdd d localIp remoteIp r).2
  | .udt r => (fUdtM2mRecordAdd d localIp remoteIp r).2
  | .line l => d.append (profFile localIp remoteIp) (l ++ ['\n'])

/-- The line without its newline. -/
def Entry.text : Entry → List Char
  | .tcp r => r.line
  | .udt r => r.line
  | .line l => l

/-- The last newline of a file is taken away. -/
def Profiles.dropNewline (d : Profiles) (filename : List Char) : Profiles :=
  { d with file := fun name =>
      if name = filename then (d.file name).map List.dropLast else d.file name }

/-- A blank line, or one that starts with a number sign, a tab or a space. -/
def PassedOver (l : List Char) : Prop :=
  '\n' ∉ l ∧ ∀ c ∈ l.head?, c = '#' ∨ c = '\t' ∨ c = ' '

/-- A line all of whose pieces are passed over: it comes in pieces of 511 characters. -/
inductive Filler : List Char → Prop
  | short {l} (h : PassedOver l) (hlen : l.length ≤ 511) : Filler l
  | long {l t} (h : PassedOver l) (hlen : l.length = 511) (ht : Filler t) : Filler (l ++ t)

/-- A record that can be read back, or a line that is passed over. -/
def Entry.Readable : Entry → Prop
  | .tcp r => r.Printable
  | .udt r => r.Printable
  | .line l => Filler l

/-! ### One line -/

theorem PassedOver.passedOver {l t : List Char} (h : PassedOver l) (ht : l ≠ [] ∨ t = [] ∨ t = ['\n']) :
    passedOver (l ++ t) = true := by
  rcases l with _ | ⟨c, l⟩
  · rcases ht with hne | rfl | rfl
    · exact absurd rfl hne
    · rfl
    · rfl
  · rcases h.2 c rfl with rfl | rfl | rfl <;> rfl

theorem searchLines_passedOver {l : List Char} (h : passedOver l = true) (ls : List (List Char))
    (m : MemRecord) : searchLines (l :: ls) m = searchLines ls m := by
  rw [searchLines, if_pos h]

/-- The end of a file that ends in a newline. -/
theorem searchLines_reads_nil (m : MemRecord) : searchLines (reads 511 []) m = searchLines [] m :=
  rfl

theorem searchLines_filler {l : List Char} (h : Filler l) (t : List Char) (m : MemRecord) :
    searchLines (reads 511 (l ++ '\n' :: t)) m = searchLines (reads 511 t) m := by
  induction h with
  | @short l h hlen =>
    rcases Nat.lt_or_ge l.length 511 with hlt | hge
    · rw [reads_line (by decide) t h.1 hlt, searchLines_passedOver (h.passedOver (.inr (.inr rfl)))]
    · have hne : l ≠ [] := fun hl => by simp [hl] at hge
      have hblank : reads 511 ('\n' :: t) = ['\n'] :: reads 511 t :=
        reads_line (l := []) (by decide) t (by decide) (by decide)
      have hpass : passedOver l = true := by simpa using h.passedOver (t := []) (.inl hne)
      rw [reads_piece (by decide) _ h.1 (by omega), searchLines_passedOver hpass, hblank,
        searchLines_passedOver rfl]
  | @long l u h hlen hu ih =>
    have hne : l ≠ [] := fun hl => by simp [hl] at hlen
    have hpass : passedOver l = true := by simpa using h.passedOver (t := []) (.inl hne)
    rw [List.append_assoc, reads_piece (by decide) _ h.1 hlen, searchLines_passedOver hpass, ih]

/-- A last line without a newline. -/
theorem searchLines_filler_last {l : List Char} (h : Filler l) (m : MemRecord) :
    searchLines (reads 511 l) m = searchLines [] m := by
  induction h with
  | @short l h hlen =>
    have hpass : passedOver l = true := by simpa using h.passedOver (t := []) (.inr (.inl rfl))
    rcases Nat.lt_or_ge l.length 511 with hlt | hge
    · rw [reads_last (by decide) h.1 hlt, searchLines_passedOver hpass]
    · have hpiece : reads 511 l = l :: reads 511 [] := by
        simpa using reads_piece (n := 511) (by decide) [] h.1 (by omega)
      rw [hpiece, searchLines_passedOver hpass, searchLines_reads_nil]
  | @long l u h hlen hu ih =>
    have hpass : passedOver l = true := by simpa using h.passedOver (t := []) (.inr (.inl rfl))
    rw [reads_piece (by decide) _ h.1 hlen, searchLines_passedOver hpass, ih]

/-- `average_perf` as a number. -/
def MemRecord.perf (r : MemRecord) : ℚ :=
  match r.averagePerf with
  | .num q => q
  | _ => 0

theorem MemRecord.Printable.perf_eq {r : MemRecord} (h : r.Printable) :
    r.averagePerf = .num r.perf ∧ 0 ≤ r.perf := by
  obtain ⟨n, hn⟩ := h.averagePerf
  have hp : r.perf = n / 10 ^ 6 := by rw [MemRecord.perf, hn]
  exact ⟨hp ▸ hn, hp ▸ by positivity⟩

theorem MemRecord.Printable.passedOver_line {r : MemRecord} (h : r.Printable) (t : List Char) :
    passedOver (r.line ++ t) = false := by
  have hline : r.line = r.srcIp ++ ' ' :: r.line.drop (r.srcIp.length + 1) := by
    change r.srcIp ++ ' ' :: _ = r.srcIp ++ ' ' :: (r.srcIp ++ ' ' :: _).drop _
    simp [List.drop_append]
  rw [hline]
  rcases hsrc : r.srcIp with _ | ⟨c, cs⟩
  · exact absurd hsrc h.srcIp.ne_nil
  · have hspace : isSpace c = false := h.srcIp.no_space c (by simp [hsrc])
    have hnul : c ≠ '\x00' := fun hc => h.srcIp.no_nul (by simp [hsrc, hc])
    have hcom : c ≠ '#' := fun hc => h.not_comment (by simp [hsrc, hc])
    have hws : c ≠ '\n' ∧ c ≠ '\t' ∧ c ≠ ' ' := by
      refine ⟨?_, ?_, ?_⟩ <;> rintro rfl <;> exact absurd hspace (by decide)
    simp [passedOver, hnul, hcom, hws]

/-- A record's line, with or without its newline: the better record is kept. -/
theorem searchLines_record {r : MemRecord} (h : r.Printable) {t : List Char}
    (ht : t = [] ∨ t = ['\n']) (ls : List (List Char)) {m : MemRecord}
    (hm : m.averagePerf = .num m.perf) :
    searchLines ((r.line ++ t) :: ls) m = searchLines ls (Running.keep MemRecord.perf m r) := by
  have hlt : m.averagePerf.lt r.averagePerf = decide (m.perf < r.perf) := by
    rw [hm, h.perf_eq.1]; rfl
  rw [searchLines, if_neg (by simp [h.passedOver_line t]), h.ofLine_line ht]
  simp [hlt, Running.keep]

/-! ### The whole file -/

/-- The record that is kept after an entry. -/
def Entry.keep (m : MemRecord) (e : Entry) : MemRecord :=
  e.record.elim m (Running.keep MemRecord.perf m)

theorem foldl_keep_record (es : List Entry) (m : MemRecord) :
    es.foldl Entry.keep m = (es.filterMap Entry.record).foldl (Running.keep MemRecord.perf) m := by
  induction es generalizing m with
  | nil => rfl
  | cons e es ih => cases e <;> exact ih _

theorem Entry.keep_num {e : Entry} (he : e.Readable) {m : MemRecord}
    (hm : m.averagePerf = .num m.perf) : (e.keep m).averagePerf = .num (e.keep m).perf := by
  have hkeep : ∀ r : MemRecord, r.Printable → (Running.keep MemRecord.perf m r).averagePerf =
      .num (Running.keep MemRecord.perf m r).perf := by
    intro r hr
    unfold Running.keep
    split
    · exact hr.perf_eq.1
    · exact hm
  cases e with
  | tcp r => exact hkeep r he
  | udt r => exact hkeep r he
  | line l => exact hm

/-- An entry in the middle of the file. -/
theorem searchLines_entry {e : Entry} (he : e.Readable) (t : List Char) {m : MemRecord}
    (hm : m.averagePerf = .num m.perf) :
    searchLines (reads 511 (e.text ++ '\n' :: t)) m = searchLines (reads 511 t) (e.keep m) := by
  have hrecord : ∀ r : MemRecord, r.Printable → searchLines (reads 511 (r.line ++ '\n' :: t)) m =
      searchLines (reads 511 t) (Running.keep MemRecord.perf m r) := fun r hr => by
    rw [reads_line (by decide) t hr.line_plain.1 hr.short, searchLines_record hr (.inr rfl) _ hm]
  cases e with
  | tcp r => exact hrecord r he
  | udt r => exact hrecord r he
  | line l => exact searchLines_filler he t m

/-- An entry at the end of a file without a last newline. -/
theorem searchLines_entry_last {e : Entry} (he : e.Readable) {m : MemRecord}
    (hm : m.averagePerf = .num m.perf) :
    searchLines (reads 511 e.text) m = searchLines [] (e.keep m) := by
  have hrecord : ∀ r : MemRecord, r.Printable → searchLines (reads 511 r.line) m =
      searchLines [] (Running.keep MemRecord.perf m r) := fun r hr => by
    have hone := searchLines_record hr (.inl rfl) [] hm
    rw [List.append_nil] at hone
    rw [reads_last (by decide) hr.line_plain.1 hr.short, hone]
  cases e with
  | tcp r => exact hrecord r he
  | udt r => exact hrecord r he
  | line l => exact searchLines_filler_last he m

/-- The text of a file of entries. -/
def textOf (es : List Entry) : List Char := es.flatMap fun e => e.text ++ ['\n']

theorem searchLines_entries {es : List Entry} (hes : ∀ e ∈ es, e.Readable) (t : List Char)
    {m : MemRecord} (hm : m.averagePerf = .num m.perf) :
    searchLines (reads 511 (textOf es ++ t)) m = searchLines (reads 511 t) (es.foldl Entry.keep m) ∧
      (es.foldl Entry.keep m).averagePerf = .num (es.foldl Entry.keep m).perf := by
  induction es generalizing m with
  | nil => exact ⟨rfl, hm⟩
  | cons e es ih =>
    have he : e.Readable := hes e List.mem_cons_self
    have htext : textOf (e :: es) ++ t = e.text ++ '\n' :: (textOf es ++ t) := by simp [textOf]
    rw [htext, searchLines_entry he _ hm]
    exact ih (fun x hx => hes x (List.mem_cons_of_mem _ hx)) (Entry.keep_num he hm)

/-- An entry leaves its text in the file, and a record makes the folder. -/
theorem Entry.write_file {localIp remoteIp : List Char} (e : Entry) {d : Profiles} {t : List Char}
    (hd : d.makeFolder.folder = true) (ht : d.file (profFile localIp remoteIp) = some t) :
    (e.write localIp remoteIp d).file (profFile localIp remoteIp) = some (t ++ (e.text ++ ['\n'])) ∧
      (e.write localIp remoteIp d).makeFolder.folder = true ∧
      (d.folder = true ∨ e.record ≠ none → (e.write localIp remoteIp d).folder = true) := by
  have happend : ∀ (d' : Profiles) u, d'.file (profFile localIp remoteIp) = some t →
      (d'.append (profFile localIp remoteIp) u).file (profFile localIp remoteIp) = some (t ++ u) :=
    fun d' u h => by rw [d'.append_file, h]; rfl
  have hrecord : ∀ r : MemRecord, ((addRecord d localIp remoteIp r).2.file (profFile localIp remoteIp) =
      some (t ++ (r.line ++ ['\n'])) ∧ (addRecord d localIp remoteIp r).2.folder = true) := fun r => by
    rw [addRecord_of_opens hd ht]
    exact ⟨happend _ _ ht, hd⟩
  have hmake : ∀ d' : Profiles, d'.folder = true → d'.makeFolder.folder = true := fun d' h => by
    simp [Profiles.makeFolder, h]
  cases e with
  | tcp r => exact ⟨(hrecord r).1, hmake _ (hrecord r).2, fun _ => (hrecord r).2⟩
  | udt r => exact ⟨(hrecord r).1, hmake _ (hrecord r).2, fun _ => (hrecord r).2⟩
  | line l => exact ⟨happend _ _ ht, hd, fun h => h.resolve_right (by simp [Entry.record])⟩

theorem foldl_write_file {localIp remoteIp : List Char} (es : List Entry) {d : Profiles}
    {t : List Char} (hd : d.makeFolder.folder = true)
    (ht : d.file (profFile localIp remoteIp) = some t) :
    (es.foldl (Entry.write localIp remoteIp) d).file (profFile localIp remoteIp) =
        some (t ++ textOf es) ∧
      (d.folder = true ∨ es.filterMap Entry.record ≠ [] →
        (es.foldl (Entry.write localIp remoteIp) d).folder = true) := by
  induction es generalizing d t with
  | nil => exact ⟨by simpa [textOf] using ht, fun h => h.resolve_right fun hne => hne rfl⟩
  | cons e es ih =>
    obtain ⟨h1, h2, h3⟩ := e.write_file hd ht
    obtain ⟨h4, h5⟩ := ih h2 h1
    refine ⟨?_, fun h => h5 ?_⟩
    · rw [List.foldl_cons, h4]
      simp [textOf]
    · rcases h with h | h
      · exact .inl (h3 (.inl h))
      · cases hr : e.record with
        | none => exact .inr (by simpa [hr] using h)
        | some r => exact .inl (h3 (.inr (by simp [hr])))

/-- The file as it is left, with or without its last newline. -/
def written (localIp remoteIp : List Char) (d : Profiles) (es : List Entry) (newline : Bool) :
    Profiles :=
  let d := es.foldl (Entry.write localIp remoteIp) d
  if newline then d else d.dropNewline (profFile localIp remoteIp)

/-- The text of a file of entries, with or without its last newline, is searched to its end. -/
theorem searchLines_textOf {es : List Entry} (hes : ∀ e ∈ es, e.Readable) {t : List Char}
    (ht : t = textOf es ∨ t = (textOf es).dropLast) {m : MemRecord}
    (hm : m.averagePerf = .num m.perf) :
    searchLines (reads 511 t) m = searchLines [] (es.foldl Entry.keep m) := by
  have hfull : searchLines (reads 511 (textOf es)) m = searchLines [] (es.foldl Entry.keep m) := by
    have hrun := (searchLines_entries hes [] hm).1
    rwa [List.append_nil] at hrun
  rcases ht with rfl | rfl
  · exact hfull
  · rcases List.eq_nil_or_concat es with rfl | ⟨es, e, rfl⟩
    · exact hfull
    · have hlast : (textOf (es.concat e)).dropLast = textOf es ++ e.text := by
        simp [textOf, ← List.append_assoc]
      have hes' : ∀ x ∈ es, x.Readable := fun x hx => hes x (by simp [hx])
      obtain ⟨hrun, hnum⟩ := searchLines_entries hes' e.text hm
      rw [hlast, hrun, searchLines_entry_last (hes e (by simp)) hnum]
      simp

theorem Entry.Readable.record {e : Entry} (he : e.Readable) {r : MemRecord}
    (hr : e.record = some r) : r.Printable := by
  cases e with
  | tcp r' => cases hr; exact he
  | udt r' => cases hr; exact he
  | line l => exact nomatch hr

/-- **The search finds the first record of the best performance.** -/
theorem fM2mDbSearch_written {d : Profiles} {localIp remoteIp : List Char}
    (hd : d.makeFolder.folder = true) (hfile : d.file (profFile localIp remoteIp) = some [])
    {es : List Entry} (hes : ∀ e ∈ es, e.Readable) (hne : es.filterMap Entry.record ≠ [])
    (newline : Bool) (recordMax : MemRecord) :
    ∃ r, Running.IsFirstMax MemRecord.perf (es.filterMap Entry.record) r ∧
      fM2mDbSearch (written localIp remoteIp d es newline) none localIp remoteIp recordMax =
        (0, r, written localIp remoteIp d es newline) := by
  obtain ⟨htext, hfolder⟩ := foldl_write_file es hd hfile
  have hprintable : ∀ r ∈ es.filterMap Entry.record, r.Printable := fun r hr => by
    obtain ⟨e, he, her⟩ := List.mem_filterMap.mp hr
    exact (hes e he).record her
  have hmax : Running.IsFirstMax MemRecord.perf (es.filterMap Entry.record)
      (es.foldl Entry.keep { recordMax with averagePerf := .num (-1) }) := by
    obtain ⟨r, hr⟩ := List.exists_mem_of_ne_nil _ hne
    rw [foldl_keep_record]
    refine Running.foldl_keep_isFirstMax hr (lt_of_lt_of_le ?_ (hprintable r hr).perf_eq.2)
    change (-1 : ℚ) < 0
    norm_num
  refine ⟨_, hmax, ?_⟩
  have hfound : searchLines [] (es.foldl Entry.keep { recordMax with averagePerf := .num (-1) }) =
      (0, es.foldl Entry.keep { recordMax with averagePerf := .num (-1) }) := by
    obtain ⟨pre, post, hxs, -⟩ := hmax
    obtain ⟨hperf, hnonneg⟩ := (hprintable _
      (by rw [hxs]; exact List.mem_append_right _ List.mem_cons_self)).perf_eq
    rw [searchLines, hperf, if_neg]
    simpa [Dbl.lt] using hnonneg
  obtain ⟨t, ht, hfile'⟩ : ∃ t, (t = textOf es ∨ t = (textOf es).dropLast) ∧
      (written localIp remoteIp d es newline).file (profFile localIp remoteIp) = some t := by
    cases newline with
    | true => exact ⟨_, .inl rfl, htext⟩
    | false =>
      refine ⟨_, .inr rfl, ?_⟩
      change (if profFile localIp remoteIp = profFile localIp remoteIp then _ else _) = _
      rw [if_pos rfl, htext]
      rfl
  have hfolder' : (written localIp remoteIp d es newline).folder = true := by
    cases newline <;> exact hfolder (.inr hne)
  have hopen : (none : Option (List Char)).or
      ((written localIp remoteIp d es newline).fopen (profFile localIp remoteIp)) = some t := by
    rw [Profiles.fopen, if_pos hfolder', hfile']
    rfl
  rw [fM2mDbSearch, if_neg (by simp [hfolder']), hopen]
  dsimp only
  rw [searchLines_textOf hes ht rfl, hfound]

/-- A test of ten seconds. -/
def sampleRecord : MemRecord where
  srcIp := "10.0.0.1".toList
  dstIp := "10.0.0.2".toList
  currTime := "01:02:2020:03:04:05".toList
  protocolName := "TCP".toList
  toolkitName := "iperf3".toList
  numStreams := 4
  mssSize := 1460
  bufferSize := 65536
  bufferSizeUnit := "B".toList
  blockSize := 131072
  blockSizeUnit := "B".toList
  duration := 10
  durationUnit := "sec".toList
  transSize := 11875000000
  transSizeUnit := "B".toList
  averagePerf := .num (9500 + 1 / 2)
  averagePerfUnit := "Mbps".toList

theorem sampleRecord_printable : sampleRecord.Printable where
  srcIp := by decide
  not_comment := by decide
  dstIp := by decide
  currTime := by decide
  protocolName := by decide
  toolkitName := by decide
  numStreams := by decide
  mssSize := by decide
  bufferSize := by decide
  bufferSizeUnit := by decide
  blockSize := by decide
  blockSizeUnit := by decide
  duration := by decide
  durationUnit := by decide
  transSize := by decide
  transSizeUnit := by decide
  averagePerf := ⟨9500500000, congrArg Dbl.num (by norm_num)⟩
  averagePerfUnit := by decide
  short := by decide +kernel

/-- A file whose folder is there. -/
def emptyProfiles : Profiles where
  folder := true
  mkdir := true
  file := fun _ => some []

/-- A record, a comment and a blank line. -/
def commentedFile : List Entry := [.udt sampleRecord, .line "# after the upgrade".toList, .line []]

theorem fM2mDbSearch_written_commented :
    ∃ r, Running.IsFirstMax MemRecord.perf (commentedFile.filterMap Entry.record) r ∧
      fM2mDbSearch (written [] [] emptyProfiles commentedFile false) none [] [] sampleRecord =
        (0, r, written [] [] emptyProfiles commentedFile false) :=
  fM2mDbSearch_written (by decide) rfl
    (by
      intro e he
      simp only [commentedFile, List.mem_cons, List.not_mem_nil, or_false] at he
      rcases he with rfl | rfl | rfl
      · exact sampleRecord_printable
      · exact .short ⟨by decide, fun c hc => .inl (by simpa using hc.symm)⟩ (by decide)
      · exact .short ⟨by decide, fun c hc => nomatch hc⟩ (by decide))
    (by decide) false sampleRecord

/-- A comment that `fgets` returns in two pieces. -/
def longComment : List Char := '#' :: List.replicate 511 'x'

/-- The rest of a long comment is read as a record. -/
theorem fM2mDbSearch_long_comment : sampleRecord.Printable ∧ PassedOver longComment ∧
    (fM2mDbSearch (written [] [] emptyProfiles [.tcp sampleRecord, .line longComment] true) none
      [] [] sampleRecord).1 = -1 :=
  ⟨sampleRecord_printable, ⟨by decide +kernel, fun c hc => .inl (Option.some.inj hc).symm⟩, by decide +kernel⟩

/-! ### A search that fails -/

/-- The records in front of the first line that is no record, if there is one. -/
def beforeMalformed : List (List Char) → Option (List MemRecord)
  | [] => none
  | readline :: ls =>
    if passedOver readline then beforeMalformed ls
    else
      match MemRecord.ofLine readline with
      | none => some []
      | some r => (beforeMalformed ls).map (r :: ·)

/-- The text that is searched, if the search comes to it. -/
def searched (d : Profiles) (f : Option (List Char)) (localIp remoteIp : List Char) :
    Option (List Char) :=
  if d.folder then f.or (d.fopen (profFile localIp remoteIp)) else none

theorem fM2mDbSearch_none {d : Profiles} {f : Option (List Char)} {localIp remoteIp : List Char}
    (h : searched d f localIp remoteIp = none) (recordMax : MemRecord) :
    ∃ d', fM2mDbSearch d f localIp remoteIp recordMax = (-1, recordMax, d') := by
  unfold searched at h
  unfold fM2mDbSearch
  by_cases hd : d.folder = true
  · rw [if_pos hd] at h
    rw [if_neg (by simp [hd]), h]
    exact ⟨_, rfl⟩
  · rw [if_pos (by simpa using hd)]
    exact ⟨_, rfl⟩

theorem fM2mDbSearch_some {d : Profiles} {f : Option (List Char)} {localIp remoteIp text : List Char}
    (h : searched d f localIp remoteIp = some text) (recordMax : MemRecord) :
    fM2mDbSearch d f localIp remoteIp recordMax =
      ((searchLines (reads 511 text) { recordMax with averagePerf := .num (-1) }).1,
        (searchLines (reads 511 text) { recordMax with averagePerf := .num (-1) }).2, d) := by
  unfold searched at h
  split at h
  · rename_i hd
    rw [fM2mDbSearch, if_neg (by simp [hd]), h]
  · exact nomatch h

/-- The record of the better performance. -/
def better (m r : MemRecord) : MemRecord := if m.averagePerf.lt r.averagePerf then r else m

theorem searchLines_of_malformed {ls : List (List Char)} {rs : List MemRecord}
    (h : beforeMalformed ls = some rs) (m : MemRecord) :
    searchLines ls m = (-1, rs.foldl better m) := by
  induction ls generalizing rs m with
  | nil => exact nomatch h
  | cons l ls ih =>
    rw [beforeMalformed] at h
    rw [searchLines]
    by_cases hl : passedOver l = true
    · rw [if_pos hl] at h ⊢
      exact ih h m
    · rw [if_neg hl] at h ⊢
      cases hr : MemRecord.ofLine l with
      | none =>
        rw [hr] at h
        cases h
        rfl
      | some r =>
        rw [hr] at h
        obtain ⟨rs, hrs, rfl⟩ := Option.map_eq_some_iff.mp h
        exact ih hrs (better m r)

theorem searchLines_of_wellFormed {ls : List (List Char)} (h : beforeMalformed ls = none)
    (m : MemRecord) : (searchLines ls m).1 = -1 → (searchLines ls m).2.averagePerf.lt (.num 0) = true := by
  induction ls generalizing m with
  | nil =>
    rw [searchLines]
    by_cases hm : m.averagePerf.lt (.num 0) = true
    · rw [if_pos hm]
      exact fun _ => hm
    · rw [if_neg hm]
      exact fun hret => absurd (show (0 : ℤ) = -1 from hret) (by decide)
  | cons l ls ih =>
    rw [beforeMalformed] at h
    rw [searchLines]
    by_cases hl : passedOver l = true
    · rw [if_pos hl] at h ⊢
      exact ih h m
    · rw [if_neg hl] at h ⊢
      cases hr : MemRecord.ofLine l with
      | none => rw [hr] at h; exact nomatch h
      | some r =>
        rw [hr] at h
        exact ih (Option.map_eq_none_iff.mp h) _

/-- The records of a file up to the first line that is no record. -/
def records : List (List Char) → List MemRecord
  | [] => []
  | readline :: ls =>
    if passedOver readline then records ls
    else
      match MemRecord.ofLine readline with
      | none => []
      | some r => r :: records ls

/-- The best of the records is kept, and the search fails at a malformed line or if
there is none that is not negative. -/
theorem searchLines_eq (ls : List (List Char)) (m : MemRecord) :
    searchLines ls m =
      (if (beforeMalformed ls).isSome ∨ ((records ls).foldl better m).averagePerf.lt (.num 0) = true
        then -1 else 0, (records ls).foldl better m) := by
  induction ls generalizing m with
  | nil =>
    rw [searchLines, beforeMalformed, records, List.foldl_nil]
    split <;> simp_all
  | cons l ls ih =>
    rw [searchLines, beforeMalformed, records]
    by_cases hl : passedOver l = true
    · rw [if_pos hl, if_pos hl, if_pos hl]
      exact ih m
    · rw [if_neg hl, if_neg hl, if_neg hl]
      cases hr : MemRecord.ofLine l with
      | none => rfl
      | some r =>
        simp only [Option.isSome_map]
        exact ih (better m r)

/-- Nothing is better than the record that is kept, and it is one of those compared. -/
theorem foldl_better_max {m : MemRecord} (hm : m.averagePerf ≠ .nan) (rs : List MemRecord) :
    (rs.foldl better m).averagePerf ≠ .nan ∧
      ((rs.foldl better m).averagePerf = m.averagePerf ∨
        ∃ r ∈ rs, (rs.foldl better m).averagePerf = r.averagePerf) ∧
      ∀ r ∈ m :: rs, (rs.foldl better m).averagePerf.lt r.averagePerf = false := by
  induction rs using List.reverseRecOn with
  | nil => exact ⟨hm, .inl rfl, by simp [Dbl.lt_self]⟩
  | append_singleton rs r ih =>
    obtain ⟨hnan, hmem, hmax⟩ := ih
    rw [List.foldl_append, List.foldl_cons, List.foldl_nil]
    set b := rs.foldl better m
    have hall : ∀ x ∈ m :: (rs ++ [r]), x ∈ m :: rs ∨ x = r := fun x hx => by
      simpa [or_assoc] using hx
    by_cases h : b.averagePerf.lt r.averagePerf = true
    · rw [better, if_pos h]
      refine ⟨Dbl.ne_nan_of_lt h, .inr ⟨r, by simp, rfl⟩, fun x hx => ?_⟩
      rcases hall x hx with hx | rfl
      · by_contra hlt
        have hbx := Dbl.lt_trans h (by simpa using hlt)
        rw [hmax x hx] at hbx
        exact nomatch hbx
      · exact Dbl.lt_self _
    · rw [better, if_neg h]
      refine ⟨hnan, hmem.imp_right fun ⟨y, hy, hey⟩ => ⟨y, by simp [hy], hey⟩, fun x hx => ?_⟩
      rcases hall x hx with hx | rfl
      · exact hmax x hx
      · simpa using h

/-- A record that is not negative stays, or gives way to another one. -/
theorem foldl_better_nonneg {m : MemRecord} (hm : m.averagePerf.Nonneg) (rs : List MemRecord) :
    (rs.foldl better m).averagePerf.Nonneg := by
  induction rs generalizing m with
  | nil => exact hm
  | cons r rs ih =>
    refine ih ?_
    unfold better
    split
    · rename_i h; exact hm.of_lt h
    · exact hm

/-- The best of some records is negative exactly if all of them are, or are no numbers. -/
theorem foldl_better_neg_iff {m : MemRecord} (hm : m.averagePerf.lt (.num 0) = true)
    (rs : List MemRecord) : (rs.foldl better m).averagePerf.lt (.num 0) = true ↔
      ∀ r ∈ rs, ¬ r.averagePerf.Nonneg := by
  induction rs generalizing m with
  | nil => exact ⟨fun _ _ hr => absurd hr List.not_mem_nil, fun _ => hm⟩
  | cons r rs ih =>
    rw [List.foldl_cons, List.forall_mem_cons]
    by_cases hr : r.averagePerf.Nonneg
    · have hb : better m r = r := if_pos (Dbl.lt_of_nonneg hm hr)
      have hpos := (foldl_better_nonneg hr rs).1
      rw [hb, hpos]
      exact ⟨fun h => absurd h (by decide), fun h => absurd hr h.1⟩
    · have hb : (better m r).averagePerf.lt (.num 0) = true := by
        unfold better
        split
        · rename_i h; exact Dbl.neg_of_lt h hr
        · exact hm
      rw [ih hb]
      exact ⟨fun h => ⟨hr, h⟩, fun h => h.2⟩

/-- A search that fails leaves a negative performance. -/
def FailsClean (d : Profiles) (f : Option (List Char)) (localIp remoteIp : List Char)
    (recordMax : MemRecord) : Prop :=
  (fM2mDbSearch d f localIp remoteIp recordMax).1 = -1 →
    (fM2mDbSearch d f localIp remoteIp recordMax).2.1.averagePerf.lt (.num 0) = true

/-- **When a search that fails leaves a negative performance.** -/
theorem fM2mDbSearch_failsClean_iff (d : Profiles) (f : Option (List Char))
    (localIp remoteIp : List Char) (recordMax : MemRecord) :
    FailsClean d f localIp remoteIp recordMax ↔
      match searched d f localIp remoteIp with
      | none => recordMax.averagePerf.lt (.num 0) = true
      | some text => ∀ rs, beforeMalformed (reads 511 text) = some rs →
          ∀ r ∈ rs, ¬ r.averagePerf.Nonneg := by
  unfold FailsClean
  cases htext : searched d f localIp remoteIp with
  | none =>
    obtain ⟨d', hsearch⟩ := fM2mDbSearch_none htext recordMax
    rw [hsearch]
    exact ⟨fun h => h rfl, fun h _ => h⟩
  | some text =>
    rw [fM2mDbSearch_some htext]
    dsimp only
    cases hls : beforeMalformed (reads 511 text) with
    | none =>
      exact ⟨fun _ _ hrs => absurd hrs (by simp), fun _ => searchLines_of_wellFormed hls _⟩
    | some rs =>
      rw [searchLines_of_malformed hls]
      dsimp only
      rw [foldl_better_neg_iff rfl]
      constructor
      · rintro h _ ⟨⟩
        exact h rfl
      · exact fun h _ => h rs rfl

/-- A record, and a line that was cut off. -/
def cutOff : List Char := sampleRecord.line ++ "\n10.0.0.1 10.0.0.2 01:02\n".toList

/-- The search fails on the second line and leaves the first in `record_max`. -/
theorem not_failsClean_cutOff :
    (fM2mDbSearch { emptyProfiles with file := fun _ => some cutOff } none [] [] sampleRecord).1 = -1 ∧
      ¬ FailsClean { emptyProfiles with file := fun _ => some cutOff } none [] [] sampleRecord := by
  have hret : (fM2mDbSearch { emptyProfiles with file := fun _ => some cutOff } none [] []
      sampleRecord).1 = -1 := by decide +kernel
  have hperf : (fM2mDbSearch { emptyProfiles with file := fun _ => some cutOff } none [] []
      sampleRecord).2.1.averagePerf.lt (.num 0) = false := by decide +kernel
  refine ⟨hret, fun h => ?_⟩
  rw [h hret] at hperf
  exact nomatch hperf


end Fastprof
end Probdata
