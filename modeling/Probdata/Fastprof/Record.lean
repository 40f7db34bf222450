/-
# Profiling records and their files

A memory-to-memory test is recorded as one line of text in a file of its pair of
hosts, under a folder that the writer makes if it is missing (`fastprof_tcp.cpp`,
`fastprof_udt.cpp`). A field that is a character array holds its C string; a word
read into it is stored without regard to the array's length, as `%s` does.

Key theorem: `MemRecord.ofLine_line`, a record's line gives the record back
(`MemRecord.Printable`).
-/
import Probdata.Lib.Text.Format
import Probdata.Lib.Text.Stream

namespace Probdata
namespace Fastprof

open Text

/-- `struct mem_record` -/
structure MemRecord where
  srcIp : List Char
  dstIp : List Char
  currTime : List Char
  protocolName : List Char
  toolkitName : List Char
  numStreams : ℤ
  mssSize : ℤ
  bufferSize : ℤ
  bufferSizeUnit : List Char
  blockSize : ℤ
  blockSizeUnit : List Char
  duration : ℤ
  durationUnit : List Char
  transSize : ℤ
  transSizeUnit : List Char
  averagePerf : Dbl
  averagePerfUnit : List Char
  deriving DecidableEq, Repr

/-- `MEM_RECORD_FORMAT_LABEL` -/
def memRecordFormatLabel : List Directive :=
  parseFormat "%s %s %s %s %s %d %d %d %s %d %s %d %s %lld %s %lf %s".toList

/-- `MEM_RECORD_NUM_ELEMENTS` -/
def memRecordNumElements : ℕ := 17

/-- The arguments that are printed. -/
def MemRecord.values (r : MemRecord) : List Value :=
  [.str r.srcIp, .str r.dstIp, .str r.currTime, .str r.protocolName, .str r.toolkitName,
    .int r.numStreams, .int r.mssSize, .int r.bufferSize, .str r.bufferSizeUnit,
    .int r.blockSize, .str r.blockSizeUnit, .int r.duration, .str r.durationUnit,
    .int r.transSize, .str r.transSizeUnit, .dbl r.averagePerf, .str r.averagePerfUnit]

/-- The record whose fields are assigned, if all of them are. -/
def MemRecord.ofValues : List Value → Option MemRecord
  | [.str srcIp, .str dstIp, .str currTime, .str protocolName, .str toolkitName,
      .int numStreams, .int mssSize, .int bufferSize, .str bufferSizeUnit, .int blockSize,
      .str blockSizeUnit, .int duration, .str durationUnit, .int transSize, .str transSizeUnit,
      .dbl averagePerf, .str averagePerfUnit] =>
    some { srcIp, dstIp, currTime, protocolName, toolkitName, numStreams, mssSize, bufferSize,
           bufferSizeUnit, blockSize, blockSizeUnit, duration, durationUnit, transSize,
           transSizeUnit, averagePerf, averagePerfUnit }
  | _ => none

@[simp] theorem MemRecord.ofValues_values (r : MemRecord) : MemRecord.ofValues r.values = some r := rfl

/-- The line of a record, without its newline. -/
def MemRecord.line (r : MemRecord) : List Char := fprintf memRecordFormatLabel r.values

/-- What `sscanf` makes of a line, if it assigns all elements. -/
def MemRecord.ofLine (readline : List Char) : Option MemRecord :=
  MemRecord.ofValues (sscanf memRecordFormatLabel (cstr readline))

/-! ### The files -/

/-- The profile folder: whether it is there, whether it can be made, and what
opening a file in it gives. A file that is opened and not there is made, with no
text. -/
structure Profiles where
  folder : Bool
  mkdir : Bool
  file : List Char → Option (List Char)

/-- `F_DEFAULT_M2M_FOLDER` -/
def fDefaultM2mFolder : List Char := "../../profile/mem".toList

/-- The file of a pair of hosts. -/
def profFile (localIp remoteIp : List Char) : List Char :=
  fDefaultM2mFolder ++ '/' :: localIp ++ '_' :: remoteIp ++ ".PROF".toList

/-- `fopen(filename, "a+")` -/
def Profiles.fopen (d : Profiles) (filename : List Char) : Option (List Char) :=
  if d.folder then d.file filename else none

/-- A folder that is missing is made. -/
def Profiles.makeFolder (d : Profiles) : Profiles := { d with folder := d.folder || d.mkdir }

def Profiles.append (d : Profiles) (filename text : List Char) : Profiles :=
  { d with file := fun name =>
      if name = filename then (d.file name).map (· ++ text) else d.file name }

/-- What both record writers do. -/
def addRecord (d : Profiles) (localIp remoteIp : List Char) (record : MemRecord) : ℤ × Profiles :=
  let d := d.makeFolder
  match d.fopen (profFile localIp remoteIp) with
  | none => (-1, d)
  | some _ => (0, d.append (profFile localIp remoteIp) (record.line ++ ['\n']))

/-- `f_tcp_m2m_record_add` -/
def fTcpM2mRecordAdd (d : Profiles) (localIp remoteIp : List Char) (record : MemRecord) :
    ℤ × Profiles :=
  addRecord d localIp remoteIp record

/-- `f_udt_m2m_record_add` -/
def fUdtM2mRecordAdd (d : Profiles) (localIp remoteIp : List Char) (record : MemRecord) :
    ℤ × Profiles :=
  addRecord d localIp remoteIp record

theorem Profiles.append_file (d : Profiles) (filename text : List Char) :
    (d.append filename text).file filename = (d.file filename).map (· ++ text) := if_pos rfl

/-- A record that can be added is added. -/
theorem addRecord_of_opens {d : Profiles} {localIp remoteIp : List Char} {t : List Char}
    (hd : d.makeFolder.folder = true) (ht : d.file (profFile localIp remoteIp) = some t)
    (record : MemRecord) : addRecord d localIp remoteIp record =
      (0, d.makeFolder.append (profFile localIp remoteIp) (record.line ++ ['\n'])) := by
  have hopen : d.makeFolder.fopen (profFile localIp remoteIp) = some t := by
    rw [Profiles.fopen, if_pos hd]
    exact ht
  rw [addRecord, hopen]

/-! ### A line and its record -/

/-- All elements are assigned, or there is no record. -/
theorem MemRecord.ofLine_eq_none {l : List Char} : MemRecord.ofLine l = none ↔
    (sscanf memRecordFormatLabel (cstr l)).length ≠ memRecordNumElements := by
  obtain ⟨ks, hks, hvs⟩ := sscanf_assigns memRecordFormatLabel (cstr l)
  have hconvs : convs memRecordFormatLabel =
    [.s, .s, .s, .s, .s, .d, .d, .d, .s, .d, .s, .d, .s, .lld, .s, .lf, .s] := rfl
  rw [MemRecord.ofLine]
  constructor
  · intro hnone hlen
    obtain rfl : ks = convs memRecordFormatLabel :=
      hks.eq_of_length (hvs.length_eq.trans (hlen.trans (congrArg List.length hconvs.symm)))
    rw [hconvs] at hvs
    generalize sscanf memRecordFormatLabel (cstr l) = vs at hvs hnone
    obtain ⟨srcIp, vs, rfl, h1⟩ := assigned_str hvs
    obtain ⟨dstIp, vs, rfl, h2⟩ := assigned_str h1
    obtain ⟨currTime, vs, rfl, h3⟩ := assigned_str h2
    obtain ⟨protocolName, vs, rfl, h4⟩ := assigned_str h3
    obtain ⟨toolkitName, vs, rfl, h5⟩ := assigned_str h4
    obtain ⟨numStreams, vs, rfl, h6⟩ := assigned_int (.inl rfl) h5
    obtain ⟨mssSize, vs, rfl, h7⟩ := assigned_int (.inl rfl) h6
    obtain ⟨bufferSize, vs, rfl, h8⟩ := assigned_int (.inl rfl) h7
    obtain ⟨bufferSizeUnit, vs, rfl, h9⟩ := assigned_str h8
    obtain ⟨blockSize, vs, rfl, h10⟩ := assigned_int (.inl rfl) h9
    obtain ⟨blockSizeUnit, vs, rfl, h11⟩ := assigned_str h10
    obtain ⟨duration, vs, rfl, h12⟩ := assigned_int (.inl rfl) h11
    obtain ⟨durationUnit, vs, rfl, h13⟩ := assigned_str h12
    obtain ⟨transSize, vs, rfl, h14⟩ := assigned_int (.inr rfl) h13
    obtain ⟨transSizeUnit, vs, rfl, h15⟩ := assigned_str h14
    obtain ⟨averagePerf, vs, rfl, h16⟩ := assigned_dbl h15
    obtain ⟨averagePerfUnit, vs, rfl, h17⟩ := assigned_str h16
    cases h17
    exact nomatch hnone
  · intro hlen
    unfold MemRecord.ofValues
    split
    · rename_i heq
      rw [heq] at hlen
      exact absurd rfl hlen
    · rfl

/-- A C string that is read back as it was printed, in an array of `n` bytes. -/
structure Word (n : ℕ) (cs : List Char) : Prop where
  ne_nil : cs ≠ []
  no_space : ∀ c ∈ cs, isSpace c = false
  no_nul : '\x00' ∉ cs
  fits : cs.length < n

instance (n : ℕ) (cs : List Char) : Decidable (Word n cs) :=
  decidable_of_iff (cs ≠ [] ∧ cs.all (fun c => !isSpace c) = true ∧ '\x00' ∉ cs ∧ cs.length < n)
    ⟨fun h => ⟨h.1, by simpa using h.2.1, h.2.2.1, h.2.2.2⟩,
      fun h => ⟨h.ne_nil, by simpa using h.no_space, h.no_nul, h.fits⟩⟩

/-- A record whose line can be read back. -/
structure MemRecord.Printable (r : MemRecord) : Prop where
  srcIp : Word 32 r.srcIp
  not_comment : r.srcIp.head? ≠ some '#'
  dstIp : Word 32 r.dstIp
  currTime : Word 32 r.currTime
  protocolName : Word 32 r.protocolName
  toolkitName : Word 32 r.toolkitName
  numStreams : -2 ^ 31 ≤ r.numStreams ∧ r.numStreams < 2 ^ 31
  mssSize : -2 ^ 31 ≤ r.mssSize ∧ r.mssSize < 2 ^ 31
  bufferSize : -2 ^ 31 ≤ r.bufferSize ∧ r.bufferSize < 2 ^ 31
  bufferSizeUnit : Word 8 r.bufferSizeUnit
  blockSize : -2 ^ 31 ≤ r.blockSize ∧ r.blockSize < 2 ^ 31
  blockSizeUnit : Word 8 r.blockSizeUnit
  duration : -2 ^ 31 ≤ r.duration ∧ r.duration < 2 ^ 31
  durationUnit : Word 8 r.durationUnit
  transSize : -2 ^ 63 ≤ r.transSize ∧ r.transSize < 2 ^ 63
  transSizeUnit : Word 8 r.transSizeUnit
  averagePerf : ∃ n : ℕ, r.averagePerf = .num (n / 10 ^ 6)
  averagePerfUnit : Word 8 r.averagePerfUnit
  short : r.line.length < 511

theorem Word.suits {n : ℕ} {cs : List Char} (h : Word n cs) : Conv.Suits .s (.str cs) :=
  ⟨h.ne_nil, fun c hc => ⟨h.no_space c hc, fun hnul => h.no_nul (hnul ▸ hc)⟩⟩

theorem isSpace_space : isSpace ' ' = true := rfl

theorem MemRecord.Printable.fits {r : MemRecord} (h : r.Printable) :
    Fits memRecordFormatLabel r.values :=
  .cons h.srcIp.suits isSpace_space <| .cons h.dstIp.suits isSpace_space <|
  .cons h.currTime.suits isSpace_space <| .cons h.protocolName.suits isSpace_space <|
  .cons h.toolkitName.suits isSpace_space <| .cons h.numStreams isSpace_space <|
  .cons h.mssSize isSpace_space <| .cons h.bufferSize isSpace_space <|
  .cons h.bufferSizeUnit.suits isSpace_space <| .cons h.blockSize isSpace_space <|
  .cons h.blockSizeUnit.suits isSpace_space <| .cons h.duration isSpace_space <|
  .cons h.durationUnit.suits isSpace_space <| .cons h.transSize isSpace_space <|
  .cons h.transSizeUnit.suits isSpace_space <| .cons h.averagePerf isSpace_space <|
  .last h.averagePerfUnit.suits

/-- A record's line is one line, and a C string. -/
theorem MemRecord.Printable.line_plain {r : MemRecord} (h : r.Printable) :
    '\n' ∉ r.line ∧ '\x00' ∉ r.line := by
  have hchar : ∀ c ∈ r.line, c = ' ' ∨ isSpace c = false ∧ c ≠ '\x00' := by
    intro c hc
    rcases mem_fprintf hc with hc | ⟨v, hv, hc⟩
    · exact .inl (by simpa [memRecordFormatLabel, parseFormat] using hc)
    · obtain ⟨k, hk⟩ := h.fits.suits hv
      exact .inr (hk.plain hc)
  constructor <;> intro hc
  · exact absurd (hchar _ hc) (by decide)
  · exact absurd (hchar _ hc) (by decide)

/-- **A record is read back from its line.** -/
theorem MemRecord.Printable.ofLine_line {r : MemRecord} (h : r.Printable) {t : List Char}
    (ht : t = [] ∨ t = ['\n']) : MemRecord.ofLine (r.line ++ t) = some r := by
  have hnul : '\x00' ∉ r.line ++ t := by
    rcases ht with rfl | rfl <;> simp [h.line_plain.2]
  have hends : EndsWord t := by
    rcases ht with rfl | rfl
    · exact fun c hc => nomatch hc
    · intro c hc
      obtain rfl : '\n' = c := by simpa using hc
      rfl
  rw [MemRecord.ofLine, cstr_of_noNul hnul, MemRecord.line, sscanf_fprintf h.fits hends,
    MemRecord.ofValues_values]

end Fastprof
end Probdata
