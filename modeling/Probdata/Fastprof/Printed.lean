/-
# A composed record, printed

The record writers print the packed struct of `Compose` with the format of `Record`:
each `%s` prints the bytes of an array up to the first NUL, each number the bytes of its
field, and `%lf` the throughput to six digits. `MemRecord.ofMem` is the struct as those
conversions see it.

Key theorem: `printable_finished`, a finished test's record gives a line that can be read
back, with its throughput rounded to a millionth.
-/
import Probdata.Lib.Text.Double
import Probdata.Fastprof.Compose
import Probdata.Fastprof.Record

namespace Probdata
namespace Fastprof

open Text Bytes Layout

/-! ### Bytes as text -/

/-- The characters of some bytes. -/
def latin (bs : List UInt8) : List Char := bs.map fun b => Char.ofNat b.toNat

@[simp] theorem length_latin (bs : List UInt8) : (latin bs).length = bs.length := List.length_map _

theorem toNat_ofNat (b : UInt8) : (Char.ofNat b.toNat).toNat = b.toNat := by
  have hb : b.toNat < 256 := b.toNat_lt
  have hvalid : b.toNat.isValidChar := .inl (by omega)
  have hofNat : Char.ofNat b.toNat = Char.ofNatAux b.toNat hvalid := dif_pos hvalid
  rw [hofNat]
  rfl

/-- The characters of a byte that is no white space. -/
theorem isSpace_ofNat {b : UInt8} (h : b ≠ 32 ∧ ¬ (9 ≤ b ∧ b ≤ 13)) :
    isSpace (Char.ofNat b.toNat) = false := by
  have h32 : b.toNat ≠ 32 := fun he => h.1 (UInt8.toNat_inj.mp he)
  have hrange : ¬ (9 ≤ b.toNat ∧ b.toNat ≤ 13) := fun he =>
    h.2 ⟨UInt8.le_iff_toNat_le.mpr he.1, UInt8.le_iff_toNat_le.mpr he.2⟩
  simp only [isSpace, toNat_ofNat]
  simp only [Bool.or_eq_false_iff, Bool.and_eq_false_iff, decide_eq_false_iff_not]
  omega

theorem ofNat_ne_nul {b : UInt8} (h : b ≠ 0) : Char.ofNat b.toNat ≠ '\x00' := fun he => by
  have hn : (Char.ofNat b.toNat).toNat = 0 := by rw [he]; rfl
  rw [toNat_ofNat] at hn
  exact h (UInt8.toNat_inj.mp hn)

theorem latin_ascii {t : List Char} (h : ∀ c ∈ t, c.toNat < 256) : latin (Packed.ascii t) = t := by
  induction t with
  | nil => rfl
  | cons c t ih =>
    have hc : c.toNat < 256 := h c (by simp)
    have hhead : Char.ofNat (UInt8.ofNat c.toNat).toNat = c := by
      rw [UInt8.toNat_ofNat', Nat.mod_eq_of_lt (by simpa using hc), Char.ofNat_toNat]
    change Char.ofNat (UInt8.ofNat c.toNat).toNat :: latin (Packed.ascii t) = _
    rw [hhead, ih fun x hx => h x (by simp [hx])]

/-! ### What the format prints -/

/-- `sizeof(struct mem_record)` -/
def memRecordSize : ℕ := 236

/-- What `%s` prints of an array of the record. -/
def textAt (m : Mem) (off : ℕ) : List Char :=
  latin ((bytesAt m off (memRecordSize - off)).takeWhile fun b => b ≠ 0)

/-- The record as the format prints it. -/
def MemRecord.ofMem (m : Mem) : MemRecord where
  srcIp := textAt m 0
  dstIp := textAt m 32
  currTime := textAt m 64
  protocolName := textAt m 96
  toolkitName := textAt m 128
  numStreams := (int32At m 160).toInt
  mssSize := (int32At m 164).toInt
  bufferSize := (int32At m 168).toInt
  bufferSizeUnit := textAt m 172
  blockSize := (int32At m 180).toInt
  blockSizeUnit := textAt m 184
  duration := (int32At m 192).toInt
  durationUnit := textAt m 196
  transSize := (int64At m 204).toInt
  transSizeUnit := textAt m 212
  averagePerf := Dbl.ofBits (int64At m 220)
  averagePerfUnit := textAt m 228

/-- What an array holds is printed. -/
theorem textAt_of_holds {m : Mem} {off : ℕ} {s : List UInt8} (h : HoldsString m off s)
    (hs : (0 : UInt8) ∉ s) (hlen : off + s.length < memRecordSize) : textAt m off = latin s := by
  have hsplit : bytesAt m off (memRecordSize - off) = s ++
      (0 :: (bytesAt m off (memRecordSize - off)).drop (s.length + 1)) := by
    have htake : (bytesAt m off (memRecordSize - off)).take (s.length + 1) = s ++ [0] := by
      have hbytes := h.bytesAt_eq
      rw [List.length_append, List.length_singleton] at hbytes
      rw [← hbytes, bytesAt, bytesAt, ← List.map_take, List.take_range, min_eq_left (by omega)]
    conv_lhs => rw [← List.take_append_drop (s.length + 1) (bytesAt m off (memRecordSize - off)), htake]
    rw [List.append_assoc]
    rfl
  rw [textAt, hsplit, List.takeWhile_append_of_pos, List.takeWhile_cons_of_neg (by simp), List.append_nil]
  intro b hb
  simpa using fun hz : b = 0 => hs (hz ▸ hb)

/-! ### The record of a finished test -/

section

variable (protocolName toolkitName : List Char) (localIp remoteIp : Packed.HostAddr) (tm : Packed.Tm)
  (t : Packed.Finished)

/-- What the record of a finished test says. -/
def finishedRecord : MemRecord where
  srcIp := latin localIp.text
  dstIp := latin remoteIp.text
  currTime := latin (Packed.currTime tm)
  protocolName := protocolName
  toolkitName := toolkitName
  numStreams := t.numStreams.toInt
  mssSize := t.mss.toInt
  bufferSize := t.bufsize.toInt
  bufferSizeUnit := "B".toList
  blockSize := t.blksize.toInt
  blockSizeUnit := "B".toList
  duration := t.duration.toInt
  durationUnit := "sec".toList
  transSize := t.totalSent.toInt
  transSizeUnit := "B".toList
  averagePerf := Dbl.ofBits t.perfMbps
  averagePerfUnit := "Mbps".toList

variable {protocolName toolkitName localIp remoteIp tm t}

/-- The characters of the time. -/
theorem mem_currTime {b : UInt8} (h : b ∈ Packed.currTime tm) :
    b = 58 ∨ 48 ≤ b ∧ b ≤ 57 := by
  obtain ⟨c, hc, rfl⟩ := List.mem_map.mp h
  have hchar : c = ':' ∨ c.isDigit = true := by
    simp only [List.mem_append, List.mem_cons, or_assoc] at hc
    rcases hc with hc | rfl | hc | rfl | hc | rfl | hc | rfl | hc | rfl | hc <;>
      first | exact .inl rfl | exact .inr (isDigit_padded _ _ c hc) | exact .inr (isDigit_toDigits _ c hc)
  rcases hchar with rfl | hd
  · exact .inl rfl
  · refine .inr ?_
    rcases digit_cases hd with rfl | rfl | rfl | rfl | rfl | rfl | rfl | rfl | rfl | rfl <;> decide

theorem ofMem_eq {m : Mem} (hp : ∀ c ∈ protocolName, c ≠ '\x00' ∧ c.toNat < 256)
    (hk : ∀ c ∈ toolkitName, c ≠ '\x00' ∧ c.toNat < 256) (hplen : protocolName.length < 32)
    (hklen : toolkitName.length < 32) (hlocal : localIp.text.length < 32)
    (hremote : remoteIp.text.length < 32)
    (h : Packed.Faithful m (Packed.ascii protocolName) (Packed.ascii toolkitName) localIp remoteIp tm t) :
    MemRecord.ofMem m = finishedRecord protocolName toolkitName localIp remoteIp tm t := by
  have hascii : ∀ {t : List Char}, (∀ c ∈ t, c ≠ '\x00' ∧ c.toNat < 256) →
      (0 : UInt8) ∉ Packed.ascii t := fun {t} ht hz => by
    obtain ⟨c, hc, hz⟩ := List.mem_map.mp hz
    have hn : (UInt8.ofNat c.toNat).toNat = 0 := by rw [hz]; rfl
    rw [UInt8.toNat_ofNat', Nat.mod_eq_of_lt (by simpa using (ht c hc).2)] at hn
    exact (ht c hc).1 (by rw [← Char.ofNat_toNat c, hn])
  have htime : (0 : UInt8) ∉ Packed.currTime tm := fun hz => by
    rcases mem_currTime hz with h0 | h0
    · exact absurd h0 (by decide)
    · exact absurd h0 (by decide)
  have htlen := Packed.currTime_length tm
  have hT := h.test
  rw [MemRecord.ofMem, finishedRecord, hT.numStreams, hT.mssSize, hT.bufferSize, hT.blockSize,
    hT.duration, hT.transSize, hT.averagePerf,
    textAt_of_holds h.srcIp localIp.no_nul (by simp only [memRecordSize]; omega),
    textAt_of_holds h.dstIp remoteIp.no_nul (by simp only [memRecordSize]; omega),
    textAt_of_holds hT.currTime htime (by simp only [memRecordSize]; omega),
    textAt_of_holds hT.protocolName (hascii hp) (by simp only [memRecordSize, Packed.ascii_length]; omega),
    textAt_of_holds hT.toolkitName (hascii hk) (by simp only [memRecordSize, Packed.ascii_length]; omega),
    textAt_of_holds hT.bufferSizeUnit (by decide) (by decide),
    textAt_of_holds hT.blockSizeUnit (by decide) (by decide),
    textAt_of_holds hT.durationUnit (by decide) (by decide),
    textAt_of_holds hT.transSizeUnit (by decide) (by decide),
    textAt_of_holds hT.averagePerfUnit (by decide) (by decide),
    latin_ascii fun c hc => (hp c hc).2, latin_ascii fun c hc => (hk c hc).2]
  rfl

end

/-! ### Its line -/

/-- The record as it is read back, with the digits of its performance that are printed. -/
def MemRecord.printed (r : MemRecord) : MemRecord :=
  match r.averagePerf with
  | .num q => { r with averagePerf := .num (millionths q) }
  | _ => r

theorem MemRecord.printed_eq {r : MemRecord} {q : ℚ} (h : r.averagePerf = .num q) :
    r.printed = { r with averagePerf := .num (millionths q) } := by
  rw [printed, h]

/-- Both have one line. -/
theorem MemRecord.line_printed {r : MemRecord} {q : ℚ} (h : r.averagePerf = .num q) (h0 : 0 ≤ q) :
    r.printed.line = r.line := by
  have hperf : printValue (.dbl r.averagePerf) = printValue (.dbl (.num (millionths q))) := by
    rw [h]
    exact printDouble_num h0
  rw [r.printed_eq h]
  refine fprintf_congr ?_
  simp only [values, List.map_cons, hperf]

/-- A date that `localtime` gives in our times. -/
def Packed.Tm.Current (tm : Packed.Tm) : Prop := tm.year < 10000

/-- An address that no line can be taken for a comment with. -/
def Packed.HostAddr.Plain (a : Packed.HostAddr) : Prop := a.text.head? ≠ some 35 ∧ a.text.length ≤ 31

section

variable {protocolName toolkitName : List Char} {localIp remoteIp : Packed.HostAddr} {tm : Packed.Tm}
  {t : Packed.Finished}

theorem word_address {a : Packed.HostAddr} (h : a.text.length ≤ 31) : Word 32 (latin a.text) where
  ne_nil := by simpa [latin] using a.ne_nil
  no_space c hc := by
    obtain ⟨b, hb, rfl⟩ := List.mem_map.mp hc
    exact isSpace_ofNat (a.no_blank b hb)
  no_nul h0 := by
    obtain ⟨b, hb, hz⟩ := List.mem_map.mp h0
    exact ofNat_ne_nul (fun h => a.no_nul (h ▸ hb)) hz
  fits := by
    rw [length_latin]
    omega

theorem Packed.HostAddr.Plain.not_comment {a : Packed.HostAddr} (h : a.Plain) :
    (latin a.text).head? ≠ some '#' := fun hc => by
  obtain ⟨b, hb, hb'⟩ := Option.map_eq_some_iff.mp (List.head?_map.symm.trans hc)
  have hn : b.toNat = 35 := by
    rw [← toNat_ofNat b, hb']
    rfl
  exact h.1 (hb.trans (congrArg some (UInt8.toNat_inj.mp hn)))

theorem word_currTime : Word 32 (latin (Packed.currTime tm)) where
  ne_nil h := by
    have hlen := congrArg List.length h
    simp [Packed.currTime, Packed.ascii] at hlen
  no_space c hc := by
    obtain ⟨b, hb, rfl⟩ := List.mem_map.mp hc
    refine isSpace_ofNat ?_
    rcases mem_currTime hb with rfl | hd
    · decide
    · rw [UInt8.le_iff_toNat_le, UInt8.le_iff_toNat_le] at hd
      refine ⟨fun h => ?_, fun h => ?_⟩
      · rw [h] at hd
        exact absurd hd (by decide)
      · have h13 := UInt8.le_iff_toNat_le.mp h.2
        have h48 := hd.1
        simp only [UInt8.reduceToNat] at h13 h48
        omega
  no_nul h0 := by
    obtain ⟨b, hb, hz⟩ := List.mem_map.mp h0
    refine ofNat_ne_nul (fun h => ?_) hz
    rcases mem_currTime hb with h' | h'
    · exact absurd (h' ▸ h) (by decide)
    · rw [h] at h'
      exact absurd h' (by decide)
  fits := by
    rw [length_latin]
    exact Packed.currTime_length tm

theorem length_currTime (h : tm.Current) : (Packed.currTime tm).length ≤ 19 := by
  have hyear : (Nat.toDigits 10 tm.year).length ≤ 4 :=
    (Nat.length_toDigits_le_iff (by decide) (by decide)).mpr h
  have h1 := Packed.length_padded_two (n := tm.mon + 1) (by omega)
  have h2 := Packed.length_padded_two (n := tm.mday) (by omega)
  have h3 := Packed.length_padded_two (n := tm.hour) (by omega)
  have h4 := Packed.length_padded_two (n := tm.min) (by omega)
  have h5 := Packed.length_padded_two (n := tm.sec) (by omega)
  simp only [Packed.currTime, Packed.ascii_length, List.length_append, List.length_cons, h1, h2, h3, h4, h5]
  omega

theorem toInt_bounds {w : ℕ} (x : BitVec (w + 1)) : -2 ^ w ≤ x.toInt ∧ x.toInt < 2 ^ w := by
  have h1 := BitVec.le_toInt x
  have h2 := BitVec.toInt_lt (x := x)
  simpa using And.intro h1 h2

theorem length_printInt32 (x : BitVec 32) : (printInt x.toInt).length ≤ 11 := by
  have h := toInt_bounds (w := 31) x
  exact length_printInt (k := 10) (by decide) (by omega)

theorem length_printInt64 (x : BitVec 64) : (printInt x.toInt).length ≤ 20 := by
  have h := toInt_bounds (w := 63) x
  exact length_printInt (k := 19) (by decide) (by omega)

theorem add_one_lt_of_ofBits {w : BitVec 64} {q : ℚ} (hq : Dbl.ofBits w = .num q) :
    q + 1 < 10 ^ 309 := by
  have hpow : (((2 : ℕ) ^ 1024 + 1 : ℕ) : ℚ) < (((10 : ℕ) ^ 309 : ℕ) : ℚ) :=
    Nat.cast_lt.mpr (by decide +kernel)
  rw [Nat.cast_add, Nat.cast_pow, Nat.cast_pow, Nat.cast_one] at hpow
  exact lt_trans (add_lt_add_left (Dbl.ofBits_lt hq) 1) hpow

/-- The line of a finished test is not longer than what is read at once. -/
theorem length_line (hp : protocolName.length ≤ 3) (hk : toolkitName.length ≤ 6)
    (hlocal : localIp.text.length ≤ 31) (hremote : remoteIp.text.length ≤ 31) (htm : tm.Current)
    {q : ℚ} (hq : Dbl.ofBits t.perfMbps = .num q) (h0 : 0 ≤ q) :
    (finishedRecord protocolName toolkitName localIp remoteIp tm t).line.length < 511 := by
  have hperf := length_printDouble h0 (k := 309) (by decide) (add_one_lt_of_ofBits hq)
  have htime := length_currTime htm
  have h1 := length_printInt32 t.numStreams
  have h2 := length_printInt32 t.mss
  have h3 := length_printInt32 t.bufsize
  have h4 := length_printInt32 t.blksize
  have h5 := length_printInt32 t.duration
  have h6 := length_printInt64 t.totalSent
  refine lt_of_le_of_lt (length_fprintf_le _ _) ?_
  have hlits : lits memRecordFormatLabel = 16 := rfl
  simp only [MemRecord.values, finishedRecord, List.map_cons, List.map_nil, List.sum_cons, List.sum_nil,
    printValue, hlits, length_latin, hq]
  have hB : "B".toList.length = 1 := rfl
  have hsec : "sec".toList.length = 3 := rfl
  have hMbps : "Mbps".toList.length = 4 := rfl
  omega

/-- A finished test's record, as it is read back, can be read back. -/
theorem printable_finished (hp : Word 32 protocolName) (hk : Word 32 toolkitName)
    (hplen : protocolName.length ≤ 3) (hklen : toolkitName.length ≤ 6) (hlocal : localIp.Plain)
    (hremote : remoteIp.text.length ≤ 31) (htm : tm.Current) {q : ℚ}
    (hq : Dbl.ofBits t.perfMbps = .num q) (h0 : 0 ≤ q) :
    (finishedRecord protocolName toolkitName localIp remoteIp tm t).printed.Printable := by
  have hperf : (finishedRecord protocolName toolkitName localIp remoteIp tm t).averagePerf = .num q := hq
  have hline := MemRecord.line_printed hperf h0
  have hunit : Word 8 "B".toList ∧ Word 8 "sec".toList ∧ Word 8 "Mbps".toList := by decide
  rw [MemRecord.printed_eq hperf] at hline ⊢
  exact
    { srcIp := word_address hlocal.2
      not_comment := hlocal.not_comment
      dstIp := word_address hremote
      currTime := word_currTime
      protocolName := hp
      toolkitName := hk
      numStreams := toInt_bounds (w := 31) t.numStreams
      mssSize := toInt_bounds (w := 31) t.mss
      bufferSize := toInt_bounds (w := 31) t.bufsize
      bufferSizeUnit := hunit.1
      blockSize := toInt_bounds (w := 31) t.blksize
      blockSizeUnit := hunit.1
      duration := toInt_bounds (w := 31) t.duration
      durationUnit := hunit.2.1
      transSize := toInt_bounds (w := 63) t.totalSent
      transSizeUnit := hunit.1
      averagePerf := ⟨roundEven (q * 10 ^ 6), rfl⟩
      averagePerfUnit := hunit.2.2
      short := by
        rw [hline]
        exact length_line hplen hklen hlocal.2 hremote htm hq h0 }

end

end Fastprof
end Probdata
