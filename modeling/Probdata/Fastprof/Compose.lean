/-
# The record of a finished test

`f_tcp_m2m_record_compose` and `f_udt_m2m_record_compose` fill a `mem_record`, a
packed struct, field by field. The addresses are copied from arrays of 64 bytes
into arrays of 32; and the terminator of the second one goes to
`src_ip[strlen(remote_ip)]`, into the first. What spills over is overwritten by
the fields written later, or stays.

Key theorem: `m2mRecordCompose_faithful_iff`, for which lengths of the two
addresses the record is the one of the test (`Faithful`).
-/
import Mathlib.Tactic.IntervalCases
import Probdata.Lib.Layout
import Probdata.Lib.Text.Number

namespace Probdata
namespace Fastprof
namespace Packed

open Bytes Layout

/-- An address in a `fastprof_ctrl`: a C string that is not empty, without white
space, in an array of 64 bytes. -/
structure HostAddr where
  text : List UInt8
  ne_nil : text ≠ []
  fits : text.length < 64
  no_nul : (0 : UInt8) ∉ text
  no_blank : ∀ b ∈ text, b ≠ 32 ∧ ¬ (9 ≤ b ∧ b ≤ 13)

/-- A `struct tm` as `localtime` returns it. -/
structure Tm where
  mon : Fin 12
  mday : Fin 32
  year : ℕ
  hour : Fin 24
  min : Fin 60
  sec : Fin 61
  year_lt : year < 10 ^ 9

def ascii (t : List Char) : List UInt8 := t.map fun c => UInt8.ofNat c.toNat

/-- `"%02d:%02d:%d:%02d:%02d:%02d"` -/
def currTime (t : Tm) : List UInt8 :=
  ascii (Text.padded 2 (t.mon + 1) ++ ':' :: Text.padded 2 t.mday ++ ':' :: Nat.toDigits 10 t.year ++
    ':' :: Text.padded 2 t.hour ++ ':' :: Text.padded 2 t.min ++ ':' :: Text.padded 2 t.sec)

/-- What a finished test is asked for: for iperf3 the fields of its profile and
settings, for tpg the results of its functions. The performance is a `double`. -/
structure Finished where
  numStreams : BitVec 32
  mss : BitVec 32
  bufsize : BitVec 32
  blksize : BitVec 32
  duration : BitVec 32
  totalSent : BitVec 64
  perfMbps : BitVec 64

/-- The writes to the two addresses. -/
def addressWrites (localIp remoteIp : HostAddr) : List (ℕ × List UInt8) :=
  [(0, localIp.text), (localIp.text.length, [0]), (32, remoteIp.text),
    -- `src_ip` where `dst_ip` is meant
    (remoteIp.text.length, [0])]

/-- The writes to the fields behind them. -/
def fieldWrites (protocolName toolkitName : List UInt8) (tm : Tm) (t : Finished) :
    List (ℕ × List UInt8) :=
  [(64, currTime tm ++ [0]), (96, protocolName), (96 + protocolName.length, [0]),
    (128, toolkitName), (128 + toolkitName.length, [0]),
    (160, le32 t.numStreams), (164, le32 t.mss), (168, le32 t.bufsize), (172, ascii "B".toList),
    (173, [0]), (180, le32 t.blksize), (184, ascii "B".toList), (185, [0]), (192, le32 t.duration),
    (196, ascii "sec".toList), (199, [0]), (204, le64 t.totalSent), (212, ascii "B".toList), (213, [0]),
    (220, le64 t.perfMbps), (228, ascii "Mbps".toList), (232, [0])]

/-- The record that a protocol's function fills, from the `memset` on. -/
def m2mRecordCompose (protocolName toolkitName : List UInt8) (localIp remoteIp : HostAddr) (tm : Tm)
    (t : Finished) : Mem :=
  writes (addressWrites localIp remoteIp ++ fieldWrites protocolName toolkitName tm t) fun _ => 0

/-- `f_tcp_m2m_record_compose` -/
def fTcpM2mRecordCompose : HostAddr → HostAddr → Tm → Finished → Mem :=
  m2mRecordCompose (ascii "TCP".toList) (ascii "iperf3".toList)

/-- `f_udt_m2m_record_compose` -/
def fUdtM2mRecordCompose : HostAddr → HostAddr → Tm → Finished → Mem :=
  m2mRecordCompose (ascii "UDT".toList) (ascii "tpg".toList)

/-! ### What the record should hold -/

/-- The fields that are not addresses. -/
structure HoldsTest (m : Mem) (protocolName toolkitName : List UInt8) (tm : Tm) (t : Finished) :
    Prop where
  currTime : HoldsString m 64 (currTime tm)
  protocolName : HoldsString m 96 protocolName
  toolkitName : HoldsString m 128 toolkitName
  numStreams : int32At m 160 = t.numStreams
  mssSize : int32At m 164 = t.mss
  bufferSize : int32At m 168 = t.bufsize
  bufferSizeUnit : HoldsString m 172 (ascii "B".toList)
  blockSize : int32At m 180 = t.blksize
  blockSizeUnit : HoldsString m 184 (ascii "B".toList)
  duration : int32At m 192 = t.duration
  durationUnit : HoldsString m 196 (ascii "sec".toList)
  transSize : int64At m 204 = t.totalSent
  transSizeUnit : HoldsString m 212 (ascii "B".toList)
  averagePerf : int64At m 220 = t.perfMbps
  averagePerfUnit : HoldsString m 228 (ascii "Mbps".toList)

/-- The record of a test between two hosts. -/
structure Faithful (m : Mem) (protocolName toolkitName : List UInt8) (localIp remoteIp : HostAddr)
    (tm : Tm) (t : Finished) : Prop where
  srcIp : HoldsString m 0 localIp.text
  dstIp : HoldsString m 32 remoteIp.text
  test : HoldsTest m protocolName toolkitName tm t

/-! ### The time -/

theorem ascii_length (t : List Char) : (ascii t).length = t.length := List.length_map _

theorem length_padded_two {n : ℕ} (h : n < 100) : (Text.padded 2 n).length = 2 :=
  Text.length_padded (by decide) (by omega)

/-- The time fits its array. -/
theorem currTime_length (t : Tm) : (currTime t).length < 32 := by
  have hyear : (Nat.toDigits 10 t.year).length ≤ 9 :=
    (Nat.length_toDigits_le_iff (by decide) (by decide)).mpr t.year_lt
  have h1 := length_padded_two (n := t.mon + 1) (by omega)
  have h2 := length_padded_two (n := t.mday) (by omega)
  have h3 := length_padded_two (n := t.hour) (by omega)
  have h4 := length_padded_two (n := t.min) (by omega)
  have h5 := length_padded_two (n := t.sec) (by omega)
  simp only [currTime, ascii_length, List.length_append, List.length_cons, h1, h2, h3, h4, h5]
  omega

/-! ### The fields behind the addresses -/

theorem fieldWrites_ascending {protocolName toolkitName : List UInt8} (hp : protocolName.length < 32)
    (hk : toolkitName.length < 32) (tm : Tm) (t : Finished) :
    Ascending (fieldWrites protocolName toolkitName tm t) := by
  have htime := currTime_length tm
  have hle64 : ∀ x, (le64 x).length = 8 := fun _ => rfl
  refine ascending_of_isChain ?_
  simp [fieldWrites, ascii_length, hle64]
  omega

theorem holdsTest {protocolName toolkitName : List UInt8} (hp : protocolName.length < 32)
    (hk : toolkitName.length < 32) (localIp remoteIp : HostAddr) (tm : Tm) (t : Finished) :
    HoldsTest (m2mRecordCompose protocolName toolkitName localIp remoteIp tm t) protocolName
      toolkitName tm t := by
  have hfield : ∀ off bs, (off, bs) ∈ fieldWrites protocolName toolkitName tm t →
      Holds (m2mRecordCompose protocolName toolkitName localIp remoteIp tm t) off bs := by
    intro off bs hw
    rw [m2mRecordCompose, writes_append]
    exact (fieldWrites_ascending hp hk tm t).holds hw _
  exact
    { currTime := hfield 64 _ (by simp [fieldWrites])
      protocolName := (hfield 96 _ (by simp [fieldWrites])).append
        (hfield _ _ (by simp [fieldWrites])) rfl
      toolkitName := (hfield 128 _ (by simp [fieldWrites])).append
        (hfield _ _ (by simp [fieldWrites])) rfl
      numStreams := (hfield 160 _ (by simp [fieldWrites])).int32At_eq
      mssSize := (hfield 164 _ (by simp [fieldWrites])).int32At_eq
      bufferSize := (hfield 168 _ (by simp [fieldWrites])).int32At_eq
      bufferSizeUnit := (hfield 172 _ (by simp [fieldWrites])).append
        (hfield 173 _ (by simp [fieldWrites])) rfl
      blockSize := (hfield 180 _ (by simp [fieldWrites])).int32At_eq
      blockSizeUnit := (hfield 184 _ (by simp [fieldWrites])).append
        (hfield 185 _ (by simp [fieldWrites])) rfl
      duration := (hfield 192 _ (by simp [fieldWrites])).int32At_eq
      durationUnit := (hfield 196 _ (by simp [fieldWrites])).append
        (hfield 199 _ (by simp [fieldWrites])) rfl
      transSize := (hfield 204 _ (by simp [fieldWrites])).int64At_eq
      transSizeUnit := (hfield 212 _ (by simp [fieldWrites])).append
        (hfield 213 _ (by simp [fieldWrites])) rfl
      averagePerf := (hfield 220 _ (by simp [fieldWrites])).int64At_eq
      averagePerfUnit := (hfield 228 _ (by simp [fieldWrites])).append
        (hfield 232 _ (by simp [fieldWrites])) rfl }

/-! ### The addresses -/

section
variable {protocolName toolkitName : List UInt8} {localIp remoteIp : HostAddr} {tm : Tm} {t : Finished}

/-- The record after the writes to its addresses. -/
def addressed (localIp remoteIp : HostAddr) : Mem := writes (addressWrites localIp remoteIp) fun _ => 0

/-- The fields behind the addresses leave the first 64 bytes alone. -/
theorem compose_of_lt {i : ℕ} (hi : i < 64) :
    m2mRecordCompose protocolName toolkitName localIp remoteIp tm t i =
      addressed localIp remoteIp i := by
  rw [m2mRecordCompose, writes_append]
  refine writes_of_lt fun w hw => ?_
  have hoff : 64 ≤ w.1 := by
    simp only [fieldWrites, List.mem_cons, List.not_mem_nil, or_false] at hw
    rcases hw with rfl | rfl | rfl | rfl | rfl | rfl | rfl | rfl | rfl | rfl | rfl | rfl | rfl | rfl |
      rfl | rfl | rfl | rfl | rfl | rfl | rfl | rfl <;> dsimp only <;> omega
  omega

/-- The second terminator. -/
theorem addressed_terminator (localIp remoteIp : HostAddr) :
    addressed localIp remoteIp remoteIp.text.length = 0 :=
  holds_write remoteIp.text.length [0] _ 0 (by simp)

/-- A byte that the second terminator does not hit. -/
theorem addressed_of_ne {i : ℕ} (h : i ≠ remoteIp.text.length) : addressed localIp remoteIp i =
    write 32 remoteIp.text (write localIp.text.length [0] (write 0 localIp.text fun _ => 0)) i := by
  change write remoteIp.text.length [0] _ i = _
  rcases Nat.lt_or_gt_of_ne h with hlt | hgt
  · exact write_of_lt hlt
  · exact write_of_le (by simp; omega)

theorem HostAddr.getElem_ne_zero (a : HostAddr) {i : ℕ} (h : i < a.text.length) : a.text[i] ≠ 0 :=
  fun hz => a.no_nul (hz ▸ List.getElem_mem h)

/-- The source address, if it is not longer than the destination's. -/
theorem addressed_src (hle : localIp.text.length ≤ remoteIp.text.length) (h31 : remoteIp.text.length ≤ 31) :
    HoldsString (addressed localIp remoteIp) 0 localIp.text := by
  have hbody : Holds (addressed localIp remoteIp) 0 localIp.text := fun i hi => by
    rw [addressed_of_ne (by omega), write_of_lt (by omega), write_of_lt (by omega)]
    exact write_add hi
  have hend : Holds (addressed localIp remoteIp) localIp.text.length [0] := fun i hi => by
    obtain rfl : i = 0 := by simpa using hi
    rw [Nat.add_zero]
    by_cases he : localIp.text.length = remoteIp.text.length
    · rw [he]
      exact addressed_terminator localIp remoteIp
    · rw [addressed_of_ne he, write_of_lt (by omega)]
      exact write_add (i := 0) (by decide)
  exact hbody.append hend (Nat.zero_add _).symm

theorem addressed_dst (hle : localIp.text.length ≤ remoteIp.text.length) (h31 : remoteIp.text.length ≤ 31) :
    HoldsString (addressed localIp remoteIp) 32 remoteIp.text := by
  have hbody : Holds (addressed localIp remoteIp) 32 remoteIp.text := fun i hi => by
    rw [addressed_of_ne (by omega)]
    exact write_add hi
  have hend : Holds (addressed localIp remoteIp) (32 + remoteIp.text.length) [0] := fun i hi => by
    obtain rfl : i = 0 := by simpa using hi
    rw [addressed_of_ne (by omega), write_of_le (by omega), write_of_le (by simp; omega),
      write_of_le (by omega)]
    rfl
  exact hbody.append hend rfl

/-- A record of the two addresses needs both of them short. -/
theorem le_of_faithful
    (h : Faithful (m2mRecordCompose protocolName toolkitName localIp remoteIp tm t) protocolName
      toolkitName localIp remoteIp tm t) : localIp.text.length ≤ remoteIp.text.length ∧ remoteIp.text.length ≤ 31 := by
  have hzero : m2mRecordCompose protocolName toolkitName localIp remoteIp tm t remoteIp.text.length = 0 := by
    rw [compose_of_lt remoteIp.fits, addressed_terminator]
  have h31 : remoteIp.text.length ≤ 31 := by
    by_contra hgt
    have hdst := h.dstIp.left (remoteIp.text.length - 32) (by omega)
    rw [show 32 + (remoteIp.text.length - 32) = remoteIp.text.length by omega, hzero] at hdst
    exact remoteIp.getElem_ne_zero _ hdst.symm
  refine ⟨?_, h31⟩
  by_contra hgt
  have hsrc := h.srcIp.left remoteIp.text.length (by omega)
  rw [Nat.zero_add, hzero] at hsrc
  exact localIp.getElem_ne_zero _ hsrc.symm

theorem faithful_of_le (hp : protocolName.length < 32) (hk : toolkitName.length < 32)
    (hle : localIp.text.length ≤ remoteIp.text.length) (h31 : remoteIp.text.length ≤ 31) :
    Faithful (m2mRecordCompose protocolName toolkitName localIp remoteIp tm t) protocolName
      toolkitName localIp remoteIp tm t where
  srcIp i hi := by
    have hlen : i < localIp.text.length + 1 := by simpa using hi
    rw [compose_of_lt (by omega)]
    exact addressed_src hle h31 i hi
  dstIp i hi := by
    have hlen : i < remoteIp.text.length + 1 := by simpa using hi
    rw [compose_of_lt (by omega)]
    exact addressed_dst hle h31 i hi
  test := holdsTest hp hk localIp remoteIp tm t

end

/-- **Which addresses a record keeps.** -/
theorem m2mRecordCompose_faithful_iff (localIp remoteIp : HostAddr) (tm : Tm) (t : Finished) :
    (Faithful (fTcpM2mRecordCompose localIp remoteIp tm t) (ascii "TCP".toList)
        (ascii "iperf3".toList) localIp remoteIp tm t ↔
      localIp.text.length ≤ remoteIp.text.length ∧ remoteIp.text.length ≤ 31) ∧
    (Faithful (fUdtM2mRecordCompose localIp remoteIp tm t) (ascii "UDT".toList)
        (ascii "tpg".toList) localIp remoteIp tm t ↔
      localIp.text.length ≤ remoteIp.text.length ∧ remoteIp.text.length ≤ 31) :=
  ⟨⟨le_of_faithful, fun h => faithful_of_le (by decide) (by decide) h.1 h.2⟩,
    ⟨le_of_faithful, fun h => faithful_of_le (by decide) (by decide) h.1 h.2⟩⟩

/-- `10.0.0.11` -/
def longerIp : HostAddr where
  text := ascii "10.0.0.11".toList
  ne_nil := by decide
  fits := by decide
  no_nul := by decide
  no_blank := by decide +kernel

/-- `10.0.0.2` -/
def shorterIp : HostAddr where
  text := ascii "10.0.0.2".toList
  ne_nil := by decide
  fits := by decide
  no_nul := by decide
  no_blank := by decide +kernel

def sampleTm : Tm := ⟨0, 2, 2020, 3, 4, 5, by decide⟩

def sampleTest : Finished := ⟨4, 1460, 65536, 131072, 10, 11875000000, 0⟩

/-- The source address loses its last digit: the record is that of `10.0.0.1`. -/
theorem not_faithful_longer :
    HoldsString (fTcpM2mRecordCompose longerIp shorterIp sampleTm sampleTest) 0
        (ascii "10.0.0.1".toList) ∧
      ¬ Faithful (fTcpM2mRecordCompose longerIp shorterIp sampleTm sampleTest) (ascii "TCP".toList)
        (ascii "iperf3".toList) longerIp shorterIp sampleTm sampleTest := by
  refine ⟨by decide +kernel, fun h => ?_⟩
  exact absurd (le_of_faithful h).1 (by decide)

end Packed
end Fastprof
end Probdata
