/-
# What the two sides hand over

`probdata_ctrl_chan_perf_exchange`, in which the server gets the best performance that the
client has measured, and sends back what it got; and `probdata_client_m2m_record_send` with
`probdata_server_m2m_record_recv`. A double is the 64 bits of it, and a record the memory it
is in. `t` is what the bytes on the channel belong to.
-/
import Probdata.Fastprof.Printed
import Probdata.Lib.Wire.Meeting
import Probdata.Session.Exchange

namespace Probdata
namespace Session

open Wire Bytes Layout
open Fastprof (MemRecord memRecordSize textAt)

variable {Act : Type} (t : Item)

/-! ### The best performance -/

/-- `probdata_ctrl_chan_perf_exchange_send`, which is the same for both roles. -/
def ctrlChanPerfExchangeSend (maxPerfMbps : BitVec 64) : Prog Item Act ℤ := do
  let r ← sendNbytes t (le64 maxPerfMbps)
  return if r < 0 then -1 else 0

/-- `probdata_ctrl_chan_perf_exchange_recv`, which is the same for both roles. -/
def ctrlChanPerfExchangeRecv (maxPerfMbps : BitVec 64) : Prog Item Act (ℤ × BitVec 64) := do
  let (r, bs) ← recvNbytes t 8
  return (if r < 0 then -1 else 0, ofLe64 (overlay bs (le64 maxPerfMbps)))

/-- `probdata_ctrl_chan_perf_exchange` -/
def ctrlChanPerfExchange (role : Role) (maxPerfMbps : BitVec 64) :
    Prog Item Act (ℤ × BitVec 64) :=
  match role with
  | .client => do
    let ret ← ctrlChanPerfExchangeSend t maxPerfMbps
    if ret < 0 then return (-1, maxPerfMbps)
    else
      let (ret, maxPerfMbps) ← ctrlChanPerfExchangeRecv t maxPerfMbps
      return (if ret < 0 then -1 else 0, maxPerfMbps)
  | .server => do
    let (ret, maxPerfMbps) ← ctrlChanPerfExchangeRecv t maxPerfMbps
    if ret < 0 then return (-1, maxPerfMbps)
    else
      let ret ← ctrlChanPerfExchangeSend t maxPerfMbps
      return (if ret < 0 then -1 else 0, maxPerfMbps)
  | .unknown => return (-1, maxPerfMbps)

theorem does_ctrlChanPerfExchangeSend (perf : BitVec 64) :
    Does (ctrlChanPerfExchangeSend t perf : Prog Item Act ℤ) (outs t (le64 perf)) 0 :=
  (does_sendNbytes t (le64 perf)).bind_ret rfl

/-- What is received takes the place of the value before. -/
theorem does_ctrlChanPerfExchangeRecv (perf perf' : BitVec 64) :
    Does (ctrlChanPerfExchangeRecv t perf : Prog Item Act _) (inns t (le64 perf')) (0, perf') := by
  have hover : overlay (le64 perf') (le64 perf) = le64 perf' :=
    overlay_of_length_le (Nat.le_refl 8)
  refine (does_recvNbytes t (le64 perf')).bind_ret ?_
  dsimp only
  rw [if_neg (by simp), hover, ofLe64_le64]
  rfl

/-- **Both sides end with the performance that the client has measured.** -/
theorem ctrlChanPerfExchange_meets (client server : BitVec 64) :
    Meets (ctrlChanPerfExchange t .client client : Prog Item Act _)
      (ctrlChanPerfExchange t .server server : Prog Item Act _) (0, client) (0, client) := by
  refine Does.meets (G := msgs true t (le64 client) ++ msgs false t (le64 client)) ?_ ?_
  · rw [side_append, side_msgs_true, side_msgs_false]
    refine (does_ctrlChanPerfExchangeSend t client).bind ?_
    exact (does_ctrlChanPerfExchangeRecv t client client).bind_ret rfl
  · rw [swapped_append, swapped_msgs, swapped_msgs, side_append]
    simp only [Bool.not_true, Bool.not_false, side_msgs_true, side_msgs_false]
    refine (does_ctrlChanPerfExchangeRecv t server client).bind ?_
    exact (does_ctrlChanPerfExchangeSend t client).bind_ret rfl

/-! ### A record -/

/-- `probdata_client_m2m_record_send` -/
def clientM2mRecordSend (role : Role) (rec : Mem) : Prog Item Act ℤ :=
  if role = .client then do
    let r ← sendNbytes t (bytesAt rec 0 memRecordSize)
    return if r < 0 then -1 else 0
  else return -1

/-- `probdata_server_m2m_record_recv` -/
def serverM2mRecordRecv (role : Role) (rec : Mem) : Prog Item Act (ℤ × Mem) :=
  if role = .server then do
    let (r, bs) ← recvNbytes t memRecordSize
    return (if r < 0 then -1 else 0, write 0 bs rec)
  else return (-1, rec)

/-- The memory of the server once it has got the record `rec`. -/
def handedOver (rec old : Mem) : Mem := write 0 (bytesAt rec 0 memRecordSize) old

theorem handedOver_apply (rec old : Mem) (i : ℕ) :
    handedOver rec old i = if i < memRecordSize then rec i else old i := by
  by_cases hi : i < memRecordSize
  · have hwrite := holds_write 0 (bytesAt rec 0 memRecordSize) old i (by simpa using hi)
    rw [if_pos hi, handedOver, ← Nat.zero_add i, hwrite]
    simp [bytesAt]
  · rw [if_neg hi]
    exact write_of_le (by simpa using hi)

theorem bytesAt_handedOver (rec old : Mem) {off n : ℕ} (h : off + n ≤ memRecordSize) :
    bytesAt (handedOver rec old) off n = bytesAt rec off n := by
  refine bytesAt_congr fun i _ hi => ?_
  rw [handedOver_apply, if_pos (by omega)]

/-- The record is the same to whoever prints it. -/
theorem ofMem_handedOver (rec old : Mem) :
    MemRecord.ofMem (handedOver rec old) = MemRecord.ofMem rec := by
  have htext : ∀ off, off ≤ memRecordSize → textAt (handedOver rec old) off = textAt rec off :=
    fun off h => by rw [textAt, textAt, bytesAt_handedOver rec old (by omega)]
  have hint : ∀ off, off + 4 ≤ memRecordSize → int32At (handedOver rec old) off = int32At rec off :=
    fun off h => by rw [int32At, int32At, bytesAt_handedOver rec old h]
  have hlong : ∀ off, off + 8 ≤ memRecordSize → int64At (handedOver rec old) off = int64At rec off :=
    fun off h => by rw [int64At, int64At, bytesAt_handedOver rec old h]
  unfold MemRecord.ofMem
  simp (disch := decide) only [htext, hint, hlong]

/-- **A record arrives as it was sent**, and nothing but the record is written. -/
theorem m2mRecord_meets (rec old : Mem) : ∃ rec' : Mem,
    Meets (clientM2mRecordSend t .client rec : Prog Item Act _)
      (serverM2mRecordRecv t .server old : Prog Item Act _) 0 (0, rec') ∧
    MemRecord.ofMem rec' = MemRecord.ofMem rec ∧ ∀ i, memRecordSize ≤ i → rec' i = old i := by
  refine ⟨handedOver rec old, ?_, ofMem_handedOver rec old, fun i hi => ?_⟩
  · refine Does.meets (G := msgs true t (bytesAt rec 0 memRecordSize)) ?_ ?_
    · rw [side_msgs_true]
      exact (does_sendNbytes t _).bind_ret rfl
    · rw [swapped_msgs, Bool.not_true, side_msgs_false]
      have hrecv : Does (recvNbytes t (bytesAt rec 0 memRecordSize).length : Prog Item Act _) _ _ :=
        does_recvNbytes t (bytesAt rec 0 memRecordSize)
      rw [length_bytesAt] at hrecv
      exact hrecv.bind_ret rfl
  · rw [handedOver_apply, if_neg (by omega)]

end Session
end Probdata
