/-
# The control channel, `probdata_control.cpp`

The status codes of `probdata.h`, the loops that read and write a number of
bytes, and the exchange of the control parameters. A byte is on the channel as
part of an item: the client's id, the length of its address or the address, a
status, or a `probdata_ctrlmsg`.
-/
import Mathlib.Order.Basic
import Mathlib.Data.Int.Notation
import Probdata.Lib.Bytes
import Probdata.Lib.Wire.Prog

namespace Probdata
namespace Session

open Wire Bytes

/-- The status codes: those that the two sides have a name for, and the rest. -/
inductive Status
  | programStart
  | ctrlChanEst
  | twowayHandshake
  | runM2mDb
  | runM2mTcp
  | runM2mUdt
  | runD2dDb
  | runD2dTcp
  | runD2dUdt
  | programDone
  | serverError
  | clientTerminate
  | accessDenied
  | other (b : UInt8)
  deriving DecidableEq, Repr

namespace Status

/-- The code on the wire, as a `signed char`. -/
def code : Status → UInt8
  | programStart => 1
  | ctrlChanEst => 2
  | twowayHandshake => 3
  | runM2mDb => 4
  | runM2mTcp => 5
  | runM2mUdt => 6
  | runD2dDb => 7
  | runD2dTcp => 8
  | runD2dUdt => 9
  | programDone => 10
  | serverError => -20
  | clientTerminate => -21
  | accessDenied => -22
  | other b => b

def ofCode (b : UInt8) : Status :=
  if b = 1 then programStart
  else if b = 2 then ctrlChanEst
  else if b = 3 then twowayHandshake
  else if b = 4 then runM2mDb
  else if b = 5 then runM2mTcp
  else if b = 6 then runM2mUdt
  else if b = 7 then runD2dDb
  else if b = 8 then runD2dTcp
  else if b = 9 then runD2dUdt
  else if b = 10 then programDone
  else if b = -20 then serverError
  else if b = -21 then clientTerminate
  else if b = -22 then accessDenied
  else other b

end Status

/-- The items on the control channel. -/
inductive Item
  | id
  | len
  | addr
  | status
  | ctrlmsg
  deriving DecidableEq, Repr

def pIdpktSize : ℕ := 32

variable {Act : Type}

/-! ### Reading and writing a number of bytes -/

/-- The loop of `probdata_ctrl_chan_recv_Nbytes` with `nleft` bytes to go. A
`read` gets at least one byte, so `nleft` bounds its iterations. -/
def recvLoop (t : Item) : ℕ → ℕ → List UInt8 → Prog Item Act (ℤ × List UInt8)
  | 0, _, buf => .ret (buf.length, buf)
  | fuel + 1, nleft, buf =>
    if nleft = 0 then .ret (buf.length, buf)
    else .read t nleft fun r =>
      match r with
      | none => .ret (-1, buf)
      | some [] => .ret (buf.length, buf)
      | some (b :: bs) => recvLoop t fuel (nleft - (b :: bs).length) (buf ++ b :: bs)

/-- `probdata_ctrl_chan_recv_Nbytes`: its value, and the bytes it has read. -/
def recvNbytes (t : Item) (count : ℤ) : Prog Item Act (ℤ × List UInt8) :=
  recvLoop t count.toNat count.toNat []

/-- The loop of `probdata_ctrl_chan_send_Nbytes` with the bytes `bs` to go. -/
def sendLoop (t : Item) (count : ℤ) : ℕ → List UInt8 → Prog Item Act ℤ
  | 0, _ => .ret count
  | fuel + 1, bs =>
    if bs = [] then .ret count
    else .write t bs fun r =>
      match r with
      | none => .ret (-1)
      | some 0 => .ret count
      | some (r + 1) => sendLoop t count fuel (bs.drop (r + 1))

/-- `probdata_ctrl_chan_send_Nbytes` -/
def sendNbytes (t : Item) (bs : List UInt8) : Prog Item Act ℤ :=
  sendLoop t bs.length bs.length bs

theorem does_recvLoop (t : Item) {fuel nleft : ℕ} {bs : List UInt8} (buf : List UInt8)
    (hbs : bs.length = nleft) (hf : nleft ≤ fuel) :
    Does (recvLoop t fuel nleft buf : Prog Item Act _) (inns t bs)
      (((buf ++ bs).length : ℤ), buf ++ bs) := by
  induction fuel generalizing nleft bs buf with
  | zero =>
    obtain rfl : bs = [] := List.length_eq_zero_iff.mp (by omega)
    rw [List.append_nil]
    exact .ret _
  | succ fuel ih =>
    unfold recvLoop
    by_cases h0 : nleft = 0
    · obtain rfl : bs = [] := List.length_eq_zero_iff.mp (by omega)
      rw [if_pos h0, List.append_nil]
      exact .ret _
    · rw [if_neg h0, ← List.append_nil (inns t bs)]
      refine .read (by omega) hbs fun r hr hrn => ?_
      rcases htake : bs.take r with _ | ⟨b, bs'⟩
      · have := congrArg List.length htake
        simp only [List.length_take, List.length_nil] at this
        omega
      have hlen : (b :: bs').length = r := by rw [← htake, List.length_take]; omega
      dsimp only
      rw [hlen, List.append_nil]
      have h := ih (buf ++ b :: bs') (show (bs.drop r).length = nleft - r by simp [hbs]) (by omega)
      rwa [List.append_assoc, ← htake, List.take_append_drop, htake] at h

theorem does_recvNbytes (t : Item) (bs : List UInt8) :
    Does (recvNbytes t bs.length : Prog Item Act _) (inns t bs) ((bs.length : ℤ), bs) :=
  does_recvLoop t [] rfl (Nat.le_refl _)

theorem does_sendLoop (t : Item) (count : ℤ) {fuel : ℕ} {bs : List UInt8} (hf : bs.length ≤ fuel) :
    Does (sendLoop t count fuel bs : Prog Item Act _) (outs t bs) count := by
  induction fuel generalizing bs with
  | zero =>
    obtain rfl : bs = [] := List.length_eq_zero_iff.mp (by omega)
    exact .ret _
  | succ fuel ih =>
    unfold sendLoop
    by_cases h0 : bs = []
    · rw [if_pos h0, h0]
      exact .ret _
    · rw [if_neg h0, ← List.append_nil (outs t bs)]
      refine .write h0 fun r hr hrn => ?_
      obtain ⟨r, rfl⟩ : ∃ r', r = r' + 1 := ⟨r - 1, by omega⟩
      rw [List.append_nil]
      exact ih (by simp; omega)

theorem does_sendNbytes (t : Item) (bs : List UInt8) :
    Does (sendNbytes t bs : Prog Item Act _) (outs t bs) bs.length :=
  does_sendLoop t bs.length (Nat.le_refl _)

theorem exec_recvLoop {t : Item} {fuel nleft : ℕ} {buf bs : List UInt8}
    {s : List (Op Item Act)} {fs : List Fault} {r : ℤ} (hf : nleft ≤ fuel)
    (h : Exec (recvLoop t fuel nleft buf) s fs (r, bs)) :
    ∃ xs, bs = buf ++ xs ∧ s = inns t xs ∧ xs.length ≤ nleft ∧
      (fs = [] ∧ r = bs.length ∨ fs = [.read] ∧ r = -1) := by
  induction fuel generalizing nleft buf s with
  | zero =>
    cases h with
    | ret x => exact ⟨[], (List.append_nil _).symm, rfl, Nat.zero_le _, Or.inl ⟨rfl, rfl⟩⟩
  | succ fuel ih =>
    unfold recvLoop at h
    split at h
    · cases h with
      | ret x => exact ⟨[], (List.append_nil _).symm, rfl, Nat.zero_le _, Or.inl ⟨rfl, rfl⟩⟩
    · cases h with
      | read xs hne hle h =>
        rcases xs with _ | ⟨x, xs⟩
        · exact absurd rfl hne
        dsimp only at h
        simp only [List.length_cons] at hle h
        obtain ⟨ys, rfl, rfl, hys, hr⟩ := ih (by omega) h
        refine ⟨x :: xs ++ ys, (List.append_assoc _ _ _), ?_, ?_, hr⟩
        · rw [inns, inns, inns, ← List.map_append]
        · simp only [List.length_append, List.length_cons]; omega
      | eof h =>
        cases h with
        | ret x => exact ⟨[], (List.append_nil _).symm, rfl, Nat.zero_le _, Or.inl ⟨rfl, rfl⟩⟩
      | readFails h =>
        cases h with
        | ret x => exact ⟨[], (List.append_nil _).symm, rfl, Nat.zero_le _, Or.inr ⟨rfl, rfl⟩⟩

/-- What `probdata_ctrl_chan_recv_Nbytes` can do: it reads at most `count`
bytes, and a stream that ends before them is not told from a failure-free one
by the sign of its value. -/
theorem exec_recvNbytes {t : Item} {count : ℕ} {bs : List UInt8} {s : List (Op Item Act)}
    {fs : List Fault} {r : ℤ} (h : Exec (recvNbytes t count) s fs (r, bs)) :
    s = inns t bs ∧ bs.length ≤ count ∧
      (fs = [] ∧ r = bs.length ∨ fs = [.read] ∧ r = -1) := by
  obtain ⟨xs, rfl, hs, hle, hr⟩ := exec_recvLoop (Nat.le_refl _) h
  exact ⟨hs, hle, hr⟩

theorem exec_sendLoop {t : Item} {count : ℤ} {fuel : ℕ} {bs : List UInt8}
    {s : List (Op Item Act)} {fs : List Fault} {r : ℤ} (hf : bs.length ≤ fuel)
    (h : Exec (sendLoop t count fuel bs) s fs r) :
    ∃ j, s = outs t (bs.take j) ∧
      (fs = [] ∧ bs.length ≤ j ∧ r = count ∨ fs = [.write] ∧ r = -1) := by
  induction fuel generalizing bs s with
  | zero =>
    cases h with
    | ret x => exact ⟨0, rfl, Or.inl ⟨rfl, hf, rfl⟩⟩
  | succ fuel ih =>
    unfold sendLoop at h
    split at h
    · rename_i h0
      cases h with
      | ret x => exact ⟨0, rfl, Or.inl ⟨rfl, by simp [h0], rfl⟩⟩
    · cases h with
      | write r h0 hr h =>
        obtain ⟨r, rfl⟩ : ∃ r', r = r' + 1 := ⟨r - 1, by omega⟩
        dsimp only at h
        obtain ⟨j, rfl, hj⟩ := ih (by simp only [List.length_drop]; omega) h
        refine ⟨r + 1 + j, ?_, ?_⟩
        · rw [outs, outs, outs, ← List.map_append, ← List.take_add]
        · rcases hj with ⟨h1, h2, h3⟩ | h'
          · simp only [List.length_drop] at h2
            exact Or.inl ⟨h1, by omega, h3⟩
          · exact Or.inr h'
      | writeFails h =>
        cases h with
        | ret x => exact ⟨0, rfl, Or.inr ⟨rfl, rfl⟩⟩

theorem exec_sendNbytes {t : Item} {bs : List UInt8} {s : List (Op Item Act)} {fs : List Fault}
    {r : ℤ} (h : Exec (sendNbytes t bs) s fs r) : ∃ j, s = outs t (bs.take j) ∧
      (fs = [] ∧ bs.length ≤ j ∧ r = bs.length ∨ fs = [.write] ∧ r = -1) :=
  exec_sendLoop (Nat.le_refl _) h

/-! ### Status packets -/

theorem Status.ofCode_code (s : Status) (h : ∀ b, s ≠ .other b) : ofCode s.code = s := by
  cases s with
  | other b => exact absurd rfl (h b)
  | _ => rfl

theorem Status.code_ite {b n : UInt8} {s t : Status} (hs : s.code = n) (ht : t.code = b) :
    (if b = n then s else t).code = b := by
  by_cases h : b = n
  · rw [if_pos h, hs, h]
  · rw [if_neg h, ht]

/-- A byte is the code of its status. -/
theorem Status.code_ofCode (b : UInt8) : (ofCode b).code = b := by
  unfold ofCode
  iterate 13 refine code_ite rfl ?_
  rfl

/-- `probdata_ctrl_chan_send_ctrl_packet` -/
def sendCtrlPacket (st : Status) : Prog Item Act ℤ := do
  let r ← sendNbytes .status [st.code]
  return if r < 0 then -1 else 0

theorem does_sendCtrlPacket (st : Status) :
    Does (sendCtrlPacket st : Prog Item Act _) (outs .status [st.code]) 0 :=
  (does_sendNbytes .status [st.code]).bind_ret rfl

end Session
end Probdata
