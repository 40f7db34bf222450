/-
# The exchange of the control parameters

Both sides send a `probdata_ctrlmsg` of eight bytes, the client first, and each
takes the smaller of the two buffer sizes. A connection that ends part-way is
no error of `probdata_ctrl_chan_recv_Nbytes`: the bytes it got stay in the local
struct, over what was there, and the exchange goes on with them. So the exchange
is settled in the way it should be only if the message is complete, or if a
call fails before anything is taken from it (`exchange_settled_iff`).
-/
import Mathlib.Data.Int.Order.Basic
import Mathlib.Order.MinMax
import Probdata.Session.Prob

namespace Probdata
namespace Session

open Wire Bytes

/-- `struct probdata_ctrlmsg` -/
structure Ctrlmsg where
  doUdtOnly : BitVec 32
  hostMaxBuf : BitVec 32
  deriving DecidableEq, Repr

namespace Ctrlmsg

def size : ℕ := 8

def bytes (m : Ctrlmsg) : List UInt8 := le32 m.doUdtOnly ++ le32 m.hostMaxBuf

def ofBytes (bs : List UInt8) : Ctrlmsg := ⟨ofLe32 bs, ofLe32 (bs.drop 4)⟩

@[simp] theorem bytes_length (m : Ctrlmsg) : m.bytes.length = size := rfl

theorem ofBytes_bytes (m : Ctrlmsg) : ofBytes m.bytes = m := by
  have h1 : ofLe32 m.bytes = m.doUdtOnly := ofLe32_append _ _
  have h2 : ofLe32 (m.bytes.drop 4) = m.hostMaxBuf := ofLe32_le32 _
  rw [ofBytes, h1, h2]

end Ctrlmsg

/-- `(data.host_max_buf > prob->host_max_buf) ? prob->host_max_buf : data.host_max_buf` -/
def takeBuf (data mine : BitVec 32) : BitVec 32 := if mine.slt data then mine else data

/-- `probdata_ctrl_chan_ctrlmsg_exchange_cli` -/
def ctrlmsgExchangeCli (p : Prob) : Prog Item Act (ℤ × Prob) := do
  let data : Ctrlmsg := ⟨p.doUdtOnly, p.controlHostMaxBuf⟩
  let ret ← sendNbytes .ctrlmsg data.bytes
  if ret < 0 then return (-1, p)
  else
    let (ret, bs) ← recvNbytes .ctrlmsg Ctrlmsg.size
    if ret < 0 then return (-1, p)
    else
      let data := Ctrlmsg.ofBytes (overlay bs data.bytes)
      let hostMaxBuf := takeBuf data.hostMaxBuf p.hostMaxBuf
      return (0, { p with hostMaxBuf := hostMaxBuf, controlHostMaxBuf := hostMaxBuf })

/-- What the server takes from a message. -/
def Prob.accept (p : Prob) (data : Ctrlmsg) : Prob :=
  { p with
    doUdtOnly := data.doUdtOnly
    hostMaxBuf := takeBuf data.hostMaxBuf p.hostMaxBuf
    controlHostMaxBuf := takeBuf data.hostMaxBuf p.hostMaxBuf }

/-- `probdata_ctrl_chan_ctrlmsg_exchange_srv`, with what the local struct held. -/
def ctrlmsgExchangeSrv (data : Ctrlmsg) (p : Prob) : Prog Item Act (ℤ × Prob) := do
  let (ret, bs) ← recvNbytes .ctrlmsg Ctrlmsg.size
  if ret < 0 then return (-1, p)
  else
    let data := Ctrlmsg.ofBytes (overlay bs data.bytes)
    let p := p.accept data
    let data := { data with hostMaxBuf := p.hostMaxBuf }
    let ret ← sendNbytes .ctrlmsg data.bytes
    if ret < 0 then return (-1, p) else return (0, p)

/-- `probdata_ctrl_chan_ctrlmsg_exchange` -/
def ctrlmsgExchange (data : Ctrlmsg) (p : Prob) : Prog Item Act (ℤ × Prob) :=
  match p.role with
  | .client => ctrlmsgExchangeCli p
  | .server => ctrlmsgExchangeSrv data p
  | .unknown => .ret (0, p)

/-! ### Without failures -/

/-- The client's message. -/
def Prob.offer (p : Prob) : Ctrlmsg := ⟨p.doUdtOnly, p.controlHostMaxBuf⟩

/-- The server's answer. -/
def Prob.answer (p : Prob) (m : Ctrlmsg) : Ctrlmsg := ⟨m.doUdtOnly, (p.accept m).hostMaxBuf⟩

/-- What the client takes from the answer. -/
def Prob.agree (p : Prob) (m : Ctrlmsg) : Prob :=
  { p with
    hostMaxBuf := takeBuf m.hostMaxBuf p.hostMaxBuf
    controlHostMaxBuf := takeBuf m.hostMaxBuf p.hostMaxBuf }

theorem overlay_of_length_le {bs a : List UInt8} (h : a.length ≤ bs.length) :
    overlay bs a = bs := by
  rw [overlay, List.drop_eq_nil_of_le h, List.append_nil]

theorem does_ctrlmsgExchangeCli (p : Prob) (m : Ctrlmsg) :
    Does (ctrlmsgExchangeCli p) (outs .ctrlmsg p.offer.bytes ++ inns .ctrlmsg m.bytes)
      (0, p.agree m) := by
  refine (does_sendNbytes .ctrlmsg p.offer.bytes).bind ?_
  rw [if_neg (by omega)]
  refine (does_recvNbytes .ctrlmsg m.bytes).bind_ret ?_
  dsimp only
  rw [if_neg (by omega), overlay_of_length_le (by simp), Ctrlmsg.ofBytes_bytes]
  rfl

theorem does_ctrlmsgExchangeSrv (data : Ctrlmsg) (p : Prob) (m : Ctrlmsg) :
    Does (ctrlmsgExchangeSrv data p) (inns .ctrlmsg m.bytes ++ outs .ctrlmsg (p.answer m).bytes)
      (0, p.accept m) := by
  refine (does_recvNbytes .ctrlmsg m.bytes).bind ?_
  dsimp only
  rw [if_neg (by omega), overlay_of_length_le (by simp), Ctrlmsg.ofBytes_bytes]
  exact (does_sendNbytes .ctrlmsg (p.answer m).bytes).bind_ret rfl

/-! ### With failures, and an end of the connection -/

/-- What the bytes received of a message make of the local struct. -/
def merged (bs : List UInt8) (data : Ctrlmsg) : Ctrlmsg := Ctrlmsg.ofBytes (overlay bs data.bytes)

theorem merged_bytes (m data : Ctrlmsg) : merged m.bytes data = m := by
  rw [merged, overlay_of_length_le (by simp), Ctrlmsg.ofBytes_bytes]

/-- An exchange on the client's side. -/
theorem exec_ctrlmsgExchangeCli {p : Prob} {s : List (Op Item Act)} {fs : List Fault}
    {x : ℤ × Prob} (h : Exec (ctrlmsgExchangeCli p) s fs x) :
    fs ≠ [] ∧ x = (-1, p) ∨ fs = [] ∧ x = (0, p.agree (merged (received s) p.offer)) := by
  obtain ⟨s1, s2, fs1, fs2, r1, rfl, rfl, h1, h2⟩ := Exec.bind_inv h
  obtain ⟨j, rfl, hj⟩ := exec_sendNbytes h1
  rcases hj with ⟨rfl, -, rfl⟩ | ⟨rfl, rfl⟩
  · rw [if_neg (by omega)] at h2
    obtain ⟨s3, s4, fs3, fs4, ⟨r2, bs⟩, rfl, rfl, h3, h4⟩ := Exec.bind_inv h2
    obtain ⟨rfl, hle, hr⟩ := exec_recvNbytes h3
    dsimp only at h4
    rcases hr with ⟨rfl, rfl⟩ | ⟨rfl, rfl⟩
    · rw [if_neg (by omega)] at h4
      cases h4 with
      | ret _ =>
        right
        simp only [received_append, received_outs, received_inns, List.nil_append, List.append_nil]
        exact ⟨trivial, rfl⟩
    · rw [if_pos (by omega)] at h4
      cases h4 with
      | ret _ => exact Or.inl ⟨by simp, rfl⟩
  · rw [if_pos (by omega)] at h2
    cases h2 with
    | ret _ => exact Or.inl ⟨by simp, rfl⟩

/-- An exchange on the server's side: a write that fails comes after the message
has been taken. -/
theorem exec_ctrlmsgExchangeSrv {data : Ctrlmsg} {p : Prob} {s : List (Op Item Act)}
    {fs : List Fault} {x : ℤ × Prob} (h : Exec (ctrlmsgExchangeSrv data p) s fs x) :
    fs = [.read] ∧ x = (-1, p) ∨
      fs = [.write] ∧ x = (-1, p.accept (merged (received s) data)) ∨
      fs = [] ∧ x = (0, p.accept (merged (received s) data)) := by
  obtain ⟨s1, s2, fs1, fs2, ⟨r1, bs⟩, rfl, rfl, h1, h2⟩ := Exec.bind_inv h
  obtain ⟨rfl, hle, hr⟩ := exec_recvNbytes h1
  dsimp only at h2
  rcases hr with ⟨rfl, rfl⟩ | ⟨rfl, rfl⟩
  · rw [if_neg (by omega)] at h2
    obtain ⟨s3, s4, fs3, fs4, r2, rfl, rfl, h3, h4⟩ := Exec.bind_inv h2
    obtain ⟨j, rfl, hj⟩ := exec_sendNbytes h3
    rcases hj with ⟨rfl, -, rfl⟩ | ⟨rfl, rfl⟩
    · rw [if_neg (by omega)] at h4
      cases h4 with
      | ret _ =>
        right; right
        simp only [received_append, received_outs, received_inns, List.append_nil]
        exact ⟨trivial, rfl⟩
    · rw [if_pos (by omega)] at h4
      cases h4 with
      | ret _ =>
        right; left
        simp only [received_append, received_outs, received_inns, List.append_nil]
        exact ⟨rfl, rfl⟩
  · rw [if_pos (by omega)] at h2
    cases h2 with
    | ret _ => exact Or.inl ⟨rfl, rfl⟩

/-! ### What the exchange is for -/

theorem takeBuf_toInt (data mine : BitVec 32) :
    (takeBuf data mine).toInt = min data.toInt mine.toInt := by
  unfold takeBuf
  rw [BitVec.slt_eq_decide]
  split
  · rename_i h
    rw [min_eq_right (le_of_lt (by simpa using h))]
  · rename_i h
    rw [min_eq_left (not_lt.mp (by simpa using h))]

theorem takeBuf_eq_right_iff (data mine : BitVec 32) :
    takeBuf data mine = mine ↔ mine.toInt ≤ data.toInt := by
  rw [← BitVec.toInt_inj, takeBuf_toInt, min_eq_right_iff]

/-- A side that started as `p` has received `bytes` and ended with `x`: if it
succeeded, its peer's message was complete, the buffer size is the smaller one
of the client `c` and the server `s`, and it knows the client's choice; else
nothing has changed. -/
def Settles (c s p : Prob) (complete : Prop) (x : ℤ × Prob) : Prop :=
  (x.1 = 0 → complete ∧
    x.2.hostMaxBuf.toInt = min c.hostMaxBuf.toInt s.hostMaxBuf.toInt ∧
    x.2.controlHostMaxBuf = x.2.hostMaxBuf ∧ x.2.doUdtOnly = c.doUdtOnly) ∧
  (x.1 ≠ 0 → x.1 = -1 ∧ x.2.hostMaxBuf = p.hostMaxBuf ∧
    x.2.controlHostMaxBuf = p.controlHostMaxBuf ∧ x.2.doUdtOnly = p.doUdtOnly)

theorem settles_fail {c s p : Prob} {complete : Prop} : Settles c s p complete (-1, p) :=
  ⟨fun h => absurd h (show (-1 : ℤ) ≠ 0 by decide), fun _ => ⟨rfl, rfl, rfl, rfl⟩⟩

/-- What has been received leaves the server's parameters as they were. -/
def Harmless (s : Prob) (m : Ctrlmsg) : Prop :=
  m.doUdtOnly = s.doUdtOnly ∧ s.hostMaxBuf.toInt ≤ m.hostMaxBuf.toInt

theorem settles_accept_fail_iff {c s : Prob} {complete : Prop} {m : Ctrlmsg}
    (hs : s.controlHostMaxBuf = s.hostMaxBuf) :
    Settles c s s complete (-1, s.accept m) ↔ Harmless s m := by
  have h1 : (s.accept m).hostMaxBuf = s.hostMaxBuf ↔ s.hostMaxBuf.toInt ≤ m.hostMaxBuf.toInt :=
    takeBuf_eq_right_iff _ _
  constructor
  · rintro ⟨-, h⟩
    obtain ⟨-, h2, -, h4⟩ := h (show (-1 : ℤ) ≠ 0 by decide)
    exact ⟨h4, h1.mp h2⟩
  · rintro ⟨h4, h2⟩
    refine ⟨fun h => absurd h (show (-1 : ℤ) ≠ 0 by decide), fun _ => ⟨rfl, h1.mpr h2, ?_, h4⟩⟩
    rw [hs]
    exact h1.mpr h2

/-- An exchange settles the parameters exactly if, on the client's side, the
answer is complete or a call failed; on the server's side, the message is
complete and could be answered, or reading failed, or what was taken before the
answer failed leaves everything as it was. -/
theorem exchange_settles_iff (c s : Prob) (hc : c.role = .client) (hs : s.role = .server)
    (hc' : c.controlHostMaxBuf = c.hostMaxBuf) (hs' : s.controlHostMaxBuf = s.hostMaxBuf)
    (data : Ctrlmsg) (ops : List (Op Item Act)) (fs : List Fault) (x : ℤ × Prob) :
    (Exec (ctrlmsgExchange data c) ops fs x →
      (Settles c s c (received ops = (s.answer c.offer).bytes) x ↔
        fs ≠ [] ∨ received ops = (s.answer c.offer).bytes)) ∧
    (Exec (ctrlmsgExchange data s) ops fs x →
      (Settles c s s (received ops = c.offer.bytes) x ↔
        fs = [.read] ∨ fs = [] ∧ received ops = c.offer.bytes ∨
          fs = [.write] ∧ Harmless s (merged (received ops) data))) := by
  have hmin : (takeBuf c.controlHostMaxBuf s.hostMaxBuf).toInt =
      min c.hostMaxBuf.toInt s.hostMaxBuf.toInt := by
    rw [takeBuf_toInt, hc']
  constructor
  · intro h
    rw [ctrlmsgExchange, hc] at h
    rcases exec_ctrlmsgExchangeCli h with ⟨hf, rfl⟩ | ⟨rfl, rfl⟩
    · exact ⟨fun _ => Or.inl hf, fun _ => settles_fail⟩
    constructor
    · rintro ⟨h0, -⟩
      exact Or.inr (h0 rfl).1
    · rintro (hf | hbs)
      · exact absurd rfl hf
      · rw [hbs, merged_bytes]
        refine ⟨fun _ => ⟨rfl, ?_, rfl, rfl⟩, fun h0 => absurd rfl h0⟩
        show (takeBuf (takeBuf c.controlHostMaxBuf s.hostMaxBuf) c.hostMaxBuf).toInt = _
        rw [takeBuf_toInt, hmin, min_eq_left (min_le_left _ _)]
  · intro h
    rw [ctrlmsgExchange, hs] at h
    rcases exec_ctrlmsgExchangeSrv h with ⟨rfl, rfl⟩ | ⟨rfl, rfl⟩ | ⟨rfl, rfl⟩
    · exact ⟨fun _ => Or.inl rfl, fun _ => settles_fail⟩
    · rw [settles_accept_fail_iff hs']
      simp
    constructor
    · rintro ⟨h0, -⟩
      exact Or.inr (Or.inl ⟨rfl, (h0 rfl).1⟩)
    · intro hcase
      have hbs : received ops = c.offer.bytes := by simpa using hcase
      rw [hbs, merged_bytes]
      exact ⟨fun _ => ⟨rfl, hmin, rfl, rfl⟩, fun h0 => absurd rfl h0⟩

/-! ### Two configurations -/

/-- A side as it is before the exchange, where the system limits its buffers. -/
def plainProb (role : Role) (buf : BitVec 32) : Prob :=
  setControl (getMaxBuf buf { newAndDefault .programStart 0 [] with role := role })

/-- Both sides of an exchange in which every call transfers all of its bytes. -/
theorem exchange_settles_iff_plain :
    (∃ ops x, Exec (ctrlmsgExchange ⟨0, 0⟩ (plainProb .client 100)) ops [] x ∧
      Settles (plainProb .client 100) (plainProb .server 50) (plainProb .client 100)
        (received ops = (⟨-1, 50⟩ : Ctrlmsg).bytes) x) ∧
    ∃ ops x, Exec (ctrlmsgExchange ⟨0, 0⟩ (plainProb .server 50)) ops [] x ∧
      Settles (plainProb .client 100) (plainProb .server 50) (plainProb .server 50)
        (received ops = (⟨-1, 100⟩ : Ctrlmsg).bytes) x := by
  have hcli := (does_ctrlmsgExchangeCli (plainProb .client 100) ⟨-1, 50⟩).exec
  have hsrv := (does_ctrlmsgExchangeSrv ⟨0, 0⟩ (plainProb .server 50) ⟨-1, 100⟩).exec
  have h := exchange_settles_iff (plainProb .client 100) (plainProb .server 50) rfl rfl rfl rfl
    ⟨0, 0⟩
  exact ⟨⟨_, _, hcli, ((h _ _ _).1 hcli).mpr (Or.inr (by decide))⟩,
    ⟨_, _, hsrv, ((h _ _ _).2 hsrv).mpr (Or.inr (Or.inl ⟨rfl, by decide⟩))⟩⟩

/-- A server whose client closes the connection before it sends its message goes
on with what its memory held. -/
theorem exec_ctrlmsgExchangeSrv_closed (data : Ctrlmsg) (p : Prob) :
    Exec (ctrlmsgExchangeSrv data p) (outs .ctrlmsg (p.answer data).bytes) []
      (0, p.accept data) := by
  have hnone : Exec (recvNbytes .ctrlmsg Ctrlmsg.size : Prog Item Act _) [] [] (0, []) :=
    .eof (.ret _)
  have hsend : Exec (sendNbytes .ctrlmsg (p.answer data).bytes : Prog Item Act _) _ _ _ :=
    (does_sendNbytes .ctrlmsg (p.answer data).bytes).exec
  have hmerged : Ctrlmsg.ofBytes (overlay [] data.bytes) = data := Ctrlmsg.ofBytes_bytes data
  rw [← List.nil_append (outs _ _), ← List.append_nil (outs _ _)]
  show Exec _ _ ([] ++ ([] ++ [])) _
  refine hnone.bind ?_
  dsimp only
  rw [if_neg (by omega), hmerged]
  refine hsend.bind ?_
  rw [if_neg (by omega)]
  exact .ret _

/-- The client closes the connection at once: the server's exchange succeeds,
with the buffer size that was in its memory. -/
theorem not_settles_closed :
    ∃ ops x, Exec (ctrlmsgExchange ⟨0, 0⟩ (plainProb .server 50)) ops [] x ∧ received ops = [] ∧
      x.1 = 0 ∧ x.2.hostMaxBuf = 0 ∧
      ¬ Settles (plainProb .client 100) (plainProb .server 50) (plainProb .server 50)
        (received ops = (⟨-1, 100⟩ : Ctrlmsg).bytes) x :=
  ⟨_, _, exec_ctrlmsgExchangeSrv_closed ⟨0, 0⟩ (plainProb .server 50), rfl, rfl, rfl,
    fun h => by cases (h.1 rfl).1⟩

end Session
end Probdata
