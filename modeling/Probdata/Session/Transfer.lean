/-
# Messages over the control channel

A sequence of `probdata_ctrl_chan_send_Nbytes` at one end of the channel, and of
`probdata_ctrl_chan_recv_Nbytes` with the same counts at the other, whatever the
kernel makes of each `write` and `read`. The messages arrive as they were sent.
But `probdata_ctrl_chan_send_Nbytes` also returns its count where a `write` has
accepted nothing (`run_transfers_iff`); `probdata_ctrl_chan_recv_Nbytes` returns
what it has stored.
-/
import Mathlib.Algebra.GroupWithZero.Nat
import Probdata.Lib.Wire.Channel
import Probdata.Session.Control

namespace Probdata
namespace Session

open Wire

/-- A call that has returned: its count, its value, and the bytes it has stored. -/
inductive Returned
  | sent (count : ℕ) (r : ℤ)
  | received (count : ℕ) (r : ℤ) (buf : List UInt8)
  deriving DecidableEq, Repr

variable (t : Item)

/-- Sends the messages, up to the first call that returns -1. -/
def sendAll : List (List UInt8) → Prog Item Returned Unit
  | [] => .ret ()
  | m :: ms => (sendNbytes t m).bind fun r =>
    .act (.sent m.length r) (if r < 0 then .ret () else sendAll ms)

/-- Receives messages of the lengths given, up to the first call that returns -1. -/
def recvAll : List ℕ → Prog Item Returned Unit
  | [] => .ret ()
  | n :: ns => (recvNbytes t n).bind fun x =>
    .act (.received n x.1 x.2) (if x.1 < 0 then .ret () else recvAll ns)

/-- The two ends before any call. -/
def transfer (ms : List (List UInt8)) : Channel Item Returned :=
  .start (sendAll t ms) (recvAll t (ms.map List.length))

/-- A `send` that returned its count has had all its bytes accepted. -/
def Honest (log : List (List UInt8 × Returned)) : Prop :=
  ∀ bs (count : ℕ) (r : ℤ), (bs, .sent count r) ∈ log → r = count → bs.length = count

/-- What is promised of the messages `ms` after the choices `cs` of the kernel. -/
structure Transfers (ms : List (List UInt8)) (cs : List Choice) (σ : Channel Item Returned) :
    Prop where
  sent : Honest σ.sender.log
  /-- A `recv` returns the number of bytes it has stored, or -1 if a `read` failed. -/
  received : ∀ bs (count : ℕ) (r : ℤ) buf, (bs, .received count r buf) ∈ σ.receiver.log →
    buf = bs ∧ (r = bs.length ∨ r = -1 ∧ .read none ∈ cs)
  /-- No `recv` reads beyond its message. -/
  intact : ∀ (i : ℕ) bs, σ.receiver.chunks[i]? = some bs → ∃ m, ms[i]? = some m ∧ bs <+: m
  /-- The messages arrive whole and in order. -/
  inOrder : .write none ∉ cs → .read none ∉ cs → σ.receiver.chunks <+: ms
  all : .write none ∉ cs → .read none ∉ cs → σ.finished = true → σ.receiver.chunks = ms
  /-- The loops end: each call transfers a byte, or is the last one of its loop. -/
  ends : cs.length ≤ 2 * ms.flatten.length
  /-- Until both have finished there is a call that does not fail. -/
  goesOn : σ.finished = false →
    ∃ r τ, σ.step (.write (some (r + 1))) = some τ ∨ σ.step (.read (some r)) = some τ

/-! ### The loops up to a call -/

variable {t} {r : ℤ}

theorem sendLoop_write {c : ℤ} {fuel : ℕ} {bs : List UInt8} (hne : bs ≠ [])
    (hf : bs.length ≤ fuel) : ∃ fuel' k,
      (sendLoop t c fuel bs : Prog Item Returned ℤ) = .write t bs k ∧ bs.length ≤ fuel' + 1 ∧
      k none = .ret (-1) ∧ k (some 0) = .ret c ∧
      ∀ r, k (some (r + 1)) = sendLoop t c fuel' (bs.drop (r + 1)) := by
  cases fuel with
  | zero => exact absurd (List.length_eq_zero_iff.mp (Nat.le_zero.mp hf)) hne
  | succ fuel =>
    rw [sendLoop, if_neg hne]
    exact ⟨fuel, _, rfl, hf, rfl, rfl, fun r => rfl⟩

theorem sendLoop_nil {c : ℤ} (fuel : ℕ) :
    (sendLoop t c fuel [] : Prog Item Returned ℤ) = .ret c := by
  cases fuel with
  | zero => rfl
  | succ fuel => rw [sendLoop, if_pos rfl]

theorem recvLoop_read {fuel nleft : ℕ} (buf : List UInt8) (hne : nleft ≠ 0) (hf : nleft ≤ fuel) :
    ∃ fuel' k, (recvLoop t fuel nleft buf : Prog Item Returned _) = .read t nleft k ∧
      nleft ≤ fuel' + 1 ∧ k none = .ret (-1, buf) ∧ k (some []) = .ret ((buf.length : ℤ), buf) ∧
      ∀ bs, bs ≠ [] → k (some bs) = recvLoop t fuel' (nleft - bs.length) (buf ++ bs) := by
  cases fuel with
  | zero => exact absurd (Nat.le_zero.mp hf) hne
  | succ fuel =>
    rw [recvLoop, if_neg hne]
    refine ⟨fuel, _, rfl, hf, rfl, rfl, fun bs hbs => ?_⟩
    cases bs with
    | nil => exact absurd rfl hbs
    | cons b bs => rfl

theorem recvLoop_zero (fuel : ℕ) (buf : List UInt8) :
    (recvLoop t fuel 0 buf : Prog Item Returned _) = .ret ((buf.length : ℤ), buf) := by
  cases fuel with
  | zero => rfl
  | succ fuel => rw [recvLoop, if_pos rfl]

/-- More iterations than there are bytes change nothing. -/
theorem sendLoop_of_le {c : ℤ} {fuel : ℕ} {bs : List UInt8} (hf : bs.length ≤ fuel) :
    (sendLoop t c fuel bs : Prog Item Returned ℤ) = sendLoop t c bs.length bs := by
  generalize hn : bs.length = n at hf ⊢
  induction n using Nat.strong_induction_on generalizing fuel bs with
  | _ n ih =>
    by_cases hne : bs = []
    · subst hne
      subst hn
      rw [sendLoop_nil, sendLoop_nil]
    · have hpos : 0 < n := hn ▸ List.length_pos_iff.mpr hne
      obtain ⟨fuel, rfl⟩ : ∃ m, fuel = m + 1 := ⟨fuel - 1, by omega⟩
      obtain ⟨n, rfl⟩ : ∃ m, n = m + 1 := ⟨n - 1, by omega⟩
      rw [sendLoop, sendLoop, if_neg hne, if_neg hne]
      congr 1
      funext r
      rcases r with _ | _ | r
      · rfl
      · rfl
      · have hlen : (bs.drop (r + 1)).length = n - r := by rw [List.length_drop]; omega
        exact (ih (n - r) (by omega) hlen (by omega)).trans
          (ih (n - r) (by omega) hlen (by omega)).symm

/-- More iterations than there are bytes to read change nothing. -/
theorem recvLoop_of_le {fuel nleft : ℕ} {buf : List UInt8} (hf : nleft ≤ fuel) :
    (recvLoop t fuel nleft buf : Prog Item Returned _) = recvLoop t nleft nleft buf := by
  induction nleft using Nat.strong_induction_on generalizing fuel buf with
  | _ nleft ih =>
    by_cases h0 : nleft = 0
    · subst h0
      rw [recvLoop_zero, recvLoop_zero]
    · obtain ⟨fuel, rfl⟩ : ∃ m, fuel = m + 1 := ⟨fuel - 1, by omega⟩
      obtain ⟨n, rfl⟩ : ∃ m, nleft = m + 1 := ⟨nleft - 1, by omega⟩
      rw [recvLoop, recvLoop, if_neg h0, if_neg h0]
      congr 1
      funext r
      rcases r with _ | _ | ⟨b, bs⟩
      · rfl
      · rfl
      · have hlt : n + 1 - (b :: bs).length < n + 1 := by rw [List.length_cons]; omega
        have hle : n + 1 - (b :: bs).length ≤ n := by rw [List.length_cons]; omega
        exact (ih _ hlt (by omega)).trans (ih _ hlt hle).symm

/-! ### The sender -/

def writes (cs : List Choice) : ℕ := cs.countP fun c => c matches .write _

def reads (cs : List Choice) : ℕ := cs.countP fun c => c matches .read _

/-- What follows a `send` of the sender. -/
def afterSend (t : Item) (count : ℕ) (todo : List (List UInt8)) (r : ℤ) :
    Prog Item Returned Unit :=
  .act (.sent count r) (if r < 0 then .ret () else sendAll t todo)

/-- The sender in a run: in a call with `rest` to go, or at its end. -/
inductive Sending (t : Item) (ms : List (List UInt8)) (cs : List Choice)
    (p : Party Item Returned) : Prop
  | busy (sent : List (List UInt8)) (m rest : List UInt8) (todo : List (List UInt8)) (fuel : ℕ)
      (hms : ms = sent ++ m :: todo) (hm : m = p.moved ++ rest) (hne : rest ≠ [])
      (hf : rest.length ≤ fuel)
      (hp : p.prog = (sendLoop t m.length fuel rest).bind (afterSend t m.length todo))
      (hl : Honest p.log ↔ .write (some 0) ∉ cs) (hc : Honest p.log → p.chunks = sent)
      (hw : writes cs + rest.length + todo.flatten.length ≤ ms.flatten.length)
  | done (hp : p.prog = .ret ()) (hm : p.moved = []) (hl : Honest p.log ↔ .write (some 0) ∉ cs)
      (hc : Honest p.log → p.chunks.flatten <+: ms.flatten ∧ (.write none ∉ cs → p.chunks = ms))
      (hw : writes cs ≤ ms.flatten.length)

theorem honest_snoc {log : List (List UInt8 × Returned)} {bs : List UInt8} {count : ℕ} {r : ℤ} :
    Honest (log ++ [(bs, .sent count r)]) ↔ Honest log ∧ (r = count → bs.length = count) := by
  constructor
  · intro h
    exact ⟨fun bs count r hmem => h bs count r (List.mem_append_left _ hmem),
      h bs count r (by simp)⟩
  · rintro ⟨h, hlast⟩ bs' count' r' hmem
    rcases List.mem_append.mp hmem with hmem | hmem
    · exact h bs' count' r' hmem
    · cases List.mem_singleton.mp hmem
      exact hlast

/-- A call that has returned, and the calls that follow it. -/
theorem settle_afterSend {count : ℕ} (hr : (0 : ℤ) ≤ r) (todo : List (List UInt8))
    (moved : List UInt8) (log : List (List UInt8 × Returned)) :
    (afterSend t count todo r).settle moved log =
      (sendAll t todo).settle [] (log ++ [(moved, .sent count r)]) := by
  rw [afterSend, if_neg (Int.not_lt.mpr hr)]
  rfl

/-- A call that goes on. -/
theorem settle_sendLoop {c : ℤ} {fuel : ℕ} {rest : List UInt8} (hne : rest ≠ [])
    (hf : rest.length ≤ fuel) (f : ℤ → Prog Item Returned Unit) (moved : List UInt8)
    (log : List (List UInt8 × Returned)) :
    ((sendLoop t c fuel rest).bind f).settle moved log =
      ⟨(sendLoop t c fuel rest).bind f, moved, log⟩ := by
  obtain ⟨fuel', k, hwrite, -⟩ := sendLoop_write (t := t) (c := c) hne hf
  rw [hwrite]
  rfl

/-- The sender between two calls. -/
theorem sending_settle {ms sent todo : List (List UInt8)} {cs : List Choice}
    {log : List (List UInt8 × Returned)} (hms : ms = sent ++ todo)
    (hl : Honest log ↔ .write (some 0) ∉ cs) (hc : Honest log → log.map Prod.fst = sent)
    (hw : writes cs + todo.flatten.length ≤ ms.flatten.length) :
    Sending t ms cs ((sendAll t todo).settle [] log) := by
  induction todo generalizing sent log with
  | nil =>
    rw [List.append_nil] at hms
    subst hms
    refine .done rfl rfl hl (fun h => ?_) (by simpa using hw)
    have hchunks := hc h
    exact ⟨by rw [← hchunks]; exact List.prefix_rfl, fun _ => hchunks⟩
  | cons m todo ih =>
    have hcons : sendAll t (m :: todo) =
        (sendLoop t m.length m.length m).bind (afterSend t m.length todo) := rfl
    rw [hcons]
    by_cases hm : m = []
    · subst hm
      rw [sendLoop_nil, Prog.ret_bind, settle_afterSend (Int.natCast_nonneg _)]
      have hsnoc : Honest (log ++ [([], .sent 0 0)]) ↔ Honest log := by
        rw [honest_snoc]
        exact and_iff_left fun _ => rfl
      refine ih (show ms = (sent ++ [[]]) ++ todo by rw [hms, List.append_assoc]; rfl) (hsnoc.trans hl)
        (fun h => ?_) (by simpa using hw)
      rw [List.map_append, hc (hsnoc.mp h)]
      rfl
    · rw [settle_sendLoop hm le_rfl]
      exact .busy sent m m todo m.length hms rfl hm le_rfl rfl hl hc
        (by simpa [Nat.add_assoc] using hw)

section

variable {ms : List (List UInt8)} {cs : List Choice} {p : Party Item Returned}

theorem writes_snoc (cs : List Choice) (r : Option ℕ) :
    writes (cs ++ [.write r]) = writes cs + 1 := by
  simp [writes]

/-- A call that has had all bytes of its message accepted. -/
theorem sending_sent {sent todo : List (List UInt8)} {m : List UInt8}
    {log : List (List UInt8 × Returned)} (hms : ms = sent ++ m :: todo)
    (hl : Honest log ↔ .write (some 0) ∉ cs) (hc : Honest log → log.map Prod.fst = sent)
    (hw : writes cs + todo.flatten.length ≤ ms.flatten.length) :
    Sending t ms cs ((afterSend t m.length todo m.length).settle m log) := by
  have hsnoc : Honest (log ++ [(m, .sent m.length m.length)]) ↔ Honest log := by
    rw [honest_snoc]
    exact and_iff_left fun _ => rfl
  rw [settle_afterSend (Int.natCast_nonneg _)]
  refine sending_settle (show ms = (sent ++ [m]) ++ todo by rw [hms, List.append_assoc]; rfl)
    (hsnoc.trans hl) (fun h => ?_) hw
  rw [List.map_append, hc (hsnoc.mp h)]
  rfl

/-- A call that has returned its count with fewer bytes accepted. -/
theorem sending_short {sent todo : List (List UInt8)} {m moved : List UInt8}
    {log : List (List UInt8 × Returned)} (hms : ms = sent ++ m :: todo)
    (hlt : moved.length < m.length) (hcs : .write (some 0) ∈ cs)
    (hw : writes cs + todo.flatten.length ≤ ms.flatten.length) :
    Sending t ms cs ((afterSend t m.length todo m.length).settle moved log) := by
  have hsnoc : ¬ Honest (log ++ [(moved, .sent m.length m.length)]) := by
    rw [honest_snoc]
    rintro ⟨-, h⟩
    exact hlt.ne (h rfl)
  rw [settle_afterSend (Int.natCast_nonneg _)]
  exact sending_settle (show ms = (sent ++ [m]) ++ todo by rw [hms, List.append_assoc]; rfl)
    ⟨fun h => absurd h hsnoc, fun h => absurd hcs h⟩ (fun h => absurd h hsnoc) hw

/-- A call that has failed is the last one. -/
theorem sending_failed {sent todo : List (List UInt8)} {m moved rest : List UInt8}
    {log : List (List UInt8 × Returned)} (hms : ms = sent ++ m :: todo) (hm : m = moved ++ rest)
    (hl : Honest log ↔ .write (some 0) ∉ cs) (hc : Honest log → log.map Prod.fst = sent)
    (hcs : .write none ∈ cs) (hw : writes cs ≤ ms.flatten.length) :
    Sending t ms cs ((afterSend t m.length todo (-1)).settle moved log) := by
  have hsnoc : Honest (log ++ [(moved, .sent m.length (-1))]) ↔ Honest log := by
    rw [honest_snoc]
    exact and_iff_left fun h => absurd h (by omega)
  refine .done rfl rfl (hsnoc.trans hl) (fun h => ⟨?_, fun hn => absurd hcs hn⟩) hw
  show ((log ++ [(moved, Returned.sent m.length (-1))]).map Prod.fst).flatten <+: ms.flatten
  rw [List.map_append, hc (hsnoc.mp h), hms, hm]
  simp

/-- A call of the sender in a run. -/
theorem Sending.step {t' : Item} {bs : List UInt8} {k : Option ℕ → Prog Item Returned Unit}
    {r : Option ℕ} (h : Sending t ms cs p) (hk : p.prog = .write t' bs k)
    (hr : ∀ n, r = some n → n ≤ bs.length) :
    Sending t ms (cs ++ [.write r]) (p.goes (bs.take (r.getD 0)) (k r)) := by
  cases h with
  | done hp => rw [hp] at hk; cases hk
  | busy sent m rest todo fuel hms hm hne hf hp hl hc hw =>
    obtain ⟨fuel', k', hwrite, hf', hnone, h0, hsome⟩ :=
      sendLoop_write (t := t) (c := m.length) hne hf
    rw [hp, hwrite] at hk
    injection hk with ht hbs hk
    subst hbs
    subst hk
    have hlen : 0 < rest.length := List.length_pos_iff.mpr hne
    have hmlen : m.length = p.moved.length + rest.length := by rw [hm, List.length_append]
    have hw' := writes_snoc cs r
    rw [Party.goes]
    dsimp only
    rcases r with _ | _ | r
    · rw [hnone, Prog.ret_bind]
      exact sending_failed hms (show m = _ ++ rest by simpa using hm) (hl.trans (by simp))
        hc (by simp) (by omega)
    · rw [h0, Prog.ret_bind]
      exact sending_short hms (by simp; omega) (by simp) (by omega)
    · have hrest : r + 1 ≤ rest.length := hr (r + 1) rfl
      have hl' : Honest p.log ↔ .write (some 0) ∉ cs ++ [.write (some (r + 1))] :=
        hl.trans (by simp)
      rw [hsome, Option.getD_some]
      by_cases hend : rest.drop (r + 1) = []
      · have hmoved : p.moved ++ rest.take (r + 1) = m := by
          rw [hm, ← List.append_nil (rest.take (r + 1)), ← hend, List.take_append_drop]
        rw [hend, sendLoop_nil, Prog.ret_bind, hmoved]
        exact sending_sent hms hl' hc (by omega)
      · have hdrop : (rest.drop (r + 1)).length = rest.length - (r + 1) := List.length_drop
        rw [settle_sendLoop hend (by omega)]
        refine .busy sent m (rest.drop (r + 1)) todo fuel' hms ?_ hend (by omega) rfl hl' hc
          (by omega)
        rw [List.append_assoc, List.take_append_drop, hm]

/-- A choice for the other end. -/
theorem Sending.read (h : Sending t ms cs p) (r : Option ℕ) :
    Sending t ms (cs ++ [.read r]) p := by
  have hw : writes (cs ++ [.read r]) = writes cs := by simp [writes]
  have hmem : ∀ r', .write r' ∈ cs ++ [.read r] ↔ .write r' ∈ cs := by simp
  cases h with
  | busy sent m rest todo fuel hms hm hne hf hp hl hc hw' =>
    exact .busy sent m rest todo fuel hms hm hne hf hp (by rwa [hmem]) hc (by rwa [hw])
  | done hp hm hl hc hw' =>
    exact .done hp hm (by rwa [hmem]) (by rwa [hmem]) (by rwa [hw])

end

/-! ### The receiver -/

/-- What follows a `recv` of the receiver. -/
def afterRecv (t : Item) (count : ℕ) (todo : List ℕ) (x : ℤ × List UInt8) :
    Prog Item Returned Unit :=
  .act (.received count x.1 x.2) (if x.1 < 0 then .ret () else recvAll t todo)

/-- A `recv` returns the number of bytes it has stored, or -1 if a `read` failed. -/
def Valued (cs : List Choice) (log : List (List UInt8 × Returned)) : Prop :=
  ∀ bs (count : ℕ) (r : ℤ) buf, (bs, .received count r buf) ∈ log →
    buf = bs ∧ (r = bs.length ∨ r = -1 ∧ .read none ∈ cs)

/-- The receiver in a run: in a call, or at its end; `ended` says that the stream
has ended. Until then it has filled all its calls. -/
inductive Receiving (t : Item) (ns : List ℕ) (cs : List Choice) (ended : Prop)
    (p : Party Item Returned) : Prop
  | busy (got : List ℕ) (n : ℕ) (todo : List ℕ) (fuel : ℕ) (hns : ns = got ++ n :: todo)
      (hlen : p.log.length = got.length) (hlt : p.moved.length < n)
      (hf : n - p.moved.length ≤ fuel)
      (hp : p.prog = (recvLoop t fuel (n - p.moved.length) p.moved).bind (afterRecv t n todo))
      (hv : Valued cs p.log) (hfit : Fits p.chunks ns)
      (hfull : p.chunks.map List.length = got ∨ ended ∧ p.moved = [])
      (hr : reads cs + (n - p.moved.length) + todo.sum ≤ ns.sum)
  | done (hp : p.prog = .ret ()) (hm : p.moved = []) (hv : Valued cs p.log)
      (hfit : Fits p.chunks ns)
      (hfull : .read none ∈ cs ∨
        p.log.length = ns.length ∧ (p.chunks.map List.length = ns ∨ ended))
      (hr : reads cs ≤ ns.sum)

section

variable {ns : List ℕ} {cs : List Choice} {ended : Prop} {p : Party Item Returned}

theorem Valued.snoc {log : List (List UInt8 × Returned)} {bs : List UInt8} {count : ℕ} {r : ℤ}
    (h : Valued cs log) (hr : r = bs.length ∨ r = -1 ∧ .read none ∈ cs) :
    Valued cs (log ++ [(bs, .received count r bs)]) := by
  intro bs' count' r' buf hmem
  rcases List.mem_append.mp hmem with hmem | hmem
  · exact h bs' count' r' buf hmem
  · cases List.mem_singleton.mp hmem
    exact ⟨rfl, hr⟩

theorem Valued.more {log : List (List UInt8 × Returned)} (h : Valued cs log) (c : Choice) :
    Valued (cs ++ [c]) log := by
  intro bs count r buf hmem
  obtain ⟨hbuf, hr⟩ := h bs count r buf hmem
  exact ⟨hbuf, hr.imp id fun hr => ⟨hr.1, List.mem_append_left _ hr.2⟩⟩

theorem settle_afterRecv {count : ℕ} {x : ℤ × List UInt8} (hr : 0 ≤ x.1) (todo : List ℕ)
    (moved : List UInt8) (log : List (List UInt8 × Returned)) :
    (afterRecv t count todo x).settle moved log =
      (recvAll t todo).settle [] (log ++ [(moved, .received count x.1 x.2)]) := by
  rw [afterRecv, if_neg (Int.not_lt.mpr hr)]
  rfl

theorem settle_recvLoop {fuel nleft : ℕ} {buf : List UInt8} (hne : nleft ≠ 0) (hf : nleft ≤ fuel)
    (f : ℤ × List UInt8 → Prog Item Returned Unit) (moved : List UInt8)
    (log : List (List UInt8 × Returned)) :
    ((recvLoop t fuel nleft buf).bind f).settle moved log =
      ⟨(recvLoop t fuel nleft buf).bind f, moved, log⟩ := by
  obtain ⟨fuel', k, hread, -⟩ := recvLoop_read (t := t) buf hne hf
  rw [hread]
  rfl

/-- The receiver between two calls. -/
theorem receiving_settle {got todo : List ℕ} {log : List (List UInt8 × Returned)}
    (hns : ns = got ++ todo) (hlen : log.length = got.length) (hv : Valued cs log)
    (hfit : Fits (log.map Prod.fst) ns)
    (hfull : (log.map Prod.fst).map List.length = got ∨ ended)
    (hr : reads cs + todo.sum ≤ ns.sum) :
    Receiving t ns cs ended ((recvAll t todo).settle [] log) := by
  induction todo generalizing got log with
  | nil =>
    rw [List.append_nil] at hns
    subst hns
    exact .done rfl rfl hv hfit (Or.inr ⟨hlen, hfull⟩) (by simpa using hr)
  | cons n todo ih =>
    have hcons : recvAll t (n :: todo) = (recvLoop t n n []).bind (afterRecv t n todo) := by
      rw [recvAll, recvNbytes, Int.toNat_natCast]
      rfl
    rw [hcons]
    by_cases hn : n = 0
    · subst hn
      rw [recvLoop_zero, Prog.ret_bind, settle_afterRecv (Int.natCast_nonneg _)]
      refine ih (show ns = (got ++ [0]) ++ todo by rw [hns, List.append_assoc]; rfl) (by simp [hlen])
        (hv.snoc (Or.inl rfl)) ?_ ?_ (by simpa using hr)
      · rw [List.map_append]
        exact hfit.snoc_nil (by rw [List.length_map, hlen, hns]; simp)
      · rw [List.map_append, List.map_append]
        exact hfull.imp (fun h => by rw [h]; rfl) id
    · rw [settle_recvLoop hn le_rfl]
      exact .busy got n todo n hns hlen (Nat.pos_of_ne_zero hn) le_rfl rfl hv hfit
        (hfull.imp id fun h => ⟨h, rfl⟩) (by simpa [Nat.add_assoc] using hr)

/-- A call that has returned what it has stored. -/
theorem receiving_received {got todo : List ℕ} {n : ℕ} {bs : List UInt8}
    {log : List (List UInt8 × Returned)} (hns : ns = got ++ n :: todo)
    (hlen : log.length = got.length) (hv : Valued cs log)
    (hfit : Fits (log.map Prod.fst ++ [bs]) ns)
    (hfull : (log.map Prod.fst).map List.length = got ∧ bs.length = n ∨ ended)
    (hr : reads cs + todo.sum ≤ ns.sum) :
    Receiving t ns cs ended
      ((afterRecv t n todo ((bs.length : ℤ), bs)).settle bs log) := by
  rw [settle_afterRecv (Int.natCast_nonneg _)]
  refine receiving_settle (show ns = (got ++ [n]) ++ todo by rw [hns, List.append_assoc]; rfl)
    (by simp [hlen]) (hv.snoc (Or.inl rfl)) ?_ ?_ hr
  · rw [List.map_append]
    exact hfit
  · rw [List.map_append, List.map_append]
    exact hfull.imp (fun h => by rw [h.1, ← h.2]; rfl) id

/-- The pieces got so far, with that of the call that goes on. -/
theorem fits_moved {got todo : List ℕ} {n : ℕ} {bs : List UInt8} {cs' : List (List UInt8)}
    (hns : ns = got ++ n :: todo) (hlen : cs'.length = got.length) (hfit : Fits cs' ns)
    (hle : bs.length ≤ n) (hfull : cs'.map List.length = got ∨ bs = []) :
    Fits (cs' ++ [bs]) ns := by
  rcases hfull with hfull | rfl
  · rw [hns]
    exact .ofFull hfull hle
  · exact hfit.snoc_nil (by rw [hlen, hns]; simp)

theorem reads_snoc (cs : List Choice) (r : Option ℕ) : reads (cs ++ [.read r]) = reads cs + 1 := by
  simp [reads]

/-- A `read` that fails. -/
theorem Receiving.fails {t' : Item} {n' : ℕ}
    {k : Option (List UInt8) → Prog Item Returned Unit} (h : Receiving t ns cs ended p)
    (hk : p.prog = .read t' n' k) :
    Receiving t ns (cs ++ [.read none]) ended (p.goes [] (k none)) := by
  cases h with
  | done hp => rw [hp] at hk; cases hk
  | busy got n todo fuel hns hlen hlt hf hp hv hfit hfull hr =>
    obtain ⟨fuel', k', hread, -, hnone, -⟩ := recvLoop_read (t := t) p.moved
      (Nat.sub_ne_zero_of_lt hlt) hf
    rw [hp, hread] at hk
    injection hk with ht hn hk
    subst hk
    have hr' := reads_snoc cs none
    dsimp only
    rw [Party.goes, List.append_nil, hnone, Prog.ret_bind]
    refine .done rfl rfl ((hv.more _).snoc (Or.inr ⟨rfl, by simp⟩)) ?_ (Or.inl (by simp))
      (by omega)
    show Fits ((p.log ++ _).map Prod.fst) ns
    rw [List.map_append]
    exact fits_moved hns (by simpa using hlen) hfit hlt.le (hfull.imp id fun h => h.2)

/-- A `read` that finds the end of the stream. -/
theorem Receiving.ends {t' : Item} {n' : ℕ}
    {k : Option (List UInt8) → Prog Item Returned Unit} (h : Receiving t ns cs ended p)
    (hk : p.prog = .read t' n' k) (he : ended) :
    Receiving t ns (cs ++ [.read (some 0)]) ended (p.goes [] (k (some []))) := by
  cases h with
  | done hp => rw [hp] at hk; cases hk
  | busy got n todo fuel hns hlen hlt hf hp hv hfit hfull hr =>
    obtain ⟨fuel', k', hread, -, -, heof, -⟩ := recvLoop_read (t := t) p.moved
      (Nat.sub_ne_zero_of_lt hlt) hf
    rw [hp, hread] at hk
    injection hk with ht hn hk
    subst hk
    have hr' := reads_snoc cs (some 0)
    dsimp only
    rw [Party.goes, List.append_nil, heof, Prog.ret_bind]
    exact receiving_received hns hlen (hv.more _)
      (fits_moved hns (by simpa using hlen) hfit hlt.le (hfull.imp id fun h => h.2)) (Or.inr he)
      (by omega)

/-- A `read` that gets bytes. -/
theorem Receiving.gets {t' : Item} {n' : ℕ} {bs : List UInt8}
    {k : Option (List UInt8) → Prog Item Returned Unit} (h : Receiving t ns cs ended p)
    (hk : p.prog = .read t' n' k) (he : ¬ ended) (hne : bs ≠ []) (hle : bs.length ≤ n') (r : ℕ) :
    Receiving t ns (cs ++ [.read (some r)]) ended (p.goes bs (k (some bs))) := by
  cases h with
  | done hp => rw [hp] at hk; cases hk
  | busy got n todo fuel hns hlen hlt hf hp hv hfit hfull hr =>
    obtain ⟨fuel', k', hread, hf', -, -, hsome⟩ := recvLoop_read (t := t) p.moved
      (Nat.sub_ne_zero_of_lt hlt) hf
    rw [hp, hread] at hk
    injection hk with ht hn hk
    subst hk
    subst hn
    have hr' := reads_snoc cs (some r)
    have hpos : 0 < bs.length := List.length_pos_iff.mpr hne
    have hmoved : (p.moved ++ bs).length = p.moved.length + bs.length := List.length_append
    have hfull' : p.chunks.map List.length = got := hfull.resolve_right fun h => he h.1
    have hleft : n - p.moved.length - bs.length = n - (p.moved ++ bs).length := by omega
    dsimp only
    rw [Party.goes, hsome bs hne, hleft]
    by_cases hend : (p.moved ++ bs).length = n
    · rw [hend, Nat.sub_self, recvLoop_zero, Prog.ret_bind]
      exact receiving_received hns hlen (hv.more _)
        (fits_moved hns (by simpa using hlen) hfit hend.le (Or.inl hfull')) (Or.inl ⟨hfull', hend⟩)
        (by omega)
    · have hlt' : (p.moved ++ bs).length < n := by omega
      rw [settle_recvLoop (Nat.sub_ne_zero_of_lt hlt') (by omega)]
      exact .busy got n todo fuel' hns hlen hlt' (by show n - (p.moved ++ bs).length ≤ fuel'; omega)
        rfl (hv.more _) hfit (Or.inl hfull')
        (by show reads _ + (n - (p.moved ++ bs).length) + _ ≤ _; omega)

/-- A choice for the other end. -/
theorem Receiving.write (h : Receiving t ns cs ended p) (r : Option ℕ) :
    Receiving t ns (cs ++ [.write r]) ended p := by
  have hw : reads (cs ++ [.write r]) = reads cs := by simp [reads]
  have hmem : .read none ∈ cs ++ [.write r] ↔ .read none ∈ cs := by simp
  cases h with
  | busy got n todo fuel hns hlen hlt hf hp hv hfit hfull hr =>
    exact .busy got n todo fuel hns hlen hlt hf hp (hv.more _) hfit hfull (by rwa [hw])
  | done hp hm hv hfit hfull hr =>
    exact .done hp hm (hv.more _) hfit (hfull.imp hmem.mpr id) (by rwa [hw])

/-- The end of the stream has come. -/
theorem Receiving.mono {ended' : Prop} (h : Receiving t ns cs ended p) (he : ended → ended') :
    Receiving t ns cs ended' p := by
  cases h with
  | busy got n todo fuel hns hlen hlt hf hp hv hfit hfull hr =>
    exact .busy got n todo fuel hns hlen hlt hf hp hv hfit (hfull.imp id fun h => ⟨he h.1, h.2⟩) hr
  | done hp hm hv hfit hfull hr =>
    exact .done hp hm hv hfit (hfull.imp id fun h => ⟨h.1, h.2.imp id he⟩) hr

end

/-! ### Both ends -/

/-- What holds after every run. -/
structure Transferring (t : Item) (ms : List (List UInt8)) (cs : List Choice)
    (σ : Channel Item Returned) : Prop where
  sending : Sending t ms cs σ.sender
  receiving : Receiving t (ms.map List.length) cs (σ.queue = [] ∧ σ.sender.finished = true)
    σ.receiver
  bytes : σ.sender.bytes = σ.receiver.bytes ++ σ.queue

section

variable {ms : List (List UInt8)} {cs : List Choice} {σ τ : Channel Item Returned}

theorem transferring_start : Transferring t ms [] (transfer t ms) where
  sending := sending_settle (List.nil_append ms).symm ⟨fun _ => by simp, fun _ => by simp [Honest]⟩
    (fun _ => rfl) (by simp [writes])
  receiving := receiving_settle (List.nil_append _).symm rfl (by simp [Valued]) (.nil _) (Or.inl rfl)
    (by simp [reads])
  bytes := Channel.bytes_start _ _

theorem Transferring.step (h : Transferring t ms cs σ) {c : Choice} (hs : σ.step c = some τ) :
    Transferring t ms (cs ++ [c]) τ := by
  have hbytes := Channel.bytes_step hs h.bytes
  cases c with
  | write r =>
    obtain ⟨t', bs, k, hk, hr, rfl⟩ := Channel.step_write hs
    refine ⟨h.sending.step hk hr, (h.receiving.write r).mono fun he => ?_, hbytes⟩
    -- a sender that writes has not finished
    have hf : σ.sender.finished = false := by rw [Party.finished, hk]
    rw [hf] at he
    cases he.2
  | read r =>
    cases r with
    | none =>
      obtain ⟨t', n, k, hk, rfl⟩ := Channel.step_readFails hs
      exact ⟨h.sending.read none, h.receiving.fails hk, hbytes⟩
    | some r =>
      obtain ⟨t', n, k, hk, hrn, hrq, hr0, rfl⟩ := Channel.step_read hs
      refine ⟨h.sending.read _, ?_, hbytes⟩
      by_cases hr : r = 0
      · subst hr
        exact h.receiving.ends hk (hr0 rfl)
      · have hlen : (σ.queue.take r).length = r := by rw [List.length_take]; omega
        have hne : σ.queue.take r ≠ [] := by
          intro hnil
          rw [hnil] at hlen
          exact hr hlen.symm
        have hopen : ¬ (σ.queue = [] ∧ σ.sender.finished = true) := by
          rintro ⟨hq, -⟩
          rw [hq] at hrq
          exact hr (Nat.le_zero.mp hrq)
        exact (h.receiving.gets hk hopen hne (hlen.trans_le hrn) r).mono fun he => absurd he hopen

theorem transferring_run (h : Channel.run cs (transfer t ms) = some σ) : Transferring t ms cs σ :=
  Channel.run_induction transferring_start (fun hP hs => hP.step hs) h

theorem Sending.honest_iff {p : Party Item Returned} (h : Sending t ms cs p) :
    Honest p.log ↔ .write (some 0) ∉ cs := by
  cases h with
  | busy _ _ _ _ _ _ _ _ _ _ hl => exact hl
  | done _ _ hl => exact hl

/-- The bytes written are those of the messages, from the first one on. -/
theorem Sending.bytes_initial {p : Party Item Returned} (h : Sending t ms cs p)
    (hl : Honest p.log) : p.bytes <+: ms.flatten := by
  cases h with
  | busy sent m rest todo fuel hms hm _ _ _ _ hc =>
    rw [Party.bytes, hc hl, hms, hm]
    simp
  | done _ hm _ hc =>
    rw [Party.bytes, hm, List.append_nil]
    exact (hc hl).1

theorem Sending.bytes_of_finished {p : Party Item Returned} (h : Sending t ms cs p)
    (hl : Honest p.log) (hf : p.finished = true) (hw : .write none ∉ cs) :
    p.bytes = ms.flatten := by
  cases h with
  | busy _ m rest todo fuel _ _ hne hfuel hp =>
    obtain ⟨fuel', k, hwrite, -⟩ := sendLoop_write (t := t) (c := m.length) hne hfuel
    rw [Party.finished, hp, hwrite] at hf
    cases hf
  | done _ hm _ hc => rw [Party.bytes, hm, List.append_nil, (hc hl).2 hw]

theorem Receiving.valued {ns : List ℕ} {ended : Prop} {p : Party Item Returned}
    (h : Receiving t ns cs ended p) : Valued cs p.log := by
  cases h with
  | busy _ _ _ _ _ _ _ _ _ hv => exact hv
  | done _ _ hv => exact hv

theorem Receiving.fits {ns : List ℕ} {ended : Prop} {p : Party Item Returned}
    (h : Receiving t ns cs ended p) : Fits p.chunks ns := by
  cases h with
  | busy _ _ _ _ _ _ _ _ _ _ hfit => exact hfit
  | done _ _ _ hfit => exact hfit

/-- Where no `read` has failed all calls are filled, or the stream has ended and
no call holds bytes that it has not returned. -/
theorem Receiving.full {ns : List ℕ} {ended : Prop} {p : Party Item Returned}
    (h : Receiving t ns cs ended p) (hr : .read none ∉ cs) :
    p.chunks.map List.length <+: ns ∨ ended ∧ p.moved = [] := by
  cases h with
  | busy got n todo fuel hns _ _ _ _ _ _ hfull =>
    refine hfull.imp (fun hfull => ?_) id
    rw [hfull, hns]
    exact List.prefix_append _ _
  | done _ hm _ _ hfull =>
    rcases hfull.resolve_left hr with ⟨-, hfull | he⟩
    · exact Or.inl (by rw [hfull])
    · exact Or.inr ⟨he, hm⟩

/-- Without failures the receiver has got the messages in order. -/
theorem Transferring.inOrder (h : Transferring t ms cs σ) (hl : Honest σ.sender.log)
    (hw : .write none ∉ cs) (hr : .read none ∉ cs) : σ.receiver.chunks <+: ms := by
  rcases h.receiving.full hr with hfull | ⟨⟨hq, hf⟩, hm⟩
  · refine prefix_of_full hfull ?_
    refine List.IsPrefix.trans ?_ (h.sending.bytes_initial hl)
    rw [h.bytes, Party.bytes, List.append_assoc]
    exact List.prefix_append _ _
  · refine h.receiving.fits.of_flatten ?_
    have hbytes := h.bytes
    rw [h.sending.bytes_of_finished hl hf hw, hq, List.append_nil, Party.bytes, hm,
      List.append_nil] at hbytes
    exact hbytes.symm

/-- Until both have finished one of the ends has a call that can transfer a byte, or
find the end of the stream. -/
theorem Transferring.goesOn (h : Transferring t ms cs σ) (hf : σ.finished = false) :
    ∃ r τ, σ.step (.write (some (r + 1))) = some τ ∨ σ.step (.read (some r)) = some τ := by
  cases h.sending with
  | busy sent m rest todo fuel _ _ hne hfuel hp =>
    obtain ⟨fuel', k, hwrite, -⟩ := sendLoop_write (t := t) (c := m.length) hne hfuel
    rw [hwrite] at hp
    obtain ⟨τ, hτ⟩ := Channel.exists_step_write hp (List.length_pos_iff.mpr hne)
    exact ⟨0, τ, Or.inl hτ⟩
  | done hp =>
    have hfin : σ.sender.finished = true := by rw [Party.finished, hp]
    cases h.receiving with
    | done hp' =>
      rw [Channel.finished, hfin, Party.finished, hp'] at hf
      cases hf
    | busy got n todo fuel _ _ hlt hfuel hp' =>
      obtain ⟨fuel', k, hread, -⟩ := recvLoop_read (t := t) σ.receiver.moved
        (Nat.sub_ne_zero_of_lt hlt) hfuel
      rw [hread] at hp'
      by_cases hq : σ.queue = []
      · obtain ⟨τ, hτ⟩ := Channel.exists_step_read hp' (Nat.zero_le _) (Nat.zero_le _)
          fun _ => ⟨hq, hfin⟩
        exact ⟨0, τ, Or.inr hτ⟩
      · obtain ⟨τ, hτ⟩ := Channel.exists_step_read (r := 1) hp' (by omega)
          (List.length_pos_iff.mpr hq) fun h => absurd h (by omega)
        exact ⟨1, τ, Or.inr hτ⟩

/-- Where nothing has failed and both have finished, all has been received. -/
theorem Transferring.all (h : Transferring t ms cs σ) (hl : Honest σ.sender.log)
    (hw : .write none ∉ cs) (hr : .read none ∉ cs) (hf : σ.finished = true) :
    σ.receiver.chunks = ms := by
  refine (h.inOrder hl hw hr).eq_of_length ?_
  have hfin : σ.receiver.finished = true := (Bool.and_eq_true_iff.mp hf).2
  cases h.receiving with
  | busy got n todo fuel _ _ hlt hfuel hp =>
    obtain ⟨fuel', k, hread, -⟩ := recvLoop_read (t := t) σ.receiver.moved
      (Nat.sub_ne_zero_of_lt hlt) hfuel
    rw [Party.finished, hp, hread] at hfin
    cases hfin
  | done _ _ _ _ hfull =>
    have hlen := (hfull.resolve_left hr).1
    rw [List.length_map] at hlen
    rw [Party.chunks, List.length_map, hlen]

theorem length_eq_writes_add_reads (cs : List Choice) : cs.length = writes cs + reads cs := by
  induction cs with
  | nil => rfl
  | cons c cs ih =>
    cases c <;> simp [writes, reads] at ih ⊢ <;> omega

/-- The loops end: each call transfers a byte, or is the last of its loop. -/
theorem Transferring.ends (h : Transferring t ms cs σ) : cs.length ≤ 2 * ms.flatten.length := by
  have hw : writes cs ≤ ms.flatten.length := by
    cases h.sending with
    | busy _ _ _ _ _ _ _ _ _ _ _ _ hw => omega
    | done _ _ _ _ hw => exact hw
  have hr : reads cs ≤ ms.flatten.length := by
    rw [List.length_flatten]
    cases h.receiving with
    | busy _ _ _ _ _ _ _ _ _ _ _ _ hr => omega
    | done _ _ _ _ _ hr => exact hr
  have := length_eq_writes_add_reads cs
  omega

/-- What is promised of the messages holds if and only if no `write` has accepted
nothing. -/
theorem run_transfers_iff (t : Item) (ms : List (List UInt8)) (cs : List Choice)
    (σ : Channel Item Returned) (h : Channel.run cs (transfer t ms) = some σ) :
    Transfers ms cs σ ↔ .write (some 0) ∉ cs := by
  have hT := transferring_run h
  constructor
  · intro hP
    exact hT.sending.honest_iff.mp hP.sent
  · intro hz
    have hl := hT.sending.honest_iff.mpr hz
    have hprefix : σ.receiver.chunks.flatten <+: ms.flatten := by
      refine List.IsPrefix.trans ?_ (hT.sending.bytes_initial hl)
      rw [hT.bytes, Party.bytes, List.append_assoc]
      exact List.prefix_append _ _
    refine ⟨hl, hT.receiving.valued, fun i bs hi => hT.receiving.fits.initial hprefix hi,
      hT.inOrder hl, hT.all hl, hT.ends, hT.goesOn⟩

/-- Two messages, the first of them in two pieces. -/
theorem run_transfers_iff_pieces : ∃ σ,
    Channel.run [.write (some 1), .read (some 1), .write (some 1), .write (some 1), .read (some 1),
      .read (some 1)] (transfer .status [[7, 8], [9]]) = some σ ∧
    (Transfers [[7, 8], [9]] [.write (some 1), .read (some 1), .write (some 1), .write (some 1),
      .read (some 1), .read (some 1)] σ ↔ Choice.write (some 0) ∉ [.write (some 1), .read (some 1),
      .write (some 1), .write (some 1), .read (some 1), .read (some 1)]) :=
  ⟨_, rfl, run_transfers_iff .status _ _ _ rfl⟩

/-- A `write` accepts nothing of two bytes, and the call returns 2. -/
theorem not_transfers_acceptsNothing : ∃ σ,
    Channel.run [.write (some 0)] (transfer .status [[7, 8]]) = some σ ∧
      ¬ Transfers [[7, 8]] [.write (some 0)] σ := by
  refine ⟨_, rfl, fun h => ?_⟩
  have hsent := h.sent [] 2 2 (show _ ∈ [(([] : List UInt8), Returned.sent 2 2)] from .head _) rfl
  cases hsent

end

end Session
end Probdata
