/-
# Control bytes that the server does not handle

`probdata_server_poll_ctrl_channel` stores a byte as the status of the session before
the handler ignores it, and the status is also what the UDT worker looks at before it
serves a test. So a byte that the server does not handle changes nothing on the main
thread, unless it is `P_SERVER_ERROR`, but a UDT worker that looks at the status
behind it stops, and serves no test that it would serve later (`ignored_iff`).
-/
import Probdata.Server.Threads
import Probdata.Server.UdtWorker

namespace Probdata
namespace Session
namespace Server

open Wire Bytes Trace
open Probdata.Server (UdtWorker)

/-! ### The main thread and the UDT workers -/

/-- What happens to a server: a packet of the session comes, or a byte between the
packets, or the worker `h` is at the head of its loop, and a call of `tpg_server_run`
would return `ret`, and a reset succeed or not. -/
inductive Happening
  | packet (k : Packet)
  | byte (b : UInt8)
  | call (h : ℕ) (ret : ℤ) (reset : Bool)

/-- A UDT worker, with what `tpg_server_run` returned for the tests it served. -/
structure UdtThread where
  worker : UdtWorker
  tests : List ℤ

namespace UdtThread

def start : UdtThread := ⟨.start, []⟩

/-- An iteration of the worker; `runUdt` says whether the status is `P_RUN_M2M_UDT`. -/
def turn (maxProfLimit : ℤ) (runUdt : Bool) (ret : ℤ) (reset : Bool) (t : UdtThread) : UdtThread :=
  if t.worker.left = none then
    let w := t.worker.head maxProfLimit runUdt
    if w.left = none then ⟨w.served ret reset, if 0 < ret then t.tests ++ [ret] else t.tests⟩
    else ⟨w, t.tests⟩
  else t

end UdtThread

/-- The main thread, with what its process has ended with inside the loop, the number
of packets of the session that it has taken and its operations, and the UDT workers by
the names of their threads. -/
structure System where
  prob : Prob
  ret : Option ℤ
  packets : ℕ
  ops : List (Op Item Act)
  workers : ℕ → Option UdtThread

namespace System

variable (env : ServerEnv) (N : ℤ)

def start (p : Prob) : System := ⟨p, none, 0, [], fun _ => none⟩

/-- The main thread is in its loop. -/
def running (s : System) : Bool := s.ret.isNone && goesOn s.prob.status

/-- The main thread takes a packet. -/
def takes (s : System) (k : Packet) : System :=
  match endsAt env s.prob k with
  | none =>
    { s with
      prob := taken s.prob k
      ops := s.ops ++ Server.takes s.prob k
      workers := if k.status = .runM2mUdt then
          Function.update s.workers s.prob.threads (some .start)
        else s.workers }
  | some r =>
    { s with
      prob := { s.prob with status := k.status }
      ret := some r
      ops := s.ops ++ cuts env s.prob k }

/-- A byte as a packet: the server reads no parameters after it. -/
def bytePacket (b : UInt8) : Packet := ⟨b, ⟨0, 0⟩⟩

/-- One thing happens; nothing does any more once the process has ended. -/
def step (s : System) : Happening → System
  | .packet k => if s.running then { s.takes env k with packets := s.packets + 1 } else s
  | .byte b => if s.running then s.takes env (bytePacket b) else s
  | .call h ret reset =>
    if s.ret = none then
      { s with
        workers := Function.update s.workers h
          ((s.workers h).map (UdtThread.turn N (s.prob.status = .runM2mUdt) ret reset)) }
    else s

def run (p : Prob) (es : List Happening) : System := es.foldl (step env N) (start p)

/-- The operations of the main thread, with the cleaning up once it has left its loop. -/
def log (s : System) : List (Op Item Act) :=
  s.ops ++ if s.ret = none ∧ s.running = false then acting (forgets s.prob) else []

/-- What the main thread has ended with, if it has. -/
def result (s : System) : Option ℤ := if s.running then none else some (s.ret.getD 0)

/-- The tests that the worker `h` has served. -/
def tests (s : System) (h : ℕ) : List ℤ := ((s.workers h).map UdtThread.tests).getD []

end System

/-! ### What is promised -/

/-- The happenings without the bytes between the packets. -/
def plain (es : List Happening) : List Happening := es.filter fun e => !(e matches .byte _)

/-- The calls on the workers. -/
def workerActs (ops : List (Op Item Act)) : List Act := (acts ops).filter fun e => !(e matches .proc _)

/-- The handler has no case for the status. -/
def Unhandled (st : Status) : Prop :=
  st = .programStart ∨ st = .ctrlChanEst ∨ st = .serverError ∨ st = .accessDenied ∨ ∃ b, st = .other b

section Promised

variable (env : ServerEnv) (N : ℤ) (p : Prob)

/-- The bytes between the packets make no difference: the same replies and calls on
the workers, the same end, and the same tests. -/
structure Ignored (es : List Happening) : Prop where
  replies : sent (System.run env N p es).log = sent (System.run env N p (plain es)).log
  workers : workerActs (System.run env N p es).log = workerActs (System.run env N p (plain es)).log
  ends : (System.run env N p es).result = (System.run env N p (plain es)).result
  packets : (System.run env N p es).packets = (System.run env N p (plain es)).packets
  tests : ∀ h, (System.run env N p es).tests h = (System.run env N p (plain es)).tests h

/-- The last thing that has come is a byte between the packets. -/
def behindByte (es : List Happening) : Bool :=
  es.foldl (fun b e => match e with
    | .packet _ => false
    | .byte _ => true
    | .call _ _ _ => b) false

/-- A byte that ends the loop after the happenings `a`. -/
def EndsLoop (a : List Happening) (e : Happening) : Prop :=
  ∃ b, e = .byte b ∧ (System.run env N p (plain a)).running = true ∧ Status.ofCode b = .serverError

/-- After the happenings `a` the worker `h` looks at the status behind a byte. -/
def LooksBehind (h : ℕ) (a : List Happening) (e : Happening) : Prop :=
  (∃ ret reset, e = .call h ret reset) ∧ behindByte a = true ∧
    (System.run env N p (plain a)).ret = none ∧
    ((System.run env N p (plain a)).workers h).isSome = true

/-- No look of the worker `h` at the status comes behind a byte. -/
def Spared (h : ℕ) : List Happening → Prop := Along (fun a e => ¬ LooksBehind env N p h a e) []

/-- A call of the worker `h` that serves a test. -/
def Serves (s : System) (h : ℕ) : Happening → Prop
  | .call n ret _ => n = h ∧ 0 < ret ∧ s.ret = none ∧ ∃ t, s.workers h = some t ∧
      t.worker.left = none ∧ (t.worker.head N (s.prob.status = .runM2mUdt)).left = none
  | _ => False

/-- No byte is `P_SERVER_ERROR` before the end; and a worker that serves a test without
the bytes has not looked at the status behind a byte until then. -/
structure Harmless (es : List Happening) : Prop where
  goesOn : ∀ a e b, es = a ++ e :: b → ¬ EndsLoop env N p a e
  tests : ∀ h a e b, es = a ++ e :: b → Serves N (System.run env N p (plain a)) h e →
    Spared env N p h (a ++ [e])

end Promised

/-! ### A step -/

namespace System

variable {env : ServerEnv} {N : ℤ} {p : Prob} {es b : List Happening} {e : Happening}
  {s s' : System}

theorem run_snoc : run env N p (es ++ [e]) = (run env N p es).step env N e := by
  rw [run, run, List.foldl_append]
  rfl

theorem run_append : run env N p (es ++ b) = b.foldl (step env N) (run env N p es) := by
  rw [run, run, List.foldl_append]

theorem running_iff : s.running = true ↔ s.ret = none ∧ goesOn s.prob.status = true := by
  rw [running, Bool.and_eq_true, Option.isNone_iff_eq_none]

theorem running_of_gone (h : s.ret ≠ none) : s.running = false := by
  rw [← Bool.not_eq_true, running_iff]
  exact fun hr => h hr.1

theorem running_of_result (h : s.result = s'.result) : s.running = s'.running := by
  unfold result at h
  cases hs : s.running <;> cases hs' : s'.running <;> simp [hs, hs'] at h ⊢

theorem takes_none {k : Packet} (h : endsAt env s.prob k = none) : s.takes env k =
    { s with
      prob := taken s.prob k
      ops := s.ops ++ Server.takes s.prob k
      workers := if k.status = .runM2mUdt then
          Function.update s.workers s.prob.threads (some .start)
        else s.workers } := by
  rw [takes, h]

theorem takes_some {k : Packet} {r : ℤ} (h : endsAt env s.prob k = some r) : s.takes env k =
    { s with
      prob := { s.prob with status := k.status }
      ret := some r
      ops := s.ops ++ cuts env s.prob k } := by
  rw [takes, h]

theorem step_call (env : ServerEnv) (N : ℤ) (h : s.ret = none) (n : ℕ) (ret : ℤ) (reset : Bool) :
    s.step env N (.call n ret reset) =
      { s with
        workers := Function.update s.workers n
          ((s.workers n).map (UdtThread.turn N (s.prob.status = .runM2mUdt) ret reset)) } :=
  if_pos h

/-- A process that has ended inside the loop is gone. -/
theorem step_of_gone (h : s.ret ≠ none) (e : Happening) : s.step env N e = s := by
  have hrun := running_of_gone h
  cases e with
  | packet k => exact if_neg (by simp [hrun])
  | byte b => exact if_neg (by simp [hrun])
  | call n ret reset => exact if_neg h

theorem steps_of_gone (h : s.ret ≠ none) (b : List Happening) : b.foldl (step env N) s = s := by
  induction b with
  | nil => rfl
  | cons e b ih => rw [List.foldl_cons, step_of_gone h, ih]

/-- A step changes nothing, or it takes a packet, or it is an iteration of a worker. -/
theorem step_cases (env : ServerEnv) (N : ℤ) (s : System) (e : Happening) :
    (s.step env N e = s ∨
      ∃ k n, s.packets ≤ n ∧ s.step env N e = { s.takes env k with packets := n }) ∨
      s.ret = none ∧ ∃ h ret reset, e = .call h ret reset := by
  cases e with
  | packet k =>
    refine Or.inl ?_
    rw [step]
    split
    · exact Or.inr ⟨k, s.packets + 1, Nat.le_succ _, rfl⟩
    · exact Or.inl rfl
  | byte b =>
    refine Or.inl ?_
    rw [step]
    split
    · refine Or.inr ⟨bytePacket b, s.packets, le_rfl, ?_⟩
      rw [takes]
      split <;> rfl
    · exact Or.inl rfl
  | call h ret reset =>
    by_cases hret : s.ret = none
    · exact Or.inr ⟨hret, h, ret, reset, rfl⟩
    · exact Or.inl (Or.inl (step_of_gone hret _))

theorem step_of_ended (env : ServerEnv) (N : ℤ) (h : s.running = false) (e : Happening) :
    (s.step env N e).prob = s.prob ∧ (s.step env N e).ret = s.ret ∧
      (s.step env N e).packets = s.packets := by
  cases e with
  | packet k => rw [step, h]; exact ⟨rfl, rfl, rfl⟩
  | byte b => rw [step, h]; exact ⟨rfl, rfl, rfl⟩
  | call n ret reset =>
    rw [step]
    split <;> exact ⟨rfl, rfl, rfl⟩

/-- Nothing more is taken after the loop. -/
theorem steps_of_ended (env : ServerEnv) (N : ℤ) (h : s.running = false) (b : List Happening) :
    (b.foldl (step env N) s).running = false ∧ (b.foldl (step env N) s).packets = s.packets := by
  induction b generalizing s with
  | nil => exact ⟨h, rfl⟩
  | cons e b ih =>
    obtain ⟨hp, hr, hk⟩ := step_of_ended env N h e
    have hrun : (s.step env N e).running = false := by
      rw [running, hp, hr]
      exact h
    obtain ⟨hend, hk'⟩ := ih hrun
    exact ⟨hend, hk'.trans hk⟩

theorem packets_le_steps (env : ServerEnv) (N : ℤ) (s : System) (b : List Happening) :
    s.packets ≤ (b.foldl (step env N) s).packets := by
  induction b generalizing s with
  | nil => exact le_rfl
  | cons e b ih =>
    refine le_trans ?_ (ih _)
    rcases step_cases env N s e with (hs | ⟨k, n, hn, hs⟩) | ⟨hret, h, ret, reset, rfl⟩
    · rw [hs]
    · rw [hs]
      exact hn
    · rw [step_call env N hret]

/-- Without bytes between them the loop ends with a packet. -/
theorem packets_lt_steps (env : ServerEnv) (N : ℤ) (hb : ∀ c, Happening.byte c ∉ b)
    (hgo : s.running = true) (hend : (b.foldl (step env N) s).running = false) :
    s.packets < (b.foldl (step env N) s).packets := by
  induction b generalizing s with
  | nil =>
    rw [List.foldl_nil, hgo] at hend
    cases hend
  | cons e b ih =>
    have hb' : ∀ c, Happening.byte c ∉ b := fun c hc => hb c (List.mem_cons_of_mem e hc)
    cases e with
    | packet k =>
      have hstep : (s.step env N (.packet k)).packets = s.packets + 1 := by rw [step, if_pos hgo]
      have hle := packets_le_steps env N (s.step env N (.packet k)) b
      rw [hstep] at hle
      exact hle
    | byte c => exact absurd List.mem_cons_self (hb c)
    | call h ret reset =>
      have hcall := step_call env N (running_iff.mp hgo).1 h ret reset
      have hrun : (s.step env N (.call h ret reset)).running = true := by
        rw [hcall]
        exact hgo
      have hpackets : (s.step env N (.call h ret reset)).packets = s.packets := by rw [hcall]
      rw [← hpackets]
      exact ih hb' hrun hend

end System

/-- What the server receives, with each byte as a packet without parameters. -/
def received (es : List Happening) : List Packet :=
  es.filterMap fun e => match e with
    | .packet k => some k
    | .byte b => some (System.bytePacket b)
    | .call _ _ _ => none

section Log

variable {env : ServerEnv} {s : System}

theorem log_of_gone (h : s.ret ≠ none) : s.log = s.ops := by
  rw [System.log, if_neg fun hx => h hx.1, List.append_nil]

/-- The server takes a packet, and goes on with the others if it does not end there. -/
theorem log_takes {N : ℤ} {es : List Happening} (hrun : s.running = true) (k : Packet) (n : ℕ)
    (ih : ∀ s : System, s.ret = none → (es.foldl (System.step env N) s).log =
      s.ops ++ conduct env s.prob (received es)) :
    (es.foldl (System.step env N) { s.takes env k with packets := n }).log =
      s.ops ++ conduct env s.prob (k :: received es) := by
  obtain ⟨hret, hgo⟩ := System.running_iff.mp hrun
  cases hends : endsAt env s.prob k with
  | none =>
    rw [System.takes_none hends, conduct_takes hgo hends, ← List.append_assoc]
    exact ih _ hret
  | some r =>
    rw [System.takes_some hends, conduct_cuts hgo hends,
      System.steps_of_gone (Option.some_ne_none r), log_of_gone (Option.some_ne_none r)]

/-- The operations of the main thread are those of the server that gets the packets
and the bytes. -/
theorem log_steps (env : ServerEnv) (N : ℤ) (hret : s.ret = none) (es : List Happening) :
    (es.foldl (System.step env N) s).log = s.ops ++ conduct env s.prob (received es) := by
  induction es generalizing s with
  | nil =>
    rw [List.foldl_nil, System.log]
    cases hgo : goesOn s.prob.status <;> simp [hret, hgo, System.running, received, conduct]
  | cons e es ih =>
    have hended : s.running = false → ∀ ks ks', conduct env s.prob ks = conduct env s.prob ks' := by
      intro hrun ks ks'
      have hend : goesOn s.prob.status = false := by
        rw [System.running, hret] at hrun
        exact hrun
      rw [conduct_of_not_goesOn hend, conduct_of_not_goesOn hend]
    rw [List.foldl_cons]
    cases e with
    | packet k =>
      rw [System.step]
      split
      · rename_i hrun
        exact log_takes hrun k _ fun s hs => ih hs
      · rename_i hrun
        rw [ih hret]
        exact congrArg (s.ops ++ ·) (hended (Bool.not_eq_true _ ▸ hrun) _ _)
    | byte b =>
      rw [System.step]
      split
      · rename_i hrun
        have hsame : s.takes env (System.bytePacket b) =
            { s.takes env (System.bytePacket b) with packets := s.packets } := by
          rw [System.takes]
          split <;> rfl
        rw [hsame]
        exact log_takes hrun (System.bytePacket b) _ fun s hs => ih hs
      · rename_i hrun
        rw [ih hret]
        exact congrArg (s.ops ++ ·) (hended (Bool.not_eq_true _ ▸ hrun) _ _)
    | call h ret reset =>
      rw [System.step_call env N hret]
      exact ih (s := { s with workers := _ }) hret

/-- The main thread's operations are a run of the server's program. -/
theorem runs_log (N : ℤ) (env : ServerEnv) {p : Prob} (hp : p.role = .server)
    (es : List Happening) :
    ∃ waits, Runs (next env) waits (.ret ⟨none, p⟩) (System.run env N p es).log := by
  rw [System.run, log_steps env N rfl]
  exact runs_conduct env hp _

end Log

theorem plain_append (a b : List Happening) : plain (a ++ b) = plain a ++ plain b :=
  List.filter_append a b

theorem not_byte_mem_plain (es : List Happening) (c : UInt8) : Happening.byte c ∉ plain es := by
  simp [plain]

theorem behindByte_snoc (es : List Happening) (e : Happening) : behindByte (es ++ [e]) =
    match e with
    | .packet _ => false
    | .byte _ => true
    | .call _ _ _ => behindByte es := by
  rw [behindByte, List.foldl_append]
  rfl

section Plain

variable (env : ServerEnv) (N : ℤ) (p : Prob) (es : List Happening)

theorem run_plain_packet (k : Packet) : System.run env N p (plain (es ++ [.packet k])) =
    (System.run env N p (plain es)).step env N (.packet k) := by
  rw [plain_append, ← System.run_snoc]
  rfl

theorem run_plain_byte (b : UInt8) :
    System.run env N p (plain (es ++ [.byte b])) = System.run env N p (plain es) := by
  rw [plain_append]
  exact congrArg (System.run env N p) (List.append_nil _)

theorem run_plain_call (h : ℕ) (ret : ℤ) (reset : Bool) :
    System.run env N p (plain (es ++ [.call h ret reset])) =
      (System.run env N p (plain es)).step env N (.call h ret reset) := by
  rw [plain_append, ← System.run_snoc]
  rfl

end Plain

/-! ### The main thread -/

/-- The status with the bytes and that without: behind a byte it is the byte's, as long
as the server is in its loop. -/
def StatusAlike (behind running : Bool) (st st' : Status) : Prop :=
  if behind = true ∧ running = true then Unhandled st ∧ st ≠ .serverError else st = st'

/-- The main thread with the bytes and without. -/
structure MainAlike (behind : Bool) (s s' : System) : Prop where
  prob : s.prob = { s'.prob with status := s.prob.status }
  ret : s.ret = s'.ret
  status : StatusAlike behind s'.running s.prob.status s'.prob.status
  packets : s.packets = s'.packets
  replies : sent s.ops = sent s'.ops
  workers : workerActs s.ops = workerActs s'.ops

theorem Unhandled.goesOn {st : Status} (h : Unhandled st) (hs : st ≠ .serverError) :
    goesOn st = true := by
  rcases h with rfl | rfl | rfl | rfl | ⟨b, rfl⟩
  · rfl
  · rfl
  · exact absurd rfl hs
  · rfl
  · rfl

theorem Unhandled.ne_runM2mUdt {st : Status} (h : Unhandled st) : st ≠ .runM2mUdt := by
  rcases h with rfl | rfl | rfl | rfl | ⟨b, rfl⟩ <;> simp

theorem statusAlike_false {running : Bool} {st st' : Status} :
    StatusAlike false running st st' ↔ st = st' := by
  simp [StatusAlike]

theorem statusAlike_of_ended {behind : Bool} {st st' : Status} :
    StatusAlike behind false st st' ↔ st = st' := by
  simp [StatusAlike]

theorem MainAlike.running {behind : Bool} {s s' : System} (h : MainAlike behind s s') :
    s.running = s'.running := by
  have hst := h.status
  unfold StatusAlike at hst
  split at hst
  · rename_i hb
    obtain ⟨hret, -⟩ := System.running_iff.mp hb.2
    rw [hb.2, System.running_iff]
    exact ⟨h.ret.trans hret, hst.1.goesOn hst.2⟩
  · rw [System.running, System.running, h.ret, hst]

theorem MainAlike.result {behind : Bool} {s s' : System} (h : MainAlike behind s s') :
    s.result = s'.result := by
  rw [System.result, System.result, h.running, h.ret]

/-- What the server does with a packet does not depend on its status. -/
theorem takes_congr {p q : Prob} (h : p = { q with status := p.status }) (env : ServerEnv)
    (k : Packet) : endsAt env p k = endsAt env q k ∧ takes p k = takes q k ∧
      taken p k = taken q k ∧ cuts env p k = cuts env q k := by
  have hp : { p with status := k.status } = { q with status := k.status } := by rw [h]
  exact ⟨by rw [endsAt, endsAt, hp], by rw [takes, takes, hp], by rw [taken, taken, hp],
    by rw [cuts, cuts, hp]⟩

/-- A byte that the handler has no case for only becomes the status. -/
theorem takes_byte (env : ServerEnv) (p : Prob) {b : UInt8} (h : Unhandled (Status.ofCode b)) :
    endsAt env p (System.bytePacket b) = none ∧
      takes p (System.bytePacket b) = [.inn .status b, .act (.proc (Status.ofCode b))] ∧
      taken p (System.bytePacket b) = { p with status := Status.ofCode b } := by
  have hst : (System.bytePacket b).status = Status.ofCode b := rfl
  rw [endsAt, takes, taken, hst]
  generalize Status.ofCode b = st at h
  rcases h with rfl | rfl | rfl | rfl | ⟨c, rfl⟩ <;> exact ⟨rfl, rfl, rfl⟩

theorem workerActs_append (ops ops' : List (Op Item Act)) :
    workerActs (ops ++ ops') = workerActs ops ++ workerActs ops' := by
  rw [workerActs, acts_append, List.filter_append]
  rfl

section Main

variable {env : ServerEnv} {N : ℤ} {behind : Bool} {s s' : System}

/-- The same operations, after which both are in the same state. -/
theorem MainAlike.extend (h : MainAlike behind s s') {q : Prob} {r : Option ℤ} {n : ℕ}
    {l : List (Op Item Act)} {w w' : ℕ → Option UdtThread} :
    MainAlike false ⟨q, r, n, s.ops ++ l, w⟩ ⟨q, r, n, s'.ops ++ l, w'⟩ := by
  refine ⟨rfl, rfl, statusAlike_false.mpr rfl, rfl, ?_, ?_⟩
  · show sent (s.ops ++ l) = sent (s'.ops ++ l)
    rw [sent_append, sent_append, h.replies]
  · show workerActs (s.ops ++ l) = workerActs (s'.ops ++ l)
    rw [workerActs_append, workerActs_append, h.workers]

theorem MainAlike.packet (h : MainAlike behind s s') (k : Packet) :
    MainAlike false (s.step env N (.packet k)) (s'.step env N (.packet k)) := by
  rw [System.step, System.step, h.running]
  split
  · obtain ⟨hends, htakes, htaken, hcuts⟩ := takes_congr h.prob env k
    rw [h.packets]
    cases hend : endsAt env s'.prob k with
    | none =>
      rw [System.takes_none (hends.trans hend), System.takes_none hend, htakes, htaken, h.ret]
      exact h.extend
    | some r =>
      have hstatus : ({ s.prob with status := k.status } : Prob) =
          { s'.prob with status := k.status } := by rw [h.prob]
      rw [System.takes_some (hends.trans hend), System.takes_some hend, hcuts, hstatus]
      exact h.extend
  · rename_i hrun
    have hrun' : s'.running = false := Bool.not_eq_true _ ▸ hrun
    have hst := h.status
    rw [hrun', statusAlike_of_ended] at hst
    exact ⟨h.prob, h.ret, statusAlike_false.mpr hst, h.packets, h.replies, h.workers⟩

theorem MainAlike.byte (h : MainAlike behind s s') {b : UInt8}
    (hb : Unhandled (Status.ofCode b))
    (hne : s'.running = true → Status.ofCode b ≠ .serverError) :
    MainAlike true (s.step env N (.byte b)) s' := by
  rw [System.step, h.running]
  split
  · rename_i hrun
    obtain ⟨hends, htakes, htaken⟩ := takes_byte env s.prob hb
    rw [System.takes_none hends, htakes, htaken]
    refine ⟨?_, h.ret, ?_, h.packets, ?_, ?_⟩
    · show ({ s.prob with status := Status.ofCode b } : Prob) = _
      rw [h.prob]
    · rw [StatusAlike, if_pos ⟨rfl, hrun⟩]
      exact ⟨hb, hne hrun⟩
    · show sent (s.ops ++ _) = _
      rw [sent_append, h.replies]
      exact List.append_nil _
    · show workerActs (s.ops ++ _) = _
      rw [workerActs_append, h.workers]
      exact List.append_nil _
  · rename_i hrun
    have hrun' : s'.running = false := Bool.not_eq_true _ ▸ hrun
    have hst := h.status
    rw [hrun', statusAlike_of_ended] at hst
    refine ⟨h.prob, h.ret, ?_, h.packets, h.replies, h.workers⟩
    rw [hrun', statusAlike_of_ended]
    exact hst

theorem MainAlike.call (h : MainAlike behind s s') (n : ℕ) (ret : ℤ) (reset : Bool) :
    MainAlike behind (s.step env N (.call n ret reset)) (s'.step env N (.call n ret reset)) := by
  by_cases hret : s'.ret = none
  · rw [System.step_call env N hret, System.step_call env N (h.ret.trans hret)]
    exact ⟨h.prob, h.ret, h.status, h.packets, h.replies, h.workers⟩
  · have hret' : s.ret ≠ none := by rwa [h.ret]
    rw [System.step_of_gone hret, System.step_of_gone hret']
    exact h

end Main

/-- The bytes are unhandled ones, and none of them ends the loop. -/
structure Quiet (env : ServerEnv) (N : ℤ) (p : Prob) (es : List Happening) : Prop where
  unhandled : ∀ c, .byte c ∈ es → Unhandled (Status.ofCode c)
  goesOn : Along (fun a e => ¬ EndsLoop env N p a e) [] es

theorem Quiet.left {env : ServerEnv} {N : ℤ} {p : Prob} {a b : List Happening}
    (hq : Quiet env N p (a ++ b)) :
    Quiet env N p a :=
  ⟨fun c hc => hq.unhandled c (List.mem_append_left b hc), (along_append.mp hq.goesOn).1⟩

section Run

variable {env : ServerEnv} {N : ℤ} {p : Prob} {es : List Happening} {s : System} {h : ℕ}

theorem mainAlike_run (hq : Quiet env N p es) :
    MainAlike (behindByte es) (System.run env N p es) (System.run env N p (plain es)) := by
  induction es using List.reverseRecOn with
  | nil => exact ⟨rfl, rfl, statusAlike_false.mpr rfl, rfl, rfl, rfl⟩
  | append_singleton es e ih =>
    have hmain := ih hq.left
    have he := (along_snoc.mp hq.goesOn).2
    rw [behindByte_snoc, System.run_snoc]
    cases e with
    | packet k =>
      rw [run_plain_packet]
      exact hmain.packet k
    | byte b =>
      rw [run_plain_byte]
      exact hmain.byte (hq.unhandled b (by simp)) fun hgo hst => he ⟨b, rfl, hgo, hst⟩
    | call n ret reset =>
      rw [run_plain_call]
      exact hmain.call n ret reset

/-! ### The workers -/

theorem UdtThread.turn_of_left {t : UdtThread} (ht : t.worker.left ≠ none) (runUdt : Bool) (ret : ℤ)
    (reset : Bool) : t.turn N runUdt ret reset = t := if_neg ht

/-- A worker that sees another status leaves its loop. -/
theorem UdtThread.turn_false (t : UdtThread) (ret : ℤ) (reset : Bool) :
    (t.turn N false ret reset).worker.left ≠ none ∧
      (t.turn N false ret reset).tests = t.tests := by
  by_cases ht : t.worker.left = none
  · have hturn : t.turn N false ret reset =
        ⟨{ t.worker with left := some .status }, t.tests⟩ := if_pos ht
    rw [hturn]
    exact ⟨Option.some_ne_none _, rfl⟩
  · rw [turn_of_left ht]
    exact ⟨ht, rfl⟩

/-- A turn serves a test only if the checks are passed and the run succeeds. -/
theorem UdtThread.tests_turn_of_not (t : UdtThread) {runUdt : Bool} {ret : ℤ} {reset : Bool}
    (h : 0 < ret → t.worker.left = none → (t.worker.head N runUdt).left ≠ none) :
    (t.turn N runUdt ret reset).tests = t.tests := by
  unfold UdtThread.turn
  split
  · rename_i hleft
    dsimp only
    split
    · rename_i hhead
      exact if_neg fun hret => h hret hleft hhead
    · rfl
  · rfl

theorem UdtThread.tests_grows (t : UdtThread) (runUdt : Bool) (ret : ℤ) (reset : Bool) :
    t.tests <+: (t.turn N runUdt ret reset).tests := by
  unfold UdtThread.turn
  split
  · dsimp only
    split
    · dsimp only
      split
      · exact List.prefix_append _ _
      · exact List.prefix_rfl
    · exact List.prefix_rfl
  · exact List.prefix_rfl

/-- The threads still to be created are not those of workers. -/
def Fresh (s : System) : Prop := ∀ h, (s.workers h).isSome = true → h < s.prob.threads

theorem threads_taken (p : Prob) (k : Packet) : p.threads ≤ (taken p k).threads ∧
    (k.status = .runM2mUdt → p.threads < (taken p k).threads) := by
  unfold taken after
  cases k.status with
  | runM2mTcp => exact ⟨Nat.le_succ _, by intro hst; cases hst⟩
  | runM2mUdt => exact ⟨Nat.le_succ _, fun _ => Nat.lt_succ_self _⟩
  | _ => exact ⟨le_rfl, by intro hst; cases hst⟩

/-- A packet leaves the workers that there are alone. -/
theorem workers_takes (hs : Fresh s) (k : Packet) (hh : (s.workers h).isSome = true) :
    (s.takes env k).workers h = s.workers h := by
  have hne : h ≠ s.prob.threads := (hs h hh).ne
  cases hends : endsAt env s.prob k with
  | none =>
    rw [System.takes_none hends]
    dsimp only
    split
    · exact Function.update_of_ne hne _ _
    · rfl
  | some r => rw [System.takes_some hends]

theorem Fresh.takes (hs : Fresh s) (k : Packet) : Fresh (s.takes env k) := by
  intro h hh
  cases hends : endsAt env s.prob k with
  | none =>
    obtain ⟨hle, hlt⟩ := threads_taken s.prob k
    rw [System.takes_none hends] at hh ⊢
    dsimp only at hh ⊢
    split at hh
    · rename_i hst
      by_cases hn : h = s.prob.threads
      · exact hn ▸ hlt hst
      · rw [Function.update_of_ne hn] at hh
        exact (hs h hh).trans_le hle
    · exact (hs h hh).trans_le hle
  | some r =>
    rw [System.takes_some hends] at hh ⊢
    exact hs h hh

theorem workers_call (hret : s.ret = none) (n : ℕ) (ret : ℤ) (reset : Bool) (h : ℕ) :
    (s.step env N (.call n ret reset)).workers h = if h = n then
      (s.workers h).map (UdtThread.turn N (s.prob.status = .runM2mUdt) ret reset)
    else s.workers h := by
  rw [System.step_call env N hret]
  dsimp only
  by_cases hn : h = n
  · subst hn
    rw [Function.update_self, if_pos rfl]
  · rw [Function.update_of_ne hn, if_neg hn]

theorem Fresh.step (hs : Fresh s) (e : Happening) : Fresh (s.step env N e) := by
  rcases System.step_cases env N s e with (he | ⟨k, n, -, he⟩) | ⟨hret, n, ret, reset, rfl⟩
  · rwa [he]
  · rw [he]
    exact hs.takes k
  · intro h hh
    rw [workers_call hret] at hh
    rw [System.step_call env N hret]
    refine hs h ?_
    split at hh
    · rwa [Option.isSome_map] at hh
    · exact hh

theorem fresh_run (env : ServerEnv) (N : ℤ) (p : Prob) (es : List Happening) :
    Fresh (System.run env N p es) := by
  induction es using List.reverseRecOn with
  | nil => intro h hh; cases hh
  | append_singleton es e ih => rw [System.run_snoc]; exact ih.step e

/-- The worker `h` has left its loop. -/
def Stopped (s : System) (h : ℕ) : Prop := ∃ t, s.workers h = some t ∧ t.worker.left ≠ none

theorem tests_eq_of_workers {s s' : System} (hw : s.workers h = s'.workers h) :
    s.tests h = s'.tests h := by
  rw [System.tests, System.tests, hw]

theorem workers_step_of_ne_call (env : ServerEnv) (N : ℤ) (hs : Fresh s)
    (hh : (s.workers h).isSome = true) {e : Happening} (he : ∀ ret reset, e ≠ .call h ret reset) :
    (s.step env N e).workers h = s.workers h := by
  rcases System.step_cases env N s e with (hstep | ⟨k, n, -, hstep⟩) | ⟨hret, n, ret, reset, rfl⟩
  · rw [hstep]
  · rw [hstep]
    exact workers_takes hs k hh
  · rw [workers_call hret, if_neg]
    rintro rfl
    exact he ret reset rfl

theorem Stopped.step (hs : Fresh s) (hst : Stopped s h) (e : Happening) :
    (s.step env N e).workers h = s.workers h := by
  obtain ⟨t, ht, hleft⟩ := hst
  by_cases hret : s.ret = none
  · by_cases he : ∃ ret reset, e = .call h ret reset
    · obtain ⟨ret, reset, rfl⟩ := he
      rw [workers_call hret, if_pos rfl, ht, Option.map_some, UdtThread.turn_of_left hleft]
    · exact workers_step_of_ne_call env N hs (by rw [ht]; rfl) fun ret reset hc => he ⟨ret, reset, hc⟩
  · rw [System.step_of_gone hret]

/-- A worker that is created has served no test. -/
theorem tests_step_of_none (hnone : s.workers h = none) (e : Happening) :
    (s.step env N e).tests h = s.tests h := by
  rcases System.step_cases env N s e with (hstep | ⟨k, n, -, hstep⟩) | ⟨hret, n, ret, reset, rfl⟩
  · rw [hstep]
  · rw [hstep, System.tests, System.tests]
    cases hends : endsAt env s.prob k with
    | none =>
      rw [System.takes_none hends]
      dsimp only
      split
      · by_cases hn : h = s.prob.threads
        · rw [hn, Function.update_self, ← hn, hnone]
          rfl
        · rw [Function.update_of_ne hn]
      · rfl
    | some r => rw [System.takes_some hends]
  · rw [System.tests, System.tests, workers_call hret, hnone]
    split <;> rfl

/-- A worker serves more tests as time goes on. -/
theorem tests_step (hs : Fresh s) (e : Happening) (h : ℕ) :
    s.tests h <+: (s.step env N e).tests h := by
  by_cases hret : s.ret = none
  · cases ht : s.workers h with
    | none => rw [tests_step_of_none ht]
    | some t =>
      by_cases he : ∃ ret reset, e = .call h ret reset
      · obtain ⟨ret, reset, rfl⟩ := he
        rw [System.tests, System.tests, workers_call hret, if_pos rfl, ht]
        exact t.tests_grows _ _ _
      · have hw := workers_step_of_ne_call env N hs (by rw [ht]; rfl)
          fun ret reset hc => he ⟨ret, reset, hc⟩
        rw [tests_eq_of_workers hw]
  · rw [System.step_of_gone hret]

theorem tests_run (a b : List Happening) :
    (System.run env N p a).tests h <+: (System.run env N p (a ++ b)).tests h := by
  induction b using List.reverseRecOn with
  | nil => rw [List.append_nil]
  | append_singleton b e ih =>
    rw [← List.append_assoc, System.run_snoc]
    exact ih.trans (tests_step (fresh_run env N p _) e h)

/-- A packet has the same effect on workers that are the same. -/
theorem workers_packet {s s' : System} {behind : Bool} (hmain : MainAlike behind s s')
    (hw : s.workers h = s'.workers h) (k : Packet) :
    (s.step env N (.packet k)).workers h = (s'.step env N (.packet k)).workers h := by
  have hthreads : s.prob.threads = s'.prob.threads := by rw [hmain.prob]
  have hends := (takes_congr hmain.prob env k).1
  rw [System.step, System.step, hmain.running]
  split
  · cases hend : endsAt env s'.prob k with
    | none =>
      rw [System.takes_none (hends.trans hend), System.takes_none hend, hthreads]
      dsimp only
      split
      · simp only [Function.update_apply, hw]
      · exact hw
    | some r =>
      rw [System.takes_some (hends.trans hend), System.takes_some hend]
      exact hw
  · exact hw

theorem workers_byte (s : System) {b : UInt8} (hb : Unhandled (Status.ofCode b)) :
    (s.step env N (.byte b)).workers = s.workers := by
  have hst : (System.bytePacket b).status ≠ .runM2mUdt := hb.ne_runM2mUdt
  rw [System.step]
  split
  · rw [System.takes_none (takes_byte env s.prob hb).1]
    exact if_neg hst
  · rfl

/-- Behind a byte the status is not `P_RUN_M2M_UDT`, as long as the process lives. -/
theorem MainAlike.ne_runM2mUdt {s s' : System} (hmain : MainAlike true s s') (hret : s'.ret = none) :
    s.prob.status ≠ .runM2mUdt := by
  have hst := hmain.status
  cases hrun : s'.running with
  | true =>
    rw [hrun, StatusAlike, if_pos ⟨rfl, rfl⟩] at hst
    exact hst.1.ne_runM2mUdt
  | false =>
    rw [hrun, statusAlike_of_ended] at hst
    intro hudt
    rw [System.running, hret, ← hst, hudt] at hrun
    cases hrun

/-- A look of a worker that is the same with the bytes and without. -/
theorem workers_look {s' : System} {behind : Bool} (hmain : MainAlike behind s s')
    (hw : s.workers h = s'.workers h) (n : ℕ) (ret : ℤ) (reset : Bool)
    (hbehind : h = n → s'.ret = none → (s'.workers h).isSome = true → behind = false) :
    (s.step env N (.call n ret reset)).workers h = (s'.step env N (.call n ret reset)).workers h := by
  by_cases hret : s'.ret = none
  · rw [workers_call hret, workers_call (hmain.ret.trans hret), hw]
    by_cases hn : h = n
    · rw [if_pos hn, if_pos hn]
      cases hs : s'.workers h with
      | none => rfl
      | some t =>
        have hfalse := hbehind hn hret (by rw [hs]; rfl)
        rw [hfalse] at hmain
        rw [statusAlike_false.mp hmain.status]
    · rw [if_neg hn, if_neg hn]
  · have hret' : s.ret ≠ none := by rwa [hmain.ret]
    rw [System.step_of_gone hret, System.step_of_gone hret', hw]

/-- A worker that looks at the status behind a byte stops, and serves no test. -/
theorem stopped_look {s' : System} (hmain : MainAlike true s s') (hret : s'.ret = none)
    (hh : (s.workers h).isSome = true) (ret : ℤ) (reset : Bool) :
    Stopped (s.step env N (.call h ret reset)) h ∧
      (s.step env N (.call h ret reset)).tests h = s.tests h := by
  obtain ⟨t, ht⟩ := Option.isSome_iff_exists.mp hh
  obtain ⟨hleft, htests⟩ := t.turn_false (N := N) ret reset
  have hw : (s.step env N (.call h ret reset)).workers h = some (t.turn N false ret reset) := by
    rw [workers_call (hmain.ret.trans hret), if_pos rfl, ht, Option.map_some,
      decide_eq_false (hmain.ne_runM2mUdt hret)]
  refine ⟨⟨_, hw, hleft⟩, ?_⟩
  rw [System.tests, System.tests, hw, ht]
  exact htests

/-- A worker is the same with the bytes and without, until it looks at the status
behind one of them; then it stops. -/
theorem workersAlike_run (hq : Quiet env N p es) (h : ℕ) :
    (Spared env N p h es →
      (System.run env N p es).workers h = (System.run env N p (plain es)).workers h) ∧
    (¬ Spared env N p h es → Stopped (System.run env N p es) h) := by
  induction es using List.reverseRecOn with
  | nil => exact ⟨fun _ => rfl, fun hn => absurd trivial hn⟩
  | append_singleton es e ih =>
    obtain ⟨hsame, hstop⟩ := ih hq.left
    have hmain := mainAlike_run hq.left
    rw [System.run_snoc]
    by_cases hsp : Spared env N p h es
    · have hw := hsame hsp
      have hsnoc : Spared env N p h (es ++ [e]) ↔ ¬ LooksBehind env N p h es e :=
        along_snoc.trans (and_iff_right hsp)
      rw [hsnoc, not_not]
      cases e with
      | packet k =>
        rw [run_plain_packet]
        refine ⟨fun _ => workers_packet hmain hw k, ?_⟩
        rintro ⟨⟨ret, reset, hcall⟩, -⟩
        cases hcall
      | byte b =>
        rw [run_plain_byte, workers_byte _ (hq.unhandled b (by simp))]
        refine ⟨fun _ => hw, ?_⟩
        rintro ⟨⟨ret, reset, hcall⟩, -⟩
        cases hcall
      | call n ret reset =>
        rw [run_plain_call]
        constructor
        · intro hlook
          refine workers_look hmain hw n ret reset fun hn hret hsome => ?_
          subst hn
          by_contra hbehind
          exact hlook ⟨⟨ret, reset, rfl⟩, Bool.not_eq_false _ ▸ hbehind, hret, hsome⟩
        · rintro ⟨⟨ret', reset', hcall⟩, hbehind, hret, hsome⟩
          cases hcall
          rw [hbehind] at hmain
          exact (stopped_look hmain hret (hw ▸ hsome) ret reset).1
    · refine ⟨fun h' => absurd (along_snoc.mp h').1 hsp, fun _ => ?_⟩
      obtain ⟨t, ht, hleft⟩ := hstop hsp
      exact ⟨t, (Stopped.step (fresh_run env N p es) ⟨t, ht, hleft⟩ e).trans ht, hleft⟩

/-- A look behind a byte serves no test. -/
theorem tests_of_look (hq : Quiet env N p es) {e : Happening} (hlook : LooksBehind env N p h es e) :
    (System.run env N p (es ++ [e])).tests h = (System.run env N p es).tests h := by
  obtain ⟨hsame, hstop⟩ := workersAlike_run hq h
  rw [System.run_snoc]
  by_cases hsp : Spared env N p h es
  · obtain ⟨⟨ret, reset, rfl⟩, hbehind, hret, hsome⟩ := hlook
    have hmain := mainAlike_run hq
    rw [hbehind] at hmain
    exact (stopped_look hmain hret (hsame hsp ▸ hsome) ret reset).2
  · exact tests_eq_of_workers ((hstop hsp).step (fresh_run env N p es) e)

/-- From where it looks behind a byte a worker serves no test. -/
theorem tests_of_looksBehind {a b : List Happening} {e : Happening}
    (hq : Quiet env N p (a ++ e :: b)) (hlook : LooksBehind env N p h a e) :
    (System.run env N p (a ++ e :: b)).tests h = (System.run env N p a).tests h := by
  induction b using List.reverseRecOn with
  | nil => exact tests_of_look hq.left hlook
  | append_singleton b e' ih =>
    have hsnoc : a ++ e :: (b ++ [e']) = (a ++ e :: b) ++ [e'] := by simp
    rw [hsnoc] at hq ⊢
    have hnot : ¬ Spared env N p h (a ++ e :: b) := fun hsp => (along_append.mp hsp).2.1 hlook
    have hstopped := (workersAlike_run hq.left h).2 hnot
    rw [System.run_snoc, tests_eq_of_workers (hstopped.step (fresh_run env N p _) e')]
    exact ih hq.left

/-- A worker that has looked behind a byte has served what it had served there. -/
theorem exists_look (hq : Quiet env N p es) (hsp : ¬ Spared env N p h es) :
    ∃ a e b, es = a ++ e :: b ∧ LooksBehind env N p h a e ∧
      (System.run env N p es).tests h = (System.run env N p (plain a)).tests h := by
  obtain ⟨a, e, b, rfl, hspa, hlook⟩ := exists_first hsp
  have hlook' : LooksBehind env N p h a e := not_not.mp hlook
  have hsame := (workersAlike_run hq.left h).1 hspa
  refine ⟨a, e, b, rfl, hlook', ?_⟩
  rw [tests_of_looksBehind hq hlook', tests_eq_of_workers hsame]

/-- With the bytes a worker serves no more tests than without. -/
theorem tests_le_plain (hq : Quiet env N p es) :
    (System.run env N p es).tests h <+: (System.run env N p (plain es)).tests h := by
  by_cases hsp : Spared env N p h es
  · rw [tests_eq_of_workers ((workersAlike_run hq h).1 hsp)]
  · obtain ⟨a, e, b, rfl, -, htests⟩ := exists_look hq hsp
    rw [htests, plain_append]
    exact tests_run _ _

/-! ### When the bytes make no difference -/

theorem MainAlike.log {behind : Bool} {s s' : System} (hmain : MainAlike behind s s') :
    sent s.log = sent s'.log ∧ workerActs s.log = workerActs s'.log := by
  have hforgets : forgets s.prob = forgets s'.prob := by
    rw [hmain.prob]
    rfl
  rw [System.log, System.log, hmain.ret, hmain.running, hforgets]
  constructor
  · rw [sent_append, sent_append, hmain.replies]
  · rw [workerActs_append, workerActs_append, hmain.workers]

/-- Only a call that serves a test adds to the tests. -/
theorem tests_step_of_not_serves (hs : Fresh s) {e : Happening} (he : ¬ Serves N s h e) :
    (s.step env N e).tests h = s.tests h := by
  by_cases hret : s.ret = none
  · cases ht : s.workers h with
    | none => exact tests_step_of_none ht e
    | some t =>
      by_cases hcall : ∃ ret reset, e = .call h ret reset
      · obtain ⟨ret, reset, rfl⟩ := hcall
        rw [System.tests, System.tests, workers_call hret, if_pos rfl, ht, Option.map_some]
        exact t.tests_turn_of_not fun hpos hleft hhead => he ⟨rfl, hpos, hret, t, ht, hleft, hhead⟩
      · exact tests_eq_of_workers (workers_step_of_ne_call env N hs (by rw [ht]; rfl)
          fun ret reset hc => hcall ⟨ret, reset, hc⟩)
  · rw [System.step_of_gone hret]

theorem Serves.tests {e : Happening} (he : Serves N s h e) (env : ServerEnv) :
    (s.tests h).length < ((s.step env N e).tests h).length := by
  cases e with
  | call n ret reset =>
    obtain ⟨rfl, hpos, hret, t, ht, hleft, hhead⟩ := he
    rw [System.tests, System.tests, workers_call hret, if_pos rfl, ht, Option.map_some]
    simp [UdtThread.turn, hleft, hhead, hpos]
  | packet k => cases he
  | byte b => cases he

/-- A session in which no more tests are served. -/
theorem tests_plain_of_not_serves {a b : List Happening}
    (hb : Along (fun d e => ¬ Serves N (System.run env N p (plain d)) h e) a b) :
    (System.run env N p (plain (a ++ b))).tests h = (System.run env N p (plain a)).tests h := by
  induction b using List.reverseRecOn with
  | nil => rw [List.append_nil]
  | append_singleton b e ih =>
    obtain ⟨hb', he⟩ := along_snoc.mp hb
    rw [← ih hb', ← List.append_assoc]
    cases e with
    | byte c => rw [run_plain_byte]
    | packet k =>
      rw [run_plain_packet]
      exact tests_step_of_not_serves (fresh_run env N p _) he
    | call n ret reset =>
      rw [run_plain_call]
      exact tests_step_of_not_serves (fresh_run env N p _) he

theorem harmless_iff_along : Harmless env N p es ↔ Along (fun a e => ¬ EndsLoop env N p a e) [] es ∧
    ∀ h, Along (fun a e => Serves N (System.run env N p (plain a)) h e → Spared env N p h (a ++ [e])) []
      es := by
  simp only [along_iff, List.nil_append]
  exact ⟨fun hh => ⟨hh.goesOn, hh.tests⟩, fun hh => ⟨hh.1, hh.2⟩⟩

theorem Harmless.ignored (hb : ∀ c, .byte c ∈ es → Unhandled (Status.ofCode c))
    (hh : Harmless env N p es) : Ignored env N p es := by
  have hq : Quiet env N p es := ⟨hb, along_iff.mpr hh.goesOn⟩
  have hmain := mainAlike_run hq
  obtain ⟨hreplies, hworkers⟩ := hmain.log
  refine ⟨hreplies, hworkers, hmain.result, hmain.packets, fun h => ?_⟩
  by_cases hsp : Spared env N p h es
  · exact tests_eq_of_workers ((workersAlike_run hq h).1 hsp)
  · obtain ⟨a, e, b, rfl, hlook, htests⟩ := exists_look hq hsp
    rw [htests, tests_plain_of_not_serves]
    refine along_iff.mpr fun d c b' hdc hserves => ?_
    have hes : a ++ e :: b = (a ++ d) ++ c :: b' := by rw [hdc, List.append_assoc]
    -- the look at `e` comes before or with the test at `c`
    have hspared := hh.tests h (a ++ d) c b' hes hserves
    rcases d with _ | ⟨e', d⟩
    · obtain ⟨rfl, -⟩ := List.cons.inj hdc
      rw [List.append_nil] at hspared
      exact (along_snoc.mp hspared).2 hlook
    · obtain ⟨rfl, -⟩ := List.cons.inj hdc
      rw [List.append_assoc] at hspared
      exact (along_append.mp hspared).2.1 hlook

/-- A byte that ends the loop makes it end sooner. -/
theorem Ignored.goesOn (hb : ∀ c, .byte c ∈ es → Unhandled (Status.ofCode c))
    (hi : Ignored env N p es) : Along (fun a e => ¬ EndsLoop env N p a e) [] es := by
  by_contra hg
  obtain ⟨a, e, b, rfl, hga, hends⟩ := exists_first hg
  obtain ⟨c, rfl, hgo, hc⟩ := not_not.mp hends
  have hmain := mainAlike_run ⟨fun c hc => hb c (List.mem_append_left _ hc), hga⟩
  rw [List.nil_append] at hgo
  have hgo' : (System.run env N p a).running = true := hmain.running.trans hgo
  obtain ⟨hnone, -, htaken⟩ := takes_byte env (System.run env N p a).prob (hb c (by simp))
  have hstep : (System.run env N p a).step env N (.byte c) =
      (System.run env N p a).takes env (System.bytePacket c) := if_pos hgo'
  rw [System.takes_none hnone, htaken, hc] at hstep
  have hend : ((System.run env N p a).step env N (.byte c)).running = false := by
    rw [hstep]
    exact Bool.and_false _
  have hpackets : ((System.run env N p a).step env N (.byte c)).packets =
      (System.run env N p (plain a)).packets := by
    rw [hstep]
    exact hmain.packets
  obtain ⟨hended', hk⟩ := System.steps_of_ended env N hend b
  have hrun : System.run env N p (a ++ .byte c :: b) =
      b.foldl (System.step env N) ((System.run env N p a).step env N (.byte c)) := by
    rw [System.run_append, List.foldl_cons]
  have hplain : System.run env N p (plain (a ++ .byte c :: b)) =
      (plain b).foldl (System.step env N) (System.run env N p (plain a)) := by
    rw [plain_append, System.run_append]
    rfl
  have hended : ((plain b).foldl (System.step env N) (System.run env N p (plain a))).running
      = false := by
    rw [← hplain, ← System.running_of_result hi.ends, hrun]
    exact hended'
  have hlt := System.packets_lt_steps env N (not_byte_mem_plain b) hgo hended
  rw [← hplain, ← hi.packets, hrun, hk, hpackets] at hlt
  exact Nat.lt_irrefl _ hlt

/-- A worker that is not spared until the call `e` has looked behind a byte there or
before. -/
theorem exists_look_of_not_spared {a : List Happening} {e : Happening}
    (hsp : ¬ Spared env N p h (a ++ [e])) (b : List Happening) :
    ∃ l x r, a ++ e :: b = l ++ x :: r ∧ l <+: a ∧ LooksBehind env N p h l x := by
  obtain ⟨l, x, r, hl, -, hx⟩ := exists_first hsp
  have hlen : l.length ≤ a.length := by
    have hlen := congrArg List.length hl
    simp only [List.length_append, List.length_cons, List.length_nil] at hlen
    omega
  refine ⟨l, x, r ++ b, ?_, ?_, not_not.mp hx⟩
  · rw [← List.singleton_append, ← List.append_assoc, hl, List.append_assoc]
    rfl
  · exact List.prefix_of_prefix_length_le ⟨_, hl.symm⟩ (List.prefix_append a [e]) hlen

theorem Ignored.harmless (hb : ∀ c, .byte c ∈ es → Unhandled (Status.ofCode c))
    (hi : Ignored env N p es) : Harmless env N p es := by
  have hq : Quiet env N p es := ⟨hb, hi.goesOn hb⟩
  refine ⟨along_iff.mp hq.goesOn, fun h a e b hes hserves => ?_⟩
  by_contra hsp
  obtain ⟨l, x, r, hl, ⟨d, rfl⟩, hlook⟩ := exists_look_of_not_spared hsp b
  rw [← hes] at hl
  -- all that the worker serves it has served when it looks at the status at `x`
  have htests : (System.run env N p (plain es)).tests h = (System.run env N p l).tests h := by
    rw [← hi.tests h]
    subst hl
    exact tests_of_looksBehind hq hlook
  have hle : (System.run env N p l).tests h <+: (System.run env N p (plain l)).tests h := by
    subst hl
    exact tests_le_plain hq.left
  have hsooner : (System.run env N p (plain l)).tests h <+: (System.run env N p (plain (l ++ d))).tests h := by
    rw [plain_append]
    exact tests_run _ _
  have hplain : plain es = (plain (l ++ d) ++ [e]) ++ plain b := by
    rw [hes, plain_append (l ++ d), List.append_assoc (plain (l ++ d))]
    cases e with
    | byte c => cases hserves
    | _ => rfl
  have hlater : (System.run env N p (plain (l ++ d) ++ [e])).tests h <+:
      (System.run env N p (plain es)).tests h := by
    rw [hplain]
    exact tests_run _ _
  have hmore := hserves.tests env
  rw [← System.run_snoc] at hmore
  have hlen := hle.length_le.trans hsooner.length_le
  rw [← htests] at hlen
  exact absurd (hmore.trans_le hlater.length_le) (not_lt.mpr hlen)

/-- The bytes that the server does not handle make no difference exactly if they are
harmless. -/
theorem ignored_iff (env : ServerEnv) (N : ℤ) (p : Prob) (es : List Happening)
    (hb : ∀ c, .byte c ∈ es → Unhandled (Status.ofCode c)) :
    Ignored env N p es ↔ Harmless env N p es :=
  ⟨Ignored.harmless hb, Harmless.ignored hb⟩

end Run

/-- The packet of the handshake of a client that wants UDT alone. -/
def udtHandshake : Happening := .packet ⟨Status.twowayHandshake.code, ⟨1, 100⟩⟩

/-- A UDT session with a byte before its end, behind which no worker looks. -/
theorem ignored_iff_udt : Ignored (plainParties true true).serverEnv 100
    (opened (plainParties true true).server (List.replicate pIdpktSize 0))
    [udtHandshake, .packet (Parties.packet .runM2mUdt), .call 0 1 true, .byte 66,
      .packet (Parties.packet .programDone)] := by
  refine (ignored_iff _ _ _ _ fun c hc => ?_).mpr (harmless_iff_along.mpr ⟨?_, fun h => ?_⟩)
  · have hc : c = 66 := by simpa [udtHandshake] using hc
    exact hc ▸ .inr (.inr (.inr (.inr ⟨66, rfl⟩)))
  · simp only [along_cons, along_nil, and_true]
    refine ⟨?_, ?_, ?_, ?_, ?_⟩
    all_goals
      rintro ⟨b, hb, -, hst⟩
      cases hb
    cases hst
  · simp only [udtHandshake, along_cons, along_nil, and_true, Serves]
    refine ⟨False.elim, False.elim, fun _ => ⟨?_, ?_, ?_, trivial⟩, False.elim, False.elim⟩
    · rintro ⟨⟨ret, reset, he⟩, -⟩
      cases he
    · rintro ⟨⟨ret, reset, he⟩, -⟩
      cases he
    · rintro ⟨-, hbehind, -⟩
      cases hbehind

/-- A byte behind the packet that starts UDT, and the worker serves no test. -/
theorem not_ignored_udt : ¬ Ignored (plainParties true true).serverEnv 100
    (opened (plainParties true true).server (List.replicate pIdpktSize 0))
    [udtHandshake, .packet (Parties.packet .runM2mUdt), .byte 66, .call 0 1 true] := by
  intro h
  have htests := h.tests 0
  revert htests
  decide

end Server
end Session
end Probdata
