/-
# Control bytes that the client does not expect

The handler of the client, too, has packets that it ignores: `P_SERVER_ERROR` and
`P_ACCESS_DENIED`. Any other byte that is no packet of a server makes it return -1. So
bytes between the packets make no difference exactly if each that comes while the client
is in its loop is one of the two (`undisturbed_iff`); the server itself takes
`P_SERVER_ERROR` for the end.
-/
import Probdata.Lib.Trace
import Probdata.Session.Conversation

namespace Probdata
namespace Session
namespace Client

open Wire Bytes Trace
open Probdata.Session.Server (Packet)

/-! ### A client and what comes to it -/

/-- What comes to a client: a packet of the session, or a byte between the packets. -/
inductive Arrival
  | packet (k : Packet)
  | byte (b : UInt8)

/-- A client behind its connecting, with the number of packets of the session that it
has taken and its operations. -/
structure Loop where
  side : Side
  packets : ℕ
  ops : List (Op Item Act)

namespace Loop

variable (env : ClientEnv)

def start (p : Prob) : Loop := ⟨⟨none, p⟩, 0, []⟩

/-- The client is in its loop. -/
def looping (s : Loop) : Bool := s.side.ret = none ∧ s.side.prob.status ≠ .programDone

/-- An iteration with a packet. -/
def takes (s : Loop) (k : Packet) : Loop :=
  { s with
    side := ⟨if goesOn env { s.side.prob with status := k.status } then none else some (-1),
      taken s.side.prob k.status k.msg⟩
    ops := s.ops ++ Client.takes env s.side.prob k.status k.msg }

/-- A byte as a packet: the client reads no parameters after it. -/
def bytePacket (b : UInt8) : Packet := ⟨b, ⟨0, 0⟩⟩

def step (s : Loop) : Arrival → Loop
  | .packet k => if s.looping then { s.takes env k with packets := s.packets + 1 } else s
  | .byte b => if s.looping then s.takes env (bytePacket b) else s

def run (p : Prob) (es : List Arrival) : Loop := es.foldl (step env) (start p)

end Loop

/-! ### What is promised -/

/-- What comes without the bytes between the packets. -/
def plain (es : List Arrival) : List Arrival := es.filter fun e => !(e matches .byte _)

/-- The searches that the client has run. -/
def searched (ops : List (Op Item Act)) : List Kind :=
  (acts ops).filterMap fun e => match e with
    | .search k => some k
    | _ => none

/-- No packet of a server has the status. -/
def Foreign (st : Status) : Prop :=
  st = .programStart ∨ st = .clientTerminate ∨ st = .serverError ∨ st = .accessDenied ∨
    ∃ b, st = .other b

/-- The bytes between the packets make no difference: the same answers and searches, the
same number of packets taken, and the same value returned. -/
structure Undisturbed (env : ClientEnv) (p : Prob) (es : List Arrival) : Prop where
  answers : sent (Loop.run env p es).ops = sent (Loop.run env p (plain es)).ops
  searches : searched (Loop.run env p es).ops = searched (Loop.run env p (plain es)).ops
  packets : (Loop.run env p es).packets = (Loop.run env p (plain es)).packets
  ret : (Loop.run env p es).side.ret = (Loop.run env p (plain es)).side.ret

/-- The statuses that the client takes notice of and goes on. -/
def Harmless (st : Status) : Prop := st = .serverError ∨ st = .accessDenied

/-- A byte that comes while the client, after `a`, is in its loop, and is not harmless. -/
def Fatal (env : ClientEnv) (p : Prob) (a : List Arrival) (e : Arrival) : Prop :=
  ∃ b, e = .byte b ∧ (Loop.run env p (plain a)).looping = true ∧ ¬ Harmless (Status.ofCode b)

/-! ### A step -/

namespace Loop

variable {env : ClientEnv} {p : Prob} {es b : List Arrival} {e : Arrival} {s s' : Loop}

theorem run_snoc : run env p (es ++ [e]) = (run env p es).step env e := by
  rw [run, run, List.foldl_append]
  rfl

theorem run_append : run env p (es ++ b) = b.foldl (step env) (run env p es) := by
  rw [run, run, List.foldl_append]

theorem looping_iff : s.looping = true ↔ s.side.ret = none ∧ s.side.prob.status ≠ .programDone := by
  rw [looping, decide_eq_true_eq]

theorem step_of_not_looping (h : ¬ s.looping = true) (e : Arrival) : s.step env e = s := by
  cases e with
  | packet k => rw [step, if_neg h]
  | byte b => rw [step, if_neg h]

/-- Nothing more is taken after the loop. -/
theorem steps_of_not_looping (h : ¬ s.looping = true) (b : List Arrival) :
    b.foldl (step env) s = s := by
  induction b with
  | nil => rfl
  | cons e b ih => rw [List.foldl_cons, step_of_not_looping h, ih]

theorem side_takes_of_goesOn {k : Packet}
    (h : goesOn env { s.side.prob with status := k.status } = true) :
    (s.takes env k).side = ⟨none, taken s.side.prob k.status k.msg⟩ := by
  unfold takes
  rw [if_pos h]

theorem side_takes_of_not_goesOn {k : Packet}
    (h : ¬ goesOn env { s.side.prob with status := k.status } = true) :
    (s.takes env k).side = ⟨some (-1), taken s.side.prob k.status k.msg⟩ := by
  unfold takes
  rw [if_neg h]

theorem not_looping_takes {k : Packet} {n : ℕ}
    (h : ¬ goesOn env { s.side.prob with status := k.status } = true) :
    ¬ looping { s.takes env k with packets := n } = true := by
  rw [looping_iff, side_takes_of_not_goesOn h]
  rintro ⟨hret, -⟩
  cases hret

/-- Whatever comes, it is an iteration if the client is in its loop. -/
theorem exists_takes (env : ClientEnv) (h : s.looping = true) (e : Arrival) :
    ∃ k n, s.packets ≤ n ∧ s.step env e = { s.takes env k with packets := n } := by
  cases e with
  | packet k => exact ⟨k, s.packets + 1, Nat.le_succ _, by rw [step, if_pos h]⟩
  | byte b => exact ⟨bytePacket b, s.packets, le_rfl, by rw [step, if_pos h]; rfl⟩

theorem packets_le_steps (env : ClientEnv) (s : Loop) (b : List Arrival) :
    s.packets ≤ (b.foldl (step env) s).packets := by
  induction b generalizing s with
  | nil => exact le_rfl
  | cons e b ih =>
    refine le_trans ?_ (ih _)
    by_cases h : s.looping = true
    · obtain ⟨k, n, hn, hs⟩ := exists_takes env h e
      rw [hs]
      exact hn
    · rw [step_of_not_looping h]

/-- Without bytes between them a client that fails does so with a packet. -/
theorem packets_lt_steps (env : ClientEnv) (hb : ∀ c, Arrival.byte c ∉ b) (h : s.looping = true)
    (hret : (b.foldl (step env) s).side.ret = some (-1)) :
    s.packets < (b.foldl (step env) s).packets := by
  cases b with
  | nil =>
    rw [List.foldl_nil, (looping_iff.mp h).1] at hret
    cases hret
  | cons e b =>
    cases e with
    | packet k =>
      have hstep : (s.step env (.packet k)).packets = s.packets + 1 := by rw [step, if_pos h]
      have hle := packets_le_steps env (s.step env (.packet k)) b
      rw [hstep] at hle
      exact hle
    | byte c => exact absurd List.mem_cons_self (hb c)

end Loop

/-! ### A run is one of the program -/

variable {env : ClientEnv} {p : Prob} {es : List Arrival}

/-- A client that no packet has come for yet waits for one. -/
theorem runs_waits (env : ClientEnv) (data : Ctrlmsg) (hdone : p.status ≠ .programDone) :
    Runs (next env data) true (.ret ⟨none, p⟩) [] := by
  refine .loop rfl ?_
  unfold iteration
  rw [if_pos hdone]
  exact .eof rfl (by decide) rfl rfl

theorem role_taken (p : Prob) (st : Status) (m : Ctrlmsg) : (taken p st m).role = p.role := by
  unfold taken after
  cases st <;> rfl

theorem runs_steps (env : ClientEnv) (data : Ctrlmsg) {s : Loop} (hret : s.side.ret = none)
    (hp : s.side.prob.role = .client) (es : List Arrival) :
    ∃ waits rest, (es.foldl (Loop.step env) s).ops = s.ops ++ rest ∧
      Runs (next env data) waits (.ret s.side) rest := by
  induction es generalizing s with
  | nil =>
    obtain ⟨⟨ret, q⟩, n, ops⟩ := s
    obtain rfl : ret = none := hret
    by_cases hdone : q.status = .programDone
    · exact ⟨false, [], (List.append_nil _).symm, runs_done hdone⟩
    · exact ⟨true, [], (List.append_nil _).symm, runs_waits env data hdone⟩
  | cons e es ih =>
    by_cases h : s.looping = true
    · obtain ⟨k, n, -, hstep⟩ := Loop.exists_takes env h e
      obtain ⟨⟨ret, q⟩, m, ops⟩ := s
      obtain ⟨rfl, hdone⟩ := Loop.looping_iff.mp h
      have hst : Status.ofCode k.status.code = k.status := by
        rw [Packet.status, Status.code_ofCode]
      have hops : (Loop.step env ⟨⟨none, q⟩, m, ops⟩ e).ops =
          ops ++ Client.takes env q k.status k.msg := by
        rw [hstep]
        rfl
      by_cases hgo : goesOn env { q with status := k.status } = true
      · have hside : (Loop.step env ⟨⟨none, q⟩, m, ops⟩ e).side =
            ⟨none, taken q k.status k.msg⟩ := by
          rw [hstep]
          exact Loop.side_takes_of_goesOn hgo
        obtain ⟨waits, rest, hrest, hruns⟩ := ih (s := Loop.step env ⟨⟨none, q⟩, m, ops⟩ e)
          (by rw [hside]) (by rw [hside]; exact (role_taken q k.status k.msg).trans hp)
        rw [hside] at hruns
        refine ⟨waits, Client.takes env q k.status k.msg ++ rest, ?_,
          runs_takes hp hdone hst hgo k.msg hruns⟩
        rw [List.foldl_cons, hrest, hops, List.append_assoc]
      · refine ⟨false, Client.takes env q k.status k.msg, ?_,
          runs_quits hp hdone hst (Bool.not_eq_true _ ▸ hgo) k.msg⟩
        have hended : ¬ (Loop.step env ⟨⟨none, q⟩, m, ops⟩ e).looping = true := by
          rw [hstep]
          exact Loop.not_looping_takes hgo
        rw [List.foldl_cons, Loop.steps_of_not_looping hended, hops]
    · obtain ⟨waits, rest, hops, hruns⟩ := ih hret hp
      refine ⟨waits, rest, ?_, hruns⟩
      rw [List.foldl_cons, Loop.step_of_not_looping h, hops]

/-- The client's operations are a run of the client's program. -/
theorem runs_run (env : ClientEnv) (data : Ctrlmsg) (hp : p.role = .client) (es : List Arrival) :
    ∃ waits, Runs (next env data) waits (.ret ⟨none, p⟩) (Loop.run env p es).ops := by
  obtain ⟨waits, rest, hops, hruns⟩ := runs_steps env data (s := Loop.start p) rfl hp es
  refine ⟨waits, ?_⟩
  rw [Loop.run, hops]
  exact hruns

/-! ### The bytes that make no difference -/

/-- The client with the bytes and without. -/
structure LoopAlike (s s' : Loop) : Prop where
  prob : s.side.prob = { s'.side.prob with status := s.side.prob.status }
  looping : s.looping = s'.looping
  ret : s.side.ret = s'.side.ret
  packets : s.packets = s'.packets
  answers : sent s.ops = sent s'.ops
  searches : searched s.ops = searched s'.ops

theorem searched_append (s s' : List (Op Item Act)) :
    searched (s ++ s') = searched s ++ searched s' := by
  rw [searched, acts_append, List.filterMap_append]
  rfl

section Alike

variable {s s' : Loop}

/-- What the client does with a packet does not depend on its status. -/
theorem LoopAlike.packet (h : LoopAlike s s') (k : Packet) :
    LoopAlike (s.step env (.packet k)) (s'.step env (.packet k)) := by
  by_cases hloop : s'.looping = true
  · have hq : { s.side.prob with status := k.status } =
        { s'.side.prob with status := k.status } := by
      rw [h.prob]
    have hside : (s.takes env k).side = (s'.takes env k).side := by
      unfold Loop.takes taken
      rw [hq]
    have htakes : Client.takes env s.side.prob k.status k.msg =
        Client.takes env s'.side.prob k.status k.msg := by
      rw [Client.takes, Client.takes, hq]
    rw [Loop.step, Loop.step, if_pos hloop, if_pos (h.looping.trans hloop)]
    refine ⟨?_, ?_, congrArg Side.ret hside, congrArg (· + 1) h.packets, ?_, ?_⟩
    · show (s.takes env k).side.prob =
        { (s'.takes env k).side.prob with status := (s.takes env k).side.prob.status }
      rw [hside]
    · unfold Loop.looping
      rw [show ({ s.takes env k with packets := s.packets + 1 } : Loop).side =
        ({ s'.takes env k with packets := s'.packets + 1 } : Loop).side from hside]
    · show sent (s.ops ++ Client.takes env s.side.prob k.status k.msg) =
        sent (s'.ops ++ Client.takes env s'.side.prob k.status k.msg)
      rw [sent_append, sent_append, h.answers, htakes]
    · show searched (s.ops ++ Client.takes env s.side.prob k.status k.msg) =
        searched (s'.ops ++ Client.takes env s'.side.prob k.status k.msg)
      rw [searched_append, searched_append, h.searches, htakes]
  · rwa [Loop.step_of_not_looping hloop, Loop.step_of_not_looping (by rwa [h.looping])]

/-- A status that is harmless only becomes the client's. -/
theorem takes_of_harmless (env : ClientEnv) (q : Prob) {st : Status} (h : Harmless st)
    (m : Ctrlmsg) : Client.takes env q st m = [.inn .status st.code, .act (.proc st)] ∧
      taken q st m = { q with status := st } ∧ goesOn env { q with status := st } = true ∧
      st ≠ .programDone := by
  rcases h with rfl | rfl <;> exact ⟨rfl, rfl, rfl, by decide⟩

theorem LoopAlike.byte (h : LoopAlike s s') {b : UInt8}
    (hb : s'.looping = true → Harmless (Status.ofCode b)) :
    LoopAlike (s.step env (.byte b)) s' := by
  by_cases hloop : s'.looping = true
  · obtain ⟨htakes, htaken, hgo, hne⟩ := takes_of_harmless env s.side.prob (hb hloop) ⟨0, 0⟩
    have hloop' := h.looping.trans hloop
    have hside : (s.takes env (Loop.bytePacket b)).side =
        ⟨none, { s.side.prob with status := Status.ofCode b }⟩ := by
      rw [Loop.side_takes_of_goesOn hgo]
      exact congrArg _ htaken
    have hops : (s.takes env (Loop.bytePacket b)).ops =
        s.ops ++ [.inn .status (Status.ofCode b).code, .act (.proc (Status.ofCode b))] :=
      congrArg (s.ops ++ ·) htakes
    rw [Loop.step, if_pos hloop']
    refine ⟨?_, ?_, ?_, h.packets, ?_, ?_⟩
    · rw [hside, h.prob]
    · rw [hloop, Loop.looping_iff, hside]
      exact ⟨rfl, hne⟩
    · rw [hside]
      exact (Loop.looping_iff.mp hloop).1.symm
    · rw [hops, sent_append, h.answers]
      exact List.append_nil _
    · rw [hops, searched_append, h.searches]
      exact List.append_nil _
  · rwa [Loop.step_of_not_looping (by rwa [h.looping])]

end Alike

theorem plain_append (a b : List Arrival) : plain (a ++ b) = plain a ++ plain b :=
  List.filter_append a b

theorem not_byte_mem_plain (es : List Arrival) (c : UInt8) : Arrival.byte c ∉ plain es := by
  simp [plain]

theorem loopAlike_run (h : Along (fun a e => ¬ Fatal env p a e) [] es) :
    LoopAlike (Loop.run env p es) (Loop.run env p (plain es)) := by
  induction es using List.reverseRecOn with
  | nil => exact ⟨rfl, rfl, rfl, rfl, rfl, rfl⟩
  | append_singleton es e ih =>
    obtain ⟨hes, he⟩ := along_snoc.mp h
    have halike := ih hes
    rw [Loop.run_snoc, plain_append]
    cases e with
    | packet k =>
      have hplain : Loop.run env p (plain es ++ plain [.packet k]) =
          (Loop.run env p (plain es)).step env (.packet k) := Loop.run_snoc
      rw [hplain]
      exact halike.packet k
    | byte b =>
      have hplain : plain es ++ plain [.byte b] = plain es := List.append_nil _
      rw [hplain]
      refine halike.byte fun hloop => ?_
      by_contra hb
      exact he ⟨b, rfl, hloop, hb⟩

theorem Foreign.not_goesOn (env : ClientEnv) {st : Status} (hf : Foreign st) (hh : ¬ Harmless st) (q : Prob) :
    ¬ goesOn env { q with status := st } = true := by
  rcases hf with rfl | rfl | rfl | rfl | ⟨b, rfl⟩
  · simp [goesOn]
  · simp [goesOn]
  · exact absurd (Or.inl rfl) hh
  · exact absurd (Or.inr rfl) hh
  · simp [goesOn]

/-- Behind a byte that is fatal the client has failed, with the packets that it had taken. -/
theorem run_of_fatal {a b : List Arrival} {e : Arrival}
    (ha : Along (fun a e => ¬ Fatal env p a e) [] a) (he : Fatal env p a e)
    (hf : ∀ c, e = .byte c → Foreign (Status.ofCode c)) :
    (Loop.run env p (a ++ e :: b)).side.ret = some (-1) ∧
      (Loop.run env p (a ++ e :: b)).packets = (Loop.run env p (plain a)).packets := by
  obtain ⟨c, rfl, hloop, hc⟩ := he
  have halike := loopAlike_run ha
  have hnot := (hf c rfl).not_goesOn env hc (Loop.run env p a).side.prob
  have hstep : (Loop.run env p a).step env (.byte c) =
      (Loop.run env p a).takes env (Loop.bytePacket c) := by
    rw [Loop.step, if_pos (halike.looping.trans hloop)]
  have hended : ¬ ((Loop.run env p a).step env (.byte c)).looping = true := by
    rw [hstep]
    exact Loop.not_looping_takes (n := (Loop.run env p a).packets) hnot
  rw [Loop.run_append, List.foldl_cons, Loop.steps_of_not_looping hended, hstep]
  exact ⟨congrArg Side.ret (Loop.side_takes_of_not_goesOn hnot), halike.packets⟩

theorem undisturbed_iff (env : ClientEnv) (p : Prob) (es : List Arrival)
    (hb : ∀ c, .byte c ∈ es → Foreign (Status.ofCode c)) :
    Undisturbed env p es ↔ Along (fun a e => ¬ Fatal env p a e) [] es := by
  constructor
  · intro hu
    by_contra h
    obtain ⟨a, e, b, rfl, ha, he⟩ := exists_first h
    have hfatal : Fatal env p a e := not_not.mp he
    obtain ⟨hret, hpackets⟩ := run_of_fatal (b := b) ha hfatal
      fun c hc => hb c (by rw [hc]; simp)
    obtain ⟨c, rfl, hloop, -⟩ := hfatal
    have hplain : Loop.run env p (plain (a ++ .byte c :: b)) =
        (plain b).foldl (Loop.step env) (Loop.run env p (plain a)) := by
      rw [plain_append, Loop.run_append]
      rfl
    -- without the byte the client fails with a packet that comes later
    have hlt := Loop.packets_lt_steps env (not_byte_mem_plain b) hloop
      (by rw [← hplain, ← hu.ret, hret])
    rw [← hplain, ← hu.packets, hpackets] at hlt
    exact Nat.lt_irrefl _ hlt
  · intro h
    have halike := loopAlike_run h
    exact ⟨halike.answers, halike.searches, halike.packets, halike.ret⟩

/-- A server's error between two packets, and any byte behind the session's end. -/
theorem undisturbed_iff_serverError :
    Undisturbed (plainParties false true).clientEnv (plainParties false true).client
      [.packet (Parties.packet .ctrlChanEst), .byte (-20),
        .packet (Parties.packet .programDone), .byte 66] := by
  refine (undisturbed_iff _ _ _ fun c hc => ?_).mpr ?_
  · have hc : c = -20 ∨ c = 66 := by simpa using hc
    rcases hc with rfl | rfl
    · exact .inr (.inr (.inl rfl))
    · exact .inr (.inr (.inr (.inr ⟨66, rfl⟩)))
  · simp only [along_cons, along_nil, and_true]
    refine ⟨?_, ?_, ?_, ?_⟩
    · rintro ⟨c, hc, -⟩
      cases hc
    · rintro ⟨c, hc, -, hnot⟩
      cases hc
      exact hnot (Or.inl rfl)
    · rintro ⟨c, hc, -⟩
      cases hc
    · rintro ⟨c, hc, hloop, -⟩
      revert hloop
      decide

end Client
end Session
end Probdata
