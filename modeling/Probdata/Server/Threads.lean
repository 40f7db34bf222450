/-
# The worker threads of the server

The server creates its workers in two handlers, stops the TCP worker in one of
them unless `do_udt_only` is set, and joins in a third whatever it has a handle
of. A TCP worker that was stopped keeps its handle, so that it is joined again at
the end; which sequences of packets are served without such a slip is a short
list (`Server.orderly_iff`). A start that fails ends the server, as does a TCP
worker to stop that it has no handle of.
-/
import Probdata.Lib.Trace
import Probdata.Session.Conversation

namespace Probdata
namespace Session
namespace Server

open Wire Bytes Trace

/-! ### Orderly calls -/

/-- The worker `h` was created and has not been joined. -/
def Unjoined (b : List Act) (k : Kind) (h : ℕ) : Prop := .create k h ∈ b ∧ .join k (some h) ∉ b

/-- The packet processed last, which is the server's status. -/
def lastProc (b : List Act) : Option Status :=
  b.foldl (fun st e => match e with
    | .proc st => some st
    | _ => st) none

/-- The handle of the worker of the kind `k`. -/
def held (b : List Act) (k : Kind) : Option ℕ :=
  b.foldl (fun h e => match e with
    | .create k' n => if k' = k then some n else h
    | .forget k' _ => if k' = k then none else h
    | _ => h) none

/-- A worker has been told to stop: the TCP worker was cancelled, and the UDT
worker looks at the server's status. -/
def Told (b : List Act) : Kind → ℕ → Prop
  | .tcp, h => .cancel .tcp (some h) ∈ b
  | .udt, _ => lastProc b ≠ some .runM2mUdt

/-- An act is in order after the acts `b`: a worker that is cancelled or joined
was created and not joined before, and told to stop before it is joined; a
handle that is overwritten is not that of a worker still to be joined. -/
def InOrderAfter (b : List Act) : Act → Prop
  | .cancel k h => ∃ n, h = some n ∧ Unjoined b k n
  | .join k h => ∃ n, h = some n ∧ Unjoined b k n ∧ Told b k n
  | .create k _ => ∀ n, held b k = some n → ¬ Unjoined b k n
  | .forget k _ => ∀ n, held b k = some n → ¬ Unjoined b k n
  | _ => True

/-- Every act is in order. -/
def Orderly (es : List Act) : Prop := ∀ b e a, es = b ++ e :: a → InOrderAfter b e

theorem orderly_iff_along {es : List Act} : Orderly es ↔ Along InOrderAfter [] es := by
  rw [along_iff]
  rfl

/-! ### A sequence of packets -/

/-- What the server does with the packets `ks`, until it leaves its loop. -/
def conduct (env : ServerEnv) (p : Prob) : List Packet → List (Op Item Act)
  | [] => if goesOn p.status then [] else acting (forgets p)
  | k :: ks =>
    if goesOn p.status then
      match endsAt env p k with
      | none => takes p k ++ conduct env (taken p k) ks
      | some _ => cuts env p k
    else acting (forgets p)

section Conduct

variable {env : ServerEnv} {p : Prob} {k : Packet} {ks : List Packet}

theorem conduct_takes (hgo : goesOn p.status = true) (hends : endsAt env p k = none) :
    conduct env p (k :: ks) = takes p k ++ conduct env (taken p k) ks := by
  rw [conduct, if_pos hgo, hends]

theorem conduct_cuts (hgo : goesOn p.status = true) {r : ℤ} (hends : endsAt env p k = some r) :
    conduct env p (k :: ks) = cuts env p k := by
  rw [conduct, if_pos hgo, hends]

theorem conduct_of_not_goesOn (h : goesOn p.status = false) :
    conduct env p ks = acting (forgets p) := by
  cases ks <;> exact if_neg (by simp [h])

end Conduct

theorem runs_conduct (env : ServerEnv) {p : Prob} (hp : p.role = .server) (ks : List Packet) :
    ∃ waits, Runs (next env) waits (.ret ⟨none, p⟩) (conduct env p ks) := by
  induction ks generalizing p with
  | nil =>
    unfold conduct
    split
    · rename_i h
      exact ⟨true, runs_waits h⟩
    · rename_i h
      exact ⟨false, runs_forgets (Bool.not_eq_true _ ▸ h)⟩
  | cons k ks ih =>
    by_cases hgo : goesOn p.status = true
    · cases hends : endsAt env p k with
      | none =>
        have hrole : (taken p k).role = .server := by
          unfold taken after
          split <;> exact hp
        obtain ⟨waits, hr⟩ := ih hrole
        rw [conduct_takes hgo hends]
        exact ⟨waits, runs_takes hp hgo hends hr⟩
      | some r =>
        rw [conduct_cuts hgo hends]
        exact ⟨false, runs_cuts hgo hends⟩
    · have hend : goesOn p.status = false := Bool.not_eq_true _ ▸ hgo
      rw [conduct_of_not_goesOn hend]
      exact ⟨false, runs_forgets hend⟩

/-- What matters of a packet: a start of TCP, which overwrites its handle even where
it fails to create the thread; a start of UDT, alone or after TCP was stopped; TCP
stopped, and nothing started; the end that the client asks for; and the packets at
which the server only leaves its loop. -/
inductive Event
  | tcp
  | udt (alone : Bool)
  | stop
  | done
  | quit
  deriving DecidableEq, Repr

/-- The events of the packets up to the one that ends the loop, where the next worker
is the `n`th. Each handshake sets whether UDT is alone; a start that fails ends the
server, and is no event if it fails at the profile. -/
def events (env : ServerEnv) : Bool → ℕ → List Packet → List Event
  | _, _, [] => []
  | alone, n, k :: ks =>
    match k.status with
    | .twowayHandshake => events env ((0 : BitVec 32).slt k.msg.doUdtOnly) n ks
    | .runM2mTcp =>
      match env.run n with
      | some true => .tcp :: events env alone (n + 1) ks
      | some false => [.tcp]
      | none => []
    | .runM2mUdt =>
      match env.run n with
      | some true => .udt alone :: events env alone (n + 1) ks
      | some false => [.udt alone]
      | none => if alone then [] else [.stop]
    | .programDone => [.done]
    | .serverError => [.quit]
    | .clientTerminate => [.quit]
    | _ => events env alone n ks

/-- The sequences that leave all workers in order: nothing was started, or UDT
alone once if the client then asks for the end; and as long as the server is in
its loop TCP once or UDT alone once, in either order, or TCP, UDT, and TCP. Where
TCP runs it may be stopped for a UDT that fails. -/
def Tidy (es : List Event) : Prop :=
  es ∈ [[], [.tcp], [.udt true], [.tcp, .udt true], [.udt true, .tcp], [.tcp, .udt false],
    [.tcp, .udt false, .tcp], [.tcp, .stop], [.tcp, .udt true, .stop], [.udt true, .tcp, .stop],
    [.tcp, .udt false, .tcp, .stop], [.done], [.udt true, .done], [.quit]]

/-! ### The books of the two workers -/

/-- What has become of the last worker of a kind. -/
inductive WorkerState
  | none
  | live
  | joined
  deriving DecidableEq, Repr

/-- After the acts `b` the last worker of the kind `k`, whose handle is `h`, is in
the state `st`. -/
def Holds (b : List Act) (k : Kind) (h : Option ℕ) : WorkerState → Prop
  | .none => h = none ∧ held b k = none ∧ ∀ n, .create k n ∉ b
  | .live => ∃ n, h = some n ∧ held b k = some n ∧ Unjoined b k n ∧ .cancel k (some n) ∉ b
  | .joined => ∃ n, h = some n ∧ held b k = some n ∧ .join k (some n) ∈ b

/-- The thread that an act is about. -/
def thread : Act → Option ℕ
  | .create _ n => some n
  | .cancel _ h => h
  | .join _ h => h
  | _ => none

/-- The books that go with the server's state `p` after the acts `b`; no act is
about a thread that is still to be created. -/
structure Books (b : List Act) (p : Prob) (st : Kind → WorkerState) : Prop where
  holds : ∀ k, Holds b k (worker k p) (st k)
  fresh : ∀ e ∈ b, ∀ n, thread e = some n → n < p.threads

/-- An act about another thing than the workers of the kind `k`. -/
def Apart (k : Kind) : Act → Prop
  | .create k' _ | .cancel k' _ | .join k' _ | .forget k' _ => k' ≠ k
  | _ => True

theorem held_append {b es : List Act} {k : Kind} (hes : ∀ e ∈ es, Apart k e) :
    held (b ++ es) k = held b k := by
  unfold held
  rw [List.foldl_append]
  generalize List.foldl _ none b = h
  induction es generalizing h with
  | nil => rfl
  | cons e es ih =>
    rw [List.foldl_cons, ih fun e he => hes e (List.mem_cons_of_mem _ he)]
    have he := hes e List.mem_cons_self
    cases e <;> first | rfl | exact if_neg he

theorem Holds.append {b es : List Act} {k : Kind} {h : Option ℕ} {st : WorkerState}
    (hes : ∀ e ∈ es, Apart k e) (hb : Holds b k h st) : Holds (b ++ es) k h st := by
  have hc : ∀ n, .create k n ∉ es := fun n hn => hes _ hn rfl
  have hj : ∀ n, .join k n ∉ es := fun n hn => hes _ hn rfl
  have hx : ∀ n, .cancel k n ∉ es := fun n hn => hes _ hn rfl
  cases st with
  | none => simpa [Holds, held_append hes, hc] using hb
  | live => simpa [Holds, Unjoined, held_append hes, hc, hj, hx] using hb
  | joined => simpa [Holds, held_append hes, hj] using hb

section Holds

variable {b : List Act} {k : Kind} {o : Option ℕ} {st : WorkerState}

/-- A handle may be overwritten unless its worker lives. -/
theorem Holds.overwrite_iff (h : Holds b k o st) :
    (∀ n, held b k = some n → ¬ Unjoined b k n) ↔ st ≠ .live := by
  cases st with
  | none => simp [h.2.1]
  | live =>
    obtain ⟨n, -, hn, hu, -⟩ := h
    simpa [hn] using hu
  | joined =>
    obtain ⟨n, -, hn, hj⟩ := h
    simp [hn, Unjoined, hj]

theorem Holds.unjoined_iff (h : Holds b k o st) :
    (∃ n, o = some n ∧ Unjoined b k n) ↔ st = .live := by
  cases st with
  | none => simp [h.1]
  | live =>
    obtain ⟨n, rfl, -, hu, -⟩ := h
    simpa using hu
  | joined =>
    obtain ⟨n, rfl, -, hj⟩ := h
    simp [Unjoined, hj]

/-- Where there is no handle no worker was created. -/
theorem Holds.eq_none (h : Holds b k none st) : st = .none := by
  cases st with
  | none => rfl
  | live =>
    obtain ⟨n, hn, -⟩ := h
    cases hn
  | joined =>
    obtain ⟨n, hn, -⟩ := h
    cases hn

/-- A TCP worker that lives has not been told to stop; one that was told is
joined at once. -/
theorem Holds.not_join_tcp (h : Holds b .tcp o st) : ¬ InOrderAfter b (.join .tcp o) := by
  rintro ⟨n, rfl, hu, htold⟩
  cases st with
  | none => cases h.1
  | live =>
    obtain ⟨m, hm, -, -, hc⟩ := h
    cases hm
    exact hc htold
  | joined =>
    obtain ⟨m, hm, -, hj⟩ := h
    cases hm
    exact hu.2 hj

/-- A new worker, whose number nothing has been about. -/
theorem Holds.create {n : ℕ} (hc : .cancel k (some n) ∉ b) (hj : .join k (some n) ∉ b) :
    Holds (b ++ [.create k n]) k (some n) .live := by
  refine ⟨n, rfl, ?_, ⟨by simp, by simpa using hj⟩, by simpa using hc⟩
  simp [held]

/-- The TCP worker is stopped. -/
theorem Holds.stop (h : Holds b .tcp o .live) :
    Holds (b ++ [.cancel .tcp o, .join .tcp o]) .tcp o .joined := by
  obtain ⟨n, rfl, hn, -, -⟩ := h
  refine ⟨n, rfl, ?_, by simp⟩
  simpa [held] using hn

theorem Holds.join (h : Holds b k o .live) : Holds (b ++ [.join k o]) k o .joined := by
  obtain ⟨n, rfl, hn, -, -⟩ := h
  refine ⟨n, rfl, ?_, by simp⟩
  simpa [held] using hn

end Holds

/-! ### A packet -/

section Packet

variable {b : List Act} {p : Prob} {st : Kind → WorkerState}

theorem acts_takes (p : Prob) (k : Packet) : acts (takes p k) = .proc k.status ::
    match k.status with
    | .runM2mTcp => starts .tcp p
    | .runM2mUdt => stops p ++ starts .udt p
    | .programDone => joins .udt p ++ joins .tcp p
    | _ => [] := by
  unfold takes handles
  cases k.status with
  | runM2mTcp | runM2mUdt | programDone =>
    simp [acts, reply]
    rfl
  | twowayHandshake | runD2dDb | runD2dTcp | runD2dUdt | runM2mDb => simp [acts, reply]
  | _ => rfl

theorem acts_cuts (env : ServerEnv) (p : Prob) (k : Packet) :
    acts (cuts env p k) = .proc k.status ::
      match k.status with
      | .runM2mTcp => fails env .tcp p
      | .runM2mUdt => if strays p then [.cancel .tcp none] else stops p ++ fails env .udt p
      | _ => [] := by
  unfold cuts breaks
  cases k.status with
  | runM2mTcp =>
    simp [acts]
    rfl
  | runM2mUdt =>
    have hstrays : strays { p with status := .runM2mUdt } = strays p := rfl
    dsimp only
    rw [hstrays]
    split
    · rfl
    · simp [acts, reply]
      rfl
  | _ => rfl

/-- Acts that are about no worker, and a state with the same workers. -/
theorem Books.other {es : List Act} {q : Prob} (h : Books b p st)
    (hes : ∀ e ∈ es, (∀ k, Apart k e) ∧ thread e = none) (hq : ∀ k, worker k q = worker k p)
    (hthr : q.threads = p.threads) : Books (b ++ es) q st := by
  refine ⟨fun k => ?_, fun e he n hn => ?_⟩
  · rw [hq]
    exact (h.holds k).append fun e he => (hes e he).1 k
  · rw [hthr]
    rcases List.mem_append.mp he with he | he
    · exact h.fresh e he n hn
    · rw [(hes e he).2] at hn
      cases hn

/-- A worker is started. -/
theorem Books.create (k : Kind) (h : Books b p st) :
    Books (b ++ starts k p) (created k p) (Function.update st k .live) := by
  have hnot : ∀ e, thread e = some p.threads → e ∉ b := fun e he hmem =>
    Nat.lt_irrefl _ (h.fresh e hmem _ he)
  have hthr : (created k p).threads = p.threads + 1 := by cases k <;> rfl
  refine ⟨fun k' => ?_, fun e he n hn => ?_⟩
  · by_cases hk : k' = k
    · subst hk
      have hb := Holds.create (b := b ++ [.profile k']) (k := k') (n := p.threads)
        (by simpa using hnot _ rfl) (by simpa using hnot _ rfl)
      rw [List.append_assoc] at hb
      rw [Function.update_self, show worker k' (created k' p) = some p.threads by cases k' <;> rfl]
      exact hb
    · rw [Function.update_of_ne hk,
        show worker k' (created k p) = worker k' p by cases k <;> cases k' <;> first | rfl | simp at hk]
      exact (h.holds k').append (by simp [starts, Apart, Ne.symm hk])
  · rw [hthr]
    simp only [starts, List.mem_append, List.mem_cons, List.not_mem_nil, or_false] at he
    rcases he with he | rfl | rfl
    · exact Nat.lt_succ_of_lt (h.fresh e he n hn)
    · cases hn
    · cases hn
      exact Nat.lt_succ_self _

/-- The TCP worker is stopped. -/
theorem Books.stop (h : Books b p st) (hst : st .tcp = .live) :
    Books (b ++ [.cancel .tcp p.tcpWorker, .join .tcp p.tcpWorker]) p
      (Function.update st .tcp .joined) := by
  have hlive : Holds b .tcp p.tcpWorker .live := hst ▸ h.holds .tcp
  refine ⟨fun k => ?_, fun e he n hn => ?_⟩
  · cases k with
    | tcp => exact hlive.stop
    | udt => exact (h.holds .udt).append (by simp [Apart])
  · rcases List.mem_append.mp he with he | he
    · exact h.fresh e he n hn
    · obtain ⟨m, hm, -, hu, -⟩ := hlive
      have hthread : thread e = p.tcpWorker := by
        simp only [List.mem_cons, List.not_mem_nil, or_false] at he
        rcases he with rfl | rfl <;> rfl
      rw [hthread, hm] at hn
      cases hn
      exact h.fresh _ hu.1 _ rfl

/-- What is left of the TCP worker when UDT starts. -/
theorem Books.stops (h : Books b p st) (hst : p.udtOnly = true ∨ st .tcp = .live) :
    Books (b ++ stops p) p (if p.udtOnly then st else Function.update st .tcp .joined) := by
  unfold Server.stops
  by_cases hudt : p.udtOnly = true
  · rw [if_pos hudt, if_pos hudt, List.append_nil]
    exact h
  · rw [if_neg hudt, if_neg hudt]
    exact h.stop (hst.resolve_left hudt)

theorem along_starts_iff (k : Kind) (h : Books b p st) :
    Along InOrderAfter b (starts k p) ↔ st k ≠ .live := by
  have hb : Holds (b ++ [.profile k]) k (worker k p) (st k) :=
    (h.holds k).append (by simp [Apart])
  rw [starts, along_cons, along_cons]
  simp only [along_nil, and_true]
  exact ⟨fun hx => hb.overwrite_iff.mp hx.2, fun hx => ⟨trivial, hb.overwrite_iff.mpr hx⟩⟩

/-- A start that fails. -/
theorem along_fails_iff (env : ServerEnv) (k : Kind) (h : Books b p st) :
    Along InOrderAfter b (fails env k p) ↔ (env.run p.threads ≠ none → st k ≠ .live) := by
  unfold fails
  split
  · rename_i hrun
    simp [hrun]
  · rename_i hrun
    have hb : Holds (b ++ [.profile k]) k (worker k p) (st k) :=
      (h.holds k).append (by simp [Apart])
    simp only [along_cons, along_nil, and_true]
    exact ⟨fun hx _ => hb.overwrite_iff.mp hx.2, fun hx => ⟨trivial, hb.overwrite_iff.mpr (hx hrun)⟩⟩

theorem along_stops_iff (h : Books b p st) :
    Along InOrderAfter b (stops p) ↔ p.udtOnly = true ∨ st .tcp = .live := by
  unfold stops
  split
  · rename_i hudt
    simp [hudt]
  · rename_i hudt
    have hcancel : InOrderAfter b (.cancel .tcp p.tcpWorker) ↔ st .tcp = .live :=
      (h.holds .tcp).unjoined_iff
    simp only [along_cons, along_nil, and_true, hudt, Bool.false_eq_true, false_or, hcancel]
    refine ⟨fun hx => hx.1, fun hlive => ⟨hlive, ?_⟩⟩
    have hl : Holds b .tcp p.tcpWorker .live := hlive ▸ h.holds .tcp
    obtain ⟨n, hn, -, hu, -⟩ := hl
    refine ⟨n, hn, ?_, ?_⟩
    · simpa [Unjoined] using hu
    · simp [Told, hn]

theorem along_joins_tcp_iff {st : WorkerState} (hb : Holds b .tcp (worker .tcp p) st) :
    Along InOrderAfter b (joins .tcp p) ↔ st = .none := by
  unfold joins
  split
  · rename_i hne
    simp only [along_cons, along_nil, and_true]
    refine iff_of_false hb.not_join_tcp fun hnone => hne ?_
    rw [hnone] at hb
    exact hb.1
  · rename_i hne
    rw [not_not.mp hne] at hb
    exact iff_of_true trivial hb.eq_none

theorem along_joins_udt_iff {st : WorkerState} (hb : Holds b .udt (worker .udt p) st)
    (hlast : lastProc b ≠ some .runM2mUdt) :
    Along InOrderAfter b (joins .udt p) ↔ st ≠ .joined := by
  unfold joins
  split
  · rename_i hne
    have hjoin : InOrderAfter b (.join .udt (worker .udt p)) ↔ st = .live := by
      rw [← hb.unjoined_iff]
      constructor
      · rintro ⟨n, hn, hu, -⟩
        exact ⟨n, hn, hu⟩
      · rintro ⟨n, hn, hu⟩
        exact ⟨n, hn, hu, hlast⟩
    simp only [along_cons, along_nil, and_true, hjoin]
    cases st with
    | none => exact absurd hb.1 hne
    | live => simp
    | joined => simp
  · rename_i hne
    rw [not_not.mp hne] at hb
    rw [hb.eq_none]
    simp

theorem apart_joins_udt (p : Prob) : ∀ e ∈ joins .udt p, Apart .tcp e := by
  unfold joins
  split <;> simp [Apart]

/-- At the end a TCP worker is never in order: one that was stopped is joined
again, one that was not is joined without being stopped. -/
theorem along_joins_iff (h : Books b p st) (hlast : lastProc b ≠ some .runM2mUdt) :
    Along InOrderAfter b (joins .udt p ++ joins .tcp p) ↔
      st .udt ≠ .joined ∧ st .tcp = .none := by
  rw [along_append, along_joins_udt_iff (h.holds .udt) hlast,
    along_joins_tcp_iff ((h.holds .tcp).append (apart_joins_udt p))]

theorem along_forgets_iff (h : Books b p st) :
    Along InOrderAfter b (forgets p) ↔ st .tcp ≠ .live ∧ st .udt ≠ .live := by
  have hb : Holds (b ++ [.forget .udt p.udtWorker]) .tcp p.tcpWorker (st .tcp) :=
    (h.holds .tcp).append (by simp [Apart])
  simp only [forgets, along_cons, along_nil, and_true]
  rw [and_comm]
  exact and_congr hb.overwrite_iff (h.holds .udt).overwrite_iff

/-- The workers that are left to be cleaned up once they have been joined. -/
theorem along_joins_forgets (h : Books b p st) (hst : st .udt ≠ .joined ∧ st .tcp = .none) :
    Along InOrderAfter (b ++ (joins .udt p ++ joins .tcp p)) (forgets p) := by
  have htcp := h.holds .tcp
  have hudt := h.holds .udt
  rw [hst.2] at htcp
  have hnone : joins .tcp p = [] := if_neg (not_not.mpr htcp.1)
  have hforget : ∃ st', st' ≠ .live ∧ Holds (b ++ joins .udt p) .udt p.udtWorker st' := by
    cases hs : st .udt with
    | joined => exact absurd hs hst.1
    | none =>
      rw [hs] at hudt
      have hnil : joins .udt p = [] := if_neg (not_not.mpr hudt.1)
      rw [hnil, List.append_nil]
      exact ⟨.none, nofun, hudt⟩
    | live =>
      rw [hs] at hudt
      have hne : worker .udt p ≠ none := by
        obtain ⟨n, hn, -⟩ := hudt
        simp [hn]
      have hjoin : joins .udt p = [.join .udt (worker .udt p)] := if_pos hne
      rw [hjoin]
      exact ⟨.joined, nofun, hudt.join⟩
  obtain ⟨st', hst', hb⟩ := hforget
  have hapart : ∀ e ∈ [Act.forget .udt p.udtWorker], Apart .tcp e := by simp [Apart]
  have htcp' := (htcp.append (apart_joins_udt p)).append hapart
  rw [hnone, List.append_nil, forgets, along_cons, along_cons]
  exact ⟨hb.overwrite_iff.mpr hst', htcp'.overwrite_iff.mpr nofun, trivial⟩

end Packet

/-! ### A sequence of packets -/

/-- Which events keep the workers in order, given their states. -/
def Keeps : (Kind → WorkerState) → List Event → Prop
  | _, [] => True
  | st, .tcp :: es => st .tcp ≠ .live ∧ Keeps (Function.update st .tcp .live) es
  | st, .udt alone :: es => (alone = true ∨ st .tcp = .live) ∧ st .udt ≠ .live ∧
      Keeps (Function.update (if alone then st else Function.update st .tcp .joined) .udt .live) es
  | st, .stop :: es => st .tcp = .live ∧ es = []
  | st, .done :: es => (st .udt ≠ .joined ∧ st .tcp = .none) ∧ es = []
  | st, .quit :: es => (st .tcp ≠ .live ∧ st .udt ≠ .live) ∧ es = []

section Keeps

variable {st : Kind → WorkerState} {es : List Event}

/-- Two live workers leave room for nothing but a stop. -/
theorem keeps_live_live (ht : st .tcp = .live) (hu : st .udt = .live) :
    Keeps st es ↔ es = [] ∨ es = [.stop] := by
  rcases es with _ | ⟨_ | _ | _ | _ | _, es⟩ <;> simp [Keeps, ht, hu]

theorem keeps_joined_live (ht : st .tcp = .joined) (hu : st .udt = .live) :
    Keeps st es ↔ es = [] ∨ es = [.tcp] ∨ es = [.tcp, .stop] := by
  rcases es with _ | ⟨_ | _ | _ | _ | _, es⟩
  case cons.tcp => simp [Keeps, ht, keeps_live_live, hu]
  all_goals simp [Keeps, ht, hu]

theorem keeps_live_none (ht : st .tcp = .live) (hu : st .udt = .none) :
    Keeps st es ↔ es = [] ∨ es = [.udt true] ∨ es = [.udt false] ∨ es = [.udt false, .tcp] ∨
      es = [.stop] ∨ es = [.udt true, .stop] ∨ es = [.udt false, .tcp, .stop] := by
  rcases es with _ | ⟨_ | (_ | _) | _ | _ | _, es⟩
  case cons.udt.false => simp [Keeps, ht, hu, keeps_joined_live]
  case cons.udt.true => simp [Keeps, ht, hu, keeps_live_live]
  all_goals simp [Keeps, ht, hu]

theorem keeps_none_live (ht : st .tcp = .none) (hu : st .udt = .live) :
    Keeps st es ↔ es = [] ∨ es = [.tcp] ∨ es = [.tcp, .stop] ∨ es = [.done] := by
  rcases es with _ | ⟨_ | _ | _ | _ | _, es⟩
  case cons.tcp => simp [Keeps, ht, hu, keeps_live_live]
  all_goals simp [Keeps, ht, hu]

end Keeps

theorem keeps_iff_tidy (es : List Event) : Keeps (fun _ => .none) es ↔ Tidy es := by
  rcases es with _ | ⟨_ | (_ | _) | _ | _ | _, es⟩
  case cons.tcp => simp [Keeps, Tidy, keeps_live_none]
  case cons.udt.true => simp [Keeps, Tidy, keeps_none_live]
  all_goals simp [Keeps, Tidy]

section Packets

variable {env : ServerEnv} {b : List Act} {p : Prob} {st : Kind → WorkerState} {k : Packet}
  {ks : List Packet}

/-- The server's status is the packet's. -/
theorem Books.proc (h : Books b p st) (s : Status) :
    Books (b ++ [.proc s]) { p with status := s } st :=
  h.other (by simp [Apart, thread]) (fun k => by cases k <;> rfl) rfl

/-- The acts from a packet on that the server goes on after. -/
theorem along_takes_iff (hgo : goesOn p.status = true) (hends : endsAt env p k = none) :
    Along InOrderAfter b (acts (conduct env p (k :: ks))) ↔
      Along InOrderAfter (b ++ [.proc k.status]) ((match k.status with
        | .runM2mTcp => starts .tcp p
        | .runM2mUdt => stops p ++ starts .udt p
        | .programDone => joins .udt p ++ joins .tcp p
        | _ => []) ++ acts (conduct env (taken p k) ks)) := by
  have hin : InOrderAfter b (.proc k.status) := trivial
  rw [conduct_takes hgo hends, acts_append, acts_takes, List.cons_append, along_cons,
    and_iff_right hin]

/-- The acts of a packet that the server ends at. -/
theorem along_cuts_iff (hgo : goesOn p.status = true) {r : ℤ} (hends : endsAt env p k = some r) :
    Along InOrderAfter b (acts (conduct env p (k :: ks))) ↔
      Along InOrderAfter (b ++ [.proc k.status]) (match k.status with
        | .runM2mTcp => fails env .tcp p
        | .runM2mUdt => if strays p then [.cancel .tcp none] else stops p ++ fails env .udt p
        | _ => []) := by
  have hin : InOrderAfter b (.proc k.status) := trivial
  rw [conduct_cuts hgo hends, acts_cuts, along_cons, and_iff_right hin]

/-- The books of a server decide whether its acts on the packets are in order. -/
def Decided (env : ServerEnv) (ks : List Packet) : Prop :=
  ∀ b p st, Books b p st → goesOn p.status = true →
    (Along InOrderAfter b (acts (conduct env p ks)) ↔ Keeps st (events env p.udtOnly p.threads ks))

/-- A start of TCP. -/
theorem Decided.tcp (hks : Decided env ks) (hs : k.status = .runM2mTcp) : Decided env (k :: ks) := by
  intro b p st h hgo
  have hproc := h.proc .runM2mTcp
  have htaken : taken p k = created .tcp { p with status := .runM2mTcp } := by
    rw [taken, after, hs]
  have hends : endsAt env p k = if env.run p.threads = some true then none else some (-1) := by
    rw [endsAt, hs]
    rfl
  have hevents : events env p.udtOnly p.threads (k :: ks) = match env.run p.threads with
      | some true => .tcp :: events env p.udtOnly (p.threads + 1) ks
      | some false => [.tcp]
      | none => [] := by
    rw [events, hs]
  rw [hevents]
  rcases hrun : env.run p.threads with _ | _ | _
  · have hfails := along_fails_iff env .tcp hproc
    rw [along_cuts_iff hgo (hends.trans (if_neg (by simp [hrun]))), hs]
    exact hfails.trans (iff_of_true (fun hne => absurd hrun hne) trivial)
  · have hfails := along_fails_iff env .tcp hproc
    rw [along_cuts_iff hgo (hends.trans (if_neg (by simp [hrun]))), hs]
    refine hfails.trans ⟨fun hx => ⟨hx ?_, trivial⟩, fun hx _ => hx.1⟩
    exact hrun ▸ Option.some_ne_none _
  · have hstart := along_starts_iff .tcp hproc
    have hrest := hks _ _ _ (hproc.create .tcp) rfl
    rw [along_takes_iff hgo (hends.trans (if_pos hrun)), hs, htaken, along_append]
    exact and_congr hstart hrest

/-- A start of UDT, for which TCP is stopped if it is not alone. -/
theorem Decided.udt (hks : Decided env ks) (hs : k.status = .runM2mUdt) : Decided env (k :: ks) := by
  intro b p st h hgo
  have hproc := h.proc .runM2mUdt
  have htaken : taken p k = created .udt { p with status := .runM2mUdt } := by
    rw [taken, after, hs]
  have hends : endsAt env p k = if strays p then some sigsegv
      else if env.run p.threads = some true then none else some (-1) := by
    rw [endsAt, hs]
    rfl
  have hevents : events env p.udtOnly p.threads (k :: ks) = match env.run p.threads with
      | some true => .udt p.udtOnly :: events env p.udtOnly (p.threads + 1) ks
      | some false => [.udt p.udtOnly]
      | none => if p.udtOnly then [] else [.stop] := by
    rw [events, hs]
  have hbooks : Books (b ++ [.proc .runM2mUdt]) p st :=
    h.other (by simp [Apart, thread]) (fun _ => rfl) rfl
  have hstop := along_stops_iff hbooks
  rw [hevents]
  by_cases hstrays : strays p = true
  · -- the process is killed, and none of the events has a TCP worker to stop
    obtain ⟨hudt, hnone⟩ : p.udtOnly = false ∧ p.tcpWorker = none := by simpa [strays] using hstrays
    have hholds := h.holds .tcp
    rw [show worker .tcp p = none from hnone] at hholds
    have htcp := hholds.eq_none
    rw [along_cuts_iff hgo (hends.trans (if_pos hstrays)), hs]
    dsimp only
    rw [if_pos hstrays]
    refine iff_of_false ?_ ?_
    · rintro ⟨⟨n, hn, -⟩, -⟩
      cases hn
    · rcases env.run p.threads with _ | _ | _ <;> simp [hudt, Keeps, htcp]
  have hst : (if p.udtOnly then st else Function.update st .tcp .joined) .udt = st .udt := by
    split <;> simp
  -- TCP is stopped, and a UDT follows in the rest or fails
  rcases hrun : env.run p.threads with _ | _ | _
  · rw [along_cuts_iff hgo (hends.trans ((if_neg hstrays).trans (if_neg (by simp [hrun])))), hs]
    dsimp only
    rw [if_neg hstrays, along_append]
    refine (and_congr hstop (iff_of_true ?_ trivial)).trans ?_
    · rw [fails, if_pos hrun]
      exact along_nil
    · cases p.udtOnly with
      | true => simp [Keeps]
      | false => simp [Keeps]
  · rw [along_cuts_iff hgo (hends.trans ((if_neg hstrays).trans (if_neg (by simp [hrun])))), hs]
    dsimp only
    rw [if_neg hstrays, along_append]
    refine (and_congr_left' hstop).trans (and_congr_right fun hx => ?_)
    have hfails := along_fails_iff env .udt (hbooks.stops hx)
    rw [hst] at hfails
    refine hfails.trans ⟨fun hx => ⟨hx ?_, trivial⟩, fun hx _ => hx.1⟩
    exact hrun ▸ Option.some_ne_none _
  · rw [along_takes_iff hgo (hends.trans ((if_neg hstrays).trans (if_pos hrun))), hs, htaken]
    dsimp only
    rw [List.append_assoc, along_append, along_append]
    refine (and_congr_left' hstop).trans (and_congr_right fun hx => ?_)
    have hstart := along_starts_iff .udt (hbooks.stops hx)
    have hrest := hks _ _ _ ((hproc.stops hx).create .udt) rfl
    rw [hst] at hstart
    exact and_congr hstart hrest

theorem decided (env : ServerEnv) (ks : List Packet) : Decided env ks := by
  induction ks with
  | nil =>
    intro b p st h hgo
    rw [conduct, if_pos hgo]
    exact iff_of_true trivial trivial
  | cons k ks ih =>
    generalize hs : k.status = s
    cases s with
    | runM2mTcp => exact ih.tcp hs
    | runM2mUdt => exact ih.udt hs
    | programDone =>
      intro b p st h hgo
      have hproc := h.proc .programDone
      have htaken : taken p k = { p with status := .programDone } := by rw [taken, after, hs]
      have hlast : lastProc (b ++ [.proc .programDone]) ≠ some .runM2mUdt := by simp [lastProc]
      have hjoins := along_joins_iff hproc hlast
      rw [along_takes_iff hgo (by rw [endsAt, hs]; rfl), htaken, events, hs,
        conduct_of_not_goesOn rfl, acts_acting]
      dsimp only
      rw [along_append]
      rw [Keeps, and_iff_left rfl]
      exact (and_iff_left_of_imp fun hx => along_joins_forgets hproc (hjoins.mp hx)).trans hjoins
    | serverError =>
      intro b p st h hgo
      have htaken : taken p k = { p with status := .serverError } := by rw [taken, after, hs]
      rw [along_takes_iff hgo (by rw [endsAt, hs]; rfl), htaken, events, hs,
        conduct_of_not_goesOn rfl, acts_acting]
      exact (along_forgets_iff (h.proc .serverError)).trans (and_iff_left rfl).symm
    | clientTerminate =>
      intro b p st h hgo
      have htaken : taken p k = { p with status := .clientTerminate } := by rw [taken, after, hs]
      rw [along_takes_iff hgo (by rw [endsAt, hs]; rfl), htaken, events, hs,
        conduct_of_not_goesOn rfl, acts_acting]
      exact (along_forgets_iff (h.proc .clientTerminate)).trans (and_iff_left rfl).symm
    | twowayHandshake =>
      intro b p st h hgo
      have htaken : taken p k = Prob.accept { p with status := .twowayHandshake } k.msg := by
        rw [taken, after, hs]
      have hbooks : Books (b ++ [.proc .twowayHandshake]) (taken p k) st := by
        rw [htaken]
        exact h.other (by simp [Apart, thread]) (fun k => by cases k <;> rfl) rfl
      have hrest := ih _ _ _ hbooks (by rw [htaken]; rfl)
      rw [along_takes_iff hgo (by rw [endsAt, hs]; rfl), events, hs]
      rw [htaken] at hrest ⊢
      exact hrest
    | _ =>
      intro b p st h hgo
      have htaken : taken p k = { p with status := k.status } := by rw [taken, after, hs]
      have hrest := ih _ _ _ (h.proc k.status) (by rw [hs]; rfl)
      rw [along_takes_iff hgo (by rw [endsAt, hs]; rfl), htaken, events]
      rw [hs] at hrest ⊢
      exact hrest

end Packets

/-- A server that accepts a client and gets the packets `ks` calls everything on
its workers in order exactly if the sequence is one of the tidy ones. -/
theorem orderly_iff (env : ServerEnv) {p : Prob} (hp : Configured .server p) {id : List UInt8}
    (hid : id.length = pIdpktSize) (ks : List Packet) :
    (∃ waits, Runs (next env) waits (start env p) (opens env id ++ conduct env (opened p id) ks)) ∧
      (Orderly (acts (opens env id ++ conduct env (opened p id) ks)) ↔
        Tidy (events env p.udtOnly p.threads ks)) := by
  have hrole : (opened p id).role = .server := hp.1
  obtain ⟨hfresh, -⟩ := hp.fresh
  have hbooks : Books [] (opened p id) fun _ => .none := by
    refine ⟨fun k => ⟨?_, rfl, fun n => List.not_mem_nil⟩, nofun⟩
    cases k with
    | tcp => exact hfresh.tcpWorker
    | udt => exact hfresh.udtWorker
  have hopens : acts (opens env id) = [] := by simp [opens, reply]
  constructor
  · obtain ⟨waits, hr⟩ := runs_conduct env hrole ks
    exact ⟨waits, (does_start env p hid).runs hr⟩
  · have hdecided := decided env ks [] (opened p id) _ hbooks rfl
    rw [acts_append, hopens, List.nil_append, orderly_iff_along]
    exact hdecided.trans (keeps_iff_tidy _)

/-- The packets of a client that wants UDT alone and has a record. -/
theorem orderly_iff_udt : Orderly (acts
    (opens (plainParties true true).serverEnv (List.replicate pIdpktSize 0) ++
      conduct (plainParties true true).serverEnv
        (opened (plainParties true true).server (List.replicate pIdpktSize 0))
        [⟨Status.twowayHandshake.code, ⟨1, 100⟩⟩, Parties.packet .runM2mDb,
          Parties.packet .runM2mUdt, Parties.packet .programDone])) :=
  (orderly_iff _ (plainParties true true).serverConfigured rfl _).2.mpr (by
    unfold Tidy
    decide)

/-- In the session of a client with the default options the server joins its TCP
worker once when UDT starts, and again at the end. -/
theorem not_orderly_plain : ∃ σ, (plainParties false false).Reachable σ ∧
    ¬ Orderly (acts σ.rightLog) := by
  obtain ⟨σ, hσ, -, hr⟩ := (plainParties false false).exists_end
  refine ⟨σ, hσ, fun h => ?_⟩
  have hacts : acts σ.rightLog = [.proc .twowayHandshake, .proc .runM2mDb, .proc .runM2mTcp,
      .profile .tcp, .create .tcp 0, .proc .runM2mUdt, .cancel .tcp (some 0), .join .tcp (some 0),
      .profile .udt, .create .udt 1, .proc .programDone, .join .udt (some 1)] ++
      .join .tcp (some 0) :: [.forget .udt (some 1), .forget .tcp (some 0)] := by
    rw [hr]
    decide
  obtain ⟨n, hn, hu, -⟩ := h _ _ _ hacts
  cases hn
  exact hu.2 (by decide)

end Server
end Session
end Probdata
