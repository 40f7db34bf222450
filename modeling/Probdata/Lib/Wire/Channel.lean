/-
# One program writes, another reads

Two programs at the ends of a byte queue. The kernel decides whose call it
answers next and how much that call transfers: a `write` and a `read` may fail,
a `write` may accept nothing, and a `read` gets nothing only at the end of the
stream, where the queue is empty and the writer has finished.

A party keeps, for each act it has performed, the bytes that its calls have
transferred since the act before.
-/
import Mathlib.Data.List.Basic
import Mathlib.Data.List.Infix
import Probdata.Lib.Wire.Prog

namespace Probdata
namespace Wire

variable {Tag Act : Type}

/-- A program, the bytes transferred since its last act, and its acts, each with
the bytes transferred before it. -/
structure Party (Tag Act : Type) where
  prog : Prog Tag Act Unit
  moved : List UInt8
  log : List (List UInt8 × Act)

/-- The program performs its acts up to the next call. -/
def Prog.settle : Prog Tag Act Unit → List UInt8 → List (List UInt8 × Act) → Party Tag Act
  | .act e k, moved, log => k.settle [] (log ++ [(moved, e)])
  | p, moved, log => ⟨p, moved, log⟩

namespace Party

variable (p : Party Tag Act)

def start (q : Prog Tag Act Unit) : Party Tag Act := q.settle [] []

/-- A call has transferred `bs`, and the program goes on with `q`. -/
def goes (bs : List UInt8) (q : Prog Tag Act Unit) : Party Tag Act :=
  q.settle (p.moved ++ bs) p.log

def finished : Bool :=
  match p.prog with
  | .ret _ => true
  | _ => false

/-- What its calls have transferred up to its acts, a list an act. -/
def chunks : List (List UInt8) := p.log.map Prod.fst

/-- All that its calls have transferred. -/
def bytes : List UInt8 := p.chunks.flatten ++ p.moved

end Party

/-- What the kernel does: the next call of the writer, or of the reader, fails
(`none`) or transfers `r` bytes. -/
inductive Choice
  | write (r : Option ℕ)
  | read (r : Option ℕ)
  deriving DecidableEq, Repr

structure Channel (Tag Act : Type) where
  sender : Party Tag Act
  receiver : Party Tag Act
  queue : List UInt8

namespace Channel

def start (p q : Prog Tag Act Unit) : Channel Tag Act := ⟨.start p, .start q, []⟩

/-- The state after a choice of the kernel, none where it has no such choice. -/
def step (σ : Channel Tag Act) : Choice → Option (Channel Tag Act)
  | .write r =>
    match σ.sender.prog, r with
    | .write _ _ k, none => some { σ with sender := σ.sender.goes [] (k none) }
    | .write _ bs k, some r =>
      if r ≤ bs.length then
        some { σ with
          sender := σ.sender.goes (bs.take r) (k (some r))
          queue := σ.queue ++ bs.take r }
      else none
    | _, _ => none
  | .read r =>
    match σ.receiver.prog, r with
    | .read _ _ k, none => some { σ with receiver := σ.receiver.goes [] (k none) }
    | .read _ n k, some r =>
      if r ≤ n ∧ r ≤ σ.queue.length ∧ (r = 0 → σ.queue = [] ∧ σ.sender.finished) then
        some { σ with
          receiver := σ.receiver.goes (σ.queue.take r) (k (some (σ.queue.take r)))
          queue := σ.queue.drop r }
      else none
    | _, _ => none

def run : List Choice → Channel Tag Act → Option (Channel Tag Act)
  | [], σ => some σ
  | c :: cs, σ => (σ.step c).bind (run cs)

def finished (σ : Channel Tag Act) : Bool := σ.sender.finished && σ.receiver.finished

/-! ### What a step does -/

variable {σ τ : Channel Tag Act}

theorem step_write {r : Option ℕ} (h : σ.step (.write r) = some τ) :
    ∃ t bs k, σ.sender.prog = .write t bs k ∧ (∀ n, r = some n → n ≤ bs.length) ∧
      τ = { σ with
        sender := σ.sender.goes (bs.take (r.getD 0)) (k r)
        queue := σ.queue ++ bs.take (r.getD 0) } := by
  unfold step at h
  cases hp : σ.sender.prog with
  | write t bs k =>
    rw [hp] at h
    cases r with
    | none =>
      cases h
      exact ⟨t, bs, k, rfl, by simp, by simp⟩
    | some r =>
      dsimp only at h
      split at h
      · rename_i hr
        cases h
        exact ⟨t, bs, k, rfl, by simpa using hr, rfl⟩
      · cases h
  | ret a => rw [hp] at h; cases r <;> cases h
  | act e k => rw [hp] at h; cases r <;> cases h
  | read t n k => rw [hp] at h; cases r <;> cases h

theorem step_readFails (h : σ.step (.read none) = some τ) :
    ∃ t n k, σ.receiver.prog = .read t n k ∧
      τ = { σ with receiver := σ.receiver.goes [] (k none) } := by
  unfold step at h
  cases hp : σ.receiver.prog with
  | read t n k =>
    rw [hp] at h
    cases h
    exact ⟨t, n, k, rfl, rfl⟩
  | ret a => rw [hp] at h; cases h
  | act e k => rw [hp] at h; cases h
  | write t bs k => rw [hp] at h; cases h

theorem step_read {r : ℕ} (h : σ.step (.read (some r)) = some τ) :
    ∃ t n k, σ.receiver.prog = .read t n k ∧ r ≤ n ∧ r ≤ σ.queue.length ∧
      (r = 0 → σ.queue = [] ∧ σ.sender.finished = true) ∧
      τ = { σ with
        receiver := σ.receiver.goes (σ.queue.take r) (k (some (σ.queue.take r)))
        queue := σ.queue.drop r } := by
  unfold step at h
  cases hp : σ.receiver.prog with
  | read t n k =>
    rw [hp] at h
    dsimp only at h
    split at h
    · rename_i hr
      cases h
      exact ⟨t, n, k, rfl, hr.1, hr.2.1, hr.2.2, rfl⟩
    · cases h
  | ret a => rw [hp] at h; cases h
  | act e k => rw [hp] at h; cases h
  | write t bs k => rw [hp] at h; cases h

theorem exists_step_write {t : Tag} {bs : List UInt8} {k : Option ℕ → Prog Tag Act Unit} {r : ℕ}
    (hk : σ.sender.prog = .write t bs k) (hr : r ≤ bs.length) :
    ∃ τ, σ.step (.write (some r)) = some τ := by
  unfold step
  rw [hk]
  dsimp only
  rw [if_pos hr]
  exact ⟨_, rfl⟩

theorem exists_step_read {t : Tag} {n r : ℕ} {k : Option (List UInt8) → Prog Tag Act Unit}
    (hk : σ.receiver.prog = .read t n k) (hn : r ≤ n) (hq : r ≤ σ.queue.length)
    (h0 : r = 0 → σ.queue = [] ∧ σ.sender.finished = true) :
    ∃ τ, σ.step (.read (some r)) = some τ := by
  unfold step
  rw [hk]
  dsimp only
  rw [if_pos ⟨hn, hq, h0⟩]
  exact ⟨_, rfl⟩

/-! ### Runs -/

/-- What holds at the start and is kept by every choice, with the choices so far,
holds after every run. -/
theorem run_induction {P : List Choice → Channel Tag Act → Prop} {cs : List Choice}
    (h0 : P [] σ) (hstep : ∀ {cs c ρ ρ'}, P cs ρ → ρ.step c = some ρ' → P (cs ++ [c]) ρ')
    (h : run cs σ = some τ) : P cs τ := by
  suffices hall : ∀ cs' ds ρ, P ds ρ → run cs' ρ = some τ → P (ds ++ cs') τ from
    hall cs [] σ h0 h
  intro cs'
  induction cs' with
  | nil =>
    intro ds ρ hP hr
    cases hr
    rwa [List.append_nil]
  | cons c cs' ih =>
    intro ds ρ hP hr
    obtain ⟨ρ', hs, hr⟩ := Option.bind_eq_some_iff.mp hr
    have hP' := ih (ds ++ [c]) ρ' (hstep hP hs) hr
    rwa [List.append_assoc] at hP'

end Channel

/-! ### The bytes on their way -/

theorem Prog.bytes_settle (q : Prog Tag Act Unit) (moved : List UInt8)
    (log : List (List UInt8 × Act)) :
    (q.settle moved log).bytes = (log.map Prod.fst).flatten ++ moved := by
  induction q generalizing moved log with
  | act e k ih =>
    rw [Prog.settle, ih]
    simp
  | ret a => rfl
  | write t bs k _ => rfl
  | read t n k _ => rfl

theorem Party.bytes_goes (p : Party Tag Act) (bs : List UInt8) (q : Prog Tag Act Unit) :
    (p.goes bs q).bytes = p.bytes ++ bs := by
  rw [Party.goes, Prog.bytes_settle, Party.bytes, Party.chunks, List.append_assoc]

/-- What the reader has got, and then the queue, is what the writer has written. -/
theorem Channel.bytes_step {σ τ : Channel Tag Act} {c : Choice} (h : σ.step c = some τ)
    (hb : σ.sender.bytes = σ.receiver.bytes ++ σ.queue) :
    τ.sender.bytes = τ.receiver.bytes ++ τ.queue := by
  cases c with
  | write r =>
    obtain ⟨t, bs, k, -, -, rfl⟩ := step_write h
    simp only [Party.bytes_goes, hb, List.append_assoc]
  | read r =>
    cases r with
    | none =>
      obtain ⟨t, n, k, -, rfl⟩ := step_readFails h
      simp only [Party.bytes_goes, hb, List.append_nil]
    | some r =>
      obtain ⟨t, n, k, -, -, -, -, rfl⟩ := step_read h
      simp only [Party.bytes_goes, hb, List.append_assoc, List.take_append_drop]

theorem Channel.bytes_start (p q : Prog Tag Act Unit) :
    (start p q).sender.bytes = (start p q).receiver.bytes ++ (start p q).queue := by
  simp only [start, Party.start, Prog.bytes_settle]
  rfl

/-! ### A stream in pieces -/

/-- Pieces of the lengths given, as many as there are; after the first one that is
shorter all are empty. -/
inductive Fits {α : Type} : List (List α) → List ℕ → Prop
  | nil (ns : List ℕ) : Fits [] ns
  | full {c : List α} {cs : List (List α)} {ns : List ℕ} :
      Fits cs ns → Fits (c :: cs) (c.length :: ns)
  | short {c : List α} {k n : ℕ} {ns : List ℕ} :
      c.length ≤ n → k ≤ ns.length → Fits (c :: List.replicate k []) (n :: ns)

namespace Fits

variable {α : Type} {cs : List (List α)} {ns : List ℕ}

/-- One more piece, behind full ones. -/
theorem ofFull {c : List α} {n : ℕ} {ms : List ℕ} (h : cs.map List.length = ns)
    (hc : c.length ≤ n) : Fits (cs ++ [c]) (ns ++ n :: ms) := by
  induction cs generalizing ns with
  | nil =>
    subst h
    exact .short (k := 0) hc (Nat.zero_le _)
  | cons d cs ih =>
    subst h
    exact .full (ih rfl)

/-- One more piece that is empty. -/
theorem snoc_nil (h : Fits cs ns) (hlt : cs.length < ns.length) : Fits (cs ++ [[]]) ns := by
  induction h with
  | nil ns =>
    cases ns with
    | nil => cases hlt
    | cons n ns => exact .short (k := 0) (Nat.zero_le n) (Nat.zero_le _)
  | full h ih => exact .full (ih (Nat.lt_of_succ_lt_succ hlt))
  | @short c k n ns hc hk =>
    have hk' : k + 1 ≤ ns.length := by simpa [Nat.succ_le_iff] using hlt
    rw [List.cons_append, ← List.replicate_succ']
    exact .short hc hk'

end Fits

section

variable {α : Type} {cs ms : List (List α)} {c m : List α}

/-- The first piece of a stream that is as long as the first part is that part. -/
theorem eq_of_prefix_append {x y : List α} (h : c ++ x <+: m ++ y) (hlen : c.length = m.length) :
    c = m ∧ x <+: y := by
  have hc : c = m := (List.prefix_of_prefix_length_le ((List.prefix_append c x).trans h)
    (List.prefix_append m y) hlen.le).eq_of_length hlen
  subst hc
  exact ⟨rfl, (List.prefix_append_right_inj c).mp h⟩

/-- Full pieces of a concatenation are its parts. -/
theorem prefix_of_full (hlen : cs.map List.length <+: ms.map List.length)
    (hi : cs.flatten <+: ms.flatten) : cs <+: ms := by
  induction cs generalizing ms with
  | nil => exact List.nil_prefix
  | cons c cs ih =>
    cases ms with
    | nil => exact absurd hlen.length_le (by simp)
    | cons m ms =>
      rw [List.map_cons, List.map_cons, List.cons_prefix_cons] at hlen
      obtain ⟨rfl, hi'⟩ := eq_of_prefix_append hi hlen.1
      exact List.cons_prefix_cons.mpr ⟨rfl, ih hlen.2 hi'⟩

/-- Pieces of a concatenation, cut at its lengths, are its parts or begin them. -/
theorem Fits.initial (h : Fits cs (ms.map List.length)) (hi : cs.flatten <+: ms.flatten) {i : ℕ}
    (hc : cs[i]? = some c) : ∃ m, ms[i]? = some m ∧ c <+: m := by
  generalize hns : ms.map List.length = ns at h
  induction h generalizing ms i with
  | nil ns => cases hc
  | @full d cs ns h ih =>
    cases ms with
    | nil => cases hns
    | cons m ms =>
      obtain ⟨hm, hms⟩ := List.cons.inj hns
      obtain ⟨rfl, hi'⟩ := eq_of_prefix_append hi hm.symm
      cases i with
      | zero => exact ⟨d, rfl, by cases hc; exact List.prefix_rfl⟩
      | succ i => exact ih hi' hc hms
  | @short d k n ns hd hk =>
    cases ms with
    | nil => cases hns
    | cons m ms =>
      obtain ⟨rfl, rfl⟩ := List.cons.inj hns
      have hd' : d <+: m := List.prefix_of_prefix_length_le ((List.prefix_append d _).trans hi)
        (List.prefix_append m _) hd
      cases i with
      | zero => exact ⟨m, rfl, by cases hc; exact hd'⟩
      | succ i =>
        rw [List.getElem?_cons_succ] at hc ⊢
        obtain ⟨hlt, rfl⟩ := List.getElem?_eq_some_iff.mp hc
        rw [List.length_replicate] at hlt
        rw [List.length_map] at hk
        exact ⟨ms[i], List.getElem?_eq_getElem (hlt.trans_le hk), by simp⟩

/-- Pieces that make up the whole concatenation are its parts. -/
theorem Fits.of_flatten (h : Fits cs (ms.map List.length)) (hi : cs.flatten = ms.flatten) :
    cs <+: ms := by
  generalize hns : ms.map List.length = ns at h
  induction h generalizing ms with
  | nil ns => exact List.nil_prefix
  | @full d cs ns h ih =>
    cases ms with
    | nil => cases hns
    | cons m ms =>
      obtain ⟨hm, hms⟩ := List.cons.inj hns
      obtain ⟨rfl, hi'⟩ := List.append_inj hi hm.symm
      exact List.cons_prefix_cons.mpr ⟨rfl, ih hi' hms⟩
  | @short d k n ns hd hk =>
    cases ms with
    | nil => cases hns
    | cons m ms =>
      obtain ⟨rfl, rfl⟩ := List.cons.inj hns
      have hnil : (List.replicate k ([] : List α)).flatten = [] := by simp
      rw [List.flatten_cons, List.flatten_cons, hnil, List.append_nil] at hi
      -- the short piece is all there is
      have hlen := congrArg List.length hi
      rw [List.length_append] at hlen
      have hms : ms.flatten = [] := List.length_eq_zero_iff.mp (by omega)
      rw [hms, List.append_nil] at hi
      subst hi
      refine List.cons_prefix_cons.mpr ⟨rfl, ?_⟩
      have hall : ms = List.replicate ms.length [] :=
        List.eq_replicate_iff.mpr ⟨rfl, fun m hm => List.flatten_eq_nil_iff.mp hms m hm⟩
      rw [List.length_map] at hk
      rw [hall, ← Nat.add_sub_of_le hk, List.replicate_add]
      exact List.prefix_append _ _

end

end Wire
end Probdata
