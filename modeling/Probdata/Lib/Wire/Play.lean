/-
# Playing a program

`Prog.play` runs a program where everything it meets on the stream is fixed: the
bytes that arrive before the stream ends, and for each call in turn how much it
transfers, or that it fails (`Feed`). Each such run is an execution
(`exec_play`).

Two programs that meet the same are `Alike R` if they perform the same
operations, leave the same to be met, and end with results related by `R`. The
rules follow the constructors of a program and its composition.
-/
import Probdata.Lib.Wire.Prog

namespace Probdata
namespace Wire

/-- What a program meets. A call that gets `none` fails, one that gets `some r`
transfers at most `r + 1` bytes. -/
structure Feed where
  stream : List UInt8
  calls : ℕ → Option ℕ

namespace Feed

variable (f : Feed)

/-- What is left after a call. -/
def next : Feed := { f with calls := fun n => f.calls (n + 1) }

/-- What a call for writing `bs` gets. One of no bytes, which no program here makes,
is taken for one that fails. -/
def written (bs : List UInt8) : Option ℕ :=
  if bs = [] then none else (f.calls 0).map fun r => min (r + 1) bs.length

/-- What a call for reading `n` bytes gets. -/
def taken (n : ℕ) : Option (List UInt8) := (f.calls 0).map fun r => f.stream.take (min (r + 1) n)

/-- What is left after it. -/
def rest (n : ℕ) : Feed := { f.next with stream := f.stream.drop ((f.taken n).getD []).length }

end Feed

/-- What a program has done: its operations, what it has not met, its result. -/
structure Played (Tag Act α : Type) where
  ops : List (Op Tag Act)
  feed : Feed
  result : α

variable {Tag Act α β γ δ : Type}

/-- The program goes on after some operations. -/
def Played.after (s : List (Op Tag Act)) (x : Played Tag Act α) : Played Tag Act α :=
  { x with ops := s ++ x.ops }

@[simp] theorem Played.after_ops (s : List (Op Tag Act)) (x : Played Tag Act α) :
    (x.after s).ops = s ++ x.ops := rfl

@[simp] theorem Played.after_feed (s : List (Op Tag Act)) (x : Played Tag Act α) :
    (x.after s).feed = x.feed := rfl

@[simp] theorem Played.after_result (s : List (Op Tag Act)) (x : Played Tag Act α) :
    (x.after s).result = x.result := rfl

namespace Prog

def play : Prog Tag Act α → Feed → Played Tag Act α
  | .ret a, f => ⟨[], f, a⟩
  | .act e k, f => (k.play f).after [.act e]
  | .write t bs k, f =>
    ((k (f.written bs)).play f.next).after (outs t (bs.take ((f.written bs).getD 0)))
  | .read t n k, f => ((k (f.taken n)).play (f.rest n)).after (inns t ((f.taken n).getD []))

theorem play_bind (p : Prog Tag Act α) (k : α → Prog Tag Act β) (f : Feed) :
    (p.bind k).play f = ((k (p.play f).result).play (p.play f).feed).after (p.play f).ops := by
  induction p generalizing f with
  | ret a => rfl
  | act e p ih => exact congrArg (Played.after [.act e]) (ih f)
  | write t bs p ih =>
    refine (congrArg (Played.after (outs t (bs.take ((f.written bs).getD 0))))
      (ih (f.written bs) f.next)).trans ?_
    simp only [play, Played.after, List.append_assoc]
  | read t n p ih =>
    refine (congrArg (Played.after (inns t ((f.taken n).getD []))) (ih (f.taken n) (f.rest n))).trans ?_
    simp only [play, Played.after, List.append_assoc]

end Prog

/-- What a program reads is taken from the front of the stream. -/
theorem play_stream (p : Prog Tag Act α) (f : Feed) :
    (got (p.play f).ops).map Prod.snd ++ (p.play f).feed.stream = f.stream := by
  induction p generalizing f with
  | ret a => rfl
  | act e k ih => exact ih f
  | write t bs k ih =>
    have h := ih (f.written bs) f.next
    simp only [Prog.play, Played.after_ops, Played.after_feed, got_append, got_outs,
      List.nil_append, h]
    rfl
  | read t n k ih =>
    have h := ih (f.taken n) (f.rest n)
    simp only [Prog.play, Played.after_ops, Played.after_feed, got_append, got_inns,
      List.map_append, List.map_map, List.append_assoc, h]
    rcases ht : f.taken n with _ | bs
    · simp [Feed.rest, Feed.next, ht]
    · obtain ⟨c, -, hc⟩ := Option.map_eq_some_iff.mp ht
      have hpre : bs ++ f.stream.drop bs.length = f.stream :=
        List.prefix_iff_eq_append.mp (hc ▸ List.take_prefix _ _)
      simpa [Feed.rest, Feed.next, ht, Function.comp_def] using hpre

/-- A program that is played is executed. -/
theorem exec_play (p : Prog Tag Act α) (f : Feed) :
    ∃ fs, Exec p (p.play f).ops fs (p.play f).result := by
  induction p generalizing f with
  | ret a => exact ⟨[], .ret a⟩
  | act e k ih =>
    obtain ⟨fs, h⟩ := ih f
    exact ⟨fs, .act h⟩
  | write t bs k ih =>
    obtain ⟨fs, h⟩ := ih (f.written bs) f.next
    rcases hw : f.written bs with _ | r
    · rw [hw] at h
      simp only [Prog.play, hw]
      exact ⟨_, .writeFails h⟩
    · have hr : 0 < r ∧ r ≤ bs.length := by
        unfold Feed.written at hw
        split at hw
        · exact absurd hw (by simp)
        · rename_i hne
          obtain ⟨c, -, rfl⟩ := Option.map_eq_some_iff.mp hw
          have := List.length_pos_iff.mpr hne
          omega
      rw [hw] at h
      simp only [Prog.play, hw]
      exact ⟨fs, .write r hr.1 hr.2 h⟩
  | read t n k ih =>
    obtain ⟨fs, h⟩ := ih (f.taken n) (f.rest n)
    rcases ht : f.taken n with _ | bs
    · rw [ht] at h
      simp only [Prog.play, ht]
      exact ⟨_, .readFails h⟩
    · have hlen : bs.length ≤ n := by
        obtain ⟨c, -, rfl⟩ := Option.map_eq_some_iff.mp ht
        rw [List.length_take]
        omega
      rw [ht] at h
      simp only [Prog.play, ht]
      rcases bs with _ | ⟨b, bs⟩
      · exact ⟨fs, .eof h⟩
      · exact ⟨fs, .read (b :: bs) (by simp) hlen h⟩

/-! ### The acts of a program -/

/-- All acts of a program satisfy `A`, whatever its calls get. -/
def Prog.Within (A : Act → Prop) : Prog Tag Act α → Prop
  | .ret _ => True
  | .act e k => A e ∧ k.Within A
  | .write _ _ k => ∀ r, (k r).Within A
  | .read _ _ k => ∀ r, (k r).Within A

namespace Prog.Within

variable {A : Act → Prop}

theorem bind {p : Prog Tag Act α} {k : α → Prog Tag Act β} (hp : p.Within A)
    (hk : ∀ x, (k x).Within A) : (p.bind k).Within A := by
  induction p with
  | ret a => exact hk a
  | act e p ih => exact ⟨hp.1, ih hp.2⟩
  | write t bs p ih => exact fun r => ih r (hp r)
  | read t n p ih => exact fun r => ih r (hp r)

theorem ite {c : Prop} [Decidable c] {p q : Prog Tag Act α} (hp : c → p.Within A)
    (hq : ¬ c → q.Within A) : (if c then p else q).Within A := by
  split
  · rename_i h; exact hp h
  · rename_i h; exact hq h

theorem acts {p : Prog Tag Act α} (h : p.Within A) (f : Feed) :
    ∀ e ∈ Wire.acts (p.play f).ops, A e := by
  induction p generalizing f with
  | ret a => exact fun e he => absurd he List.not_mem_nil
  | act e p ih =>
    intro e' he'
    rcases List.mem_cons.mp he' with rfl | he'
    · exact h.1
    · exact ih h.2 f e' he'
  | write t bs p ih =>
    intro e he
    simp only [play, Played.after_ops, acts_append, acts_outs, List.nil_append] at he
    exact ih _ (h _) _ e he
  | read t n p ih =>
    intro e he
    simp only [play, Played.after_ops, acts_append, acts_inns, List.nil_append] at he
    exact ih _ (h _) _ e he

end Prog.Within

/-! ### The result of a program -/

/-- Every result of a program satisfies `Q`, whatever its calls get. -/
def Prog.Yields (Q : α → Prop) : Prog Tag Act α → Prop
  | .ret a => Q a
  | .act _ k => k.Yields Q
  | .write _ _ k => ∀ r, (k r).Yields Q
  | .read _ _ k => ∀ r, (k r).Yields Q

namespace Prog.Yields

variable {Q : α → Prop} {Q' : β → Prop}

theorem bind {p : Prog Tag Act α} {k : α → Prog Tag Act β} (hp : p.Yields Q)
    (hk : ∀ x, Q x → (k x).Yields Q') : (p.bind k).Yields Q' := by
  induction p with
  | ret a => exact hk a hp
  | act e p ih => exact ih hp
  | write t bs p ih => exact fun r => ih r (hp r)
  | read t n p ih => exact fun r => ih r (hp r)

theorem trivial (p : Prog Tag Act α) : p.Yields fun _ => True := by
  induction p with
  | ret a => exact True.intro
  | act e p ih => exact ih
  | write t bs p ih => exact ih
  | read t n p ih => exact ih

/-- What comes before does not matter. -/
theorem bind_any (p : Prog Tag Act α) {k : α → Prog Tag Act β} (hk : ∀ x, (k x).Yields Q') :
    (p.bind k).Yields Q' := (trivial p).bind fun x _ => hk x

theorem ite {c : Prop} [Decidable c] {p q : Prog Tag Act α} (hp : p.Yields Q) (hq : q.Yields Q) :
    (if c then p else q).Yields Q := by
  split
  · exact hp
  · exact hq

theorem result {p : Prog Tag Act α} (h : p.Yields Q) (f : Feed) : Q (p.play f).result := by
  induction p generalizing f with
  | ret a => exact h
  | act e p ih => exact ih h f
  | write t bs p ih => exact ih _ (h _) _
  | read t n p ih => exact ih _ (h _) _

end Prog.Yields

/-! ### Two programs -/

/-- Two programs do the same, with results related by `R`. -/
def Alike (R : α → β → Prop) (p : Prog Tag Act α) (q : Prog Tag Act β) : Prop :=
  ∀ f, (p.play f).ops = (q.play f).ops ∧ (p.play f).feed = (q.play f).feed ∧
    R (p.play f).result (q.play f).result

variable {R : α → β → Prop} {R' : γ → δ → Prop}

theorem Alike.ret {x : α} {y : β} (h : R x y) :
    Alike R (.ret x : Prog Tag Act α) (.ret y : Prog Tag Act β) := fun _ => ⟨rfl, rfl, h⟩

theorem Alike.refl (p : Prog Tag Act α) : Alike Eq p p := fun _ => ⟨rfl, rfl, rfl⟩

theorem Alike.bind {p : Prog Tag Act α} {q : Prog Tag Act β} {k : α → Prog Tag Act γ}
    {l : β → Prog Tag Act δ} (h : Alike R p q) (hk : ∀ x y, R x y → Alike R' (k x) (l y)) :
    Alike R' (p.bind k) (q.bind l) := by
  intro f
  obtain ⟨hops, hfeed, hres⟩ := h f
  obtain ⟨hops', hfeed', hres'⟩ := hk _ _ hres (p.play f).feed
  rw [Prog.play_bind, Prog.play_bind, ← hfeed]
  exact ⟨by simp only [Played.after_ops, hops, hops'], hfeed', hres'⟩

/-- Both go on after the same program. -/
theorem Alike.bind_same (p : Prog Tag Act α) {k : α → Prog Tag Act γ} {l : α → Prog Tag Act δ}
    (hk : ∀ x, Alike R' (k x) (l x)) : Alike R' (p.bind k) (p.bind l) :=
  (Alike.refl p).bind fun x _ h => h ▸ hk x

/-- Both take the same branch. -/
theorem Alike.ite {c c' : Prop} [Decidable c] [Decidable c'] (hc : c ↔ c')
    {p p' : Prog Tag Act α} {q q' : Prog Tag Act β} (h : Alike R p q) (h' : Alike R p' q') :
    Alike R (if c then p else p') (if c' then q else q') := by
  by_cases hp : c
  · rw [if_pos hp, if_pos (hc.mp hp)]
    exact h
  · rw [if_neg hp, if_neg fun hq => hp (hc.mpr hq)]
    exact h'

end Wire
end Probdata
