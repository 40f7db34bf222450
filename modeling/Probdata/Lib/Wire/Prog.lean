/-
# Programs over a byte stream

`Prog` is a sequential program whose steps are the system calls `write` and
`read` on a stream, and acts of its own. A call carries a tag: the item that the
program takes the bytes for. The tags are ghosts, no byte on the stream has one.

`Does p s x`: where every call succeeds, however much it transfers, and the
bytes read are those that `s` says, the program performs the operations `s` and
ends with `x`. `Exec p s x` says the same of one execution in which calls may
fail, and the stream may end.
-/
import Mathlib.Data.List.Basic

namespace Probdata
namespace Wire

/-- A call gets `none` where the system call returns -1; a `read` gets no bytes
at the end of the stream. -/
inductive Prog (Tag Act α : Type)
  | ret (a : α)
  | act (e : Act) (k : Prog Tag Act α)
  | write (t : Tag) (bs : List UInt8) (k : Option ℕ → Prog Tag Act α)
  | read (t : Tag) (n : ℕ) (k : Option (List UInt8) → Prog Tag Act α)

/-- An operation performed: a byte written or read, or an act. -/
inductive Op (Tag Act : Type)
  | out (t : Tag) (b : UInt8)
  | inn (t : Tag) (b : UInt8)
  | act (e : Act)
  deriving DecidableEq, Repr

variable {Tag Act α β : Type}

namespace Prog

def bind (p : Prog Tag Act α) (f : α → Prog Tag Act β) : Prog Tag Act β :=
  match p with
  | .ret a => f a
  | .act e k => .act e (k.bind f)
  | .write t bs k => .write t bs fun r => (k r).bind f
  | .read t n k => .read t n fun r => (k r).bind f

instance : Monad (Prog Tag Act) where
  pure := .ret
  bind := .bind

/-- An act alone. -/
def perform (e : Act) : Prog Tag Act Unit := .act e (.ret ())

@[simp] theorem pure_eq (a : α) : (pure a : Prog Tag Act α) = .ret a := rfl

@[simp] theorem bind_eq (p : Prog Tag Act α) (f : α → Prog Tag Act β) : p >>= f = p.bind f := rfl

@[simp] theorem ret_bind (a : α) (f : α → Prog Tag Act β) : (Prog.ret a).bind f = f a := rfl

end Prog

/-! ### Operations -/

def outs (t : Tag) (bs : List UInt8) : List (Op Tag Act) := bs.map (.out t)

def inns (t : Tag) (bs : List UInt8) : List (Op Tag Act) := bs.map (.inn t)

def acting (es : List Act) : List (Op Tag Act) := es.map .act

/-- The bytes written, with their tags. -/
def sent : List (Op Tag Act) → List (Tag × UInt8)
  | [] => []
  | .out t b :: s => (t, b) :: sent s
  | _ :: s => sent s

/-- The bytes read, with the tags they were read under. -/
def got : List (Op Tag Act) → List (Tag × UInt8)
  | [] => []
  | .inn t b :: s => (t, b) :: got s
  | _ :: s => got s

/-- The acts performed. -/
def acts : List (Op Tag Act) → List Act
  | [] => []
  | .act e :: s => e :: acts s
  | _ :: s => acts s

@[simp] theorem sent_nil : sent ([] : List (Op Tag Act)) = [] := rfl

@[simp] theorem got_nil : got ([] : List (Op Tag Act)) = [] := rfl

@[simp] theorem acts_nil : acts ([] : List (Op Tag Act)) = [] := rfl

@[simp] theorem sent_append (s s' : List (Op Tag Act)) : sent (s ++ s') = sent s ++ sent s' := by
  induction s with
  | nil => rfl
  | cons o s ih => cases o <;> simp [sent, ih]

@[simp] theorem got_append (s s' : List (Op Tag Act)) : got (s ++ s') = got s ++ got s' := by
  induction s with
  | nil => rfl
  | cons o s ih => cases o <;> simp [got, ih]

@[simp] theorem acts_append (s s' : List (Op Tag Act)) : acts (s ++ s') = acts s ++ acts s' := by
  induction s with
  | nil => rfl
  | cons o s ih => cases o <;> simp [acts, ih]

theorem mem_acts {e : Act} {s : List (Op Tag Act)} : e ∈ acts s ↔ .act e ∈ s := by
  induction s with
  | nil => simp
  | cons o s ih => cases o <;> simp [acts, ih]

@[simp] theorem sent_outs (t : Tag) (bs : List UInt8) :
    sent (outs t bs : List (Op Tag Act)) = bs.map (Prod.mk t) := by
  induction bs with
  | nil => rfl
  | cons b bs ih =>
    show (t, b) :: sent (outs t bs : List (Op Tag Act)) = _
    rw [ih]
    rfl

@[simp] theorem got_inns (t : Tag) (bs : List UInt8) :
    got (inns t bs : List (Op Tag Act)) = bs.map (Prod.mk t) := by
  induction bs with
  | nil => rfl
  | cons b bs ih =>
    show (t, b) :: got (inns t bs : List (Op Tag Act)) = _
    rw [ih]
    rfl

@[simp] theorem sent_inns (t : Tag) (bs : List UInt8) :
    sent (inns t bs : List (Op Tag Act)) = [] := by
  induction bs with
  | nil => rfl
  | cons b bs ih => exact ih

@[simp] theorem got_outs (t : Tag) (bs : List UInt8) :
    got (outs t bs : List (Op Tag Act)) = [] := by
  induction bs with
  | nil => rfl
  | cons b bs ih => exact ih

@[simp] theorem acts_outs (t : Tag) (bs : List UInt8) :
    acts (outs t bs : List (Op Tag Act)) = [] := by
  induction bs with
  | nil => rfl
  | cons b bs ih => exact ih

@[simp] theorem acts_inns (t : Tag) (bs : List UInt8) :
    acts (inns t bs : List (Op Tag Act)) = [] := by
  induction bs with
  | nil => rfl
  | cons b bs ih => exact ih

@[simp] theorem acts_acting (es : List Act) : acts (acting es : List (Op Tag Act)) = es := by
  induction es with
  | nil => rfl
  | cons e es ih =>
    show e :: acts (acting es : List (Op Tag Act)) = _
    rw [ih]

@[simp] theorem sent_acting (es : List Act) : sent (acting es : List (Op Tag Act)) = [] := by
  induction es with
  | nil => rfl
  | cons e es ih => exact ih

@[simp] theorem got_acting (es : List Act) : got (acting es : List (Op Tag Act)) = [] := by
  induction es with
  | nil => rfl
  | cons e es ih => exact ih

@[simp] theorem outs_nil (t : Tag) : (outs t [] : List (Op Tag Act)) = [] := rfl

@[simp] theorem inns_nil (t : Tag) : (inns t [] : List (Op Tag Act)) = [] := rfl

@[simp] theorem acting_nil : (acting [] : List (Op Tag Act)) = [] := rfl

/-- The bytes read. -/
def received (s : List (Op Tag Act)) : List UInt8 := (got s).map Prod.snd

@[simp] theorem received_append (s s' : List (Op Tag Act)) :
    received (s ++ s') = received s ++ received s' := by
  simp [received]

@[simp] theorem received_inns (t : Tag) (bs : List UInt8) :
    received (inns t bs : List (Op Tag Act)) = bs := by
  simp [received, Function.comp_def]

@[simp] theorem received_outs (t : Tag) (bs : List UInt8) :
    received (outs t bs : List (Op Tag Act)) = [] := by
  simp [received]

@[simp] theorem received_nil : received ([] : List (Op Tag Act)) = [] := rfl

theorem outs_take_append_drop (t : Tag) (r : ℕ) (bs : List UInt8) :
    (outs t (bs.take r) ++ outs t (bs.drop r) : List (Op Tag Act)) = outs t bs := by
  rw [outs, outs, ← List.map_append, List.take_append_drop]
  rfl

theorem inns_take_append_drop (t : Tag) (r : ℕ) (bs : List UInt8) :
    (inns t (bs.take r) ++ inns t (bs.drop r) : List (Op Tag Act)) = inns t bs := by
  rw [inns, inns, ← List.map_append, List.take_append_drop]
  rfl

/-! ### What a program does -/

/-- Where no call fails the program performs `s` and ends with `x`, in whatever
pieces the bytes are transferred. -/
inductive Does : Prog Tag Act α → List (Op Tag Act) → α → Prop
  | ret (x : α) : Does (.ret x) [] x
  | act {e : Act} {k : Prog Tag Act α} {s : List (Op Tag Act)} {x : α} :
      Does k s x → Does (.act e k) (.act e :: s) x
  | write {t : Tag} {bs : List UInt8} {k : Option ℕ → Prog Tag Act α} {s : List (Op Tag Act)}
      {x : α} : bs ≠ [] →
      (∀ r, 0 < r → r ≤ bs.length → Does (k (some r)) (outs t (bs.drop r) ++ s) x) →
      Does (.write t bs k) (outs t bs ++ s) x
  | read {t : Tag} {n : ℕ} {bs : List UInt8} {k : Option (List UInt8) → Prog Tag Act α}
      {s : List (Op Tag Act)} {x : α} : 0 < n → bs.length = n →
      (∀ r, 0 < r → r ≤ n → Does (k (some (bs.take r))) (inns t (bs.drop r) ++ s) x) →
      Does (.read t n k) (inns t bs ++ s) x

theorem Does.bind {p : Prog Tag Act α} {f : α → Prog Tag Act β} {s s' : List (Op Tag Act)} {x : α}
    {y : β} (hp : Does p s x) (hf : Does (f x) s' y) : Does (p.bind f) (s ++ s') y := by
  induction hp with
  | ret x => exact hf
  | act _ ih => exact .act (ih hf)
  | write hne _ ih =>
    rw [List.append_assoc]
    refine .write hne fun r h0 hr => ?_
    rw [← List.append_assoc]
    exact ih r h0 hr hf
  | read h0 hn _ ih =>
    rw [List.append_assoc]
    refine .read h0 hn fun r h0 hr => ?_
    rw [← List.append_assoc]
    exact ih r h0 hr hf

/-- A program, and a value made of its result. -/
theorem Does.bind_ret {p : Prog Tag Act α} {f : α → Prog Tag Act β} {s : List (Op Tag Act)} {x : α}
    {y : β} (hp : Does p s x) (hf : f x = .ret y) : Does (p.bind f) s y := by
  have hret : Does (f x) [] y := hf ▸ .ret y
  have h := hp.bind hret
  rwa [List.append_nil] at h

/-- A call that failed. -/
inductive Fault
  | write
  | read
  deriving DecidableEq, Repr

/-- One execution: calls transfer something, fail, or find the end of the
stream. `fs` are the calls that failed. -/
inductive Exec : Prog Tag Act α → List (Op Tag Act) → List Fault → α → Prop
  | ret (x : α) : Exec (.ret x) [] [] x
  | act {e : Act} {k : Prog Tag Act α} {s : List (Op Tag Act)} {fs : List Fault} {x : α} :
      Exec k s fs x → Exec (.act e k) (.act e :: s) fs x
  | write {t : Tag} {bs : List UInt8} {k : Option ℕ → Prog Tag Act α} {s : List (Op Tag Act)}
      {fs : List Fault} {x : α} (r : ℕ) : 0 < r → r ≤ bs.length → Exec (k (some r)) s fs x →
      Exec (.write t bs k) (outs t (bs.take r) ++ s) fs x
  | writeFails {t : Tag} {bs : List UInt8} {k : Option ℕ → Prog Tag Act α}
      {s : List (Op Tag Act)} {fs : List Fault} {x : α} :
      Exec (k none) s fs x → Exec (.write t bs k) s (.write :: fs) x
  | read {t : Tag} {n : ℕ} {k : Option (List UInt8) → Prog Tag Act α} {s : List (Op Tag Act)}
      {fs : List Fault} {x : α} (bs : List UInt8) : bs ≠ [] → bs.length ≤ n →
      Exec (k (some bs)) s fs x → Exec (.read t n k) (inns t bs ++ s) fs x
  | eof {t : Tag} {n : ℕ} {k : Option (List UInt8) → Prog Tag Act α} {s : List (Op Tag Act)}
      {fs : List Fault} {x : α} : Exec (k (some [])) s fs x → Exec (.read t n k) s fs x
  | readFails {t : Tag} {n : ℕ} {k : Option (List UInt8) → Prog Tag Act α}
      {s : List (Op Tag Act)} {fs : List Fault} {x : α} :
      Exec (k none) s fs x → Exec (.read t n k) s (.read :: fs) x

/-- The execution in which every call transfers all of its bytes. -/
theorem Does.exec {p : Prog Tag Act α} {s : List (Op Tag Act)} {x : α} (h : Does p s x) :
    Exec p s [] x := by
  induction h with
  | ret x => exact .ret x
  | act _ ih => exact .act ih
  | @write t bs k s x hne _ ih =>
    have hpos := List.length_pos_iff.mpr hne
    have hk := ih bs.length hpos (Nat.le_refl _)
    rw [List.drop_length, outs_nil, List.nil_append] at hk
    have h := Exec.write (t := t) bs.length hpos (Nat.le_refl _) hk
    rwa [List.take_length] at h
  | @read t n bs k s x h0 hn _ ih =>
    have hk := ih n h0 (Nat.le_refl _)
    rw [← hn, List.take_length, List.drop_length, inns_nil, List.nil_append] at hk
    exact .read bs (List.length_pos_iff.mp (hn ▸ h0)) (Nat.le_of_eq hn) hk

theorem Exec.bind_inv {p : Prog Tag Act α} {f : α → Prog Tag Act β} {s : List (Op Tag Act)}
    {fs : List Fault} {y : β} (h : Exec (p.bind f) s fs y) :
    ∃ s₁ s₂ fs₁ fs₂ x, s = s₁ ++ s₂ ∧ fs = fs₁ ++ fs₂ ∧ Exec p s₁ fs₁ x ∧ Exec (f x) s₂ fs₂ y := by
  induction p generalizing s fs with
  | ret a => exact ⟨[], s, [], fs, a, rfl, rfl, .ret a, h⟩
  | act e k ih =>
    cases h with
    | act h =>
      obtain ⟨s₁, s₂, fs₁, fs₂, x, rfl, rfl, h1, h2⟩ := ih h
      exact ⟨_, s₂, fs₁, fs₂, x, rfl, rfl, .act h1, h2⟩
  | write t bs k ih =>
    cases h with
    | write r h0 hr h =>
      obtain ⟨s₁, s₂, fs₁, fs₂, x, rfl, rfl, h1, h2⟩ := ih _ h
      exact ⟨_, s₂, fs₁, fs₂, x, (List.append_assoc _ _ _).symm, rfl, .write r h0 hr h1, h2⟩
    | writeFails h =>
      obtain ⟨s₁, s₂, fs₁, fs₂, x, rfl, rfl, h1, h2⟩ := ih _ h
      exact ⟨s₁, s₂, _, fs₂, x, rfl, rfl, .writeFails h1, h2⟩
  | read t n k ih =>
    cases h with
    | read bs h0 hr h =>
      obtain ⟨s₁, s₂, fs₁, fs₂, x, rfl, rfl, h1, h2⟩ := ih _ h
      exact ⟨_, s₂, fs₁, fs₂, x, (List.append_assoc _ _ _).symm, rfl, .read bs h0 hr h1, h2⟩
    | eof h =>
      obtain ⟨s₁, s₂, fs₁, fs₂, x, rfl, rfl, h1, h2⟩ := ih _ h
      exact ⟨s₁, s₂, fs₁, fs₂, x, rfl, rfl, .eof h1, h2⟩
    | readFails h =>
      obtain ⟨s₁, s₂, fs₁, fs₂, x, rfl, rfl, h1, h2⟩ := ih _ h
      exact ⟨s₁, s₂, _, fs₂, x, rfl, rfl, .readFails h1, h2⟩

theorem Exec.bind {p : Prog Tag Act α} {f : α → Prog Tag Act β} {s s' : List (Op Tag Act)}
    {fs fs' : List Fault} {x : α} {y : β} (hp : Exec p s fs x) (hf : Exec (f x) s' fs' y) :
    Exec (p.bind f) (s ++ s') (fs ++ fs') y := by
  induction hp with
  | ret x => exact hf
  | act _ ih => exact .act (ih hf)
  | write r h0 hr _ ih => rw [List.append_assoc]; exact .write r h0 hr (ih hf)
  | writeFails _ ih => exact .writeFails (ih hf)
  | read bs h0 hr _ ih => rw [List.append_assoc]; exact .read bs h0 hr (ih hf)
  | eof _ ih => exact .eof (ih hf)
  | readFails _ ih => exact .readFails (ih hf)

end Wire
end Probdata
