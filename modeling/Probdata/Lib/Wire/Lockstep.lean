/-
# Two parties in lock step

Two looping programs joined by two FIFO streams, with every interleaving of
their system calls and every way to cut the streams into pieces.

A conversation is a list of what the two exchange and do, in one order. Where
each of the parties runs through its side of a conversation (`Runs`), every
reachable state is a point of it (`Invariant`): what a party has still to read
is what is in flight to it followed by what the other has still to write, item
by item. From this come the results on framing (`Invariant.got_toLeft`) and the
absence of deadlocks (`Invariant.progress`).
-/
import Mathlib.Data.List.Basic
import Mathlib.Data.List.Infix
import Probdata.Lib.Wire.Prog

namespace Probdata
namespace Wire

variable {Tag Act V W : Type}

/-- `p`, and what the loop `next` goes on with, runs through the operations `s`
where no call fails; it ends by leaving the loop, or else (`waits`) reading,
and leaves the loop once it finds the end of the stream there. -/
inductive Runs (next : V → Option (Prog Tag Act V)) (waits : Bool) :
    Prog Tag Act V → List (Op Tag Act) → Prop
  | fin {v : V} : waits = false → next v = none → Runs next waits (.ret v) []
  | loop {v : V} {q : Prog Tag Act V} {s : List (Op Tag Act)} :
      next v = some q → Runs next waits q s → Runs next waits (.ret v) s
  | eof {t : Tag} {n : ℕ} {k : Option (List UInt8) → Prog Tag Act V} {w : V} :
      waits = true → 0 < n → k (some []) = .ret w → next w = none →
      Runs next waits (.read t n k) []
  | act {e : Act} {k : Prog Tag Act V} {s : List (Op Tag Act)} :
      Runs next waits k s → Runs next waits (.act e k) (.act e :: s)
  | write {t : Tag} {bs : List UInt8} {k : Option ℕ → Prog Tag Act V} {s : List (Op Tag Act)} :
      bs ≠ [] → (∀ r, 0 < r → r ≤ bs.length →
        Runs next waits (k (some r)) (outs t (bs.drop r) ++ s)) →
      Runs next waits (.write t bs k) (outs t bs ++ s)
  | read {t : Tag} {n : ℕ} {bs : List UInt8} {k : Option (List UInt8) → Prog Tag Act V}
      {s : List (Op Tag Act)} : 0 < n → bs.length = n → (∀ r, 0 < r → r ≤ n →
        Runs next waits (k (some (bs.take r))) (inns t (bs.drop r) ++ s)) →
      Runs next waits (.read t n k) (inns t bs ++ s)

/-- A program that does `s` is followed by what runs from its result. -/
theorem Does.runs {next : V → Option (Prog Tag Act V)} {waits : Bool} {p : Prog Tag Act V}
    {s s' : List (Op Tag Act)} {v : V} (hp : Does p s v) (h : Runs next waits (.ret v) s') :
    Runs next waits p (s ++ s') := by
  induction hp with
  | ret x => exact h
  | act _ ih => exact .act (ih h)
  | write hne _ ih =>
    rw [List.append_assoc]
    refine .write hne fun r h0 hr => ?_
    rw [← List.append_assoc]
    exact ih r h0 hr h
  | read h0 hn _ ih =>
    rw [List.append_assoc]
    refine .read h0 hn fun r h0 hr => ?_
    rw [← List.append_assoc]
    exact ih r h0 hr h

/-- One more iteration of a loop. -/
theorem Does.runs_loop {next : V → Option (Prog Tag Act V)} {waits : Bool} {u v : V}
    {q : Prog Tag Act V} {s s' : List (Op Tag Act)} (hu : next u = some q) (hq : Does q s v)
    (h : Runs next waits (.ret v) s') : Runs next waits (.ret u) (s ++ s') :=
  .loop hu (hq.runs h)

/-- The last iteration of a loop. -/
theorem Does.runs_last {next : V → Option (Prog Tag Act V)} {u v : V} {q : Prog Tag Act V}
    {s : List (Op Tag Act)} (hu : next u = some q) (hq : Does q s v) (hv : next v = none) :
    Runs next false (.ret u) s := by
  have h := Does.runs_loop hu hq (.fin rfl hv)
  rwa [List.append_nil] at h

/-! ### The two parties -/

/-- The party has left its loop. -/
def Finished (next : V → Option (Prog Tag Act V)) (p : Prog Tag Act V) : Prop :=
  ∃ v, p = .ret v ∧ next v = none

/-- A step of a party: it performs `ops`, with `inbox` in flight to it; `closed`
says that the other has finished, and so closed the streams. -/
inductive PStep (next : V → Option (Prog Tag Act V)) (inbox : List (Tag × UInt8)) (closed : Prop) :
    Prog Tag Act V → List (Op Tag Act) → Prog Tag Act V → Prop
  | loop {v : V} {q : Prog Tag Act V} : next v = some q → PStep next inbox closed (.ret v) [] q
  | act {e : Act} {k : Prog Tag Act V} : PStep next inbox closed (.act e k) [.act e] k
  | write {t : Tag} {bs : List UInt8} {k : Option ℕ → Prog Tag Act V} (r : ℕ) :
      0 < r → r ≤ bs.length →
      PStep next inbox closed (.write t bs k) (outs t (bs.take r)) (k (some r))
  | read {t : Tag} {n : ℕ} {k : Option (List UInt8) → Prog Tag Act V} (r : ℕ) :
      0 < r → r ≤ n → r ≤ inbox.length →
      PStep next inbox closed (.read t n k) (inns t ((inbox.take r).map Prod.snd))
        (k (some ((inbox.take r).map Prod.snd)))
  | eof {t : Tag} {n : ℕ} {k : Option (List UInt8) → Prog Tag Act V} :
      inbox = [] → closed → PStep next inbox closed (.read t n k) [] (k (some []))

/-- Both parties, the streams between them, and what each has performed. -/
structure Config (Tag Act V W : Type) where
  left : Prog Tag Act V
  right : Prog Tag Act W
  toLeft : List (Tag × UInt8)
  toRight : List (Tag × UInt8)
  leftLog : List (Op Tag Act)
  rightLog : List (Op Tag Act)

namespace Config

/-- The same state, seen from the other side. -/
def swap (σ : Config Tag Act V W) : Config Tag Act W V :=
  ⟨σ.right, σ.left, σ.toRight, σ.toLeft, σ.rightLog, σ.leftLog⟩

/-- The state after the left party has performed `ops` and has `p` to go on. -/
def performed (σ : Config Tag Act V W) (ops : List (Op Tag Act)) (p : Prog Tag Act V) :
    Config Tag Act V W :=
  { σ with
    left := p
    toLeft := σ.toLeft.drop (got ops).length
    toRight := σ.toRight ++ sent ops
    leftLog := σ.leftLog ++ ops }

end Config

/-- The left party performs `ops`. -/
inductive LeftStep (next : V → Option (Prog Tag Act V)) (next' : W → Option (Prog Tag Act W)) :
    Config Tag Act V W → Config Tag Act V W → Prop
  | mk {σ : Config Tag Act V W} {ops : List (Op Tag Act)} {p : Prog Tag Act V} :
      PStep next σ.toLeft (Finished next' σ.right) σ.left ops p →
      LeftStep next next' σ (σ.performed ops p)

/-- A step of either party. -/
inductive Step (next : V → Option (Prog Tag Act V)) (next' : W → Option (Prog Tag Act W))
    (σ τ : Config Tag Act V W) : Prop
  | left : LeftStep next next' σ τ → Step next next' σ τ
  | right : LeftStep next' next σ.swap τ.swap → Step next next' σ τ

theorem Step.ofRight {next : V → Option (Prog Tag Act V)} {next' : W → Option (Prog Tag Act W)}
    {σ : Config Tag Act V W} {τ : Config Tag Act W V} (h : LeftStep next' next σ.swap τ) :
    Step next next' σ τ.swap :=
  .right h

/-- The states of the runs from `σ`. -/
inductive Reaches (next : V → Option (Prog Tag Act V)) (next' : W → Option (Prog Tag Act W))
    (σ : Config Tag Act V W) : Config Tag Act V W → Prop
  | refl : Reaches next next' σ σ
  | step {τ υ : Config Tag Act V W} :
      Reaches next next' σ τ → Step next next' τ υ → Reaches next next' σ υ

/-! ### Conversations -/

/-- An entry of a conversation: a byte that one of the two sends to the other,
or an act of one. -/
inductive Entry (Tag Act : Type)
  | msg (fromLeft : Bool) (t : Tag) (b : UInt8)
  | act (left : Bool) (e : Act)

/-- The side of an entry that is the left party's. -/
def Entry.op : Entry Tag Act → List (Op Tag Act)
  | .msg true t b => [.out t b]
  | .msg false t b => [.inn t b]
  | .act true e => [.act e]
  | .act false _ => []

def Entry.swap : Entry Tag Act → Entry Tag Act
  | .msg l t b => .msg (!l) t b
  | .act l e => .act (!l) e

/-- The side of a conversation that is the left party's. -/
def side (G : List (Entry Tag Act)) : List (Op Tag Act) := G.flatMap Entry.op

/-- The conversation seen from the other side. -/
def swapped (G : List (Entry Tag Act)) : List (Entry Tag Act) := G.map Entry.swap

@[simp] theorem side_nil : side ([] : List (Entry Tag Act)) = [] := rfl

@[simp] theorem side_cons (g : Entry Tag Act) (G : List (Entry Tag Act)) :
    side (g :: G) = g.op ++ side G := rfl

@[simp] theorem side_append (G G' : List (Entry Tag Act)) : side (G ++ G') = side G ++ side G' := by
  simp [side]

@[simp] theorem swapped_append (G G' : List (Entry Tag Act)) :
    swapped (G ++ G') = swapped G ++ swapped G' := by
  simp [swapped]

@[simp] theorem swapped_swapped (G : List (Entry Tag Act)) : swapped (swapped G) = G := by
  induction G with
  | nil => rfl
  | cons g G ih =>
    rw [show swapped (swapped (g :: G)) = g.swap.swap :: swapped (swapped G) from rfl, ih]
    cases g <;> simp [Entry.swap]

/-- Bytes that one of the two sends to the other. -/
def msgs (fromLeft : Bool) (t : Tag) (bs : List UInt8) : List (Entry Tag Act) :=
  bs.map (.msg fromLeft t)

/-- Acts of one of the two. -/
def does (left : Bool) (es : List Act) : List (Entry Tag Act) := es.map (.act left)

@[simp] theorem side_msgs_true (t : Tag) (bs : List UInt8) :
    side (msgs true t bs : List (Entry Tag Act)) = outs t bs := by
  rw [side, msgs, List.flatMap_map, outs, List.map_eq_flatMap]
  rfl

@[simp] theorem side_msgs_false (t : Tag) (bs : List UInt8) :
    side (msgs false t bs : List (Entry Tag Act)) = inns t bs := by
  rw [side, msgs, List.flatMap_map, inns, List.map_eq_flatMap]
  rfl

@[simp] theorem side_does_true (es : List Act) :
    side (does true es : List (Entry Tag Act)) = acting es := by
  rw [side, does, List.flatMap_map, acting, List.map_eq_flatMap]
  rfl

@[simp] theorem side_does_false (es : List Act) :
    side (does false es : List (Entry Tag Act)) = [] := by
  simp [side, does, List.flatMap_map, Entry.op]

@[simp] theorem swapped_msgs (l : Bool) (t : Tag) (bs : List UInt8) :
    swapped (msgs l t bs : List (Entry Tag Act)) = msgs (!l) t bs := by
  simp [swapped, msgs, Entry.swap]

@[simp] theorem swapped_does (l : Bool) (es : List Act) :
    swapped (does l es : List (Entry Tag Act)) = does (!l) es := by
  simp [swapped, does, Entry.swap]

@[simp] theorem swapped_nil : swapped ([] : List (Entry Tag Act)) = [] := rfl

/-- What one side reads is what the other writes. -/
theorem got_side (G : List (Entry Tag Act)) : got (side G) = sent (side (swapped G)) := by
  induction G with
  | nil => rfl
  | cons g G ih =>
    rw [show swapped (g :: G) = g.swap :: swapped G from rfl]
    rw [side_cons, side_cons, got_append, sent_append, ih]
    rcases g with ⟨_ | _, t, b⟩ | ⟨_ | _, e⟩ <;> rfl

theorem sent_side (G : List (Entry Tag Act)) : sent (side G) = got (side (swapped G)) := by
  rw [got_side, swapped_swapped]

/-! ### The invariant -/

/-- A party at a point of a conversation, with the operations `s` to come. -/
structure At (next : V → Option (Prog Tag Act V)) (waits : Bool) (G : List (Entry Tag Act))
    (p : Prog Tag Act V) (log s : List (Op Tag Act)) : Prop where
  runs : Runs next waits p s
  log : log ++ s = side G
  point : ∃ G', G' <:+ G ∧ s = side G'

/-- The two parties of a conversation `G`, of which at most one ends by waiting
for the end of the stream. -/
def Invariant (next : V → Option (Prog Tag Act V)) (next' : W → Option (Prog Tag Act W))
    (G : List (Entry Tag Act)) (σ : Config Tag Act V W) : Prop :=
  ∃ s s' waits waits', At next waits G σ.left σ.leftLog s ∧
    At next' waits' (swapped G) σ.right σ.rightLog s' ∧
    got s = σ.toLeft ++ sent s' ∧ got s' = σ.toRight ++ sent s ∧ ¬ (waits = true ∧ waits' = true)

/-! ### A step of a party -/

section Step

variable {next : V → Option (Prog Tag Act V)} {waits : Bool} {inbox : List (Tag × UInt8)}
  {closed : Prop} {p p' : Prog Tag Act V} {ops s : List (Op Tag Act)}

theorem PStep.got_length_le (h : PStep next inbox closed p ops p') :
    (got ops).length ≤ inbox.length := by
  cases h with
  | loop h => exact Nat.zero_le _
  | act => exact Nat.zero_le _
  | write r h0 hr => simp
  | read r h0 hr hb => simp [hb]
  | eof h0 h => exact Nat.zero_le _

/-- What a party reads of a stream whose next bytes it is about to read as the
item `t` are these bytes. -/
theorem take_of_got {t : Tag} {bs : List UInt8} {rest rest' : List (Tag × UInt8)} {r : ℕ}
    (h : bs.map (Prod.mk t) ++ rest = inbox ++ rest') (h1 : r ≤ bs.length)
    (h2 : r ≤ inbox.length) : (inbox.take r).map Prod.snd = bs.take r := by
  have ht := congrArg (List.take r) h
  rw [List.take_append_of_le_length (by simpa using h1), List.take_append_of_le_length h2] at ht
  rw [← ht, ← List.map_take, List.map_map]
  simp [Function.comp_def]

/-- A step performs the first of the operations to come. -/
theorem Runs.step (h : Runs next waits p s) (hstep : PStep next inbox closed p ops p')
    (hin : ∃ rest, got s = inbox ++ rest) (heof : closed → inbox = [] → got s = []) :
    ∃ s' waits', Runs next waits' p' s' ∧ s = ops ++ s' ∧ (waits' = true → waits = true) := by
  cases hstep with
  | loop hn =>
    cases h with
    | fin _ hn' => rw [hn] at hn'; cases hn'
    | loop hn' hq =>
      obtain rfl := Option.some.inj (hn.symm.trans hn')
      exact ⟨s, waits, hq, rfl, id⟩
  | act =>
    cases h with
    | act hk => exact ⟨_, waits, hk, rfl, id⟩
  | write r h0 hr =>
    cases h with
    | @write t bs k s hne hk =>
      refine ⟨_, waits, hk r h0 hr, ?_, id⟩
      rw [← List.append_assoc, outs_take_append_drop]
  | read r h0 hr hb =>
    cases h with
    | eof _ _ _ _ =>
      obtain ⟨rest, hrest⟩ := hin
      have hnil : inbox = [] := (List.append_eq_nil_iff.mp hrest.symm).1
      rw [hnil] at hb
      exact absurd hb (by simp only [List.length_nil]; omega)
    | @read t n bs k s _ hn hk =>
      obtain ⟨rest, hrest⟩ := hin
      rw [got_append, got_inns] at hrest
      rw [take_of_got hrest (hn ▸ hr) hb]
      refine ⟨_, waits, hk r h0 hr, ?_, id⟩
      rw [← List.append_assoc, inns_take_append_drop]
  | eof hnil hc =>
    cases h with
    | eof hw hn hk hnext =>
      rw [hk]
      exact ⟨[], false, .fin rfl hnext, rfl, by simp⟩
    | @read t n bs k s hpos hn hk =>
      have hgot := heof hc hnil
      rw [got_append, got_inns, List.append_eq_nil_iff, List.map_eq_nil_iff] at hgot
      rw [hgot.1] at hn
      exact absurd hpos (by simp [← hn])

theorem Runs.nil_of_finished (h : Runs next waits p s) (hf : Finished next p) : s = [] := by
  obtain ⟨v, rfl, hv⟩ := hf
  cases h with
  | fin _ _ => rfl
  | loop hn _ => rw [hv] at hn; cases hn

end Step

/-- The operations to come after some of them. -/
theorem exists_suffix_side {G : List (Entry Tag Act)} {ops s : List (Op Tag Act)}
    (h : side G = ops ++ s) : ∃ G', G' <:+ G ∧ s = side G' := by
  induction G generalizing ops with
  | nil =>
    have hs : s = [] := (List.append_eq_nil_iff.mp h.symm).2
    exact ⟨[], List.suffix_rfl, hs⟩
  | cons g G ih =>
    rcases ops with _ | ⟨o, ops⟩
    · exact ⟨g :: G, List.suffix_rfl, h.symm⟩
    · have hcase : side G = ops ++ s ∨ side G = o :: ops ++ s := by
        rw [side_cons] at h
        rcases g with ⟨_ | _, t, b⟩ | ⟨_ | _, e⟩
        · exact Or.inl (List.cons.inj h).2
        · exact Or.inl (List.cons.inj h).2
        · exact Or.inr h
        · exact Or.inl (List.cons.inj h).2
      rcases hcase with hc | hc
      · obtain ⟨G', hG', hs⟩ := ih hc
        exact ⟨G', hG'.trans (List.suffix_cons g G), hs⟩
      · obtain ⟨G', hG', hs⟩ := ih hc
        exact ⟨G', hG'.trans (List.suffix_cons g G), hs⟩

/-! ### The invariant along runs -/

variable {next : V → Option (Prog Tag Act V)} {next' : W → Option (Prog Tag Act W)}
  {G : List (Entry Tag Act)} {σ τ : Config Tag Act V W}

theorem Invariant.swap (h : Invariant next next' G σ) :
    Invariant next' next (swapped G) σ.swap := by
  obtain ⟨s, s', waits, waits', hl, hr, h1, h2, hw⟩ := h
  refine ⟨s', s, waits', waits, hr, ?_, h2, h1, fun hw' => hw ⟨hw'.2, hw'.1⟩⟩
  rw [swapped_swapped]
  exact hl

theorem Invariant.leftStep (h : Invariant next next' G σ) (hstep : LeftStep next next' σ τ) :
    Invariant next next' G τ := by
  obtain ⟨s, s', waits, waits', hl, hr, h1, h2, hw⟩ := h
  obtain @⟨ops, p, hp⟩ := hstep
  have heof : Finished next' σ.right → σ.toLeft = [] → got s = [] := by
    intro hf hnil
    rw [h1, hnil, hr.runs.nil_of_finished hf]
    rfl
  obtain ⟨s1, waits1, hruns, rfl, hw1⟩ := hl.runs.step hp ⟨_, h1⟩ heof
  refine ⟨s1, s', waits1, waits', ⟨hruns, ?_, ?_⟩, hr, ?_, ?_, fun hw' => hw ⟨hw1 hw'.1, hw'.2⟩⟩
  · rw [← hl.log]
    exact List.append_assoc _ _ _
  · obtain ⟨G', hG', hs⟩ := hl.point
    obtain ⟨G'', hG'', hs'⟩ := exists_suffix_side hs.symm
    exact ⟨G'', hG''.trans hG', hs'⟩
  · rw [got_append] at h1
    have hdrop := congrArg (List.drop (got ops).length) h1
    rw [List.drop_left, List.drop_append_of_le_length hp.got_length_le] at hdrop
    exact hdrop
  · rw [h2, sent_append]
    exact (List.append_assoc _ _ _).symm

theorem Invariant.step (h : Invariant next next' G σ) (hstep : Step next next' σ τ) :
    Invariant next next' G τ := by
  rcases hstep with hl | hr
  · exact h.leftStep hl
  · have h' := (h.swap.leftStep hr).swap
    rw [swapped_swapped] at h'
    exact h'

theorem Invariant.reaches (h : Invariant next next' G σ) (hr : Reaches next next' σ τ) :
    Invariant next next' G τ := by
  induction hr with
  | refl => exact h
  | step _ hstep ih => exact ih.step hstep

/-- Two parties that run through the two sides of a conversation. -/
theorem Invariant.init {p : Prog Tag Act V} {q : Prog Tag Act W} {waits waits' : Bool}
    (hp : Runs next waits p (side G)) (hq : Runs next' waits' q (side (swapped G)))
    (hw : ¬ (waits = true ∧ waits' = true)) :
    Invariant next next' G ⟨p, q, [], [], [], []⟩ :=
  ⟨side G, side (swapped G), waits, waits', ⟨hp, rfl, G, List.suffix_rfl, rfl⟩,
    ⟨hq, rfl, swapped G, List.suffix_rfl, rfl⟩, got_side G, (sent_side G).symm, hw⟩

/-! ### What the invariant says -/

/-- What a party has read, item by item, and what is in flight to it, is what
the other has written. -/
theorem Invariant.got_toLeft (h : Invariant next next' G σ) :
    sent σ.rightLog = got σ.leftLog ++ σ.toLeft := by
  obtain ⟨s, s', waits, waits', hl, hr, h1, -, -⟩ := h
  have h3 : sent σ.rightLog ++ sent s' = got σ.leftLog ++ got s := by
    rw [← sent_append, ← got_append, hl.log, hr.log, got_side]
  rw [h1, ← List.append_assoc] at h3
  exact List.append_cancel_right h3

/-- What is in flight to a party is what it is about to read next. -/
theorem Invariant.toLeft_initial (h : Invariant next next' G σ) :
    ∃ waits s, Runs next waits σ.left s ∧ σ.toLeft <+: got s := by
  obtain ⟨s, s', waits, waits', hl, -, h1, -, -⟩ := h
  exact ⟨waits, s, hl.runs, sent s', h1.symm⟩

/-- What a party has performed is the beginning of its side, and what is in
flight to it is read in the rest. -/
theorem Invariant.leftLog (h : Invariant next next' G σ) :
    ∃ s, side G = σ.leftLog ++ s ∧ σ.toLeft <+: got s := by
  obtain ⟨s, s', waits, waits', hl, -, h1, -, -⟩ := h
  exact ⟨s, hl.log.symm, sent s', h1.symm⟩

/-! ### No deadlock -/

/-- A party that has not finished can go on, or waits for the other. -/
theorem Runs.blocked {waits : Bool} {p : Prog Tag Act V} {s : List (Op Tag Act)}
    (inbox : List (Tag × UInt8)) (closed : Prop) (h : Runs next waits p s) :
    Finished next p ∨ (∃ ops p', PStep next inbox closed p ops p') ∨
      inbox = [] ∧ ¬ closed ∧ (s = [] ∧ waits = true ∨ ∃ t b s', s = .inn t b :: s') := by
  have hread : ∀ {t : Tag} {n : ℕ} (k : Option (List UInt8) → Prog Tag Act V), 0 < n →
      (∃ ops p', PStep next inbox closed (.read t n k) ops p') ∨ inbox = [] ∧ ¬ closed := by
    intro t n k hn
    rcases inbox with _ | ⟨b, inbox⟩
    · by_cases hc : closed
      · left; exact ⟨_, _, .eof rfl hc⟩
      · right; exact ⟨rfl, hc⟩
    · left; exact ⟨_, _, .read 1 Nat.one_pos hn (by simp)⟩
  cases h with
  | fin _ hn => left; exact ⟨_, rfl, hn⟩
  | loop hn _ => right; left; exact ⟨_, _, .loop hn⟩
  | act _ => right; left; exact ⟨_, _, .act⟩
  | write hne _ => right; left; exact ⟨_, _, .write 1 Nat.one_pos (List.length_pos_iff.mpr hne)⟩
  | @eof _ _ k _ hw hn _ _ =>
    right
    exact (hread k hn).imp id fun hb => ⟨hb.1, hb.2, Or.inl ⟨rfl, hw⟩⟩
  | @read t n bs k s hn hbs _ =>
    right
    refine (hread k hn).imp id fun hb => ⟨hb.1, hb.2, Or.inr ?_⟩
    rcases bs with _ | ⟨b, bs⟩
    · rw [← hbs] at hn; cases hn
    · exact ⟨t, b, inns t bs ++ s, rfl⟩

theorem exists_suffix_of_inn {G : List (Entry Tag Act)} {t : Tag} {b : UInt8}
    {s : List (Op Tag Act)} (h : side G = .inn t b :: s) :
    ∃ G', .msg false t b :: G' <:+ G ∧ s = side G' := by
  induction G with
  | nil => cases h
  | cons g G ih =>
    rw [side_cons] at h
    rcases g with ⟨_ | _, t', b'⟩ | ⟨_ | _, e⟩
    · obtain ⟨ho, hs⟩ := List.cons.inj h
      cases ho
      exact ⟨G, List.suffix_rfl, hs.symm⟩
    · cases (List.cons.inj h).1
    · obtain ⟨G', hG', hs⟩ := ih h
      exact ⟨G', hG'.trans (List.suffix_cons _ G), hs⟩
    · cases (List.cons.inj h).1

theorem length_got_side_le {G G' : List (Entry Tag Act)} (h : G <:+ G') :
    (got (side G)).length ≤ (got (side G')).length := by
  obtain ⟨X, rfl⟩ := h
  simp

theorem swapped_suffix {G G' : List (Entry Tag Act)} (h : G <:+ G') : swapped G <:+ swapped G' := by
  obtain ⟨X, rfl⟩ := h
  exact ⟨swapped X, (swapped_append X G).symm⟩

/-- At no point of a conversation do both wait for a byte of the other with
nothing in flight: the one that is behind waits for a byte already written. -/
theorem not_both_wait {A B G : List (Entry Tag Act)} {t t' : Tag} {b b' : UInt8}
    (hA : .msg false t b :: A <:+ G) (hB : .msg false t' b' :: B <:+ swapped G)
    (h1 : got (side (.msg false t b :: A)) = sent (side (.msg false t' b' :: B)))
    (h2 : got (side (.msg false t' b' :: B)) = sent (side (.msg false t b :: A))) : False := by
  have hB' : .msg true t' b' :: swapped B <:+ G := by
    have := swapped_suffix hB
    rwa [swapped_swapped] at this
  rcases List.suffix_or_suffix_of_suffix hA hB' with hAB | hBA
  · rcases List.suffix_cons_iff.mp hAB with he | hs
    · cases (List.cons.inj he).1
    · have hle := length_got_side_le (swapped_suffix hs)
      rw [swapped_swapped, ← sent_side, ← h2, side_cons, got_append] at hle
      simp only [Entry.op, got, List.length_append, List.length_cons, List.length_nil] at hle
      omega
  · rcases List.suffix_cons_iff.mp hBA with he | hs
    · cases (List.cons.inj he).1
    · have hle := length_got_side_le hs
      have hsw : .msg true t' b' :: swapped B = swapped (.msg false t' b' :: B) := rfl
      rw [hsw, ← sent_side, ← h1, side_cons, got_append] at hle
      simp only [Entry.op, got, List.length_append, List.length_cons, List.length_nil] at hle
      omega

/-- A reachable state in which no step is possible is one in which both have
finished. -/
theorem Invariant.progress (h : Invariant next next' G σ) :
    (Finished next σ.left ∧ Finished next' σ.right) ∨ ∃ τ, Step next next' σ τ := by
  obtain ⟨s, s', waits, waits', hl, hr, h1, h2, hw⟩ := h
  rcases hl.runs.blocked σ.toLeft (Finished next' σ.right) with hfl | ⟨ops, p, hp⟩ | ⟨e1, hc1, hb1⟩
  case inr.inl => exact Or.inr ⟨_, .left ⟨hp⟩⟩
  all_goals
    rcases hr.runs.blocked σ.toRight (Finished next σ.left) with hfr | ⟨ops, q, hq⟩ | ⟨e2, hc2, hb2⟩
  case inl.inl => exact Or.inl ⟨hfl, hfr⟩
  case inl.inr.inr => exact absurd hfl hc2
  case inr.inr.inl => exact absurd hfr hc1
  case inr.inr.inr.inr =>
    exfalso
    rw [e1, List.nil_append] at h1
    rw [e2, List.nil_append] at h2
    rcases hb1 with ⟨rfl, hw1⟩ | ⟨t, b, r, rfl⟩
    · rcases hb2 with ⟨rfl, hw2⟩ | ⟨t, b, r, rfl⟩
      · exact hw ⟨hw1, hw2⟩
      · cases h2
    · rcases hb2 with ⟨rfl, hw2⟩ | ⟨t', b', r', rfl⟩
      · cases h1
      · obtain ⟨Gl, hGl, hsl⟩ := hl.point
        obtain ⟨Gr, hGr, hsr⟩ := hr.point
        obtain ⟨A, hA, hA'⟩ := exists_suffix_of_inn hsl.symm
        obtain ⟨B, hB, hB'⟩ := exists_suffix_of_inn hsr.symm
        rw [hA', hB'] at h1 h2
        exact not_both_wait (hA.trans hGl) (hB.trans hGr) h1 h2
  all_goals
    exact Or.inr ⟨_, Step.ofRight ⟨hq⟩⟩

/-- The party waits in a `read`. -/
def Waiting (p : Prog Tag Act V) : Prop := ∃ t n k, p = .read t n k

theorem Waiting.not_finished {p : Prog Tag Act V} (h : Waiting p) : ¬ Finished next p := by
  obtain ⟨t, n, k, rfl⟩ := h
  rintro ⟨v, hv, -⟩
  cases hv

/-- A party that waits while the other has not finished steps only if something
is in flight to it. -/
theorem LeftStep.toLeft_ne_nil (h : LeftStep next next' σ τ) (hl : Waiting σ.left)
    (hr : ¬ Finished next' σ.right) : σ.toLeft ≠ [] := by
  obtain ⟨t, n, k, hk⟩ := hl
  obtain ⟨hp⟩ := h
  intro h1
  rw [hk, h1] at hp
  cases hp with
  | read r h0 _ hb =>
    rw [List.length_nil] at hb
    omega
  | eof _ hclosed => exact hr hclosed

/-- Never do both wait to read with nothing in flight. -/
theorem Invariant.not_waiting (h : Invariant next next' G σ) (hl : Waiting σ.left)
    (hr : Waiting σ.right) : ¬ (σ.toLeft = [] ∧ σ.toRight = []) := by
  rintro ⟨h1, h2⟩
  rcases h.progress with ⟨hf, -⟩ | ⟨τ, hstep⟩
  · exact hl.not_finished hf
  rcases hstep with hstep | hstep
  · exact hstep.toLeft_ne_nil hl hr.not_finished h1
  · exact hstep.toLeft_ne_nil hr hl.not_finished h2

/-! ### Every point of a conversation is reached -/

theorem Reaches.trans {υ : Config Tag Act V W} (h : Reaches next next' σ τ)
    (h' : Reaches next next' τ υ) : Reaches next next' σ υ := by
  induction h' with
  | refl => exact h
  | step _ hstep ih => exact ih.step hstep

theorem Reaches.swap (h : Reaches next next' σ τ) : Reaches next' next σ.swap τ.swap := by
  induction h with
  | refl => exact .refl
  | step _ hstep ih =>
    refine ih.step ?_
    rcases hstep with hl | hr
    · exact .right hl
    · exact .left hr

/-- The left party performs the next of its operations, after some iterations
of its loop that perform none. -/
theorem Runs.advance {waits : Bool} {o : Op Tag Act} {s : List (Op Tag Act)}
    (h : Runs next waits σ.left (o :: s)) (next' : W → Option (Prog Tag Act W))
    (hin : ∀ t b, o = .inn t b → ∃ rest, σ.toLeft = (t, b) :: rest) :
    ∃ p, Runs next waits p s ∧ Reaches next next' σ (σ.performed [o] p) := by
  obtain ⟨l, r, tl, tr, ll, rl⟩ := σ
  dsimp only at h hin
  generalize hS : o :: s = S at h
  induction h with
  | fin => cases hS
  | eof => cases hS
  | @loop v q s' hn _ ih =>
    obtain ⟨p, hp, hr⟩ := ih hS
    have hstep : LeftStep next next' ⟨.ret v, r, tl, tr, ll, rl⟩
        (Config.performed ⟨.ret v, r, tl, tr, ll, rl⟩ [] q) := .mk (.loop hn)
    simp only [Config.performed, sent, got, List.length_nil, List.drop_zero, List.append_nil]
      at hstep
    exact ⟨p, hp, Reaches.trans (.step .refl (.left hstep)) hr⟩
  | act hk _ =>
    obtain ⟨rfl, rfl⟩ := List.cons.inj hS
    exact ⟨_, hk, .step .refl (.left (.mk .act))⟩
  | @write t bs k s' hne hk _ =>
    rcases bs with _ | ⟨b, bs⟩
    · exact absurd rfl hne
    obtain ⟨rfl, rfl⟩ := List.cons.inj hS
    exact ⟨_, hk 1 Nat.one_pos (by simp), .step .refl (.left (.mk (.write 1 Nat.one_pos (by simp))))⟩
  | @read t n bs k s' h0 hn hk _ =>
    rcases bs with _ | ⟨b, bs⟩
    · rw [← hn] at h0; cases h0
    obtain ⟨rfl, rfl⟩ := List.cons.inj hS
    obtain ⟨rest, rfl⟩ := hin t b rfl
    exact ⟨_, hk 1 Nat.one_pos h0, .step .refl (.left (.mk (.read 1 Nat.one_pos h0 (by simp))))⟩

/-- `τ` is reached from `σ`, with nothing in flight: the left party has performed
`ops` and has `s` to come, the right one `ops'` and `s'`. -/
structure Passed (next : V → Option (Prog Tag Act V)) (next' : W → Option (Prog Tag Act W))
    (waits waits' : Bool) (ops s ops' s' : List (Op Tag Act)) (σ τ : Config Tag Act V W) :
    Prop where
  reaches : Reaches next next' σ τ
  left : Runs next waits τ.left s
  right : Runs next' waits' τ.right s'
  toLeft : τ.toLeft = []
  toRight : τ.toRight = []
  leftLog : τ.leftLog = σ.leftLog ++ ops
  rightLog : τ.rightLog = σ.rightLog ++ ops'

section Passed

variable {waits waits' : Bool} {ops s ops' s' : List (Op Tag Act)}

theorem Passed.swap (h : Passed next next' waits waits' ops s ops' s' σ τ) :
    Passed next' next waits' waits ops' s' ops s σ.swap τ.swap :=
  ⟨h.reaches.swap, h.right, h.left, h.toRight, h.toLeft, h.rightLog, h.leftLog⟩

theorem exists_passed_act {e : Act} (hl : Runs next waits σ.left (.act e :: s))
    (hr : Runs next' waits' σ.right s') (h1 : σ.toLeft = []) (h2 : σ.toRight = []) :
    ∃ τ, Passed next next' waits waits' [.act e] s [] s' σ τ := by
  obtain ⟨p, hp, hreach⟩ := hl.advance next' (fun t b h => by cases h)
  refine ⟨_, hreach, hp, hr, ?_, ?_, rfl, (List.append_nil _).symm⟩
  · show σ.toLeft.drop 0 = []
    rw [h1]
    rfl
  · show σ.toRight ++ [] = []
    rw [h2]
    rfl

theorem exists_passed_msg {t : Tag} {b : UInt8} (hl : Runs next waits σ.left (.out t b :: s))
    (hr : Runs next' waits' σ.right (.inn t b :: s')) (h1 : σ.toLeft = []) (h2 : σ.toRight = []) :
    ∃ τ, Passed next next' waits waits' [.out t b] s [.inn t b] s' σ τ := by
  obtain ⟨p, hp, hreach⟩ := hl.advance next' (fun t b h => by cases h)
  set τ := σ.performed [.out t b] p
  have htl : τ.toLeft = [] := by
    show σ.toLeft.drop 0 = []
    rw [h1]
    rfl
  have htr : τ.toRight = [(t, b)] := by
    show σ.toRight ++ [(t, b)] = _
    rw [h2]
    rfl
  have hr' : Runs next' waits' τ.swap.left (.inn t b :: s') := hr
  obtain ⟨q, hq, hreach'⟩ := hr'.advance next (fun t' b' h => by
    cases h
    exact ⟨[], htr⟩)
  refine ⟨(τ.swap.performed [.inn t b] q).swap, hreach.trans hreach'.swap, hp, hq, ?_, ?_, rfl, rfl⟩
  · show τ.toLeft ++ [] = []
    rw [htl]
    rfl
  · show τ.toRight.drop 1 = []
    rw [htr]
    rfl

/-- Both parties pass an entry of the conversation. -/
theorem exists_passed_entry {g : Entry Tag Act} (hl : Runs next waits σ.left (g.op ++ s))
    (hr : Runs next' waits' σ.right (g.swap.op ++ s')) (h1 : σ.toLeft = []) (h2 : σ.toRight = []) :
    ∃ τ, Passed next next' waits waits' g.op s g.swap.op s' σ τ := by
  rcases g with ⟨_ | _, t, b⟩ | ⟨_ | _, e⟩
  · obtain ⟨τ, hτ⟩ := exists_passed_msg (σ := σ.swap) hr hl h2 h1
    exact ⟨τ.swap, hτ.swap⟩
  · exact exists_passed_msg hl hr h1 h2
  · obtain ⟨τ, hτ⟩ := exists_passed_act (σ := σ.swap) hr hl h2 h1
    exact ⟨τ.swap, hτ.swap⟩
  · exact exists_passed_act hl hr h1 h2

end Passed

/-- Every point of a conversation that both run through is reached. -/
theorem exists_passed {waits waits' : Bool} {G G' : List (Entry Tag Act)}
    (hl : Runs next waits σ.left (side (G ++ G')))
    (hr : Runs next' waits' σ.right (side (swapped (G ++ G'))))
    (h1 : σ.toLeft = []) (h2 : σ.toRight = []) :
    ∃ τ, Passed next next' waits waits' (side G) (side G') (side (swapped G)) (side (swapped G'))
      σ τ := by
  induction G generalizing σ with
  | nil => exact ⟨σ, .refl, hl, hr, h1, h2, (List.append_nil _).symm, (List.append_nil _).symm⟩
  | cons g G ih =>
    obtain ⟨τ, hτ⟩ := exists_passed_entry (g := g) hl hr h1 h2
    obtain ⟨υ, hυ⟩ := ih hτ.left hτ.right hτ.toLeft hτ.toRight
    refine ⟨υ, hτ.reaches.trans hυ.reaches, hυ.left, hυ.right, hυ.toLeft, hυ.toRight, ?_, ?_⟩
    · rw [hυ.leftLog, hτ.leftLog, List.append_assoc]
      rfl
    · rw [hυ.rightLog, hτ.rightLog, List.append_assoc]
      rfl

end Wire
end Probdata
