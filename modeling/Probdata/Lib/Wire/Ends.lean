/-
# Every run of two parties ends

Two parties that run through a conversation have finitely many operations before them,
and the iterations of a loop that perform none do not go on for ever. So the steps from
a state of the invariant are well-founded (`Invariant.acc`), whoever steps next and
however much a call transfers; and since somebody can always step until both have
finished, every run can be completed, and is complete where it stops (`Invariant.ends`).
-/
import Mathlib.Order.GameAdd
import Mathlib.Order.WellFounded
import Probdata.Lib.Wire.Lockstep

namespace Probdata
namespace Wire

variable {Tag Act V W : Type} {next : V → Option (Prog Tag Act V)}
  {next' : W → Option (Prog Tag Act W)} {G : List (Entry Tag Act)} {σ τ : Config Tag Act V W}

/-- `y` is a party with its operations to come, and `x` the same after one step. The end
of the stream is found only where nothing is left to read. -/
def Later (next : V → Option (Prog Tag Act V)) (x y : Prog Tag Act V × List (Op Tag Act)) : Prop :=
  ∃ inbox closed ops, PStep next inbox closed y.1 ops x.1 ∧ y.2 = ops ++ x.2 ∧
    (closed → inbox = [] → got y.2 = [])

/-- A party that runs through some operations makes finitely many steps. -/
theorem Runs.acc {waits : Bool} {p : Prog Tag Act V} {s : List (Op Tag Act)}
    (h : Runs next waits p s) : Acc (Later next) (p, s) := by
  induction h with
  | fin hw hn =>
    refine ⟨_, fun x hx => ?_⟩
    obtain ⟨inbox, closed, ops, hstep, -, -⟩ := hx
    cases hstep with
    | loop hq => rw [hn] at hq; cases hq
  | loop hn _ ih =>
    refine ⟨_, fun x hx => ?_⟩
    obtain ⟨p', s'⟩ := x
    obtain ⟨inbox, closed, ops, hstep, hs, -⟩ := hx
    cases hstep with
    | loop hq =>
      obtain rfl := Option.some.inj (hn.symm.trans hq)
      obtain rfl : _ = s' := hs
      exact ih
  | @eof t n k w hw hpos hk hn =>
    refine ⟨_, fun x hx => ?_⟩
    obtain ⟨p', s'⟩ := x
    obtain ⟨inbox, closed, ops, hstep, hs, -⟩ := hx
    cases hstep with
    | read r h0 hr hb =>
      have hlen := congrArg List.length hs
      simp [inns] at hlen
      omega
    | eof hnil hc =>
      refine ⟨_, fun y hy => ?_⟩
      obtain ⟨inbox', closed', ops', hstep', -, -⟩ := hy
      rw [hk] at hstep'
      cases hstep' with
      | loop hq => rw [hn] at hq; cases hq
  | act _ ih =>
    refine ⟨_, fun x hx => ?_⟩
    obtain ⟨p', s'⟩ := x
    obtain ⟨inbox, closed, ops, hstep, hs, -⟩ := hx
    cases hstep with
    | act =>
      obtain rfl : _ = s' := (List.cons.inj hs).2
      exact ih
  | @write t bs k s hne hk ih =>
    refine ⟨_, fun x hx => ?_⟩
    obtain ⟨p', s'⟩ := x
    obtain ⟨inbox, closed, ops, hstep, hs, -⟩ := hx
    cases hstep with
    | write r h0 hr =>
      have hs' : outs t (bs.take r) ++ (outs t (bs.drop r) ++ s) = outs t (bs.take r) ++ s' := by
        rw [← hs, ← List.append_assoc, outs_take_append_drop]
      obtain rfl := List.append_cancel_left hs'
      exact ih r h0 hr
  | @read t n bs k s hpos hn hk ih =>
    refine ⟨_, fun x hx => ?_⟩
    obtain ⟨p', s'⟩ := x
    obtain ⟨inbox, closed, ops, hstep, hs, heof⟩ := hx
    cases hstep with
    | read r h0 hr hb =>
      -- the bytes read are those that come next
      have hgot : bs.map (Prod.mk t) ++ got s = ((inbox.take r).map Prod.snd).map (Prod.mk t) ++ got s' := by
        have h := congrArg got hs
        simpa using h
      have htake : (inbox.take r).map Prod.snd = bs.take r := by
        have h := congrArg (List.take r) hgot
        rw [List.take_append_of_le_length (by simpa [hn] using hr),
          List.take_append_of_le_length (by simpa using hb)] at h
        have h' := congrArg (List.map Prod.snd) h
        simpa [List.map_take, Function.comp_def, List.take_take] using h'.symm
      rw [htake] at hs ⊢
      have hs' : inns t (bs.take r) ++ (inns t (bs.drop r) ++ s) = inns t (bs.take r) ++ s' := by
        rw [← hs, ← List.append_assoc, inns_take_append_drop]
      obtain rfl := List.append_cancel_left hs'
      exact ih r h0 hr
    | eof hnil hc =>
      have hgot := heof hc hnil
      rw [got_append, got_inns, List.append_eq_nil_iff, List.map_eq_nil_iff] at hgot
      rw [hgot.1] at hn
      exact absurd hpos (by simp [← hn])

/-- The operations that a party has still to come after a step. -/
theorem later_of_leftStep (h : Invariant next next' G σ) (hstep : LeftStep next next' σ τ)
    {s s' : List (Op Tag Act)} (hs : σ.leftLog ++ s = side G) (hs' : τ.leftLog ++ s' = side G) :
    Later next (τ.left, s') (σ.left, s) ∧ τ.right = σ.right ∧ τ.rightLog = σ.rightLog := by
  obtain ⟨r, r', waits, waits', hl, hr, h1, h2, -⟩ := h
  obtain @⟨ops, p, hp⟩ := hstep
  obtain rfl : r = s := List.append_cancel_left (hl.log.trans hs.symm)
  refine ⟨⟨σ.toLeft, Finished next' σ.right, ops, hp, ?_, fun hf hnil => ?_⟩, rfl, rfl⟩
  · refine List.append_cancel_left (show σ.leftLog ++ _ = σ.leftLog ++ _ from ?_)
    rw [hs, ← hs']
    exact List.append_assoc _ _ _
  · rw [h1, hnil, hr.runs.nil_of_finished hf]
    rfl

/-- A party of the invariant is one with its operations to come. -/
theorem Invariant.left_runs (h : Invariant next next' G σ) :
    ∃ waits s, Runs next waits σ.left s ∧ σ.leftLog ++ s = side G := by
  obtain ⟨s, -, waits, -, hl, -⟩ := h
  exact ⟨waits, s, hl.runs, hl.log⟩

/-- **Every run of two parties is finite.** -/
theorem Invariant.acc (h : Invariant next next' G σ) :
    Acc (fun τ σ => Step next next' σ τ) σ := by
  obtain ⟨waits, s, hl, hs⟩ := h.left_runs
  obtain ⟨waits', s', hr, hs'⟩ := h.swap.left_runs
  have hacc : Acc (Prod.GameAdd (Later next) (Later next')) ((σ.left, s), (σ.right, s')) :=
    Acc.prod_gameAdd hl.acc hr.acc
  generalize hx : ((σ.left, s), (σ.right, s')) = x at hacc
  clear hl hr
  change σ.rightLog ++ s' = side (swapped G) at hs'
  induction hacc generalizing σ s s' with
  | intro x _ ih =>
    subst hx
    refine ⟨_, fun τ hstep => ?_⟩
    have hτ := h.step hstep
    obtain ⟨-, s₁, -, hs₁⟩ := hτ.left_runs
    obtain ⟨-, s₁', -, hs₁'⟩ := hτ.swap.left_runs
    change τ.rightLog ++ s₁' = side (swapped G) at hs₁'
    refine ih ((τ.left, s₁), (τ.right, s₁')) ?_ hτ s₁ hs₁ s₁' rfl hs₁'
    rcases hstep with hstep | hstep
    · obtain ⟨hlater, hright, hlog⟩ := later_of_leftStep h hstep hs hs₁
      rw [hlog] at hs₁'
      obtain rfl := List.append_cancel_left (hs'.trans hs₁'.symm)
      rw [hright]
      exact .fst hlater
    · obtain ⟨hlater, hleft, hlog⟩ := later_of_leftStep h.swap hstep hs' hs₁'
      change τ.left = σ.left at hleft
      change τ.leftLog = σ.leftLog at hlog
      rw [hlog] at hs₁
      obtain rfl := List.append_cancel_left (hs.trans hs₁.symm)
      rw [hleft]
      exact .snd hlater

/-- Both parties have finished: each has performed its whole side, and nothing is in
flight. -/
structure Ended (next : V → Option (Prog Tag Act V)) (next' : W → Option (Prog Tag Act W))
    (G : List (Entry Tag Act)) (σ : Config Tag Act V W) : Prop where
  left : Finished next σ.left
  right : Finished next' σ.right
  leftLog : σ.leftLog = side G
  rightLog : σ.rightLog = side (swapped G)
  toLeft : σ.toLeft = []
  toRight : σ.toRight = []

theorem Invariant.ended (h : Invariant next next' G σ) (hl : Finished next σ.left)
    (hr : Finished next' σ.right) : Ended next next' G σ := by
  obtain ⟨s, s', waits, waits', hs, hs', h1, h2, -⟩ := h
  obtain rfl := hs.runs.nil_of_finished hl
  obtain rfl := hs'.runs.nil_of_finished hr
  have hlog := hs.log
  have hlog' := hs'.log
  rw [List.append_nil] at hlog hlog'
  rw [sent_nil, List.append_nil] at h1 h2
  exact ⟨hl, hr, hlog, hlog', h1.symm, h2.symm⟩

/-- **A run that stops is complete, and every run can be completed.** -/
theorem Invariant.ends (h : Invariant next next' G σ) :
    ((∀ τ, ¬ Step next next' σ τ) → Ended next next' G σ) ∧
      ∃ τ, Reaches next next' σ τ ∧ Ended next next' G τ := by
  refine ⟨fun hstuck => ?_, ?_⟩
  · rcases h.progress with ⟨hl, hr⟩ | ⟨τ, hτ⟩
    · exact h.ended hl hr
    · exact absurd hτ (hstuck τ)
  · have hacc := h.acc
    induction hacc with
    | intro σ _ ih =>
      rcases h.progress with ⟨hl, hr⟩ | ⟨τ, hτ⟩
      · exact ⟨σ, .refl, h.ended hl hr⟩
      · obtain ⟨υ, hυ, hend⟩ := ih τ hτ (h.step hτ)
        exact ⟨υ, Reaches.trans (.step .refl hτ) hυ, hend⟩

end Wire
end Probdata
