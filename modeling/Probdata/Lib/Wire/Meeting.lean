/-
# Two programs that run once

Two parties that meet for one conversation, each with a program that ends. Whoever steps
next and whatever a call transfers, both end, and with the values that the programs have
where no call fails (`Does.meets`).
-/
import Probdata.Lib.Wire.Ends

namespace Probdata
namespace Wire

variable {Tag Act V W : Type} {G : List (Entry Tag Act)}

/-- The loop of a program that runs once. -/
def once : V → Option (Prog Tag Act V) := fun _ => none

/-- The parties before they have done anything. -/
def meeting (p : Prog Tag Act V) (q : Prog Tag Act W) : Config Tag Act V W := ⟨p, q, [], [], [], []⟩

/-- A party with a program that ends with `x`. -/
def Ending (G : List (Entry Tag Act)) (x : V) (p : Prog Tag Act V) (log : List (Op Tag Act)) : Prop :=
  ∃ s, Does p s x ∧ log ++ s = side G

theorem Does.runs_once {p : Prog Tag Act V} {s : List (Op Tag Act)} {x : V} (h : Does p s x) :
    Runs once false p s := by
  have hruns : Runs once false p (s ++ []) := h.runs (.fin rfl rfl)
  rwa [List.append_nil] at hruns

/-- A step performs the first of the operations to come, and the value stays the same. -/
theorem Does.step {p p' : Prog Tag Act V} {s ops : List (Op Tag Act)} {x : V}
    {inbox : List (Tag × UInt8)} {closed : Prop} (h : Does p s x)
    (hstep : PStep once inbox closed p ops p') (hin : ∃ rest, got s = inbox ++ rest)
    (heof : closed → inbox = [] → got s = []) : ∃ s', Does p' s' x ∧ s = ops ++ s' := by
  cases hstep with
  | loop hn => cases hn
  | act =>
    cases h with
    | act hk => exact ⟨_, hk, rfl⟩
  | write r h0 hr =>
    cases h with
    | @write t bs k s x hne hk =>
      refine ⟨_, hk r h0 hr, ?_⟩
      rw [← List.append_assoc, outs_take_append_drop]
  | read r h0 hr hb =>
    cases h with
    | @read t n bs k s x hpos hn hk =>
      obtain ⟨rest, hrest⟩ := hin
      rw [got_append, got_inns] at hrest
      rw [take_of_got hrest (hn ▸ hr) hb]
      refine ⟨_, hk r h0 hr, ?_⟩
      rw [← List.append_assoc, inns_take_append_drop]
  | eof hnil hc =>
    cases h with
    | @read t n bs k s x hpos hn hk =>
      have hgot := heof hc hnil
      rw [got_append, got_inns, List.append_eq_nil_iff, List.map_eq_nil_iff] at hgot
      rw [hgot.1] at hn
      exact absurd hpos (by simp [← hn])

/-- A finished program has the value that it ends with. -/
theorem Ending.eq_ret {x : V} {p : Prog Tag Act V} {log : List (Op Tag Act)} (h : Ending G x p log)
    (hf : Finished once p) : p = .ret x := by
  obtain ⟨v, rfl, -⟩ := hf
  obtain ⟨s, hs, -⟩ := h
  cases hs
  rfl

variable {x : V} {y : W} {σ τ : Config Tag Act V W}

theorem Ending.leftStep (h : Ending G x σ.left σ.leftLog) (hinv : Invariant once once G σ)
    (hstep : LeftStep once once σ τ) : Ending G x τ.left τ.leftLog ∧ τ.right = σ.right ∧
      τ.rightLog = σ.rightLog := by
  obtain ⟨s, hs, hlog⟩ := h
  obtain ⟨r, r', waits, waits', hl, hr, h1, -, -⟩ := hinv
  obtain rfl : r = s := List.append_cancel_left (hl.log.trans hlog.symm)
  obtain @⟨ops, p, hp⟩ := hstep
  have heof : Finished once σ.right → σ.toLeft = [] → got r = [] := by
    intro hf hnil
    rw [h1, hnil, hr.runs.nil_of_finished hf]
    rfl
  obtain ⟨s', hs', rfl⟩ := hs.step hp ⟨_, h1⟩ heof
  refine ⟨⟨s', hs', ?_⟩, rfl, rfl⟩
  rw [← hlog]
  exact List.append_assoc _ _ _

/-- The values that both parties end with are kept along a run. -/
theorem Ending.reaches (hl : Ending G x σ.left σ.leftLog)
    (hr : Ending (swapped G) y σ.right σ.rightLog) (hinv : Invariant once once G σ)
    (hστ : Reaches once once σ τ) :
    Ending G x τ.left τ.leftLog ∧ Ending (swapped G) y τ.right τ.rightLog := by
  induction hστ with
  | refl => exact ⟨hl, hr⟩
  | step hreach hstep ih =>
    obtain ⟨hl', hr'⟩ := ih
    have hinv' := hinv.reaches hreach
    rcases hstep with hstep | hstep
    · obtain ⟨hend, hright, hlog⟩ := hl'.leftStep hinv' hstep
      rw [hright, hlog]
      exact ⟨hend, hr'⟩
    · obtain ⟨hend, hleft, hlog⟩ := Ending.leftStep hr' hinv'.swap hstep
      refine ⟨?_, hend⟩
      dsimp only [Config.swap] at hleft hlog
      rw [hleft, hlog]
      exact hl'

/-- Whoever steps next and whatever a call transfers, the two programs end, with the values
`x` and `y`. -/
structure Meets (p : Prog Tag Act V) (q : Prog Tag Act W) (x : V) (y : W) : Prop where
  finite : ∀ σ, Reaches once once (meeting p q) σ → Acc (fun τ σ => Step once once σ τ) σ
  /-- A run that stops has ended. -/
  stops : ∀ σ, Reaches once once (meeting p q) σ → (∀ τ, ¬ Step once once σ τ) →
    σ.left = .ret x ∧ σ.right = .ret y ∧ σ.toLeft = [] ∧ σ.toRight = []

theorem Does.meets {p : Prog Tag Act V} {q : Prog Tag Act W} (hp : Does p (side G) x)
    (hq : Does q (side (swapped G)) y) : Meets p q x y := by
  have hinit : Invariant once once G (meeting p q) :=
    .init hp.runs_once hq.runs_once (by simp)
  refine ⟨fun σ hσ => (hinit.reaches hσ).acc, fun σ hσ hstuck => ?_⟩
  have hend := (hinit.reaches hσ).ends.1 hstuck
  obtain ⟨hl, hr⟩ := Ending.reaches (x := x) (y := y) ⟨_, hp, rfl⟩ ⟨_, hq, rfl⟩ hinit hσ
  exact ⟨hl.eq_ret hend.left, hr.eq_ret hend.right, hend.toLeft, hend.toRight⟩

end Wire
end Probdata
