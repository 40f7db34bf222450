/-
# What is right given what came before

A condition on each event of a trace that may depend on the events before it:
`Along P b es` says that it holds of all the events `es` that come after `b`.
-/
import Mathlib.Data.List.Basic

namespace Probdata
namespace Trace

variable {α : Type} {P : List α → α → Prop} {b es es' : List α} {e : α}

/-- Each of the events `es`, after the events `b`, satisfies `P` with those
before it. -/
def Along (P : List α → α → Prop) : List α → List α → Prop
  | _, [] => True
  | b, e :: es => P b e ∧ Along P (b ++ [e]) es

@[simp] theorem along_nil : Along P b [] := trivial

@[simp] theorem along_cons : Along P b (e :: es) ↔ P b e ∧ Along P (b ++ [e]) es := Iff.rfl

theorem along_append : Along P b (es ++ es') ↔ Along P b es ∧ Along P (b ++ es) es' := by
  induction es generalizing b with
  | nil => simp
  | cons e es ih =>
    rw [List.cons_append, along_cons, ih, along_cons, List.append_assoc, and_assoc]
    rfl

theorem along_iff : Along P b es ↔ ∀ l e r, es = l ++ e :: r → P (b ++ l) e := by
  induction es generalizing b with
  | nil => simp
  | cons e es ih =>
    rw [along_cons, ih]
    constructor
    · rintro ⟨he, hes⟩ l x r h
      rcases l with _ | ⟨y, l⟩
      · obtain ⟨rfl, rfl⟩ := List.cons.inj h
        rwa [List.append_nil]
      · obtain ⟨rfl, rfl⟩ := List.cons.inj h
        simpa using hes l x r rfl
    · intro h
      refine ⟨by simpa using h [] e es rfl, fun l x r hes => ?_⟩
      simpa using h (e :: l) x r (by rw [hes]; rfl)

theorem along_snoc : Along P b (es ++ [e]) ↔ Along P b es ∧ P (b ++ es) e := by
  rw [along_append, along_cons, and_iff_left along_nil]

/-- Where a condition fails there is a first event that it fails of. -/
theorem exists_first (h : ¬ Along P b es) :
    ∃ l e r, es = l ++ e :: r ∧ Along P b l ∧ ¬ P (b ++ l) e := by
  induction es generalizing b with
  | nil => exact absurd along_nil h
  | cons e es ih =>
    by_cases he : P b e
    · obtain ⟨l, x, r, rfl, hl, hx⟩ := ih fun hes => h ⟨he, hes⟩
      exact ⟨e :: l, x, r, rfl, ⟨he, hl⟩, by simpa using hx⟩
    · exact ⟨[], e, es, rfl, trivial, by simpa using he⟩

end Trace
end Probdata
