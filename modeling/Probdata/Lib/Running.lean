/-
# The running maximum of a sequence of measurements

A search that keeps its best measurement so far compares every new value with
it strictly: `best b ys` is the value kept after the measurements `ys` when it
starts from `b`, `firstBest b ys` the position of the measurement that set it
(the first to reach it, `lt_best_of_lt_firstBest`), and `sinceImp b ys` the
number of measurements since. The `_snoc` lemmas say what one more measurement
does to the three, in the two cases of the comparison.
-/
import Mathlib.Order.Basic
import Mathlib.Order.Lattice
import Mathlib.Data.List.Basic
import Mathlib.Data.List.Induction
import Mathlib.Data.List.Forall2
import Mathlib.Tactic.Ring

namespace Probdata
namespace Running

variable {K : Type*} [LinearOrder K]

/-- The best value after the measurements `ys`, starting from `b`. -/
def best (b : K) (ys : List K) : K := ys.foldl max b

/-- The position of the first measurement that reaches the best value. -/
def firstBest (b : K) (ys : List K) : ℕ := ys.idxOf (best b ys)

/-- The number of measurements since the last strict improvement. -/
def sinceImp (b : K) (ys : List K) : ℕ :=
  if b < best b ys then ys.length - (firstBest b ys + 1) else ys.length

@[simp] theorem best_nil (b : K) : best b [] = b := rfl

@[simp] theorem sinceImp_nil (b : K) : sinceImp b [] = 0 := by simp [sinceImp]

theorem best_snoc (b : K) (ys : List K) (y : K) : best b (ys ++ [y]) = max (best b ys) y := by
  simp [best, List.foldl_append]

theorem le_best (b : K) (ys : List K) : b ≤ best b ys := by
  induction ys using List.reverseRecOn with
  | nil => exact le_refl b
  | append_singleton ys y ih => rw [best_snoc]; exact le_trans ih (le_max_left _ _)

theorem le_best_of_mem {b : K} {ys : List K} {y : K} (h : y ∈ ys) : y ≤ best b ys := by
  induction ys using List.reverseRecOn with
  | nil => cases h
  | append_singleton ys x ih =>
    rw [best_snoc]
    rcases List.mem_append.mp h with h | h
    · exact le_trans (ih h) (le_max_left _ _)
    · rw [List.mem_singleton.mp h]; exact le_max_right _ _

/-- A monotone scale keeps the best value. -/
theorem best_map {L : Type*} [LinearOrder L] {g : K → L} (hg : Monotone g) (b : K) (ys : List K) :
    best (g b) (ys.map g) = g (best b ys) := by
  induction ys using List.reverseRecOn with
  | nil => rfl
  | append_singleton ys y ih =>
    rw [List.map_append, List.map_singleton, best_snoc, best_snoc, ih, hg.map_max]

/-- The best value is one of the measurements, unless it is still the start. -/
theorem best_mem {b : K} {ys : List K} (h : b < best b ys) : best b ys ∈ ys := by
  induction ys using List.reverseRecOn with
  | nil => exact absurd h (lt_irrefl b)
  | append_singleton ys y ih =>
    rw [best_snoc] at h ⊢
    rcases le_total (best b ys) y with hy | hy
    · rw [max_eq_right hy]; simp
    · rw [max_eq_left hy] at h ⊢
      exact List.mem_append_left _ (ih h)

theorem firstBest_lt {b : K} {ys : List K} (h : b < best b ys) : firstBest b ys < ys.length :=
  List.idxOf_lt_length_iff.mpr (best_mem h)

theorem getElem_firstBest {b : K} {ys : List K} (h : firstBest b ys < ys.length) :
    ys[firstBest b ys] = best b ys :=
  List.getElem_idxOf h

/-- Every measurement before the first best one is smaller. -/
theorem lt_best_of_lt_firstBest {b : K} {ys : List K} {i : ℕ} (hi : i < firstBest b ys)
    (hl : i < ys.length) : ys[i] < best b ys := by
  refine lt_of_le_of_ne (le_best_of_mem (List.getElem_mem hl)) fun he => ?_
  have h1 : (ys[i] == best b ys) = false := List.not_of_lt_findIdx hi
  simp [he] at h1

/-- The first of the largest elements of a list is determined by the list. -/
theorem first_max_unique {α : Type*} {f : α → K} {pre post pre' post' : List α} {a b : α}
    (h : pre ++ a :: post = pre' ++ b :: post') (ha : ∀ u ∈ pre, f u < f a)
    (ha' : ∀ u ∈ post, f u ≤ f a) (hb : ∀ u ∈ pre', f u < f b) (hb' : ∀ u ∈ post', f u ≤ f b) :
    a = b := by
  rcases List.append_eq_append_iff.mp h with ⟨cs, hpre, hpost⟩ | ⟨cs, hpre, hpost⟩
  · rcases cs with _ | ⟨c, cs⟩
    · exact (List.cons.inj hpost).1
    · obtain ⟨rfl, hp⟩ := List.cons.inj hpost
      have h1 : f a < f b := hb a (by rw [hpre]; simp)
      have h2 : f b ≤ f a := ha' b (by rw [hp]; simp)
      exact absurd h1 (not_lt.mpr h2)
  · rcases cs with _ | ⟨c, cs⟩
    · exact (List.cons.inj hpost).1.symm
    · obtain ⟨rfl, hp⟩ := List.cons.inj hpost
      have h1 : f b < f a := ha b (by rw [hpre]; simp)
      have h2 : f a ≤ f b := hb' a (by rw [hp]; simp)
      exact absurd h1 (not_lt.mpr h2)

/-! ### One more measurement -/

theorem best_snoc_of_lt {b : K} {ys : List K} {y : K} (h : best b ys < y) :
    best b (ys ++ [y]) = y := by
  rw [best_snoc, max_eq_right h.le]

theorem best_snoc_of_le {b : K} {ys : List K} {y : K} (h : y ≤ best b ys) :
    best b (ys ++ [y]) = best b ys := by
  rw [best_snoc, max_eq_left h]

theorem firstBest_snoc_of_lt {b : K} {ys : List K} {y : K} (h : best b ys < y) :
    firstBest b (ys ++ [y]) = ys.length := by
  have hn : y ∉ ys := fun hm => absurd (le_best_of_mem hm) (not_le.mpr h)
  rw [firstBest, best_snoc_of_lt h, List.idxOf_append_of_notMem hn]
  simp

theorem firstBest_snoc_of_le {b : K} {ys : List K} {y : K} (h : y ≤ best b ys)
    (hb : b < best b ys) : firstBest b (ys ++ [y]) = firstBest b ys := by
  rw [firstBest, best_snoc_of_le h, List.idxOf_append_of_mem (best_mem hb)]
  rfl

theorem sinceImp_snoc_of_lt {b : K} {ys : List K} {y : K} (h : best b ys < y) :
    sinceImp b (ys ++ [y]) = 0 := by
  have hb : b < best b (ys ++ [y]) := by
    rw [best_snoc_of_lt h]; exact lt_of_le_of_lt (le_best b ys) h
  rw [sinceImp, if_pos hb, firstBest_snoc_of_lt h]
  simp

theorem sinceImp_snoc_of_le {b : K} {ys : List K} {y : K} (h : y ≤ best b ys) :
    sinceImp b (ys ++ [y]) = sinceImp b ys + 1 := by
  unfold sinceImp
  rw [best_snoc_of_le h]
  split
  · rename_i hb
    have hlt := firstBest_lt hb
    rw [firstBest_snoc_of_le h hb, List.length_append, List.length_singleton]
    omega
  · simp

/-! ### Keeping the element with the best value -/

section
variable {α : Type*} (f : α → K)

/-- An element replaces the one that is kept if its value is better. -/
def keep (m x : α) : α := if f m < f x then x else m

/-- The first of the elements with the best value. -/
def IsFirstMax (xs : List α) (x : α) : Prop :=
  ∃ pre post, xs = pre ++ x :: post ∧ (∀ y ∈ pre, f y < f x) ∧ ∀ y ∈ post, f y ≤ f x

variable {f}

/-- What is kept is the start, or the first best element. -/
theorem foldl_keep (m : α) (xs : List α) :
    (xs.foldl (keep f) m = m ∧ ∀ x ∈ xs, f x ≤ f m) ∨ IsFirstMax f xs (xs.foldl (keep f) m) := by
  induction xs using List.reverseRecOn with
  | nil => exact .inl ⟨rfl, fun x hx => nomatch hx⟩
  | append_singleton xs x ih =>
    rw [List.foldl_append, List.foldl_cons, List.foldl_nil, keep]
    by_cases hlt : f (xs.foldl (keep f) m) < f x
    · rw [if_pos hlt]
      refine .inr ⟨xs, [], rfl, fun y hy => ?_, fun y hy => nomatch hy⟩
      refine lt_of_le_of_lt ?_ hlt
      rcases ih with ⟨hm, hall⟩ | ⟨pre, post, hxs, hpre, hpost⟩
      · rw [hm]; exact hall y hy
      · rcases List.mem_append.mp (hxs ▸ hy) with hy | hy
        · exact (hpre y hy).le
        · rcases List.mem_cons.mp hy with rfl | hy
          · exact le_refl _
          · exact hpost y hy
    · rw [if_neg hlt]
      rcases ih with ⟨hm, hall⟩ | ⟨pre, post, hxs, hpre, hpost⟩
      · refine .inl ⟨hm, fun y hy => ?_⟩
        rcases List.mem_append.mp hy with hy | hy
        · exact hall y hy
        · obtain rfl := List.mem_singleton.mp hy
          rw [hm] at hlt
          exact not_lt.mp hlt
      · refine .inr ⟨pre, post ++ [x], by rw [← List.cons_append, ← List.append_assoc, ← hxs], hpre,
          fun y hy => ?_⟩
        rcases List.mem_append.mp hy with hy | hy
        · exact hpost y hy
        · obtain rfl := List.mem_singleton.mp hy
          exact not_lt.mp hlt

/-- If an element is better than the start, the first best element is kept. -/
theorem foldl_keep_isFirstMax {m : α} {xs : List α} {x : α} (hx : x ∈ xs) (hlt : f m < f x) :
    IsFirstMax f xs (xs.foldl (keep f) m) :=
  (foldl_keep m xs).resolve_left fun h => absurd hlt (not_lt.mpr (h.2 x hx))

theorem IsFirstMax.mem {xs : List α} {x : α} (h : IsFirstMax f xs x) : x ∈ xs := by
  obtain ⟨pre, post, rfl, -⟩ := h
  exact List.mem_append_right _ List.mem_cons_self

theorem IsFirstMax.le_of_mem {xs : List α} {x y : α} (h : IsFirstMax f xs x) (hy : y ∈ xs) :
    f y ≤ f x := by
  obtain ⟨pre, post, rfl, hpre, hpost⟩ := h
  rcases List.mem_append.mp hy with hy | hy
  · exact (hpre y hy).le
  · rcases List.mem_cons.mp hy with rfl | hy
    · exact le_refl _
    · exact hpost y hy

/-- An element of one of two lists that are related element by element. -/
theorem exists_mem_of_forall₂ {β : Type*} {R : α → β → Prop} {xs : List α} {ys : List β}
    (h : List.Forall₂ R xs ys) {x : α} (hx : x ∈ xs) : ∃ y ∈ ys, R x y := by
  induction h with
  | nil => exact absurd hx List.not_mem_nil
  | cons hab _ ih =>
    rcases List.mem_cons.mp hx with rfl | hx
    · exact ⟨_, List.mem_cons_self, hab⟩
    · obtain ⟨y, hy, hxy⟩ := ih hx
      exact ⟨y, List.mem_cons_of_mem _ hy, hxy⟩

/-- The first best element of a list, and that of one that is related to it. -/
theorem IsFirstMax.of_forall₂ {β : Type*} {g : β → K} {R : α → β → Prop}
    (hR : ∀ a b, R a b → f a = g b) {xs : List α} {ys : List β} (h : List.Forall₂ R xs ys) {x : α}
    (hx : IsFirstMax f xs x) : ∃ y, IsFirstMax g ys y ∧ R x y := by
  obtain ⟨pre, post, rfl, hpre, hpost⟩ := hx
  have hy := List.forall₂_take_append ys pre (x :: post) h.flip
  have hy' := List.forall₂_drop_append ys pre (x :: post) h.flip
  obtain ⟨y, post', hxy, hpost', hdrop⟩ := List.forall₂_cons_right_iff.mp hy'
  refine ⟨y, ⟨ys.take pre.length, post', ?_, fun u hu => ?_, fun u hu => ?_⟩, hxy⟩
  · rw [← hdrop, List.take_append_drop]
  · obtain ⟨a, ha, hau⟩ := exists_mem_of_forall₂ hy hu
    rw [← hR _ _ hxy, ← hR _ _ hau]
    exact hpre a ha
  · obtain ⟨a, ha, hau⟩ := exists_mem_of_forall₂ hpost' hu
    rw [← hR _ _ hxy, ← hR _ _ hau]
    exact hpost a ha

end

end Running
end Probdata
