/-
# Points of an interval

`clip lo hi x` is the point of `[lo, hi]` nearest to `x`. A step `h` from a
point of the interval in one direction and in the other, both clipped, never
leads to the same point (`clip_sub_ne_clip_add`), and what is left of a clipped
step is the step times the fraction of it that stays inside (`step_clip_hi`,
`step_clip_lo`).

`scale lo hi a b x` is the image of `x` under the affine map that takes `lo` to
`a` and `hi` to `b`; the points of `[lo, hi]` go between `a` and `b`, in
whatever order these are.
-/
import Mathlib.Algebra.Order.Field.Basic
import Mathlib.Algebra.Order.Floor.Ring
import Mathlib.Order.Interval.Set.UnorderedInterval
import Mathlib.Tactic.Linarith
import Mathlib.Tactic.FieldSimp
import Mathlib.Tactic.Ring
import Mathlib.Tactic.LinearCombination

namespace Probdata
namespace Interval

section Clip

variable {K : Type*} [LinearOrder K] {lo hi x y : K}

def clip (lo hi x : K) : K := max lo (min hi x)

theorem le_clip (lo hi x : K) : lo ≤ clip lo hi x := le_max_left _ _

theorem clip_le (h : lo ≤ hi) (x : K) : clip lo hi x ≤ hi := max_le h (min_le_left _ _)

theorem clip_of_mem (hlo : lo ≤ x) (hhi : x ≤ hi) : clip lo hi x = x := by
  rw [clip, min_eq_right hhi, max_eq_right hlo]

theorem clip_of_lt (h : lo ≤ hi) (hx : x < lo) : clip lo hi x = lo := by
  rw [clip, min_eq_right (hx.le.trans h), max_eq_left hx.le]

theorem clip_of_gt (h : lo ≤ hi) (hx : hi < x) : clip lo hi x = hi := by
  rw [clip, min_eq_left hx.le, max_eq_right h]

/-- Clipping in the order of the comparisons: the upper bound first. -/
theorem clip_eq_ite (h : lo ≤ hi) (x : K) :
    clip lo hi x = if x > hi then hi else if x < lo then lo else x := by
  split
  · rename_i hx; exact clip_of_gt h hx
  · rename_i hx
    split
    · rename_i hx'; exact clip_of_lt h hx'
    · rename_i hx'; exact clip_of_mem (not_lt.mp hx') (not_lt.mp hx)

end Clip

variable {K : Type*} [Field K] [LinearOrder K] [IsStrictOrderedRing K] {lo hi a b x h : K}

/-! ### A clipped step -/

theorem clip_sub_lt_clip_add (hlt : lo < hi) (hlo : lo ≤ x) (hhi : x ≤ hi) (h0 : 0 < h) :
    clip lo hi (x - h) < clip lo hi (x + h) := by
  have hle : clip lo hi (x - h) ≤ x := max_le hlo ((min_le_right _ _).trans (by linarith))
  rcases lt_or_ge x hi with hx | hx
  · -- there is room above
    have hgt : x < min hi (x + h) := lt_min hx (by linarith)
    exact hle.trans_lt (hgt.trans_le (le_max_right _ _))
  · -- the point is the upper end, so there is room below
    obtain rfl : x = hi := le_antisymm hhi hx
    have hlow : clip lo x (x - h) < x := max_lt hlt ((min_le_right _ _).trans_lt (by linarith))
    rwa [show clip lo x (x + h) = x from clip_of_gt hlo (by linarith)]

theorem clip_sub_ne_clip_add (hlt : lo < hi) (hlo : lo ≤ x) (hhi : x ≤ hi) (h0 : h ≠ 0) :
    clip lo hi (x - h) ≠ clip lo hi (x + h) := by
  rcases lt_or_gt_of_ne h0 with hneg | hpos
  · have := clip_sub_lt_clip_add hlt hlo hhi (neg_pos.mpr hneg)
    rw [sub_neg_eq_add, ← sub_eq_add_neg] at this
    exact this.ne'
  · exact (clip_sub_lt_clip_add hlt hlo hhi hpos).ne

/-- What is left of a step that crosses the upper end. -/
theorem step_clip_hi (hhi : x ≤ hi) (hx : hi < x + h) : h * |(hi - x) / h| = hi - x := by
  have hpos : 0 < h := by linarith
  rw [abs_of_nonneg (div_nonneg (sub_nonneg.mpr hhi) hpos.le), mul_div_cancel₀ _ hpos.ne']

/-- What is left of a step that crosses the lower end. -/
theorem step_clip_lo (hlo : lo ≤ x) (hx : x + h < lo) : h * |(lo - x) / h| = lo - x := by
  have hneg : h < 0 := by linarith
  rw [abs_of_nonneg (div_nonneg_of_nonpos (sub_nonpos.mpr hlo) hneg.le),
    mul_div_cancel₀ _ hneg.ne]

/-! ### An affine map of the interval -/

def scale (lo hi a b x : K) : K := (x - lo) * (b - a) / (hi - lo) + a

theorem scale_mem_uIcc (hlt : lo < hi) (hlo : lo ≤ x) (hhi : x ≤ hi) :
    scale lo hi a b x ∈ Set.uIcc a b := by
  have hw : 0 < hi - lo := sub_pos.mpr hlt
  have h0 : 0 ≤ (x - lo) / (hi - lo) := div_nonneg (sub_nonneg.mpr hlo) hw.le
  have h1 : (x - lo) / (hi - lo) ≤ 1 := (div_le_one hw).mpr (by linarith)
  have he : scale lo hi a b x = (x - lo) / (hi - lo) * (b - a) + a := by
    rw [scale, mul_div_right_comm]
  rw [he, Set.mem_uIcc]
  rcases le_total a b with hab | hab
  · have hd : 0 ≤ b - a := sub_nonneg.mpr hab
    have hm := mul_nonneg h0 hd
    have hm' := mul_le_of_le_one_left hd h1
    exact Or.inl ⟨by linarith, by linarith⟩
  · have hd : 0 ≤ a - b := sub_nonneg.mpr hab
    have hm := mul_nonneg h0 hd
    have hm' := mul_le_of_le_one_left hd h1
    exact Or.inr ⟨by linarith, by linarith⟩

/-- The images of the interval stay between any bounds of `a` and `b`. -/
theorem scale_mem {m n : K} (hlt : lo < hi) (hlo : lo ≤ x) (hhi : x ≤ hi)
    (ha : m ≤ a ∧ a ≤ n) (hb : m ≤ b ∧ b ≤ n) :
    m ≤ scale lo hi a b x ∧ scale lo hi a b x ≤ n := by
  rcases Set.mem_uIcc.mp (scale_mem_uIcc (a := a) (b := b) hlt hlo hhi) with ⟨h1, h2⟩ | ⟨h1, h2⟩
  · exact ⟨ha.1.trans h1, h2.trans hb.2⟩
  · exact ⟨hb.1.trans h1, h2.trans ha.2⟩

/-- Named, as the proof that the numeral in a half carries. -/
instance atLeastTwo_two : Nat.AtLeastTwo (nat_lit 2) := ⟨le_rfl⟩

/-- Rounding to the nearest integer keeps integer bounds. -/
theorem round_mem [FloorRing K] {m n : ℤ} (hm : (m : K) ≤ x) (hn : x ≤ n) :
    m ≤ ⌊x + 1 / 2⌋ ∧ ⌊x + 1 / 2⌋ ≤ n := by
  constructor
  · rw [Int.le_floor]; linarith
  · rw [← Int.lt_add_one_iff, Int.floor_lt]
    push_cast
    linarith

end Interval
end Probdata
