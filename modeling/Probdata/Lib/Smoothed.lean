/-
# A smoothed value and its samples

A value that is unknown while it is negative, as is a sample that could not be
taken. The first sample that is taken becomes the value, each later one is mixed
into it. So the value is known as soon as it was given or a sample was taken, and
then it lies between the samples taken (`Smoothed`).
-/
import Mathlib.Order.MinMax
import Mathlib.Data.List.Basic
import Mathlib.Algebra.Notation.Defs

namespace Probdata

variable {K : Type*} [Zero K] [LinearOrder K]

/-- `r` may come from `r0` and the samples: it is unknown as long as all of them are,
and lies between the least and the greatest of the known ones. -/
structure Smoothed (r0 : K) (samples : List K) (r : K) : Prop where
  unknown : r < 0 ↔ ∀ p ∈ r0 :: samples, p < 0
  lower : 0 ≤ r → ∃ p ∈ r0 :: samples, 0 ≤ p ∧ p ≤ r
  upper : 0 ≤ r → ∃ p ∈ r0 :: samples, 0 ≤ p ∧ r ≤ p

namespace Smoothed

variable {r0 r p : K} {ps : List K}

theorem start (r0 : K) : Smoothed r0 [] r0 :=
  ⟨by simp, fun h => ⟨r0, by simp, h, le_rfl⟩, fun h => ⟨r0, by simp, h, le_rfl⟩⟩

/-- A sample that could not be taken. -/
theorem fails (h : Smoothed r0 ps r) (hp : p < 0) : Smoothed r0 (ps ++ [p]) r where
  unknown := by
    rw [h.unknown]
    simp [or_imp, forall_and, hp]
  lower hr := by
    obtain ⟨q, hq, h0, hle⟩ := h.lower hr
    exact ⟨q, List.mem_append_left [p] hq, h0, hle⟩
  upper hr := by
    obtain ⟨q, hq, h0, hle⟩ := h.upper hr
    exact ⟨q, List.mem_append_left [p] hq, h0, hle⟩

/-- The first sample that is taken. -/
theorem first (r0 : K) (ps : List K) (hp : 0 ≤ p) : Smoothed r0 (ps ++ [p]) p where
  unknown := by
    refine ⟨fun h => absurd h (not_lt.mpr hp), fun h => h p ?_⟩
    exact List.mem_append_right (r0 :: ps) (List.mem_singleton.mpr rfl)
  lower _ := ⟨p, List.mem_append_right (r0 :: ps) (List.mem_singleton.mpr rfl), hp, le_rfl⟩
  upper _ := ⟨p, List.mem_append_right (r0 :: ps) (List.mem_singleton.mpr rfl), hp, le_rfl⟩

/-- A sample that is mixed into a known value. -/
theorem mixes {r' : K} (h : Smoothed r0 ps r) (hr : 0 ≤ r) (hp : 0 ≤ p) (hlo : min r p ≤ r')
    (hhi : r' ≤ max r p) : Smoothed r0 (ps ++ [p]) r' := by
  have hlast : p ∈ r0 :: ps ++ [p] := List.mem_append_right _ (List.mem_singleton.mpr rfl)
  refine ⟨⟨fun h' => absurd ((le_min hr hp).trans hlo) (not_le.mpr h'), fun h' => ?_⟩,
    fun _ => ?_, fun _ => ?_⟩
  · exact absurd (h' p hlast) (not_lt.mpr hp)
  · rcases min_le_iff.mp hlo with hle | hle
    · obtain ⟨q, hq, h0, hqr⟩ := h.lower hr
      exact ⟨q, List.mem_append_left [p] hq, h0, hqr.trans hle⟩
    · exact ⟨p, hlast, hp, hle⟩
  · rcases le_max_iff.mp hhi with hle | hle
    · obtain ⟨q, hq, h0, hqr⟩ := h.upper hr
      exact ⟨q, List.mem_append_left [p] hq, h0, hle.trans hqr⟩
    · exact ⟨p, hlast, hp, hle⟩

/-- A known value stays known with more samples. -/
theorem remains {r' : K} {qs : List K} (h : Smoothed r0 ps r) (h' : Smoothed r0 (ps ++ qs) r')
    (hr : 0 ≤ r) : 0 ≤ r' := by
  obtain ⟨p, hp, h0, -⟩ := h.lower hr
  by_contra hneg
  exact absurd (h'.unknown.mp (not_le.mp hneg) p (List.mem_append_left qs hp)) (not_lt.mpr h0)

end Smoothed
end Probdata
