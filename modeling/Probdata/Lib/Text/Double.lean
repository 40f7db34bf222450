/-
# Doubles and their decimals

The value of a binary64 word (`Dbl.ofBits`), the double nearest to a number
(`Dbl.nearest`), and what is left of a number that is printed with six digits behind the
point: the nearest multiple of a millionth (`millionths`): it is moved by half a millionth
at most (`abs_millionths_sub_le`), and its nearest millionth is printed in the same way.
Rounding keeps the order: of two doubles the smaller one was read from the smaller number
(`Dbl.lt_of_nearest_lt`).
-/
import Mathlib.Algebra.Order.Field.Rat
import Mathlib.Algebra.Order.Floor.Semiring
import Mathlib.Data.Nat.Log
import Mathlib.Tactic.Linarith
import Probdata.Lib.Text.Format

namespace Probdata
namespace Text

/-! ### Binary64 -/

/-- The value of a binary64 word. Both zeros are 0. -/
def Dbl.ofBits (w : BitVec 64) : Dbl :=
  let neg := w.getLsbD 63
  let e := (w.extractLsb' 52 11).toNat
  let f := (w.extractLsb' 0 52).toNat
  let sign : ℚ := if neg then -1 else 1
  if e = 2047 then (if f = 0 then .inf neg else .nan)
  else if e = 0 then .num (sign * ((f : ℚ) / (2 : ℚ) ^ 1074))
  else .num (sign * ((((2 : ℕ) ^ 52 + f : ℕ) : ℚ) * (2 : ℚ) ^ e / (2 : ℚ) ^ 1075))

/-- A finite double is smaller than `2 ^ 1024`. -/
theorem Dbl.ofBits_lt {w : BitVec 64} {q : ℚ} (h : Dbl.ofBits w = .num q) : q < 2 ^ 1024 := by
  have hf : (((w.extractLsb' 0 52).toNat : ℕ) : ℚ) < 2 ^ 52 := by
    exact_mod_cast (w.extractLsb' 0 52).isLt
  have hf0 : (0 : ℚ) ≤ ((w.extractLsb' 0 52).toNat : ℕ) := Nat.cast_nonneg _
  have he : (w.extractLsb' 52 11).toNat < 2 ^ 11 := (w.extractLsb' 52 11).isLt
  have hsign : ∀ b : Bool, ∀ x : ℚ, 0 ≤ x → (if b then -1 else 1) * x ≤ x := fun b x hx => by
    cases b
    · simp
    · simp
      linarith
  unfold Dbl.ofBits at h
  dsimp only at h
  split at h
  · split at h <;> cases h
  · split at h
    · obtain rfl := Dbl.num.inj h
      refine lt_of_le_of_lt (hsign _ _ (by positivity)) ?_
      rw [div_lt_iff₀ (by positivity)]
      calc _ < (2 : ℚ) ^ 52 := hf
        _ ≤ 2 ^ (1024 + 1074) := pow_le_pow_right₀ (by norm_num) (by norm_num)
        _ = 2 ^ 1024 * 2 ^ 1074 := pow_add _ _ _
    · obtain rfl := Dbl.num.inj h
      refine lt_of_le_of_lt (hsign _ _ (by positivity)) ?_
      rw [div_lt_iff₀ (by positivity), ← pow_add]
      have hpow : (2 : ℚ) ^ (w.extractLsb' 52 11).toNat ≤ 2 ^ 2046 :=
        pow_le_pow_right₀ (by norm_num) (by omega)
      have hm : (((2 : ℕ) ^ 52 + (w.extractLsb' 0 52).toNat : ℕ) : ℚ) < 2 ^ 53 := by
        push_cast
        linarith
      calc _ < (2 : ℚ) ^ 53 * 2 ^ (w.extractLsb' 52 11).toNat :=
            mul_lt_mul_of_pos_right hm (by positivity)
        _ ≤ 2 ^ 53 * 2 ^ 2046 := mul_le_mul_of_nonneg_left hpow (by positivity)
        _ = 2 ^ (1024 + 1075) := by rw [← pow_add]

/-! ### Rounding -/

/-- The nearest multiple of a millionth. -/
def millionths (q : ℚ) : ℚ := roundEven (q * 10 ^ 6) / 10 ^ 6

theorem toNat_floor {q : ℚ} (h : 0 ≤ q) : ((⌊q⌋.toNat : ℕ) : ℚ) = ⌊q⌋ := by
  have hfloor : ((⌊q⌋.toNat : ℕ) : ℤ) = ⌊q⌋ := Int.toNat_of_nonneg (Int.floor_nonneg.mpr h)
  exact_mod_cast hfloor

theorem roundEven_spec {q : ℚ} (h : 0 ≤ q) : q - 1 / 2 ≤ roundEven q ∧ (roundEven q : ℚ) ≤ q + 1 / 2 := by
  have hle := Int.floor_le q
  have hlt := Int.lt_floor_add_one q
  rw [← toNat_floor h] at hle hlt
  unfold roundEven
  dsimp only
  split
  · constructor <;> linarith
  · split
    · rename_i heq
      constructor <;> linarith [heq.1]
    · rename_i hge _
      push_cast
      constructor <;> linarith

/-- Rounding moves a number by half a millionth at most. -/
theorem abs_millionths_sub_le {q : ℚ} (h : 0 ≤ q) : |millionths q - q| ≤ 1 / 2 / 10 ^ 6 := by
  obtain ⟨h1, h2⟩ := roundEven_spec (q := q * 10 ^ 6) (by positivity)
  have hq : millionths q - q = (roundEven (q * 10 ^ 6) - q * 10 ^ 6) / 10 ^ 6 := by
    rw [millionths, sub_div, mul_div_cancel_right₀ _ (by norm_num)]
  rw [hq, abs_div, abs_of_pos (show (0 : ℚ) < 10 ^ 6 by norm_num)]
  refine div_le_div_of_nonneg_right ?_ (by norm_num)
  rw [abs_le]
  constructor <;> linarith

theorem roundEven_mono {p q : ℚ} (hp : 0 ≤ p) (h : p ≤ q) : roundEven p ≤ roundEven q := by
  by_contra hlt
  obtain ⟨-, hp1⟩ := roundEven_spec hp
  obtain ⟨hq0, -⟩ := roundEven_spec (hp.trans h)
  have hstep : (roundEven q : ℚ) + 1 ≤ roundEven p := by exact_mod_cast not_le.mp hlt
  -- both are halfway between two numbers, and the same one of them is taken
  have hpq : p = q := by linarith
  rw [hpq] at hlt
  exact hlt le_rfl

/-- A number is printed as its nearest millionth is. -/
theorem printDouble_num {q : ℚ} (h : 0 ≤ q) :
    printDouble (.num q) = printDouble (.num (millionths q)) := by
  rw [millionths, printDouble_millionths, printDouble, if_neg (not_lt.mpr h)]

/-! ### The nearest double -/

/-- The exponent of the last of the 53 digits of `x`, or 0. -/
def lastPlace (x : ℚ) : ℕ := Nat.log2 ⌊x⌋.toNat - 52

/-- `x` to 53 digits; of two nearest numbers the even one. -/
def roundPlaces (x : ℚ) : ℕ := roundEven (x / 2 ^ lastPlace x) * 2 ^ lastPlace x

/-- A number that is not negative, to the places of a double: its last digit is no
smaller than `2 ^ -1074`. -/
def Dbl.round (q : ℚ) : ℚ := roundPlaces (q * 2 ^ 1074) / 2 ^ 1074

/-- The nearest double. Both zeros are 0, and there is no largest exponent. -/
def Dbl.nearest : Dbl → Dbl
  | .num q => .num (if q < 0 then -round (-q) else round q)
  | x => x

theorem lastPlace_mono {x y : ℚ} (h : x ≤ y) : lastPlace x ≤ lastPlace y := by
  have hfloor : ⌊x⌋.toNat ≤ ⌊y⌋.toNat := Int.toNat_le_toNat (Int.floor_mono h)
  unfold lastPlace
  rw [Nat.log2_eq_log_two, Nat.log2_eq_log_two]
  exact Nat.sub_le_sub_right (Nat.log_mono_right hfloor) 52

/-- 53 digits at most in front of the last place. -/
theorem lt_lastPlace {x : ℚ} (hx : 0 ≤ x) : x / 2 ^ lastPlace x < (2 ^ 53 : ℕ) := by
  rw [div_lt_iff₀ (by positivity)]
  have hlt : ⌊x⌋.toNat + 1 ≤ 2 ^ 53 * 2 ^ lastPlace x := by
    rw [← pow_add, lastPlace]
    calc ⌊x⌋.toNat + 1 ≤ 2 ^ (⌊x⌋.toNat.log2 + 1) := Nat.lt_log2_self
      _ ≤ 2 ^ (53 + (⌊x⌋.toNat.log2 - 52)) := Nat.pow_le_pow_right (by decide) (by omega)
  calc x < ⌊x⌋.toNat + 1 := by rw [toNat_floor hx]; exact Int.lt_floor_add_one x
    _ ≤ (2 ^ 53 : ℕ) * 2 ^ lastPlace x := by exact_mod_cast hlt

/-- All of the 53 digits, if the last place is not the smallest. -/
theorem le_lastPlace {x : ℚ} (hx : 0 ≤ x) (h : 0 < lastPlace x) :
    ((2 ^ 52 : ℕ) : ℚ) ≤ x / 2 ^ lastPlace x := by
  rw [le_div_iff₀ (by positivity)]
  rw [lastPlace] at h
  have hle : 2 ^ 52 * 2 ^ lastPlace x ≤ ⌊x⌋.toNat := by
    rw [← pow_add, lastPlace, show 52 + (⌊x⌋.toNat.log2 - 52) = ⌊x⌋.toNat.log2 by omega]
    exact Nat.log2_self_le fun h0 => by simp [h0] at h
  calc ((2 ^ 52 : ℕ) : ℚ) * 2 ^ lastPlace x ≤ ⌊x⌋.toNat := by exact_mod_cast hle
    _ ≤ x := by rw [toNat_floor hx]; exact Int.floor_le x

theorem roundPlaces_mono {x y : ℚ} (hx : 0 ≤ x) (h : x ≤ y) : roundPlaces x ≤ roundPlaces y := by
  have hy := hx.trans h
  unfold roundPlaces
  rcases (lastPlace_mono h).eq_or_lt with heq | hlt
  · rw [heq]
    exact Nat.mul_le_mul_right _ (roundEven_mono (by positivity)
      (div_le_div_of_nonneg_right h (by positivity)))
  · -- a power of two lies between them
    have hlow : roundEven (x / 2 ^ lastPlace x) ≤ 2 ^ 53 := by
      rw [← roundEven_natCast (2 ^ 53)]
      exact roundEven_mono (by positivity) (lt_lastPlace hx).le
    have hhigh : 2 ^ 52 ≤ roundEven (y / 2 ^ lastPlace y) := by
      rw [← roundEven_natCast (2 ^ 52)]
      exact roundEven_mono (by positivity) (le_lastPlace hy (by omega))
    calc _ ≤ 2 ^ 53 * 2 ^ lastPlace x := Nat.mul_le_mul_right _ hlow
      _ = 2 ^ 52 * 2 ^ (lastPlace x + 1) := by rw [pow_succ]; ring
      _ ≤ 2 ^ 52 * 2 ^ lastPlace y := Nat.mul_le_mul_left _ (Nat.pow_le_pow_right (by decide) hlt)
      _ ≤ _ := Nat.mul_le_mul_right _ hhigh

theorem Dbl.round_nonneg (q : ℚ) : 0 ≤ round q := by
  unfold round
  positivity

theorem Dbl.round_mono {p q : ℚ} (hp : 0 ≤ p) (h : p ≤ q) : round p ≤ round q := by
  unfold round
  refine div_le_div_of_nonneg_right ?_ (by positivity)
  exact_mod_cast roundPlaces_mono (by positivity) (mul_le_mul_of_nonneg_right h (by positivity))

theorem Dbl.nearest_ne_nan {x : Dbl} (h : x ≠ .nan) : x.nearest ≠ .nan := by
  cases x with
  | num q => simp [nearest]
  | inf neg => simp [nearest]
  | nan => exact absurd rfl h

/-- Rounding keeps the order. -/
theorem Dbl.nearest_le {p q : ℚ} (h : p ≤ q) :
    (Dbl.num q).nearest.lt (Dbl.num p).nearest = false := by
  rw [nearest, nearest, lt, decide_eq_false_iff_not, not_lt]
  by_cases hq : q < 0
  · rw [if_pos hq, if_pos (h.trans_lt hq), neg_le_neg_iff]
    exact round_mono (by linarith) (by linarith)
  · rw [if_neg hq]
    by_cases hp : p < 0
    · rw [if_pos hp]
      linarith [round_nonneg (-p), round_nonneg q]
    · rw [if_neg hp]
      exact round_mono (not_lt.mp hp) h

/-- Of two doubles the smaller one was read from the smaller number. -/
theorem Dbl.lt_of_nearest_lt {x y : Dbl} (h : x.nearest.lt y.nearest = true) : x.lt y = true := by
  cases x with
  | nan => exact h
  | inf n => cases y <;> exact h
  | num p =>
    cases y with
    | nan => exact h
    | inf n => exact h
    | num q =>
      by_contra hle
      have hqp : q ≤ p := by simpa [lt] using hle
      rw [nearest_le hqp] at h
      cases h

/-- A tenth is no double: it is read as the nearest one. -/
example : Dbl.nearest (.num (3001 / 10)) = Dbl.ofBits 0x4072C1999999999A := by decide +kernel

/-- The digits of a number that is printed. -/
theorem length_printDouble {q : ℚ} (h : 0 ≤ q) {k : ℕ} (hk : 0 < k) (hq : q + 1 < 10 ^ k) :
    (printDouble (.num q)).length ≤ k + 7 := by
  have hround : roundEven (q * 10 ^ 6) / 10 ^ 6 < 10 ^ k := by
    have h2 := (roundEven_spec (q := q * 10 ^ 6) (by positivity)).2
    have hscale : 10 ^ 6 * (q + 1) < 10 ^ 6 * 10 ^ k := mul_lt_mul_of_pos_left hq (by norm_num)
    have hlt : (roundEven (q * 10 ^ 6) : ℚ) < (10 ^ 6 * 10 ^ k : ℕ) := by
      rw [Nat.cast_mul, Nat.cast_pow, Nat.cast_pow, Nat.cast_ofNat]
      refine lt_of_le_of_lt h2 (lt_of_le_of_lt ?_ hscale)
      linarith
    exact Nat.div_lt_of_lt_mul (by exact_mod_cast hlt)
  have hdigits : (Nat.toDigits 10 (roundEven (q * 10 ^ 6) / 10 ^ 6)).length ≤ k :=
    (Nat.length_toDigits_le_iff (by decide) hk).mpr hround
  have hpad : (padded 6 (roundEven (q * 10 ^ 6) % 10 ^ 6)).length = 6 :=
    length_padded (by decide) (Nat.mod_lt _ (by decide))
  rw [printDouble, if_neg (not_lt.mpr h), printMillionths, List.length_append, List.length_cons, hpad]
  omega

/-- The digits of an integer that is printed, and its sign. -/
theorem length_printInt {n : ℤ} {k : ℕ} (hk : 0 < k) (h : n.natAbs < 10 ^ k) :
    (printInt n).length ≤ k + 1 := by
  have hdigits : (Nat.toDigits 10 n.natAbs).length ≤ k :=
    (Nat.length_toDigits_le_iff (by decide) hk).mpr h
  unfold printInt
  split
  · rw [List.length_cons]
    omega
  · omega

end Text
end Probdata
