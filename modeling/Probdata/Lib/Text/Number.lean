/-
# Numbers in a text

How the formatted input and output functions of the C standard read and print
numbers, over a text as a list of characters. A conversion skips white space and
takes the longest input that a number could begin with; it fails if that input
is not a number (`1e` in front of a letter is one that fails). A `double` is
exact: a rational number, an infinity, or no number.

What is printed is read back: `scanInt_printInt` for the integers, and
`scanDouble_printDouble` for a decimal of at most six fractional digits, which
`%lf` prints without rounding.
-/
import Mathlib.Data.Rat.Floor
import Mathlib.Data.List.Basic
import Mathlib.Tactic.Ring
import Mathlib.Tactic.Positivity
import Mathlib.Tactic.IntervalCases

namespace Probdata
namespace Text

/-- Space, tab, newline, vertical tab, form feed and carriage return. -/
def isSpace (c : Char) : Bool := c.toNat = 32 || (9 ≤ c.toNat && c.toNat ≤ 13)

def skipSpace (t : List Char) : List Char := t.dropWhile isSpace

/-- A `double`. -/
inductive Dbl
  | num (q : ℚ)
  | inf (neg : Bool)
  | nan
  deriving DecidableEq, Repr

/-- `x < y`, false if one of the two is no number. -/
def Dbl.lt : Dbl → Dbl → Bool
  | .nan, _ => false
  | _, .nan => false
  | .num p, .num q => p < q
  | .inf neg, .num _ => neg
  | .num _, .inf neg => !neg
  | .inf neg, .inf neg' => neg && !neg'

theorem Dbl.lt_asymm {x y : Dbl} (h : x.lt y = true) : y.lt x = false := by
  cases x <;> cases y <;> simp_all [Dbl.lt]
  exact h.le

theorem Dbl.lt_self (x : Dbl) : x.lt x = false := by
  cases x <;> simp [Dbl.lt]

theorem Dbl.lt_trans {x y z : Dbl} (hxy : x.lt y = true) (hyz : y.lt z = true) : x.lt z = true := by
  cases x <;> cases y <;> cases z <;> simp_all [Dbl.lt]
  exact hxy.trans hyz

theorem Dbl.ne_nan_of_lt {x y : Dbl} (h : x.lt y = true) : y ≠ .nan := by
  rintro rfl
  cases x <;> simp [Dbl.lt] at h

/-- What is no larger than a number that is smaller than `z`. -/
theorem Dbl.lt_of_not_gt {x y z : Dbl} (hxy : y.lt x = false) (hx : x ≠ .nan)
    (hyz : y.lt z = true) : x.lt z = true := by
  cases x <;> cases y <;> cases z <;> simp_all [Dbl.lt]
  exact hxy.trans_lt hyz

theorem Dbl.eq_of_le {x y : Dbl} (hx : x ≠ .nan) (hy : y ≠ .nan) (hxy : x.lt y = false)
    (hyx : y.lt x = false) : x = y := by
  cases x <;> cases y <;> simp_all [Dbl.lt]
  · exact le_antisymm hyx hxy
  · exact Bool.eq_iff_iff.mpr ⟨hxy, hyx⟩

/-- A number or infinity that is not negative. -/
def Dbl.Nonneg (x : Dbl) : Prop := x.lt (.num 0) = false ∧ x ≠ .nan

instance (x : Dbl) : Decidable x.Nonneg := inferInstanceAs (Decidable (_ ∧ _))

theorem Dbl.lt_of_nonneg {x y : Dbl} (hx : x.lt (.num 0) = true) (hy : y.Nonneg) : x.lt y = true := by
  obtain ⟨hy, hnan⟩ := hy
  cases x <;> cases y <;> simp_all [Dbl.lt]
  exact lt_of_lt_of_le hx hy

theorem Dbl.Nonneg.of_lt {x y : Dbl} (hx : x.Nonneg) (h : x.lt y = true) : y.Nonneg := by
  obtain ⟨hx, hnan⟩ := hx
  cases x <;> cases y <;> simp_all [Dbl.lt, Dbl.Nonneg]
  exact hx.trans h.le

/-- What is larger than something is a number or infinity. -/
theorem Dbl.neg_of_lt {x y : Dbl} (h : x.lt y = true) (hy : ¬ y.Nonneg) : y.lt (.num 0) = true := by
  by_contra hneg
  refine hy ⟨by simpa using hneg, ?_⟩
  rintro rfl
  cases x <;> simp [Dbl.lt] at h

/-! ### Reading -/

/-- An optional sign, and whether it was a minus. -/
def scanSign : List Char → Bool × List Char
  | '-' :: t => (true, t)
  | '+' :: t => (false, t)
  | t => (false, t)

/-- The value of decimal digits. -/
def natOf (ds : List Char) : ℕ := Nat.ofDigitChars 10 ds 0

def signed (neg : Bool) (n : ℕ) : ℤ := if neg then -n else n

/-- An integer, and what is left. -/
def scanInt (t : List Char) : Option (ℤ × List Char) :=
  let (neg, t) := scanSign (skipSpace t)
  let ds := t.takeWhile Char.isDigit
  if ds = [] then none else some (signed neg (natOf ds), t.dropWhile Char.isDigit)

/-- How many characters of `t` spell the beginning of the word `w`, in either case. -/
def spelled : List Char → List Char → ℕ
  | [], _ => 0
  | _, [] => 0
  | w :: ws, c :: t => if c.toLower = w then spelled ws t + 1 else 0

/-- `inf` or `infinity`. -/
def scanInf (neg : Bool) (t : List Char) : Option (Dbl × List Char) :=
  let n := spelled "infinity".toList t
  if n = 3 ∨ n = 8 then some (.inf neg, t.drop n) else none

/-- `nan`, or `nan(...)` with letters, digits and underscores. -/
def scanNan (t : List Char) : Option (Dbl × List Char) :=
  if spelled "nan".toList t = 3 then
    match t.drop 3 with
    | '(' :: u =>
      match u.dropWhile fun c => c.isAlphanum || c = '_' with
      | ')' :: v => some (.nan, v)
      | _ => none
    | u => some (.nan, u)
  else none

/-- The digits after a point, if there is one. -/
def scanFraction (digit : Char → Bool) : List Char → List Char × List Char
  | '.' :: t => (t.takeWhile digit, t.dropWhile digit)
  | t => ([], t)

/-- An optional exponent after the letter `e`, in either case. Once its letter is
there the exponent must have a digit, by the C standard; glibc takes the number
without it. -/
def scanExponent (e : Char) : List Char → Option (ℤ × List Char)
  | [] => some (0, [])
  | c :: t =>
    if c.toLower = e then
      let (neg, t) := scanSign t
      let ds := t.takeWhile Char.isDigit
      if ds = [] then none else some (signed neg (natOf ds), t.dropWhile Char.isDigit)
    else some (0, c :: t)

/-- A decimal number without its sign. -/
def scanDecimal (neg : Bool) (t : List Char) : Option (Dbl × List Char) :=
  let ds := t.takeWhile Char.isDigit
  let (fs, t) := scanFraction Char.isDigit (t.dropWhile Char.isDigit)
  if ds ++ fs = [] then none
  else
    (scanExponent 'e' t).map fun (e, t) =>
      (.num ((signed neg (natOf (ds ++ fs)) : ℚ) * 10 ^ (e - fs.length)), t)

def isHexDigit (c : Char) : Bool := c.isDigit || ('a' ≤ c.toLower && c.toLower ≤ 'f')

/-- The value of hexadecimal digits. -/
def hexOf (ds : List Char) : ℕ :=
  ds.foldl (fun n c => 16 * n +
    (if c.isDigit then c.toNat - '0'.toNat else c.toLower.toNat - 'a'.toNat + 10)) 0

/-- A hexadecimal number without its sign and its `0x`. -/
def scanHex (neg : Bool) (t : List Char) : Option (Dbl × List Char) :=
  let ds := t.takeWhile isHexDigit
  let (fs, t) := scanFraction isHexDigit (t.dropWhile isHexDigit)
  if ds ++ fs = [] then none
  else
    (scanExponent 'p' t).map fun (e, t) =>
      (.num ((signed neg (hexOf (ds ++ fs)) : ℚ) * 2 ^ (e - 4 * fs.length)), t)

/-- A `double`, and what is left. -/
def scanDouble (t : List Char) : Option (Dbl × List Char) :=
  let (neg, t) := scanSign (skipSpace t)
  match t with
  | [] => none
  | c :: u =>
    if c.toLower = 'i' then scanInf neg (c :: u)
    else if c.toLower = 'n' then scanNan (c :: u)
    else
      match u with
      | x :: v => if c = '0' ∧ x.toLower = 'x' then scanHex neg v else scanDecimal neg (c :: x :: v)
      | [] => scanDecimal neg [c]

/-! ### Printing -/

def printInt (n : ℤ) : List Char :=
  if n < 0 then '-' :: Nat.toDigits 10 n.natAbs else Nat.toDigits 10 n.natAbs

/-- The nearest natural number, the even one of two. -/
def roundEven (q : ℚ) : ℕ :=
  let n := ⌊q⌋.toNat
  if q - n < 1 / 2 then n else if q - n = 1 / 2 ∧ n % 2 = 0 then n else n + 1

/-- The digits of `n`, with zeros in front up to `k` of them. -/
def padded (k n : ℕ) : List Char :=
  List.replicate (k - (Nat.toDigits 10 n).length) '0' ++ Nat.toDigits 10 n

/-- `n` millionths. -/
def printMillionths (n : ℕ) : List Char :=
  Nat.toDigits 10 (n / 10 ^ 6) ++ '.' :: padded 6 (n % 10 ^ 6)

/-- `%lf` -/
def printDouble : Dbl → List Char
  | .num q =>
    if q < 0 then '-' :: printMillionths (roundEven (-q * 10 ^ 6))
    else printMillionths (roundEven (q * 10 ^ 6))
  | .inf true => "-inf".toList
  | .inf false => "inf".toList
  | .nan => "nan".toList

/-! ### Runs of digits -/

theorem digit_cases {c : Char} (h : c.isDigit = true) : c = '0' ∨ c = '1' ∨ c = '2' ∨ c = '3' ∨
    c = '4' ∨ c = '5' ∨ c = '6' ∨ c = '7' ∨ c = '8' ∨ c = '9' := by
  have h1 : 48 ≤ c.toNat ∧ c.toNat ≤ 57 := by
    simp only [Char.isDigit, Bool.and_eq_true, decide_eq_true_eq, ge_iff_le] at h
    exact ⟨UInt32.le_iff_toNat_le.mp h.1, UInt32.le_iff_toNat_le.mp h.2⟩
  rw [← Char.ofNat_toNat c]
  generalize c.toNat = n at h1 ⊢
  obtain ⟨h1, h2⟩ := h1
  interval_cases n <;> decide

/-- A digit is not white space, a sign, or the beginning of a word. -/
theorem digit_plain {c : Char} (h : c.isDigit = true) : isSpace c = false ∧ c ≠ '-' ∧ c ≠ '+' ∧
    c ≠ '.' ∧ c.toLower ≠ 'i' ∧ c.toLower ≠ 'n' ∧ c.toLower ≠ 'x' ∧ c.toLower ≠ 'e' := by
  rcases digit_cases h with rfl | rfl | rfl | rfl | rfl | rfl | rfl | rfl | rfl | rfl <;> decide

/-- The digits at the beginning of a text, where they end. -/
theorem takeWhile_digits {ds t : List Char} (hd : ∀ c ∈ ds, c.isDigit = true)
    (ht : ∀ c ∈ t.head?, c.isDigit = false) :
    (ds ++ t).takeWhile Char.isDigit = ds ∧ (ds ++ t).dropWhile Char.isDigit = t := by
  have ht1 : t.takeWhile Char.isDigit = [] ∧ t.dropWhile Char.isDigit = t := by
    rcases t with _ | ⟨c, t⟩
    · exact ⟨rfl, rfl⟩
    · have hc : c.isDigit = false := ht c rfl
      exact ⟨by simp [hc], by simp [hc]⟩
  rw [List.takeWhile_append_of_pos hd, List.dropWhile_append_of_pos hd, ht1.1, ht1.2]
  exact ⟨List.append_nil ds, rfl⟩

theorem isDigit_toDigits (n : ℕ) : ∀ c ∈ Nat.toDigits 10 n, c.isDigit = true :=
  fun _ hc => Nat.isDigit_of_mem_toDigits (b := 10) (by decide) (by decide) hc

theorem natOf_toDigits (n : ℕ) : natOf (Nat.toDigits 10 n) = n := Nat.ofDigitChars_ten_toDigits

theorem natOf_append (ds fs : List Char) : natOf (ds ++ fs) = natOf ds * 10 ^ fs.length + natOf fs := by
  rw [natOf, Nat.ofDigitChars_append, Nat.ofDigitChars_eq_ofDigitChars_zero, mul_comm]
  rfl

theorem isDigit_padded (k n : ℕ) : ∀ c ∈ padded k n, c.isDigit = true := by
  intro c hc
  rcases List.mem_append.mp hc with h | h
  · rw [List.eq_of_mem_replicate h]; decide
  · exact isDigit_toDigits n c h

theorem natOf_padded (k n : ℕ) : natOf (padded k n) = n := by
  rw [padded, natOf, Nat.ofDigitChars_append, Nat.ofDigitChars_replicate_zero, mul_zero]
  exact natOf_toDigits n

theorem length_padded {k n : ℕ} (hk : 0 < k) (h : n < 10 ^ k) : (padded k n).length = k := by
  have hle : (Nat.toDigits 10 n).length ≤ k := (Nat.length_toDigits_le_iff (by decide) hk).mpr h
  rw [padded, List.length_append, List.length_replicate]
  omega

/-! ### What is printed is read -/

theorem skipSpace_of_not {t : List Char} (h : ∀ c ∈ t.head?, isSpace c = false) :
    skipSpace t = t := by
  rcases t with _ | ⟨c, t⟩
  · rfl
  · have hc : isSpace c = false := h c rfl
    simp [skipSpace, hc]

theorem scanSign_of_digit {c : Char} (h : c.isDigit = true) (t : List Char) :
    scanSign (skipSpace (c :: t)) = (false, c :: t) := by
  obtain ⟨h1, h2, h3, -⟩ := digit_plain h
  rw [skipSpace_of_not (by simpa using h1)]
  unfold scanSign
  split
  · rename_i he; exact absurd (List.cons.inj he).1 h2
  · rename_i he; exact absurd (List.cons.inj he).1 h3
  · rfl

theorem scanInt_printInt (n : ℤ) {t : List Char} (ht : ∀ c ∈ t.head?, c.isDigit = false) :
    scanInt (printInt n ++ t) = some (n, t) := by
  have hne := Nat.toDigits_ne_nil (n := n.natAbs) (b := 10)
  have hds := takeWhile_digits (isDigit_toDigits n.natAbs) ht
  unfold printInt
  split
  · rename_i hneg
    have hsign : scanSign (skipSpace ('-' :: Nat.toDigits 10 n.natAbs ++ t)) =
        (true, Nat.toDigits 10 n.natAbs ++ t) := rfl
    rw [scanInt, hsign]
    dsimp only
    rw [hds.1, hds.2, if_neg hne, natOf_toDigits]
    simp only [signed, ↓reduceIte, Option.some.injEq, Prod.mk.injEq, and_true]
    omega
  · rename_i hpos
    rcases hd : Nat.toDigits 10 n.natAbs with _ | ⟨c, ds⟩
    · exact absurd hd hne
    have hc : c.isDigit = true := isDigit_toDigits n.natAbs c (by rw [hd]; simp)
    have hsign : scanSign (skipSpace (c :: ds ++ t)) = (false, c :: ds ++ t) :=
      scanSign_of_digit hc (ds ++ t)
    rw [scanInt, hsign]
    dsimp only
    rw [← hd, hds.1, hds.2, if_neg hne, natOf_toDigits]
    simp only [signed, Bool.false_eq_true, ↓reduceIte, Option.some.injEq, Prod.mk.injEq, and_true]
    omega

/-- A text at which a decimal number ends. -/
def EndsNumber (t : List Char) : Prop :=
  ∀ c ∈ t.head?, c.isDigit = false ∧ c ≠ '.' ∧ c.toLower ≠ 'e' ∧ c.toLower ≠ 'x'

theorem scanDouble_of_digit {c : Char} (h : c.isDigit = true) {t : List Char}
    (ht : ∀ x ∈ t.head?, x.toLower ≠ 'x') : scanDouble (c :: t) = scanDecimal false (c :: t) := by
  obtain ⟨-, -, -, -, hi, hn, -, -⟩ := digit_plain h
  rw [scanDouble, scanSign_of_digit h]
  dsimp only
  rw [if_neg hi, if_neg hn]
  rcases t with _ | ⟨x, t⟩
  · rfl
  · dsimp only
    rw [if_neg fun hx => ht x rfl hx.2]

theorem scanExponent_of_ends {t : List Char} (h : EndsNumber t) :
    scanExponent 'e' t = some (0, t) := by
  rcases t with _ | ⟨c, t⟩
  · rfl
  · have hc : c.toLower ≠ 'e' := (h c rfl).2.2.1
    simp [scanExponent, hc]

/-- A decimal with a point is read up to its last digit. -/
theorem scanDouble_point {ds fs t : List Char} (hne : ds ≠ []) (hds : ∀ c ∈ ds, c.isDigit = true)
    (hfs : ∀ c ∈ fs, c.isDigit = true) (ht : EndsNumber t) :
    scanDouble (ds ++ '.' :: fs ++ t) = some (.num (natOf (ds ++ fs) / 10 ^ fs.length), t) := by
  obtain ⟨h1, h2⟩ := takeWhile_digits (t := '.' :: (fs ++ t)) hds (by simp)
  obtain ⟨h3, h4⟩ := takeWhile_digits hfs fun c hc => (ht c hc).1
  have happ : ds ++ '.' :: fs ++ t = ds ++ '.' :: (fs ++ t) := by simp
  have hscan : scanDouble (ds ++ '.' :: (fs ++ t)) = scanDecimal false (ds ++ '.' :: (fs ++ t)) := by
    rcases ds with _ | ⟨c, ds⟩
    · exact absurd rfl hne
    · refine scanDouble_of_digit (hds c (by simp)) fun x hx => ?_
      rcases ds with _ | ⟨y, ds⟩
      · obtain rfl : '.' = x := by simpa using hx
        decide
      · obtain rfl : y = x := by simpa using hx
        exact (digit_plain (hds y (by simp))).2.2.2.2.2.2.1
  rw [happ, hscan, scanDecimal, h1, h2, scanFraction]
  dsimp only
  rw [h3, h4, if_neg (by simp [hne]), scanExponent_of_ends ht]
  simp only [Option.map_some, signed, Bool.false_eq_true, ↓reduceIte, Int.cast_natCast, zero_sub,
    zpow_neg, zpow_natCast, ← div_eq_mul_inv]

/-- A decimal without a point is read up to its last digit. -/
theorem scanDouble_digits {ds t : List Char} (hne : ds ≠ []) (hds : ∀ c ∈ ds, c.isDigit = true)
    (ht : EndsNumber t) : scanDouble (ds ++ t) = some (.num (natOf ds), t) := by
  obtain ⟨h1, h2⟩ := takeWhile_digits hds fun c hc => (ht c hc).1
  have hscan : scanDouble (ds ++ t) = scanDecimal false (ds ++ t) := by
    rcases ds with _ | ⟨c, ds⟩
    · exact absurd rfl hne
    · refine scanDouble_of_digit (hds c (by simp)) fun x hx => ?_
      rcases ds with _ | ⟨y, ds⟩
      · exact (ht x hx).2.2.2
      · obtain rfl : y = x := by simpa using hx
        exact (digit_plain (hds y (by simp))).2.2.2.2.2.2.1
  have hfrac : scanFraction Char.isDigit t = ([], t) := by
    rcases t with _ | ⟨c, t⟩
    · rfl
    · unfold scanFraction
      split
      · rename_i he; exact absurd (List.cons.inj he).1 (ht c rfl).2.1
      · rfl
  rw [hscan, scanDecimal, h1, h2, hfrac]
  dsimp only
  rw [if_neg (by simp [hne]), scanExponent_of_ends ht]
  simp [signed]

/-- Digits, or digits with a point among them or behind, and their value. -/
inductive Decimal : List Char → ℚ → Prop
  | whole {ds} (hne : ds ≠ []) (hds : ∀ c ∈ ds, c.isDigit = true) : Decimal ds (natOf ds)
  | point {ds fs} (hne : ds ≠ []) (hds : ∀ c ∈ ds, c.isDigit = true)
      (hfs : ∀ c ∈ fs, c.isDigit = true) :
      Decimal (ds ++ '.' :: fs) (natOf (ds ++ fs) / 10 ^ fs.length)

theorem Decimal.nonneg {ds : List Char} {q : ℚ} (h : Decimal ds q) : 0 ≤ q := by
  cases h <;> positivity

theorem scanDouble_decimal {ds t : List Char} {q : ℚ} (h : Decimal ds q) (ht : EndsNumber t) :
    scanDouble (ds ++ t) = some (.num q, t) := by
  cases h with
  | whole hne hds => exact scanDouble_digits hne hds ht
  | point hne hds hfs => exact scanDouble_point hne hds hfs ht

theorem roundEven_natCast (n : ℕ) : roundEven n = n := by
  unfold roundEven
  simp

theorem printDouble_millionths (n : ℕ) : printDouble (.num (n / 10 ^ 6)) = printMillionths n := by
  have hpos : ¬ ((n : ℚ) / 10 ^ 6 < 0) := not_lt.mpr (by positivity)
  have hmul : (n : ℚ) / 10 ^ 6 * 10 ^ 6 = (n : ℚ) := div_mul_cancel₀ _ (by norm_num)
  rw [printDouble, if_neg hpos, hmul, roundEven_natCast]

theorem mem_printInt {n : ℤ} {c : Char} (h : c ∈ printInt n) : c = '-' ∨ c.isDigit = true := by
  unfold printInt at h
  split at h
  · exact (List.mem_cons.mp h).imp_right (isDigit_toDigits _ c)
  · exact .inr (isDigit_toDigits _ c h)

theorem mem_printDouble {n : ℕ} {c : Char} (h : c ∈ printDouble (.num (n / 10 ^ 6))) :
    c = '.' ∨ c.isDigit = true := by
  rw [printDouble_millionths] at h
  rcases List.mem_append.mp h with h | h
  · exact .inr (isDigit_toDigits _ c h)
  · exact (List.mem_cons.mp h).imp_right (isDigit_padded _ _ c)

/-- A decimal of at most six fractional digits is read as it was printed. -/
theorem scanDouble_printDouble (n : ℕ) {t : List Char} (ht : EndsNumber t) :
    scanDouble (printDouble (.num (n / 10 ^ 6)) ++ t) = some (.num (n / 10 ^ 6), t) := by
  have hlen : (padded 6 (n % 10 ^ 6)).length = 6 :=
    length_padded (by decide) (Nat.mod_lt _ (by decide))
  have hnat : natOf (Nat.toDigits 10 (n / 10 ^ 6) ++ padded 6 (n % 10 ^ 6)) = n := by
    rw [natOf_append, natOf_toDigits, natOf_padded, hlen, mul_comm]
    exact Nat.div_add_mod n (10 ^ 6)
  rw [printDouble_millionths, printMillionths,
    scanDouble_point Nat.toDigits_ne_nil (isDigit_toDigits _) (isDigit_padded _ _) ht, hlen, hnat]

end Text
end Probdata
