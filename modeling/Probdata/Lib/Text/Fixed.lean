/-
# Numbers with a fixed number of digits

`%.klf`, which rounds to `k` digits, and what tells a printed number from the text behind
it: an integer ends before the first character that is no digit, and a padded number after
its digits.
-/
import Probdata.Lib.Text.Double

namespace Probdata
namespace Text

/-- `n` units of `10 ^ -k`. -/
def printUnits (k n : ℕ) : List Char := Nat.toDigits 10 (n / 10 ^ k) ++ '.' :: padded k (n % 10 ^ k)

/-- `%.klf` -/
def printFixed (k : ℕ) (q : ℚ) : List Char :=
  if q < 0 then '-' :: printUnits k (roundEven (-q * 10 ^ k))
  else printUnits k (roundEven (q * 10 ^ k))

/-! ### Where a number ends -/

variable {t u : List Char}

/-- An integer is told from the text behind it. -/
theorem printInt_append_inj {m n : ℤ} (ht : ∀ c ∈ t.head?, c.isDigit = false)
    (hu : ∀ c ∈ u.head?, c.isDigit = false) (h : printInt m ++ t = printInt n ++ u) :
    m = n ∧ t = u := by
  have hscan := congrArg scanInt h
  rw [scanInt_printInt m ht, scanInt_printInt n hu, Option.some_inj, Prod.mk.injEq] at hscan
  exact hscan

theorem padded_inj {k m n : ℕ} (h : padded k m = padded k n) : m = n := by
  have hnat := congrArg natOf h
  rwa [natOf_padded, natOf_padded] at hnat

/-- A number of two digits is told from the text behind it. -/
theorem padded_append_inj {k m n : ℕ} (hk : 0 < k) (hm : m < 10 ^ k) (hn : n < 10 ^ k)
    (h : padded k m ++ t = padded k n ++ u) : m = n ∧ t = u := by
  have hlen : (padded k m).length = (padded k n).length := by
    rw [length_padded hk hm, length_padded hk hn]
  obtain ⟨hpad, htu⟩ := List.append_inj h hlen
  exact ⟨padded_inj hpad, htu⟩

/-- Digits are told from the text behind them. -/
theorem digits_append_inj {ds es : List Char} (hds : ∀ c ∈ ds, c.isDigit = true)
    (hes : ∀ c ∈ es, c.isDigit = true) (ht : ∀ c ∈ t.head?, c.isDigit = false)
    (hu : ∀ c ∈ u.head?, c.isDigit = false) (h : ds ++ t = es ++ u) : ds = es ∧ t = u := by
  have htake := congrArg (List.takeWhile Char.isDigit) h
  rw [(takeWhile_digits hds ht).1, (takeWhile_digits hes hu).1] at htake
  subst htake
  exact ⟨rfl, List.append_cancel_left h⟩

theorem toDigits_inj {m n : ℕ} (h : Nat.toDigits 10 m = Nat.toDigits 10 n) : m = n := by
  have hnat := congrArg natOf h
  rwa [natOf_toDigits, natOf_toDigits] at hnat

end Text
end Probdata
