/-
# Formatted input and output

A format is a list of directives, as `fprintf` and `sscanf` read it: a
character, or one of the conversions `%s`, `%d`, `%lld` and `%lf`. `sscanf`
returns the values it assigned, in order, and stops at the first directive that
fails. White space in a format makes it skip white space.

Key theorem: `sscanf_fprintf`, the values printed are assigned, if the
conversions of the format stand apart (`Fits`).
-/
import Probdata.Lib.Text.Number
import Mathlib.Data.List.DropRight
import Mathlib.Data.List.Forall2

namespace Probdata
namespace Text

/-- `%s`, `%d`, `%lld` and `%lf`. -/
inductive Conv
  | s | d | lld | lf
  deriving DecidableEq, Repr

inductive Directive
  | lit (c : Char)
  | conv (k : Conv)
  deriving DecidableEq, Repr

inductive Value
  | str (cs : List Char)
  | int (n : ℤ)
  | dbl (x : Dbl)
  deriving DecidableEq, Repr

def parseFormat : List Char → List Directive
  | '%' :: 's' :: t => .conv .s :: parseFormat t
  | '%' :: 'd' :: t => .conv .d :: parseFormat t
  | '%' :: 'l' :: 'l' :: 'd' :: t => .conv .lld :: parseFormat t
  | '%' :: 'l' :: 'f' :: t => .conv .lf :: parseFormat t
  | c :: t => .lit c :: parseFormat t
  | [] => []

/-! ### Output -/

def printValue : Value → List Char
  | .str cs => cs
  | .int n => printInt n
  | .dbl x => printDouble x

def fprintf : List Directive → List Value → List Char
  | .lit c :: fs, vs => c :: fprintf fs vs
  | .conv _ :: fs, v :: vs => printValue v ++ fprintf fs vs
  | .conv _ :: _, [] => []
  | [], _ => []

/-! ### Input -/

/-- A word: what stands before the next white space. -/
def scanWord (t : List Char) : Option (List Char × List Char) :=
  let w := (skipSpace t).takeWhile fun c => !isSpace c
  if w = [] then none else some (w, (skipSpace t).dropWhile fun c => !isSpace c)

/-- The number a `long` or a narrower integer of `w` bits keeps of the integer read. -/
def narrow (w : ℕ) (n : ℤ) : ℤ := (max (-2 ^ 63) (min n (2 ^ 63 - 1))).bmod (2 ^ w)

/-- One conversion: its value, and what is left. -/
def scanValue : Conv → List Char → Option (Value × List Char)
  | .s, t => (scanWord t).map fun (w, t) => (.str w, t)
  | .d, t => (scanInt t).map fun (n, t) => (.int (narrow 32 n), t)
  | .lld, t => (scanInt t).map fun (n, t) => (.int (narrow 64 n), t)
  | .lf, t => (scanDouble t).map fun (x, t) => (.dbl x, t)

def sscanf : List Directive → List Char → List Value
  | [], _ => []
  | .lit c :: fs, t =>
    if isSpace c then sscanf fs (skipSpace t)
    else
      match t with
      | [] => []
      | x :: t => if x = c then sscanf fs t else []
  | .conv k :: fs, t =>
    match scanValue k t with
    | none => []
    | some (v, t) => v :: sscanf fs t

/-! ### The kinds of the values -/

/-- A value of the type the conversion assigns. -/
def Conv.Assigns : Conv → Value → Prop
  | .s, .str _ => True
  | .d, .int _ => True
  | .lld, .int _ => True
  | .lf, .dbl _ => True
  | _, _ => False

theorem scanValue_assigns {k : Conv} {v : Value} {t u : List Char}
    (h : scanValue k t = some (v, u)) : k.Assigns v := by
  cases k <;> simp only [scanValue, Option.map_eq_some_iff, Prod.mk.injEq] at h <;>
    obtain ⟨-, -, rfl, -⟩ := h <;> trivial

/-- The conversions of a format. -/
def convs : List Directive → List Conv
  | [] => []
  | .lit _ :: fs => convs fs
  | .conv k :: fs => k :: convs fs

/-- The values assigned are of the types of the first conversions. -/
theorem sscanf_assigns (fs : List Directive) (t : List Char) :
    ∃ ks, ks <+: convs fs ∧ List.Forall₂ Conv.Assigns ks (sscanf fs t) := by
  induction fs generalizing t with
  | nil => exact ⟨[], List.nil_prefix, .nil⟩
  | cons f fs ih =>
    cases f with
    | lit c =>
      simp only [sscanf, convs]
      split
      · exact ih (skipSpace t)
      · cases t with
        | nil => exact ⟨[], List.nil_prefix, .nil⟩
        | cons x t =>
          dsimp only
          split
          · exact ih t
          · exact ⟨[], List.nil_prefix, .nil⟩
    | conv k =>
      simp only [sscanf, convs]
      cases hscan : scanValue k t with
      | none => exact ⟨[], List.nil_prefix, .nil⟩
      | some p =>
        obtain ⟨v, u⟩ := p
        obtain ⟨ks, hks, hvs⟩ := ih u
        exact ⟨k :: ks, by simpa using hks, .cons (scanValue_assigns hscan) hvs⟩

theorem assigned_str {ks : List Conv} {vs : List Value}
    (h : List.Forall₂ Conv.Assigns (.s :: ks) vs) :
    ∃ cs us, vs = .str cs :: us ∧ List.Forall₂ Conv.Assigns ks us := by
  obtain ⟨v, us, hv, hus, rfl⟩ := List.forall₂_cons_left_iff.mp h
  cases v <;> simp only [Conv.Assigns] at hv
  exact ⟨_, us, rfl, hus⟩

theorem assigned_int {k : Conv} (hk : k = .d ∨ k = .lld) {ks : List Conv} {vs : List Value}
    (h : List.Forall₂ Conv.Assigns (k :: ks) vs) :
    ∃ n us, vs = .int n :: us ∧ List.Forall₂ Conv.Assigns ks us := by
  obtain ⟨v, us, hv, hus, rfl⟩ := List.forall₂_cons_left_iff.mp h
  rcases hk with rfl | rfl <;> cases v <;> simp only [Conv.Assigns] at hv <;>
    exact ⟨_, us, rfl, hus⟩

theorem assigned_dbl {ks : List Conv} {vs : List Value}
    (h : List.Forall₂ Conv.Assigns (.lf :: ks) vs) :
    ∃ x us, vs = .dbl x :: us ∧ List.Forall₂ Conv.Assigns ks us := by
  obtain ⟨v, us, hv, hus, rfl⟩ := List.forall₂_cons_left_iff.mp h
  cases v <;> simp only [Conv.Assigns] at hv
  exact ⟨_, us, rfl, hus⟩

/-! ### Literal text -/

theorem sscanf_lits {w : List Char} (hw : ∀ c ∈ w, isSpace c = false) (fs : List Directive)
    (t : List Char) : sscanf (w.map .lit ++ fs) (w ++ t) = sscanf fs t := by
  induction w with
  | nil => rfl
  | cons c w ih =>
    have hc : isSpace c = false := hw c (by simp)
    simp only [List.map_cons, List.cons_append, sscanf, hc, Bool.false_eq_true, ↓reduceIte]
    exact ih fun x hx => hw x (by simp [hx])

theorem sscanf_lits_of_not {w : List Char} (hw : ∀ c ∈ w, isSpace c = false) (fs : List Directive)
    {t : List Char} (h : ¬ w <+: t) : sscanf (w.map .lit ++ fs) t = [] := by
  induction w generalizing t with
  | nil => exact absurd List.nil_prefix h
  | cons c w ih =>
    have hc : isSpace c = false := hw c (by simp)
    simp only [List.map_cons, List.cons_append, sscanf, hc, Bool.false_eq_true, ↓reduceIte]
    rcases t with _ | ⟨x, t⟩
    · rfl
    · dsimp only
      by_cases hx : x = c
      · subst hx
        rw [if_pos rfl]
        exact ih (fun y hy => hw y (by simp [hy])) fun hp => h (List.cons_prefix_cons.mpr ⟨rfl, hp⟩)
      · rw [if_neg hx]

/-! ### The characters printed -/

theorem mem_fprintf {c : Char} : ∀ {fs : List Directive} {vs : List Value}, c ∈ fprintf fs vs →
    .lit c ∈ fs ∨ ∃ v ∈ vs, c ∈ printValue v
  | .lit x :: fs, vs, h => by
    rcases List.mem_cons.mp h with rfl | h
    · exact .inl List.mem_cons_self
    · exact (mem_fprintf h).imp_left (List.mem_cons_of_mem _)
  | .conv _ :: fs, v :: vs, h => by
    rcases List.mem_append.mp h with h | h
    · exact .inr ⟨v, List.mem_cons_self, h⟩
    · rcases mem_fprintf h with h | ⟨u, hu, h⟩
      · exact .inl (List.mem_cons_of_mem _ h)
      · exact .inr ⟨u, List.mem_cons_of_mem _ hu, h⟩
  | .conv _ :: _, [], h => nomatch h
  | [], _, h => nomatch h

/-- Values that are printed alike. -/
theorem fprintf_congr {fs : List Directive} {vs us : List Value}
    (h : vs.map printValue = us.map printValue) : fprintf fs vs = fprintf fs us := by
  induction fs generalizing vs us with
  | nil => rfl
  | cons f fs ih =>
    cases f with
    | lit c => exact congrArg (List.cons c) (ih h)
    | conv k =>
      rcases vs with _ | ⟨v, vs⟩ <;> rcases us with _ | ⟨u, us⟩ <;> simp only [List.map_cons,
        List.map_nil, List.cons.injEq, reduceCtorEq] at h
      · rfl
      · simp only [fprintf, h.1, ih h.2]

/-- The number of characters that a format prints as they are. -/
def lits : List Directive → ℕ
  | [] => 0
  | .lit _ :: fs => lits fs + 1
  | .conv _ :: fs => lits fs

theorem length_fprintf_le (fs : List Directive) (vs : List Value) :
    (fprintf fs vs).length ≤ lits fs + (vs.map fun v => (printValue v).length).sum := by
  induction fs generalizing vs with
  | nil => exact Nat.zero_le _
  | cons f fs ih =>
    cases f with
    | lit c =>
      have h := ih vs
      simp only [fprintf, lits, List.length_cons]
      omega
    | conv k =>
      rcases vs with _ | ⟨v, vs⟩
      · exact Nat.zero_le _
      · have h := ih vs
        simp only [fprintf, lits, List.length_append, List.map_cons, List.sum_cons]
        omega

/-! ### What is printed is read -/

/-- A text in front of which a word ends. -/
def EndsWord (t : List Char) : Prop := ∀ c ∈ t.head?, isSpace c = true

/-- A value that is printed so that the conversion reads it back. -/
def Conv.Suits : Conv → Value → Prop
  | .s, .str cs => cs ≠ [] ∧ ∀ c ∈ cs, isSpace c = false ∧ c ≠ '\x00'
  | .d, .int n => -2 ^ 31 ≤ n ∧ n < 2 ^ 31
  | .lld, .int n => -2 ^ 63 ≤ n ∧ n < 2 ^ 63
  | .lf, .dbl x => ∃ n : ℕ, x = .num (n / 10 ^ 6)
  | _, _ => False

theorem space_plain {c : Char} (h : isSpace c = true) : c.isDigit = false ∧ c ≠ '.' ∧
    c.toLower ≠ 'e' ∧ c.toLower ≠ 'x' := by
  have hn : c.toNat = 32 ∨ 9 ≤ c.toNat ∧ c.toNat ≤ 13 := by simpa [isSpace] using h
  rw [← Char.ofNat_toNat c]
  generalize c.toNat = n at hn ⊢
  rcases hn with rfl | ⟨h1, h2⟩
  · decide
  · interval_cases n <;> decide

theorem EndsWord.endsNumber {t : List Char} (h : EndsWord t) : EndsNumber t :=
  fun c hc => space_plain (h c hc)

theorem scanWord_append {cs t : List Char} (hne : cs ≠ []) (hcs : ∀ c ∈ cs, isSpace c = false)
    (ht : EndsWord t) : scanWord (cs ++ t) = some (cs, t) := by
  have hskip : skipSpace (cs ++ t) = cs ++ t := by
    refine skipSpace_of_not fun c hc => ?_
    rcases cs with _ | ⟨x, cs⟩
    · exact absurd rfl hne
    · obtain rfl : x = c := by simpa using hc
      exact hcs x (by simp)
  have hword : ∀ c ∈ cs, (!isSpace c) = true := fun c hc => by simp [hcs c hc]
  have ht1 : t.takeWhile (fun c => !isSpace c) = [] ∧ t.dropWhile (fun c => !isSpace c) = t := by
    rcases t with _ | ⟨c, t⟩
    · exact ⟨rfl, rfl⟩
    · have hc : isSpace c = true := ht c rfl
      exact ⟨by simp [hc], by simp [hc]⟩
  rw [scanWord, hskip, List.takeWhile_append_of_pos hword, List.dropWhile_append_of_pos hword, ht1.1, ht1.2,
    List.append_nil, if_neg hne]

theorem narrow_of_fits {w : ℕ} (hw : 0 < w) (hw64 : w ≤ 64) {n : ℤ} (h1 : -2 ^ (w - 1) ≤ n)
    (h2 : n < 2 ^ (w - 1)) : narrow w n = n := by
  have hpow : (2 : ℤ) ^ (w - 1) ≤ 2 ^ 63 := pow_le_pow_right₀ (by norm_num) (by omega)
  have hdouble : (2 : ℤ) ^ w = 2 * 2 ^ (w - 1) := by
    rw [← pow_succ']; congr 1; omega
  have hclamp : max (-2 ^ 63) (min n (2 ^ 63 - 1)) = n := by omega
  rw [narrow, hclamp]
  refine Int.bmod_eq_of_le ?_ ?_ <;> push_cast <;> omega

/-- A value is read as it was printed, where a word ends. -/
theorem scanValue_printValue {k : Conv} {v : Value} (h : k.Suits v) {t : List Char}
    (ht : EndsWord t) : scanValue k (printValue v ++ t) = some (v, t) := by
  have hdigit : ∀ c ∈ t.head?, c.isDigit = false := fun c hc => (ht.endsNumber c hc).1
  cases k <;> cases v <;> simp only [Conv.Suits] at h <;> simp only [scanValue, printValue]
  · rw [scanWord_append h.1 (fun c hc => (h.2 c hc).1) ht]; rfl
  · rw [scanInt_printInt _ hdigit]
    simp [narrow_of_fits (w := 32) (by decide) (by decide) h.1 h.2]
  · rw [scanInt_printInt _ hdigit]
    simp [narrow_of_fits (w := 64) (by decide) (by decide) h.1 h.2]
  · obtain ⟨n, rfl⟩ := h
    rw [scanDouble_printDouble n ht.endsNumber]; rfl

/-- No white space and no NUL is printed for a value. -/
theorem Conv.Suits.plain {k : Conv} {v : Value} (h : k.Suits v) {c : Char} (hc : c ∈ printValue v) :
    isSpace c = false ∧ c ≠ '\x00' := by
  have hdigit : ∀ {c : Char}, c.isDigit = true → isSpace c = false ∧ c ≠ '\x00' := fun hd =>
    ⟨(digit_plain hd).1, fun hnul => by rw [hnul] at hd; exact absurd hd (by decide)⟩
  cases k <;> cases v <;> simp only [Conv.Suits] at h <;> simp only [printValue] at hc
  · exact h.2 c hc
  · rcases mem_printInt hc with rfl | hd
    · decide
    · exact hdigit hd
  · rcases mem_printInt hc with rfl | hd
    · decide
    · exact hdigit hd
  · obtain ⟨n, rfl⟩ := h
    rcases mem_printDouble hc with rfl | hd
    · decide
    · exact hdigit hd

/-- Conversions with white space between them, and values that suit them. -/
inductive Fits : List Directive → List Value → Prop
  | last {k v} (h : k.Suits v) : Fits [.conv k] [v]
  | cons {k v c fs vs} (h : k.Suits v) (hc : isSpace c = true) (hfs : Fits fs vs) :
      Fits (.conv k :: .lit c :: fs) (v :: vs)

theorem Fits.suits {fs : List Directive} {vs : List Value} (h : Fits fs vs) {v : Value}
    (hv : v ∈ vs) : ∃ k : Conv, k.Suits v := by
  induction h with
  | @last k v' h =>
    obtain rfl := List.mem_singleton.mp hv
    exact ⟨k, h⟩
  | @cons k v' c fs vs h hc hfs ih =>
    rcases List.mem_cons.mp hv with rfl | hv
    · exact ⟨k, h⟩
    · exact ih hv

/-- A conversion skips white space in front of it. -/
theorem scanValue_skipSpace (k : Conv) (t : List Char) : scanValue k (skipSpace t) = scanValue k t := by
  have h : skipSpace (skipSpace t) = skipSpace t := List.dropWhile_idempotent _ _
  cases k <;> simp only [scanValue, scanWord, scanInt, scanDouble, h]

/-- **What is printed is read.** -/
theorem sscanf_fprintf {fs : List Directive} {vs : List Value} (h : Fits fs vs) {t : List Char}
    (ht : EndsWord t) : sscanf fs (fprintf fs vs ++ t) = vs := by
  induction h with
  | last h => simp [sscanf, fprintf, scanValue_printValue h ht]
  | @cons k v c fs vs h hc hfs ih =>
    have hends : EndsWord (c :: (fprintf fs vs ++ t)) := fun x hx => by
      obtain rfl : c = x := by simpa using hx
      exact hc
    have hfirst : sscanf fs (skipSpace (c :: (fprintf fs vs ++ t))) = sscanf fs (fprintf fs vs ++ t) := by
      have hskip : skipSpace (c :: (fprintf fs vs ++ t)) = skipSpace (fprintf fs vs ++ t) := by
        simp [skipSpace, hc]
      cases hfs <;> rw [hskip] <;> simp only [sscanf, scanValue_skipSpace]
    have happ : fprintf (.conv k :: .lit c :: fs) (v :: vs) ++ t =
        printValue v ++ c :: (fprintf fs vs ++ t) := by simp [fprintf]
    rw [happ, sscanf, scanValue_printValue h hends]
    simp only [sscanf, hc, ↓reduceIte, hfirst, ih]

end Text
end Probdata
