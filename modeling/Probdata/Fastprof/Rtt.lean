/-
# The round trip time that a ping reports

`f_estimate_rtt` (`fastprof.cpp`) collects what the ping command prints, looks for
the first `mdev` in it, and reads the numbers of the summary
`mdev = min/avg/max/mdev ms` from there. Where the text has no `mdev`, `find`
returns the largest `size_t`; `ret` is an `unsigned int` and keeps its lower half,
the comparison with `npos` never holds, and `substr` is asked for a position far
behind the end.

Key theorem: `fEstimateRtt_estimates_iff`, for which outputs the function does
what its callers expect (`Estimates`): the average of the summary, or a negative
value that sends the caller to its `Cannot ping` branch.
-/
import Probdata.Lib.Text.Format
import Probdata.Lib.Text.Stream
import Mathlib.Tactic.Linarith

namespace Probdata
namespace Fastprof

open Text

/-- What escapes from `substr`. -/
inductive Exn
  | outOfRange
  deriving DecidableEq, Repr

/-! ### `std::string` -/

/-- `std::string::npos` -/
def npos : ℕ := 2 ^ 64 - 1

/-- Where `w` stands first in a text. -/
def indexOf (w : List Char) : List Char → Option ℕ
  | [] => if w.isPrefixOf [] then some 0 else none
  | c :: t => if w.isPrefixOf (c :: t) then some 0 else (indexOf w t).map (· + 1)

/-- `s.find(w, 0)` -/
def find (w s : List Char) : ℕ := (indexOf w s).getD npos

/-- `s.substr(pos, npos)` -/
def substr (s : List Char) (pos : ℕ) : Except Exn (List Char) :=
  if s.length < pos then .error .outOfRange else .ok (s.drop pos)

theorem indexOf_none {w s : List Char} (h : indexOf w s = none) (n : ℕ) : ¬ w <+: s.drop n := by
  induction s generalizing n with
  | nil =>
    intro hp
    simp only [List.drop_nil] at hp
    simp [indexOf, List.isPrefixOf_iff_prefix.mpr hp] at h
  | cons c t ih =>
    by_cases hw : w.isPrefixOf (c :: t) = true
    · simp [indexOf, hw] at h
    · simp only [indexOf, hw, Bool.false_eq_true, ↓reduceIte, Option.map_eq_none_iff] at h
      cases n with
      | zero => exact fun hp => hw (List.isPrefixOf_iff_prefix.mpr hp)
      | succ n => simpa using ih h n

theorem indexOf_some {w s : List Char} {p : ℕ} (h : indexOf w s = some p) :
    p ≤ s.length ∧ ∀ n < p, ¬ w <+: s.drop n := by
  induction s generalizing p with
  | nil =>
    simp only [indexOf, Option.ite_none_right_eq_some, Option.some.injEq] at h
    exact ⟨by omega, fun n hn => by omega⟩
  | cons c t ih =>
    by_cases hw : w.isPrefixOf (c :: t) = true
    · simp only [indexOf, hw, ↓reduceIte, Option.some.injEq] at h
      exact ⟨by omega, fun n hn => by omega⟩
    · simp only [indexOf, hw, Bool.false_eq_true, ↓reduceIte, Option.map_eq_some_iff] at h
      obtain ⟨q, hq, rfl⟩ := h
      obtain ⟨h1, h2⟩ := ih hq
      refine ⟨by simpa using h1, fun n hn => ?_⟩
      cases n with
      | zero => exact fun hp => hw (List.isPrefixOf_iff_prefix.mpr hp)
      | succ n => simpa using h2 n (by omega)

/-! ### The function -/

def mdev : List Char := "mdev".toList

/-- The format of the ping summary. -/
def rttFormat : List Directive := parseFormat "mdev = %lf/%lf/%lf/%lf ms".toList

/-- `avg_rtt_ms` after the summary is read: it is set to `-1.0` before. -/
def avgRtt : List Value → Dbl
  | _ :: .dbl avg :: _ => avg
  | _ => .num (-1)

/-- `output_str`: what the loop appends to it. -/
def outputStr (output : List Char) : List Char := (reads 511 output).flatMap cstr

/-- `none` is a `popen` that fails. -/
def fEstimateRtt : Option (List Char) → Except Exn Dbl
  | none => .ok (.num (-1))
  | some output => do
    let outputStr := outputStr output
    -- `ret` is an `unsigned int`
    let ret := find mdev outputStr % 2 ^ 32
    if ret = npos then return .num (-1)
    else
      let s ← substr outputStr ret
      return avgRtt (sscanf rttFormat (cstr s))

/-! ### What the callers expect -/

/-- The summary of a ping, with the average `b`. -/
def Summary (t : List Char) (b : ℚ) : Prop :=
  ∃ as bs cs ds rest a c d, Decimal as a ∧ Decimal bs b ∧ Decimal cs c ∧ Decimal ds d ∧
    t = "mdev = ".toList ++ (as ++ '/' :: (bs ++ '/' :: (cs ++ '/' :: (ds ++ " ms".toList ++ rest))))

/-- A summary stands in the output. -/
def HasSummary (output : List Char) (b : ℚ) : Prop := ∃ t, t <:+ output ∧ Summary t b

/-- The callers take their `Cannot ping` branch. -/
def CannotPing (r : Except Exn Dbl) : Prop := ∃ x, r = .ok x ∧ x.lt (.num 0) = true

/-- What `f_estimate_rtt` promises its callers. -/
structure Estimates (output : List Char) : Prop where
  no_mdev : ¬ mdev <:+: output → CannotPing (fEstimateRtt (some output))
  summary : (∃ b, HasSummary output b) →
    ∃ b, HasSummary output b ∧ fEstimateRtt (some output) = .ok (.num b)
  otherwise : (¬ ∃ b, HasSummary output b) → CannotPing (fEstimateRtt (some output))

/-- `mdev = x/y` stands at the beginning of a text, for some number `x`. -/
def Begins (t : List Char) (y : Dbl) : Prop :=
  ∃ u v x w r, t = mdev ++ u ∧ skipSpace u = '=' :: v ∧ scanDouble v = some (x, '/' :: w) ∧
    scanDouble w = some (y, r)

/-- The first `mdev` of the output is early enough, and what stands behind it is
the average of a summary, or if the output has none, nothing that could be taken
for one. Without an `mdev` the output must be `2 ^ 32 - 1` characters long. -/
def Unambiguous (output : List Char) : Prop :=
  let s := outputStr output
  (∃ b p, HasSummary output b ∧ indexOf mdev s = some p ∧ p < 2 ^ 32 ∧ Begins (s.drop p) (.num b)) ∨
  (¬ ∃ b, HasSummary output b) ∧
    (indexOf mdev s = none ∧ 2 ^ 32 - 1 ≤ s.length ∨
      ∃ p, indexOf mdev s = some p ∧ (p < 2 ^ 32 → ∀ y, Begins (s.drop p) y → y.lt (.num 0) = true))

/-! ### Reading the summary -/

/-- The directives after the second number. -/
def rttRest : List Directive :=
  [.lit '/', .conv .lf, .lit '/', .conv .lf, .lit ' ', .lit 'm', .lit 's']

/-- The directives after the marker. -/
def rttNumbers : List Directive :=
  [.lit ' ', .lit '=', .lit ' ', .conv .lf, .lit '/', .conv .lf] ++ rttRest

theorem rttFormat_eq : rttFormat = mdev.map .lit ++ rttNumbers := rfl

theorem mdev_plain : ∀ c ∈ mdev, isSpace c = false := by
  have hall : mdev.all (fun c => !isSpace c) = true := by decide
  simpa using hall

theorem sscanf_of_begins {t : List Char} {y : Dbl} (h : Begins t y) :
    avgRtt (sscanf rttFormat t) = y := by
  obtain ⟨u, v, x, w, r, rfl, hu, hv, hw⟩ := h
  have hv' : scanValue .lf (skipSpace v) = some (.dbl x, '/' :: w) := by
    rw [scanValue_skipSpace, scanValue, hv]; rfl
  have hw' : scanValue .lf w = some (.dbl y, r) := by rw [scanValue, hw]; rfl
  have hs : isSpace ' ' = true ∧ isSpace '=' = false ∧ isSpace '/' = false := by decide
  rw [rttFormat_eq, sscanf_lits mdev_plain]
  simp [rttNumbers, sscanf, hs, hu, hv', hw', avgRtt]

/-- Where no average stands, none is read. -/
theorem sscanf_of_not_begins {t : List Char} (h : ¬ ∃ y, Begins t y) :
    avgRtt (sscanf rttFormat t) = .num (-1) := by
  have hs : isSpace ' ' = true ∧ isSpace '=' = false ∧ isSpace '/' = false := by decide
  by_cases hm : mdev <+: t
  · obtain ⟨u, rfl⟩ := hm
    rw [rttFormat_eq, sscanf_lits mdev_plain]
    rcases hu : skipSpace u with _ | ⟨c, v⟩
    · simp [rttNumbers, sscanf, hs, hu, avgRtt]
    by_cases hc : c = '='
    · subst hc
      have hskip : scanValue .lf (skipSpace v) = scanValue .lf v := scanValue_skipSpace .lf v
      rcases hv : scanDouble v with _ | ⟨x, w⟩
      · have hv' : scanValue .lf v = none := by rw [scanValue, hv]; rfl
        simp [rttNumbers, sscanf, hs, hu, hskip, hv', avgRtt]
      have hv' : scanValue .lf v = some (.dbl x, w) := by rw [scanValue, hv]; rfl
      rcases w with _ | ⟨d, w⟩
      · simp [rttNumbers, sscanf, hs, hu, hskip, hv', avgRtt]
      by_cases hd : d = '/'
      · subst hd
        rcases hw : scanDouble w with _ | ⟨y, r⟩
        · have hw' : scanValue .lf w = none := by rw [scanValue, hw]; rfl
          simp [rttNumbers, sscanf, hs, hu, hskip, hv', hw', avgRtt]
        · exact absurd ⟨y, u, v, x, w, r, rfl, hu, hv, hw⟩ h
      · simp [rttNumbers, sscanf, hs, hu, hskip, hv', hd, avgRtt]
    · simp [rttNumbers, sscanf, hs, hu, hc, avgRtt]
  · rw [rttFormat_eq, sscanf_lits_of_not mdev_plain _ hm]
    rfl

/-- A summary's average is read if its marker is the first. -/
theorem Summary.begins {t : List Char} {b : ℚ} (h : Summary t b) : Begins t (.num b) := by
  obtain ⟨as, bs, cs, ds, rest, a, c, d, ha, hb, hc, hd, rfl⟩ := h
  have hslash : ∀ t, EndsNumber ('/' :: t) := fun t x hx => by
    obtain rfl : '/' = x := by simpa using hx
    decide
  refine ⟨_, ' ' :: (as ++ '/' :: (bs ++ '/' :: (cs ++ '/' :: (ds ++ " ms".toList ++ rest)))),
    .num a, bs ++ '/' :: (cs ++ '/' :: (ds ++ " ms".toList ++ rest)),
    '/' :: (cs ++ '/' :: (ds ++ " ms".toList ++ rest)), rfl, rfl, ?_, scanDouble_decimal hb (hslash _)⟩
  have hskip : ∀ t, scanDouble (' ' :: t) = scanDouble t := fun t => by
    simp [scanDouble, skipSpace, show isSpace ' ' = true from rfl]
  rw [hskip]
  exact scanDouble_decimal ha (hslash _)

/-! ### The output as it is collected -/

theorem nul_not_mem_outputStr (output : List Char) : '\x00' ∉ outputStr output := by
  intro h
  obtain ⟨l, -, hl⟩ := List.mem_flatMap.mp h
  have hne := List.mem_takeWhile_imp hl
  simp at hne

theorem cstr_drop_outputStr (output : List Char) (n : ℕ) :
    cstr ((outputStr output).drop n) = (outputStr output).drop n :=
  cstr_of_noNul fun h => nul_not_mem_outputStr output (List.mem_of_mem_drop h)

/-- What is read at the position `ret`. The sentinel is never met. -/
theorem fEstimateRtt_of_ret {output : List Char} (ret : ℕ)
    (h : find mdev (outputStr output) % 2 ^ 32 = ret) : fEstimateRtt (some output) =
      if (outputStr output).length < ret then .error .outOfRange
      else .ok (avgRtt (sscanf rttFormat ((outputStr output).drop ret))) := by
  have hlt : ret < 2 ^ 32 := h ▸ Nat.mod_lt _ (by decide)
  have hne : ret ≠ npos := by unfold npos; omega
  unfold fEstimateRtt
  dsimp only
  rw [h, if_neg hne, substr]
  by_cases hlen : (outputStr output).length < ret
  · rw [if_pos hlen, if_pos hlen]
    rfl
  · rw [if_neg hlen, if_neg hlen]
    change Except.ok (avgRtt (sscanf rttFormat (cstr ((outputStr output).drop ret)))) = _
    rw [cstr_drop_outputStr]

theorem fEstimateRtt_of_some {output : List Char} {p : ℕ}
    (h : indexOf mdev (outputStr output) = some p) : fEstimateRtt (some output) =
      .ok (avgRtt (sscanf rttFormat ((outputStr output).drop (p % 2 ^ 32)))) := by
  have hlen : p % 2 ^ 32 ≤ (outputStr output).length :=
    (Nat.mod_le _ _).trans (indexOf_some h).1
  rw [fEstimateRtt_of_ret (p % 2 ^ 32) (by rw [find, h]; rfl), if_neg (not_lt.mpr hlen)]

theorem fEstimateRtt_of_none {output : List Char} (h : indexOf mdev (outputStr output) = none) :
    fEstimateRtt (some output) =
      if (outputStr output).length < 2 ^ 32 - 1 then .error .outOfRange else .ok (.num (-1)) := by
  have hnone : ¬ ∃ y, Begins ((outputStr output).drop (2 ^ 32 - 1)) y := by
    rintro ⟨y, u, v, x, w, r, hu, -⟩
    exact indexOf_none h (2 ^ 32 - 1) ⟨u, hu.symm⟩
  rw [fEstimateRtt_of_ret (2 ^ 32 - 1) (by rw [find, h]; rfl), sscanf_of_not_begins hnone]

/-- From behind the front of the text the marker is not found: nothing is read. -/
theorem not_begins_of_far {s : List Char} {p : ℕ} (h : indexOf mdev s = some p)
    (hp : ¬ p < 2 ^ 32) : ¬ ∃ y, Begins (s.drop (p % 2 ^ 32)) y := by
  rintro ⟨y, u, v, x, w, r, hu, -⟩
  exact (indexOf_some h).2 (p % 2 ^ 32) (by omega) ⟨u, hu.symm⟩

/-! ### Which outputs are estimated well -/

theorem HasSummary.nonneg {output : List Char} {b : ℚ} (h : HasSummary output b) : 0 ≤ b := by
  obtain ⟨t, -, as, bs, cs, ds, rest, a, c, d, -, hb, -⟩ := h
  exact hb.nonneg

theorem HasSummary.mdev {output : List Char} {b : ℚ} (h : HasSummary output b) :
    mdev <:+: output := by
  obtain ⟨t, ht, h⟩ := h
  obtain ⟨u, v, x, w, r, rfl, -⟩ := h.begins
  exact (List.prefix_append _ _).isInfix.trans ht.isInfix

theorem cannotPing_ok {x : Dbl} : CannotPing (.ok x) ↔ x.lt (.num 0) = true := by
  constructor
  · rintro ⟨y, hy, hlt⟩
    cases hy
    exact hlt
  · exact fun h => ⟨x, rfl, h⟩

theorem num_neg_one_lt : (Dbl.num (-1)).lt (.num 0) = true := by decide

theorem fEstimateRtt_of_some_eq_iff {output : List Char} {p : ℕ} {b : ℚ} (hb : 0 ≤ b)
    (h : indexOf mdev (outputStr output) = some p) : fEstimateRtt (some output) = .ok (.num b) ↔
      p < 2 ^ 32 ∧ Begins ((outputStr output).drop p) (.num b) := by
  have hb1 : Dbl.num (-1) ≠ .num b := fun he => by cases he; linarith
  rw [fEstimateRtt_of_some h, Except.ok.injEq]
  by_cases hp : p < 2 ^ 32
  · rw [Nat.mod_eq_of_lt hp]
    constructor
    · intro he
      by_cases hy : ∃ y, Begins ((outputStr output).drop p) y
      · obtain ⟨y, hy⟩ := hy
        rw [sscanf_of_begins hy] at he
        exact ⟨hp, he ▸ hy⟩
      · rw [sscanf_of_not_begins hy] at he
        exact absurd he hb1
    · exact fun he => sscanf_of_begins he.2
  · rw [sscanf_of_not_begins (not_begins_of_far h hp)]
    exact ⟨fun he => absurd he hb1, fun he => absurd he.1 hp⟩

theorem cannotPing_of_some_iff {output : List Char} {p : ℕ}
    (h : indexOf mdev (outputStr output) = some p) : CannotPing (fEstimateRtt (some output)) ↔
      (p < 2 ^ 32 → ∀ y, Begins ((outputStr output).drop p) y → y.lt (.num 0) = true) := by
  rw [fEstimateRtt_of_some h, cannotPing_ok]
  by_cases hp : p < 2 ^ 32
  · rw [Nat.mod_eq_of_lt hp]
    constructor
    · intro hlt _ y hy
      rwa [sscanf_of_begins hy] at hlt
    · intro hall
      by_cases hy : ∃ y, Begins ((outputStr output).drop p) y
      · obtain ⟨y, hy⟩ := hy
        rw [sscanf_of_begins hy]
        exact hall hp y hy
      · rw [sscanf_of_not_begins hy]
        exact num_neg_one_lt
  · rw [sscanf_of_not_begins (not_begins_of_far h hp)]
    exact ⟨fun _ hp' => absurd hp' hp, fun _ => num_neg_one_lt⟩

theorem fEstimateRtt_of_none_ne {output : List Char} {b : ℚ} (hb : 0 ≤ b)
    (h : indexOf mdev (outputStr output) = none) : fEstimateRtt (some output) ≠ .ok (.num b) := by
  rw [fEstimateRtt_of_none h]
  split
  · exact fun he => nomatch he
  · intro he
    cases he
    linarith

theorem cannotPing_of_none_iff {output : List Char}
    (h : indexOf mdev (outputStr output) = none) : CannotPing (fEstimateRtt (some output)) ↔
      2 ^ 32 - 1 ≤ (outputStr output).length := by
  rw [fEstimateRtt_of_none h]
  split
  · rename_i hlt
    refine ⟨?_, fun hle => absurd hlt (not_lt.mpr hle)⟩
    rintro ⟨x, hx, -⟩
    exact nomatch hx
  · rename_i hle
    exact ⟨fun _ => not_lt.mp hle, fun _ => cannotPing_ok.mpr num_neg_one_lt⟩

theorem estimates_iff {output : List Char} : Estimates output ↔
    (∃ b, HasSummary output b ∧ fEstimateRtt (some output) = .ok (.num b)) ∨
      (¬ ∃ b, HasSummary output b) ∧ CannotPing (fEstimateRtt (some output)) := by
  constructor
  · intro h
    by_cases hs : ∃ b, HasSummary output b
    · exact .inl (h.summary hs)
    · exact .inr ⟨hs, h.otherwise hs⟩
  · rintro (⟨b, hs, hr⟩ | ⟨hs, hr⟩)
    · exact ⟨fun hm => absurd hs.mdev hm, fun _ => ⟨b, hs, hr⟩, fun hno => absurd ⟨b, hs⟩ hno⟩
    · exact ⟨fun _ => hr, fun hyes => absurd hyes hs, fun _ => hr⟩

/-- **The outputs on which the estimate is what the callers expect.** -/
theorem fEstimateRtt_estimates_iff (output : List Char) :
    Estimates output ↔ Unambiguous output := by
  rw [estimates_iff, Unambiguous]
  rcases hidx : indexOf mdev (outputStr output) with _ | p
  · constructor
    · rintro (⟨b, hs, hr⟩ | ⟨hs, hr⟩)
      · exact absurd hr (fEstimateRtt_of_none_ne hs.nonneg hidx)
      · exact .inr ⟨hs, .inl ⟨rfl, (cannotPing_of_none_iff hidx).mp hr⟩⟩
    · rintro (⟨b, p, hs, hp, -⟩ | ⟨hs, ⟨-, hlen⟩ | ⟨p, hp, -⟩⟩)
      · exact nomatch hp
      · exact .inr ⟨hs, (cannotPing_of_none_iff hidx).mpr hlen⟩
      · exact nomatch hp
  · constructor
    · rintro (⟨b, hs, hr⟩ | ⟨hs, hr⟩)
      · obtain ⟨hlt, hbeg⟩ := (fEstimateRtt_of_some_eq_iff hs.nonneg hidx).mp hr
        exact .inl ⟨b, p, hs, rfl, hlt, hbeg⟩
      · exact .inr ⟨hs, .inr ⟨p, rfl, (cannotPing_of_some_iff hidx).mp hr⟩⟩
    · rintro (⟨b, q, hs, hq, hlt, hbeg⟩ | ⟨hs, ⟨hq, -⟩ | ⟨q, hq, hneg⟩⟩)
      · obtain rfl : p = q := Option.some.inj hq
        exact .inl ⟨b, hs, (fEstimateRtt_of_some_eq_iff hs.nonneg hidx).mpr ⟨hlt, hbeg⟩⟩
      · exact nomatch hq
      · obtain rfl : p = q := Option.some.inj hq
        exact .inr ⟨hs, (cannotPing_of_some_iff hidx).mpr hneg⟩

/-- The ping of a host that is not known. -/
def unknownHost : List Char := "/bin/ping: unknown host nowhere\n".toList

/-- The function ends in an exception that no caller catches. -/
theorem not_estimates_unknownHost : fEstimateRtt (some unknownHost) = .error .outOfRange ∧
    ¬ mdev <:+: unknownHost ∧ ¬ Estimates unknownHost := by
  have hrun : fEstimateRtt (some unknownHost) = .error .outOfRange := by decide +kernel
  have hno : ¬ mdev <:+: unknownHost := by decide +kernel
  refine ⟨hrun, hno, fun h => ?_⟩
  obtain ⟨x, hx, -⟩ := h.no_mdev hno
  rw [hrun] at hx
  exact nomatch hx

end Fastprof
end Probdata
