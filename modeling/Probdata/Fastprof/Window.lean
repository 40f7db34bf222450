/-
# The buffer window

With a known bandwidth-delay product an iteration sets the window to
`[0.75 BDP, 4 BDP]`, rounded, converted to `int` and clamped to the safeguards.
The conversion comes before the clamps: a product that does not fit an `int`
becomes an arbitrary one, and the window may be inverted. Without a product the
window stays the one the search starts with, which is inverted on a host whose
largest buffer is below the smallest one of a search.

An iteration that takes neither way (`Vars.WindowFit`) has an ordered window
with the exact bounds, and these are the only wrong ways
(`Vars.windowsExact_iff`).
-/
import Probdata.Fastprof.Returned
import Probdata.Fastprof.Slope

namespace Probdata
namespace Fastprof

variable {K Prof Entry : Type*} [Field K] [LinearOrder K]

/-! ### Conversions and clamps -/

/-- The range of an `int`. -/
def IsInt32 (n : ℤ) : Prop := -2 ^ 31 ≤ n ∧ n < 2 ^ 31

theorem bufSafeguardMax_eq (hostMaxBuf : ℤ) : bufSafeguardMax hostMaxBuf = min hostMaxBuf fBufMax := by
  unfold bufSafeguardMax
  split <;> omega

theorem guardBuf_eq (lo hi n : ℤ) : guardBuf lo hi n = min (max n lo) hi := by
  unfold guardBuf
  dsimp only
  split <;> split <;> omega

/-- The bandwidth-delay product in bytes, for a round-trip time in ms. -/
theorem bdpB_of_known {bw rtt : K} (hbw : 0 ≤ bw) (hrtt : 0 ≤ rtt) :
    bdpB bw rtt = rtt * (1 / 1000) * (bw / 8) := by
  unfold bdpB
  rw [if_neg (not_lt.mpr hbw), if_neg (not_lt.mpr hrtt)]

section Conversion

variable [IsStrictOrderedRing K] [FloorRing K]

/-- An integral double in the range of an `int` is converted exactly. -/
theorem toInt_intCast (E : Arith K) {n : ℤ} (h : IsInt32 n) : E.toInt (n : K) = n := by
  have hn : (if (0 : K) ≤ (n : K) then ⌊(n : K)⌋ else ⌈(n : K)⌉) = n := by
    split
    · exact Int.floor_intCast n
    · exact Int.ceil_intCast n
  unfold Arith.toInt
  dsimp only
  rw [hn]
  exact if_pos h

theorem toInt_fRound (E : Arith K) {x : K} (h : IsInt32 ⌊x + 1 / 2⌋) :
    E.toInt (fRound x) = ⌊x + 1 / 2⌋ :=
  toInt_intCast E h

omit [IsStrictOrderedRing K] in
theorem bufWindow_of_unknown {E : Arith K} {lo hi : ℤ} {bw rtt : K} {old : ℤ × ℤ}
    (h : ¬ (0 ≤ bw ∧ 0 ≤ rtt)) (hneg : (-1 : K) < 0) :
    bufWindow E lo hi (bdpB bw rtt) old = old := by
  have hb : bdpB bw rtt = -1 := by
    unfold bdpB
    split
    · rfl
    · rename_i hbw
      rw [if_pos (not_le.mp fun hr => h ⟨not_lt.mp hbw, hr⟩)]
  unfold bufWindow
  rw [hb, if_pos hneg]

omit [FloorRing K] in
theorem bdpB_nonneg {bw rtt : K} (hbw : 0 ≤ bw) (hrtt : 0 ≤ rtt) : 0 ≤ bdpB bw rtt := by
  rw [bdpB_of_known hbw hrtt]
  positivity

/-- The lower multiple of the product is rounded to no more than the upper one. -/
theorem round_bdp_le {b : K} (hb : 0 ≤ b) : 0 ≤ ⌊3 / 4 * b + 1 / 2⌋ ∧
    ⌊3 / 4 * b + 1 / 2⌋ ≤ ⌊4 * b + 1 / 2⌋ := by
  constructor
  · exact Int.floor_nonneg.mpr (by positivity)
  · exact Int.floor_le_floor (by linarith)

theorem bufWindow_of_known {E : Arith K} {lo hi : ℤ} {bw rtt : K} (old : ℤ × ℤ) (hbw : 0 ≤ bw)
    (hrtt : 0 ≤ rtt) (h : ⌊4 * bdpB bw rtt + 1 / 2⌋ < 2 ^ 31) :
    bufWindow E lo hi (bdpB bw rtt) old = (min (max ⌊3 / 4 * bdpB bw rtt + 1 / 2⌋ lo) hi,
      min (max ⌊4 * bdpB bw rtt + 1 / 2⌋ lo) hi) := by
  have hb := bdpB_nonneg hbw hrtt
  obtain ⟨h0, h1⟩ := round_bdp_le hb
  unfold bufWindow
  rw [if_neg (not_lt.mpr hb), guardBuf_eq, guardBuf_eq, div_one, div_one,
    toInt_fRound E ⟨by omega, by omega⟩, toInt_fRound E ⟨by omega, by omega⟩]

end Conversion

/-! ### The window of a search -/

/-- The bounds are in order and within the upper safeguard. -/
def OrderedWindow (hostMaxBuf : ℤ) (w : ℤ × ℤ) : Prop := w.1 ≤ w.2 ∧ w.2 ≤ min hostMaxBuf fBufMax

namespace Search

variable [FloorRing K] {P : Setup K} {s : Search K}

/-- The round-trip time that an iteration goes on with. -/
def iterRtt (P : Setup K) (s : Search K) : K := pingRtt P.ctrl.bwBps s.rtt (P.out.ping s.k)

theorem entered_rtt (P : Setup K) (s : Search K) : (entered P s).rtt = iterRtt P s := by
  show (measure P (scale P { s with flag := -1 })).rtt = _
  unfold scale
  split <;> rfl

theorem entered_window (P : Setup K) (s : Search K) : (entered P s).window =
    bufWindow P.arith fBufMin (bufSafeguardMax P.ctrl.hostMaxBuf)
      (bdpB P.ctrl.bwBps (iterRtt P s)) s.window := by
  show (measure P (scale P { s with flag := -1 })).window = _
  unfold scale
  split <;> rfl

/-- An iteration whose window is right: either the product fits an `int`, or
the window that the search started with is in order. -/
def WindowFit (P : Setup K) (s : Search K) : Prop :=
  if 0 ≤ P.ctrl.bwBps ∧ 0 ≤ iterRtt P s then
    ⌊4 * bdpB P.ctrl.bwBps (iterRtt P s) + 1 / 2⌋ < 2 ^ 31
  else fBufMin ≤ P.ctrl.hostMaxBuf

section Run

variable [IsStrictOrderedRing K]

theorem ordered_entered (hfit : WindowFit P s)
    (hold : fBufMin ≤ P.ctrl.hostMaxBuf → OrderedWindow P.ctrl.hostMaxBuf s.window) :
    OrderedWindow P.ctrl.hostMaxBuf (entered P s).window := by
  rw [entered_window]
  by_cases hk : 0 ≤ P.ctrl.bwBps ∧ 0 ≤ iterRtt P s
  · rw [WindowFit, if_pos hk] at hfit
    obtain ⟨-, hle⟩ := round_bdp_le (bdpB_nonneg hk.1 hk.2)
    rw [bufWindow_of_known _ hk.1 hk.2 hfit, bufSafeguardMax_eq]
    exact ⟨by dsimp only; omega, by dsimp only; omega⟩
  · rw [WindowFit, if_neg hk] at hfit
    rw [bufWindow_of_unknown hk neg_one_lt_zero]
    exact hold hfit

omit [FloorRing K] [IsStrictOrderedRing K] in
theorem window_trial (m : Marker) (pt : K × K) : (trial P m pt s).window = s.window := by
  rw [trial_frame]

omit [IsStrictOrderedRing K] in
/-- What a step does to the window: the head of an iteration computes it anew. -/
theorem window_step (P : Setup K) (s : Search K) : (step P s).window =
    if s.pc = .head ∧ starts P s = true then (entered P s).window else s.window := by
  rcases hpc : s.pc with _ | _ | _ | _ | r
  · have hstep := step_of_head P hpc
    rw [hstep]
    rcases head_eq P hpc with ⟨hst, he⟩ | ⟨hst, s0, f, hs0, he⟩
    · rw [he, window_trial, if_pos ⟨rfl, hst⟩]
    · rw [he, if_neg (by rw [hst]; simp)]
      rcases hs0 with rfl | rfl
      · rfl
      · show (scale P { s with flag := -1 }).window = s.window
        unfold scale
        split <;> rfl
  · have hstep := step_of_minus P hpc
    rw [hstep, window_trial, if_neg (by simp)]
  · have hstep := step_of_star P hpc
    rw [hstep, if_neg (by simp)]
    unfold star
    dsimp only
    split
    · exact window_trial .star (climb P s).theta
    · exact window_trial .star (climb P s).theta
  · have hstep := step_of_ended P (s := s) (by rw [hpc]; rfl)
    rw [hstep, if_neg (by simp)]
  · have hstep := step_of_ended P (s := s) (by rw [hpc]; rfl)
    rw [hstep, if_neg (by simp)]

/-- Where an iteration makes its later tests, and everywhere on a host with
large enough buffers, the window is in order. -/
structure WindowSound (P : Setup K) (s : Search K) : Prop where
  tests : s.pc = .minus ∨ s.pc = .star → OrderedWindow P.ctrl.hostMaxBuf s.window
  old : fBufMin ≤ P.ctrl.hostMaxBuf → OrderedWindow P.ctrl.hostMaxBuf s.window

/-- The step from one test to the next of an iteration keeps its point of the
loop, or leaves the iteration. -/
theorem ordered_step (hs : WindowSound P s)
    (hfit : s.pc = .head → starts P s = true → WindowFit P s) :
    WindowSound P (step P s) ∧
      (starts P s = true → OrderedWindow P.ctrl.hostMaxBuf (step P s).window) := by
  rw [window_step]
  by_cases hc : s.pc = .head ∧ starts P s = true
  · have ho := ordered_entered (hfit hc.1 hc.2) hs.old
    have hw : (step P s).window = (entered P s).window := by rw [window_step, if_pos hc]
    rw [if_pos hc]
    exact ⟨⟨fun _ => hw ▸ ho, fun _ => hw ▸ ho⟩, fun _ => ho⟩
  · have hw : (step P s).window = s.window := by rw [window_step, if_neg hc]
    rw [if_neg hc]
    have htest : starts P s = true → OrderedWindow P.ctrl.hostMaxBuf s.window := by
      intro hst
      rcases hpc : s.pc with _ | _ | _ | _ | r
      · exact absurd ⟨hpc, hst⟩ hc
      · exact hs.tests (Or.inl hpc)
      · exact hs.tests (Or.inr hpc)
      · simp [starts, hpc] at hst
      · simp [starts, hpc] at hst
    refine ⟨⟨fun hpc' => ?_, fun h => hw ▸ hs.old h⟩, htest⟩
    rw [hw]
    by_cases hst : starts P s = true
    · exact htest hst
    · -- a step that starts no test leaves the loop
      rcases step_cases P s with ⟨-, -, hend⟩ | ⟨hst', -⟩
      · rcases hpc' with h | h <;> rw [h] at hend <;> cases hend
      · exact absurd hst' hst

theorem ordered_run (hfit : ∀ n, (run P n).pc = .head → starts P (run P n) = true →
    WindowFit P (run P n)) (n : ℕ) : WindowSound P (run P n) := by
  induction n with
  | zero =>
    have hpc : (start P).pc ≠ .minus ∧ (start P).pc ≠ .star := by
      unfold start
      dsimp only
      constructor <;> split <;> simp
    refine ⟨fun h => (h.elim hpc.1 hpc.2).elim, fun h => ?_⟩
    show fBufMin ≤ bufSafeguardMax P.ctrl.hostMaxBuf ∧ bufSafeguardMax P.ctrl.hostMaxBuf ≤ _
    rw [bufSafeguardMax_eq]
    exact ⟨le_min h (by decide), le_refl _⟩
  | succ n ih => rw [run_succ]; exact (ordered_step ih (hfit n)).1

/-! ### The window before the product is known -/

omit [FloorRing K] in
theorem pingRtt_nonneg {bw rtt srtt : K} (h : 0 ≤ rtt) : 0 ≤ pingRtt bw rtt srtt := by
  unfold pingRtt smoothRtt
  split
  · exact h
  · split
    · exact h
    · rename_i hs
      have hs' : 0 ≤ srtt := not_lt.mp hs
      rw [if_neg (not_lt.mpr h)]
      positivity

/-- A search has the window it started with, or knows the product for good. -/
def WindowKept (P : Setup K) (s : Search K) : Prop :=
  s.window = (fBufMin, bufSafeguardMax P.ctrl.hostMaxBuf) ∨ 0 ≤ P.ctrl.bwBps ∧ 0 ≤ s.rtt

omit [IsStrictOrderedRing K] in
theorem rtt_step (P : Setup K) (s : Search K) : (step P s).rtt =
    if s.pc = .head ∧ starts P s = true then iterRtt P s else s.rtt := by
  rcases hpc : s.pc with _ | _ | _ | _ | r
  · have hstep := step_of_head P hpc
    rw [hstep]
    rcases head_eq P hpc with ⟨hst, he⟩ | ⟨hst, s0, f, hs0, he⟩
    · rw [he, trial_frame, if_pos ⟨rfl, hst⟩]
      exact entered_rtt P s
    · rw [he, if_neg (by rw [hst]; simp)]
      rcases hs0 with rfl | rfl
      · rfl
      · show (scale P { s with flag := -1 }).rtt = s.rtt
        unfold scale
        split <;> rfl
  · have hstep := step_of_minus P hpc
    rw [hstep, trial_frame, if_neg (by simp)]
  · have hstep := step_of_star P hpc
    rw [hstep, if_neg (by simp)]
    unfold star
    dsimp only
    split <;> rw [trial_frame] <;> rfl
  · have hstep := step_of_ended P (s := s) (by rw [hpc]; rfl)
    rw [hstep, if_neg (by simp)]
  · have hstep := step_of_ended P (s := s) (by rw [hpc]; rfl)
    rw [hstep, if_neg (by simp)]

theorem kept_run (P : Setup K) (n : ℕ) : WindowKept P (run P n) := by
  induction n with
  | zero => exact Or.inl rfl
  | succ n ih =>
    unfold WindowKept
    rw [run_succ, window_step, rtt_step]
    split
    · by_cases hk : 0 ≤ P.ctrl.bwBps ∧ 0 ≤ iterRtt P (run P n)
      · exact Or.inr hk
      · rw [entered_window, bufWindow_of_unknown hk neg_one_lt_zero]
        rcases ih with h | ⟨h1, h2⟩
        · exact Or.inl h
        · exact absurd ⟨h1, pingRtt_nonneg h2⟩ hk
    · exact ih

end Run

end Search

/-! ### The two clients -/

/-- The window that an iteration computed from a known product: both conversions
were exact, and the bounds are the rounded multiples clamped into
`[F_BUF_MIN, min(host_max_buf, F_BUF_MAX)]`. -/
structure Vars.ExactWindow [FloorRing K] (P : Setup K) (s : Vars K Prof Entry) : Prop where
  minInt : IsInt32 ⌊3 / 4 * (s.rttMs * (1 / 1000) * (P.ctrl.bwBps / 8)) + 1 / 2⌋
  maxInt : IsInt32 ⌊4 * (s.rttMs * (1 / 1000) * (P.ctrl.bwBps / 8)) + 1 / 2⌋
  min_eq : s.bufSizeMin =
    min (max ⌊3 / 4 * (s.rttMs * (1 / 1000) * (P.ctrl.bwBps / 8)) + 1 / 2⌋ fBufMin)
      (min P.ctrl.hostMaxBuf fBufMax)
  max_eq : s.bufSizeMax =
    min (max ⌊4 * (s.rttMs * (1 / 1000) * (P.ctrl.bwBps / 8)) + 1 / 2⌋ fBufMin)
      (min P.ctrl.hostMaxBuf fBufMax)

/-- At every test of a run the window is in order, and in every iteration with
a known product it is exact. -/
structure WindowsExact [FloorRing K] (P : Setup K) (run : ℕ → Vars K Prof Entry) : Prop where
  ordered : ∀ n, (run (n + 1)).started ≠ (run n).started →
    (run (n + 1)).bufSizeMin ≤ (run (n + 1)).bufSizeMax ∧
      (run (n + 1)).bufSizeMax ≤ min P.ctrl.hostMaxBuf fBufMax
  exact : ∀ n, (run n).pc = .head → (run (n + 1)).started ≠ (run n).started →
    0 ≤ P.ctrl.bwBps → 0 ≤ (run (n + 1)).rttMs → (run (n + 1)).ExactWindow P

namespace Vars

/-- What an iteration must be given: with a known product, one that fits an
`int`, and without one a host that has buffers for the smallest window. -/
def WindowFit (P : Setup K) (s : Vars K Prof Entry) : Prop :=
  if 0 ≤ P.ctrl.bwBps ∧ 0 ≤ pingRtt P.ctrl.bwBps s.rttMs (P.out.ping s.k) then
    pingRtt P.ctrl.bwBps s.rttMs (P.out.ping s.k) * P.ctrl.bwBps < 2000 * (2 ^ 31 - 1 / 2)
  else fBufMin ≤ P.ctrl.hostMaxBuf

variable [FloorRing K] {F : Profiler K Prof Entry} {P : Setup K} {args : Args Prof Entry}

variable (F P args) in
theorem window_run (n : ℕ) : ((run F P args n).bufSizeMin, (run F P args n).bufSizeMax) =
    (Search.run P n).window :=
  congrArg Search.window (run_search F P args n).1

variable {n : ℕ}

theorem not_leaves_iff (hpc : (run F P args n).pc = .head) :
    ¬ (run F P args n).Leaves P ↔ Search.starts P (Search.run P n) = true := by
  obtain ⟨hs, ht⟩ := run_search F P args n
  rw [leaves_iff ht (by rw [hpc]; rfl), hs, Bool.not_eq_false]

/-- The round-trip time of an iteration. -/
theorem rttMs_run_succ (hpc : (run F P args n).pc = .head)
    (hst : Search.starts P (Search.run P n) = true) :
    (run F P args (n + 1)).rttMs = Search.iterRtt P (Search.run P n) := by
  have hs : (run F P args (n + 1)).rttMs = (Search.run P (n + 1)).rtt :=
    congrArg Search.rtt (run_search F P args (n + 1)).1
  have hpc' : (Search.run P n).pc = .head := by rw [← run_pc F P args]; exact hpc
  rw [hs, Search.run_succ, Search.rtt_step, if_pos ⟨hpc', hst⟩]

/-- The window of an iteration. -/
theorem window_run_succ (hpc : (run F P args n).pc = .head)
    (hst : Search.starts P (Search.run P n) = true) :
    ((run F P args (n + 1)).bufSizeMin, (run F P args (n + 1)).bufSizeMax) =
      (Search.entered P (Search.run P n)).window := by
  have hpc' : (Search.run P n).pc = .head := by rw [← run_pc F P args]; exact hpc
  rw [window_run, Search.run_succ, Search.window_step, if_pos ⟨hpc', hst⟩]

variable [IsStrictOrderedRing K]

theorem windowFit_iff (s : Vars K Prof Entry) : s.WindowFit P ↔ s.search.WindowFit P := by
  unfold WindowFit Search.WindowFit
  have hrtt : Search.iterRtt P s.search = pingRtt P.ctrl.bwBps s.rttMs (P.out.ping s.k) := rfl
  rw [hrtt]
  by_cases hk : 0 ≤ P.ctrl.bwBps ∧ 0 ≤ pingRtt P.ctrl.bwBps s.rttMs (P.out.ping s.k)
  · rw [if_pos hk, if_pos hk, bdpB_of_known hk.1 hk.2, Int.floor_lt]
    push_cast
    constructor <;> intro h <;> linarith
  · rw [if_neg hk, if_neg hk]

theorem windowFit_of_windowsExact (hW : WindowsExact P (run F P args))
    (hpc : (run F P args n).pc = .head) (hl : ¬ (run F P args n).Leaves P) :
    (run F P args n).WindowFit P := by
  have hst := (not_leaves_iff hpc).mp hl
  have hne := (started_ne_iff F P args n).mpr hst
  rw [windowFit_iff, (run_search F P args n).1]
  unfold Search.WindowFit
  split
  · rename_i hk
    have hx := hW.exact n hpc hne hk.1 (by rw [rttMs_run_succ hpc hst]; exact hk.2)
    rw [bdpB_of_known hk.1 hk.2, ← rttMs_run_succ hpc hst]
    exact hx.maxInt.2
  · -- the iteration tests with the window that the search started with
    rename_i hk
    have ho := hW.ordered n hne
    have hw := window_run_succ hpc hst
    rw [Search.entered_window, bufWindow_of_unknown hk neg_one_lt_zero] at hw
    rcases Search.kept_run P n with h | ⟨h1, h2⟩
    · rw [h] at hw
      obtain ⟨hmin, hmax⟩ := Prod.mk.inj hw
      rw [hmin, hmax, bufSafeguardMax_eq] at ho
      exact ho.1.trans (min_le_left _ _)
    · exact absurd ⟨h1, Search.pingRtt_nonneg h2⟩ hk

/-- An iteration with a known product that fits an `int` has the window of that
product. -/
theorem exactWindow_of_windowFit (hpc : (run F P args n).pc = .head)
    (hst : Search.starts P (Search.run P n) = true) (hf : (Search.run P n).WindowFit P)
    (hbw : 0 ≤ P.ctrl.bwBps) (hr : 0 ≤ (run F P args (n + 1)).rttMs) :
    (run F P args (n + 1)).ExactWindow P := by
  rw [rttMs_run_succ hpc hst] at hr
  rw [Search.WindowFit, if_pos ⟨hbw, hr⟩] at hf
  obtain ⟨h0, hle⟩ := round_bdp_le (bdpB_nonneg hbw hr)
  have hw := window_run_succ hpc hst
  rw [Search.entered_window, bufWindow_of_known _ hbw hr hf, bufSafeguardMax_eq] at hw
  obtain ⟨hmin, hmax⟩ := Prod.mk.inj hw
  rw [bdpB_of_known hbw hr, ← rttMs_run_succ hpc hst] at h0 hle hf hmin hmax
  exact ⟨⟨by omega, by omega⟩, ⟨by omega, by omega⟩, hmin, hmax⟩

/-- The windows of a run are exact exactly if its iterations are given what
they need. -/
theorem windowsExact_iff : WindowsExact P (run F P args) ↔ ∀ n, (run F P args n).pc = .head →
    ¬ (run F P args n).Leaves P → (run F P args n).WindowFit P := by
  refine ⟨fun hW n => windowFit_of_windowsExact hW, fun hfit => ?_⟩
  have hfit' : ∀ n, (Search.run P n).pc = .head → Search.starts P (Search.run P n) = true →
      (Search.run P n).WindowFit P := by
    intro n hpc hst
    have hpc' : (run F P args n).pc = .head := by rw [run_pc]; exact hpc
    rw [← (run_search F P args n).1, ← windowFit_iff]
    exact hfit n hpc' ((not_leaves_iff hpc').mpr hst)
  constructor
  · intro n hne
    have hst := (started_ne_iff F P args n).mp hne
    have ho := (Search.ordered_step (Search.ordered_run hfit' n) (hfit' n)).2 hst
    rw [← Search.run_succ, ← window_run F P args] at ho
    exact ho
  · intro n hpc hne hbw hr
    have hst := (started_ne_iff F P args n).mp hne
    have hpc' : (Search.run P n).pc = .head := by rw [← run_pc F P args]; exact hpc
    exact exactWindow_of_windowFit hpc hst (hfit' n hpc' hst) hbw hr

end Vars

variable [IsStrictOrderedRing K] [FloorRing K]

/-- The windows of both searches are right exactly if every iteration is given
a product that fits an `int`, or no product and a host with large enough
buffers. -/
theorem clientRun_windowsExact_iff (P : Setup K) :
    (∀ lib args, WindowsExact P (fun n => (fTcpClientRun lib P args n).vars) ↔
      ∀ n, (fTcpClientRun lib P args n).vars.pc = .head →
        ¬ (fTcpClientRun lib P args n).vars.Leaves P →
        (fTcpClientRun lib P args n).vars.WindowFit P) ∧
    ∀ args, WindowsExact P (fun n => (fUdtClientRun P args n).vars) ↔
      ∀ n, (fUdtClientRun P args n).vars.pc = .head → ¬ (fUdtClientRun P args n).vars.Leaves P →
        (fUdtClientRun P args n).vars.WindowFit P := by
  constructor
  · intro lib args
    simp only [fTcpClientRun_vars]
    exact Vars.windowsExact_iff
  · intro args
    simp only [fUdtClientRun_vars]
    exact Vars.windowsExact_iff

/-- The default, no bandwidth: the window of both searches is the one they start with. -/
theorem clientRun_windowsExact_iff_default :
    WindowsExact (plainSetup (-1) 60 fun _ => 900)
        (fun n => (fTcpClientRun plainIperf (plainSetup (-1) 60 fun _ => 900) plainTcpArgs n).vars) ∧
      WindowsExact (plainSetup (-1) 60 fun _ => 900)
        fun n => (fUdtClientRun (plainSetup (-1) 60 fun _ => 900) plainUdtArgs n).vars := by
  have hbuf : fBufMin ≤ (plainSetup (-1) 60 fun _ => 900).ctrl.hostMaxBuf := by decide
  have hbw : ¬ 0 ≤ (plainSetup (-1) 60 fun _ => 900).ctrl.bwBps := by decide
  have h := clientRun_windowsExact_iff (plainSetup (-1) 60 fun _ => 900)
  refine ⟨(h.1 plainIperf plainTcpArgs).mpr fun n _ _ => ?_, (h.2 plainUdtArgs).mpr fun n _ _ => ?_⟩
  · rw [Vars.WindowFit, if_neg fun hk => hbw hk.1]
    exact hbuf
  · rw [Vars.WindowFit, if_neg fun hk => hbw hk.1]
    exact hbuf

/-- A path of 100 Gb/s and 50 ms: the upper bound does not fit an `int`, and the
first test has a window from 212992 down to 16000. -/
theorem not_windowsExact_long_fat :
    ¬ WindowsExact (plainSetup (10 ^ 11) 60 fun _ => 900)
      fun n => (fTcpClientRun plainIperf (plainSetup (10 ^ 11) 60 fun _ => 900)
        plainTcpArgs n).vars := by
  intro h
  have hst : (fTcpClientRun plainIperf (plainSetup (10 ^ 11) 60 fun _ => 900)
      plainTcpArgs 1).vars.started ≠ (fTcpClientRun plainIperf
      (plainSetup (10 ^ 11) 60 fun _ => 900) plainTcpArgs 0).vars.started := by decide +kernel
  have hno : ¬ (fTcpClientRun plainIperf (plainSetup (10 ^ 11) 60 fun _ => 900)
      plainTcpArgs 1).vars.bufSizeMin ≤ (fTcpClientRun plainIperf
      (plainSetup (10 ^ 11) 60 fun _ => 900) plainTcpArgs 1).vars.bufSizeMax := by decide +kernel
  exact hno (h.ordered 0 hst).1

end Fastprof
end Probdata
