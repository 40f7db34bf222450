/-
# Runs of a search

What holds along a run: a running search has made as many tests as steps
(`run_length`), it knows at which test of an iteration it stands, it has not
reached the ratio when it starts a test, and when it ends it ends for the
reason its flag names (`Sound`, kept by `sound_step`). A search with a limit of
`N` tests makes fewer than `N + 3` (`Sound.bound`), so it ends.
-/
import Probdata.Fastprof.Ledger

namespace Probdata
namespace Fastprof

/-- The loop has not been left. -/
def Pc.running : Pc → Bool
  | .head | .minus | .star => true
  | .done | .ret _ => false

theorem Marker.running_next (m : Marker) : m.next.running = true := by cases m <;> rfl

/-- The log opens, and every test succeeds and is recorded. -/
structure Outcomes.Good {K : Type*} (o : Outcomes K) : Prop where
  openLog : o.openLog = true
  test : ∀ n, (o.test n).isSome = true
  composed : ∀ n, o.composed n = true
  added : ∀ n, o.added n = true

theorem plainOutcomes_good (y : ℕ → ℚ) : (plainOutcomes y).Good :=
  ⟨rfl, fun _ => rfl, fun _ => rfl, fun _ => rfl⟩

namespace Search

variable {K : Type*} [Field K] [LinearOrder K]

/-! ### A test -/

/-- What a test can do. -/
theorem trial_cases (P : Setup K) (m : Marker) (pt : K × K) (s : Search K) :
    (P.out.test s.trials.length = none ∧ trial P m pt s = { s with pc := .ret (-1) }) ∨
    ∃ t : Trial K, t.theta = pt ∧ t.window = s.window ∧
      P.out.test s.trials.length = some t.perfMbps ∧
      ((¬ (P.out.composed s.trials.length = true ∧ P.out.added s.trials.length = true) ∧
          trial P m pt s = { s with trials := s.trials ++ [t], pc := .ret 0 }) ∨
        (bestGbps s.trials < t.gbps ∧ reached P (s.trials ++ [t]) = true ∧
          trial P m pt s = { s with trials := s.trials ++ [t], flag := 3, pc := .done }) ∨
        (¬ (bestGbps s.trials < t.gbps ∧ reached P (s.trials ++ [t]) = true) ∧
          trial P m pt s = { s with trials := s.trials ++ [t], pc := m.next })) := by
  rcases hy : P.out.test s.trials.length with _ | y
  · left; exact ⟨rfl, by simp only [trial, hy]⟩
  · right
    refine ⟨⟨pt, s.window, y⟩, rfl, rfl, rfl, ?_⟩
    simp only [trial, hy]
    by_cases hr : P.out.composed s.trials.length = true ∧ P.out.added s.trials.length = true
    · obtain ⟨h1, h2⟩ := hr
      simp only [h1, h2, Bool.not_true, Bool.or_self, Bool.false_eq_true, ↓reduceIte]
      right
      by_cases hb : bestGbps s.trials < y / 1000 ∧
          reached P (s.trials ++ [⟨pt, s.window, y⟩]) = true
      · left; exact ⟨hb.1, hb.2, if_pos hb⟩
      · right; exact ⟨hb, if_neg hb⟩
    · left
      refine ⟨hr, if_pos ?_⟩
      rcases h1 : P.out.composed s.trials.length <;> rcases h2 : P.out.added s.trials.length <;>
        simp_all

/-- A ratio that was not reached before a test, and that the test did not end
the search for, is not reached after it. -/
theorem reached_snoc {P : Setup K} {ts : List (Trial K)} {t : Trial K}
    (h : reached P ts = false)
    (ht : ¬ (bestGbps ts < t.gbps ∧ reached P (ts ++ [t]) = true)) :
    reached P (ts ++ [t]) = false := by
  rcases lt_or_ge (bestGbps ts) t.gbps with hlt | hle
  · exact Bool.eq_false_iff.mpr fun he => ht ⟨hlt, he⟩
  · unfold reached at h ⊢
    rw [bestGbps_snoc_of_le hle]; exact h

/-- A test changes nothing but the tests, the flag and where the search stands. -/
theorem trial_frame (P : Setup K) (m : Marker) (pt : K × K) (s : Search K) :
    trial P m pt s = { s with
      pc := (trial P m pt s).pc
      flag := (trial P m pt s).flag
      trials := (trial P m pt s).trials } := by
  rcases trial_cases P m pt s with ⟨-, he⟩ | ⟨t, -, -, -, ⟨-, he⟩ | ⟨-, -, he⟩ | ⟨-, he⟩⟩ <;> rw [he]

theorem scale_trials (P : Setup K) (s : Search K) : (scale P s).trials = s.trials := by
  unfold scale; split <;> rfl

/-! ### The invariant -/

/-- What a search knows wherever it stands. -/
structure Sound (P : Setup K) (s : Search K) : Prop where
  head : s.pc = .head → s.trials.length % 3 = 0 ∧
    (s.trials ≠ [] → (s.trials.length : ℤ) < P.lim.maxProf + 3)
  minus : s.pc = .minus → s.trials.length % 3 = 1 ∧
    (s.trials.length : ℤ) < P.lim.maxProf + 1 ∧ reached P s.trials = false
  star : s.pc = .star → s.trials.length % 3 = 2 ∧
    (s.trials.length : ℤ) < P.lim.maxProf + 2 ∧ reached P s.trials = false
  done : s.pc = .done →
    (s.flag = 1 ∧ P.lim.maxProf ≤ s.trials.length) ∨
    (s.flag = 2 ∧ (s.trials.length : ℤ) < P.lim.maxProf ∧ P.lim.noImp ≤ stale s.trials) ∨
    (s.flag = 3 ∧ reached P s.trials = true)
  left : s.pc.running = false → s.trials ≠ [] → (s.trials.length : ℤ) < P.lim.maxProf + 3

theorem Sound.bound {P : Setup K} {s : Search K} (h : Sound P s) (hne : s.trials ≠ []) :
    (s.trials.length : ℤ) < P.lim.maxProf + 3 := by
  rcases hpc : s.pc with _ | _ | _ | _ | r
  · exact (h.head hpc).2 hne
  · have := (h.minus hpc).2.1; omega
  · have := (h.star hpc).2.1; omega
  · exact h.left (by rw [hpc]; rfl) hne
  · exact h.left (by rw [hpc]; rfl) hne

/-- Where a search stands when it starts a test. -/
def Starts (P : Setup K) (s : Search K) : Marker → Prop
  | .plus => s.trials.length % 3 = 0 ∧ (s.trials.length : ℤ) < P.lim.maxProf
  | .minus => s.trials.length % 3 = 1 ∧ (s.trials.length : ℤ) < P.lim.maxProf + 1
  | .star => s.trials.length % 3 = 2 ∧ (s.trials.length : ℤ) < P.lim.maxProf + 2

/-- A test that the search may start leaves it sound. -/
theorem sound_trial {P : Setup K} {m : Marker} {pt : K × K} {s : Search K} (hm : Starts P s m)
    (hr : reached P s.trials = false) : Sound P (trial P m pt s) := by
  have hlen : (s.trials.length : ℤ) + 1 < P.lim.maxProf + 3 := by
    cases m <;> simp only [Starts] at hm <;> omega
  rcases trial_cases P m pt s with ⟨-, he⟩ | ⟨t, -, -, -, ⟨-, he⟩ | ⟨-, hre, he⟩ | ⟨hnot, he⟩⟩
  · rw [he]
    constructor <;> intro h <;> simp only [reduceCtorEq] at h
    intro _; show (s.trials.length : ℤ) < _; omega
  · rw [he]
    constructor <;> intro h <;> simp only [reduceCtorEq] at h
    intro _; simpa using hlen
  · rw [he]
    constructor <;> intro h <;> simp only [reduceCtorEq] at h
    · exact Or.inr (Or.inr ⟨rfl, hre⟩)
    · intro _; simpa using hlen
  · have hno := reached_snoc hr hnot
    rw [he]
    cases m with
    | plus =>
      constructor <;> intro h <;> simp only [Marker.next, Pc.running, reduceCtorEq] at h
      simp only [Starts] at hm
      refine ⟨?_, ?_, hno⟩ <;> simp only [List.length_append, List.length_singleton] <;> omega
    | minus =>
      constructor <;> intro h <;> simp only [Marker.next, Pc.running, reduceCtorEq] at h
      simp only [Starts] at hm
      refine ⟨?_, ?_, hno⟩ <;> simp only [List.length_append, List.length_singleton] <;> omega
    | star =>
      constructor <;> intro h <;> simp only [Marker.next, Pc.running, reduceCtorEq] at h
      simp only [Starts] at hm
      refine ⟨?_, fun _ => ?_⟩ <;> simp only [List.length_append, List.length_singleton] <;> omega

theorem sound_of_done {P : Setup K} {s : Search K} (hpc : s.pc = .done)
    (hd : (s.flag = 1 ∧ P.lim.maxProf ≤ s.trials.length) ∨
      (s.flag = 2 ∧ (s.trials.length : ℤ) < P.lim.maxProf ∧ P.lim.noImp ≤ stale s.trials) ∨
      (s.flag = 3 ∧ reached P s.trials = true))
    (hl : s.trials ≠ [] → (s.trials.length : ℤ) < P.lim.maxProf + 3) : Sound P s := by
  constructor
  case done => exact fun _ => hd
  case left => exact fun _ => hl
  all_goals intro h; rw [hpc] at h; cases h

theorem Sound.withTheta {P : Setup K} {s : Search K} (h : Sound P s) (theta : K × K) :
    Sound P { s with theta := theta } :=
  ⟨h.head, h.minus, h.star, h.done, h.left⟩

/-- A test makes one entry, unless it fails. -/
theorem trial_trials (P : Setup K) (m : Marker) (pt : K × K) (s : Search K) :
    (trial P m pt s).trials = s.trials ∧ (trial P m pt s).pc = .ret (-1) ∨
      ∃ t, (trial P m pt s).trials = s.trials ++ [t] := by
  rcases trial_cases P m pt s with ⟨-, he⟩ | ⟨t, -, -, -, ⟨-, he⟩ | ⟨-, -, he⟩ | ⟨-, he⟩⟩
  · left; rw [he]; exact ⟨rfl, rfl⟩
  all_goals right; exact ⟨t, by rw [he]⟩

/-- A test that succeeds and is recorded does not leave the loop by a `return`. -/
theorem trial_pc_of_good {P : Setup K} (hP : P.out.Good) (m : Marker) (pt : K × K) (s : Search K) :
    (trial P m pt s).pc = .done ∨ (trial P m pt s).pc = m.next := by
  rcases trial_cases P m pt s with ⟨hn, -⟩ | ⟨t, -, -, -, ⟨hr, -⟩ | ⟨-, -, he⟩ | ⟨-, he⟩⟩
  · have := hP.test s.trials.length
    simp [hn] at this
  · exact absurd ⟨hP.composed _, hP.added _⟩ hr
  · left; rw [he]
  · right; rw [he]

/-- A test after which the search still runs was recorded. -/
theorem recorded_of_running {P : Setup K} {m : Marker} {pt : K × K} {s : Search K}
    (h : (trial P m pt s).pc.running = true) : (P.out.test s.trials.length).isSome = true ∧
      P.out.composed s.trials.length = true ∧ P.out.added s.trials.length = true := by
  rcases hy : P.out.test s.trials.length with _ | y
  · simp [trial, hy, Pc.running] at h
  · simp only [trial, hy] at h
    split at h
    · simp [Pc.running] at h
    · rename_i hrec
      simpa using hrec

/-- A test after which the search still runs leads to the next point of the loop. -/
theorem trial_pc (P : Setup K) (m : Marker) (pt : K × K) (s : Search K)
    (h : (trial P m pt s).pc.running = true) : (trial P m pt s).pc = m.next := by
  rcases trial_cases P m pt s with ⟨-, he⟩ | ⟨t, -, -, -, ⟨-, he⟩ | ⟨-, -, he⟩ | ⟨-, he⟩⟩
  · rw [he] at h; cases h
  · rw [he] at h; cases h
  · rw [he] at h; cases h
  · rw [he]

/-- A test after which the search still runs is the last of its tests. -/
theorem trial_next (P : Setup K) (m : Marker) (pt : K × K) (s : Search K)
    (h : (trial P m pt s).pc.running = true) :
    ∃ t : Trial K, t.theta = pt ∧ (trial P m pt s).trials = s.trials ++ [t] := by
  rcases trial_cases P m pt s with ⟨-, he⟩ | ⟨t, ht, -, -, ⟨-, he⟩ | ⟨-, -, he⟩ | ⟨-, he⟩⟩
  · rw [he] at h; cases h
  all_goals exact ⟨t, ht, by rw [he]⟩

theorem star_trials (P : Setup K) (s : Search K) :
    (star P s).trials = (trial P .star (climb P s).theta (climb P s)).trials := by
  unfold star; simp only; split <;> rfl

theorem star_pc (P : Setup K) (s : Search K) :
    (star P s).pc = (trial P .star (climb P s).theta (climb P s)).pc := by
  unfold star; simp only; split <;> rfl

theorem sound_star {P : Setup K} {s : Search K} (h : Sound P s) (hpc : s.pc = .star) :
    Sound P (star P s) := by
  obtain ⟨h1, h2, h3⟩ := h.star hpc
  have ht : Sound P (trial P .star (climb P s).theta (climb P s)) := sound_trial ⟨h1, h2⟩ h3
  unfold star
  simp only
  split
  · exact ht.withTheta _
  · exact ht

theorem running_of_starts {P : Setup K} {s : Search K} (h : starts P s = true) :
    s.pc.running = true := by
  unfold starts at h
  split at h
  · rename_i hpc; rw [hpc]; rfl
  · rename_i hpc; rw [hpc]; rfl
  · rename_i hpc; rw [hpc]; rfl
  · cases h
  · cases h

/-- A search that starts a test has not reached the ratio. -/
theorem not_reached_of_starts {P : Setup K} {s : Search K} (h : Sound P s)
    (hst : starts P s = true) : reached P s.trials = false := by
  unfold starts at hst
  split at hst
  · simp only [Bool.and_eq_true, Bool.not_eq_true'] at hst
    exact hst.2
  · rename_i hpc; exact (h.minus hpc).2.2
  · rename_i hpc; exact (h.star hpc).2.2
  · cases hst
  · cases hst

variable [FloorRing K]

theorem sound_start (P : Setup K) : Sound P (start P) := by
  constructor <;> intro h <;> simp only [start] at h ⊢ <;> split at h <;> simp_all

/-! ### The head of the loop -/

/-- What the head of the loop can do: stop for one of the three reasons, or
start an iteration with a test. -/
theorem head_cases (P : Setup K) (s : Search K) :
    (P.lim.maxProf ≤ s.trials.length ∧ (head P s).pc = .done ∧ (head P s).flag = 1 ∧
        (head P s).trials = s.trials) ∨
      ((s.trials.length : ℤ) < P.lim.maxProf ∧ P.lim.noImp ≤ stale s.trials ∧
        (head P s).pc = .done ∧ (head P s).flag = 2 ∧ (head P s).trials = s.trials) ∨
      ((s.trials.length : ℤ) < P.lim.maxProf ∧ reached P s.trials = true ∧
        (head P s).pc = .done ∧ (head P s).flag = 3 ∧ (head P s).trials = s.trials) ∨
      ((s.trials.length : ℤ) < P.lim.maxProf ∧ (stale s.trials : ℤ) < P.lim.noImp ∧
        reached P s.trials = false ∧
        ∃ s' : Search K, s'.trials = s.trials ∧ head P s = trial P .plus s'.thetaPlus s') := by
  unfold head
  simp only [scale_trials]
  by_cases h1 : (s.trials.length : ℤ) ≥ P.lim.maxProf
  · rw [if_pos h1]; exact Or.inl ⟨h1, rfl, rfl, rfl⟩
  rw [if_neg h1]
  have h1' : (s.trials.length : ℤ) < P.lim.maxProf := not_le.mp h1
  by_cases h2 : (stale s.trials : ℤ) ≥ P.lim.noImp
  · rw [if_pos h2]
    exact Or.inr (Or.inl ⟨h1', h2, rfl, rfl, rfl⟩)
  rw [if_neg h2]
  by_cases h3 : reached P s.trials = true
  · rw [if_pos h3]
    exact Or.inr (Or.inr (Or.inl ⟨h1', h3, rfl, rfl, rfl⟩))
  · rw [if_neg h3]
    refine Or.inr (Or.inr (Or.inr ⟨h1', not_le.mp h2, Bool.eq_false_iff.mpr h3, _, ?_, rfl⟩))
    exact scale_trials P _

/-- The state in which an iteration makes its first test. -/
def entered (P : Setup K) (s : Search K) : Search K :=
  perturb P (measure P (scale P { s with flag := -1 }))

/-- The head of the loop starts an iteration, or leaves everything but the
gains as it was. -/
theorem head_eq (P : Setup K) {s : Search K} (hpc : s.pc = .head) :
    (starts P s = true ∧ head P s = trial P .plus (entered P s).thetaPlus (entered P s)) ∨
      (starts P s = false ∧ ∃ s0 f, (s0 = s ∨ s0 = scale P { s with flag := -1 }) ∧
        head P s = { s0 with flag := f, pc := .done }) := by
  have hst : starts P s = ((s.trials.length : ℤ) < P.lim.maxProf &&
      (stale s.trials : ℤ) < P.lim.noImp && !reached P s.trials) := by
    unfold starts; rw [hpc]
  have hhead : head P s =
      if (s.trials.length : ℤ) ≥ P.lim.maxProf then { s with flag := 1, pc := .done }
      else if (stale (scale P { s with flag := -1 }).trials : ℤ) ≥ P.lim.noImp then
        { scale P { s with flag := -1 } with flag := 2, pc := .done }
      else if reached P (scale P { s with flag := -1 }).trials then
        { scale P { s with flag := -1 } with flag := 3, pc := .done }
      else trial P .plus (entered P s).thetaPlus (entered P s) := rfl
  have htr : (scale P { s with flag := -1 }).trials = s.trials := scale_trials P _
  rw [hst, hhead]
  by_cases h1 : (s.trials.length : ℤ) ≥ P.lim.maxProf
  · rw [if_pos h1]
    exact Or.inr ⟨by simp [not_lt.mpr h1], s, 1, Or.inl rfl, rfl⟩
  rw [if_neg h1]
  by_cases h2 : (stale s.trials : ℤ) ≥ P.lim.noImp
  · rw [if_pos (by rw [htr]; exact h2)]
    exact Or.inr ⟨by simp [not_lt.mpr h2], _, 2, Or.inr rfl, rfl⟩
  rw [if_neg (by rw [htr]; exact h2)]
  by_cases h3 : reached P s.trials = true
  · rw [if_pos (by rw [htr]; exact h3)]
    exact Or.inr ⟨by simp [h3], _, 3, Or.inr rfl, rfl⟩
  · rw [if_neg (by rw [htr]; exact h3)]
    exact Or.inl ⟨by simp [not_le.mp h1, not_le.mp h2, h3], rfl⟩

theorem sound_head {P : Setup K} {s : Search K} (h : Sound P s) (hpc : s.pc = .head) :
    Sound P (head P s) := by
  have hleft := (h.head hpc).2
  rcases head_cases P s with ⟨h1, e1, e2, e3⟩ | ⟨h1, h2, e1, e2, e3⟩ | ⟨h1, h2, e1, e2, e3⟩ |
    ⟨h1, -, h3, s', e3, e⟩
  · exact sound_of_done e1 (Or.inl ⟨e2, e3 ▸ h1⟩) (e3 ▸ hleft)
  · exact sound_of_done e1 (Or.inr (Or.inl ⟨e2, e3 ▸ h1, e3 ▸ h2⟩)) (e3 ▸ hleft)
  · exact sound_of_done e1 (Or.inr (Or.inr ⟨e2, e3 ▸ h2⟩)) (e3 ▸ hleft)
  · rw [e]
    refine sound_trial ?_ (by rw [e3]; exact h3)
    show s'.trials.length % 3 = 0 ∧ (s'.trials.length : ℤ) < P.lim.maxProf
    rw [e3]
    exact ⟨(h.head hpc).1, h1⟩

/-! ### A step -/

theorem step_of_ended (P : Setup K) {s : Search K} (h : s.pc.running = false) : step P s = s := by
  unfold step
  split
  · rename_i hpc; rw [hpc] at h; cases h
  · rename_i hpc; rw [hpc] at h; cases h
  · rename_i hpc; rw [hpc] at h; cases h
  · rfl
  · rfl

/-- A step keeps a search sound. -/
theorem sound_step {P : Setup K} {s : Search K} (h : Sound P s) : Sound P (step P s) := by
  unfold step
  split
  · rename_i hpc; exact sound_head h hpc
  · rename_i hpc
    obtain ⟨h1, h2, h3⟩ := h.minus hpc
    exact sound_trial ⟨h1, h2⟩ h3
  · rename_i hpc; exact sound_star h hpc
  · exact h
  · exact h

/-- A step starts a test, or is the last of its search. -/
theorem step_cases (P : Setup K) (s : Search K) :
    (starts P s = false ∧ (step P s).trials = s.trials ∧ (step P s).pc.running = false) ∨
      (starts P s = true ∧ ∃ (m : Marker) (pt : K × K) (s' : Search K), s'.trials = s.trials ∧
        (step P s).trials = (trial P m pt s').trials ∧ (step P s).pc = (trial P m pt s').pc) := by
  unfold step starts
  split
  · rcases head_cases P s with ⟨h1, e1, -, e3⟩ | ⟨-, h2, e1, -, e3⟩ | ⟨-, h3, e1, -, e3⟩ |
      ⟨h1, h2, h3, s', e3, e⟩
    · left; exact ⟨by simp [h1], e3, by rw [e1]; rfl⟩
    · left; exact ⟨by simp [h2], e3, by rw [e1]; rfl⟩
    · left; exact ⟨by simp [h3], e3, by rw [e1]; rfl⟩
    · right; exact ⟨by simp [h1, h2, h3], .plus, _, s', e3, by rw [e], by rw [e]⟩
  · right; exact ⟨rfl, .minus, _, s, rfl, rfl, rfl⟩
  · right; exact ⟨rfl, .star, _, climb P s, rfl, star_trials P s, star_pc P s⟩
  · rename_i hpc; left; exact ⟨rfl, rfl, by rw [hpc]; rfl⟩
  · rename_i r hpc; left; exact ⟨rfl, rfl, by rw [hpc]; rfl⟩

/-- A step of a running search makes one test, or is its last. -/
theorem step_trials (P : Setup K) (s : Search K) :
    (step P s).trials = s.trials ∧ (step P s).pc.running = false ∨
      s.pc.running = true ∧ ∃ t, (step P s).trials = s.trials ++ [t] := by
  rcases step_cases P s with ⟨-, h⟩ | ⟨hst, m, pt, s', htr, h1, h2⟩
  · exact Or.inl h
  · rcases trial_trials P m pt s' with ⟨h3, h4⟩ | ⟨t, h3⟩
    · left; rw [h1, h2, h3, htr, h4]; exact ⟨rfl, rfl⟩
    · right; exact ⟨running_of_starts hst, t, by rw [h1, h3, htr]⟩

/-- An iteration starts at the best point so far. -/
theorem restart_of_head {P : Setup K} {s : Search K} (hpc : (step P s).pc = .head) :
    (step P s).theta = restart (step P s).trials := by
  have hnot : ∀ (m : Marker) (pt : K × K) (s' : Search K), m ≠ .star →
      (trial P m pt s').pc ≠ .head := by
    intro m pt s' hm
    rcases trial_cases P m pt s' with ⟨-, he⟩ | ⟨t, -, -, -, ⟨-, he⟩ | ⟨-, -, he⟩ | ⟨-, he⟩⟩ <;>
      rw [he] <;> cases m <;> simp [Marker.next] at hm ⊢
  rcases hs : s.pc with _ | _ | _ | _ | r
  · have hstep := step_of_head P hs
    rw [hstep] at hpc
    rcases head_cases P s with ⟨-, e1, -⟩ | ⟨-, -, e1, -⟩ | ⟨-, -, e1, -⟩ | ⟨-, -, -, s', -, e⟩
    · rw [e1] at hpc; cases hpc
    · rw [e1] at hpc; cases hpc
    · rw [e1] at hpc; cases hpc
    · rw [e] at hpc; exact absurd hpc (hnot _ _ _ (by simp))
  · have hstep := step_of_minus P hs
    rw [hstep] at hpc
    exact absurd hpc (hnot _ _ _ (by simp))
  · have hstep := step_of_star P hs
    rw [hstep] at hpc ⊢
    rw [star_pc] at hpc
    unfold star
    simp only [hpc, ↓reduceIte]
  · have hstep := step_of_ended P (s := s) (by rw [hs]; rfl)
    rw [hstep, hs] at hpc; cases hpc
  · have hstep := step_of_ended P (s := s) (by rw [hs]; rfl)
    rw [hstep, hs] at hpc; cases hpc

/-! ### A run -/

theorem run_succ (P : Setup K) (n : ℕ) : run P (n + 1) = step P (run P n) :=
  Function.iterate_succ_apply' _ _ _

theorem sound_run (P : Setup K) (n : ℕ) : Sound P (run P n) := by
  induction n with
  | zero => exact sound_start P
  | succ n ih => rw [run_succ]; exact sound_step ih

/-- A running search has made one test a step. -/
theorem run_length {P : Setup K} {n : ℕ} (h : (run P n).pc.running = true) :
    (run P n).trials.length = n := by
  induction n with
  | zero => rfl
  | succ n ih =>
    rw [run_succ] at h ⊢
    rcases step_trials P (run P n) with ⟨-, he⟩ | ⟨hr, t, ht⟩
    · rw [he] at h; cases h
    · rw [ht, List.length_append, ih hr]; rfl

/-- A search ends: it makes fewer than `N + 3` tests. -/
theorem run_ends (P : Setup K) : (run P (P.lim.maxProf.toNat + 3)).pc.running = false := by
  by_contra hr
  have hr' : (run P (P.lim.maxProf.toNat + 3)).pc.running = true := by simpa using hr
  have hlen := run_length hr'
  have hne : (run P (P.lim.maxProf.toNat + 3)).trials ≠ [] := by
    intro h0; rw [h0] at hlen; simp at hlen
  have := (sound_run P (P.lim.maxProf.toNat + 3)).bound hne
  omega

/-- With a limit that is not positive a search makes no test. -/
theorem run_trials_of_nonpos {P : Setup K} (hN : P.lim.maxProf ≤ 0) (n : ℕ) :
    (run P n).trials = [] := by
  induction n with
  | zero => rfl
  | succ n ih =>
    have hS := sound_run P n
    have h0 : (run P n).trials.length = 0 := by rw [ih]; rfl
    rw [run_succ]
    unfold step
    split
    · rcases head_cases P (run P n) with ⟨-, -, -, e3⟩ | ⟨h, -⟩ | ⟨h, -⟩ | ⟨h, -⟩
      · rw [e3, ih]
      all_goals omega
    · rename_i hpc; have := (hS.minus hpc).1; omega
    · rename_i hpc; have := (hS.star hpc).1; omega
    · exact ih
    · exact ih

/-- Without failures the loop is left by a `break` only. -/
theorem run_pc_of_good {P : Setup K} (hP : P.out.Good) (n : ℕ) (r : ℤ) :
    (run P n).pc ≠ .ret r := by
  induction n with
  | zero =>
    rw [show run P 0 = start P from rfl]
    simp [start, hP.openLog]
  | succ n ih =>
    rw [run_succ]
    have hnot : ∀ (m : Marker) (pt : K × K) (s' : Search K), (trial P m pt s').pc ≠ .ret r := by
      intro m pt s'
      rcases trial_pc_of_good hP m pt s' with he | he <;> rw [he]
      · simp
      · cases m <;> simp [Marker.next]
    unfold step
    split
    · rcases head_cases P (run P n) with ⟨-, e1, -⟩ | ⟨-, -, e1, -⟩ | ⟨-, -, e1, -⟩ |
        ⟨-, -, -, s', -, e⟩
      · rw [e1]; simp
      · rw [e1]; simp
      · rw [e1]; simp
      · rw [e]; exact hnot _ _ _
    · exact hnot _ _ _
    · rw [star_pc]; exact hnot _ _ _
    · exact ih
    · exact ih

end Search

end Fastprof
end Probdata
