/-
# The smoothed round-trip time of a search

Each iteration of a search with a bandwidth pings the peer and mixes the sample into
`ctrl->rtt_ms`, for the first sample in place of an unknown one. So the round-trip
time lies between the samples taken (`smoothed_run`), and `BDP_B` between the
products that these give (`bdpB_between`).
-/
import Probdata.Lib.Smoothed
import Probdata.Fastprof.Turns
import Probdata.Fastprof.Window

namespace Probdata
namespace Fastprof

variable {K : Type*} [Field K] [LinearOrder K] {r0 r : K} {ps : List K}

section

variable [IsStrictOrderedRing K]

theorem smoothRtt_smoothed (h : Smoothed r0 ps r) (p : K) :
    Smoothed r0 (ps ++ [p]) (smoothRtt r p) := by
  unfold smoothRtt
  by_cases hp : p < 0
  · rw [if_pos hp]
    exact h.fails hp
  rw [if_neg hp]
  have hp := not_lt.mp hp
  by_cases hr : r < 0
  · rw [if_pos hr]
    exact .first r0 ps hp
  · rw [if_neg hr]
    refine h.mixes (not_lt.mp hr) hp ?_ ?_
    · have h1 := min_le_left r p
      have h2 := min_le_right r p
      linarith
    · have h1 := le_max_left r p
      have h2 := le_max_right r p
      linarith

/-! ### The product -/

variable {bw : K}

theorem bdpB_nonneg_iff (hbw : 0 ≤ bw) : 0 ≤ bdpB bw r ↔ 0 ≤ r := by
  refine ⟨fun h => ?_, bdpB_nonneg hbw⟩
  by_contra hr
  rw [bdpB, if_neg (not_lt.mpr hbw), if_pos (not_le.mp hr)] at h
  exact absurd h (not_le.mpr neg_one_lt_zero)

theorem bdpB_mono (hbw : 0 ≤ bw) {p q : K} (hp : 0 ≤ p) (h : p ≤ q) : bdpB bw p ≤ bdpB bw q := by
  rw [bdpB_of_known hbw hp, bdpB_of_known hbw (hp.trans h)]
  gcongr

/-- The product of a known round-trip time lies between those of two samples. -/
theorem bdpB_between (hbw : 0 ≤ bw) (h : Smoothed r0 ps r) (hr : 0 ≤ r) :
    ∃ lo ∈ r0 :: ps, ∃ hi ∈ r0 :: ps, 0 ≤ lo ∧ 0 ≤ hi ∧
      lo * (1 / 1000) * (bw / 8) ≤ bdpB bw r ∧ bdpB bw r ≤ hi * (1 / 1000) * (bw / 8) := by
  obtain ⟨lo, hlo, hlo0, hlor⟩ := h.lower hr
  obtain ⟨hi, hhi, hhi0, hrhi⟩ := h.upper hr
  have hlow := bdpB_mono hbw hlo0 hlor
  have hup := bdpB_mono hbw hr hrhi
  rw [bdpB_of_known hbw hlo0] at hlow
  rw [bdpB_of_known hbw hhi0] at hup
  exact ⟨lo, hlo, hi, hhi, hlo0, hhi0, hlow, hup⟩

end

namespace Search

variable [FloorRing K] {P : Setup K}

/-- What the pings of the iterations so far have returned. -/
def pings (P : Setup K) (s : Search K) : List K :=
  if P.ctrl.bwBps < 0 then [] else (List.range s.k).map P.out.ping

theorem k_step (P : Setup K) (s : Search K) : (step P s).k =
    if s.pc = .head ∧ starts P s = true then s.k + 1 else s.k := by
  rcases hpc : s.pc with _ | _ | _ | _ | r
  · rw [step_of_head P hpc, head_k hpc]
    simp
  · rw [step_of_minus P hpc, trial_frame, if_neg (by simp)]
  · rw [step_of_star P hpc, if_neg (by simp)]
    unfold star
    dsimp only
    split <;> rw [trial_frame] <;> rfl
  · rw [step_of_ended P (s := s) (by rw [hpc]; rfl), if_neg (by simp)]
  · rw [step_of_ended P (s := s) (by rw [hpc]; rfl), if_neg (by simp)]

/-- A step begins an iteration, with a ping if there is a bandwidth, or leaves the
round-trip time as it is. -/
theorem step_rtt_cases (P : Setup K) (s : Search K) :
    ((step P s).k = s.k ∧ (step P s).rtt = s.rtt) ∨
      ((step P s).k = s.k + 1 ∧ (step P s).rtt = pingRtt P.ctrl.bwBps s.rtt (P.out.ping s.k)) := by
  rw [k_step, rtt_step]
  split
  · exact Or.inr ⟨rfl, rfl⟩
  · exact Or.inl ⟨rfl, rfl⟩

/-- A ping that fails leaves the round-trip time as it is. -/
theorem rtt_of_failed {s : Search K} (hp : P.out.ping s.k < 0) : (step P s).rtt = s.rtt := by
  rcases step_rtt_cases P s with ⟨-, hr⟩ | ⟨-, hr⟩
  · exact hr
  · rw [hr, pingRtt, smoothRtt, if_pos hp, ite_self]

variable [IsStrictOrderedRing K]

theorem rtt_nonneg_step {s : Search K} (h : 0 ≤ s.rtt) : 0 ≤ (step P s).rtt := by
  rcases step_rtt_cases P s with ⟨-, hr⟩ | ⟨-, hr⟩ <;> rw [hr]
  · exact h
  · exact pingRtt_nonneg h

/-- The round-trip time of a search lies between the samples, its own and those
before it. -/
theorem smoothed_step {s : Search K} (h : Smoothed r0 (ps ++ pings P s) s.rtt) :
    Smoothed r0 (ps ++ pings P (step P s)) (step P s).rtt := by
  rcases step_rtt_cases P s with ⟨hk, hr⟩ | ⟨hk, hr⟩
  · rw [pings, hk, hr]
    exact h
  rw [hr, pings, hk]
  rw [pings] at h
  by_cases hbw : P.ctrl.bwBps < 0
  · rw [if_pos hbw] at h ⊢
    rw [pingRtt, if_pos hbw]
    exact h
  · rw [if_neg hbw] at h ⊢
    rw [pingRtt, if_neg hbw, List.range_succ, List.map_append, ← List.append_assoc]
    exact smoothRtt_smoothed h _

theorem smoothed_run (h : Smoothed r0 ps P.ctrl.rttMs) (n : ℕ) :
    Smoothed r0 (ps ++ pings P (run P n)) (run P n).rtt := by
  induction n with
  | zero =>
    have hpings : pings P (run P 0) = [] := by
      unfold pings
      split
      · rfl
      · exact congrArg (List.map _) List.range_zero
    rw [hpings, List.append_nil]
    exact h
  | succ n ih =>
    rw [run_succ]
    exact smoothed_step ih

end Search

end Fastprof
end Probdata
