/-
# The turns of a search

What can be seen of a search from outside: where its loop is after each step, whether
it pings the peer or sleeps, and whether it opens the file for a record.

A search whose log cannot be opened, or whose limits are not positive, takes the
same turns for every bandwidth (`turns_of_not_begins`). Any other asks in its first
step whether a bandwidth is known, and there are two bandwidths for which it goes on
differently (`exists_turns_ne`).
-/
import Probdata.Fastprof.SearchRun

namespace Probdata
namespace Fastprof

/-- A step of a search: where it starts from, whether an iteration begins with a ping
or a sleep, and whether the file of the history is opened. -/
structure Turn where
  pc : Pc
  flag : ℤ
  ping : Option Bool
  opens : Bool
  deriving DecidableEq, Repr

namespace Search

variable {K : Type*} [Field K] [LinearOrder K]

/-- The steps after which a search has ended (`run_ends`). -/
def steps (P : Setup K) : ℕ := P.lim.maxProf.toNat + 3

/-- The step from `s` to `s'`: the number of iterations grows where one begins. -/
def turn (P : Setup K) (s s' : Search K) : Turn where
  pc := s.pc
  flag := s.flag
  ping := if s.k < s'.k then some (0 ≤ P.ctrl.bwBps) else none
  opens := s.trials.length < s'.trials.length && P.out.composed s.trials.length

/-- The turns of a search whose states are those of `run`. -/
def turns (P : Setup K) (run : ℕ → Search K) : List Turn :=
  (List.range (steps P + 1)).map fun n => turn P (run n) (run (n + 1))

/-- Nothing keeps a search from its first iteration. -/
structure Begins (P : Setup K) : Prop where
  openLog : P.out.openLog = true
  maxProf : 0 < P.lim.maxProf
  noImp : 0 < P.lim.noImp

instance (P : Setup K) : Decidable (Begins P) :=
  decidable_of_iff (P.out.openLog = true ∧ 0 < P.lim.maxProf ∧ 0 < P.lim.noImp)
    ⟨fun h => ⟨h.1, h.2.1, h.2.2⟩, fun h => ⟨h.openLog, h.maxProf, h.noImp⟩⟩

/-- Where a search that does not begin is after `n` steps. -/
def idle (P : Setup K) (n : ℕ) : Pc × ℤ :=
  if P.out.openLog = true then
    if n = 0 then (.head, -1) else (.done, if P.lim.maxProf ≤ 0 then 1 else 2)
  else (.ret (-1), -1)

variable [FloorRing K] {P : Setup K}

/-- The head of the loop, where a limit is exhausted before the first test. -/
theorem head_of_not_begins {s : Search K} (hopen : P.out.openLog = true) (h : ¬ Begins P)
    (htr : s.trials = []) : ((head P s).pc, (head P s).flag) = idle P 1 ∧
      (head P s).trials = [] ∧ (head P s).k = s.k ∧ (head P s).rtt = s.rtt := by
  have h0 : (s.trials.length : ℤ) = 0 := by rw [htr]; rfl
  rw [idle, if_pos hopen, if_neg Nat.one_ne_zero]
  unfold head
  dsimp only
  by_cases hN : P.lim.maxProf ≤ 0
  · rw [if_pos (by omega), if_pos hN]
    exact ⟨rfl, htr, rfl, rfl⟩
  · have hL : P.lim.noImp ≤ 0 := not_lt.mp fun hL => h ⟨hopen, not_le.mp hN, hL⟩
    have htr' : (scale P { s with flag := -1 }).trials = [] := (scale_trials P _).trans htr
    have hscale : (scale P { s with flag := -1 }).k = s.k ∧
        (scale P { s with flag := -1 }).rtt = s.rtt := by
      unfold scale
      split <;> exact ⟨rfl, rfl⟩
    have hstale : (stale (scale P { s with flag := -1 }).trials : ℤ) ≥ P.lim.noImp := by
      rw [htr', stale_nil]
      exact hL
    rw [if_neg (by omega), if_neg hN, if_pos hstale]
    exact ⟨rfl, htr', hscale.1, hscale.2⟩

/-- A search that does not begin leaves everything as it was. -/
theorem run_of_not_begins (h : ¬ Begins P) (n : ℕ) :
    ((run P n).pc, (run P n).flag) = idle P n ∧ (run P n).trials = [] ∧ (run P n).k = 0 ∧
      (run P n).rtt = P.ctrl.rttMs := by
  induction n with
  | zero =>
    refine ⟨?_, rfl, rfl, rfl⟩
    change ((if P.out.openLog then Pc.head else .ret (-1)), (-1 : ℤ)) = _
    unfold idle
    split <;> rfl
  | succ n ih =>
    obtain ⟨hpc, htr, hk, hrtt⟩ := ih
    have hpc1 := congrArg Prod.fst hpc
    rw [run_succ]
    by_cases hopen : P.out.openLog = true
    · cases n with
      | zero =>
        have hhead : (run P 0).pc = .head := if_pos hopen
        have hstep := step_of_head P hhead
        obtain ⟨h1, h2, h3, h4⟩ := head_of_not_begins hopen h htr
        rw [hstep]
        exact ⟨h1, h2, h3.trans hk, h4.trans hrtt⟩
      | succ n =>
        have hidle : ∀ n, idle P (n + 1) = (.done, if P.lim.maxProf ≤ 0 then 1 else 2) := fun n => by
          rw [idle, if_pos hopen, if_neg (Nat.succ_ne_zero n)]
        have hdone : (run P (n + 1)).pc = .done := hpc1.trans (by rw [hidle])
        rw [step_of_ended P (by rw [hdone]; rfl)]
        exact ⟨hpc.trans ((hidle n).trans (hidle (n + 1)).symm), htr, hk, hrtt⟩
    · have hidle : ∀ n, idle P n = (.ret (-1), -1) := fun n => if_neg hopen
      have hret : (run P n).pc = .ret (-1) := hpc1.trans (by rw [hidle])
      rw [step_of_ended P (by rw [hret]; rfl)]
      exact ⟨hpc.trans ((hidle n).trans (hidle (n + 1)).symm), htr, hk, hrtt⟩

/-- A search that does not begin takes the same turns for every bandwidth. -/
theorem turns_of_not_begins {P' : Setup K} (h : ¬ Begins P) (hlim : P.lim = P'.lim)
    (hopen : P.out.openLog = P'.out.openLog) : turns P (run P) = turns P' (run P') := by
  have h' : ¬ Begins P' := fun hb => h ⟨hopen ▸ hb.openLog, hlim ▸ hb.maxProf, hlim ▸ hb.noImp⟩
  have hidle : ∀ n, idle P n = idle P' n := fun n => by rw [idle, hopen, hlim, idle]
  have hsteps : steps P = steps P' := by rw [steps, hlim, steps]
  have hturn : ∀ {P : Setup K}, ¬ Begins P → ∀ n, turn P (run P n) (run P (n + 1)) =
      ⟨(idle P n).1, (idle P n).2, none, false⟩ := fun {P} hP n => by
    obtain ⟨hpc, htr, hk, -⟩ := run_of_not_begins hP n
    obtain ⟨-, htr', hk', -⟩ := run_of_not_begins hP (n + 1)
    rw [turn, hk, hk', htr, htr', ← hpc, if_neg (lt_irrefl 0)]
    rfl
  rw [turns, turns, hsteps]
  refine List.map_congr_left fun n _ => ?_
  rw [hturn h, hturn h', hidle]

/-- An iteration begins in the step from the head exactly if a test is started there. -/
theorem head_k {s : Search K} (hpc : s.pc = .head) :
    (head P s).k = if starts P s = true then s.k + 1 else s.k := by
  have hscale : ∀ s : Search K, (scale P s).k = s.k := fun s => by unfold scale; split <;> rfl
  rcases head_eq P hpc with ⟨hst, he⟩ | ⟨hst, s0, f, hs0, he⟩
  · rw [he, trial_frame, if_pos hst]
    exact congrArg (· + 1) (hscale { s with flag := -1 })
  · rw [he, hst, if_neg (by decide)]
    rcases hs0 with rfl | rfl
    · rfl
    · exact hscale _

/-- The first turn of a search that begins: it pings or sleeps, unless the ratio is
reached already. -/
theorem turns_head (h : Begins P) : (turns P (run P)).head?.map Turn.ping =
    some (if reached P [] = true then none else some (decide (0 ≤ P.ctrl.bwBps))) := by
  have hhead : (run P 0).pc = .head := if_pos h.openLog
  have hstep : run P 1 = head P (run P 0) := by
    rw [run_succ]
    unfold step
    rw [hhead]
  have hturns : (turns P (run P)).head? = some (turn P (run P 0) (run P 1)) := by
    rw [turns, List.range_succ_eq_map]
    rfl
  have hstarts : starts P (run P 0) = !reached P [] := by
    have hstale : (stale (run P 0).trials : ℤ) < P.lim.noImp := by
      rw [show (run P 0).trials = [] from rfl, stale_nil]
      exact h.noImp
    have hlen : ((run P 0).trials.length : ℤ) < P.lim.maxProf := h.maxProf
    unfold starts
    rw [hhead]
    simp only [hlen, hstale, decide_true, Bool.true_and]
    rfl
  rw [hturns, Option.map_some, turn, hstep, head_k hhead, hstarts]
  cases reached P [] <;> simp

variable [IsStrictOrderedRing K]

omit [FloorRing K] in
/-- Whether the ratio is reached before the first test: the quotient is 0, or, over a
bandwidth of 0, not a number. -/
theorem reached_nil : reached P [] =
    (decide (P.ctrl.bwBps ≠ 0) && decide (P.lim.perfGainRatio ≤ 0)) := by
  have hGB : ((fGB : ℤ) : K) ≠ 0 := Int.cast_ne_zero.mpr (by decide)
  have hbw : P.ctrl.bwGbps = 0 ↔ P.ctrl.bwBps = 0 := by
    rw [FastprofCtrl.bwGbps, div_eq_zero_iff, or_iff_left hGB]
  rw [reached, bestGbps_nil, pgrReached]
  by_cases h0 : P.ctrl.bwBps = 0
  · rw [if_pos (hbw.mpr h0)]
    simp [h0]
  · rw [if_neg fun h => h0 (hbw.mp h), zero_div]
    simp [h0]

/-- For two bandwidths a search that begins goes on differently. -/
theorem exists_turns_ne (lim : Limits K) : ∃ b b' : K, ∀ Q Q' : Setup K, Begins Q → Begins Q' →
    Q.lim = lim → Q'.lim = lim → Q.ctrl.bwBps = b → Q'.ctrl.bwBps = b' →
      (turns Q (run Q)).head? ≠ (turns Q' (run Q')).head? := by
  have hping : ∀ Q : Setup K, Begins Q → Q.lim = lim → ∀ b, Q.ctrl.bwBps = b →
      (turns Q (run Q)).head?.map Turn.ping =
        some (if b ≠ 0 ∧ lim.perfGainRatio ≤ 0 then none else some (decide (0 ≤ b))) := by
    rintro Q hQ hlim b rfl
    rw [turns_head hQ, reached_nil, hlim]
    simp
  by_cases hratio : lim.perfGainRatio ≤ 0
  · -- over a bandwidth of 0 the ratio is not reached
    refine ⟨0, 1, fun Q Q' hQ hQ' hlim hlim' hb hb' he => ?_⟩
    have hne := (hping Q hQ hlim 0 hb).symm.trans
      ((congrArg _ he).trans (hping Q' hQ' hlim' 1 hb'))
    simp [hratio] at hne
  · refine ⟨-1, 1, fun Q Q' hQ hQ' hlim hlim' hb hb' he => ?_⟩
    have hne := (hping Q hQ hlim (-1) hb).symm.trans
      ((congrArg _ he).trans (hping Q' hQ' hlim' 1 hb'))
    have hneg : ¬ (0 : K) ≤ -1 := by simp
    simp [hratio, hneg] at hne

end Search

end Fastprof
end Probdata
