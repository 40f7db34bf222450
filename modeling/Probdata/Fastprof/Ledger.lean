/-
# The counters of a search

What a loop keeps in variables and the search computes from its tests: the
number of tests, the best throughput and its point, the tests since the last
improvement, the throughputs of the iteration. `Ledger.Exact` says that the
variables hold the computed values; a test that the loop counts and compares
keeps them exact (`Ledger.Exact.better`, `Ledger.Exact.worse`).
-/
import Probdata.Fastprof.Search

namespace Probdata
namespace Fastprof

variable {K : Type*} [Field K] [LinearOrder K]

theorem bestGbps_nonneg (ts : List (Trial K)) : 0 ≤ bestGbps ts := Running.le_best _ _

theorem bestGbps_nil : bestGbps ([] : List (Trial K)) = 0 := rfl

theorem stale_nil : stale ([] : List (Trial K)) = 0 := Running.sinceImp_nil 0

theorem restart_nil : restart ([] : List (Trial K)) = (0, 0) := by simp [restart, bestGbps_nil]

/-! ### One more test -/

theorem bestGbps_snoc_of_lt {ts : List (Trial K)} {t : Trial K} (h : bestGbps ts < t.gbps) :
    bestGbps (ts ++ [t]) = t.gbps := by
  rw [bestGbps, gbps_snoc]; exact Running.best_snoc_of_lt h

theorem bestGbps_snoc_of_le {ts : List (Trial K)} {t : Trial K} (h : t.gbps ≤ bestGbps ts) :
    bestGbps (ts ++ [t]) = bestGbps ts := by
  rw [bestGbps, gbps_snoc]; exact Running.best_snoc_of_le h

theorem stale_snoc_of_lt {ts : List (Trial K)} {t : Trial K} (h : bestGbps ts < t.gbps) :
    stale (ts ++ [t]) = 0 := by
  rw [stale, gbps_snoc]; exact Running.sinceImp_snoc_of_lt h

theorem stale_snoc_of_le {ts : List (Trial K)} {t : Trial K} (h : t.gbps ≤ bestGbps ts) :
    stale (ts ++ [t]) = stale ts + 1 := by
  rw [stale, gbps_snoc]; exact Running.sinceImp_snoc_of_le h

theorem firstBest_snoc_of_lt {ts : List (Trial K)} {t : Trial K} (h : bestGbps ts < t.gbps) :
    firstBest (ts ++ [t]) = some t := by
  rw [firstBest, gbps_snoc, Running.firstBest_snoc_of_lt h, gbps_length]
  simp

theorem firstBest_snoc_of_le {ts : List (Trial K)} {t : Trial K} (h : t.gbps ≤ bestGbps ts)
    (hpos : 0 < bestGbps ts) : firstBest (ts ++ [t]) = firstBest ts := by
  have hlt : Running.firstBest 0 (gbps ts) < ts.length := by
    simpa using Running.firstBest_lt hpos
  rw [firstBest, gbps_snoc, Running.firstBest_snoc_of_le h hpos, List.getElem?_append_left hlt]
  rfl

theorem restart_snoc_of_lt {ts : List (Trial K)} {t : Trial K} (h : bestGbps ts < t.gbps) :
    restart (ts ++ [t]) = t.theta := by
  have hpos : 0 < bestGbps (ts ++ [t]) := by
    rw [bestGbps_snoc_of_lt h]; exact lt_of_le_of_lt (bestGbps_nonneg ts) h
  rw [restart, if_pos hpos, firstBest_snoc_of_lt h]
  rfl

theorem restart_snoc_of_le {ts : List (Trial K)} {t : Trial K} (h : t.gbps ≤ bestGbps ts) :
    restart (ts ++ [t]) = restart ts := by
  unfold restart
  rw [bestGbps_snoc_of_le h]
  split
  · rename_i hpos
    rw [firstBest_snoc_of_le h hpos]
  · rfl

/-- The first best test is one of the tests, reaches the best throughput, and
is preceded by smaller ones only. -/
theorem firstBest_spec {ts : List (Trial K)} (h : 0 < bestGbps ts) :
    ∃ pre t post, ts = pre ++ t :: post ∧ firstBest ts = some t ∧ t.gbps = bestGbps ts ∧
      ∀ u ∈ pre, u.gbps < t.gbps := by
  have hlt : Running.firstBest 0 (gbps ts) < (gbps ts).length := Running.firstBest_lt h
  have hlt' : Running.firstBest 0 (gbps ts) < ts.length := by simpa using hlt
  set i := Running.firstBest 0 (gbps ts) with hi
  have hbest : (ts[i]).gbps = bestGbps ts := by
    rw [bestGbps, ← Running.getElem_firstBest hlt]
    simp only [gbps, List.getElem_map]
    rfl
  refine ⟨ts.take i, ts[i], ts.drop (i + 1), ?_, ?_, hbest, fun u hu => ?_⟩
  · rw [← List.drop_eq_getElem_cons hlt', List.take_append_drop]
  · rw [firstBest, ← hi, List.getElem?_eq_getElem hlt']
  · obtain ⟨j, hj, rfl⟩ := List.mem_take_iff_getElem.mp hu
    have hji : j < i := lt_of_lt_of_le hj (min_le_left _ _)
    have hjl : j < (gbps ts).length := by simpa using lt_of_lt_of_le hj (min_le_right _ _)
    have := Running.lt_best_of_lt_firstBest hji hjl
    rw [hbest]
    simpa [gbps, bestGbps] using this

/-! ### The variables -/

/-- The counters of a loop. -/
structure Ledger (K : Type*) where
  profileNum : ℤ
  noImpCounter : ℤ
  visited : ℕ
  history : ℕ
  maxPerf : K
  maxTheta : K × K
  yPlus : K
  yMinus : K

/-- The counters hold what the search computes from its tests; before its
second and its third test the throughputs of the iteration are at hand. -/
structure Ledger.Exact (l : Ledger K) (pc : Pc) (ts : List (Trial K)) : Prop where
  profileNum : l.profileNum = ts.length
  noImpCounter : l.noImpCounter = stale ts
  visited : l.visited = ts.length
  history : l.history = ts.length
  maxPerf : l.maxPerf = bestGbps ts
  maxTheta : l.maxTheta = restart ts
  yMinus : pc = .minus → (ts[ts.length - 1]?).map Trial.gbps = some l.yPlus
  yStar : pc = .star → (ts[ts.length - 2]?).map Trial.gbps = some l.yPlus ∧
    (ts[ts.length - 1]?).map Trial.gbps = some l.yMinus

/-- The throughputs of the iteration after a test that measured `y`. -/
def Ledger.setY (l : Ledger K) (m : Marker) (y : K) : Ledger K :=
  match m with
  | .plus => { l with yPlus := y }
  | .minus => { l with yMinus := y }
  | .star => l

/-- The counters after a test at `pt` that measured `y` Gb/s. -/
def Ledger.count (l : Ledger K) (m : Marker) (pt : K × K) (y : K) : Ledger K :=
  { l.setY m y with
    profileNum := l.profileNum + 1
    visited := l.visited + 1
    history := l.history + 1
    maxPerf := if y > l.maxPerf then y else l.maxPerf
    maxTheta := if y > l.maxPerf then pt else l.maxTheta
    noImpCounter := if y > l.maxPerf then 0 else l.noImpCounter + 1 }

/-- The tests of an iteration come in order. -/
def Marker.follows : Marker → Pc → Prop
  | .plus, pc => pc = .head
  | .minus, pc => pc = .minus
  | .star, pc => pc = .star

theorem Ledger.Exact.ofPc {l : Ledger K} {pc pc' : Pc} {ts : List (Trial K)} (h : l.Exact pc ts)
    (h1 : pc' ≠ .minus) (h2 : pc' ≠ .star) : l.Exact pc' ts :=
  { h with yMinus := fun he => absurd he h1, yStar := fun he => absurd he h2 }

/-- A counted test keeps the counters exact. -/
theorem Ledger.Exact.count {l : Ledger K} {pc : Pc} {ts : List (Trial K)} (h : l.Exact pc ts)
    {m : Marker} (hm : m.follows pc) (t : Trial K) :
    (l.count m t.theta t.gbps).Exact m.next (ts ++ [t]) where
  profileNum := by simp [Ledger.count, h.profileNum]
  visited := by simp [Ledger.count, h.visited]
  history := by simp [Ledger.count, h.history]
  noImpCounter := by
    simp only [Ledger.count, h.maxPerf, h.noImpCounter]
    split
    · rename_i hy; rw [stale_snoc_of_lt hy]; rfl
    · rename_i hy; rw [stale_snoc_of_le (not_lt.mp hy)]; push_cast; rfl
  maxPerf := by
    simp only [Ledger.count, h.maxPerf]
    split
    · rename_i hy; rw [bestGbps_snoc_of_lt hy]
    · rename_i hy; rw [bestGbps_snoc_of_le (not_lt.mp hy)]
  maxTheta := by
    simp only [Ledger.count, h.maxPerf, h.maxTheta]
    split
    · rename_i hy; rw [restart_snoc_of_lt hy]
    · rename_i hy; rw [restart_snoc_of_le (not_lt.mp hy)]
  yMinus := by cases m <;> simp [Marker.next, Ledger.count, Ledger.setY]
  yStar := by
    cases m with
    | plus => simp [Marker.next]
    | star => simp [Marker.next]
    | minus =>
      -- the first throughput of the iteration was the last one before
      intro _
      have hsome := h.yMinus hm
      have hpos : 0 < ts.length := by
        rcases ts with _ | ⟨_, _⟩
        · simp at hsome
        · simp
      have hprev : (ts ++ [t]).length - 2 = ts.length - 1 := by simp
      rw [hprev, List.getElem?_append_left (by omega)]
      exact ⟨hsome, by simp [Ledger.count, Ledger.setY]⟩

end Fastprof
end Probdata
