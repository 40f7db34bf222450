/-
# What a search leaves behind of its tests

Each test that is counted leaves a line in the history and a row of the visited list.
Both are written before the next test programs the profile anew, so they hold the
parameters their own test was programmed with (`Vars.written_run`), other than what is
read of `prof_max` after the loop.
-/
import Probdata.Fastprof.BestTest

namespace Probdata
namespace Fastprof

/-- The protocol of a test, the two parameters it was programmed with, and its throughput. -/
structure Result (K : Type*) where
  protocol : Protocol
  tuned : ℤ × ℤ
  perfMbps : K
  deriving DecidableEq

/-- What a line of the history says of its test. -/
def HistoryLine.result {K : Type*} (l : HistoryLine K) : Result K where
  protocol := l.protocol
  tuned :=
    match l.protocol with
    | .tcp => (l.bufferSize, l.numStreams)
    | .udt => (l.blockSize, l.bufferSize)
  perfMbps := l.averagePerf

variable {K Prof Entry : Type*}

/-- The result of a test of the protocol `p`. -/
def Profiler.result (F : Profiler K Prof Entry) (p : Protocol) (t : Trial K) : Result K :=
  ⟨p, F.planned t, t.perfMbps⟩

/-- The lines that are composed tell what was measured, and with what. -/
def Profiler.Composes (F : Profiler K Prof Entry) (p : Protocol) : Prop :=
  ∀ y n q e, (F.compose (F.ran y n q e).1 (F.ran y n q e).2).result = ⟨p, F.setting e, y⟩

theorem tcpProfiler_composes [Field K] [LinearOrder K] [FloorRing K] (lib : IperfLib) (P : Setup K) :
    (tcpProfiler lib P).Composes .tcp := fun _ _ _ _ => rfl

theorem udtProfiler_composes [Field K] [LinearOrder K] [FloorRing K] (P : Setup K) :
    (udtProfiler P).Composes .udt := fun _ _ _ _ => rfl

namespace Vars

/-- The tests that were counted: a search that returns 0 out of a test has lost its
record. -/
def counted (s : Vars K Prof Entry) : List (Trial K) :=
  if s.pc = .ret 0 then (s.tests.map Test.trial).dropLast else s.tests.map Test.trial

theorem counted_of_ne {s : Vars K Prof Entry} (h : s.pc ≠ .ret 0) :
    s.counted = s.tests.map Test.trial := if_neg h

variable [Field K] [LinearOrder K]

/-- What stands in the history and in the visited list. -/
structure Written (F : Profiler K Prof Entry) (p : Protocol) (s : Vars K Prof Entry) : Prop where
  history : s.history.map HistoryLine.result = s.counted.map (F.result p)
  visited : s.visitedList.map (fun r => (r.value, r.perfMbps)) =
    s.counted.map fun t => (F.value t.window t.theta, t.perfMbps)

variable {F : Profiler K Prof Entry} {P : Setup K} {p : Protocol} {s : Vars K Prof Entry}

/-! ### A step, and its test -/

/-- Two states that differ in nothing that a test leaves behind, at the same place, or
both before the search returned. -/
structure Beside (s s' : Vars K Prof Entry) : Prop where
  pc : s'.pc = s.pc ∨ (∀ r, s.pc ≠ .ret r) ∧ ∀ r, s'.pc ≠ .ret r
  history : s'.history = s.history
  visitedList : s'.visitedList = s.visitedList
  tests : s'.tests = s.tests

/-- A step makes a test, or none. -/
inductive Stepped (F : Profiler K Prof Entry) (P : Setup K) (s s' : Vars K Prof Entry) : Prop
  | idle (h : Beside s s')
  | tested (m : Marker) (pt : K × K) (u : Vars K Prof Entry) (hpc : ∀ r, u.pc ≠ .ret r)
      (h : Beside s u) (h' : Beside (u.test F P m pt) s')

omit [Field K] [LinearOrder K] in
theorem Beside.refl (s : Vars K Prof Entry) : Beside s s := ⟨.inl rfl, rfl, rfl, rfl⟩

omit [Field K] [LinearOrder K] in
theorem Beside.running {s s' : Vars K Prof Entry} (h : Beside s s') (hpc : ∀ r, s.pc ≠ .ret r) :
    ∀ r, s'.pc ≠ .ret r := h.pc.elim (fun he => he ▸ hpc) And.right

theorem stepped_star (hpc : ∀ r, s.pc ≠ .ret r) : Stepped F P s (s.star F P) := by
  have hclimb : Beside s (s.climb P) := ⟨.inl rfl, rfl, rfl, rfl⟩
  refine .tested .star (s.climb P).theta (s.climb P) (hclimb.running hpc) hclimb ?_
  unfold star
  dsimp only
  split
  · exact ⟨.inl rfl, rfl, rfl, rfl⟩
  · exact .refl _

variable [FloorRing K]

theorem stepped_head (hpc : ∀ r, s.pc ≠ .ret r) : Stepped F P s (s.head F P) := by
  set s1 := ({ s with flag := -1 } : Vars K Prof Entry).scale P with hs1
  have hscale : Beside s s1 := by
    rw [hs1]
    unfold scale
    split <;> exact ⟨.inl rfl, rfl, rfl, rfl⟩
  have hret := hscale.running hpc
  unfold head
  dsimp only
  rw [← hs1]
  split
  · exact .idle ⟨.inr ⟨hpc, by simp⟩, rfl, rfl, rfl⟩
  split
  · exact .idle ⟨.inr ⟨hpc, by simp⟩, hscale.history, hscale.visitedList, hscale.tests⟩
  split
  · exact .idle ⟨.inr ⟨hpc, by simp⟩, hscale.history, hscale.visitedList, hscale.tests⟩
  · exact .tested .plus _ ((s1.measure P).perturb P) hret
      ⟨hscale.pc, hscale.history, hscale.visitedList, hscale.tests⟩ (.refl _)

theorem stepped_step (s : Vars K Prof Entry) : Stepped F P s (s.step F P) := by
  unfold step
  split
  · rename_i hpc
    exact stepped_head fun r => by rw [hpc]; simp
  · rename_i hpc
    exact .tested .minus _ s (fun r => by rw [hpc]; simp) (.refl s) (.refl _)
  · rename_i hpc
    exact stepped_star fun r => by rw [hpc]; simp
  · exact .idle (.refl s)
  · exact .idle (.refl s)

/-! ### What a test leaves -/

omit [Field K] [LinearOrder K] [FloorRing K] in
theorem Written.beside {s s' : Vars K Prof Entry} (hb : Beside s s') (hs : s.Written F p) :
    s'.Written F p := by
  have hcounted : s'.counted = s.counted := by
    rcases hb.pc with hpc | ⟨hpc, hpc'⟩
    · rw [counted, counted, hpc, hb.tests]
    · rw [counted_of_ne (hpc 0), counted_of_ne (hpc' 0), hb.tests]
  refine ⟨?_, ?_⟩
  · rw [hb.history, hcounted]
    exact hs.history
  · rw [hb.visitedList, hcounted]
    exact hs.visited

/-- A test that returned, before it is recorded. -/
structure Fresh (F : Profiler K Prof Entry) (p : Protocol) (m : Marker) (t : Trial K)
    (s s' : Vars K Prof Entry) : Prop where
  history : s'.history = s.history
  visitedList : s'.visitedList = s.visitedList
  trials : s'.tests.map Test.trial = s.tests.map Test.trial ++ [t]
  value : s'.value = F.value t.window t.theta
  y : s'.y m = t.perfMbps / 1000
  record : (F.compose s'.prof (s'.entry F)).result = F.result p t

omit [LinearOrder K] [FloorRing K] in
theorem fresh_ran (hF : F.Composes p) (m : Marker) (pt : K × K) (y : K) (n : ℤ)
    (s : Vars K Prof Entry) : Fresh F p m ⟨pt, (s.bufSizeMin, s.bufSizeMax), y⟩ s
      ((s.program F m pt).ran F m pt y n) := by
  have hprof : (s.program F m pt).prof = s.prof := by cases m <;> rfl
  have htests : (s.program F m pt).tests = s.tests := by cases m <;> rfl
  have hmin : (s.program F m pt).bufSizeMin = s.bufSizeMin := by cases m <;> rfl
  have hmax : (s.program F m pt).bufSizeMax = s.bufSizeMax := by cases m <;> rfl
  have hentry : (s.program F m pt).entry F =
      F.program (F.value (s.bufSizeMin, s.bufSizeMax) pt) (s.entry F) := by
    rw [entry, hprof]
    simp only [program, Function.update_self]
  refine ⟨by cases m <;> rfl, by cases m <;> rfl, ?_, by cases m <;> rfl,
    y_ran F m pt _ y n, ?_⟩
  · change ((s.program F m pt).tests ++ _).map Test.trial = _
    rw [htests, List.map_append, hmin, hmax]
    rfl
  · have hstore : ((s.program F m pt).ran F m pt y n).entry F =
        (F.ran y n (s.program F m pt).prof ((s.program F m pt).entry F)).2 := by
      have hhandle : F.handle ((s.program F m pt).ran F m pt y n).prof =
          F.handle (s.program F m pt).prof := F.handle_ran y n _ _
      rw [entry, hhandle]
      simp only [ran, Function.update_self]
    rw [hstore]
    refine (hF y n (s.program F m pt).prof ((s.program F m pt).entry F)).trans ?_
    rw [hentry, F.setting_program]
    rfl

omit [FloorRing K] in
theorem compare_written (m : Marker) (pt : K × K) (s : Vars K Prof Entry) :
    (s.compare P m pt).history = s.history ∧ (s.compare P m pt).visitedList = s.visitedList ∧
      (s.compare P m pt).tests = s.tests ∧ (s.compare P m pt).pc ≠ .ret 0 := by
  unfold compare
  split
  · dsimp only
    split
    · exact ⟨rfl, rfl, rfl, by simp⟩
    · exact ⟨rfl, rfl, rfl, by cases m <;> simp [Marker.next]⟩
  · exact ⟨rfl, rfl, rfl, by cases m <;> simp [Marker.next]⟩

omit [FloorRing K] in
theorem written_test [IsStrictOrderedRing K] (hF : F.Composes p) (m : Marker) (pt : K × K)
    (hpc : ∀ r, s.pc ≠ .ret r) (hs : s.Written F p) : (s.test F P m pt).Written F p := by
  have hhist := hs.history
  have hvis := hs.visited
  rw [counted_of_ne (hpc 0)] at hhist hvis
  rcases hy : P.out.test s.trials.length with _ | y
  · have htests : (s.program F m pt).tests = s.tests := by cases m <;> rfl
    have hhist₁ : (s.program F m pt).history = s.history := by cases m <;> rfl
    have hvis₁ : (s.program F m pt).visitedList = s.visitedList := by cases m <;> rfl
    rw [test_of_none hy]
    constructor
    · rw [counted_of_ne (by simp)]
      simp only [htests, hhist₁]
      exact hhist
    · rw [counted_of_ne (by simp)]
      simp only [htests, hvis₁]
      exact hvis
  have hfresh := fresh_ran hF m pt y (P.out.sent s.trials.length) s
  rw [test_of_some hy]
  dsimp only
  set u := (s.program F m pt).ran F m pt y (P.out.sent s.trials.length) with hu
  split
  · -- the record is lost
    have hcounted : ({ u with pc := .ret 0 } : Vars K Prof Entry).counted = s.tests.map Test.trial := by
      rw [counted, if_pos rfl]
      change (u.tests.map Test.trial).dropLast = _
      rw [hfresh.trials, List.dropLast_concat]
    refine ⟨?_, ?_⟩
    · rw [hcounted, ← hhist]
      exact congrArg _ hfresh.history
    · rw [hcounted, ← hvis]
      exact congrArg _ hfresh.visitedList
  · obtain ⟨hh, hv, ht, hne⟩ := compare_written (P := P) m pt ((u.record F).visit m)
    have hcounted : (((u.record F).visit m).compare P m pt).counted =
        s.tests.map Test.trial ++ [⟨pt, (s.bufSizeMin, s.bufSizeMax), y⟩] := by
      rw [counted_of_ne hne, ht]
      exact hfresh.trials
    have hy1000 : u.y m * 1000 = y := by
      rw [hfresh.y]
      exact div_mul_cancel₀ y (by norm_num)
    refine ⟨?_, ?_⟩
    · rw [hcounted, hh, List.map_append, ← hhist, ← hfresh.history]
      change (u.history ++ [F.compose u.prof (u.entry F)]).map _ = _
      rw [List.map_append, List.map_singleton, hfresh.record]
      rfl
    · rw [hcounted, hv, List.map_append, ← hvis, ← hfresh.visitedList]
      change (u.visitedList ++
        [(⟨(u.record F).value, m, (u.record F).y m * 1000, 1⟩ : FastprofTrace K)]).map _ = _
      rw [List.map_append, List.map_singleton, y_record, hy1000]
      have hvalue : (u.record F).value = F.value (s.bufSizeMin, s.bufSizeMax) pt := hfresh.value
      rw [hvalue]
      rfl

variable [IsStrictOrderedRing K]

theorem written_step (hF : F.Composes p) (hs : s.Written F p) : (s.step F P).Written F p := by
  cases stepped_step (F := F) (P := P) s with
  | idle h => exact hs.beside h
  | tested m pt u hpc h h' => exact (written_test hF m pt hpc (hs.beside h)).beside h'

/-- **What a run leaves of its tests**, whatever it ends with. -/
theorem written_run (hF : F.Composes p) (P : Setup K) (args : Args Prof Entry) (n : ℕ) :
    (run F P args n).Written F p := by
  induction n with
  | zero =>
    have hnone : (run F P args 0).counted = [] := by
      unfold counted
      split <;> rfl
    refine ⟨?_, ?_⟩ <;> rw [hnone] <;> rfl
  | succ n ih =>
    rw [run_succ]
    exact written_step hF ih

/-! ### Whether a record was composed -/

/-- A search with a line in its history has composed the record of some test. -/
def Composed (P : Setup K) (s : Vars K Prof Entry) : Prop :=
  s.history ≠ [] → ∃ i < s.tests.length, P.out.composed i = true

omit [Field K] [LinearOrder K] [FloorRing K] [IsStrictOrderedRing K] in
theorem Composed.beside {s s' : Vars K Prof Entry} (hb : Beside s s') (hs : s.Composed P) :
    s'.Composed P := by
  unfold Composed
  rw [hb.history, hb.tests]
  exact hs

omit [FloorRing K] [IsStrictOrderedRing K] in
theorem composed_test (hF : F.Composes p) (m : Marker) (pt : K × K) (hs : s.Composed P) :
    (s.test F P m pt).Composed P := by
  rcases hy : P.out.test s.trials.length with _ | y
  · rw [test_of_none hy]
    cases m <;> exact hs
  have hfresh := fresh_ran hF m pt y (P.out.sent s.trials.length) s
  rw [test_of_some hy]
  dsimp only
  set u := (s.program F m pt).ran F m pt y (P.out.sent s.trials.length) with hu
  have hlen : u.tests.length = s.tests.length + 1 := by
    have h := congrArg List.length hfresh.trials
    simpa using h
  split
  · intro hne
    obtain ⟨i, hi, hc⟩ := hs (hfresh.history ▸ hne)
    exact ⟨i, by change i < u.tests.length; omega, hc⟩
  · rename_i hrec
    obtain ⟨-, -, htests, -⟩ := compare_written (P := P) m pt ((u.record F).visit m)
    intro _
    refine ⟨s.trials.length, ?_, ?_⟩
    · have htr : s.trials.length = s.tests.length := List.length_map _
      rw [htests]
      change _ < u.tests.length
      omega
    · by_contra hno
      simp [hno] at hrec

omit [IsStrictOrderedRing K] in
theorem composed_run (hF : F.Composes p) (P : Setup K) (args : Args Prof Entry) (n : ℕ) :
    (run F P args n).Composed P := by
  induction n with
  | zero => exact fun h => absurd rfl h
  | succ n ih =>
    rw [run_succ]
    cases stepped_step (F := F) (P := P) (run F P args n) with
    | idle h => exact ih.beside h
    | tested m pt u _ h h' => exact (composed_test hF m pt (ih.beside h)).beside h'

end Vars

end Fastprof
end Probdata
