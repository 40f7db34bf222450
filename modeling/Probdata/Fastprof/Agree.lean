/-
# The two loops carry out one search

Two loops of `Client` over different profilers agree (`Vars.Agree`) when they
stand at the same point of the same search, with the same counters and as many
tests started. Each piece of a step keeps that, so two runs from one setup
agree after every step (`Vars.agree_run`), whatever their profiles are; the
loops of `Tcp` and `Udt`, translated each from its own source, are two such
runs.
-/
import Probdata.Fastprof.ClientSearch
import Probdata.Fastprof.Tcp
import Probdata.Fastprof.Udt

namespace Probdata
namespace Fastprof
namespace Vars

variable {K Prof Entry Prof' Entry' : Type*}

/-- Everything but the profiles, and the values that the points stand for. -/
structure Agree (s : Vars K Prof Entry) (u : Vars K Prof' Entry') : Prop where
  search : s.search = u.search
  ledger : s.ledger = u.ledger
  started : s.started = u.started

section Fields

variable {s : Vars K Prof Entry} {u : Vars K Prof' Entry'}

theorem Agree.pc (h : s.Agree u) : s.pc = u.pc := congrArg Search.pc h.search

theorem Agree.theta (h : s.Agree u) : s.theta = u.theta := congrArg Search.theta h.search

theorem Agree.thetaPlus (h : s.Agree u) : s.thetaPlus = u.thetaPlus :=
  congrArg Search.thetaPlus h.search

theorem Agree.thetaMinus (h : s.Agree u) : s.thetaMinus = u.thetaMinus :=
  congrArg Search.thetaMinus h.search

theorem Agree.trials (h : s.Agree u) : s.trials = u.trials := congrArg Search.trials h.search

theorem Agree.maxTheta (h : s.Agree u) : s.maxTheta = u.maxTheta :=
  congrArg Ledger.maxTheta h.ledger

theorem Agree.maxPerfGbps (h : s.Agree u) : s.maxPerfGbps = u.maxPerfGbps :=
  congrArg Ledger.maxPerf h.ledger

theorem Agree.noImpCounter (h : s.Agree u) : s.noImpCounter = u.noImpCounter :=
  congrArg Ledger.noImpCounter h.ledger

theorem Agree.profileNum (h : s.Agree u) : s.profileNum = u.profileNum :=
  congrArg Ledger.profileNum h.ledger

end Fields

/-- Two branchings on one condition agree if their branches do. -/
theorem agree_ite {s s' : Vars K Prof Entry} {u u' : Vars K Prof' Entry'} {p q : Prop}
    [Decidable p] [Decidable q] (hpq : p ↔ q) (h : p → s.Agree u) (h' : ¬ p → s'.Agree u') :
    (if p then s else s').Agree (if q then u else u') := by
  by_cases hp : p
  · rw [if_pos hp, if_pos (hpq.mp hp)]; exact h hp
  · rw [if_neg hp, if_neg fun hq => hp (hpq.mpr hq)]; exact h' hp

/-! ### The pieces of a step -/

variable [Field K] [LinearOrder K]
variable {F : Profiler K Prof Entry} {G : Profiler K Prof' Entry'}
variable {s : Vars K Prof Entry} {u : Vars K Prof' Entry'}

theorem agree_compare (P : Setup K) (m : Marker) (pt : K × K) (h : s.Agree u)
    (hy : s.y m = u.y m) : (s.compare P m pt).Agree (u.compare P m pt) where
  search := by rw [search_compare, search_compare, hy, h.search, h.ledger]
  ledger := by rw [ledger_compare, ledger_compare, hy, h.ledger]
  started := by rw [started_compare, started_compare, h.started]

theorem agree_test (P : Setup K) (m : Marker) (pt : K × K) (h : s.Agree u) :
    (s.test F P m pt).Agree (u.test G P m pt) := by
  have htr : s.trials = u.trials := h.trials
  have hprog : (s.program F m pt).Agree (u.program G m pt) := by
    refine ⟨?_, ?_, ?_⟩
    · rw [search_program, search_program, h.search]
    · rw [ledger_program, ledger_program, h.ledger]
    · exact congrArg (· + 1) h.started
  rcases hy : P.out.test s.trials.length with _ | y
  · have hy' : P.out.test u.trials.length = none := by rw [← htr, hy]
    rw [test_of_none hy, test_of_none hy']
    exact ⟨congrArg (fun σ : Search K => { σ with pc := .ret (-1) }) hprog.search, hprog.ledger,
      hprog.started⟩
  · have hy' : P.out.test u.trials.length = some y := by rw [← htr, hy]
    rw [test_of_some hy, test_of_some hy', ← htr]
    set n := P.out.sent s.trials.length
    have hran : ((s.program F m pt).ran F m pt y n).Agree ((u.program G m pt).ran G m pt y n) := by
      refine ⟨?_, ?_, ?_⟩
      · rw [search_ran, search_ran, hprog.search, hprog.trials]
      · rw [ledger_ran, ledger_ran, hprog.ledger]
      · have hs : ((s.program F m pt).ran F m pt y n).started = (s.program F m pt).started := by
          cases m <;> rfl
        have hu : ((u.program G m pt).ran G m pt y n).started = (u.program G m pt).started := by
          cases m <;> rfl
        rw [hs, hu, hprog.started]
    dsimp only
    split
    · exact ⟨congrArg (fun σ : Search K => { σ with pc := .ret 0 }) hran.search, hran.ledger,
        hran.started⟩
    · apply agree_compare
      · refine ⟨?_, ?_, hran.started⟩
        · rw [search_visit, search_visit, search_record, search_record, hran.search]
        · rw [ledger_visit, ledger_visit, ledger_record, ledger_record, hran.ledger]
      · rw [y_visit, y_visit, y_record, y_record, y_ran, y_ran]

theorem agree_climb (P : Setup K) (h : s.Agree u) : (s.climb P).Agree (u.climb P) := by
  have hplus : s.yPlusGbps = u.yPlusGbps := congrArg Ledger.yPlus h.ledger
  have hminus : s.yMinusGbps = u.yMinusGbps := congrArg Ledger.yMinus h.ledger
  -- the gains and the point are read from the search, the throughputs from the counters
  set f : Search K → Search K := fun σ =>
    { σ with theta :=
      (projTheta (σ.theta.1 + σ.ak * gradient P.arith s.yPlusGbps s.yMinusGbps σ.adjPlus.1
          σ.adjMinus.1 σ.delta.1),
        projTheta (σ.theta.2 + σ.ak * gradient P.arith s.yPlusGbps s.yMinusGbps σ.adjPlus.2
          σ.adjMinus.2 σ.delta.2)) } with hf
  have hs : (s.climb P).search = f s.search := rfl
  have hu : (u.climb P).search = f u.search := by
    simp only [hf, hplus, hminus]
    rfl
  refine ⟨?_, h.ledger, h.started⟩
  rw [hs, hu, h.search]

theorem agree_star (P : Setup K) (h : s.Agree u) : (s.star F P).Agree (u.star G P) := by
  have hc := agree_climb P h
  have ht : ((s.climb P).test F P .star (s.climb P).theta).Agree
      ((u.climb P).test G P .star (u.climb P).theta) := by
    rw [← hc.theta]
    exact agree_test P .star (s.climb P).theta hc
  unfold star
  dsimp only
  refine agree_ite (by rw [ht.pc]) (fun _ => ?_) fun _ => ht
  have hmax := ht.maxTheta
  generalize (s.climb P).test F P .star (s.climb P).theta = s' at ht hmax ⊢
  generalize (u.climb P).test G P .star (u.climb P).theta = u' at ht hmax ⊢
  refine ⟨?_, ht.ledger, ht.started⟩
  calc ({ s' with theta := s'.maxTheta } : Vars K Prof Entry).search
      = { s'.search with theta := s'.maxTheta } := rfl
    _ = { u'.search with theta := u'.maxTheta } := by rw [ht.search, hmax]
    _ = ({ u' with theta := u'.maxTheta } : Vars K Prof' Entry').search := rfl

theorem agree_scale (P : Setup K) (h : s.Agree u) : (s.scale P).Agree (u.scale P) := by
  unfold scale
  refine agree_ite (by rw [h.noImpCounter]) (fun _ => ⟨?_, h.ledger, h.started⟩) fun _ => h
  exact congrArg (fun σ : Search K =>
    { σ with a := σ.a * P.ctrl.aScale, c := σ.c * P.ctrl.cScale }) h.search

variable [FloorRing K]

theorem agree_measure (P : Setup K) (h : s.Agree u) : (s.measure P).Agree (u.measure P) :=
  ⟨congrArg (Search.measure P) h.search, h.ledger, h.started⟩

omit [FloorRing K] in
theorem agree_perturb (P : Setup K) (h : s.Agree u) : (s.perturb P).Agree (u.perturb P) :=
  ⟨congrArg (Search.perturb P) h.search, h.ledger, h.started⟩

theorem agree_head (P : Setup K) (h : s.Agree u) : (s.head F P).Agree (u.head G P) := by
  have hflag : ({ s with flag := -1 } : Vars K Prof Entry).Agree
      ({ u with flag := -1 } : Vars K Prof' Entry') :=
    ⟨congrArg (fun σ : Search K => { σ with flag := -1 }) h.search, h.ledger, h.started⟩
  have hscale := agree_scale P hflag
  have hpert := agree_perturb P (agree_measure P hscale)
  unfold head
  dsimp only
  apply agree_ite (by rw [h.profileNum])
  · exact fun _ => ⟨congrArg (fun σ : Search K => { σ with flag := 1, pc := .done }) hflag.search,
      h.ledger, h.started⟩
  intro _
  apply agree_ite (by rw [hscale.noImpCounter])
  · exact fun _ => ⟨congrArg (fun σ : Search K => { σ with flag := 2, pc := .done }) hscale.search,
      hscale.ledger, hscale.started⟩
  intro _
  apply agree_ite (by rw [hscale.maxPerfGbps])
  · exact fun _ => ⟨congrArg (fun σ : Search K => { σ with flag := 3, pc := .done }) hscale.search,
      hscale.ledger, hscale.started⟩
  · intro _
    rw [hpert.thetaPlus]
    exact agree_test P .plus _ hpert

/-! ### A run -/

theorem agree_step (P : Setup K) (h : s.Agree u) : (s.step F P).Agree (u.step G P) := by
  unfold step
  rw [h.pc]
  cases u.pc with
  | head => exact agree_head P h
  | minus =>
    dsimp only
    rw [h.thetaMinus]
    exact agree_test P .minus u.thetaMinus h
  | star => exact agree_star P h
  | done => exact h
  | ret r => exact h

/-- Two runs from one setup agree after every step. -/
theorem agree_run (F : Profiler K Prof Entry) (G : Profiler K Prof' Entry') (P : Setup K)
    (args : Args Prof Entry) (args' : Args Prof' Entry') (n : ℕ) :
    (run F P args n).Agree (run G P args' n) := by
  induction n with
  | zero => exact ⟨rfl, rfl, rfl⟩
  | succ n ih =>
    rw [run_succ, run_succ]
    exact agree_step P ih

end Vars

variable {K : Type*} [Field K] [LinearOrder K] [FloorRing K]

/-- What a TCP search and a UDT search have in common after as many steps: the
tests so far (each with its point, its window and its throughput), the tests
started, the points of the iteration, the best test, the counters, the gains,
the round-trip time, the window, and whether and how the loop was left. -/
structure SameSearch (t : TcpVars K) (u : UdtVars K) : Prop where
  tests : t.tests.map Test.trial = u.tests.map Test.trial
  started : t.started = u.started
  theta : t.theta = u.theta
  thetaPlus : t.thetaPlus = u.thetaPlus
  thetaMinus : t.thetaMinus = u.thetaMinus
  maxTheta : t.maxTheta = u.maxTheta
  maxPerfGbps : t.maxPerfGbps = u.maxPerfGbps
  noImpCounter : t.noImpCounter = u.noImpCounter
  profileNum : t.profileNum = u.profileNumber
  a : t.a = u.a
  c : t.c = u.c
  rttMs : t.rttMs = u.rttMs
  bufSizeMin : t.bufSizeMin = u.bufferSizeMin
  bufSizeMax : t.bufSizeMax = u.bufferSizeMax
  pc : t.pc = u.pc
  flag : t.flag = u.flag

omit [Field K] [LinearOrder K] [FloorRing K] in
theorem sameSearch_of_agree {t : TcpVars K} {u : UdtVars K} (h : t.vars.Agree u.vars) :
    SameSearch t u where
  tests := h.trials
  started := h.started
  theta := h.theta
  thetaPlus := h.thetaPlus
  thetaMinus := h.thetaMinus
  maxTheta := h.maxTheta
  maxPerfGbps := h.maxPerfGbps
  noImpCounter := h.noImpCounter
  profileNum := h.profileNum
  a := congrArg Search.a h.search
  c := congrArg Search.c h.search
  rttMs := congrArg Search.rtt h.search
  bufSizeMin := congrArg (fun σ => σ.window.1) h.search
  bufSizeMax := congrArg (fun σ => σ.window.2) h.search
  pc := h.pc
  flag := congrArg Search.flag h.search

/-- From one setup `f_tcp_client_run` and `f_udt_client_run` carry out the same
search, step by step, and end it after the same step. -/
theorem clientRun_sameSearch (lib : IperfLib) (P : Setup K)
    (args : Args (FastprofTcpProf K) IperfTest)
    (args' : Args (FastprofUdtProf K) (TpgProfile K)) :
    (∀ n, SameSearch (fTcpClientRun lib P args n) (fUdtClientRun P args' n)) ∧
      ∃ n, (fTcpClientRun lib P args n).pc.running = false ∧
        (fUdtClientRun P args' n).pc.running = false := by
  have hsame : ∀ n, SameSearch (fTcpClientRun lib P args n) (fUdtClientRun P args' n) := by
    intro n
    apply sameSearch_of_agree
    rw [fTcpClientRun_vars, fUdtClientRun_vars]
    exact Vars.agree_run (tcpProfiler lib P) (udtProfiler P) P args args' n
  refine ⟨hsame, P.lim.maxProf.toNat + 3, ?_⟩
  have hpc : (fTcpClientRun lib P args (P.lim.maxProf.toNat + 3)).pc =
      (Search.run P (P.lim.maxProf.toNat + 3)).pc := by
    have hrun := Vars.run_search (tcpProfiler lib P) P args (P.lim.maxProf.toNat + 3)
    rw [← fTcpClientRun_vars] at hrun
    exact congrArg Search.pc hrun.1
  rw [← (hsame _).pc, hpc, and_self]
  exact Search.run_ends P

end Fastprof
end Probdata
