/-
# Every test is programmed inside the legal box

The points of a search are in `[1, 25]²` at each of the three tests of an
iteration, whatever the gains and the gradient are, and both bounds of the
window are between the safeguards, whatever `int` a product that does not fit
one becomes: the window may be inverted, but never leaves them
(`Search.Boxed`). An affine map and a rounding keep such bounds, so what a
profile is programmed with is legal (`Vars.run_entry`).
-/
import Probdata.Fastprof.Window

namespace Probdata
namespace Fastprof

variable {K Prof Entry : Type*} [Field K] [LinearOrder K]

/-- A point of the box. -/
def InBox (pt : K × K) : Prop :=
  (fIterativeMin ≤ pt.1 ∧ pt.1 ≤ fIterativeMax) ∧ fIterativeMin ≤ pt.2 ∧ pt.2 ≤ fIterativeMax

/-- A window whose bounds are between the safeguards, in whatever order. -/
def LegalWindow (hostMaxBuf : ℤ) (w : ℤ × ℤ) : Prop :=
  (fBufMin ≤ w.1 ∧ w.1 ≤ min hostMaxBuf fBufMax) ∧ fBufMin ≤ w.2 ∧ w.2 ≤ min hostMaxBuf fBufMax

/-! ### The search -/

namespace Search

variable [FloorRing K] {P : Setup K} {s : Search K}

/-- The window of a search is legal, and the point of its second test is in the box. -/
structure Boxed (P : Setup K) (s : Search K) : Prop where
  window : LegalWindow P.ctrl.hostMaxBuf s.window
  minus : s.pc = .minus → InBox s.thetaMinus

theorem legal_bufWindow {E : Arith K} {b : K} {w : ℤ × ℤ} {hostMaxBuf : ℤ}
    (hhost : fBufMin ≤ hostMaxBuf) (hw : LegalWindow hostMaxBuf w) :
    LegalWindow hostMaxBuf (bufWindow E fBufMin (bufSafeguardMax hostMaxBuf) b w) := by
  have hle : fBufMin ≤ min hostMaxBuf fBufMax := le_min hhost (by decide)
  have hguard : ∀ n, fBufMin ≤ guardBuf fBufMin (min hostMaxBuf fBufMax) n ∧
      guardBuf fBufMin (min hostMaxBuf fBufMax) n ≤ min hostMaxBuf fBufMax := by
    intro n
    rw [guardBuf_eq]
    exact ⟨le_min (le_max_right _ _) hle, min_le_right _ _⟩
  unfold bufWindow
  split
  · exact hw
  · rw [bufSafeguardMax_eq]
    exact ⟨hguard _, hguard _⟩

theorem legal_entered (hhost : fBufMin ≤ P.ctrl.hostMaxBuf)
    (h : LegalWindow P.ctrl.hostMaxBuf s.window) :
    LegalWindow P.ctrl.hostMaxBuf (entered P s).window := by
  rw [entered_window]
  exact legal_bufWindow hhost h

variable [IsStrictOrderedRing K]

theorem inBox_thetaPlus (P : Setup K) (s : Search K) : InBox (entered P s).thetaPlus :=
  ⟨clipTheta_mem _, clipTheta_mem _⟩

theorem inBox_thetaMinus (P : Setup K) (s : Search K) : InBox (entered P s).thetaMinus :=
  ⟨clipTheta_mem _, clipTheta_mem _⟩

theorem boxed_step (hhost : fBufMin ≤ P.ctrl.hostMaxBuf) (h : Boxed P s) :
    Boxed P (step P s) := by
  refine ⟨?_, fun hpc' => ?_⟩
  · rw [window_step]
    split
    · exact legal_entered hhost h.window
    · exact h.window
  · -- the second test of an iteration follows the first
    rcases hpc : s.pc with _ | _ | _ | _ | r
    · have hstep := step_of_head P hpc
      rw [hstep] at hpc' ⊢
      rcases head_eq P hpc with ⟨-, he⟩ | ⟨-, s0, f, -, he⟩
      · rw [he, trial_frame]
        exact inBox_thetaMinus P s
      · rw [he] at hpc'; cases hpc'
    · have hstep := step_of_minus P hpc
      rw [hstep] at hpc' ⊢
      rw [trial_frame]
      exact h.minus hpc
    · have hstep := step_of_star P hpc
      rw [hstep, star_pc] at hpc'
      have hnext := trial_pc P .star (climb P s).theta (climb P s) (by rw [hpc']; rfl)
      rw [hnext] at hpc'
      cases hpc'
    · have hstep := step_of_ended P (s := s) (by rw [hpc]; rfl)
      rw [hstep, hpc] at hpc'; cases hpc'
    · have hstep := step_of_ended P (s := s) (by rw [hpc]; rfl)
      rw [hstep, hpc] at hpc'; cases hpc'

theorem boxed_run (hhost : fBufMin ≤ P.ctrl.hostMaxBuf) (n : ℕ) : Boxed P (run P n) := by
  induction n with
  | zero =>
    have hle : fBufMin ≤ min P.ctrl.hostMaxBuf fBufMax := le_min hhost (by decide)
    refine ⟨?_, fun h => ?_⟩
    · show LegalWindow P.ctrl.hostMaxBuf (fBufMin, bufSafeguardMax P.ctrl.hostMaxBuf)
      rw [bufSafeguardMax_eq]
      exact ⟨⟨le_refl _, hle⟩, hle, le_refl _⟩
    · have hne : (start P).pc ≠ .minus := by
        unfold start
        dsimp only
        split <;> simp
      exact absurd h hne
  | succ n ih => rw [run_succ]; exact boxed_step hhost ih

end Search

/-! ### The loop -/

namespace Vars

variable {F : Profiler K Prof Entry} {P : Setup K} {s : Vars K Prof Entry} {Q : K × K → Entry → Prop}

theorem compare_value (m : Marker) (pt : K × K) (s : Vars K Prof Entry) :
    (s.compare P m pt).value = s.value := by
  unfold compare
  split
  · dsimp only
    split <;> rfl
  · rfl

/-- After a test the variables hold the values it was programmed for. -/
theorem test_value (m : Marker) (pt : K × K) (s : Vars K Prof Entry) :
    (s.test F P m pt).value = F.value (s.bufSizeMin, s.bufSizeMax) pt := by
  have hprogram : (s.program F m pt).value = F.value (s.bufSizeMin, s.bufSizeMax) pt := by
    cases m <;> rfl
  rcases hy : P.out.test s.trials.length with _ | y
  · rw [test_of_none hy]
    exact hprogram
  · have hran : ((s.program F m pt).ran F m pt y (P.out.sent s.trials.length)).value =
        (s.program F m pt).value := by
      cases m <;> rfl
    rw [test_of_some hy]
    dsimp only
    split
    · exact hran.trans hprogram
    · rw [compare_value]
      exact hran.trans hprogram

/-- After a test the entry is as it was programmed, up to what a test leaves in it. -/
theorem test_entry (m : Marker) (pt : K × K) (s : Vars K Prof Entry)
    (hprog : ∀ e, Q (F.value (s.bufSizeMin, s.bufSizeMax) pt)
      (F.program (F.value (s.bufSizeMin, s.bufSizeMax) pt) e))
    (hran : ∀ v y n p e, Q v e → Q v (F.ran y n p e).2) :
    Q (s.test F P m pt).value ((s.test F P m pt).store (F.handle s.prof)) := by
  rw [test_value]
  set v := F.value (s.bufSizeMin, s.bufSizeMax) pt with hv
  have hprof : (s.program F m pt).prof = s.prof := by cases m <;> rfl
  have hstore : (s.program F m pt).store (F.handle s.prof) = F.program v (s.entry F) :=
    Function.update_self _ _ _
  have hp : Q v ((s.program F m pt).store (F.handle s.prof)) := hstore ▸ hprog _
  rcases hy : P.out.test s.trials.length with _ | y
  · rw [test_of_none hy]
    exact hp
  · have hr : Q v (((s.program F m pt).ran F m pt y (P.out.sent s.trials.length)).store
        (F.handle s.prof)) := by
      have hupd : ((s.program F m pt).ran F m pt y (P.out.sent s.trials.length)).store
          (F.handle (s.program F m pt).prof) = (F.ran y (P.out.sent s.trials.length)
            (s.program F m pt).prof ((s.program F m pt).entry F)).2 := Function.update_self _ _ _
      rw [← hprof] at hp ⊢
      rw [hupd]
      exact hran _ _ _ _ _ hp
    rw [test_of_some hy]
    dsimp only
    split
    · exact hr
    · rw [(compare_prof m pt _).2.1]
      exact hr

theorem scale_noImpCounter (P : Setup K) (s : Vars K Prof Entry) :
    (s.scale P).noImpCounter = s.noImpCounter ∧ (s.scale P).maxPerfGbps = s.maxPerfGbps ∧
      (s.scale P).prof = s.prof := by
  unfold scale
  split <;> exact ⟨rfl, rfl, rfl⟩

variable [FloorRing K]

/-- The variables with which an iteration makes its first test. -/
def entered (P : Setup K) (s : Vars K Prof Entry) : Vars K Prof Entry :=
  ((({ s with flag := -1 } : Vars K Prof Entry).scale P).measure P).perturb P

/-- A loop that is not left at its head makes a test there. -/
theorem head_of_not_leaves (hpc : s.pc = .head) (hl : ¬ s.Leaves P) :
    s.head F P = (s.entered P).test F P .plus (s.entered P).thetaPlus := by
  obtain ⟨h1, h2, -⟩ := scale_noImpCounter P { s with flag := -1 }
  have hnum : ¬ s.profileNum ≥ P.lim.maxProf := fun h => hl ⟨hpc, Or.inl h⟩
  have himp : ¬ (({ s with flag := -1 } : Vars K Prof Entry).scale P).noImpCounter ≥ P.lim.noImp := by
    rw [h1]
    exact fun h => hl ⟨hpc, Or.inr (Or.inl h)⟩
  have hmax : ¬ pgrReached (({ s with flag := -1 } : Vars K Prof Entry).scale P).maxPerfGbps
      P.ctrl.bwGbps P.lim.perfGainRatio = true := by
    rw [h2]
    exact fun h => hl ⟨hpc, Or.inr (Or.inr h)⟩
  unfold head
  dsimp only
  rw [if_neg hnum, if_neg himp, if_neg hmax]
  rfl

theorem search_entered (h : s.ledger.Exact s.pc s.trials) :
    (s.entered P).search = Search.entered P s.search := by
  have hscale : (({ s with flag := -1 } : Vars K Prof Entry).scale P).search =
      Search.scale P { s.search with flag := -1 } :=
    search_scale (s := { s with flag := -1 }) h
  show Search.perturb P (Search.measure P
    (({ s with flag := -1 } : Vars K Prof Entry).scale P).search) = _
  rw [hscale]
  rfl

variable [IsStrictOrderedRing K]

/-- A step that starts a test programs the entry for a point of the box, over a
legal window. -/
theorem step_entry (hhost : fBufMin ≤ P.ctrl.hostMaxBuf) (ht : s.Tracks)
    (hb : s.search.Boxed P) (hst : Search.starts P s.search = true)
    (hprog : ∀ w pt e, LegalWindow P.ctrl.hostMaxBuf w → InBox pt →
      Q (F.value w pt) (F.program (F.value w pt) e))
    (hran : ∀ v y n p e, Q v e → Q v (F.ran y n p e).2) :
    Q (s.step F P).value ((s.step F P).store (F.handle s.prof)) := by
  have hrun : s.pc.running = true := Search.running_of_starts hst
  have hE := ht fun r hr => by rw [hr] at hrun; cases hrun
  rcases hpc : s.pc with _ | _ | _ | _ | r
  · have hstep := step_of_head F P hpc
    have hl : ¬ s.Leaves P := by
      rw [leaves_iff ht hrun, hst]
      simp
    have hx := search_entered (P := P) hE
    have hw : ((s.entered P).bufSizeMin, (s.entered P).bufSizeMax) =
        (Search.entered P s.search).window := congrArg Search.window hx
    have hpt : (s.entered P).thetaPlus = (Search.entered P s.search).thetaPlus :=
      congrArg Search.thetaPlus hx
    have hprof : s.prof = (s.entered P).prof := (scale_noImpCounter P { s with flag := -1 }).2.2.symm
    rw [hstep, head_of_not_leaves hpc hl, hprof]
    refine test_entry .plus _ _ (fun e => hprog _ _ e ?_ ?_) hran
    · rw [hw]; exact Search.legal_entered hhost hb.window
    · rw [hpt]; exact Search.inBox_thetaPlus P s.search
  · have hstep := step_of_minus F P hpc
    rw [hstep]
    exact test_entry .minus _ _ (fun e => hprog _ _ e hb.window (hb.minus hpc)) hran
  · have hstep := step_of_star F P hpc
    have hpt : InBox (s.climb P).theta := ⟨projTheta_mem _, projTheta_mem _⟩
    have htest : Q ((s.climb P).test F P .star (s.climb P).theta).value
        (((s.climb P).test F P .star (s.climb P).theta).store (F.handle s.prof)) :=
      test_entry .star _ (s.climb P) (fun e => hprog _ _ e hb.window hpt) hran
    rw [hstep]
    unfold star
    dsimp only
    split
    · exact htest
    · exact htest
  · rw [hpc] at hrun; cases hrun
  · rw [hpc] at hrun; cases hrun

/-- Every test of a run is programmed for a point of the box, over a legal window. -/
theorem run_entry {args : Args Prof Entry} (hhost : fBufMin ≤ P.ctrl.hostMaxBuf)
    (hprog : ∀ w pt e, LegalWindow P.ctrl.hostMaxBuf w → InBox pt →
      Q (F.value w pt) (F.program (F.value w pt) e))
    (hran : ∀ v y n p e, Q v e → Q v (F.ran y n p e).2) (n : ℕ)
    (hst : (run F P args (n + 1)).started ≠ (run F P args n).started) :
    Q (run F P args (n + 1)).value ((run F P args (n + 1)).store (F.handle args.prof)) := by
  obtain ⟨hs, ht⟩ := run_search F P args n
  have hh : F.handle (run F P args n).prof = F.handle args.prof :=
    (programmed_run F P args n).handle
  rw [run_succ, ← hh]
  refine step_entry hhost ht ?_ ?_ hprog hran
  · rw [hs]; exact Search.boxed_run hhost n
  · rw [hs]; exact (started_ne_iff F P args n).mp hst

end Vars

/-! ### The two clients -/

section Settings

variable [IsStrictOrderedRing K] [FloorRing K]

/-- A value between bounds that fit an `int`, rounded and converted. -/
theorem toInt_fRound_mem (E : Arith K) {x m n : K} (hm : m ≤ x) (hn : x ≤ n)
    (hlo : -2 ^ 31 ≤ ⌊m + 1 / 2⌋) (hhi : ⌊n + 1 / 2⌋ < 2 ^ 31) :
    fRound m ≤ ((E.toInt (fRound x) : ℤ) : K) ∧ ((E.toInt (fRound x) : ℤ) : K) ≤ fRound n := by
  have h1 : ⌊m + 1 / 2⌋ ≤ ⌊x + 1 / 2⌋ := Int.floor_le_floor (by linarith)
  have h2 : ⌊x + 1 / 2⌋ ≤ ⌊n + 1 / 2⌋ := Int.floor_le_floor (by linarith)
  rw [toInt_fRound E ⟨by omega, by omega⟩]
  unfold fRound
  exact ⟨by exact_mod_cast h1, by exact_mod_cast h2⟩

/-- The same between two integers. -/
theorem toInt_fRound_mem_int (E : Arith K) {x : K} {m n : ℤ} (hm : (m : K) ≤ x) (hn : x ≤ n)
    (hlo : -2 ^ 31 ≤ m) (hhi : n < 2 ^ 31) :
    m ≤ E.toInt (fRound x) ∧ E.toInt (fRound x) ≤ n := by
  obtain ⟨h1, h2⟩ := Interval.round_mem hm hn
  rw [toInt_fRound E ⟨by omega, by omega⟩]
  exact ⟨h1, h2⟩

/-- The value of a coordinate is between the bounds of its range. -/
theorem thetaToVal_mem {theta : K} {m n : ℤ} (lo hi : ℤ) (hlo : fIterativeMin ≤ theta)
    (hhi : theta ≤ fIterativeMax) (ha : m ≤ lo ∧ lo ≤ n) (hb : m ≤ hi ∧ hi ≤ n) :
    (m : K) ≤ Interval.scale fIterativeMin fIterativeMax (lo : K) (hi : K) theta ∧
      Interval.scale fIterativeMin fIterativeMax (lo : K) (hi : K) theta ≤ n :=
  Interval.scale_mem iterativeMin_lt_max hlo hhi
    ⟨by exact_mod_cast ha.1, by exact_mod_cast ha.2⟩ ⟨by exact_mod_cast hb.1, by exact_mod_cast hb.2⟩

end Settings

/-- The box of a TCP test on a host with buffers of `hostMaxBuf` bytes. -/
structure TcpLegal [FloorRing K] (hostMaxBuf : ℤ) (t : IperfTest) : Prop where
  numStreams : 1 ≤ t.numStreams ∧ t.numStreams ≤ 25
  bufMin : (fRound ((fBufMin : K) / 2) : K) ≤ t.socketBufsize
  bufMax : (t.socketBufsize : K) ≤ fRound (((min hostMaxBuf fBufMax : ℤ) : K) / 2)

/-- The box of a UDT test that was programmed for blocks of `blockSize` segments: the
block size in bytes is legal if it is an `int`. -/
structure UdtLegal [FloorRing K] (hostMaxBuf mss : ℤ) (blockSize : K) (t : TpgProfile K) :
    Prop where
  segments : 1 ≤ blockSize ∧ blockSize ≤ 25
  blocksize : fRound (blockSize * (mss - 44 : ℤ)) < (2 ^ 31 : ℤ) →
    mss - 44 ≤ t.blocksize ∧ t.blocksize ≤ 25 * (mss - 44)
  udtSend : fBufMin ≤ t.udtSendBufsize ∧ t.udtSendBufsize ≤ min hostMaxBuf fBufMax
  udtRecv : fBufMin ≤ t.udtRecvBufsize ∧ t.udtRecvBufsize ≤ min hostMaxBuf fBufMax
  udpSend : fRound ((fBufMin : K) / 2) ≤ (t.udpSendBufsize : K) ∧
    (t.udpSendBufsize : K) ≤ fRound (((min hostMaxBuf fBufMax : ℤ) : K) / 2)
  udpRecv : fRound ((fBufMin : K) / 2) ≤ (t.udpRecvBufsize : K) ∧
    (t.udpRecvBufsize : K) ≤ fRound (((min hostMaxBuf fBufMax : ℤ) : K) / 2)

section Programs

variable [IsStrictOrderedRing K] [FloorRing K] {P : Setup K}

/-- Half of a buffer size between the safeguards, rounded. -/
theorem halfBuf_mem (E : Arith K) {hostMaxBuf : ℤ} {x : K} (hm : ((fBufMin : ℤ) : K) ≤ x)
    (hn : x ≤ (min hostMaxBuf fBufMax : ℤ)) :
    fRound ((fBufMin : K) / 2) ≤ ((E.toInt (fRound (x * 1 * (1 / 2))) : ℤ) : K) ∧
      ((E.toInt (fRound (x * 1 * (1 / 2))) : ℤ) : K) ≤
        fRound (((min hostMaxBuf fBufMax : ℤ) : K) / 2) := by
  have hle : ((min hostMaxBuf fBufMax : ℤ) : K) ≤ (2 ^ 31 - 2 : ℤ) := by
    exact_mod_cast (min_le_right _ _).trans (by decide)
  have hpos : (0 : K) ≤ (fBufMin : ℤ) := by exact_mod_cast (by decide : (0 : ℤ) ≤ fBufMin)
  apply toInt_fRound_mem E
  · linarith
  · linarith
  · have : (0 : ℤ) ≤ ⌊((fBufMin : ℤ) : K) / 2 + 1 / 2⌋ := Int.floor_nonneg.mpr (by positivity)
    omega
  · rw [Int.floor_lt]
    push_cast at hle ⊢
    linarith

theorem tcpProfiler_legal (lib : IperfLib) {w : ℤ × ℤ} {pt : K × K}
    (hw : LegalWindow P.ctrl.hostMaxBuf w) (hpt : InBox pt) (t : IperfTest) :
    TcpLegal (K := K) P.ctrl.hostMaxBuf
      ((tcpProfiler lib P).program ((tcpProfiler lib P).value w pt) t) := by
  obtain ⟨hb1, hb2⟩ := thetaToVal_mem (K := K) w.1 w.2 hpt.1.1 hpt.1.2 hw.1 hw.2
  obtain ⟨hs1, hs2⟩ := thetaToVal_mem (K := K) (m := 1) (n := 25) fStreamNumMin fStreamNumMax
    hpt.2.1 hpt.2.2 (by decide) (by decide)
  obtain ⟨h1, h2⟩ := halfBuf_mem P.arith hb1 hb2
  refine ⟨?_, h1, h2⟩
  refine toInt_fRound_mem_int P.arith ?_ ?_ (by decide) (by decide)
  · rw [mul_one]; exact hs1
  · rw [mul_one]; exact hs2

theorem udtProfiler_legal (hmss : 44 < P.ctrl.mss) {w : ℤ × ℤ} {pt : K × K}
    (hw : LegalWindow P.ctrl.hostMaxBuf w) (hpt : InBox pt) (t : TpgProfile K) :
    UdtLegal P.ctrl.hostMaxBuf P.ctrl.mss ((udtProfiler P).value w pt).1
      ((udtProfiler P).program ((udtProfiler P).value w pt) t) := by
  obtain ⟨hb1, hb2⟩ := thetaToVal_mem (K := K) w.1 w.2 hpt.2.1 hpt.2.2 hw.1 hw.2
  obtain ⟨hk1, hk2⟩ := thetaToVal_mem (K := K) (m := 1) (n := 25) fBlkMin fBlkMax
    hpt.1.1 hpt.1.2 (by decide) (by decide)
  have hhalf := halfBuf_mem P.arith hb1 hb2
  have hmax : min P.ctrl.hostMaxBuf fBufMax < 2 ^ 31 := (min_le_right _ _).trans_lt (by decide)
  have hfull : fBufMin ≤ P.arith.toInt (fRound (Interval.scale fIterativeMin fIterativeMax
      (w.1 : K) (w.2 : K) pt.2 * 1)) ∧ P.arith.toInt (fRound (Interval.scale fIterativeMin
      fIterativeMax (w.1 : K) (w.2 : K) pt.2 * 1)) ≤ min P.ctrl.hostMaxBuf fBufMax := by
    refine toInt_fRound_mem_int P.arith ?_ ?_ (by decide) hmax
    · rw [mul_one]; exact hb1
    · rw [mul_one]; exact hb2
  rw [Int.cast_one] at hk1
  refine ⟨⟨hk1, mod_cast hk2⟩, fun hint => ?_, hfull, hfull, hhalf, hhalf⟩
  have hu : (0 : K) ≤ ((P.ctrl.mss - 44 : ℤ) : K) := by exact_mod_cast (by omega : 0 ≤ P.ctrl.mss - 44)
  set x : K := ((udtProfiler P).value w pt).1 * ((P.ctrl.mss - 44 : ℤ) : K)
  have hround : P.ctrl.mss - 44 ≤ ⌊x + 1 / 2⌋ ∧ ⌊x + 1 / 2⌋ ≤ 25 * (P.ctrl.mss - 44) := by
    refine Interval.round_mem (le_mul_of_one_le_left hu hk1) ?_
    rw [Int.cast_mul]
    exact mul_le_mul_of_nonneg_right hk2 hu
  have hfits : IsInt32 ⌊x + 1 / 2⌋ := ⟨by omega, Int.cast_lt.mp hint⟩
  have hsize : ((udtProfiler P).program ((udtProfiler P).value w pt) t).blocksize = ⌊x + 1 / 2⌋ :=
    toInt_fRound P.arith hfits
  rw [hsize]
  exact hround

end Programs

variable [IsStrictOrderedRing K] [FloorRing K]

/-- Every test of both searches is programmed inside the legal box. -/
theorem clientRun_legal (P : Setup K) (hhost : fBufMin ≤ P.ctrl.hostMaxBuf)
    (hmss : 44 < P.ctrl.mss) :
    (∀ lib args n, (fTcpClientRun lib P args (n + 1)).started ≠ (fTcpClientRun lib P args n).started →
      TcpLegal (K := K) P.ctrl.hostMaxBuf
        ((fTcpClientRun lib P args (n + 1)).store args.prof.tcpProf)) ∧
    ∀ args n, (fUdtClientRun P args (n + 1)).started ≠ (fUdtClientRun P args n).started →
      UdtLegal P.ctrl.hostMaxBuf P.ctrl.mss (fUdtClientRun P args (n + 1)).blockSize
        ((fUdtClientRun P args (n + 1)).store args.prof.udtProf) := by
  constructor
  · intro lib args n hst
    have hrun := fTcpClientRun_vars lib P args
    have hst' : (Vars.run (tcpProfiler lib P) P args (n + 1)).started ≠
        (Vars.run (tcpProfiler lib P) P args n).started := by
      rw [← hrun, ← hrun]; exact hst
    have h := Vars.run_entry (Q := fun _ => TcpLegal (K := K) P.ctrl.hostMaxBuf) hhost
      (fun w pt e hw hpt => tcpProfiler_legal lib hw hpt e) (fun v y n p e h => h) n hst'
    rw [← hrun] at h
    exact h
  · intro args n hst
    have hrun := fUdtClientRun_vars P args
    have hst' : (Vars.run (udtProfiler P) P args (n + 1)).started ≠
        (Vars.run (udtProfiler P) P args n).started := by
      rw [← hrun, ← hrun]; exact hst
    have h := Vars.run_entry (Q := fun v => UdtLegal P.ctrl.hostMaxBuf P.ctrl.mss v.1) hhost
      (fun w pt e hw hpt => udtProfiler_legal hmss hw hpt e)
      (fun v y n p e h =>
        ⟨h.segments, h.blocksize, h.udtSend, h.udtRecv, h.udpSend, h.udpRecv⟩) n hst'
    rw [← hrun] at h
    exact h

theorem clientRun_legal_plain :
    (∀ lib args n, (fTcpClientRun lib (plainSetup (10 ^ 10) 60 fun _ => 900) args (n + 1)).started ≠
        (fTcpClientRun lib (plainSetup (10 ^ 10) 60 fun _ => 900) args n).started →
      TcpLegal (K := ℚ) 212992
        ((fTcpClientRun lib (plainSetup (10 ^ 10) 60 fun _ => 900) args (n + 1)).store
          args.prof.tcpProf)) ∧
    ∀ args n, (fUdtClientRun (plainSetup (10 ^ 10) 60 fun _ => 900) args (n + 1)).started ≠
        (fUdtClientRun (plainSetup (10 ^ 10) 60 fun _ => 900) args n).started →
      UdtLegal 212992 1500
        (fUdtClientRun (plainSetup (10 ^ 10) 60 fun _ => 900) args (n + 1)).blockSize
        ((fUdtClientRun (plainSetup (10 ^ 10) 60 fun _ => 900) args (n + 1)).store
          args.prof.udtProf) :=
  clientRun_legal (plainSetup (10 ^ 10) 60 fun _ => 900) (by decide) (by decide)

/-- With a segment size of 200 MB the largest block does not fit an `int`, and
the first test is programmed with a negative one. -/
theorem not_udtLegal_huge_mss :
    let P : Setup ℚ := ⟨plainArith, { plainCtrl (10 ^ 10) 60 with mss := 2 * 10 ^ 8 },
      plainOutcomes fun _ => 900⟩
    fBufMin ≤ P.ctrl.hostMaxBuf ∧ 44 < P.ctrl.mss ∧
      (fUdtClientRun P plainUdtArgs 1).started ≠ (fUdtClientRun P plainUdtArgs 0).started ∧
      ¬ P.ctrl.mss - 44 ≤ ((fUdtClientRun P plainUdtArgs 1).store 0).blocksize := by
  decide +kernel

end Fastprof
end Probdata
