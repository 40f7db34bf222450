/-
# The recommendation at the end of a memory-to-memory session

`probdata_client` compares three values after its loop: the throughputs in the two
`prof_max`, and the performance in `m2m_record_max`. Each is written only by a
search that found something better; until then it is what the memory held. Each of
the three comparisons is strict, so of equal values none is printed.

Key theorem: `recommends_iff`, from what was measured, what the history file holds,
and what was in memory: when one block is printed, with the best performance of the
session (`Recommends`).
-/
import Probdata.Lib.Text.Double
import Probdata.Session.MemoryToMemory
import Probdata.Fastprof.History
import Probdata.Fastprof.Kept

namespace Probdata
namespace Session

open Wire Text Fastprof

/-- A block that is printed. -/
inductive Recommendation
  | udt (srcIp dstIp : List Char) (pktSize blkSize bufSize streams : ℤ) (maxPerf : Dbl)
  | tcp (srcIp dstIp : List Char) (pktSize blkSize bufSize streams : ℤ) (maxPerf : Dbl)
  | record (r : MemRecord)

def Recommendation.maxPerf : Recommendation → Dbl
  | .udt _ _ _ _ _ _ maxPerf => maxPerf
  | .tcp _ _ _ _ _ _ maxPerf => maxPerf
  | .record r => r.averagePerf

/-- What `probdata_client` prints after its loop. The three performances are compared
as doubles: what was read from the history is a decimal. -/
def recommendations (localIp remoteIp : List Char) (t : TcpVars ℚ) (u : UdtVars ℚ)
    (recordMax : MemRecord) : List Recommendation :=
  let tcpPerf := (Dbl.num t.profMax.perfMbps).nearest
  let udtPerf := (Dbl.num u.profMax.perfMbps).nearest
  let recordPerf := recordMax.averagePerf.nearest
  let tcpProf := t.store t.profMax.tcpProf
  let udtProf := u.store u.profMax.udtProf
  (if tcpPerf.lt udtPerf ∧ recordPerf.lt udtPerf then
    [.udt localIp remoteIp (udtProf.udtMss - 44) udtProf.blocksize udtProf.udtSendBufsize
      udtProf.totalStreamNum (.num u.profMax.perfMbps)]
  else []) ++
  (if udtPerf.lt tcpPerf ∧ recordPerf.lt tcpPerf then
    [.tcp localIp remoteIp tcpProf.mss tcpProf.blksize tcpProf.socketBufsize tcpProf.numStreams
      (.num t.profMax.perfMbps)]
  else []) ++
  (if tcpPerf.lt recordPerf ∧ udtPerf.lt recordPerf then [.record recordMax] else [])

/-! ### What a session is about -/

/-- What a client meets in a memory-to-memory session, and what its memory holds
before: the history, and the two searches with their `prof_max`. -/
structure Profiling where
  profiles : Profiles
  dbFile : Option (List Char)
  localIp : List Char
  remoteIp : List Char
  recordMax : MemRecord
  lib : IperfLib
  tcpSetup : Setup ℚ
  tcpArgs : Args (FastprofTcpProf ℚ) IperfTest
  udtSetup : Setup ℚ
  udtArgs : Args (FastprofUdtProf ℚ) (TpgProfile ℚ)

namespace Profiling

variable (I : Profiling)

/-- The search in the history. -/
def search : ℤ × MemRecord × Profiles :=
  fM2mDbSearch I.profiles I.dbFile I.localIp I.remoteIp I.recordMax

def found : Bool := 0 ≤ I.search.1

/-- `m2m_record_max` after it. -/
def history : MemRecord := I.search.2.1

/-- The TCP search of a session: run to an end that is no failure, or not run. -/
def TcpAfter (σ : Config Item Act Side Side) (t : TcpVars ℚ) : Prop :=
  if .search .tcp ∈ acts σ.leftLog then
    (∃ n, t = fTcpClientRun I.lib I.tcpSetup I.tcpArgs n) ∧ (t.pc = .done ∨ t.pc = .ret 0)
  else t = fTcpClientRun I.lib I.tcpSetup I.tcpArgs 0

/-- The UDT search of a session. -/
def UdtAfter (σ : Config Item Act Side Side) (u : UdtVars ℚ) : Prop :=
  if .search .udt ∈ acts σ.leftLog then
    (∃ n, u = fUdtClientRun I.udtSetup I.udtArgs n) ∧ (u.pc = .done ∨ u.pc = .ret 0)
  else u = fUdtClientRun I.udtSetup I.udtArgs 0

/-- The records of the history file, if there is one, up to the first line that is no
record. -/
def records : List MemRecord :=
  (searched I.profiles I.dbFile I.localIp I.remoteIp).elim [] fun text =>
    Fastprof.records (reads 511 text)

/-- The history file is there, every line of it is a record or passed over, and one
of the records is not negative. -/
def usable : Bool :=
  match searched I.profiles I.dbFile I.localIp I.remoteIp with
  | none => false
  | some text => (beforeMalformed (reads 511 text)).isNone ∧ ∃ r ∈ I.records, r.averagePerf.Nonneg

/-- The performances of a session: those of the records, if the history is usable,
and all throughputs measured. -/
def performances (t : TcpVars ℚ) (u : UdtVars ℚ) : List Dbl :=
  (if I.usable then I.records.map fun r => r.averagePerf.nearest else []) ++
    t.vars.measured.map (fun y => (Dbl.num y).nearest) ++
    u.vars.measured.map fun y => (Dbl.num y).nearest

end Profiling

/-- The largest of some values. -/
def IsMaximum (x : Dbl) (xs : List Dbl) : Prop := x ∈ xs ∧ ∀ y ∈ xs, x.lt y = false

/-- One block is printed, and its performance is the largest of the session. -/
def Recommends (I : Profiling) (t : TcpVars ℚ) (u : UdtVars ℚ) : Prop :=
  ∃ b, recommendations I.localIp I.remoteIp t u I.history = [b] ∧
    IsMaximum b.maxPerf.nearest (I.performances t u)

/-! ### What the three sources offer -/

/-- What a search offers that compared the throughputs `ys`, where `prof_max` held `b`:
`b` again, if none of them is positive. -/
def offered (b : ℚ) (ys : List ℚ) : List Dbl :=
  (if ∃ y ∈ ys, 0 < y then ys else [b]).map fun y => (Dbl.num y).nearest

/-- What the history offers: the numbers among its records, and the -1 that the search
starts from; without a file, what the memory held. -/
def Profiling.remembered (I : Profiling) : List Dbl :=
  match searched I.profiles I.dbFile I.localIp I.remoteIp with
  | none => [I.recordMax.averagePerf.nearest]
  | some _ =>
    ((Dbl.num (-1) :: I.records.map MemRecord.averagePerf).filter (· ≠ Dbl.nan)).map Dbl.nearest

/-- All of some values are smaller. -/
def Below (ys : List Dbl) (x : Dbl) : Prop := ∀ y ∈ ys, y.lt x = true

/-- One of the three sources offers the largest performance of the session, and all
that the two others offer is smaller. -/
def Decided (tcp udt history xs : List Dbl) : Prop :=
  ∃ x, IsMaximum x xs ∧
    (IsMaximum x udt ∧ Below tcp x ∧ Below history x ∨
      IsMaximum x tcp ∧ Below udt x ∧ Below history x ∨
      IsMaximum x history ∧ Below tcp x ∧ Below udt x)

/-- `m` is what a comparison sees of the values `ys`. -/
def Leads (m : Dbl) (ys : List Dbl) : Prop := IsMaximum m ys ∧ (.nan ∉ ys ∨ ys = [m])

namespace Leads

variable {m x : Dbl} {ys : List Dbl}

theorem isMaximum_iff (h : Leads m ys) : IsMaximum x ys ↔ x = m := by
  obtain ⟨hm, hnan | rfl⟩ := h
  · refine ⟨fun hx => ?_, fun hx => hx ▸ hm⟩
    exact Dbl.eq_of_le (fun h => hnan (h ▸ hx.1)) (fun h => hnan (h ▸ hm.1)) (hx.2 m hm.1) (hm.2 x hx.1)
  · exact ⟨fun hx => List.mem_singleton.mp hx.1, fun hx => hx ▸ hm⟩

theorem below_iff (h : Leads m ys) : Below ys x ↔ m.lt x = true := by
  obtain ⟨hm, hnan | rfl⟩ := h
  · refine ⟨fun hx => hx m hm.1, fun hx y hy => ?_⟩
    exact Dbl.lt_of_not_gt (hm.2 y hy) (fun h => hnan (h ▸ hy)) hx
  · exact List.forall_mem_singleton

end Leads

/-- The largest of some numbers is read as the largest of the doubles. -/
theorem Leads.nearest {x : Dbl} {ys : List Dbl} (hx : IsMaximum x ys) (hnan : .nan ∉ ys) :
    Leads x.nearest (ys.map Dbl.nearest) := by
  refine ⟨⟨List.mem_map_of_mem hx.1, fun z hz => ?_⟩, .inl fun hz => ?_⟩
  · obtain ⟨y, hy, rfl⟩ := List.mem_map.mp hz
    by_contra hlt
    have h := Dbl.lt_of_nearest_lt (by simpa using hlt)
    rw [hx.2 y hy] at h
    cases h
  · obtain ⟨y, hy, hynan⟩ := List.mem_map.mp hz
    exact Dbl.nearest_ne_nan (fun h => hnan (h ▸ hy)) hynan

/-- What a search leaves in `prof_max`. -/
theorem leads_offered {b x : ℚ} {ys : List ℚ} (h : x = kept b ys) :
    Leads (Dbl.num x).nearest (offered b ys) := by
  have hmap : ∀ zs : List ℚ, zs.map (fun y => (Dbl.num y).nearest) = (zs.map .num).map Dbl.nearest :=
    fun zs => by simp
  have hnan : ∀ zs : List ℚ, Dbl.nan ∉ zs.map .num := fun zs => by simp
  rw [h, offered, kept, hmap]
  by_cases hpos : 0 < Running.best 0 ys
  · have hmem := Running.best_mem hpos
    rw [if_pos hpos, if_pos ⟨_, hmem, hpos⟩]
    refine Leads.nearest ⟨List.mem_map_of_mem hmem, fun z hz => ?_⟩ (hnan ys)
    obtain ⟨y, hy, rfl⟩ := List.mem_map.mp hz
    simpa [Dbl.lt] using Running.le_best_of_mem hy
  · have hnone : ¬ ∃ y ∈ ys, 0 < y := by
      rintro ⟨y, hy, hy0⟩
      exact hpos (hy0.trans_le (Running.le_best_of_mem hy))
    rw [if_neg hpos, if_neg hnone]
    exact Leads.nearest ⟨by simp, by simp [Dbl.lt]⟩ (hnan [b])

/-- The loop of the search: what it returns, and what it keeps. -/
theorem searchLines_leads (ls : List (List Char)) {m : MemRecord} (hm : m.averagePerf = .num (-1)) :
    (0 ≤ (searchLines ls m).1 ↔
        (beforeMalformed ls).isNone ∧ ∃ r ∈ records ls, r.averagePerf.Nonneg) ∧
      Leads (searchLines ls m).2.averagePerf.nearest
        (((Dbl.num (-1) :: (records ls).map MemRecord.averagePerf).filter (· ≠ Dbl.nan)).map
          Dbl.nearest) := by
  have hneg := foldl_better_neg_iff (m := m) (by rw [hm]; rfl) (records ls)
  obtain ⟨hnan, hmem, hmax⟩ := foldl_better_max (m := m) (by simp [hm]) (records ls)
  rw [searchLines_eq]
  constructor
  · cases hmal : beforeMalformed ls with
    | some rs => simp
    | none =>
      by_cases hall : ∀ r ∈ records ls, ¬ r.averagePerf.Nonneg
      · simpa [hneg.mpr hall] using hall
      · have hnone := mt hneg.mp hall
        simpa [hnone] using hall
  · refine Leads.nearest ⟨List.mem_filter.mpr ⟨?_, by simpa using hnan⟩, fun y hy => ?_⟩ (by simp)
    · rcases hmem with h | ⟨r, hr, h⟩
      · rw [h, hm]
        exact List.mem_cons_self
      · rw [h]
        exact List.mem_cons_of_mem _ (List.mem_map_of_mem hr)
    · rcases List.mem_cons.mp (List.mem_filter.mp hy).1 with rfl | hy
      · exact hm ▸ hmax m List.mem_cons_self
      · obtain ⟨r, hr, rfl⟩ := List.mem_map.mp hy
        exact hmax r (List.mem_cons_of_mem _ hr)

/-- What the search in the history returns and leaves. -/
theorem Profiling.search_eq (I : Profiling) :
    I.found = I.usable ∧ Leads I.history.averagePerf.nearest I.remembered := by
  unfold found history remembered usable search
  cases htext : searched I.profiles I.dbFile I.localIp I.remoteIp with
  | none =>
    obtain ⟨d, hsearch⟩ := fM2mDbSearch_none htext I.recordMax
    rw [hsearch]
    exact ⟨rfl, ⟨by simp, by simp [Dbl.lt_self]⟩, .inr rfl⟩
  | some text =>
    have hrecords : I.records = Fastprof.records (reads 511 text) := by
      rw [Profiling.records, htext]
      rfl
    obtain ⟨hret, hlead⟩ := searchLines_leads (reads 511 text)
      (m := { I.recordMax with averagePerf := .num (-1) }) rfl
    rw [fM2mDbSearch_some htext, hrecords]
    exact ⟨decide_eq_decide.mpr hret, hlead⟩

/-! ### The blocks -/

/-- When one block is printed, in terms of the three values compared. -/
theorem recommends_iff_values (I : Profiling) (t : TcpVars ℚ) (u : UdtVars ℚ) {T U H : Dbl}
    (hT : (Dbl.num t.profMax.perfMbps).nearest = T) (hU : (Dbl.num u.profMax.perfMbps).nearest = U)
    (hH : I.history.averagePerf.nearest = H) :
    Recommends I t u ↔ ∃ x, IsMaximum x (I.performances t u) ∧
      (x = U ∧ T.lt x = true ∧ H.lt x = true ∨ x = T ∧ U.lt x = true ∧ H.lt x = true ∨
        x = H ∧ T.lt x = true ∧ U.lt x = true) := by
  unfold Recommends recommendations
  dsimp only
  rw [hT, hU, hH]
  by_cases hu : T.lt U = true ∧ H.lt U = true
  · have ht : ¬ (U.lt T = true ∧ H.lt T = true) := fun h => by
      simp [Dbl.lt_asymm hu.1] at h
    have hh : ¬ (T.lt H = true ∧ U.lt H = true) := fun h => by
      simp [Dbl.lt_asymm hu.2] at h
    rw [if_pos hu, if_neg ht, if_neg hh]
    constructor
    · rintro ⟨b, hb, hmax⟩
      obtain rfl := List.singleton_injective hb
      exact ⟨U, hU ▸ hmax, .inl ⟨rfl, hu⟩⟩
    · rintro ⟨x, hmax, ⟨rfl, -⟩ | ⟨rfl, h⟩ | ⟨rfl, h⟩⟩
      · exact ⟨_, rfl, hU.symm ▸ hmax⟩
      · exact absurd h ht
      · exact absurd h hh
  by_cases ht : U.lt T = true ∧ H.lt T = true
  · have hh : ¬ (T.lt H = true ∧ U.lt H = true) := fun h => by
      simp [Dbl.lt_asymm ht.2] at h
    rw [if_neg hu, if_pos ht, if_neg hh]
    constructor
    · rintro ⟨b, hb, hmax⟩
      obtain rfl := List.singleton_injective hb
      exact ⟨T, hT ▸ hmax, .inr (.inl ⟨rfl, ht⟩)⟩
    · rintro ⟨x, hmax, ⟨rfl, h⟩ | ⟨rfl, -⟩ | ⟨rfl, h⟩⟩
      · exact absurd h hu
      · exact ⟨_, rfl, hT.symm ▸ hmax⟩
      · exact absurd h hh
  rw [if_neg hu, if_neg ht]
  by_cases hh : T.lt H = true ∧ U.lt H = true
  · rw [if_pos hh]
    constructor
    · rintro ⟨b, hb, hmax⟩
      obtain rfl := List.singleton_injective hb
      exact ⟨H, hH ▸ hmax, .inr (.inr ⟨rfl, hh⟩)⟩
    · rintro ⟨x, hmax, ⟨rfl, h⟩ | ⟨rfl, h⟩ | ⟨rfl, -⟩⟩
      · exact absurd h hu
      · exact absurd h ht
      · exact ⟨_, rfl, hH.symm ▸ hmax⟩
  · -- no block is printed
    rw [if_neg hh]
    constructor
    · rintro ⟨b, hb, -⟩
      exact absurd hb (by simp)
    · rintro ⟨x, -, ⟨rfl, h⟩ | ⟨rfl, h⟩ | ⟨rfl, h⟩⟩
      · exact absurd h hu
      · exact absurd h ht
      · exact absurd h hh

/-- When one block is printed, in terms of what the three sources offer. -/
theorem recommends_iff_decided {I : Profiling} {t : TcpVars ℚ} {u : UdtVars ℚ}
    {tcp udt history : List Dbl} (hT : Leads (Dbl.num t.profMax.perfMbps).nearest tcp)
    (hU : Leads (Dbl.num u.profMax.perfMbps).nearest udt)
    (hH : Leads I.history.averagePerf.nearest history) :
    Recommends I t u ↔ Decided tcp udt history (I.performances t u) := by
  rw [recommends_iff_values I t u rfl rfl rfl]
  unfold Decided
  simp only [hT.isMaximum_iff, hT.below_iff, hU.isMaximum_iff, hU.below_iff, hH.isMaximum_iff,
    hH.below_iff]

/-! ### Which searches are run -/

namespace Parties

variable {S : Parties}

/-- `P_PROGRAM_DONE` is the last of the client's acts. -/
theorem eq_of_done {as l : List Act} (hl : l <+: as ++ [.proc .programDone])
    (has : .proc .programDone ∉ as) (hdone : .proc .programDone ∈ l) :
    l = as ++ [.proc .programDone] := by
  rcases List.prefix_concat_iff.mp hl with h | h
  · exact h
  · exact absurd (h.subset hdone) has

/-- The acts of the client in a session that comes to `P_PROGRAM_DONE`. -/
theorem acts_of_done (hm : S.MemoryToMemory) {σ : Config Item Act Side Side}
    (hσ : S.Reachable σ) (hdone : .proc .programDone ∈ acts σ.leftLog) :
    acts σ.leftLog = [.proc .ctrlChanEst, .proc .twowayHandshake, .proc .runM2mDb] ++
      (if S.clientEnv.found = true ∧ Prob.udtOnly S.client = true then []
        else [.proc .runM2mTcp, .search .tcp]) ++
      [.proc .runM2mUdt, .search .udt] ++ [.proc .programDone] := by
  obtain ⟨r, hr, -⟩ := (S.invariant hσ).leftLog
  have hpre : acts σ.leftLog <+: acts (side S.talk) := by
    rw [← show σ.leftLog ++ r = side S.talk from hr.symm, acts_append]
    exact List.prefix_append _ _
  have htalk : acts (side S.talk) = [.proc .ctrlChanEst, .proc .twowayHandshake] ++
      acts (side S.m2mPart) := by
    rw [hm.talk_eq, side_append, acts_append, acts_opening]
  rw [htalk] at hpre
  -- a search that fails ends the client before `P_PROGRAM_DONE`
  have hnot : ∀ k, .proc .programDone ∉ Client.searches S.clientEnv k := fun k => by
    unfold Client.searches
    split <;> simp
  have hrun : ∀ k, S.clientEnv.run k = some true → Client.searches S.clientEnv k = [.search k] :=
    fun k hk => if_neg (by simp [hk])
  by_cases hf : S.clientEnv.found = true ∧ Prob.udtOnly S.client = true
  · rw [S.m2mPart_udt hf.1 hf.2, side_append, acts_append, acts_round, acts_thenSend,
      acts_udtTalk] at hpre
    rw [if_pos hf]
    by_cases hu : S.clientEnv.run .udt = some true
    · rw [if_pos hu, hrun _ hu] at hpre
      exact eq_of_done hpre (by simp) hdone
    · rw [if_neg hu] at hpre
      exact absurd (hpre.subset hdone) (by simp [hnot])
  · rw [S.m2mPart_tcp hf, side_append, acts_append, acts_round, acts_thenSend, acts_tcpTalk] at hpre
    rw [if_neg hf]
    by_cases ht : S.clientEnv.run .tcp = some true
    · rw [if_pos ht, hrun _ ht, acts_udtTalk] at hpre
      by_cases hu : S.clientEnv.run .udt = some true
      · rw [if_pos hu, hrun _ hu] at hpre
        exact eq_of_done hpre (by simp) hdone
      · rw [if_neg hu] at hpre
        exact absurd (hpre.subset hdone) (by simp [hnot])
    · rw [if_neg ht] at hpre
      exact absurd (hpre.subset hdone) (by simp [hnot])

theorem searched_of_done (hm : S.MemoryToMemory) {σ : Config Item Act Side Side}
    (hσ : S.Reachable σ) (hdone : .proc .programDone ∈ acts σ.leftLog) :
    .search .udt ∈ acts σ.leftLog ∧ (.search .tcp ∈ acts σ.leftLog ↔
      ¬ (S.clientEnv.found = true ∧ Prob.udtOnly S.client = true)) := by
  rw [acts_of_done hm hσ hdone]
  split <;> simp_all

end Parties

/-! ### The largest performance -/

/-- **When the largest performance of a session is recommended.** -/
theorem recommends_iff {S : Parties} (hm : S.MemoryToMemory) {σ : Config Item Act Side Side}
    (hσ : S.Reachable σ) (hdone : .proc .programDone ∈ acts σ.leftLog) {I : Profiling}
    (hI : S.clientEnv.found = I.found) {t : TcpVars ℚ} {u : UdtVars ℚ} (ht : I.TcpAfter σ t)
    (hu : I.UdtAfter σ u) : Recommends I t u ↔
      Decided
        (offered I.tcpArgs.profMax.perfMbps
          (if I.usable = true ∧ Prob.udtOnly S.client = true then [] else t.vars.compared))
        (offered I.udtArgs.profMax.perfMbps u.vars.compared) I.remembered (I.performances t u) := by
  obtain ⟨hudt, htcp⟩ := Parties.searched_of_done hm hσ hdone
  obtain ⟨hfound, hH⟩ := I.search_eq
  refine recommends_iff_decided ?_ ?_ hH
  · rw [← hfound, ← hI]
    by_cases hskip : S.clientEnv.found = true ∧ Prob.udtOnly S.client = true
    · rw [Profiling.TcpAfter, if_neg fun h => htcp.mp h hskip] at ht
      rw [if_pos hskip, ht]
      exact leads_offered rfl
    · rw [Profiling.TcpAfter, if_pos (htcp.mpr hskip)] at ht
      obtain ⟨⟨n, rfl⟩, -⟩ := ht
      have hkeep := Vars.keepsBest_run (tcpProfiler I.lib I.tcpSetup) I.tcpSetup I.tcpArgs n
      rw [← fTcpClientRun_vars] at hkeep
      rw [if_neg hskip]
      exact leads_offered hkeep
  · rw [Profiling.UdtAfter, if_pos hudt] at hu
    obtain ⟨⟨n, rfl⟩, -⟩ := hu
    have hkeep := Vars.keepsBest_run (udtProfiler I.udtSetup) I.udtSetup I.udtArgs n
    rw [← fUdtClientRun_vars] at hkeep
    exact leads_offered hkeep

/-- A session without a history, with the throughputs of its TCP tests and of its
UDT tests. -/
def plainProfiling (tcp udt : ℕ → ℚ) : Profiling where
  profiles := { emptyProfiles with file := fun _ => none }
  dbFile := none
  localIp := []
  remoteIp := []
  recordMax := { sampleRecord with averagePerf := .num 0 }
  lib := plainIperf
  tcpSetup := plainSetup (10 ^ 10) 3 tcp
  tcpArgs := plainTcpArgs
  udtSetup := plainSetup (10 ^ 10) 3 udt
  udtArgs := plainUdtArgs

namespace Profiling

variable (I : Profiling)

/-- The TCP search of a session after three tests. -/
def plainTcp : TcpVars ℚ := fTcpClientRun I.lib I.tcpSetup I.tcpArgs 4

/-- The UDT search of a session after three tests. -/
def plainUdt : UdtVars ℚ := fUdtClientRun I.udtSetup I.udtArgs 4

end Profiling

/-- TCP is the faster one of the two. -/
def fasterTcp : Profiling := plainProfiling (fun n => 100 * (n + 1)) fun _ => 200

/-- The two are equally fast. -/
def equallyFast : Profiling := plainProfiling (fun n => 100 * (n + 1)) fun _ => 300

/-- A plain session with both searches. -/
theorem exists_searched (I : Profiling) (ht : I.plainTcp.pc = .done) (hu : I.plainUdt.pc = .done) :
    ∃ σ, (plainParties false false).Reachable σ ∧ .proc .programDone ∈ acts σ.leftLog ∧
      I.TcpAfter σ I.plainTcp ∧ I.UdtAfter σ I.plainUdt := by
  obtain ⟨σ, hσ, hl, -⟩ := (plainParties false false).exists_end
  refine ⟨σ, hσ, by rw [hl]; decide, ?_, ?_⟩
  · rw [Profiling.TcpAfter, if_pos (by rw [hl]; decide)]
    exact ⟨⟨4, rfl⟩, .inl ht⟩
  · rw [Profiling.UdtAfter, if_pos (by rw [hl]; decide)]
    exact ⟨⟨4, rfl⟩, .inl hu⟩

theorem recommends_iff_fasterTcp :
    Recommends fasterTcp fasterTcp.plainTcp fasterTcp.plainUdt := by
  obtain ⟨σ, hσ, hdone, ht, hu⟩ := exists_searched fasterTcp (by decide +kernel) (by decide +kernel)
  have hiff := recommends_iff (S := plainParties false false) ⟨rfl, rfl⟩ hσ hdone
    (I := fasterTcp) (by decide +kernel) ht hu
  refine hiff.mpr ⟨.num 300, ⟨by decide +kernel, by decide +kernel⟩, .inr (.inl ⟨?_, ?_, ?_⟩)⟩
  · exact ⟨by decide +kernel, by decide +kernel⟩
  · exact fun y hy => by revert y; decide +kernel
  · exact fun y hy => by revert y; decide +kernel

/-- Equal throughputs: nothing is printed. -/
theorem not_recommends_equallyFast : ∃ σ, (plainParties false false).Reachable σ ∧
    .proc .programDone ∈ acts σ.leftLog ∧
    (plainParties false false).clientEnv.found = equallyFast.found ∧
    equallyFast.TcpAfter σ equallyFast.plainTcp ∧ equallyFast.UdtAfter σ equallyFast.plainUdt ∧
    Dbl.num 300 ∈ equallyFast.performances equallyFast.plainTcp equallyFast.plainUdt ∧
    ¬ Recommends equallyFast equallyFast.plainTcp equallyFast.plainUdt := by
  obtain ⟨σ, hσ, hdone, ht, hu⟩ :=
    exists_searched equallyFast (by decide +kernel) (by decide +kernel)
  refine ⟨σ, hσ, hdone, by decide +kernel, ht, hu, by decide +kernel, ?_⟩
  rintro ⟨b, hb, -⟩
  have hnone : (recommendations equallyFast.localIp equallyFast.remoteIp equallyFast.plainTcp
      equallyFast.plainUdt equallyFast.history).length = 0 := by decide +kernel
  rw [hb] at hnone
  exact Nat.succ_ne_zero _ hnone

end Session
end Probdata
