/-
# What a client reads of its memory

Where nothing has been written, memory may hold anything: two clients in the same
`World` and two such memories. They are configured alike, start alike, and stay on one
level as long as no step `Reads` what was never written. The first step that does
differs in some two memories: another file is opened, a search goes on differently,
or another recommendation is printed.

Key theorem: `World.seen_iff`, when what is seen of a client does not depend on what
its memory held.
-/
import Probdata.Session.Memory
import Probdata.Session.CommandLine

namespace Probdata
namespace Session

open Wire Bytes Text Fastprof

/-! ### The start of two clients -/

/-- A client before its options are parsed, with other values where none was written. -/
def Prob.held (st : Status) (buf : BitVec 32) (a : List UInt8) (p : Prob) : Prob :=
  { p with status := st, controlHostMaxBuf := buf, controlLocalIp := a }

/-- No option is looked for there. -/
theorem cmdParseLoop_held (st : Status) (buf : BitVec 32) (a : List UInt8) (os : List Opt)
    (p : Prob) (src dst : Bool) : cmdParseLoop os (p.held st buf a) src dst =
      (cmdParseLoop os p src dst).map fun x => (x.1.held st buf a, x.2) := by
  induction os generalizing p src dst with
  | nil => rfl
  | cons o os ih =>
    cases o with
    | server =>
      change (if p.role = .client then _ else _) = Option.map _ (if p.role = .client then _ else _)
      split
      · rfl
      · exact ih { p with role := .server } src dst
    | client addr =>
      change (if p.role = .server then _ else _) = Option.map _ (if p.role = .server then _ else _)
      split
      · rfl
      · exact ih { p with role := .client, remoteIp := setString addr p.remoteIp } src dst
    | srcFile name => exact ih { p with srcFile := setString name p.srcFile } true dst
    | dstFile name => exact ih { p with dstFile := setString name p.dstFile } src true
    | udt => exact ih { p with doUdtOnly := 1 } src dst
    | parameter => exact ih p src dst
    | exits => rfl

theorem cmdParse_held (st : Status) (buf : BitVec 32) (a : List UInt8) (os : List Opt) (p : Prob) :
    cmdParse (p.held st buf a) os = (cmdParse p os).map (Prob.held st buf a) := by
  unfold cmdParse
  rw [cmdParseLoop_held]
  rcases cmdParseLoop os p false false with _ | ⟨q, src, dst⟩
  · rfl
  dsimp only [Option.map_some]
  change (if q.role ≠ .client ∧ q.role ≠ .server then _ else _) = _
  split
  · rfl
  split
  · rfl
  split <;> rfl

namespace World

variable (W : World) (m m' : Memory)

/-- The client `p`, as it is configured in the memory `m'`. -/
def inMemory (m' : Memory) (p : Prob) : Prob :=
  { p with status := m'.status, controlLocalIp := setString (cstr p.localIp) m'.controlLocalIp }

/-- `probdata_set_control` writes the size, and an address over the other. -/
theorem configured_eq : W.configured m' = (W.configured m).map (inMemory m') := by
  have hnew : getMaxBuf W.maxMem (newAndDefault m'.status m'.controlHostMaxBuf m'.controlLocalIp) =
      (getMaxBuf W.maxMem (newAndDefault m.status m.controlHostMaxBuf m.controlLocalIp)).held
        m'.status m'.controlHostMaxBuf m'.controlLocalIp := by
    unfold getMaxBuf
    split <;> rfl
  unfold configured configure
  rw [hnew, cmdParse_held]
  rcases cmdParse (getMaxBuf W.maxMem
    (newAndDefault m.status m.controlHostMaxBuf m.controlLocalIp)) (W.args.map Arg.toOpt) with _ | p
  · rfl
  · change (if decide (p.role = .client) = true then _ else _) =
      Option.map _ (if decide (p.role = .client) = true then _ else _)
    split <;> rfl

/-- Two clients that start show the same. -/
theorem agree_started (p : Prob) : Agree W (W.started m p) (W.started m' (inMemory m' p)) := by
  obtain ⟨hops, hfeed, hret, hprob⟩ := alike_start ⟨W.id, W.id_length, false, true, fun _ => none⟩ p
    m'.status (setString (cstr p.localIp) m'.controlLocalIp) W.feed
  have hothers : (setParams W.special m.var W.args Params.default).others =
      (setParams W.special m'.var W.args Params.default).others := setParams_others _ rfl
  have hrtt : (setParams W.special m.var W.args Params.default).others.rttMs =
      (setParams W.special m'.var W.args Params.default).others.rttMs := by rw [hothers]
  change (setParams W.special m.var W.args Params.default).rttMs =
    (setParams W.special m'.var W.args Params.default).rttMs at hrtt
  refine ⟨hret, ?_, fun hnone => ?_⟩
  · change (if _ then _ else _) ++ List.map _ _ = (if _ then _ else _) ++ List.map _ _
    rw [hrtt]
    exact congrArg (fun ops => _ ++ List.map Event.op ops) hops
  · refine ⟨hprob hnone, hothers, fun hread => ?_, ?_, rfl, rfl, SameFiles.refl _, hfeed⟩
    · exact setParams_bandwidth_of_read W.args (fun _ => rfl) hread
    · change (if _ then _ else _) = (if _ then _ else _)
      rw [hrtt]

end World

/-! ### Two runs -/

/-- Steps that read only what was written keep two clients in agreement. -/
theorem Agree.iterate {W : World} {x y : Whole} (h : Agree W x y) {n : ℕ}
    (hr : ∀ i < n, ¬ ((Whole.step W)^[i] x).Reads W) :
    Agree W ((Whole.step W)^[n] x) ((Whole.step W)^[n] y) := by
  induction n with
  | zero => exact h
  | succ n ih =>
    rw [Function.iterate_succ_apply', Function.iterate_succ_apply']
    exact (ih fun i hi => hr i (hi.trans n.lt_succ_self)).step (hr n n.lt_succ_self)

/-- A client that goes on where another does the same reads the same. -/
theorem Agree.handles {W : World} {x y : Whole} (h : Agree W x y) {st : Status}
    (hx : x.Handles st) : y.Handles st := by
  have hl := h.level hx.running
  refine ⟨h.ret ▸ hx.running, hl.status ▸ hx.loops, ?_, hl.poll.status ▸ hx.status⟩
  rw [← hl.polled.2.2.1]
  exact hx.polled

namespace Whole

variable {W : World} {x y : Whole}

/-! ### What is shown of a value that was never written -/

/-- What an operation shows begins with the operation. -/
theorem events_eq_cons (o : Op Item Act) : ∃ l, x.events W o = .op o :: l := by
  unfold events
  split <;> exact ⟨_, rfl⟩

theorem opens_not_first {name : List Char} {l : List Event} (ops : List (Op Item Act)) :
    Event.opens name :: l ≠ ops.flatMap (x.events W) := by
  intro h
  cases ops with
  | nil => cases h
  | cons o ops =>
    obtain ⟨l', hl'⟩ := events_eq_cons (W := W) (x := x) o
    rw [List.flatMap_cons, hl'] at h
    cases h

/-- What a step shows that handles a packet: all of its handler, or what comes up to the
end of a search in which the client is killed. -/
theorem step_log_cases {st : Status} (h : x.Handles st) :
    (x.step W).log = x.poll.log ++ (x.poll.handled W).ops.flatMap (x.poll.events W) ∨
      ∃ k : Kind, st = k.asks ∧ (x.step W).log = x.poll.log ++
        [.act (.proc st), .act (.search k)].flatMap (x.poll.events W) := by
  rw [step_of_handles h]
  unfold process
  cases hk : x.poll.killed W with
  | none => exact .inl rfl
  | some k =>
    have hst := h.status.symm.trans (killed_eq_some.mp hk).1.1
    exact .inr ⟨k, hst, hst ▸ rfl⟩

/-- A handler processes its status before anything else. -/
theorem step_log {st : Status} (h : x.Handles st) : ∃ ops : List (Op Item Act), (x.step W).log =
    x.poll.log ++ (x.poll.events W (.act (.proc st)) ++ ops.flatMap (x.poll.events W)) := by
  obtain ⟨ops, hops⟩ : ∃ ops, (x.poll.handled W).ops = .act (.proc x.poll.prob.status) :: ops :=
    ⟨_, rfl⟩
  rcases step_log_cases (W := W) h with hlog | ⟨k, -, hlog⟩
  · exact ⟨ops, by rw [hlog, hops, h.status, List.flatMap_cons]⟩
  · exact ⟨[.act (.search k)], by rw [hlog, List.flatMap_cons]⟩

/-- A handler that runs a search does so before anything else. -/
theorem step_log_search {k : Kind} (h : x.Handles k.asks) (hp : W.prepared k x.poll.calls = true) :
    ∃ ops : List (Op Item Act), (x.step W).log = x.poll.log ++ (.op (.act (.proc k.asks)) ::
      (x.poll.events W (.act (.search k)) ++ ops.flatMap (x.poll.events W))) := by
  have hrun : (x.poll.env W).run k = some (decide (0 ≤ x.poll.returned W k)) := if_pos hp
  have hfast : ∃ r, Client.fastprofRun (x.poll.env W) k = .act (.search k) (.ret r) := by
    rw [Client.fastprofRun, hrun]
    exact ⟨_, rfl⟩
  obtain ⟨r, hr⟩ := hfast
  obtain ⟨ops, hops⟩ :
      ∃ ops, (x.poll.handled W).ops = .act (.proc k.asks) :: .act (.search k) :: ops := by
    have hst := h.status
    unfold handled Client.procCtrlPacket
    cases k with
    | tcp =>
      rw [show x.poll.prob.status = .runM2mTcp from hst]
      dsimp only
      rw [hr]
      exact ⟨_, rfl⟩
    | udt =>
      rw [show x.poll.prob.status = .runM2mUdt from hst]
      dsimp only
      rw [hr]
      exact ⟨_, rfl⟩
  have hproc : x.poll.events W (.act (.proc k.asks)) = [.op (.act (.proc k.asks))] := by
    cases k <;> rfl
  rcases step_log_cases (W := W) h with hlog | ⟨k', hk, hlog⟩
  · exact ⟨ops, by rw [hlog, hops, List.flatMap_cons, List.flatMap_cons, hproc, List.singleton_append]⟩
  · obtain rfl : k = k' := by cases k <;> cases k' <;> first | rfl | exact absurd hk (by decide)
    exact ⟨[], by rw [hlog, List.flatMap_cons, List.flatMap_cons, hproc, List.singleton_append]⟩

/-- A handle that is a null pointer is opened, any other is used. -/
theorem log_ne_of_looksUp {f : ℕ → List Char} (hlog : x.poll.log = y.poll.log)
    (hx : x.Handles .runM2mDb) (hy : y.Handles .runM2mDb) (hf : x.profiles.folder = true)
    (hd : x.dbFile = none) (hd' : y.dbFile = some f) : (x.step W).log ≠ (y.step W).log := by
  obtain ⟨ops, h⟩ := step_log (W := W) hx
  obtain ⟨ops', h'⟩ := step_log (W := W) hy
  have hopens : x.poll.profiles.folder = true ∧ x.poll.dbFile.isNone = true :=
    ⟨hf, by rw [show x.poll.dbFile = none from hd]; rfl⟩
  have hnot : ¬ y.poll.dbFile.isNone = true := by
    rw [show y.poll.dbFile = some f from hd']
    exact Bool.false_ne_true
  intro he
  rw [h, h', hlog, events_proc, events_proc, if_pos ⟨rfl, hopens⟩, if_neg fun h => hnot h.2.2] at he
  have htail := (List.cons_injective (List.append_cancel_left he))
  exact opens_not_first _ htail

/-- A search with a bandwidth that was not read shows which it is. -/
theorem log_ne_of_searches {k : Kind} (hlog : x.poll.log = y.poll.log) (hx : x.Handles k.asks)
    (hy : y.Handles k.asks) (hp : W.prepared k x.poll.calls = true)
    (hp' : W.prepared k y.poll.calls = true)
    (hturns : (x.poll.turns W k).head? ≠ (y.poll.turns W k).head?) :
    (x.step W).log ≠ (y.step W).log := by
  obtain ⟨ops, h⟩ := step_log_search hx hp
  obtain ⟨ops', h'⟩ := step_log_search hy hp'
  have hcons : ∀ x : Whole, ∃ t ts, x.turns W k = t :: ts := fun x => by
    rw [turns_eq, Search.turns, List.range_succ_eq_map]
    exact ⟨_, _, rfl⟩
  obtain ⟨t, ts, ht⟩ := hcons x.poll
  obtain ⟨t', ts', ht'⟩ := hcons y.poll
  intro he
  rw [h, h', hlog] at he
  have htail := List.cons_injective (List.append_cancel_left he)
  change Event.op _ :: (x.poll.turns W k).map _ ++ _ = Event.op _ :: (y.poll.turns W k).map _ ++ _ at htail
  rw [ht, ht'] at htail hturns
  simp only [List.map_cons, List.cons_append, List.cons.injEq, Event.turn.injEq, true_and] at htail
  exact hturns (congrArg some htail.1.2)

/-- A record that is no number is compared with nothing. -/
theorem blocks_of_nan (h : x.recordMax.averagePerf = .nan) : x.blocks W = [] := by
  unfold blocks recommendations
  rw [h]
  simp [Dbl.lt, Dbl.nearest]

/-- An infinite one is better than all throughputs. -/
theorem blocks_of_inf (h : x.recordMax.averagePerf = .inf false) :
    x.blocks W = [.record x.recordMax] := by
  unfold blocks recommendations
  rw [h]
  simp [Dbl.lt, Dbl.nearest]

/-- A record that was not found is printed, or not. -/
theorem log_ne_of_prints (hlog : x.log = y.log) (hx : x.ret = none) (hy : y.ret = none)
    (hst : x.prob.status = .programDone) (hst' : y.prob.status = .programDone)
    (hnan : x.recordMax.averagePerf = .nan) (hinf : y.recordMax.averagePerf = .inf false) :
    (x.step W).log ≠ (y.step W).log := by
  have hnone := blocks_of_nan (W := W) hnan
  have hsome := blocks_of_inf (W := W) hinf
  have hwx : x.blocksStray W = false := by rw [blocksStray, hnone]; rfl
  have hwy : y.blocksStray W = false := by rw [blocksStray, hsome]; rfl
  rw [step_of_done hx hst hwx, step_of_done hy hst' hwy, hnone, hsome]
  intro he
  have hprints := List.append_cancel_left ((congrArg (· ++ _) hlog.symm).trans he)
  exact absurd hprints (by simp)

/-- A search prints a profile that its `prof_max` does not point to, and the client is
killed or not. -/
theorem ret_ne_of_reports {k : Kind} (hx : x.Handles k.asks) (hy : y.Handles k.asks)
    (hp : W.prepared k x.poll.calls = true) (hs : x.poll.strays W k = true)
    (hwild : x.wild k = true) (htame : ∀ k, y.wild k = false) :
    (x.step W).ret ≠ (y.step W).ret := by
  have hk : x.poll.killed W = some k := killed_eq_some.mpr ⟨⟨hx.status, hp⟩, hs, hwild⟩
  have hk' : y.poll.killed W = none := by
    rw [Option.eq_none_iff_forall_ne_some]
    intro k' hk'
    have hwild' : y.wild k' = true := (killed_eq_some.mp hk').2.2
    rw [htame] at hwild'
    exact nomatch hwild'
  have hret : (x.poll.process W).ret = some sigsegv := by
    unfold process
    rw [hk]
  rw [step_of_handles hx, step_of_handles hy, hret, process_ret W hk']
  split <;> decide

/-! ### What a client keeps -/

/-- What was never written, or read from there, is as it was. -/
structure Keeps (x y : Whole) : Prop where
  params : y.params = x.params
  dbFile : y.dbFile = x.dbFile
  recordMax : y.recordMax = x.recordMax
  wild : y.wild = x.wild

theorem Keeps.refl (x : Whole) : Keeps x x := ⟨rfl, rfl, rfl, rfl⟩

theorem Keeps.trans {x y z : Whole} (h : Keeps x y) (h' : Keeps y z) : Keeps x z :=
  ⟨h'.params.trans h.params, h'.dbFile.trans h.dbFile, h'.recordMax.trans h.recordMax,
    h'.wild.trans h.wild⟩

theorem keeps_searched (x : Whole) (k : Kind) : Keeps x (x.searched W k) := by
  cases k
  · exact ⟨rfl, rfl, rfl, rfl⟩
  · exact ⟨rfl, rfl, rfl, rfl⟩

/-- A lookup that finds no folder leaves the record as it was. -/
theorem keeps_answered (hs : x.Settled W) : Keeps x (x.answered W) := by
  have hsearched : ∀ k, Keeps x (if W.prepared k x.calls then x.searched W k else x) := fun k => by
    split
    · exact keeps_searched x k
    · exact .refl x
  unfold answered
  split
  · rename_i hst
    refine ⟨rfl, rfl, ?_, rfl⟩
    dsimp only
    rw [lookup_of_no_folder (hs.lookup hst)]
  · exact hsearched .tcp
  · exact hsearched .udt
  · exact .refl x

theorem keeps_step (hr : ¬ x.Reads W) : Keeps x (x.step W) := by
  by_cases hret : x.ret = none
  · by_cases hst : x.prob.status = .programDone
    · exact absurd (.prints hret hst) hr
    rw [step_of_loops hret hst]
    split
    · exact ⟨rfl, rfl, rfl, rfl⟩
    split
    · exact ⟨rfl, rfl, rfl, rfl⟩
    · rename_i h1 h2
      have hs : x.poll.Settled W := settled_of_not_reads hr ⟨hret, hst, by omega, rfl⟩
      have hpoll : Keeps x x.poll := ⟨rfl, rfl, rfl, rfl⟩
      have ha := keeps_answered hs
      obtain ⟨p, f, r, l, hprocess⟩ := x.poll.exists_process W
      rw [hprocess]
      exact hpoll.trans ⟨ha.params, ha.dbFile, ha.recordMax, ha.wild⟩
  · unfold step
    rw [if_pos (Option.isSome_iff_ne_none.mpr hret)]
    exact .refl x

theorem keeps_iterate {n : ℕ} (hr : ∀ i < n, ¬ ((step W)^[i] x).Reads W) :
    Keeps x ((step W)^[n] x) := by
  induction n with
  | zero => exact .refl x
  | succ n ih =>
    rw [Function.iterate_succ_apply']
    exact (ih fun i hi => hr i (hi.trans n.lt_succ_self)).trans (keeps_step (hr n n.lt_succ_self))

end Whole

/-! ### The arrays -/

namespace Whole

theorem localIp_poll (x : Whole) : x.poll.prob.localIp = x.prob.localIp :=
  congrArg Prod.fst ((yields_pollCtrlChannel x.prob).result x.feed)

/-- The client's address is settled when it has connected. -/
theorem localIp_step (x : Whole) : (x.step W).prob.localIp = x.prob.localIp := by
  have hhandled : (x.poll.handled W).result.2.localIp = x.prob.localIp :=
    (congrArg Prod.fst ((yields_procCtrlPacket (x.poll.env W) ⟨0, 0⟩ x.poll.prob).result
      x.poll.feed)).trans x.localIp_poll
  by_cases hret : x.ret = none
  · by_cases hst : x.prob.status = .programDone
    · unfold step
      rw [if_neg (by simp [hret]), if_neg (by simp [hst])]
      split <;> rfl
    rw [step_of_loops hret hst]
    split
    · exact x.localIp_poll
    split
    · exact x.localIp_poll
    · unfold process
      split
      · exact (congrArg Prob.localIp (x.poll.answered_prob W)).trans x.localIp_poll
      · dsimp only
        split <;> exact hhandled
  · unfold step
    rw [if_pos (Option.isSome_iff_ne_none.mpr hret)]

end Whole

/-- Nothing is written behind `local_ip`, if the address fits. -/
theorem World.length_localIp_run {W : World} {m : Memory} {n : ℕ} {x : Whole}
    (h : AddressFits W.feed.stream) (hx : W.run m n = some x) :
    x.prob.localIp.length = pHostaddrLen := by
  obtain ⟨p, hp, rfl⟩ := Option.map_eq_some_iff.mp hx
  clear hx
  induction n with
  | zero =>
    obtain ⟨hc, hrole⟩ := Option.filter_eq_some_iff.mp hp
    have hconf : Configured .client p :=
      ⟨of_decide_eq_true hrole, _, _, _, W.maxMem, W.args.map Arg.toOpt, hc⟩
    have hconnect := length_localIp_connect ⟨W.id, W.id_length, false, true, fun _ => none⟩
      (by rw [hconf.localIp.1, List.length_replicate]) h
    change ((Client.start _ p).play W.feed).result.prob.localIp.length = _
    rw [show (Client.start _ p).play W.feed = _ from Prog.play_bind _ _ _, Played.after_result]
    generalize (Client.connect _ p).play W.feed = y at hconnect ⊢
    obtain ⟨ops, f, ret, q⟩ := y
    dsimp only
    split <;> exact hconnect
  | succ n ih =>
    rw [Function.iterate_succ_apply', Whole.localIp_step]
    exact ih

/-! ### Two memories -/

namespace World

variable {W : World} {m m' : Memory} {p : Prob} {n : ℕ}

theorem configured_of_configured (h : W.configured m = some p) (m' : Memory) :
    W.configured m' = some (inMemory m' p) := by
  rw [configured_eq W m m', h]
  rfl

theorem run_of_configured (h : W.configured m = some p) (m' : Memory) (n : ℕ) :
    W.run m' n = some ((Whole.step W)^[n] (W.started m' (inMemory m' p))) := by
  rw [run, configured_of_configured h]
  rfl

/-- In no run of fewer than `n` steps is anything read that was never written. -/
def NoReads (W : World) (n : ℕ) : Prop := ∀ m, ∀ i < n, ∀ x, W.run m i = some x → ¬ x.Reads W

/-- Until then two runs agree. -/
theorem agree_run (hn : W.NoReads n) (h : W.configured m = some p) (m₁ m₂ : Memory) :
    Agree W ((Whole.step W)^[n] (W.started m₁ (inMemory m₁ p)))
      ((Whole.step W)^[n] (W.started m₂ (inMemory m₂ p))) :=
  (W.agree_started m₁ m₂ (inMemory m₁ p)).iterate fun i hi =>
    hn m₁ i hi _ (run_of_configured h m₁ i)

theorem seen_of_noReads (hn : W.NoReads n) (m m' : Memory) : W.seen m n = W.seen m' n := by
  rcases hc : W.configured m with _ | p
  · have hc' : W.configured m' = none := by
      rw [configured_eq W m m', hc]
      rfl
    rw [seen, run, hc, seen, run, hc']
    rfl
  · have hagree := agree_run hn hc m m'
    rw [seen, run_of_configured hc m, seen, run_of_configured hc m']
    simp only [Option.map_some, hagree.ret, hagree.log]

/-- The client after `n` steps, where nothing has been read before. -/
theorem keeps_run (hn : W.NoReads n) (h : W.configured m = some p) (m' : Memory) :
    Whole.Keeps (W.started m' (inMemory m' p))
      ((Whole.step W)^[n] (W.started m' (inMemory m' p))) :=
  Whole.keeps_iterate fun i hi => hn m' i hi _ (run_of_configured h m' i)

theorem seen_ne (h : W.configured m = some p) {m₁ m₂ : Memory}
    (hne : (((Whole.step W)^[n] (W.started m₁ (inMemory m₁ p))).step W).ret ≠
        (((Whole.step W)^[n] (W.started m₂ (inMemory m₂ p))).step W).ret ∨
      (((Whole.step W)^[n] (W.started m₁ (inMemory m₁ p))).step W).log ≠
        (((Whole.step W)^[n] (W.started m₂ (inMemory m₂ p))).step W).log) :
    W.seen m₁ (n + 1) ≠ W.seen m₂ (n + 1) := by
  rw [seen, run_of_configured h m₁, seen, run_of_configured h m₂, Function.iterate_succ_apply',
    Function.iterate_succ_apply']
  intro he
  rcases hne with hne | hne
  · exact hne (congrArg Prod.fst (Option.some.inj he))
  · exact hne (congrArg Prod.snd (Option.some.inj he))

/-- A step that takes a bandwidth that was not read differs in some two runs. -/
theorem exists_seen_ne_of_guesses (hn : W.NoReads n) (hp : W.configured m = some p) {k : Kind}
    (h : ((Whole.step W)^[n] (W.started m (inMemory m p))).Handles k.asks)
    (hg : ((Whole.step W)^[n] (W.started m (inMemory m p))).poll.Guesses W k) :
    ∃ m₁ m₂, W.seen m₁ (n + 1) ≠ W.seen m₂ (n + 1) := by
  have hagree := agree_run hn hp
  have hkeeps := keeps_run hn hp
  set x := (Whole.step W)^[n] (W.started m (inMemory m p))
  obtain ⟨b, b', hturns⟩ := Search.exists_turns_ne (x.poll.setup W k).lim
  set m₁ : Memory := { m with var := fun _ => b }
  set m₂ : Memory := { m with var := fun _ => b' }
  have h₁ := (hagree m m₁).handles h
  have h₂ := (hagree m m₂).handles h
  have hl₁ := ((hagree m m₁).level h.running).poll
  have hl₂ := ((hagree m m₂).level h.running).poll
  have hbw : ∀ b, (setParams W.special (fun _ => b) W.args Params.default).bandwidth = b :=
    fun b => setParams_bandwidth_of_not_read W.args (b := true) (fun h => nomatch h) hg.notRead
  refine ⟨m₁, m₂, seen_ne hp (.inr (Whole.log_ne_of_searches ((hagree m₁ m₂).poll_log h₁.running)
    h₁ h₂ (hl₁.calls ▸ hg.prepared) (hl₂.calls ▸ hg.prepared) ?_))⟩
  rw [Whole.turns_eq, Whole.turns_eq]
  refine hturns _ _ ((hl₁.setup_begins k).mpr hg.begins) ((hl₂.setup_begins k).mpr hg.begins)
    (hl₁.setup_lim k) (hl₂.setup_lim k) ?_ ?_
  · exact (congrArg Params.bandwidth (hkeeps m₁).params).trans (hbw b)
  · exact (congrArg Params.bandwidth (hkeeps m₂).params).trans (hbw b')

/-- The first step that reads what was never written differs in some two runs. -/
theorem exists_seen_ne (hn : W.NoReads n) {x : Whole} (hx : W.run m n = some x)
    (hr : x.Reads W) : ∃ m₁ m₂, W.seen m₁ (n + 1) ≠ W.seen m₂ (n + 1) := by
  obtain ⟨p, hp, rfl⟩ := Option.map_eq_some_iff.mp hx
  have hpm : inMemory m p = p := Option.some.inj ((configured_of_configured hp m).symm.trans hp)
  have hagree := agree_run hn hp
  have hkeeps := keeps_run hn hp
  rw [← hpm] at hr
  cases hr with
  | prints hret hst =>
    set m₁ : Memory := { m with recordMax := { m.recordMax with averagePerf := .nan } }
    set m₂ : Memory := { m with recordMax := { m.recordMax with averagePerf := .inf false } }
    have h₁ := hagree m m₁
    have h₂ := hagree m m₂
    refine ⟨m₁, m₂, seen_ne hp (.inr (Whole.log_ne_of_prints (hagree m₁ m₂).log
      (h₁.ret.symm.trans hret) (h₂.ret.symm.trans hret) ((h₁.level hret).status.symm.trans hst)
      ((h₂.level hret).status.symm.trans hst) ?_ ?_))⟩
    · rw [(hkeeps m₁).recordMax]
      rfl
    · rw [(hkeeps m₂).recordMax]
      rfl
  | looksUp h hf =>
    set m₁ : Memory := { m with dbFile := none }
    set m₂ : Memory := { m with dbFile := some fun _ => [] }
    have h₁ := (hagree m m₁).handles h
    have h₂ := (hagree m m₂).handles h
    refine ⟨m₁, m₂, seen_ne hp (.inr (Whole.log_ne_of_looksUp
      ((hagree m₁ m₂).poll_log h₁.running) h₁ h₂ ?_ (hkeeps m₁).dbFile (hkeeps m₂).dbFile))⟩
    rw [← ((hagree m m₁).level h.running).profiles.folder]
    exact hf
  | searches k h hg => exact exists_seen_ne_of_guesses hn hp h hg
  | reports k h hprep hs =>
    by_cases hg : ((Whole.step W)^[n] (W.started m (inMemory m p))).poll.Guesses W k
    · exact exists_seen_ne_of_guesses hn hp h hg
    set m₁ : Memory := { m with wild := fun _ => true }
    set m₂ : Memory := { m with wild := fun _ => false }
    have hl₁ := ((hagree m m₁).level h.running).poll
    refine ⟨m₁, m₂, seen_ne hp (.inl (Whole.ret_ne_of_reports ((hagree m m₁).handles h)
      ((hagree m m₂).handles h) (hl₁.calls ▸ hprep) ((hl₁.strays hg hprep).trans hs) ?_ ?_))⟩
    · rw [(hkeeps m₁).wild]
      rfl
    · rw [(hkeeps m₂).wild]
      exact fun _ => rfl

/-- **When what is seen of a client does not depend on what its memory held**: if its
arguments and the address that the server announces fit their arrays, so that nothing is
written behind them. -/
theorem seen_iff (W : World) (hfits : ∀ o ∈ W.args.map Arg.toOpt, o.Fits)
    (h : AddressFits W.feed.stream) :
    (∀ m p mem, Session.Represents mem
        (newAndDefault m.status m.controlHostMaxBuf m.controlLocalIp) → W.configured m = some p →
      Session.Represents ((W.args.map Arg.toOpt).foldl Opt.copy mem) p) ∧
    (∀ m n x, W.run m n = some x → x.prob.localIp.length = pHostaddrLen) ∧
      ((∀ m m' n, W.seen m n = W.seen m' n) ↔
        ∀ m n x, W.run m n = some x → ¬ x.Reads W) := by
  refine ⟨fun m p mem hmem hp => ?_, fun m n x hx => length_localIp_run h hx, fun hseen m n => ?_,
    fun hr m m' n => ?_⟩
  · obtain ⟨hq, -⟩ := Option.filter_eq_some_iff.mp hp
    exact represents_configure hq hmem hfits
  · induction n using Nat.strong_induction_on generalizing m with
    | _ n ih =>
      intro x hx hr
      obtain ⟨m₁, m₂, hne⟩ := exists_seen_ne (fun m i hi => ih i hi m) hx hr
      exact hne (hseen m₁ m₂ (n + 1))
  · exact seen_of_noReads (fun m i _ x => hr m i x) m m'

end World

/-- A client that is asked to search its history, which is there and empty. -/
def plainWorld : World where
  maxMem := 100
  args := [.opt (.client [49])]
  special := fun _ => 0
  arith := plainArith
  id := List.replicate pIdpktSize 0
  id_length := length_zeroId
  firstPing := 50
  feed :=
    { stream := le32 1 ++ [49, Status.ctrlChanEst.code, Status.twowayHandshake.code] ++
        (⟨0, 0⟩ : Ctrlmsg).bytes ++ [Status.runM2mDb.code]
      calls := fun _ => some 1000 }
  profiles := emptyProfiles
  lib := plainIperf
  iperf := plainTcpArgs.store
  tpg := plainUdtArgs.store
  prepared := fun _ _ => true
  out := fun _ _ => plainOutcomes fun _ => 100
  record := fun _ _ => sampleRecord

/-- A memory that holds zeros, but for `db_file_handler`. -/
def plainMemory (dbFile : Option (ℕ → List Char)) : Memory where
  status := .programStart
  controlHostMaxBuf := 0
  controlLocalIp := []
  var := fun _ => 0
  dbFile := dbFile
  recordMax := { sampleRecord with averagePerf := .num 0 }
  tcpMax := ⟨1, 0, 0⟩
  tcpStore := plainTcpArgs.store
  udtMax := ⟨1, 0⟩
  udtStore := plainUdtArgs.store
  udtPerf := fun _ => 0
  wild := fun _ => false

/-- Its server closes the connection at once. -/
def closingWorld : World := { plainWorld with feed := { plainWorld.feed with stream := [] } }

/-- What can be seen of that client is the same with a handle in its memory and with
none. -/
theorem seen_iff_closing :
    closingWorld.seen (plainMemory none) 3 =
      closingWorld.seen (plainMemory (some fun _ => [])) 3 := by
  refine (closingWorld.seen_iff (by decide) (by decide)).2.2.mpr (fun m n x hx hr => ?_) _ _ _
  obtain ⟨p, hp⟩ := Option.isSome_iff_exists.mp
    (show (closingWorld.configured (plainMemory none)).isSome = true by decide +kernel)
  rw [World.run_of_configured hp] at hx
  obtain rfl := Option.some.inj hx
  have hstart : (closingWorld.run (plainMemory none) 0).map (fun x =>
      decide (x.ret = none ∧ x.prob.status ≠ .programDone ∧ x.polled.result.1 < 0)) = some true := by
    decide +kernel
  rw [World.run_of_configured hp] at hstart
  obtain ⟨hret, hst, hpoll⟩ := of_decide_eq_true (Option.some.inj hstart)
  -- any other client starts in the same way
  have hagree := closingWorld.agree_started (plainMemory none) m
    (World.inMemory (plainMemory none) p)
  have hl := hagree.level hret
  set y := closingWorld.started m (World.inMemory m p)
  have hreads : ∀ {z : Whole}, z.Reads closingWorld → z.ret = none := fun hz => by
    cases hz with
    | prints h _ => exact h
    | looksUp h _ => exact h.running
    | searches _ h _ => exact h.running
    | reports _ h _ _ => exact h.running
  have hy : y.ret = none := hagree.ret ▸ hret
  have hysts : y.prob.status ≠ .programDone := hl.status ▸ hst
  have hypoll : y.polled.result.1 < 0 := hl.polled.2.2.1 ▸ hpoll
  cases n with
  | zero =>
    cases hr with
    | prints _ h => exact hysts h
    | looksUp h _ => exact absurd h.polled hypoll.not_gt
    | searches _ h _ => exact absurd h.polled hypoll.not_gt
    | reports _ h _ _ => exact absurd h.polled hypoll.not_gt
  | succ n =>
    have hstep : y.step closingWorld = { y.poll with ret := some (-1) } := by
      rw [Whole.step_of_loops hy hysts, if_pos hypoll]
    have hended := hreads hr
    rw [Function.iterate_succ_apply, hstep, Function.iterate_fixed rfl] at hended
    exact nomatch hended

/-- The same session, where the handle is a null pointer and where it is not: the
file of the history is opened in one of the two. -/
theorem seen_ne_plainWorld :
    plainWorld.seen (plainMemory none) 3 ≠ plainWorld.seen (plainMemory (some fun _ => [])) 3 := by
  intro h
  have hlen : ((plainWorld.seen (plainMemory none) 3).map fun s => s.2.length) ≠
      (plainWorld.seen (plainMemory (some fun _ => [])) 3).map fun s => s.2.length := by
    decide +kernel
  exact hlen (congrArg _ h)

end Session
end Probdata
