/-
# No recommendation falls behind

What a client finds in the history goes into `m2m_record_max`, and nothing but a later
look into the history, which finds no less, changes it. A block that is printed after the
loop is that record, or has a larger throughput. So once a client has looked into the
history, it recommends nothing that is slower, by more than a millionth, than a test of
its pair of hosts that was counted before, in any session (`Visit.recommends_no_less`).
-/
import Probdata.Session.Recall

namespace Probdata
namespace Session

open Wire Bytes Text Fastprof

/-- A printed number is no less than the throughput `y`, but for a millionth. -/
def Reaches (y : ℚ) (perf : Dbl) : Prop := ∃ q, perf = .num q ∧ y ≤ q + 1 / 10 ^ 6

variable {localIp remoteIp : Packed.HostAddr} {rs : List (Result ℚ)} {y : ℚ}

/-- What is recalled of some tests is no less than any of them. -/
theorem reaches_of_recalls {d : Profiles} {ret : ℤ × MemRecord × Profiles} (h : Recalls rs d ret)
    (h0 : ∀ x ∈ rs, 0 ≤ x.perfMbps) {t : Result ℚ} (ht : t ∈ rs) :
    Reaches t.perfMbps ret.2.1.averagePerf := by
  unfold Recalls at h
  rw [if_neg (List.ne_nil_of_mem ht)] at h
  obtain ⟨x, r, hmax, -, htells, rfl⟩ := h
  refine ⟨_, htells.averagePerf, ?_⟩
  have hle : millionths t.perfMbps ≤ millionths x.perfMbps := hmax.le_of_mem ht
  have herr := abs_le.mp (abs_millionths_sub_le (h0 t ht))
  linarith [herr.1]

/-! ### What is printed -/

namespace Whole

variable {W : World} {x : Whole}

/-- A block is the record that the client compares with, or says more. -/
theorem reaches_blocks (h : Reaches y x.recordMax.averagePerf) :
    ∀ b ∈ x.blocks W, Reaches y b.maxPerf := by
  obtain ⟨q, hq, hle⟩ := h
  have hlt : ∀ p : ℚ, x.recordMax.averagePerf.nearest.lt (Dbl.num p).nearest = true →
      Reaches y (.num p) := by
    intro p hp
    have hp := Dbl.lt_of_nearest_lt hp
    rw [hq] at hp
    have hqp : q < p := by simpa [Dbl.lt] using hp
    exact ⟨p, rfl, by linarith⟩
  intro b hb
  rw [blocks, recommendations, List.mem_append, List.mem_append] at hb
  rcases hb with (hb | hb) | hb
  · split at hb
    · rename_i hc
      obtain rfl := List.mem_singleton.mp hb
      exact hlt _ hc.2
    · exact absurd hb List.not_mem_nil
  · split at hb
    · rename_i hc
      obtain rfl := List.mem_singleton.mp hb
      exact hlt _ hc.2
    · exact absurd hb List.not_mem_nil
  · split at hb
    · obtain rfl := List.mem_singleton.mp hb
      exact ⟨q, hq, hle⟩
    · exact absurd hb List.not_mem_nil

/-- The record that the client compares with is kept, unless it looks into the history. -/
theorem recordMax_step (x : Whole) : (x.step W).recordMax = x.recordMax ∨
    x.Handles .runM2mDb ∧ (x.step W).recordMax = x.poll.lookup.2.1 := by
  rcases x.step_cases (W := W) with ⟨hhandles, -, hstep⟩ | ⟨-, ha⟩
  · have hanswered : (x.step W).recordMax = (x.poll.answered W).recordMax := by
      obtain ⟨p, f, r, l, hprocess⟩ := x.poll.exists_process W
      rw [hstep, hprocess]
    rw [hanswered]
    rcases x.poll.answered_cases W with ⟨k, -, ha⟩ | ⟨-, ha | ⟨hst, ha⟩⟩
    · rw [ha]
      cases k <;> exact .inl rfl
    · rw [ha]
      exact .inl rfl
    · rw [ha]
      exact .inr ⟨hst ▸ hhandles, rfl⟩
  · exact .inl ha.recordMax

/-- A client that looks into the history compares with what it has found. -/
theorem recordMax_of_handles (h : x.Handles .runM2mDb) :
    (x.step W).recordMax = x.poll.lookup.2.1 := by
  obtain ⟨p, f, r, l, hprocess⟩ := x.poll.exists_process W
  rw [step_of_handles h, hprocess]
  change (x.poll.answered W).recordMax = _
  unfold answered
  rw [h.status]

end Whole

/-! ### A session -/

namespace World

variable {W : World} {m : Memory} {i n : ℕ} {x : Whole}

theorem counted_subset (h : i ≤ n) : W.counted m i ⊆ W.counted m n := by
  intro t ht
  obtain ⟨j, hj, ht⟩ := List.mem_flatMap.mp ht
  exact List.mem_flatMap.mpr
    ⟨j, List.mem_range.mpr ((List.mem_range.mp hj).trans_le h), ht⟩

/-- Once a client has looked into the history, it compares with a record that is no less
than the tests before, until it ends. -/
theorem reaches_run (hosts : Hosts localIp remoteIp) (h : Remembers localIp remoteIp rs W.profiles)
    (hown : ∀ p ∈ W.configured m, (W.started m p).hosts = (latin localIp.text, latin remoteIp.text))
    (hc : ∀ i < n, ∀ x ∈ W.run m i, ∀ s ∈ x.stepSearch W, ∀ l ∈ s.history,
      W.Composes localIp remoteIp x.poll.prob l)
    (hnull : m.dbFile = none) (hnul : m.controlLocalIp[localIp.text.length]? = some 0)
    {z : Whole} (hz : W.run m i = some z) (hlooks : z.Handles .runM2mDb) (hi : i < n)
    (hx : W.run m n = some x) {t : Result ℚ} (ht : t ∈ rs ++ W.counted m i) :
    Reaches t.perfMbps x.recordMax.averagePerf := by
  have hlookup : ∀ {j : ℕ} {u : Whole}, i ≤ j → j ≤ n → W.run m j = some u → u.ret = none →
      Reaches t.perfMbps u.poll.lookup.2.1.averagePerf := by
    intro j u hij hjn hu hret
    have hcj := fun k hk => hc k (lt_of_lt_of_le hk hjn)
    have hrecalls := recalls_run hosts h hown hcj hnull hnul hu hret
    obtain ⟨-, -, -, -, h0⟩ := remembers_run hosts h hown hcj hu
    refine reaches_of_recalls hrecalls h0 ?_
    rcases List.mem_append.mp ht with ht | ht
    · exact List.mem_append_left _ ht
    · exact List.mem_append_right _ (counted_subset hij ht)
  induction n generalizing x with
  | zero => exact absurd hi (Nat.not_lt_zero i)
  | succ n ih =>
    rw [run_succ] at hx
    obtain ⟨u, hu, rfl⟩ := Option.map_eq_some_iff.mp hx
    rcases Nat.lt_succ_iff_lt_or_eq.mp hi with hlt | rfl
    · have hrest := ih (fun j hj => hc j (hj.trans n.lt_succ_self)) hlt hu
        fun hij hjn => hlookup hij (hjn.trans n.le_succ)
      rcases u.recordMax_step (W := W) with hkeep | ⟨hh, hfound⟩
      · rw [hkeep]
        exact hrest
      · rw [hfound]
        exact hlookup hlt.le n.le_succ hu hh.running
    · obtain rfl : z = u := Option.some.inj (hz.symm.trans hu)
      rw [Whole.recordMax_of_handles hlooks]
      exact hlookup (le_refl i) i.le_succ hz hlooks.running

end World

/-! ### Many sessions -/

namespace Visit

/-- **A client recommends nothing that falls behind** what was counted before it looked
into the history: in the sessions `vs`, and in the iterations of its own before the
`i`-th, in which it looked. -/
theorem recommends_no_less (pair : Hosts localIp remoteIp) (hdot : localIp.Dotted) {d : Profiles}
    (hd : d.makeFolder.folder = true)
    (hfile : d.file (profFile (latin localIp.text) (latin remoteIp.text)) = some [])
    {vs : List Visit} {v : Visit}
    (hvs : Trace.Along (fun b v => v.Sound localIp remoteIp (b.foldl leave d)) [] (vs ++ [v]))
    (hown : v.isOf localIp remoteIp = true) (hnull : v.memory.dbFile = none)
    (hnul : v.memory.controlLocalIp[localIp.text.length]? = some 0) {i : ℕ} {z x : Whole}
    (hi : i < v.iterations) (hz : (v.on (vs.foldl leave d)).run v.memory i = some z)
    (hlooks : z.Handles .runM2mDb) (hx : v.client (vs.foldl leave d) = some x) :
    ∀ t ∈ countedBy localIp remoteIp d vs ++ (v.on (vs.foldl leave d)).counted v.memory i,
      ∀ b ∈ x.blocks (v.on (vs.foldl leave d)), Reaches t.perfMbps b.maxPerf := by
  have hempty : Remembers localIp remoteIp [] d := .empty hd hfile
  rw [Trace.along_snoc, List.nil_append] at hvs
  have hbefore : Remembers localIp remoteIp ([] ++ countedBy localIp remoteIp d vs)
      (vs.foldl leave d) := remembers_foldl pair hdot hvs.1 hempty
  rw [List.nil_append] at hbefore
  intro t ht
  exact Whole.reaches_blocks (World.reaches_run pair hbefore
    (hosts_of_isOf hown (vs.foldl leave d)) (hvs.2.composes hown) hnull hnul hz hlooks hi hx ht)

/-- A client that is asked for its history, and then to end. -/
def endingVisit : Visit :=
  { fallingVisit with world :=
      { fallingVisit.world with feed :=
          { stream := le32 8 ++ Packed.shorterIp.text ++
              [Status.ctrlChanEst.code, Status.twowayHandshake.code] ++ (⟨0, 0⟩ : Ctrlmsg).bytes ++
              [Status.runM2mDb.code, Status.programDone.code]
            calls := fun _ => some 1000 } } }

theorem endingVisit_sound : endingVisit.Sound Packed.shorterIp Packed.longerIp
    (leave emptyProfiles fallingVisit) := by
  have hnone : ∀ i < endingVisit.iterations,
      ∀ x ∈ (endingVisit.on (leave emptyProfiles fallingVisit)).run endingVisit.memory i,
        (x.stepSearch (endingVisit.on (leave emptyProfiles fallingVisit))).isNone = true := by
    decide +kernel
  refine ⟨by decide +kernel, by decide, by decide, fun _ i hi x hx s hs => ?_⟩
  have h := hnone i hi x hx
  rw [show x.stepSearch _ = some s from hs] at h
  exact absurd h (by simp)

/-- It prints one block, which is no slower than any test of the session before. -/
theorem recommends_no_less_ending : ∃ x,
    endingVisit.client (leave emptyProfiles fallingVisit) = some x ∧
    (x.blocks (endingVisit.on (leave emptyProfiles fallingVisit))).length = 1 ∧
    ∀ t ∈ countedBy Packed.shorterIp Packed.longerIp emptyProfiles [fallingVisit] ++
        (endingVisit.on (leave emptyProfiles fallingVisit)).counted endingVisit.memory 2,
      ∀ b ∈ x.blocks (endingVisit.on (leave emptyProfiles fallingVisit)),
        Reaches t.perfMbps b.maxPerf := by
  have hprinted : (endingVisit.client (leave emptyProfiles fallingVisit)).map (fun x =>
      (x.blocks (endingVisit.on (leave emptyProfiles fallingVisit))).length) = some 1 := by
    decide +kernel
  obtain ⟨x, hx, hone⟩ := Option.map_eq_some_iff.mp hprinted
  have hlooked : ((endingVisit.on (leave emptyProfiles fallingVisit)).run endingVisit.memory 2).map
      (fun z => decide (z.ret = none ∧ z.prob.status ≠ .programDone ∧ 0 < z.polled.result.1 ∧
        z.poll.prob.status = .runM2mDb)) = some true := by
    decide +kernel
  obtain ⟨z, hz, hlooks⟩ := Option.map_eq_some_iff.mp hlooked
  obtain ⟨hrunning, hloops, hpolled, hst⟩ := of_decide_eq_true hlooks
  have hvs : Trace.Along (fun b v => v.Sound Packed.shorterIp Packed.longerIp
      (b.foldl leave emptyProfiles)) [] ([fallingVisit] ++ [endingVisit]) :=
    ⟨fallingVisit_sound _ (by simp), endingVisit_sound, trivial⟩
  have hown : endingVisit.isOf Packed.shorterIp Packed.longerIp = true := by decide +kernel
  exact ⟨x, hx, hone, recommends_no_less ⟨⟨by decide, by decide⟩, by decide, by decide⟩
    shorterIp_dotted rfl rfl hvs hown rfl (by decide) (by decide) hz
    ⟨hrunning, hloops, hpolled, hst⟩ hx⟩

end Visit

end Session
end Probdata
