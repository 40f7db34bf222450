/-
# The round-trip time over a session

`ctrl->rtt_ms` is given on the command line or unknown. The client pings once before
it connects if it is unknown, and the searches that the server asks for, on one
control block, ping in each of their iterations. Over the whole session it lies
between the values known so far (`rttKept`).
-/
import Probdata.Fastprof.Srtt
import Probdata.Session.Reads

namespace Probdata
namespace Session

open Fastprof

namespace Whole

variable (W : World) (x : Whole)

/-- A search of the kind `k` that is started now, after `n` steps. -/
def searchAt (k : Kind) (n : ℕ) : Search ℚ :=
  match k with
  | .tcp => (x.tcpRun W n).vars.search
  | .udt => (x.udtRun W n).vars.search

/-- The pings of a search of the kind `k`, up to its end. -/
def searchPings (k : Kind) : List ℚ :=
  Search.pings (x.setup W k) (x.searchAt W k (Search.steps (x.setup W k)))

/-- The pings of the search that the client's status asks for. -/
def answeredPings : List ℚ :=
  match x.prob.status with
  | .runM2mTcp => if W.prepared .tcp x.calls then x.searchPings W .tcp else []
  | .runM2mUdt => if W.prepared .udt x.calls then x.searchPings W .udt else []
  | _ => []

/-- The pings of an iteration of the client's loop. -/
def stepPings : List ℚ :=
  if x.ret.isSome then []
  else if x.prob.status ≠ .programDone then
    if x.polled.result.1 ≤ 0 then [] else x.poll.answeredPings W
  else []

end Whole

namespace World

variable (W : World) (m : Memory)

/-- The parameters of the command line. -/
def params : Params := setParams W.special m.var W.args Params.default

/-- All pings of the client in `n` iterations of its loop, with the one before it
connects. -/
def pings (n : ℕ) : List ℚ :=
  (if (W.params m).rttMs < 0 then [W.firstPing] else []) ++
    (List.range n).flatMap fun i => ((W.run m i).map (Whole.stepPings W)).getD []

end World

/-- What is promised of the round-trip time of a client after `n` iterations, with
all pings so far, and in the searches that it may go on with. -/
structure RttKept (W : World) (m : Memory) (n : ℕ) (x : Whole) : Prop where
  between : Smoothed (W.params m).rttMs (W.pings m n) x.rttMs
  inSearch : ∀ k j, Smoothed (W.params m).rttMs
    (W.pings m n ++ Search.pings (x.poll.setup W k) (x.poll.searchAt W k j))
    (x.poll.searchAt W k j).rtt
  /-- A known round-trip time remains known. -/
  remains : 0 ≤ x.rttMs → 0 ≤ (x.step W).rttMs
  remainsInSearch : ∀ k j, 0 ≤ (x.poll.searchAt W k j).rtt → 0 ≤ (x.poll.searchAt W k (j + 1)).rtt
  failedFirst : n = 0 → W.firstPing < 0 → x.rttMs = (W.params m).rttMs
  /-- Where an iteration begins with a ping that fails. -/
  failed : ∀ k j, (x.poll.searchAt W k j).k < (x.poll.searchAt W k (j + 1)).k →
    (x.poll.setup W k).out.ping (x.poll.searchAt W k j).k < 0 →
    (x.poll.searchAt W k (j + 1)).rtt = (x.poll.searchAt W k j).rtt
  /-- `BDP_B` is known with the round-trip time, and lies between the products. -/
  product : ∀ k j, let bw := (x.poll.setup W k).ctrl.bwBps
    let rtt := (x.poll.searchAt W k j).rtt
    let samples := (W.params m).rttMs :: (W.pings m n ++
      Search.pings (x.poll.setup W k) (x.poll.searchAt W k j))
    (0 ≤ bdpB bw rtt ↔ 0 ≤ rtt) ∧ (0 ≤ rtt →
      ∃ lo ∈ samples, ∃ hi ∈ samples, 0 ≤ lo ∧ 0 ≤ hi ∧
        lo * (1 / 1000) * (bw / 8) ≤ bdpB bw rtt ∧ bdpB bw rtt ≤ hi * (1 / 1000) * (bw / 8))

namespace Whole

variable (W : World) (x : Whole)

theorem searchAt_eq (k : Kind) (n : ℕ) : x.searchAt W k n = Search.run (x.setup W k) n := by
  cases k with
  | tcp => exact x.tcpRun_search W n
  | udt => exact x.udtRun_search W n

theorem params_step : (x.step W).params = x.params := by
  have hanswered : (x.poll.answered W).params = x.params := by
    rcases x.poll.answered_cases W with ⟨k, -, h⟩ | ⟨-, h | ⟨-, h⟩⟩
    · rw [h]
      cases k <;> rfl
    · rw [h]
      rfl
    · rw [h]
      rfl
  unfold step
  split
  · rfl
  split
  · split
    · rfl
    split
    · rfl
    · obtain ⟨p, f, r, l, hprocess⟩ := x.poll.exists_process W
      rw [hprocess]
      exact hanswered
  · split <;> rfl

variable {W x} {r0 : ℚ} {ps : List ℚ}

theorem smoothed_searched (h : Smoothed r0 ps x.rttMs) (k : Kind) :
    Smoothed r0 (ps ++ x.searchPings W k) (x.searched W k).rttMs := by
  rw [(x.searched_eq W k).1, searchPings, searchAt_eq]
  exact Search.smoothed_run h _

theorem smoothed_answered (h : Smoothed r0 ps x.rttMs) :
    Smoothed r0 (ps ++ x.answeredPings W) (x.answered W).rttMs := by
  have hnone : Smoothed r0 (ps ++ []) x.rttMs := by rwa [List.append_nil]
  unfold answeredPings answered
  cases hst : x.prob.status with
  | runM2mTcp =>
    dsimp only
    split
    · exact smoothed_searched h .tcp
    · exact hnone
  | runM2mUdt =>
    dsimp only
    split
    · exact smoothed_searched h .udt
    · exact hnone
  | _ => exact hnone

theorem smoothed_step (h : Smoothed r0 ps x.rttMs) :
    Smoothed r0 (ps ++ x.stepPings W) (x.step W).rttMs := by
  have hnone : Smoothed r0 (ps ++ []) x.rttMs := by rwa [List.append_nil]
  unfold stepPings step
  split
  · exact hnone
  split
  · by_cases hneg : x.polled.result.1 < 0
    · rw [if_pos hneg, if_pos hneg.le]
      exact hnone
    rw [if_neg hneg]
    by_cases hzero : x.polled.result.1 = 0
    · rw [if_pos hzero, if_pos hzero.le]
      exact hnone
    · rw [if_neg hzero, if_neg (by omega)]
      obtain ⟨p, f, r, l, hprocess⟩ := x.poll.exists_process W
      rw [hprocess]
      exact smoothed_answered (x := x.poll) h
  · split <;> exact hnone

end Whole

namespace World

variable {W : World} {m : Memory} {n : ℕ} {x : Whole}

theorem run_succ : W.run m (n + 1) = (W.run m n).map (Whole.step W) := by
  rw [run, run, Option.map_map]
  congr 1
  funext p
  exact Function.iterate_succ_apply' _ _ _

theorem pings_succ (hx : W.run m n = some x) :
    W.pings m (n + 1) = W.pings m n ++ x.stepPings W := by
  rw [pings, pings, List.range_succ, List.flatMap_append, ← List.append_assoc]
  simp [hx]

/-- The first ping. -/
theorem smoothed_started (p : Prob) :
    Smoothed (W.params m).rttMs (W.pings m 0) (W.started m p).rttMs := by
  have hpings : W.pings m 0 = if (W.params m).rttMs < 0 then [W.firstPing] else [] :=
    List.append_nil _
  have hrtt : (W.started m p).rttMs =
      if (W.params m).rttMs < 0 ∧ 0 ≤ W.firstPing then W.firstPing else (W.params m).rttMs := rfl
  rw [hpings, hrtt]
  have hstart := Smoothed.start (W.params m).rttMs
  by_cases h0 : (W.params m).rttMs < 0
  · rw [if_pos h0]
    by_cases hp : 0 ≤ W.firstPing
    · rw [if_pos ⟨h0, hp⟩]
      exact .first _ [] hp
    · rw [if_neg fun h => hp h.2]
      exact hstart.fails (not_le.mp hp)
  · rw [if_neg h0, if_neg fun h => h0 h.1]
    exact hstart

/-- What holds of a client after every iteration. -/
theorem smoothed_run (hx : W.run m n = some x) : x.params = W.params m ∧
    Smoothed (W.params m).rttMs (W.pings m n) x.rttMs := by
  induction n generalizing x with
  | zero =>
    obtain ⟨p, -, rfl⟩ := Option.map_eq_some_iff.mp hx
    exact ⟨rfl, smoothed_started p⟩
  | succ n ih =>
    rw [run_succ] at hx
    obtain ⟨y, hy, rfl⟩ := Option.map_eq_some_iff.mp hx
    obtain ⟨hparams, hs⟩ := ih hy
    rw [pings_succ hy]
    exact ⟨(y.params_step W).trans hparams, Whole.smoothed_step hs⟩

end World

/-- With a bandwidth that is not negative, the round-trip time and the product are
kept as promised in every session. -/
theorem rttKept (W : World) (m : Memory) (hbw : 0 ≤ (W.params m).bandwidth) (n : ℕ) (x : Whole)
    (hx : W.run m n = some x) : RttKept W m n x := by
  obtain ⟨hparams, hs⟩ := World.smoothed_run hx
  have hsearch : ∀ k j, Smoothed (W.params m).rttMs
      (W.pings m n ++ Search.pings (x.poll.setup W k) (x.poll.searchAt W k j))
      (x.poll.searchAt W k j).rtt := by
    intro k j
    rw [Whole.searchAt_eq]
    exact Search.smoothed_run hs j
  refine ⟨hs, hsearch, fun hr => ?_, fun k j hr => ?_, fun hn hp => ?_, fun k j _ hp => ?_,
    fun k j => ?_⟩
  · exact hs.remains (Whole.smoothed_step hs) hr
  · rw [Whole.searchAt_eq] at hr ⊢
    rw [Search.run_succ]
    exact Search.rtt_nonneg_step hr
  · subst hn
    obtain ⟨p, -, rfl⟩ := Option.map_eq_some_iff.mp hx
    exact if_neg fun h => absurd h.2 (not_le.mpr hp)
  · simp only [Whole.searchAt_eq, Search.run_succ] at hp ⊢
    exact Search.rtt_of_failed hp
  · have hbw' : 0 ≤ (x.poll.setup W k).ctrl.bwBps := by
      show 0 ≤ x.params.bandwidth
      rw [hparams]
      exact hbw
    exact ⟨bdpB_nonneg_iff hbw', fun hr => bdpB_between hbw' (hsearch k j) hr⟩

/-- A client that is given a bandwidth of 10 Gb/s on its command line. -/
def fastWorld : World :=
  { plainWorld with args := [.opt (.client [49]), .param (.bandwidth "10G".toList)] }

theorem rttKept_fastWorld : ∃ x, fastWorld.run (plainMemory none) 3 = some x ∧
    RttKept fastWorld (plainMemory none) 3 x := by
  have hsome : (fastWorld.configured (plainMemory none)).isSome = true := by decide +kernel
  obtain ⟨p, hp⟩ := Option.isSome_iff_exists.mp hsome
  have hrun : fastWorld.run (plainMemory none) 3 =
      some ((Whole.step fastWorld)^[3] (fastWorld.started (plainMemory none) p)) := by
    rw [World.run, hp, Option.map_some]
  exact ⟨_, hrun, rttKept fastWorld (plainMemory none) (by decide +kernel) 3 _ hrun⟩

end Session
end Probdata
