/-
# A client that wants UDT alone

The `-t` of the client is looked at where the search of the history succeeded,
and by the server, which then has no TCP worker to stop. Where the search failed
the client asks for TCP all the same: in the session of such a client there is no
TCP profiling exactly if the history has a record (`Parties.noTcp_iff`).
-/
import Probdata.Session.MemoryToMemory

namespace Probdata
namespace Session

open Wire Bytes

namespace Parties

variable {S : Parties}

/-! ### No TCP -/

/-- There has been no TCP profiling: the client has not sent `P_RUN_M2M_TCP`, has
not processed it and so not called `probdata_client_tcp_fastprof_run`, nor run a
search in it; the server has created no TCP worker. -/
structure NoTcp (σ : Config Item Act Side Side) : Prop where
  sends : .runM2mTcp ∉ statuses (sent σ.leftLog)
  handles : .proc .runM2mTcp ∉ acts σ.leftLog
  searches : .search .tcp ∉ acts σ.leftLog
  creates : ∀ h, .create .tcp h ∉ acts σ.rightLog

/-- The whole conversation of a session whose history has a record. -/
theorem noTcp_talk (hm : S.MemoryToMemory) (ht : S.client.udtOnly = true)
    (hf : S.clientEnv.found = true) :
    .runM2mTcp ∉ statuses (sent (side S.talk)) ∧ .proc .runM2mTcp ∉ acts (side S.talk) ∧
      .search .tcp ∉ acts (side S.talk) ∧ ∀ h, .create .tcp h ∉ acts (side (swapped S.talk)) := by
  rw [hm.talk_eq, S.m2mPart_udt hf ht]
  refine ⟨?_, ?_, ?_, fun h => ?_⟩
  · simp [statuses_opening, statuses_udtTalk, Status.ofCode_code]
  · simp [acts_opening, acts_udtTalk, Client.searches]
  · simp [acts_opening, acts_udtTalk, Client.searches]
  · simp [acts_swapped_opening, acts_swapped_udtTalk, Server.stops, Server.starts, Server.joins,
      Server.forgets]

/-- In a memory-to-memory session of a client that wants UDT alone there is no
TCP profiling, at any time and in any interleaving, exactly if the history has a
record. -/
theorem noTcp_iff (hm : S.MemoryToMemory) (ht : S.client.udtOnly = true) :
    (∀ σ, S.Reachable σ → NoTcp σ) ↔ S.clientEnv.found = true := by
  constructor
  · intro h
    by_contra hf
    obtain ⟨σ, hσ, hl, -⟩ := S.exists_end
    have hsent := (h σ hσ).sends
    rw [hl, hm.talk_eq, S.m2mPart_tcp fun h => hf h.1] at hsent
    simp [Status.ofCode_code] at hsent
  · intro hf σ hσ
    have hinv := S.invariant hσ
    obtain ⟨r, hr, -⟩ := hinv.leftLog
    obtain ⟨r', hr', -⟩ := hinv.swap.leftLog
    obtain ⟨h1, h2, h3, h4⟩ := noTcp_talk hm ht hf
    have hl : σ.leftLog <+: side S.talk := ⟨r, hr.symm⟩
    have hl' : σ.rightLog <+: side (swapped S.talk) := ⟨r', hr'.symm⟩
    exact ⟨fun h => h1 (sent_subset hl h), fun h => h2 (acts_subset hl h),
      fun h => h3 (acts_subset hl h), fun h hh => h4 h (acts_subset hl' hh)⟩

/-- A session whose history has a record, in its last state. -/
theorem noTcp_iff_plain : ∃ σ, (plainParties true true).Reachable σ ∧
    .proc .programDone ∈ acts σ.leftLog ∧ NoTcp σ := by
  obtain ⟨σ, hσ, hl, -⟩ := (plainParties true true).exists_end
  refine ⟨σ, hσ, ?_, (noTcp_iff (S := plainParties true true) ⟨rfl, rfl⟩ rfl).mpr rfl σ hσ⟩
  rw [hl]
  decide

/-- A client that wants UDT alone and has no record asks for TCP, the server
creates a worker for it, and the search is run. -/
theorem not_noTcp_plain : ∃ σ, (plainParties true false).Reachable σ ∧
    Prob.udtOnly (plainParties true false).client = true ∧
    .runM2mTcp ∈ statuses (sent σ.leftLog) ∧ .search .tcp ∈ acts σ.leftLog ∧
    .create .tcp 0 ∈ acts σ.rightLog ∧ ¬ NoTcp σ := by
  obtain ⟨σ, hσ, hl, hr⟩ := (plainParties true false).exists_end
  have hsearch : .search .tcp ∈ acts σ.leftLog := by
    rw [hl]
    decide
  refine ⟨σ, hσ, rfl, ?_, hsearch, ?_, fun h => h.searches hsearch⟩
  · rw [hl]
    decide
  · rw [hr]
    decide

end Parties

end Session
end Probdata
