/-
# The moments of a run

A run as the list of its steps, and what is known of the two parties at the
moment one of them performs an act that its side of the conversation has once:
the other has performed its own side up to the last byte that the first has
read, and nothing from the next byte on that it has still to read
(`Invariant.at_act`).
-/
import Probdata.Lib.Wire.Lockstep

namespace Probdata
namespace Wire

variable {Tag Act V W : Type} {next : V → Option (Prog Tag Act V)}
  {next' : W → Option (Prog Tag Act W)} {σ τ υ : Config Tag Act V W}

/-- A run from `σ`, with the states before and after each step. -/
inductive Path (next : V → Option (Prog Tag Act V)) (next' : W → Option (Prog Tag Act W))
    (σ : Config Tag Act V W) :
    List (Config Tag Act V W × Config Tag Act V W) → Config Tag Act V W → Prop
  | nil : Path next next' σ [] σ
  | snoc {ts : List (Config Tag Act V W × Config Tag Act V W)} {τ υ : Config Tag Act V W} :
      Path next next' σ ts τ → Step next next' τ υ → Path next next' σ (ts ++ [(τ, υ)]) υ

theorem Path.reaches {ts : List (Config Tag Act V W × Config Tag Act V W)}
    (h : Path next next' σ ts τ) : Reaches next next' σ τ := by
  induction h with
  | nil => exact .refl
  | snoc _ hstep ih => exact ih.step hstep

theorem Reaches.exists_path (h : Reaches next next' σ τ) : ∃ ts, Path next next' σ ts τ := by
  induction h with
  | refl => exact ⟨[], .nil⟩
  | step _ hstep ih =>
    obtain ⟨ts, hts⟩ := ih
    exact ⟨_, hts.snoc hstep⟩

/-- Each step of a run is one from a state that is reached. -/
theorem Path.of_mem {ts : List (Config Tag Act V W × Config Tag Act V W)}
    (h : Path next next' σ ts τ) {x : Config Tag Act V W × Config Tag Act V W} (hx : x ∈ ts) :
    Reaches next next' σ x.1 ∧ Step next next' x.1 x.2 := by
  induction h with
  | nil => cases hx
  | snoc hpath hstep ih =>
    rcases List.mem_append.mp hx with hx | hx
    · exact ih hx
    · obtain rfl := List.mem_singleton.mp hx
      exact ⟨hpath.reaches, hstep⟩

theorem Step.leftLog_grows (h : Step next next' σ τ) : σ.leftLog <+: τ.leftLog := by
  rcases h with hl | hr
  · obtain @⟨ops, p, -⟩ := hl
    exact List.prefix_append σ.leftLog ops
  · generalize hσ : σ.swap = σ' at hr
    generalize hτ : τ.swap = τ' at hr
    obtain @⟨ops, p, -⟩ := hr
    have h1 : τ.leftLog = _ := congrArg Config.rightLog hτ
    have h2 : σ.leftLog = _ := congrArg Config.rightLog hσ
    rw [h1, h2]
    exact List.prefix_rfl

/-- What a party has performed in a step of a run is in its log in the end. -/
theorem Path.leftLog_grows {ts : List (Config Tag Act V W × Config Tag Act V W)}
    (h : Path next next' σ ts τ) {x : Config Tag Act V W × Config Tag Act V W} (hx : x ∈ ts) :
    x.2.leftLog <+: τ.leftLog := by
  induction h with
  | nil => cases hx
  | snoc _ hstep ih =>
    rcases List.mem_append.mp hx with hx | hx
    · exact (ih hx).trans hstep.leftLog_grows
    · obtain rfl := List.mem_singleton.mp hx
      exact List.prefix_rfl

/-! ### The moment of an act -/

/-- In the step from `σ` to `τ` the left party performs the act `e`. -/
def Performs (e : Act) (σ τ : Config Tag Act V W) : Prop := τ.leftLog = σ.leftLog ++ [.act e]

theorem Step.left_of_performs {e : Act} (h : Step next next' σ τ) (hp : Performs e σ τ) :
    ∃ q, σ.left = .act e q := by
  rcases h with hl | hr
  · obtain @⟨ops, p, hps⟩ := hl
    have hops : ops = [.act e] := List.append_cancel_left hp
    generalize σ.left = l at hps ⊢
    cases hps with
    | act =>
      cases hops
      exact ⟨_, rfl⟩
    | loop _ => cases hops
    | eof _ _ => cases hops
    | @write t bs k r h0 hr =>
      rcases bs with _ | ⟨b, bs⟩
      · simp at hops
      · obtain ⟨r, rfl⟩ : ∃ r', r = r' + 1 := ⟨r - 1, by omega⟩
        cases hops
    | @read t n k r h0 hr hb =>
      have := congrArg acts hops
      simp [acts] at this
  · have hlog : τ.leftLog = σ.leftLog := by
      generalize hσ : σ.swap = σ' at hr
      generalize hτ : τ.swap = τ' at hr
      obtain @⟨ops, p, hps⟩ := hr
      have h1 := congrArg Config.rightLog hτ
      have h2 := congrArg Config.rightLog hσ
      exact h1.trans h2.symm
    rw [Performs, hlog] at hp
    simpa using congrArg List.length hp

/-- The place of what is in a list once. -/
theorem append_cons_cancel {α : Type} {a b a' b' : List α} {x : α}
    (h : a ++ x :: b = a' ++ x :: b') (ha : x ∉ a') (hb : x ∉ b') : a = a' := by
  rcases List.append_eq_append_iff.mp h with ⟨c, rfl, hc⟩ | ⟨c, rfl, hc⟩
  · rcases c with _ | ⟨y, c⟩
    · exact (List.append_nil _).symm
    · obtain ⟨rfl, rfl⟩ := List.cons.inj hc
      exact absurd (by simp) ha
  · rcases c with _ | ⟨y, c⟩
    · exact List.append_nil _
    · obtain ⟨rfl, rfl⟩ := List.cons.inj hc
      exact absurd (by simp) hb

/-- Operations of which as many have been sent as up to a byte written. -/
theorem exists_of_sent {t : Tag} {b : UInt8} {X Y l s : List (Op Tag Act)}
    (h : l ++ s = X ++ .out t b :: Y) (hsent : (sent X).length < (sent l).length) :
    ∃ l', l = X ++ .out t b :: l' ∧ Y = l' ++ s := by
  rcases List.append_eq_append_iff.mp h with ⟨c, rfl, -⟩ | ⟨c, rfl, hc⟩
  · rw [sent_append, List.length_append] at hsent
    omega
  · rcases c with _ | ⟨y, c⟩
    · rw [List.append_nil] at hsent
      omega
    · obtain ⟨rfl, rfl⟩ := List.cons.inj hc
      exact ⟨c, rfl, rfl⟩

/-- Operations that stop before a byte read. -/
theorem exists_of_got {Z W l s : List (Op Tag Act)} (h : Z ++ W = l ++ s) (hgot : got l = [])
    (hW : W = [] ∨ ∃ t b W', W = .inn t b :: W') : ∃ z, Z = l ++ z ∧ s = z ++ W := by
  rcases List.append_eq_append_iff.mp h with ⟨c, rfl, hc⟩ | ⟨c, rfl, rfl⟩
  · rcases c with _ | ⟨y, c⟩
    · exact ⟨[], by simp, hc.symm⟩
    · rcases hW with rfl | ⟨t, b, W', rfl⟩
      · cases hc
      · obtain ⟨rfl, rfl⟩ := List.cons.inj hc
        rw [got_append] at hgot
        simp [got] at hgot
  · exact ⟨c, rfl, rfl⟩

/-- The left party is about to perform an act that it has between `A` and `B`
alone. The last byte that it has read is the one that the other sends after
`X`; what the other does then is `Z`, up to the byte that it reads next. Then
the other has performed `X`, it has sent the byte, and it has performed some
of `Z`. -/
theorem Invariant.at_act {A B G : List (Entry Tag Act)} {e : Act} {q : Prog Tag Act V} {t : Tag}
    {b : UInt8} {X Z Y : List (Op Tag Act)} (h : Invariant next next' G σ)
    (hG : G = A ++ .act true e :: B) (hleft : σ.left = .act e q)
    (hA : .act e ∉ side A) (hB : .act e ∉ side B)
    (hX : side (swapped A) = X ++ [.out t b]) (hZ : side (swapped B) = Z ++ Y)
    (hY : Y = [] ∨ ∃ t b Y', Y = .inn t b :: Y') :
    ∃ l z waits, Z = l ++ z ∧ σ.rightLog = X ++ .out t b :: l ∧
      Runs next' waits σ.right (z ++ Y) := by
  have htoLeft := h.got_toLeft
  have htoRight := h.swap.got_toLeft
  obtain ⟨s, s', waits, waits', hl, hr, -, -, -⟩ := h
  obtain ⟨s, rfl⟩ : ∃ r, s = .act e :: r := by
    have hruns := hl.runs
    rw [hleft] at hruns
    cases hruns with
    | act _ => exact ⟨_, rfl⟩
  have hlog : σ.leftLog = side A := by
    refine append_cons_cancel (hl.log.trans ?_) hA hB
    rw [hG, side_append, side_cons]
    rfl
  have hright : σ.rightLog ++ s' = X ++ .out t b :: (Z ++ Y) := by
    rw [hr.log, hG, swapped_append, side_append, hX, ← hZ, List.append_assoc]
    rfl
  have hsent : (sent X).length < (sent σ.rightLog).length := by
    rw [htoLeft, hlog, got_side, hX, sent_append]
    simp only [sent, List.length_append, List.length_cons]
    omega
  obtain ⟨l, hl', hrest⟩ := exists_of_sent hright hsent
  have hgotl : got l = [] := by
    have hlen := congrArg List.length htoRight
    have hσ : sent σ.swap.rightLog = sent (side A) := congrArg sent hlog
    have hσ' : got σ.swap.leftLog = got X ++ got l := by
      show got σ.rightLog = _
      rw [hl', got_append]
      rfl
    rw [hσ, hσ', sent_side, hX, got_append] at hlen
    simp only [got, List.length_append, List.length_nil] at hlen
    exact List.length_eq_zero_iff.mp (by omega)
  obtain ⟨z, hz, rfl⟩ := exists_of_got hrest hgotl hY
  exact ⟨l, z, waits', hz, hl', hr.runs⟩

/-- A party that is to perform an act gets to it. -/
theorem Runs.exists_act {waits : Bool} {e : Act} {s : List (Op Tag Act)}
    (h : Runs next waits σ.left (.act e :: s)) (next' : W → Option (Prog Tag Act W)) :
    ∃ q, Reaches next next' σ { σ with left := .act e q } := by
  obtain ⟨l, r, tl, tr, ll, rl⟩ := σ
  dsimp only at h ⊢
  generalize hS : Op.act e :: s = S at h
  induction h with
  | fin => cases hS
  | eof => cases hS
  | @loop v q s' hn _ ih =>
    obtain ⟨q', hr⟩ := ih hS
    have hstep : LeftStep next next' ⟨.ret v, r, tl, tr, ll, rl⟩
        (Config.performed ⟨.ret v, r, tl, tr, ll, rl⟩ [] q) := .mk (.loop hn)
    simp only [Config.performed, sent, got, List.length_nil, List.drop_zero, List.append_nil]
      at hstep
    exact ⟨q', Reaches.trans (.step .refl (.left hstep)) hr⟩
  | act hk _ =>
    obtain ⟨ho, rfl⟩ := List.cons.inj hS
    cases ho
    exact ⟨_, .refl⟩
  | @write t bs k s' hne hk _ =>
    rcases bs with _ | ⟨b, bs⟩
    · exact absurd rfl hne
    · cases (List.cons.inj hS).1
  | @read t n bs k s' h0 hn hk _ =>
    rcases bs with _ | ⟨b, bs⟩
    · rw [← hn] at h0; cases h0
    · cases (List.cons.inj hS).1

/-- A party that has nothing to do, or to read, is at the head of its loop or
reads. -/
theorem Runs.rests {waits : Bool} {p : Prog Tag Act V} {s : List (Op Tag Act)}
    (h : Runs next waits p s) (hs : s = [] ∨ ∃ t b s', s = .inn t b :: s') :
    (∃ v, p = .ret v) ∨ Waiting p := by
  cases h with
  | fin _ _ => exact Or.inl ⟨_, rfl⟩
  | loop _ _ => exact Or.inl ⟨_, rfl⟩
  | eof _ _ _ _ => exact Or.inr ⟨_, _, _, rfl⟩
  | read _ _ _ => exact Or.inr ⟨_, _, _, rfl⟩
  | act _ => rcases hs with hs | ⟨t, b, s', hs⟩ <;> cases hs
  | @write t bs k s hne _ =>
    rcases bs with _ | ⟨b, bs⟩
    · exact absurd rfl hne
    · rcases hs with hs | ⟨t', b', s', hs⟩ <;> cases hs

theorem Runs.not_waiting {waits : Bool} {p : Prog Tag Act V} {e : Act} {s : List (Op Tag Act)}
    (h : Runs next waits p (.act e :: s)) : ¬ Waiting p := by
  rintro ⟨t, n, k, rfl⟩
  generalize hS : Op.act e :: s = S at h
  cases h with
  | eof _ _ _ _ => cases hS
  | @read _ _ bs _ s' h0 hn _ =>
    rcases bs with _ | ⟨b, bs⟩
    · rw [← hn] at h0; cases h0
    · cases (List.cons.inj hS).1

theorem Step.act {e : Act} {q : Prog Tag Act V} (h : σ.left = .act e q) :
    Step next next' σ (σ.performed [.act e] q) :=
  .left (.mk (by rw [h]; exact .act))

end Wire
end Probdata
