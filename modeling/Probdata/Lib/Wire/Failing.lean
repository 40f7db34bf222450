/-
# Two parties whose calls fail

The parties of `Lockstep`, where any call may also fail. What a program makes of that is
said by `Guarded`: after a call that failed it does nothing more (`Fails`), and once it has
found the end of the stream it ends, without another act (`Starves`). `Guarded.bind` gives
it for a program from its pieces.

Two parties of such programs never wait for each other, whichever calls fail
(`FrailInvariant.progress`), and every run of them is finite (`FrailInvariant.acc`).
-/
import Mathlib.Logic.Relation
import Probdata.Lib.Wire.Ends

namespace Probdata
namespace Wire

variable {Tag Act α β V W : Type}

/-! ### What a program makes of it -/

/-- The program does nothing more, and its result is one of `F`. -/
def Fails (F : α → Prop) (p : Prog Tag Act α) : Prop := ∃ a, p = .ret a ∧ F a

/-- Where every `read` finds the end of the stream, the program performs no act and ends
with one of `D`, or with one of `F` after a call that failed. -/
inductive Starves (F D : α → Prop) : Prog Tag Act α → Prop
  | ret {a : α} : D a → Starves F D (.ret a)
  | write {t : Tag} {bs : List UInt8} {k : Option ℕ → Prog Tag Act α} : bs ≠ [] →
      Fails F (k none) → (∀ r, 0 < r → r ≤ bs.length → Starves F D (k (some r))) →
      Starves F D (.write t bs k)
  | read {t : Tag} {n : ℕ} {k : Option (List UInt8) → Prog Tag Act α} : 0 < n →
      Fails F (k none) → Starves F D (k (some [])) → Starves F D (.read t n k)

/-- The program ends with one of `F` after a call that failed, with one of `D` once it has
found the end of the stream, and else with one of `Q`. -/
inductive Guarded (F D Q : α → Prop) : Prog Tag Act α → Prop
  | ret {a : α} : Q a → Guarded F D Q (.ret a)
  | act {e : Act} {k : Prog Tag Act α} : Guarded F D Q k → Guarded F D Q (.act e k)
  | write {t : Tag} {bs : List UInt8} {k : Option ℕ → Prog Tag Act α} : bs ≠ [] →
      Fails F (k none) → (∀ r, 0 < r → r ≤ bs.length → Guarded F D Q (k (some r))) →
      Guarded F D Q (.write t bs k)
  | read {t : Tag} {n : ℕ} {k : Option (List UInt8) → Prog Tag Act α} : 0 < n →
      Fails F (k none) → Starves F D (k (some [])) →
      (∀ bs, bs ≠ [] → bs.length ≤ n → Guarded F D Q (k (some bs))) →
      Guarded F D Q (.read t n k)

section Bind

variable {F D Q : α → Prop} {F' D' Q' : β → Prop} {p : Prog Tag Act α} {f : α → Prog Tag Act β}

theorem Fails.bind (h : Fails F p) (hF : ∀ a, F a → Fails F' (f a)) : Fails F' (p.bind f) := by
  obtain ⟨a, rfl, ha⟩ := h
  exact hF a ha

theorem Starves.bind (h : Starves F D p) (hF : ∀ a, F a → Fails F' (f a))
    (hD : ∀ a, D a → Starves F' D' (f a)) : Starves F' D' (p.bind f) := by
  induction h with
  | ret ha => exact hD _ ha
  | write hne hfail _ ih => exact .write hne (hfail.bind hF) ih
  | read hn hfail _ ih => exact .read hn (hfail.bind hF) ih

/-- What a program with another behind it makes of a call that fails. -/
theorem Guarded.bind (h : Guarded F D Q p) (hF : ∀ a, F a → Fails F' (f a))
    (hD : ∀ a, D a → Starves F' D' (f a)) (hQ : ∀ a, Q a → Guarded F' D' Q' (f a)) :
    Guarded F' D' Q' (p.bind f) := by
  induction h with
  | ret ha => exact hQ _ ha
  | act _ ih => exact .act ih
  | write hne hfail _ ih => exact .write hne (hfail.bind hF) ih
  | read hn hfail hend _ ih => exact .read hn (hfail.bind hF) (hend.bind hF hD) ih

end Bind

/-! ### Loops -/

/-- Where every `read` finds the end of the stream, the party performs no act and leaves
its loop with one of `F`. -/
inductive Dies (next : V → Option (Prog Tag Act V)) (F : V → Prop) : Prog Tag Act V → Prop
  | fin {v : V} : next v = none → F v → Dies next F (.ret v)
  | loop {v : V} {q : Prog Tag Act V} : next v = some q → Dies next F q → Dies next F (.ret v)
  | write {t : Tag} {bs : List UInt8} {k : Option ℕ → Prog Tag Act V} : bs ≠ [] →
      Fails F (k none) → (∀ r, 0 < r → r ≤ bs.length → Dies next F (k (some r))) →
      Dies next F (.write t bs k)
  | read {t : Tag} {n : ℕ} {k : Option (List UInt8) → Prog Tag Act V} : 0 < n →
      Fails F (k none) → Dies next F (k (some [])) → Dies next F (.read t n k)

/-- A party that leaves its loop with one of `F` after a call that failed, and once it has
found the end of the stream. -/
abbrev Careful (next : V → Option (Prog Tag Act V)) (F : V → Prop) : Prog Tag Act V → Prop :=
  Guarded F (fun v => Dies next F (.ret v)) fun _ => True

/-- A loop of such programs. -/
structure Hardy (next : V → Option (Prog Tag Act V)) (F : V → Prop) : Prop where
  stops : ∀ v, F v → next v = none
  careful : ∀ v q, next v = some q → Careful next F q

variable {next : V → Option (Prog Tag Act V)} {next' : W → Option (Prog Tag Act W)}
  {F : V → Prop} {F' : W → Prop} {D : V → Prop} {G : List (Entry Tag Act)}
  {p p' : Prog Tag Act V} {inbox : List (Tag × UInt8)} {closed : Prop} {ops : List (Op Tag Act)}

theorem Starves.dies (h : Starves F D p) (hD : ∀ v, D v → Dies next F (.ret v)) :
    Dies next F p := by
  induction h with
  | ret hv => exact hD _ hv
  | write hne hfail _ ih => exact .write hne hfail ih
  | read hn hfail _ ih => exact .read hn hfail ih

/-- A call of the program fails. -/
inductive CallFails : Prog Tag Act α → Prog Tag Act α → Prop
  | write {t : Tag} {bs : List UInt8} {k : Option ℕ → Prog Tag Act α} :
      CallFails (.write t bs k) (k none)
  | read {t : Tag} {n : ℕ} {k : Option (List UInt8) → Prog Tag Act α} :
      CallFails (.read t n k) (k none)

theorem Careful.fails (h : Careful next F p) (hc : CallFails p p') : Fails F p' := by
  cases hc with
  | write => cases h with | write _ hfail _ => exact hfail
  | read => cases h with | read _ hfail _ _ => exact hfail

theorem Dies.fails (h : Dies next F p) (hc : CallFails p p') : Fails F p' := by
  cases hc with
  | write => cases h with | write _ hfail _ => exact hfail
  | read => cases h with | read _ hfail _ => exact hfail

theorem Fails.finished (h : Fails F p) (hn : Hardy next F) : Finished next p := by
  obtain ⟨v, rfl, hv⟩ := h
  exact ⟨v, rfl, hn.stops v hv⟩

/-- A party that has left its loop makes no step. -/
theorem Finished.not_pStep (h : Finished next p) : ¬ PStep next inbox closed p ops p' := by
  obtain ⟨v, rfl, hv⟩ := h
  intro hstep
  cases hstep with
  | loop hq =>
    rw [hv] at hq
    cases hq

theorem Finished.not_callFails (h : Finished next p) : ¬ CallFails p p' := by
  obtain ⟨v, rfl, -⟩ := h
  exact nofun

/-- A step does not find the end of the stream, or does. -/
theorem PStep.open_or_eof (h : PStep next inbox closed p ops p') :
    PStep next inbox False p ops p' ∨ inbox = [] ∧ ops = [] ∧ closed ∧
      ∃ t n k, p = .read t n k ∧ p' = k (some []) := by
  cases h with
  | loop hq => exact .inl (.loop hq)
  | act => exact .inl .act
  | write r h0 hr => exact .inl (.write r h0 hr)
  | read r h0 hr hb => exact .inl (.read r h0 hr hb)
  | eof hnil hc => exact .inr ⟨hnil, rfl, hc, _, _, _, rfl, rfl⟩

theorem Careful.eof {t : Tag} {n : ℕ} {k : Option (List UInt8) → Prog Tag Act V}
    (h : Careful next F (.read t n k)) : Dies next F (k (some [])) := by
  cases h with
  | read _ _ hend _ => exact hend.dies fun _ hv => hv

theorem Careful.pStep (h : Careful next F p) (hn : Hardy next F)
    (hstep : PStep next inbox False p ops p') : Careful next F p' := by
  cases hstep with
  | loop hq => exact hn.careful _ _ hq
  | act => cases h with | act hk => exact hk
  | write r h0 hr => cases h with | write _ _ hk => exact hk r h0 hr
  | read r h0 hr hb =>
    cases h with
    | read hpos _ _ hk =>
      have hlen : ((inbox.take r).map Prod.snd).length = r := by
        rw [List.length_map, List.length_take]
        omega
      refine hk _ (fun hnil => ?_) (by omega)
      rw [hnil, List.length_nil] at hlen
      omega
  | eof hnil hc => exact hc.elim

/-- A party that follows a conversation finds the end of the stream only at the end. -/
theorem Careful.pStep_of_runs {waits : Bool} {s : List (Op Tag Act)} (h : Careful next F p)
    (hn : Hardy next F) (hruns : Runs next waits p s) (hstep : PStep next inbox closed p ops p')
    (heof : closed → inbox = [] → got s = []) : Careful next F p' := by
  rcases hstep.open_or_eof with hopen | ⟨hnil, -, hc, t, n, k, rfl, rfl⟩
  · exact h.pStep hn hopen
  cases hruns with
  | eof _ _ hk _ =>
    rw [hk]
    exact .ret trivial
  | @read t n bs k s hpos hbs _ =>
    have hgot := heof hc hnil
    rw [got_append, got_inns, List.append_eq_nil_iff, List.map_eq_nil_iff] at hgot
    rw [hgot.1] at hbs
    exact absurd hpos (by simp [← hbs])

theorem Dies.pStep (h : Dies next F p) (hnil : inbox = [])
    (hstep : PStep next inbox closed p ops p') : Dies next F p' ∧ acts ops = [] := by
  cases hstep with
  | loop hq =>
    cases h with
    | fin hnone _ => rw [hq] at hnone; cases hnone
    | loop hq' hk =>
      obtain rfl := Option.some.inj (hq.symm.trans hq')
      exact ⟨hk, rfl⟩
  | act => cases h
  | write r h0 hr => cases h with | write _ _ hk => exact ⟨hk r h0 hr, acts_outs _ _⟩
  | read r h0 hr hb =>
    rw [hnil, List.length_nil] at hb
    omega
  | eof _ hc => cases h with | read _ _ hend => exact ⟨hend, rfl⟩

/-! ### A party whose peer has ended -/

/-- A party, what it has performed, and what is in flight to it. -/
structure Lone (Tag Act V : Type) where
  prog : Prog Tag Act V
  log : List (Op Tag Act)
  inbox : List (Tag × UInt8)

/-- A step of it, or a call that fails. -/
inductive LoneStep (next : V → Option (Prog Tag Act V)) (x : Lone Tag Act V) :
    Lone Tag Act V → Prop
  | step {closed : Prop} {ops : List (Op Tag Act)} {p : Prog Tag Act V} :
      PStep next x.inbox closed x.prog ops p →
      LoneStep next x ⟨p, x.log ++ ops, x.inbox.drop (got ops).length⟩
  | fails {p : Prog Tag Act V} : CallFails x.prog p → LoneStep next x { x with prog := p }

/-- What has become of a party whose peer has ended.

* `follows`: it still follows its side of the conversation
* `starves`: it has found the end of the stream in front of that of the conversation
* `fails`: a call of its own has failed -/
inductive Alone (next : V → Option (Prog Tag Act V)) (F : V → Prop) (G : List (Entry Tag Act))
    (x : Lone Tag Act V) : Prop
  | follows {waits : Bool} {s : List (Op Tag Act)} : Runs next waits x.prog s →
      x.log ++ s = side G → (∃ rest, got s = x.inbox ++ rest) → Careful next F x.prog →
      Alone next F G x
  | starves : Dies next F x.prog → x.inbox = [] → acts x.log <+: acts (side G) → Alone next F G x
  | fails : Fails F x.prog → acts x.log <+: acts (side G) → Alone next F G x

variable {x y : Lone Tag Act V}

theorem acts_prefix {log s : List (Op Tag Act)} (h : log ++ s = side G) :
    acts log <+: acts (side G) := ⟨acts s, by rw [← h, acts_append]⟩

theorem Alone.acts_log (h : Alone next F G x) : acts x.log <+: acts (side G) := by
  cases h with
  | follows _ hlog _ _ => exact acts_prefix hlog
  | starves _ _ hacts => exact hacts
  | fails _ hacts => exact hacts

/-- A party that follows its side makes a step of it, or finds the end of the stream. -/
theorem Runs.lone_step {waits : Bool} {s : List (Op Tag Act)} (hruns : Runs next waits x.prog s)
    (hin : ∃ rest, got s = x.inbox ++ rest) (hcareful : Careful next F x.prog)
    (hn : Hardy next F) (hstep : PStep next x.inbox closed x.prog ops p') :
    (∃ s' waits', s = ops ++ s' ∧ Runs next waits' p' s' ∧ Careful next F p' ∧
      Later next (p', s') (x.prog, s) ∧ ∃ rest, got s' = x.inbox.drop (got ops).length ++ rest) ∨
      x.inbox = [] ∧ ops = [] ∧ Dies next F p' := by
  rcases hstep.open_or_eof with hopen | ⟨hnil, rfl, -, t, n, k, hp, rfl⟩
  · obtain ⟨s', waits', hruns', rfl, -⟩ := hruns.step hopen hin False.elim
    obtain ⟨rest, hrest⟩ := hin
    refine .inl ⟨s', waits', rfl, hruns', hcareful.pStep hn hopen,
      ⟨x.inbox, False, ops, hopen, rfl, False.elim⟩, rest, ?_⟩
    rw [got_append] at hrest
    have hdrop := congrArg (List.drop (got ops).length) hrest
    rwa [List.drop_left, List.drop_append_of_le_length hstep.got_length_le] at hdrop
  · rw [hp] at hcareful
    exact .inr ⟨hnil, rfl, hcareful.eof⟩

theorem Fails.not_loneStep (h : Fails F x.prog) (hn : Hardy next F) : ¬ LoneStep next x y := by
  intro hstep
  cases hstep with
  | step hp => exact (h.finished hn).not_pStep hp
  | fails hc => exact (h.finished hn).not_callFails hc

/-- A party with a call that fails does nothing more. -/
theorem Alone.callFails (h : Alone next F G x) (hn : Hardy next F) (hc : CallFails x.prog p') :
    Fails F p' := by
  cases h with
  | follows _ _ _ hcareful => exact hcareful.fails hc
  | starves hdies _ _ => exact hdies.fails hc
  | fails hfails _ => exact absurd hc (hfails.finished hn).not_callFails

/-- What becomes of it stays so. -/
theorem Alone.step (h : Alone next F G x) (hn : Hardy next F) (hstep : LoneStep next x y) :
    Alone next F G y := by
  have hacts := h.acts_log
  cases h with
  | follows hruns hlog hin hcareful =>
    cases hstep with
    | step hp =>
      rcases hruns.lone_step hin hcareful hn hp with ⟨s', waits', rfl, hruns', hc, -, hin'⟩ | hend
      · exact .follows hruns' (by rw [← hlog, List.append_assoc]) hin' hc
      · obtain ⟨hnil, rfl, hdies⟩ := hend
        refine .starves hdies ?_ ?_
        · rw [hnil]
          rfl
        · rwa [List.append_nil]
    | fails hc => exact .fails (hcareful.fails hc) hacts
  | starves hdies hnil _ =>
    cases hstep with
    | step hp =>
      obtain ⟨hdies', hnone⟩ := hdies.pStep hnil hp
      refine .starves hdies' ?_ ?_
      · rw [hnil, List.drop_nil]
      · rwa [acts_append, hnone, List.append_nil]
    | fails hc => exact .fails (hdies.fails hc) hacts
  | fails hfails _ => exact absurd hstep (hfails.not_loneStep hn)

theorem Fails.acc_lone (h : Fails F x.prog) (hn : Hardy next F) :
    Acc (fun y x => LoneStep next x y) x :=
  ⟨_, fun _ hstep => absurd hstep (h.not_loneStep hn)⟩

theorem Dies.acc_lone (h : Dies next F p) (hn : Hardy next F) (log : List (Op Tag Act)) :
    Acc (fun y x => LoneStep next x y) ⟨p, log, []⟩ := by
  induction h generalizing log with
  | fin hnone hF => exact Fails.acc_lone ⟨_, rfl, hF⟩ hn
  | loop hq _ ih =>
    refine ⟨_, fun y hstep => ?_⟩
    cases hstep with
    | step hp =>
      cases hp with
      | loop hq' =>
        obtain rfl := Option.some.inj (hq.symm.trans hq')
        exact ih _
    | fails hc => cases hc
  | write hne hfail _ ih =>
    refine ⟨_, fun y hstep => ?_⟩
    cases hstep with
    | step hp =>
      cases hp with
      | write r h0 hr =>
        rw [List.drop_nil]
        exact ih r h0 hr _
    | fails hc =>
      cases hc with
      | write => exact hfail.acc_lone hn
  | read hpos hfail _ ih =>
    refine ⟨_, fun y hstep => ?_⟩
    cases hstep with
    | step hp =>
      cases hp with
      | read r h0 hr hb =>
        rw [List.length_nil] at hb
        omega
      | eof _ _ => exact ih _
    | fails hc =>
      cases hc with
      | read => exact hfail.acc_lone hn

/-- A party whose peer has ended makes finitely many steps. -/
theorem Alone.acc (h : Alone next F G x) (hn : Hardy next F) :
    Acc (fun y x => LoneStep next x y) x := by
  cases h with
  | starves hdies hnil _ =>
    obtain ⟨p, log, inbox⟩ := x
    obtain rfl : inbox = [] := hnil
    exact hdies.acc_lone hn log
  | fails hfails _ => exact hfails.acc_lone hn
  | @follows waits s hruns hlog hin hcareful =>
    clear hlog
    have hacc := hruns.acc
    generalize hz : (x.prog, s) = z at hacc
    induction hacc generalizing x s waits with
    | intro z _ ih =>
      subst hz
      refine ⟨_, fun y hstep => ?_⟩
      cases hstep with
      | @step closed ops p' hp =>
        rcases hruns.lone_step hin hcareful hn hp with ⟨s', waits', -, hruns', hc, hlater, hin'⟩ | hend
        · exact ih (p', s') hlater hruns' hin' hc rfl
        · obtain ⟨hnil, rfl, hdies⟩ := hend
          rw [hnil]
          exact hdies.acc_lone hn _
      | fails hc => exact (hcareful.fails hc).acc_lone hn

/-- Once the peer has ended, a party that has not can make a step. -/
theorem Alone.finished_or_step (h : Alone next F G x) (hn : Hardy next F) (hclosed : closed) :
    Finished next x.prog ∨ ∃ ops p', PStep next x.inbox closed x.prog ops p' := by
  have hread : ∀ {t : Tag} {n : ℕ} (k : Option (List UInt8) → Prog Tag Act V), 0 < n →
      ∃ ops p', PStep next x.inbox closed (.read t n k) ops p' := by
    intro t n k hpos
    by_cases hnil : x.inbox = []
    · exact ⟨_, _, .eof hnil hclosed⟩
    · exact ⟨_, _, .read 1 Nat.one_pos hpos (List.length_pos_iff.mpr hnil)⟩
  have hwrite : ∀ {t : Tag} {bs : List UInt8} (k : Option ℕ → Prog Tag Act V), bs ≠ [] →
      ∃ ops p', PStep next x.inbox closed (.write t bs k) ops p' := fun k hne =>
    ⟨_, _, .write 1 Nat.one_pos (List.length_pos_iff.mpr hne)⟩
  have hret : ∀ v, Finished next (.ret v) ∨ ∃ ops p', PStep next x.inbox closed (.ret v) ops p' := by
    intro v
    cases hv : next v with
    | none => exact .inl ⟨v, rfl, hv⟩
    | some q => exact .inr ⟨_, _, .loop hv⟩
  cases h with
  | follows _ _ _ hcareful =>
    cases hp : x.prog with
    | ret v => exact hret v
    | act e k => exact .inr ⟨_, _, .act⟩
    | write t bs k =>
      rw [hp] at hcareful
      cases hcareful with | write hne _ _ => exact .inr (hwrite k hne)
    | read t n k =>
      rw [hp] at hcareful
      cases hcareful with | read hpos _ _ _ => exact .inr (hread k hpos)
  | starves hdies _ _ =>
    cases hp : x.prog with
    | ret v => exact hret v
    | act e k => exact .inr ⟨_, _, .act⟩
    | write t bs k =>
      rw [hp] at hdies
      cases hdies with | write hne _ _ => exact .inr (hwrite k hne)
    | read t n k =>
      rw [hp] at hdies
      cases hdies with | read hpos _ _ => exact .inr (hread k hpos)
  | fails hfails _ => exact .inl (hfails.finished hn)

/-- Two parties, and which of them has had a call that failed. -/
structure Frail (Tag Act V W : Type) where
  config : Config Tag Act V W
  leftFailed : Bool
  rightFailed : Bool

def Frail.swap (x : Frail Tag Act V W) : Frail Tag Act W V :=
  ⟨x.config.swap, x.rightFailed, x.leftFailed⟩

/-- The left party performs something, or a call of it fails. -/
inductive LeftFrailStep (next : V → Option (Prog Tag Act V)) (next' : W → Option (Prog Tag Act W))
    (x : Frail Tag Act V W) : Frail Tag Act V W → Prop
  | step {σ : Config Tag Act V W} : LeftStep next next' x.config σ →
      LeftFrailStep next next' x { x with config := σ }
  | fails {p : Prog Tag Act V} : CallFails x.config.left p →
      LeftFrailStep next next' x
        { x with config := { x.config with left := p }, leftFailed := true }

/-- A step of either party. -/
inductive FrailStep (next : V → Option (Prog Tag Act V)) (next' : W → Option (Prog Tag Act W))
    (x y : Frail Tag Act V W) : Prop
  | left : LeftFrailStep next next' x y → FrailStep next next' x y
  | right : LeftFrailStep next' next x.swap y.swap → FrailStep next next' x y

/-- The left party, alone. -/
def Config.lone (σ : Config Tag Act V W) : Lone Tag Act V := ⟨σ.left, σ.leftLog, σ.toLeft⟩

/-- Both parties follow the conversation. -/
structure Unbroken (next : V → Option (Prog Tag Act V)) (next' : W → Option (Prog Tag Act W))
    (F : V → Prop) (F' : W → Prop) (G : List (Entry Tag Act)) (x : Frail Tag Act V W) : Prop where
  invariant : Invariant next next' G x.config
  left : Careful next F x.config.left
  right : Careful next' F' x.config.right
  leftFailed : x.leftFailed = false
  rightFailed : x.rightFailed = false

/-- A call of the left party has failed. -/
structure LeftLost (next' : W → Option (Prog Tag Act W)) (F : V → Prop) (F' : W → Prop)
    (G : List (Entry Tag Act)) (x : Frail Tag Act V W) : Prop where
  left : Fails F x.config.left
  leftActs : acts x.config.leftLog <+: acts (side G)
  right : Alone next' F' (swapped G) x.config.swap.lone
  rightFailed : x.rightFailed = true → Fails F' x.config.right

/-- Two parties of a conversation, any of whose calls may have failed. -/
def FrailInvariant (next : V → Option (Prog Tag Act V)) (next' : W → Option (Prog Tag Act W))
    (F : V → Prop) (F' : W → Prop) (G : List (Entry Tag Act)) (x : Frail Tag Act V W) : Prop :=
  Unbroken next next' F F' G x ∨ LeftLost next' F F' G x ∨ LeftLost next F' F (swapped G) x.swap

section Two

variable {X Y : Frail Tag Act V W}

theorem FrailInvariant.swap (h : FrailInvariant next next' F F' G X) :
    FrailInvariant next' next F' F (swapped G) X.swap := by
  rcases h with h | h | h
  · exact .inl ⟨h.invariant.swap, h.right, h.left, h.rightFailed, h.leftFailed⟩
  · refine .inr (.inr ?_)
    rw [swapped_swapped]
    exact h
  · exact .inr (.inl h)

theorem FrailStep.swap (h : FrailStep next next' X Y) : FrailStep next' next X.swap Y.swap := by
  rcases h with h | h
  · exact .right h
  · exact .left h

/-- A step of the left party is one of it alone. -/
theorem LeftFrailStep.lone (h : LeftFrailStep next next' X Y) :
    LoneStep next X.config.lone Y.config.lone ∧ Y.config.right = X.config.right ∧
      Y.config.rightLog = X.config.rightLog ∧ Y.rightFailed = X.rightFailed ∧
      (Y.leftFailed = true → X.leftFailed = true ∨ CallFails X.config.left Y.config.left) := by
  cases h with
  | step hs =>
    obtain @⟨ops, p, hp⟩ := hs
    exact ⟨.step hp, rfl, rfl, rfl, .inl⟩
  | fails hc => exact ⟨.fails hc, rfl, rfl, rfl, fun _ => .inr hc⟩

theorem LeftFrailStep.leftStep (h : LeftFrailStep next next' X Y) (hf : Y.leftFailed = false) :
    LeftStep next next' X.config Y.config := by
  cases h with
  | step hs => exact hs
  | fails hc => cases hf

/-- A party with a call that failed makes no step. -/
theorem LeftLost.not_left (h : LeftLost next' F F' G X) (hn : Hardy next F) :
    ¬ LeftFrailStep next next' X Y := fun hstep =>
  Fails.not_loneStep (x := X.config.lone) h.left hn hstep.lone.1

/-- The other goes on alone. -/
theorem LeftLost.right_step (h : LeftLost next' F F' G X) (hn' : Hardy next' F')
    (hstep : LeftFrailStep next' next X.swap Y.swap) : LeftLost next' F F' G Y := by
  obtain ⟨hlone, hleft, hlog, -, hfailed⟩ := hstep.lone
  have hleft' : Y.config.left = X.config.left := hleft
  have hlog' : Y.config.leftLog = X.config.leftLog := hlog
  refine ⟨hleft' ▸ h.left, hlog' ▸ h.leftActs, h.right.step hn' hlone, fun hf => ?_⟩
  rcases hfailed hf with hX | hc
  · exact absurd hlone (Fails.not_loneStep (x := X.config.swap.lone) (h.rightFailed hX) hn')
  · exact h.right.callFails hn' hc

/-- A party that follows its side of the conversation. -/
theorem Invariant.alone (h : Invariant next next' G X.config) (hc : Careful next F X.config.left) :
    Alone next F G X.config.lone := by
  obtain ⟨s, s', waits, waits', hl, -, h1, -, -⟩ := h
  exact .follows hl.runs hl.log ⟨_, h1⟩ hc

theorem Unbroken.leftStep (h : Unbroken next next' F F' G X) (hn : Hardy next F)
    (hstep : LeftFrailStep next next' X Y) : FrailInvariant next next' F F' G Y := by
  cases hstep with
  | @step σ hs =>
    obtain @⟨ops, p, hp⟩ := hs
    obtain ⟨s, s', waits, waits', hl, hr, h1, h2, hw⟩ := id h.invariant
    have heof : Finished next' X.config.right → X.config.toLeft = [] → got s = [] := by
      intro hf hnil
      rw [h1, hnil, hr.runs.nil_of_finished hf]
      rfl
    exact .inl ⟨h.invariant.leftStep (.mk hp), h.left.pStep_of_runs hn hl.runs hp heof, h.right,
      h.leftFailed, h.rightFailed⟩
  | @fails p hc =>
    have halone : Alone next' F' (swapped G) X.swap.config.lone :=
      Invariant.alone (X := X.swap) h.invariant.swap h.right
    obtain ⟨s, hs, -⟩ := h.invariant.leftLog
    refine .inr (.inl ⟨h.left.fails hc, acts_prefix hs.symm, halone, fun hf => ?_⟩)
    exact absurd (h.rightFailed.symm.trans hf) nofun

/-- Every step keeps the invariant. -/
theorem FrailInvariant.step (h : FrailInvariant next next' F F' G X) (hn : Hardy next F)
    (hn' : Hardy next' F') (hstep : FrailStep next next' X Y) :
    FrailInvariant next next' F F' G Y := by
  have hback : FrailInvariant next' next F' F (swapped G) Y.swap →
      FrailInvariant next next' F F' G Y := fun hY => by
    have hY' := hY.swap
    rwa [swapped_swapped] at hY'
  rcases h with h | h | h
  · rcases hstep with hstep | hstep
    · exact h.leftStep hn hstep
    · have hX : Unbroken next' next F' F (swapped G) X.swap :=
        ⟨h.invariant.swap, h.right, h.left, h.rightFailed, h.leftFailed⟩
      exact hback (hX.leftStep hn' hstep)
  · rcases hstep with hstep | hstep
    · exact absurd hstep (h.not_left hn)
    · exact .inr (.inl (h.right_step hn' hstep))
  · rcases hstep with hstep | hstep
    · exact .inr (.inr (h.right_step hn hstep))
    · exact absurd hstep (h.not_left hn')

/-- **Two parties never wait for each other**: unless both have left their loops, one can
make a step in which no call fails. -/
theorem FrailInvariant.progress (h : FrailInvariant next next' F F' G X) (hn : Hardy next F)
    (hn' : Hardy next' F') : (Finished next X.config.left ∧ Finished next' X.config.right) ∨
      ∃ τ, Step next next' X.config τ := by
  rcases h with h | h | h
  · exact h.invariant.progress
  · have hl := h.left.finished hn
    rcases h.right.finished_or_step hn' hl with hr | ⟨ops, p, hp⟩
    · exact .inl ⟨hl, hr⟩
    · exact .inr ⟨_, Step.ofRight (LeftStep.mk (σ := X.config.swap) hp)⟩
  · have hr := h.left.finished hn'
    rcases h.right.finished_or_step hn hr with hl | ⟨ops, p, hp⟩
    · exact .inl ⟨hl, hr⟩
    · exact .inr ⟨_, .left (LeftStep.mk (σ := X.config) hp)⟩

/-- What the left party has done is the beginning of what it does in the conversation. -/
theorem FrailInvariant.leftActs (h : FrailInvariant next next' F F' G X) :
    acts X.config.leftLog <+: acts (side G) := by
  rcases h with h | h | h
  · obtain ⟨s, hs, -⟩ := h.invariant.leftLog
    exact acts_prefix hs.symm
  · exact h.leftActs
  · have hacts := h.right.acts_log
    rwa [swapped_swapped] at hacts

theorem acc_swap (h : Acc (fun Y X => FrailStep next next' X Y) X) :
    Acc (fun Y X => FrailStep next' next X Y) X.swap := by
  induction h with
  | intro X _ ih => exact ⟨_, fun Y hstep => ih Y.swap hstep.swap⟩

theorem LeftLost.acc (h : LeftLost next' F F' G X) (hn : Hardy next F) (hn' : Hardy next' F') :
    Acc (fun Y X => FrailStep next next' X Y) X := by
  have hacc := h.right.acc hn'
  generalize hz : X.config.swap.lone = z at hacc
  induction hacc generalizing X with
  | intro z _ ih =>
    subst hz
    refine ⟨_, fun Y hstep => ?_⟩
    rcases hstep with hstep | hstep
    · exact absurd hstep (h.not_left hn)
    · exact ih _ hstep.lone.1 (h.right_step hn' hstep) rfl

/-- **Every run of two parties is finite**, whichever calls fail. -/
theorem FrailInvariant.acc (h : FrailInvariant next next' F F' G X) (hn : Hardy next F)
    (hn' : Hardy next' F') : Acc (fun Y X => FrailStep next next' X Y) X := by
  have hleft : ∀ {X : Frail Tag Act V W}, LeftLost next' F F' G X ∨
      LeftLost next F' F (swapped G) X.swap → Acc (fun Y X => FrailStep next next' X Y) X := by
    rintro X (h | h)
    · exact h.acc hn hn'
    · exact acc_swap (h.acc hn' hn)
  rcases h with h | h
  · have hacc := h.invariant.acc
    generalize hσ : X.config = σ at hacc
    induction hacc generalizing X with
    | intro σ _ ih =>
      subst hσ
      refine ⟨_, fun Y hstep => ?_⟩
      rcases FrailInvariant.step (.inl h) hn hn' hstep with hY | hY
      · refine ih Y.config ?_ hY rfl
        rcases hstep with hs | hs
        · exact .left (hs.leftStep hY.leftFailed)
        · exact .right (hs.leftStep hY.rightFailed)
      · exact hleft hY
  · exact hleft h

end Two

end Wire
end Probdata
