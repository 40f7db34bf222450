/-
# The order of the arguments

`probdata_cmd_parse` goes through the arguments in the order in which `getopt_long` gives
them, and some of its cases look at what earlier ones have set. Two arguments of different
letters have the same effect in either order, so that what can be seen of a client does not
depend on the order of a command line that gives no option two values (`seen_perm`). One
that does not fit its array writes over what is behind, and there the order would matter.
-/
import Probdata.Session.Reads
import Mathlib.Data.List.Perm.Basic

namespace Probdata
namespace Session

open Text Fastprof

/-! ### Letters -/

/-- What `getopt_long` returns for an option. -/
def Opt.letter : Opt → Char
  | .server => 's'
  | .client _ => 'c'
  | .srcFile _ => 'S'
  | .dstFile _ => 'V'
  | .udt => 't'
  | .parameter => 'p'
  | .exits => 'h'

def Param.letter : Param → Char
  | .duration _ => 'd'
  | .mss _ => 'M'
  | .bandwidth _ => 'y'
  | .pgr _ => 'C'
  | .delay _ => 'T'
  | .impededLimit _ => 'L'
  | .maxLimit _ => 'N'
  | .aVal _ => 'e'
  | .cVal _ => 'g'
  | .aScale _ => 'o'
  | .cScale _ => 'x'

def Arg.letter : Arg → Char
  | .opt o => o.letter
  | .param q => q.letter

/-- No option is given two values. -/
def OneValue (args : List Arg) : Prop := ∀ a ∈ args, ∀ b ∈ args, a.letter = b.letter → a = b

/-- Every bandwidth starts with a number. -/
def BandwidthsRead (args : List Arg) : Prop :=
  ∀ arg, .param (.bandwidth arg) ∈ args → (scanDouble arg).isSome

/-! ### Two options -/

/-- One turn of the loop of `probdata_cmd_parse`, unless it has failed. -/
def Opt.take (t : Option (Prob × Bool × Bool)) (o : Opt) : Option (Prob × Bool × Bool) :=
  t.bind fun x => cmdParseLoop [o] x.1 x.2.1 x.2.2

theorem Opt.foldl_take_none (os : List Opt) : os.foldl Opt.take none = none := by
  induction os with
  | nil => rfl
  | cons o os ih => exact ih

theorem cmdParseLoop_eq_foldl (os : List Opt) (p : Prob) (src dst : Bool) :
    cmdParseLoop os p src dst = os.foldl Opt.take (some (p, src, dst)) := by
  induction os generalizing p src dst with
  | nil => rfl
  | cons o os ih =>
    rw [List.foldl_cons]
    cases o with
    | server =>
      by_cases h : p.role = .client <;> simp [cmdParseLoop, Opt.take, h, ih, Opt.foldl_take_none]
    | client addr =>
      by_cases h : p.role = .server <;> simp [cmdParseLoop, Opt.take, h, ih, Opt.foldl_take_none]
    | exits => exact (Opt.foldl_take_none os).symm
    | srcFile | dstFile | udt | parameter => exact ih _ _ _

/-- Options of different letters commute: one that fails does so in either order. -/
theorem Opt.take_comm {o o' : Opt} (h : o.letter = o'.letter → o = o')
    (t : Option (Prob × Bool × Bool)) : Opt.take (Opt.take t o) o' = Opt.take (Opt.take t o') o := by
  obtain _ | ⟨p, src, dst⟩ := t
  · rfl
  by_cases hsame : o.letter = o'.letter
  · rw [h hsame]
  cases hp : p.role <;> cases o <;> cases o' <;>
    first | rfl | exact absurd rfl hsame | simp [Opt.take, cmdParseLoop, hp]

theorem configure_perm {os os' : List Opt} (h : os.Perm os')
    (hone : ∀ o ∈ os, ∀ o' ∈ os, o.letter = o'.letter → o = o') (maxMem : BitVec 32) (p : Prob) :
    configure maxMem os p = configure maxMem os' p := by
  have hloop : ∀ t, os.foldl Opt.take t = os'.foldl Opt.take t :=
    h.foldl_eq' fun o ho o' ho' t => Opt.take_comm (hone o ho o' ho') t
  rw [configure, configure, cmdParse, cmdParse, cmdParseLoop_eq_foldl, cmdParseLoop_eq_foldl, hloop]

/-! ### Two parameters -/

/-- A parameter that is read, and the options that set none. -/
def Arg.set (atof : List Char → ℚ) (q : Params) : Arg → Params
  | .opt _ => q
  | .param a => q.set atof a

theorem Arg.set_comm (atof : List Char → ℚ) {a b : Arg} (h : a.letter = b.letter → a = b)
    (q : Params) : Arg.set atof (Arg.set atof q a) b = Arg.set atof (Arg.set atof q b) a := by
  cases a with
  | opt o => rfl
  | param a =>
    cases b with
    | opt o => rfl
    | param b => cases a <;> cases b <;> first | rfl | (cases h rfl; rfl)

/-- Where every bandwidth is read, the variable of `probdata_unit_atof` plays no part. -/
theorem setParams_eq_foldl {special : Dbl → ℚ} {var : ℕ → ℚ} {args : List Arg}
    (hread : BandwidthsRead args) (q : Params) :
    setParams special var args q = args.foldl (Arg.set (unitAtof special 0)) q := by
  induction args generalizing q with
  | nil => rfl
  | cons a args ih =>
    have htail := ih fun arg harg => hread arg (List.mem_cons_of_mem a harg)
    cases a with
    | opt o => exact htail q
    | param a =>
      have hset : q.set (unitAtof special (var args.length)) a = q.set (unitAtof special 0) a := by
        cases a with
        | bandwidth arg =>
          obtain ⟨x, hx⟩ := Option.isSome_iff_exists.mp (hread arg List.mem_cons_self)
          simp only [Params.set, unitAtof, hx]
        | _ => rfl
      calc setParams special var (.param a :: args) q
          = setParams special var args (q.set (unitAtof special (var args.length)) a) := rfl
        _ = setParams special var args (q.set (unitAtof special 0) a) := by rw [hset]
        _ = (Arg.param a :: args).foldl (Arg.set (unitAtof special 0)) q := htail _

theorem setParams_perm {special : Dbl → ℚ} {var : ℕ → ℚ} {args args' : List Arg}
    (h : args.Perm args') (hone : OneValue args) (hread : BandwidthsRead args) (q : Params) :
    setParams special var args q = setParams special var args' q := by
  have hread' : BandwidthsRead args' := fun arg harg => hread arg (h.mem_iff.mpr harg)
  rw [setParams_eq_foldl hread, setParams_eq_foldl hread']
  exact h.foldl_eq' (fun a ha b hb q => Arg.set_comm _ (hone a ha b hb) q) q

/-! ### A client -/

/-- Of the options of a command line, too, none is given two values. -/
theorem OneValue.toOpt {args : List Arg} (h : OneValue args) : ∀ o ∈ args.map Arg.toOpt,
    ∀ o' ∈ args.map Arg.toOpt, o.letter = o'.letter → o = o' := by
  have hparameter : ∀ o : Opt, o.letter = 'p' → o = .parameter := fun o ho => by
    cases o <;> first | rfl | simp [Opt.letter] at ho
  intro o ho o' ho' hsame
  obtain ⟨a, ha, rfl⟩ := List.mem_map.mp ho
  obtain ⟨b, hb, rfl⟩ := List.mem_map.mp ho'
  cases a with
  | param a => exact (hparameter b.toOpt hsame.symm).symm
  | opt o =>
    cases b with
    | param b => exact hparameter o hsame
    | opt o' => exact congrArg Arg.toOpt (h (.opt o) ha (.opt o') hb hsame)

namespace World

/-- **What can be seen of a client does not depend on the order of its arguments**, if each
fits its array, no option is given two values and every bandwidth starts with a number. In
either order the arrays then are those that the client is configured with. -/
theorem seen_perm {W : World} {args : List Arg} (h : W.args.Perm args) (hone : OneValue W.args)
    (hread : BandwidthsRead W.args) (hfits : ∀ o ∈ W.args.map Arg.toOpt, o.Fits) (m : Memory)
    (n : ℕ) :
    (∀ mem p, Session.Represents mem
        (newAndDefault m.status m.controlHostMaxBuf m.controlLocalIp) →
      W.configured m = some p →
        Session.Represents ((W.args.map Arg.toOpt).foldl Opt.copy mem) p ∧
          Session.Represents ((args.map Arg.toOpt).foldl Opt.copy mem) p) ∧
      World.seen { W with args := args } m n = W.seen m n := by
  have hperm := h.map Arg.toOpt
  refine ⟨fun mem p hmem hp => ?_, ?_⟩
  · obtain ⟨hq, -⟩ := Option.filter_eq_some_iff.mp hp
    have hq' := hq
    rw [configure_perm hperm hone.toOpt] at hq'
    exact ⟨represents_configure hq hmem hfits,
      represents_configure hq' hmem fun o ho => hfits o (hperm.mem_iff.mpr ho)⟩
  have hconf : World.configured { W with args := args } m = W.configured m := by
    rw [configured, configured, ← configure_perm hperm hone.toOpt]
  have hstarted : ∀ p, World.started { W with args := args } m p = W.started m p := fun p => by
    rw [started, started, ← setParams_perm h hone hread]
  have hrun : World.run { W with args := args } m n = W.run m n := by
    rw [run, run, hconf]
    refine congrArg (fun f => (W.configured m).map f) (funext fun p => ?_)
    rw [hstarted]
    rfl
  rw [seen, seen, hrun]

end World

/-- A client of UDT, which is given the duration of its tests. -/
def udtArgs : List Arg := [.opt (.client [49]), .opt .udt, .param (.duration 5)]

theorem seen_perm_udt : ∃ p,
    World.configured { plainWorld with args := udtArgs } (plainMemory none) = some p ∧
    Session.Represents ((udtArgs.reverse.map Arg.toOpt).foldl Opt.copy fun _ => 0) p ∧
    World.seen { plainWorld with args := udtArgs.reverse } (plainMemory none) 4 =
      World.seen { plainWorld with args := udtArgs } (plainMemory none) 4 := by
  obtain ⟨p, hp⟩ := Option.isSome_iff_exists.mp (show (World.configured
    { plainWorld with args := udtArgs } (plainMemory none)).isSome = true by decide +kernel)
  obtain ⟨harrays, hseen⟩ := World.seen_perm (W := { plainWorld with args := udtArgs })
    udtArgs.reverse_perm.symm (by simp [OneValue, udtArgs, Arg.letter, Opt.letter, Param.letter])
    (by simp [BandwidthsRead, udtArgs]) (by decide) (plainMemory none) 4
  exact ⟨p, hp, (harrays (fun _ => 0) p ⟨by decide, by decide, by decide, by decide, by decide⟩ hp).2,
    hseen⟩

end Session
end Probdata
