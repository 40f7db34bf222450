/-
# The parameters of the searches

The options of the command line that set a parameter of the searches, and the
control block that a client's searches are given (`probdata.cpp`). A bandwidth is
read by `probdata_unit_atof` into a local variable that is not initialised: of a
string that does not start with a number, what the variable held is returned.
-/
import Probdata.Session.Prob
import Probdata.Lib.Text.Number
import Probdata.Fastprof.Ctrl

namespace Probdata
namespace Session

open Text Fastprof

def pKB : ℚ := 1000
def pMB : ℚ := 1000 * 1000
def pGB : ℚ := 1000 * 1000 * 1000

/-- What the unit behind a number multiplies it with. -/
def unitFactor : Option Char → ℚ
  | some 'g' => pGB
  | some 'G' => pGB
  | some 'm' => pMB
  | some 'M' => pMB
  | some 'k' => pKB
  | some 'K' => pKB
  | _ => 1

/-- A `double` in exact arithmetic, which has no numbers for the special ones. -/
def exactly (special : Dbl → ℚ) : Dbl → ℚ
  | .num q => q
  | x => special x

/-- `probdata_unit_atof`, with what its variable held. -/
def unitAtof (special : Dbl → ℚ) (var : ℚ) (str : List Char) : ℚ :=
  match scanDouble str with
  | none => var
  | some (x, t) => exactly special x * unitFactor t.head?

/-- An option that sets a parameter, with the value that `atoi` or `atof` reads. -/
inductive Param
  | duration (n : ℤ)
  | mss (n : ℤ)
  | bandwidth (arg : List Char)
  | pgr (x : ℚ)
  | delay (x : ℚ)
  | impededLimit (n : ℤ)
  | maxLimit (n : ℤ)
  | aVal (x : ℚ)
  | cVal (x : ℚ)
  | aScale (x : ℚ)
  | cScale (x : ℚ)

/-- An argument of `main`. -/
inductive Arg
  | opt (o : Opt)
  | param (q : Param)

def Arg.toOpt : Arg → Opt
  | .opt o => o
  | .param _ => .parameter

/-- The parameters in `struct probdata`. -/
structure Params where
  mss : ℤ
  rttMs : ℚ
  profDuration : ℤ
  maxProfLimit : ℤ
  impededLimit : ℤ
  pgr : ℚ
  bandwidth : ℚ
  AVal : ℚ
  aVal : ℚ
  aScale : ℚ
  cVal : ℚ
  cScale : ℚ
  alpha : ℚ
  gamma : ℚ

/-- What `probdata_new_and_default` sets them to. -/
def Params.default : Params where
  mss := 1500
  rttMs := -1
  profDuration := 10
  maxProfLimit := 60
  impededLimit := 30
  pgr := 75 / 100
  bandwidth := -1
  AVal := 0
  aVal := 15
  aScale := 125 / 100
  cVal := 550 / 100
  cScale := 115 / 100
  alpha := 602 / 1000
  gamma := 101 / 1000

/-- One option, where a bandwidth is read by `atof`. -/
def Params.set (atof : List Char → ℚ) (q : Params) : Param → Params
  | .duration n => { q with profDuration := n }
  | .mss n => { q with mss := n }
  | .bandwidth arg => { q with bandwidth := atof arg }
  | .pgr x => { q with pgr := x }
  | .delay x => { q with rttMs := x }
  | .impededLimit n => { q with impededLimit := n }
  | .maxLimit n => { q with maxProfLimit := n }
  | .aVal x => { q with aVal := x }
  | .cVal x => { q with cVal := x }
  | .aScale x => { q with aScale := x }
  | .cScale x => { q with cScale := x }

/-- The loop of `probdata_cmd_parse` on the parameters: `var n` is what the variable
of `probdata_unit_atof` holds when `n` options are to come. -/
def setParams (special : Dbl → ℚ) (var : ℕ → ℚ) : List Arg → Params → Params
  | [], q => q
  | .opt _ :: os, q => setParams special var os q
  | .param a :: os, q => setParams special var os (q.set (unitAtof special (var os.length)) a)

/-- `prob->prob_control` when a search of the client starts: what
`probdata_set_control` and the exchange with the server have written. -/
def controlBlock (p : Prob) (q : Params) (rttMs : ℚ) : FastprofCtrl ℚ where
  role := if p.role = .client then .client else .server
  remoteIp := cstr p.remoteIp
  tcpPort := 5020
  udtPort := 5005
  hostMaxBuf := p.controlHostMaxBuf.toInt
  bwBps := q.bandwidth
  rttMs := rttMs
  mss := q.mss
  AVal := q.AVal
  aVal := q.aVal
  aScale := q.aScale
  cVal := q.cVal
  cScale := q.cScale
  alpha := q.alpha
  gamma := q.gamma
  pgr := q.pgr
  impededLimit := q.impededLimit
  maxLimit := q.maxProfLimit
  duration := q.profDuration

/-! ### What the bandwidth depends on -/

/-- Whether the bandwidth is one that was read, or the default, when the options
`os` are still to come. -/
def bandwidthRead : List Arg → Bool → Bool
  | [], b => b
  | .opt _ :: os, b => bandwidthRead os b
  | .param (.bandwidth arg) :: os, _ => bandwidthRead os (scanDouble arg).isSome
  | .param _ :: os, b => bandwidthRead os b

/-- The parameters apart from the bandwidth. -/
def Params.others (q : Params) : Params := { q with bandwidth := 0 }

theorem Params.eq_of_others {q q' : Params} (h : q.others = q'.others) :
    q' = { q with bandwidth := q'.bandwidth } :=
  (congrArg (fun r : Params => { r with bandwidth := q'.bandwidth }) h).symm

variable {special : Dbl → ℚ} {var var' : ℕ → ℚ}

theorem Params.set_others {q q' : Params} (h : q.others = q'.others) (f g : List Char → ℚ)
    (a : Param) : (q.set f a).others = (q'.set g a).others := by
  simp only [Params.others, Params.mk.injEq] at h
  cases a <;> simp_all [Params.set, Params.others]

/-- Only the bandwidth depends on the variable. -/
theorem setParams_others (os : List Arg) {q q' : Params} (h : q.others = q'.others) :
    (setParams special var os q).others = (setParams special var' os q').others := by
  induction os generalizing q q' with
  | nil => exact h
  | cons o os ih =>
    cases o with
    | opt o => exact ih h
    | param a => exact ih (Params.set_others h _ _ a)

/-- A bandwidth that was read does not. -/
theorem setParams_bandwidth_of_read (os : List Arg) {b : Bool} {q q' : Params}
    (h : b = true → q.bandwidth = q'.bandwidth) (hb : bandwidthRead os b = true) :
    (setParams special var os q).bandwidth = (setParams special var' os q').bandwidth := by
  induction os generalizing b q q' with
  | nil => exact h hb
  | cons o os ih =>
    cases o with
    | opt o => exact ih h hb
    | param a =>
      cases a with
      | bandwidth arg =>
        refine ih (b := (scanDouble arg).isSome) (fun hs => ?_) hb
        obtain ⟨x, hx⟩ := Option.isSome_iff_exists.mp hs
        change unitAtof special _ arg = unitAtof special _ arg
        rw [unitAtof, unitAtof, hx]
      | _ => exact ih h hb

/-- A bandwidth that was not read is what the variable held. -/
theorem setParams_bandwidth_of_not_read (os : List Arg) {v : ℚ} {b : Bool} {q : Params}
    (h : b = false → q.bandwidth = v) (hb : bandwidthRead os b = false) :
    (setParams special (fun _ => v) os q).bandwidth = v := by
  induction os generalizing b q with
  | nil => exact h hb
  | cons o os ih =>
    cases o with
    | opt o => exact ih h hb
    | param a =>
      cases a with
      | bandwidth arg =>
        refine ih (b := (scanDouble arg).isSome) (fun hs => ?_) hb
        change unitAtof special v arg = v
        rw [Option.isSome_eq_false_iff, Option.isNone_iff_eq_none] at hs
        rw [unitAtof, hs]
      | _ => exact ih h hb

end Session
end Probdata
