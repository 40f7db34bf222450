/-
# FastProf: the control block and the arithmetic of a search

What the two search loops of FastProf share: the constants of `fastprof.h`,
the control block they read, the limits they derive from it, and what a run
draws from outside (random numbers, pings, tests).

A `double` is an element of an ordered field `K`: the arithmetic is exact.
What exact arithmetic does not fix is a parameter (`Arith`): `pow`, a division
by zero, and the `int` that a `double` outside the range of `int` converts to.
-/
import Mathlib.Algebra.Order.Floor.Ring
import Mathlib.Data.Rat.Floor
import Probdata.Lib.Interval

namespace Probdata
namespace Fastprof

/-! ### Constants -/

def fKB : ℤ := 1000
def fGB : ℤ := 1000 * 1000 * 1000
def fBufMax : ℤ := 2 * fGB
def fBufMin : ℤ := 16 * fKB
def fBlkMax : ℤ := 25
def fBlkMin : ℤ := 1
def fStreamNumMin : ℤ := 1
def fStreamNumMax : ℤ := 25
def fImpededLimit : ℤ := 30

/-- `f_program_role` -/
inductive ProgramRole
  | unknown
  | server
  | client
  deriving DecidableEq, Repr

/-- `f_protocol`, the two a search runs over. -/
inductive Protocol
  | tcp
  | udt
  deriving DecidableEq, Repr

/-- The marker of a test in the visited list: `+`, `-` or `*`. -/
inductive Marker
  | plus
  | minus
  | star
  deriving DecidableEq, Repr

/-- Where a search is: at the head of its loop, before its second test, before
its third, past the loop, or past a `return` inside the loop. -/
inductive Pc
  | head
  | minus
  | star
  | done
  | ret (r : ℤ)
  deriving DecidableEq, Repr

/-- Where the loop goes on after a test that does not end it. -/
def Marker.next : Marker → Pc
  | .plus => .minus
  | .minus => .star
  | .star => .head

/-- `struct fastprof_ctrl` -/
structure FastprofCtrl (K : Type*) where
  role : ProgramRole
  remoteIp : List UInt8
  tcpPort : ℤ
  udtPort : ℤ
  hostMaxBuf : ℤ
  bwBps : K
  rttMs : K
  mss : ℤ
  AVal : K
  aVal : K
  aScale : K
  cVal : K
  cScale : K
  alpha : K
  gamma : K
  pgr : K
  impededLimit : ℤ
  maxLimit : ℤ
  duration : ℤ

/-- The limits of a run: `max_prof_limit`, `no_imp_limit`, `perf_gain_ratio`. -/
structure Limits (K : Type*) where
  maxProf : ℤ
  noImp : ℤ
  perfGainRatio : K

/-- What a run draws from outside: the log file, the start point, the signs of
each iteration, the ping of each iteration, and for the `n`-th test its
throughput in Mbps (`none` when the test fails), the bytes it sent, and
whether its record is composed and added to the history. -/
structure Outcomes (K : Type*) where
  openLog : Bool
  start : ℕ × ℕ
  signs : ℕ → Bool × Bool
  ping : ℕ → K
  test : ℕ → Option K
  sent : ℕ → ℤ
  composed : ℕ → Bool
  added : ℕ → Bool

/-- What exact arithmetic leaves open. -/
structure Arith (K : Type*) where
  pow : K → K → K
  divZero : K → K
  conv : K → BitVec 32

section Arithmetic

variable {K : Type*} [Field K] [LinearOrder K]

def fIterativeMin : K := 1
def fIterativeMax : K := 25

/-- `x / y` on doubles -/
def Arith.div (E : Arith K) (x y : K) : K := if y = 0 then E.divZero x else x / y

theorem Arith.div_of_ne {E : Arith K} {y : K} (h : y ≠ 0) (x : K) : E.div x y = x / y :=
  if_neg h

/-- A double `x` truncated to an `int`. -/
def Arith.toInt [FloorRing K] (E : Arith K) (x : K) : ℤ :=
  let n := if 0 ≤ x then ⌊x⌋ else ⌈x⌉
  if -2 ^ 31 ≤ n ∧ n < 2 ^ 31 then n else (E.conv x).toInt

/-- Named, as the proof that a numeral of `K` carries. -/
instance atLeastTwo_four : Nat.AtLeastTwo (nat_lit 4) := ⟨by decide⟩

instance atLeastTwo_thousand : Nat.AtLeastTwo (nat_lit 1000) := ⟨by decide⟩

def fRound [FloorRing K] (x : K) : K := (⌊x + 1 / 2⌋ : ℤ)

/-- `f_rand`, where `rand()` returned `r`. -/
def fRand (r : ℕ) (x y : ℤ) : K := (((r : ℤ) % (y - x + 1) + x : ℤ) : K)

/-- `f_perturb`, where the draw was over one half or not. -/
def fPerturb (above : Bool) : K := if above then 1 else -1

/-- The two multiplied as `int`s. -/
def mulInt (x y : ℤ) : ℤ := (x * y).bmod (2 ^ 32)

/-- The limits a search derives from its control block. -/
def FastprofCtrl.limits (ctrl : FastprofCtrl K) : Limits K :=
  let noImp := if ctrl.impededLimit < 0 then fImpededLimit else ctrl.impededLimit
  { maxProf := if ctrl.maxLimit < 0 then mulInt 2 noImp else ctrl.maxLimit
    noImp := noImp
    perfGainRatio := if ctrl.pgr < 0 then 75 / 100 else ctrl.pgr }

/-- `BW_Gbps` -/
def FastprofCtrl.bwGbps (ctrl : FastprofCtrl K) : K := ctrl.bwBps / (fGB : ℤ)

/-- `(max_perf_Gbps / BW_Gbps) >= perf_gain_ratio`. The performance is never
negative, so over a bandwidth of 0 the quotient is an infinity, or not a
number. -/
def pgrReached (maxPerf bw ratio : K) : Bool :=
  if bw = 0 then 0 < maxPerf else ratio ≤ maxPerf / bw

end Arithmetic

end Fastprof
end Probdata
