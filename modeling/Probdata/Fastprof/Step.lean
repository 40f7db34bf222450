/-
# The arithmetic of one iteration of a search

The formulas that both loops write out for each coordinate and each bound: the
smoothed round-trip time, the bandwidth-delay product and the buffer window it
gives, the clamps of `theta`, the adjusted gains of a clipped perturbation, and
the gradient step.
-/
import Probdata.Fastprof.Ctrl

namespace Probdata
namespace Fastprof

variable {K : Type*} [Field K] [LinearOrder K]

/-- `ctrl->rtt_ms` after a ping that returned `srtt`. -/
def smoothRtt (rtt srtt : K) : K :=
  if srtt < 0 then rtt else if rtt < 0 then srtt else rtt * (1 / 8) + srtt * (7 / 8)

/-- `ctrl->rtt_ms` after the ping of an iteration: there is none without a bandwidth. -/
def pingRtt (bwBps rtt srtt : K) : K := if bwBps < 0 then rtt else smoothRtt rtt srtt

/-- `BDP_B`, negative while the bandwidth or the round-trip time is unknown. -/
def bdpB (bwBps rtt : K) : K :=
  if bwBps < 0 then -1 else if rtt < 0 then -1 else rtt * (1 / 1000) * (bwBps / 8)

/-- The upper safeguard of the buffer size. -/
def bufSafeguardMax (hostMaxBuf : ℤ) : ℤ := if hostMaxBuf < fBufMax then hostMaxBuf else fBufMax

/-- A bound of the window against the safeguards, the lower one first. -/
def guardBuf (lo hi n : ℤ) : ℤ :=
  let n := if n < lo then lo else n
  if n > hi then hi else n

/-- `theta` at the head of an iteration. -/
def clampTheta (x : K) : K :=
  let x := if x > fIterativeMax then fIterativeMax else x
  if x < fIterativeMin then fIterativeMin else x

/-- `theta` after the gradient step. -/
def projTheta (x : K) : K :=
  let x := if x ≥ fIterativeMax then fIterativeMax else x
  if x ≤ fIterativeMin then fIterativeMin else x

/-- A perturbed coordinate, clipped. -/
def clipTheta (t : K) : K :=
  if t > fIterativeMax then fIterativeMax else if t < fIterativeMin then fIterativeMin else t

/-- The gain a clipped coordinate is left with. -/
def ckAdjust (E : Arith K) (ck theta t : K) : K :=
  if t > fIterativeMax then ck * |E.div (fIterativeMax - theta) (t - theta)|
  else if t < fIterativeMin then ck * |E.div (fIterativeMin - theta) (t - theta)|
  else ck

/-- A coordinate of the gradient estimate. -/
def gradient (E : Arith K) (yPlus yMinus adjPlus adjMinus delta : K) : K :=
  E.div (yPlus - yMinus) ((adjPlus + adjMinus) * delta)

variable [FloorRing K]

/-- The window `[buf_size_min, buf_size_max]` for a bandwidth-delay product. -/
def bufWindow (E : Arith K) (lo hi : ℤ) (bdp : K) (old : ℤ × ℤ) : ℤ × ℤ :=
  if bdp < 0 then old
  else (guardBuf lo hi (E.toInt (fRound (3 / 4 * bdp / 1))),
    guardBuf lo hi (E.toInt (fRound (4 * bdp / 1))))

end Fastprof
end Probdata
