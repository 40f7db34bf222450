/-
# The session state, `probdata.cpp`

`struct probdata` with the fields that the two sides of a session read and
write, and how the command line sets them. A worker thread is named by the
number of threads created before it; `prob_tcp_worker` and `prob_udt_worker`
hold such a name, or nothing.
-/
import Mathlib.Data.List.Basic
import Probdata.Session.Control

namespace Probdata
namespace Session

def pHostaddrLen : ℕ := 64

def pFilenameLen : ℕ := 128

/-- `enum p_program_role` -/
inductive Role
  | unknown
  | server
  | client
  deriving DecidableEq, Repr

/-- The C string at the start of an array. -/
def cstr (a : List UInt8) : List UInt8 := a.takeWhile (· ≠ 0)

/-- `bs`, written over the start of an array. -/
def overlay (bs a : List UInt8) : List UInt8 := bs ++ a.drop bs.length

structure Prob where
  status : Status
  role : Role
  localIp : List UInt8
  remoteIp : List UInt8
  srcFile : List UInt8
  dstFile : List UInt8
  id : List UInt8
  doUdtOnly : BitVec 32
  hostMaxBuf : BitVec 32
  controlHostMaxBuf : BitVec 32
  controlLocalIp : List UInt8
  udtWorker : Option ℕ
  tcpWorker : Option ℕ
  threads : ℕ

/-- `prob->do_udt_only > 0` -/
def Prob.udtOnly (p : Prob) : Bool := (0 : BitVec 32).slt p.doUdtOnly

/-! ### The command line -/

/-- `probdata_new_and_default`, with what `new` leaves of the status and of the
control block. -/
def newAndDefault (status : Status) (controlHostMaxBuf : BitVec 32)
    (controlLocalIp : List UInt8) : Prob where
  status := status
  role := .unknown
  localIp := List.replicate pHostaddrLen 0
  remoteIp := List.replicate pHostaddrLen 0
  srcFile := List.replicate pFilenameLen 0
  dstFile := List.replicate pFilenameLen 0
  id := List.replicate pIdpktSize 0
  doUdtOnly := -1
  hostMaxBuf := 2000000000
  controlHostMaxBuf := controlHostMaxBuf
  controlLocalIp := controlLocalIp
  udtWorker := none
  tcpWorker := none
  threads := 0

/-- `probdata_get_max_buf`, with the value read from the system. -/
def getMaxBuf (maxMem : BitVec 32) (p : Prob) : Prob :=
  if maxMem.slt 0 then p else { p with hostMaxBuf := maxMem }

/-- An option: those that a session depends on, the ones that print something
and exit, and the ones that set a port or a parameter of the searches. -/
inductive Opt
  | server
  | client (addr : List UInt8)
  | srcFile (name : List UInt8)
  | dstFile (name : List UInt8)
  | udt
  | parameter
  | exits
  deriving DecidableEq, Repr

/-- `probdata_set_src_file` and the other setters of a string. -/
def setString (s a : List UInt8) : List UInt8 := overlay (s ++ [0]) a

/-- The loop of `probdata_cmd_parse`, with its two flags. The arrays are those of the
struct as long as every argument fits its own. -/
def cmdParseLoop : List Opt → Prob → Bool → Bool → Option (Prob × Bool × Bool)
  | [], p, src, dst => some (p, src, dst)
  | .server :: os, p, src, dst =>
    if p.role = .client then none else cmdParseLoop os { p with role := .server } src dst
  | .client addr :: os, p, src, dst =>
    if p.role = .server then none
    else cmdParseLoop os { p with role := .client, remoteIp := setString addr p.remoteIp } src dst
  | .srcFile name :: os, p, _, dst =>
    cmdParseLoop os { p with srcFile := setString name p.srcFile } true dst
  | .dstFile name :: os, p, src, _ =>
    cmdParseLoop os { p with dstFile := setString name p.dstFile } src true
  | .udt :: os, p, src, dst => cmdParseLoop os { p with doUdtOnly := 1 } src dst
  | .parameter :: os, p, src, dst => cmdParseLoop os p src dst
  | .exits :: _, _, _, _ => none

/-- `probdata_cmd_parse`: none if it fails or exits. -/
def cmdParse (p : Prob) (os : List Opt) : Option Prob :=
  match cmdParseLoop os p false false with
  | none => none
  | some (p, src, dst) =>
    if p.role ≠ .client ∧ p.role ≠ .server then none
    else if src then some p
    else if dst then none
    else some p

/-- `probdata_set_control` -/
def setControl (p : Prob) : Prob :=
  { p with
    controlHostMaxBuf := p.hostMaxBuf
    controlLocalIp := setString (cstr p.localIp) p.controlLocalIp }

/-- `main`, up to the call of the instance. -/
def configure (maxMem : BitVec 32) (os : List Opt) (p : Prob) : Option Prob :=
  (cmdParse (getMaxBuf maxMem p) os).map setControl

/-- `p` is a side of the role `r` as `main` starts it. -/
def Configured (r : Role) (p : Prob) : Prop :=
  p.role = r ∧ ∃ status buf ip maxMem os,
    configure maxMem os (newAndDefault status buf ip) = some p

/-- A part of the state that no option sets. -/
structure OptionFree {β : Type} (f : Prob → β) : Prop where
  role : ∀ p r, f { p with role := r } = f p
  client : ∀ p r a, f { p with role := r, remoteIp := a } = f p
  srcFile : ∀ p a, f { p with srcFile := a } = f p
  dstFile : ∀ p a, f { p with dstFile := a } = f p
  udt : ∀ p u, f { p with doUdtOnly := u } = f p

theorem OptionFree.cmdParseLoop {β : Type} {f : Prob → β} (hf : OptionFree f) {os : List Opt}
    {p q : Prob} {src dst src' dst' : Bool}
    (h : cmdParseLoop os p src dst = some (q, src', dst')) : f q = f p := by
  induction os generalizing p src dst with
  | nil =>
    cases h
    rfl
  | cons o os ih =>
    cases o with
    | server =>
      unfold Session.cmdParseLoop at h
      split at h
      · cases h
      · exact (ih h).trans (hf.role p _)
    | client addr =>
      unfold Session.cmdParseLoop at h
      split at h
      · cases h
      · exact (ih h).trans (hf.client p _ _)
    | srcFile name => exact (ih h).trans (hf.srcFile p _)
    | dstFile name => exact (ih h).trans (hf.dstFile p _)
    | udt => exact (ih h).trans (hf.udt p _)
    | parameter => exact ih h
    | exits => cases h

theorem OptionFree.cmdParse {β : Type} {f : Prob → β} (hf : OptionFree f) {os : List Opt}
    {p q : Prob} (h : cmdParse p os = some q) : f q = f p := by
  unfold Session.cmdParse at h
  rcases hl : Session.cmdParseLoop os p false false with _ | ⟨r, src, dst⟩
  · rw [hl] at h
    cases h
  have hr := hf.cmdParseLoop hl
  rw [hl] at h
  dsimp only at h
  split at h
  · cases h
  split at h
  · cases h
    exact hr
  split at h
  · cases h
  · cases h
    exact hr

/-- A side before its session has no worker. -/
structure Fresh (p : Prob) : Prop where
  udtWorker : p.udtWorker = none
  tcpWorker : p.tcpWorker = none
  threads : p.threads = 0

theorem Configured.fresh {r : Role} {p : Prob} (h : Configured r p) :
    Fresh p ∧ p.controlHostMaxBuf = p.hostMaxBuf := by
  obtain ⟨-, status, buf, ip, maxMem, os, hc⟩ := h
  obtain ⟨q, hq, rfl⟩ := Option.map_eq_some_iff.mp hc
  have hkeep : OptionFree fun p => (p.udtWorker, p.tcpWorker, p.threads) :=
    ⟨fun _ _ => rfl, fun _ _ _ => rfl, fun _ _ => rfl, fun _ _ => rfl, fun _ _ => rfl⟩
  have hnew : (q.udtWorker, q.tcpWorker, q.threads) = (none, none, 0) := by
    rw [hkeep.cmdParse hq, getMaxBuf]
    split <;> rfl
  simp only [Prod.mk.injEq] at hnew
  exact ⟨⟨hnew.1, hnew.2.1, hnew.2.2⟩, rfl⟩

/-- A configured side knows no address of its own, and `probdata_set_control` has
written an empty string over what the control block held. -/
theorem Configured.localIp {r : Role} {p : Prob} (h : Configured r p) :
    p.localIp = List.replicate pHostaddrLen 0 ∧ p.controlLocalIp.head? = some 0 := by
  obtain ⟨-, status, buf, ip, maxMem, os, hc⟩ := h
  obtain ⟨q, hq, rfl⟩ := Option.map_eq_some_iff.mp hc
  have hkeep : OptionFree Prob.localIp :=
    ⟨fun _ _ => rfl, fun _ _ _ => rfl, fun _ _ => rfl, fun _ _ => rfl, fun _ _ => rfl⟩
  have hq0 : q.localIp = List.replicate pHostaddrLen 0 := by
    rw [hkeep.cmdParse hq, getMaxBuf]
    split <;> rfl
  refine ⟨hq0, ?_⟩
  change (setString (cstr q.localIp) q.controlLocalIp).head? = some 0
  rw [hq0]
  rfl

/-- What is left of a process that is killed for a bad pointer, as its shell sees it. -/
def sigsegv : ℤ := 139

/-! ### What a side does besides reading and writing -/

/-- The two kinds of profile. -/
inductive Kind
  | tcp
  | udt
  deriving DecidableEq, Repr

/-- An act of a side.

* `proc`: a control packet is processed
* `search`: the client calls `f_tcp_client_run` or `f_udt_client_run`
* `profile`: the server has initialised a profile
* `create`, `cancel`, `join`: a call on a worker thread
* `forget`: the server deletes the handle of a worker -/
inductive Act
  | proc (st : Status)
  | search (k : Kind)
  | profile (k : Kind)
  | create (k : Kind) (h : ℕ)
  | cancel (k : Kind) (h : Option ℕ)
  | join (k : Kind) (h : Option ℕ)
  | forget (k : Kind) (h : Option ℕ)
  deriving DecidableEq, Repr

end Session
end Probdata
