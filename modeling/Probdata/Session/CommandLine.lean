/-
# The strings of the command line

`struct probdata` keeps its strings in arrays that follow one another, and the setters of
`probdata.cpp` copy an argument of any length. In `Prob` each array is a list of its own.
After every option each array holds the string given last for it exactly if every argument
fits (`configure_intact_iff`), and then the memory is that of `Prob`.
-/
import Probdata.Lib.Layout
import Probdata.Session.Connect

namespace Probdata
namespace Session

open Bytes Layout

/-! ### The arrays -/

/-- Where the arrays begin, behind the beginning of `local_ip`. -/
def remoteIpAt : ℕ := pHostaddrLen

def srcFileAt : ℕ := remoteIpAt + pHostaddrLen

def dstFileAt : ℕ := srcFileAt + pFilenameLen

def idAt : ℕ := dstFileAt + pFilenameLen

/-- `probdata_set_peer_addr` -/
def setPeerAddr (addr : List UInt8) (m : Mem) : Mem := write remoteIpAt (addr ++ [0]) m

/-- `probdata_set_src_file` -/
def setSrcFile (name : List UInt8) (m : Mem) : Mem := write srcFileAt (name ++ [0]) m

/-- `probdata_set_dst_file` -/
def setDstFile (name : List UInt8) (m : Mem) : Mem := write dstFileAt (name ++ [0]) m

/-- What an option copies. -/
def Opt.copy (m : Mem) : Opt → Mem
  | .client addr => setPeerAddr addr m
  | .srcFile name => setSrcFile name m
  | .dstFile name => setDstFile name m
  | _ => m

/-- The memory has the arrays of `p`. -/
structure Represents (m : Mem) (p : Prob) : Prop where
  localIp : bytesAt m 0 pHostaddrLen = p.localIp
  remoteIp : bytesAt m remoteIpAt pHostaddrLen = p.remoteIp
  srcFile : bytesAt m srcFileAt pFilenameLen = p.srcFile
  dstFile : bytesAt m dstFileAt pFilenameLen = p.dstFile
  id : bytesAt m idAt pIdpktSize = p.id

/-- The argument of an option, with its NUL, fits its array. -/
def Opt.Fits : Opt → Prop
  | .client addr => addr.length < pHostaddrLen
  | .srcFile name => name.length < pFilenameLen
  | .dstFile name => name.length < pFilenameLen
  | _ => True

instance : DecidablePred Opt.Fits
  | .client addr => inferInstanceAs (Decidable (addr.length < pHostaddrLen))
  | .srcFile name => inferInstanceAs (Decidable (name.length < pFilenameLen))
  | .dstFile name => inferInstanceAs (Decidable (name.length < pFilenameLen))
  | .server | .udt | .parameter | .exits => inferInstanceAs (Decidable True)

/-- The arguments given for each string. -/
def Opt.addr? : Opt → Option (List UInt8)
  | .client addr => some addr
  | _ => none

def Opt.srcFile? : Opt → Option (List UInt8)
  | .srcFile name => some name
  | _ => none

def Opt.dstFile? : Opt → Option (List UInt8)
  | .dstFile name => some name
  | _ => none

/-- The last argument given for a string, which is empty if there is none. -/
def lastGiven (f : Opt → Option (List UInt8)) (os : List Opt) : List UInt8 :=
  (os.filterMap f).getLastD []

/-- Each array holds, with its terminator, the string that `os` gives last for it, and the
others nothing. -/
structure Intact (os : List Opt) (m : Mem) : Prop where
  localIp : IsString (bytesAt m 0 pHostaddrLen) []
  remoteIp : IsString (bytesAt m remoteIpAt pHostaddrLen) (lastGiven Opt.addr? os)
  srcFile : IsString (bytesAt m srcFileAt pFilenameLen) (lastGiven Opt.srcFile? os)
  dstFile : IsString (bytesAt m dstFileAt pFilenameLen) (lastGiven Opt.dstFile? os)
  id : IsString (bytesAt m idAt pIdpktSize) []

/-- The argument is a C string. -/
def Opt.NoNul : Opt → Prop
  | .client addr => 0 ∉ addr
  | .srcFile name => 0 ∉ name
  | .dstFile name => 0 ∉ name
  | _ => True

instance : DecidablePred Opt.NoNul
  | .client s | .srcFile s | .dstFile s => inferInstanceAs (Decidable (0 ∉ s))
  | .server | .udt | .parameter | .exits => inferInstanceAs (Decidable True)

/-! ### An option -/

section Copy

variable {m : Mem} {p : Prob} {s : List UInt8}

theorem length_terminated (s : List UInt8) : (s ++ [0]).length = s.length + 1 := by
  rw [List.length_append, List.length_singleton]

/-- A string that is copied to an array of `size` bytes which it fits, and the bytes beside
the array. -/
theorem bytesAt_write_beside {off size off' n : ℕ} (hs : s.length < size)
    (h : off' + n ≤ off ∨ off + size ≤ off') :
    bytesAt (write off (s ++ [0]) m) off' n = bytesAt m off' n := by
  refine bytesAt_write_of_disjoint m (h.imp_right fun h1 => ?_)
  rw [length_terminated]
  omega

/-- The array itself. -/
theorem bytesAt_write_string {off size : ℕ} (hs : s.length < size) :
    bytesAt (write off (s ++ [0]) m) off size = setString s (bytesAt m off size) := by
  refine bytesAt_write m ?_
  rw [length_terminated]
  omega

theorem Represents.setPeerAddr (h : Represents m p) (hs : s.length < pHostaddrLen) (r : Role) :
    Represents (setPeerAddr s m) { p with role := r, remoteIp := setString s p.remoteIp } where
  localIp := (bytesAt_write_beside hs (by decide)).trans h.localIp
  remoteIp := (bytesAt_write_string hs).trans (congrArg _ h.remoteIp)
  srcFile := (bytesAt_write_beside hs (by decide)).trans h.srcFile
  dstFile := (bytesAt_write_beside hs (by decide)).trans h.dstFile
  id := (bytesAt_write_beside hs (by decide)).trans h.id

theorem Represents.setSrcFile (h : Represents m p) (hs : s.length < pFilenameLen) :
    Represents (setSrcFile s m) { p with srcFile := setString s p.srcFile } where
  localIp := (bytesAt_write_beside hs (by decide)).trans h.localIp
  remoteIp := (bytesAt_write_beside hs (by decide)).trans h.remoteIp
  srcFile := (bytesAt_write_string hs).trans (congrArg _ h.srcFile)
  dstFile := (bytesAt_write_beside hs (by decide)).trans h.dstFile
  id := (bytesAt_write_beside hs (by decide)).trans h.id

theorem Represents.setDstFile (h : Represents m p) (hs : s.length < pFilenameLen) :
    Represents (setDstFile s m) { p with dstFile := setString s p.dstFile } where
  localIp := (bytesAt_write_beside hs (by decide)).trans h.localIp
  remoteIp := (bytesAt_write_beside hs (by decide)).trans h.remoteIp
  srcFile := (bytesAt_write_beside hs (by decide)).trans h.srcFile
  dstFile := (bytesAt_write_string hs).trans (congrArg _ h.dstFile)
  id := (bytesAt_write_beside hs (by decide)).trans h.id

end Copy

/-! ### The command line -/

variable {os : List Opt} {p q : Prob} {m : Mem} {src dst src' dst' : Bool}

/-- Arguments that fit leave the memory that of the struct. -/
theorem represents_cmdParseLoop (h : Represents m p) (hfits : ∀ o ∈ os, o.Fits)
    (hq : cmdParseLoop os p src dst = some (q, src', dst')) :
    Represents (os.foldl Opt.copy m) q := by
  induction os generalizing m p src dst with
  | nil =>
    cases hq
    exact h
  | cons o os ih =>
    have ho := hfits o List.mem_cons_self
    have hos : ∀ o ∈ os, o.Fits := fun o' ho' => hfits o' (List.mem_cons_of_mem o ho')
    have hsame : ∀ p' : Prob, p'.localIp = p.localIp → p'.remoteIp = p.remoteIp →
        p'.srcFile = p.srcFile → p'.dstFile = p.dstFile → p'.id = p.id → Represents m p' :=
      fun p' h1 h2 h3 h4 h5 => ⟨h.localIp.trans h1.symm, h.remoteIp.trans h2.symm,
        h.srcFile.trans h3.symm, h.dstFile.trans h4.symm, h.id.trans h5.symm⟩
    cases o with
    | server =>
      unfold cmdParseLoop at hq
      split at hq
      · cases hq
      · exact ih (hsame { p with role := .server } rfl rfl rfl rfl rfl) hos hq
    | client addr =>
      unfold cmdParseLoop at hq
      split at hq
      · cases hq
      · exact ih (h.setPeerAddr ho _) hos hq
    | srcFile name => exact ih (h.setSrcFile ho) hos hq
    | dstFile name => exact ih (h.setDstFile ho) hos hq
    | udt => exact ih (hsame { p with doUdtOnly := 1 } rfl rfl rfl rfl rfl) hos hq
    | parameter => exact ih h hos hq
    | exits => cases hq

/-- The loop of a command line that is accepted. -/
theorem exists_loop_of_configure {maxMem : BitVec 32} (h : configure maxMem os p = some q) :
    ∃ r src dst, cmdParseLoop os (getMaxBuf maxMem p) false false = some (r, src, dst) ∧
      q = setControl r := by
  obtain ⟨r, hr, rfl⟩ := Option.map_eq_some_iff.mp h
  unfold cmdParse at hr
  rcases hl : cmdParseLoop os (getMaxBuf maxMem p) false false with _ | ⟨r', src, dst⟩
  · rw [hl] at hr
    cases hr
  · rw [hl] at hr
    dsimp only at hr
    have hr' : r' = r := by
      split at hr
      · cases hr
      split at hr
      · exact Option.some.inj hr
      split at hr
      · cases hr
      · exact Option.some.inj hr
    exact ⟨r', src, dst, rfl, by rw [hr']⟩

/-- Arguments that fit leave the memory that of the struct. -/
theorem represents_configure {maxMem : BitVec 32} (hq : configure maxMem os p = some q)
    (h : Represents m p) (hfits : ∀ o ∈ os, o.Fits) : Represents (os.foldl Opt.copy m) q := by
  obtain ⟨r, src, dst, hloop, rfl⟩ := exists_loop_of_configure hq
  have hmax : Represents m (getMaxBuf maxMem p) := by
    unfold getMaxBuf
    split
    · exact h
    · exact ⟨h.localIp, h.remoteIp, h.srcFile, h.dstFile, h.id⟩
  have hr := represents_cmdParseLoop hmax hfits hloop
  exact ⟨hr.localIp, hr.remoteIp, hr.srcFile, hr.dstFile, hr.id⟩

/-! ### The strings -/

theorem lastGiven_snoc (f : Opt → Option (List UInt8)) (os : List Opt) (o : Opt) :
    lastGiven f (os ++ [o]) = (f o).getD (lastGiven f os) := by
  rw [lastGiven, List.filterMap_append]
  cases ho : f o with
  | none => simp [ho, lastGiven]
  | some s => simp [ho]

/-- A string copied to an array that it fits. -/
theorem isString_write {off size : ℕ} {s : List UInt8} (hs : s.length < size) (hnul : 0 ∉ s) :
    IsString (bytesAt (write off (s ++ [0]) m) off size) s := by
  refine ⟨hnul, (bytesAt m off size).drop (s ++ [0]).length, ?_⟩
  rw [bytesAt_write_string hs, setString, overlay, List.append_assoc]
  rfl

/-- A string in an array beside the one that is written. -/
theorem IsString.beside {off size off' n : ℕ} {s t : List UInt8}
    (h : IsString (bytesAt m off' n) t) (hs : s.length < size)
    (hoff : off' + n ≤ off ∨ off + size ≤ off') :
    IsString (bytesAt (write off (s ++ [0]) m) off' n) t :=
  (bytesAt_write_beside hs hoff).symm ▸ h

/-- A string that an array holds fits it. -/
theorem IsString.length_lt {a s : List UInt8} (h : IsString a s) : s.length < a.length := by
  obtain ⟨-, rest, rfl⟩ := h
  rw [List.length_append, List.length_cons]
  omega

/-- An argument that fits leaves the other arrays as they are. -/
theorem Intact.copy {o : Opt} (h : Intact os m) (hfits : o.Fits) (hnul : o.NoNul) :
    Intact (os ++ [o]) (o.copy m) := by
  cases o with
  | client addr =>
    have hs : addr.length < pHostaddrLen := hfits
    refine ⟨h.localIp.beside hs (by decide), ?_, ?_, ?_, h.id.beside hs (by decide)⟩ <;>
      rw [lastGiven_snoc]
    · exact isString_write hs hnul
    · exact h.srcFile.beside hs (by decide)
    · exact h.dstFile.beside hs (by decide)
  | srcFile name =>
    have hs : name.length < pFilenameLen := hfits
    refine ⟨h.localIp.beside hs (by decide), ?_, ?_, ?_, h.id.beside hs (by decide)⟩ <;>
      rw [lastGiven_snoc]
    · exact h.remoteIp.beside hs (by decide)
    · exact isString_write hs hnul
    · exact h.dstFile.beside hs (by decide)
  | dstFile name =>
    have hs : name.length < pFilenameLen := hfits
    refine ⟨h.localIp.beside hs (by decide), ?_, ?_, ?_, h.id.beside hs (by decide)⟩ <;>
      rw [lastGiven_snoc]
    · exact h.remoteIp.beside hs (by decide)
    · exact h.srcFile.beside hs (by decide)
    · exact isString_write hs hnul
  | server | udt | parameter | exits =>
    refine ⟨h.localIp, ?_, ?_, ?_, h.id⟩ <;> rw [lastGiven_snoc]
    · exact h.remoteIp
    · exact h.srcFile
    · exact h.dstFile

/-- Arguments that all fit. -/
theorem Intact.foldl_copy (h : Intact [] m) (hfits : ∀ o ∈ os, o.Fits)
    (hnul : ∀ o ∈ os, o.NoNul) : Intact os (os.foldl Opt.copy m) := by
  induction os using List.reverseRecOn with
  | nil => exact h
  | append_singleton os o ih =>
    rw [List.foldl_concat]
    have hos : ∀ o' ∈ os, o' ∈ os ++ [o] := fun o' ho' => List.mem_append_left [o] ho'
    have ho : o ∈ os ++ [o] := List.mem_append_right os (List.mem_singleton_self o)
    have hbefore := ih (fun o' ho' => hfits o' (hos o' ho')) fun o' ho' => hnul o' (hos o' ho')
    exact hbefore.copy (hfits o ho) (hnul o ho)

/-- The arrays of a struct that was just made hold nothing. -/
theorem Represents.intact_nil {status : Status} {buf : BitVec 32} {ip : List UInt8}
    (h : Represents m (newAndDefault status buf ip)) : Intact [] m := by
  have hempty : ∀ {a : List UInt8} {n : ℕ}, a = List.replicate (n + 1) 0 → IsString a [] :=
    fun {a n} ha => ⟨List.not_mem_nil, List.replicate n 0, by rw [ha]; rfl⟩
  exact ⟨hempty h.localIp, hempty h.remoteIp, hempty h.srcFile, hempty h.dstFile, hempty h.id⟩

/-- An option that was just given fits if the arrays are intact. -/
theorem Intact.fits {o : Opt} (h : Intact (os ++ [o]) m) : o.Fits := by
  have hremoteIp := h.remoteIp.length_lt
  have hsrcFile := h.srcFile.length_lt
  have hdstFile := h.dstFile.length_lt
  simp only [lastGiven_snoc, length_bytesAt] at hremoteIp hsrcFile hdstFile
  cases o with
  | client addr => exact hremoteIp
  | srcFile name => exact hsrcFile
  | dstFile name => exact hdstFile
  | server | udt | parameter | exits => trivial

/-- **After every option each array holds the string given last for it, exactly if every
argument fits its array**; then the memory is that of the struct. -/
theorem configure_intact_iff {status : Status} {buf maxMem : BitVec 32} {ip : List UInt8}
    (hq : configure maxMem os (newAndDefault status buf ip) = some q)
    (hm : Represents m (newAndDefault status buf ip)) (hnul : ∀ o ∈ os, o.NoNul) :
    ((∀ pre, pre <+: os → Intact pre (pre.foldl Opt.copy m)) ↔ ∀ o ∈ os, o.Fits) ∧
      ((∀ o ∈ os, o.Fits) → Represents (os.foldl Opt.copy m) q) := by
  refine ⟨⟨?_, ?_⟩, represents_configure hq hm⟩
  · intro h o ho
    obtain ⟨pre, post, rfl⟩ := List.append_of_mem ho
    have hpre : pre ++ [o] <+: pre ++ o :: post := ⟨post, by simp⟩
    exact (h (pre ++ [o]) hpre).fits
  · intro hfits pre hpre
    exact hm.intact_nil.foldl_copy (fun o ho => hfits o (hpre.subset ho))
      fun o ho => hnul o (hpre.subset ho)

/-- A client that is given two addresses and the name of a file. -/
theorem configure_intact_iff_client :
    ∃ q, configure 100 [.client [49, 48], .srcFile [47], .client [49]]
        (newAndDefault .programStart 0 []) = some q ∧
      Represents ([.client [49, 48], .srcFile [47], .client [49]].foldl Opt.copy fun _ => 0) q :=
  ⟨_, rfl, (configure_intact_iff (m := fun _ => 0)
    (show configure 100 _ (newAndDefault .programStart 0 []) = some _ from rfl)
    ⟨by decide, by decide, by decide, by decide, by decide⟩ (by decide)).2 (by decide)⟩

end Session
end Probdata
