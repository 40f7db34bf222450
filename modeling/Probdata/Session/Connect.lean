/-
# The address that a client is told

`probdata_client_connect` reads a length and that many bytes into
`prob->local_ip`, an array of 64, and copies the string to the control block
without its terminator. So what the control block holds then depends on the
memory it was allocated in; the file that is searched is named after it, and the
file that records are added to after the string that `*_prof_init` copies again.

Key theorem: `connect_connectsWell_iff`, for which bytes from the server, and
which contents of that memory, the two are one file (`ConnectsWell`).
-/
import Probdata.Lib.Wire.Play
import Probdata.Session.Client
import Probdata.Fastprof.Record

namespace Probdata
namespace Session

open Wire Bytes

/-- The C string `s` stands in an array, with its terminator. -/
def IsString (a s : List UInt8) : Prop := 0 ∉ s ∧ ∃ rest, a = s ++ 0 :: rest

theorem IsString.cstr_eq {a s : List UInt8} (h : IsString a s) : cstr a = s := by
  obtain ⟨hs, rest, rfl⟩ := h
  have hne : ∀ b ∈ s, decide (b ≠ 0) = true := fun b hb => by
    simpa using fun h0 : b = 0 => hs (h0 ▸ hb)
  rw [cstr, List.takeWhile_append_of_pos hne]
  simp

theorem cstr_setString {s : List UInt8} (hs : 0 ∉ s) (a : List UInt8) : cstr (setString s a) = s :=
  IsString.cstr_eq ⟨hs, a.drop (s ++ [0]).length, by simp [setString, overlay]⟩

/-- The bytes that were taken for an item. -/
def bytesOf (t : Item) (ops : List (Op Item Act)) : List UInt8 :=
  ((got ops).filter fun x => x.1 = t).map Prod.snd

/-- `probdata_client_tcp_prof_init` and `probdata_client_udt_prof_init` on the
address of the control block. -/
def profInit (p : Prob) : Prob :=
  { p with controlLocalIp := setString (cstr p.localIp) p.controlLocalIp }

/-- The name of the history file. -/
def historyFile (p : Prob) : List Char :=
  Fastprof.profFile ((cstr p.controlLocalIp).map fun b => Char.ofNat b.toNat)
    ((cstr p.remoteIp).map fun b => Char.ofNat b.toNat)

/-- What a client should have after it has connected: `len` are the bytes taken for
the length, and `addr` those taken for the address. -/
structure ConnectsWell (x : Prob) (len addr : List UInt8) : Prop where
  inside : addr.length ≤ pHostaddrLen
  complete : len.length = 4
  announced : (ofLe32 len).toInt = addr.length
  short : addr.length ≤ 63
  localIp : IsString x.localIp addr
  controlLocalIp : IsString x.controlLocalIp addr
  file : historyFile x = historyFile (profInit x)

/-! ### What connecting does -/

@[simp] theorem bytesOf_append (t : Item) (s s' : List (Op Item Act)) :
    bytesOf t (s ++ s') = bytesOf t s ++ bytesOf t s' := by
  simp [bytesOf]

@[simp] theorem bytesOf_outs (t t' : Item) (bs : List UInt8) :
    bytesOf t (outs t' bs : List (Op Item Act)) = [] := by
  simp [bytesOf]

@[simp] theorem bytesOf_inns (t : Item) (bs : List UInt8) :
    bytesOf t (inns t bs : List (Op Item Act)) = bs := by
  simp [bytesOf, List.filter_map, Function.comp_def]

theorem bytesOf_inns_ne {t t' : Item} (h : t' ≠ t) (bs : List UInt8) :
    bytesOf t (inns t' bs : List (Op Item Act)) = [] := by
  simp [bytesOf, List.filter_map, Function.comp_def, h]

/-- The client after it has taken the bytes `addr` for its address. -/
def told (env : ClientEnv) (p : Prob) (addr : List UInt8) : Prob :=
  { p with
    id := env.id
    localIp := overlay addr p.localIp
    controlLocalIp := overlay (cstr (overlay addr p.localIp)) p.controlLocalIp }

/-- A connection in which no call fails, whatever the server sends. -/
theorem exec_connect {env : ClientEnv} {p : Prob} {ops : List (Op Item Act)} {fs : List Fault}
    {x : ℤ × Prob} (h : Exec (Client.connect env p) ops fs x) :
    fs ≠ [] ∧ x.1 = -1 ∨ fs = [] ∧ x = (0, told env p (bytesOf .addr ops)) := by
  obtain ⟨s1, s2, fs1, fs2, r1, rfl, rfl, h1, h2⟩ := Exec.bind_inv h
  obtain ⟨j, rfl, hj⟩ := exec_sendNbytes h1
  rcases hj with ⟨rfl, -, rfl⟩ | ⟨rfl, rfl⟩
  · rw [if_neg (by omega)] at h2
    obtain ⟨s3, s4, fs3, fs4, ⟨r2, lb⟩, rfl, rfl, h3, h4⟩ := Exec.bind_inv h2
    obtain ⟨rfl, -, hr⟩ := exec_recvNbytes (show Exec (recvNbytes .len ((4 : ℕ) : ℤ)) _ _ _ from h3)
    dsimp only at h4
    rcases hr with ⟨rfl, rfl⟩ | ⟨rfl, rfl⟩
    · rw [if_neg (by omega)] at h4
      obtain ⟨s5, s6, fs5, fs6, ⟨r3, ab⟩, rfl, rfl, h5, h6⟩ := Exec.bind_inv h4
      obtain ⟨xs, rfl, rfl, -, hr⟩ := exec_recvLoop (Nat.le_refl _) h5
      dsimp only at h6
      rcases hr with ⟨rfl, rfl⟩ | ⟨rfl, rfl⟩
      · rw [if_neg (by omega)] at h6
        cases h6 with
        | ret _ =>
          refine .inr ⟨rfl, ?_⟩
          simp [bytesOf_inns_ne, told]
      · rw [if_pos (by omega)] at h6
        cases h6 with
        | ret _ => exact .inl ⟨by simp, rfl⟩
    · rw [if_pos (by omega)] at h4
      cases h4 with
      | ret _ => exact .inl ⟨by simp, rfl⟩
  · rw [if_pos (by omega)] at h2
    cases h2 with
    | ret _ => exact .inl ⟨by simp, rfl⟩

/-! ### An address that fits -/

/-- The address that a stream of bytes announces leaves room for a terminator in
`local_ip`. -/
def AddressFits (stream : List UInt8) : Prop :=
  4 ≤ stream.length → (ofLe32 (stream.take 4)).toInt < pHostaddrLen

instance (stream : List UInt8) : Decidable (AddressFits stream) :=
  inferInstanceAs (Decidable (_ → _))

/-- A read that is cut short has come to the end of the stream. -/
theorem stream_of_short {t : Item} {fuel nleft : ℕ} {buf : List UInt8} {f : Feed}
    (hf : nleft ≤ fuel)
    (h0 : 0 ≤ ((recvLoop t fuel nleft buf : Prog Item Act _).play f).result.1)
    (hlt : ((recvLoop t fuel nleft buf : Prog Item Act _).play f).result.2.length <
      buf.length + nleft) :
    ((recvLoop t fuel nleft buf : Prog Item Act _).play f).feed.stream = [] := by
  induction fuel generalizing nleft buf f with
  | zero =>
    simp only [recvLoop, Prog.play] at hlt
    omega
  | succ fuel ih =>
    unfold recvLoop at h0 hlt ⊢
    by_cases hn : nleft = 0
    · simp only [hn, if_true, Prog.play] at hlt
      omega
    · simp only [hn, if_false, Prog.play, Played.after_result, Played.after_feed] at h0 hlt ⊢
      rcases ht : f.taken nleft with _ | _ | ⟨b, bs⟩
      · simp [ht, Prog.play] at h0
      · -- a read of nothing is the end of the stream
        obtain ⟨c, -, hc⟩ := Option.map_eq_some_iff.mp ht
        have hstream : f.stream = [] := by
          rcases List.take_eq_nil_iff.mp hc with hmin | hnil
          · omega
          · exact hnil
        simp [Prog.play, Feed.rest, Feed.next, ht, hstream]
      · have hlen : (b :: bs).length ≤ nleft := by
          obtain ⟨c, -, hc⟩ := Option.map_eq_some_iff.mp ht
          rw [← hc, List.length_take]
          omega
        simp only [ht] at h0 hlt ⊢
        refine ih (by simp at hlen ⊢; omega) h0 (lt_of_lt_of_eq hlt ?_)
        rw [List.length_append]
        omega

/-- What a read does with a stream: it takes a beginning of it, and all of it if that is
less than what was asked for. -/
theorem exists_play_recvNbytes (t : Item) (count : ℤ) (f : Feed) : ∃ r bs f',
    (recvNbytes t count : Prog Item Act _).play f = ⟨inns t bs, f', (r, bs)⟩ ∧
      bs.length ≤ count.toNat ∧ bs ++ f'.stream = f.stream ∧
      (0 ≤ r → bs.length < count.toNat → f'.stream = []) := by
  obtain ⟨fs, hexec⟩ := exec_play (recvNbytes t count : Prog Item Act _) f
  have hstream := play_stream (recvNbytes t count : Prog Item Act _) f
  have hshort : 0 ≤ ((recvNbytes t count : Prog Item Act _).play f).result.1 →
      ((recvNbytes t count : Prog Item Act _).play f).result.2.length < [].length + count.toNat →
      ((recvNbytes t count : Prog Item Act _).play f).feed.stream = [] :=
    stream_of_short (Nat.le_refl _)
  generalize (recvNbytes t count : Prog Item Act _).play f = y at hexec hstream hshort ⊢
  obtain ⟨ops, f', r, bs⟩ := y
  obtain ⟨xs, hbs, hops, hle, -⟩ := exec_recvLoop (Nat.le_refl _) hexec
  rw [List.nil_append] at hbs
  subst hbs
  subst hops
  refine ⟨r, bs, f', rfl, hle, by simpa [Function.comp_def] using hstream, fun h0 hlt => ?_⟩
  exact hshort h0 (by simpa using hlt)

/-- Sending takes nothing from the stream. -/
theorem play_sendNbytes_stream (t : Item) (bs : List UInt8) (f : Feed) :
    ((sendNbytes t bs : Prog Item Act ℤ).play f).feed.stream = f.stream := by
  obtain ⟨fs, hexec⟩ := exec_play (sendNbytes t bs : Prog Item Act ℤ) f
  obtain ⟨j, hops, -⟩ := exec_sendNbytes hexec
  have hstream := play_stream (sendNbytes t bs : Prog Item Act ℤ) f
  rwa [hops, got_outs, List.map_nil, List.nil_append] at hstream

/-- The array keeps its size, where the address fits. -/
theorem length_localIp_connect (env : ClientEnv) {p : Prob} {f : Feed}
    (hp : p.localIp.length = pHostaddrLen) (h : AddressFits f.stream) :
    ((Client.connect env p).play f).result.2.localIp.length = pHostaddrLen := by
  have hsend := play_sendNbytes_stream .id env.id f
  unfold Client.connect
  refine (congrArg (fun y : Played Item Act (ℤ × Prob) => y.result.2.localIp.length)
    (Prog.play_bind _ _ f)).trans ?_
  dsimp only [Played.after_result]
  split
  · exact hp
  generalize ((sendNbytes .id env.id : Prog Item Act ℤ).play f).feed = f1 at hsend ⊢
  obtain ⟨r, lb, f2, hlen, hlb, hstream, hend⟩ := exists_play_recvNbytes .len 4 f1
  refine (congrArg (fun y : Played Item Act (ℤ × Prob) => y.result.2.localIp.length)
    (Prog.play_bind _ _ f1)).trans ?_
  rw [hlen]
  dsimp only [Played.after_result]
  split
  · exact hp
  obtain ⟨r', ab, f3, haddr, hab, hstream', -⟩ :=
    exists_play_recvNbytes .addr (ofLe32 (overlay lb (le32 0))).toInt f2
  refine (congrArg (fun y : Played Item Act (ℤ × Prob) => y.result.2.localIp.length)
    (Prog.play_bind _ _ f2)).trans ?_
  rw [haddr]
  dsimp only [Played.after_result]
  have hfits : ab.length < pHostaddrLen := by
    by_cases hlt : lb.length < 4
    · -- the stream has ended within the length
      rw [hend (by omega) (by simpa using hlt)] at hstream'
      have hnil : ab = [] := (List.append_eq_nil_iff.mp hstream').1
      rw [hnil]
      decide
    · have hfour : lb.length = 4 := by
        have h4 : (4 : ℤ).toNat = 4 := rfl
        omega
      have hannounced := h (by rw [← hsend, ← hstream, List.length_append]; omega)
      rw [← hsend, ← hstream, List.take_left' hfour] at hannounced
      have hoverlay : overlay lb (le32 0) = lb := by
        rw [overlay, hfour]
        exact List.append_nil lb
      rw [hoverlay] at hab
      unfold pHostaddrLen at hannounced ⊢
      omega
  have hoverlay : (overlay ab p.localIp).length = pHostaddrLen := by
    rw [overlay, List.length_append, List.length_drop]
    omega
  split <;> exact hoverlay

/-! ### When it is well -/

/-- All of an announced address arrives, short enough and without a NUL, and the
memory of the control block has one behind it. -/
structure TellsAddress (p : Prob) (len addr : List UInt8) : Prop where
  complete : len.length = 4
  announced : (ofLe32 len).toInt = addr.length
  short : addr.length ≤ 63
  no_nul : 0 ∉ addr
  terminated : p.controlLocalIp[addr.length]? = some 0

/-- The address in `local_ip`, if it fits. -/
theorem isString_localIp {addr a : List UInt8} (ha : a = List.replicate pHostaddrLen 0)
    (hshort : addr.length ≤ 63) (hnul : 0 ∉ addr) : IsString (overlay addr a) addr := by
  refine ⟨hnul, List.replicate (63 - addr.length) 0, ?_⟩
  rw [overlay, ha, List.drop_replicate]
  congr 1
  rw [← List.replicate_succ]
  congr 1
  unfold pHostaddrLen
  omega

/-- A string that is copied without its terminator. -/
theorem isString_overlay_iff {s a : List UInt8} :
    IsString (overlay s a) s ↔ 0 ∉ s ∧ a[s.length]? = some 0 := by
  constructor
  · rintro ⟨hs, rest, hrest⟩
    refine ⟨hs, ?_⟩
    have hdrop : a.drop s.length = 0 :: rest := List.append_cancel_left hrest
    have hget : (a.drop s.length)[0]? = some 0 := by rw [hdrop]; rfl
    simpa using hget
  · rintro ⟨hs, ha⟩
    obtain ⟨hlt, hget⟩ := List.getElem?_eq_some_iff.mp ha
    refine ⟨hs, a.drop (s.length + 1), ?_⟩
    rw [overlay, List.drop_eq_getElem_cons hlt, hget]

/-- The name of the file, from a control block that holds the string. -/
theorem historyFile_profInit {x : Prob} {s : List UInt8} (h1 : IsString x.localIp s)
    (h2 : IsString x.controlLocalIp s) : historyFile x = historyFile (profInit x) := by
  have hcstr : cstr (profInit x).controlLocalIp = cstr x.controlLocalIp := by
    rw [h2.cstr_eq, profInit, h1.cstr_eq]
    exact cstr_setString h1.1 _
  simp only [historyFile, hcstr]
  rfl

/-- **When a client that has connected knows its address, and names one history
file.** -/
theorem connect_connectsWell_iff {p : Prob} (hp : Configured .client p) (env : ClientEnv)
    {ops : List (Op Item Act)} {fs : List Fault} {x : ℤ × Prob}
    (h : Exec (Client.connect env p) ops fs x) :
    (x.1 = 0 → ConnectsWell x.2 (bytesOf .len ops) (bytesOf .addr ops)) ↔
      fs ≠ [] ∨ TellsAddress p (bytesOf .len ops) (bytesOf .addr ops) := by
  rcases exec_connect h with ⟨hfs, hx⟩ | ⟨rfl, rfl⟩
  · exact ⟨fun _ => .inl hfs, fun _ h0 => absurd (hx.symm.trans h0) (by decide)⟩
  generalize bytesOf .len ops = len, bytesOf .addr ops = addr
  have hlocal := hp.localIp.1
  constructor
  · intro hwell
    have hw := hwell rfl
    have hlocalIp : IsString (overlay addr p.localIp) addr := hw.localIp
    have hcontrol : IsString (overlay (cstr (overlay addr p.localIp)) p.controlLocalIp) addr :=
      hw.controlLocalIp
    rw [hlocalIp.cstr_eq, isString_overlay_iff] at hcontrol
    exact .inr ⟨hw.complete, hw.announced, hw.short, hcontrol.1, hcontrol.2⟩
  · rintro (hfs | ht) _
    · exact absurd rfl hfs
    · have hlocalIp : IsString (overlay addr p.localIp) addr :=
        isString_localIp hlocal ht.short ht.no_nul
      have hcontrol : IsString (overlay (cstr (overlay addr p.localIp)) p.controlLocalIp) addr := by
        rw [hlocalIp.cstr_eq]
        exact isString_overlay_iff.mpr ⟨ht.no_nul, ht.terminated⟩
      exact
        { inside := by have := ht.short; unfold pHostaddrLen; omega
          complete := ht.complete
          announced := ht.announced
          short := ht.short
          localIp := hlocalIp
          controlLocalIp := hcontrol
          file := historyFile_profInit (x := told env p addr) hlocalIp hcontrol }

/-! ### Two memories -/

/-- A client of `10.0.0.2` whose control block was allocated where every byte was `b`. -/
def clientIn (b : UInt8) : Prob :=
  setControl { newAndDefault .programStart 0 (List.replicate pHostaddrLen b) with
    role := .client
    remoteIp := setString [49, 48, 46, 48, 46, 48, 46, 50] (List.replicate pHostaddrLen 0) }

theorem configured_clientIn (b : UInt8) : Configured .client (clientIn b) :=
  ⟨rfl, .programStart, 0, List.replicate pHostaddrLen b, -1, [.client [49, 48, 46, 48, 46, 48, 46, 50]],
    rfl⟩

/-- A client without a history. -/
def sampleEnv : ClientEnv where
  id := List.replicate pIdpktSize 0
  id_length := length_zeroId
  found := false
  online := false
  run _ := none

/-- `10.0.0.11` -/
def toldIp : List UInt8 := [49, 48, 46, 48, 46, 48, 46, 49, 49]

theorem toldIp_length : toldIp.length < 2 ^ 31 := by decide

/-- In cleared memory the client knows its address. -/
theorem connect_connectsWell_iff_cleared :
    ∃ ops x, Exec (Client.connect sampleEnv (clientIn 0)) ops [] x ∧ bytesOf .addr ops = toldIp ∧
      (x.1 = 0 → ConnectsWell x.2 (bytesOf .len ops) (bytesOf .addr ops)) := by
  have hrun := (Client.does_connect sampleEnv (clientIn 0) toldIp_length).exec
  exact ⟨_, _, hrun, by decide,
    (connect_connectsWell_iff (configured_clientIn 0) sampleEnv hrun).mpr
      (.inr ⟨by decide, by decide, by decide, by decide, by decide⟩)⟩

/-- In other memory the address in the control block has no end: it is not the one
that the client was told, and names another file. -/
theorem not_connectsWell_uncleared :
    ∃ ops x, Exec (Client.connect sampleEnv (clientIn 120)) ops [] x ∧ x.1 = 0 ∧
      bytesOf .len ops = le32 9 ∧ bytesOf .addr ops = toldIp ∧
      historyFile x.2 ≠ historyFile (profInit x.2) ∧
      ¬ ConnectsWell x.2 (bytesOf .len ops) (bytesOf .addr ops) := by
  have hrun := (Client.does_connect sampleEnv (clientIn 120) toldIp_length).exec
  have hname : historyFile { Client.opened sampleEnv toldIp (clientIn 120) with
      status := (clientIn 120).status } ≠ historyFile (profInit
        { Client.opened sampleEnv toldIp (clientIn 120) with status := (clientIn 120).status }) := by
    decide +kernel
  exact ⟨_, _, hrun, rfl, by decide, by decide, hname, fun h => hname h.file⟩

end Session
end Probdata
