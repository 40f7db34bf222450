/-
# The visited lists

After its loop a search appends its visited list to a file of a folder of its protocol.
The name of the file tells the second, the process and the limits (`Key.name_inj`) and fits
its buffer (`Key.length_name`), so that a file holds the lists of those searches alone that
ended in one second in one process (`visitedFiles`). The rows of a list are the tests of its
search, in turn `+`, `-` and `*` (`Vars.visitedList_run`).
-/
import Probdata.Lib.Text.Fixed
import Probdata.Fastprof.Bookkeeping
import Probdata.Fastprof.Sessions

namespace Probdata
namespace Fastprof

open Text

/-! ### The name of a file -/

/-- `"%d%02d%02d"` of a date. -/
def dateText (tm : Packed.Tm) : List Char :=
  Nat.toDigits 10 tm.year ++ (padded 2 (tm.mon + 1) ++ padded 2 tm.mday)

/-- `"%02d%02d%02d"` of a time. -/
def timeText (tm : Packed.Tm) : List Char :=
  padded 2 tm.hour ++ (padded 2 tm.min ++ padded 2 tm.sec)

/-- What `f_tcp_get_prof_name` and `f_udt_get_prof_name` print, each in its folder. -/
def getProfName (folder : List Char) (tm : Packed.Tm) (processid noImpLimit maxProfLimit
    perfGainRatioInt : ℤ) (enableDisable : List Char) : List Char :=
  folder ++ (dateText tm ++ '_' :: (timeText tm ++ '_' :: (printInt processid ++
    '_' :: (printInt noImpLimit ++ '-' :: (printInt maxProfLimit ++
      '-' :: (printInt perfGainRatioInt ++ '-' :: (enableDisable ++ ".fpp".toList)))))))

def fTcpGetProfName : Packed.Tm → ℤ → ℤ → ℤ → ℤ → List Char → List Char :=
  getProfName "./tcp_profile/".toList

def fUdtGetProfName : Packed.Tm → ℤ → ℤ → ℤ → ℤ → List Char → List Char :=
  getProfName "./udt_profile/".toList

deriving instance DecidableEq for Packed.Tm

/-- What the name of a file is made of: `bdp` says that the bandwidth and the RTT are known. -/
structure Key where
  protocol : Protocol
  tm : Packed.Tm
  processid : ℤ
  noImpLimit : ℤ
  maxProfLimit : ℤ
  perfGainRatioInt : ℤ
  bdp : Bool
  deriving DecidableEq

namespace Key

def name (k : Key) : List Char :=
  let enableDisable := if k.bdp then "enabled".toList else "disabled".toList
  match k.protocol with
  | .tcp => fTcpGetProfName k.tm k.processid k.noImpLimit k.maxProfLimit k.perfGainRatioInt
      enableDisable
  | .udt => fUdtGetProfName k.tm k.processid k.noImpLimit k.maxProfLimit k.perfGainRatioInt
      enableDisable

end Key

theorem dateText_append_inj {tm tm' : Packed.Tm} {t t' : List Char}
    (h : dateText tm ++ '_' :: t = dateText tm' ++ '_' :: t') :
    (tm.year = tm'.year ∧ tm.mon = tm'.mon ∧ tm.mday = tm'.mday) ∧ t = t' := by
  have hdigits : ∀ tm, ∀ c ∈ dateText tm, c.isDigit = true := by
    intro tm c hc
    rw [dateText, List.mem_append, List.mem_append] at hc
    rcases hc with hc | hc | hc
    · exact isDigit_toDigits _ c hc
    · exact isDigit_padded _ _ c hc
    · exact isDigit_padded _ _ c hc
  obtain ⟨hdate, ht⟩ := digits_append_inj (hdigits tm) (hdigits tm') (by simp) (by simp) h
  have hmon : ∀ tm : Packed.Tm, (tm.mon : ℕ) + 1 < 10 ^ 2 := fun tm => by omega
  have hmday : ∀ tm : Packed.Tm, (tm.mday : ℕ) < 10 ^ 2 := fun tm => by omega
  have hlen : ∀ tm : Packed.Tm, (padded 2 (tm.mon + 1) ++ padded 2 tm.mday).length = 4 := by
    intro tm
    rw [List.length_append, length_padded (by decide) (hmon tm),
      length_padded (by decide) (hmday tm)]
  -- the last four digits are those of the month and of the day
  obtain ⟨hyear, hrest⟩ := List.append_inj' hdate ((hlen tm).trans (hlen tm').symm)
  obtain ⟨hmon', hday⟩ := padded_append_inj (by decide) (hmon tm) (hmon tm') hrest
  refine ⟨⟨toDigits_inj hyear, Fin.ext (by omega), Fin.ext (padded_inj hday)⟩, ?_⟩
  exact (List.cons.inj ht).2

theorem timeText_append_inj {tm tm' : Packed.Tm} {t t' : List Char}
    (h : timeText tm ++ t = timeText tm' ++ t') :
    (tm.hour = tm'.hour ∧ tm.min = tm'.min ∧ tm.sec = tm'.sec) ∧ t = t' := by
  simp only [timeText, List.append_assoc] at h
  obtain ⟨hhour, h⟩ := padded_append_inj (by decide) (by omega) (by omega) h
  obtain ⟨hmin, h⟩ := padded_append_inj (by decide) (by omega) (by omega) h
  obtain ⟨hsec, h⟩ := padded_append_inj (by decide) (by omega) (by omega) h
  exact ⟨⟨Fin.ext hhour, Fin.ext hmin, Fin.ext hsec⟩, h⟩

/-- What the name is made of can be read off it. -/
theorem getProfName_inj {folder : List Char} {tm tm' : Packed.Tm} {p p' l l' n n' g g' : ℤ}
    {e e' : List Char}
    (h : getProfName folder tm p l n g e = getProfName folder tm' p' l' n' g' e') :
    tm = tm' ∧ p = p' ∧ l = l' ∧ n = n' ∧ g = g' ∧ e = e' := by
  obtain ⟨hdate, h⟩ := dateText_append_inj (List.append_cancel_left h)
  obtain ⟨htime, h⟩ := timeText_append_inj h
  obtain ⟨hp, h⟩ := printInt_append_inj (by simp) (by simp) (List.cons.inj h).2
  obtain ⟨hl, h⟩ := printInt_append_inj (by simp) (by simp) (List.cons.inj h).2
  obtain ⟨hn, h⟩ := printInt_append_inj (by simp) (by simp) (List.cons.inj h).2
  obtain ⟨hg, h⟩ := printInt_append_inj (by simp) (by simp) (List.cons.inj h).2
  have htm : tm = tm' := by
    obtain ⟨mon, mday, year, hour, min, sec, hyear⟩ := tm
    obtain ⟨mon', mday', year', hour', min', sec', hyear'⟩ := tm'
    obtain ⟨rfl, rfl, rfl⟩ := hdate
    obtain ⟨rfl, rfl, rfl⟩ := htime
    rfl
  exact ⟨htm, hp, hl, hn, hg, List.append_cancel_right (List.cons.inj h).2⟩

namespace Key

variable {k k' : Key}

/-- Two files of one name are of one protocol. -/
theorem protocol_of_name (h : k.name = k'.name) : k.protocol = k'.protocol := by
  have hthird : ∀ k : Key, k.name[2]? = match k.protocol with
      | .tcp => some 't'
      | .udt => some 'u' := by
    intro k
    unfold name
    cases k.protocol <;> rfl
  have hchar := (hthird k).symm.trans ((congrArg (·[2]?) h).trans (hthird k'))
  cases hp : k.protocol <;> cases hp' : k'.protocol <;> rw [hp, hp'] at hchar <;> simp at hchar ⊢

/-- **The name of a file tells what it is made of.** -/
theorem name_inj (h : k.name = k'.name) : k = k' := by
  have hprotocol := protocol_of_name h
  obtain ⟨protocol, tm, processid, noImpLimit, maxProfLimit, perfGainRatioInt, bdp⟩ := k
  obtain ⟨protocol', tm', processid', noImpLimit', maxProfLimit', perfGainRatioInt', bdp'⟩ := k'
  obtain rfl : protocol = protocol' := hprotocol
  have hparts : tm = tm' ∧ processid = processid' ∧ noImpLimit = noImpLimit' ∧
      maxProfLimit = maxProfLimit' ∧ perfGainRatioInt = perfGainRatioInt' ∧
      (if bdp then "enabled".toList else "disabled".toList) =
        if bdp' then "enabled".toList else "disabled".toList := by
    cases protocol with
    | tcp => exact getProfName_inj h
    | udt => exact getProfName_inj h
  obtain ⟨rfl, rfl, rfl, rfl, rfl, hbdp⟩ := hparts
  have hbdp' : bdp = bdp' := by
    revert hbdp
    cases bdp <;> cases bdp' <;> decide
  rw [hbdp']

/-- The name fits the buffer of 128 bytes, with its NUL. -/
theorem length_name (hp : k.processid.natAbs ≤ 2 ^ 31) (hl : k.noImpLimit.natAbs ≤ 2 ^ 31)
    (hn : k.maxProfLimit.natAbs ≤ 2 ^ 31) (hg : k.perfGainRatioInt.natAbs ≤ 2 ^ 31) :
    k.name.length < 128 := by
  have hyear : (Nat.toDigits 10 k.tm.year).length ≤ 9 :=
    (Nat.length_toDigits_le_iff (by decide) (by decide)).mpr k.tm.year_lt
  have htwo : ∀ n, n < 100 → (padded 2 n).length = 2 := fun n h => length_padded (by decide) h
  have hdate : (dateText k.tm).length ≤ 13 := by
    rw [dateText, List.length_append, List.length_append, htwo _ (by omega), htwo _ (by omega)]
    omega
  have htime : (timeText k.tm).length = 6 := by
    rw [timeText, List.length_append, List.length_append, htwo _ (by omega), htwo _ (by omega),
      htwo _ (by omega)]
  have hint : ∀ n : ℤ, n.natAbs ≤ 2 ^ 31 → (printInt n).length ≤ 11 :=
    fun n h => length_printInt (by decide) (lt_of_le_of_lt h (by decide))
  have hp' := hint _ hp
  have hl' := hint _ hl
  have hn' := hint _ hn
  have hg' := hint _ hg
  have hgetProfName : ∀ folder enableDisable : List Char, folder.length = 14 →
      enableDisable.length ≤ 8 → (getProfName folder k.tm k.processid k.noImpLimit k.maxProfLimit
        k.perfGainRatioInt enableDisable).length < 128 := by
    intro folder enableDisable hfolder hen
    simp only [getProfName, List.length_append, List.length_cons, hfolder, htime]
    have hfpp : ".fpp".toList.length = 4 := rfl
    omega
  have hbdp : (if k.bdp then "enabled".toList else "disabled".toList).length ≤ 8 := by
    cases k.bdp <;> decide
  unfold name
  cases k.protocol with
  | tcp => exact hgetProfName _ _ rfl hbdp
  | udt => exact hgetProfName _ _ rfl hbdp

end Key

/-! ### The rows of a list -/

/-- The marker of the test that comes after `n` others. -/
def Marker.turn (n : ℕ) : Marker :=
  match n % 3 with
  | 0 => .plus
  | 1 => .minus
  | _ => .star

/-- Where the loop makes a test of the marker. -/
def Marker.place : Marker → Pc
  | .plus => .head
  | .minus => .minus
  | .star => .star

theorem Marker.next_turn (n : ℕ) : (Marker.turn n).next = (Marker.turn (n + 1)).place := by
  have hmod : n % 3 = 0 ∨ n % 3 = 1 ∨ n % 3 = 2 := by omega
  rcases hmod with h | h | h
  · have h' : (n + 1) % 3 = 1 := by omega
    rw [turn, turn, h, h']
    rfl
  · have h' : (n + 1) % 3 = 2 := by omega
    rw [turn, turn, h, h']
    rfl
  · have h' : (n + 1) % 3 = 0 := by omega
    rw [turn, turn, h, h']
    rfl

theorem Marker.place_inj {m m' : Marker} (h : m.place = m'.place) : m = m' := by
  cases m <;> cases m' <;> simp_all [place]

namespace Vars

variable {K Prof Entry : Type*} {F : Profiler K Prof Entry} {P : Setup K} {s s' : Vars K Prof Entry}

/-- The markers on the list are in turn, and so is the next test. -/
structure InTurn (s : Vars K Prof Entry) : Prop where
  rows : s.visitedList.map (fun r => (r.marker, r.runOrNot)) =
    (List.range s.visitedList.length).map fun n => (Marker.turn n, 1)
  next : ∀ m : Marker, s.pc = m.place → m = Marker.turn s.visitedList.length

theorem InTurn.of_eq (h : s.InTurn) (hlist : s'.visitedList = s.visitedList)
    (hpc : ∀ m : Marker, s'.pc = m.place → s.pc = m.place) : s'.InTurn := by
  refine ⟨by rw [hlist]; exact h.rows, fun m hm => ?_⟩
  rw [hlist]
  exact h.next m (hpc m hm)

theorem InTurn.of_left (h : s.InTurn) (hlist : s'.visitedList = s.visitedList)
    (hpc : ∀ m : Marker, s'.pc ≠ m.place) : s'.InTurn :=
  h.of_eq hlist fun m hm => absurd hm (hpc m)

variable [Field K] [LinearOrder K]

theorem pc_compare (m : Marker) (pt : K × K) (s : Vars K Prof Entry) :
    (s.compare P m pt).pc = .done ∨ (s.compare P m pt).pc = m.next := by
  unfold compare
  split
  · dsimp only
    split
    · exact .inl rfl
    · exact .inr rfl
  · exact .inr rfl

/-- A test in its turn. -/
theorem InTurn.test (h : s.InTurn) {m : Marker} (hm : s.pc = m.place) (pt : K × K)
    {u : Vars K Prof Entry} (hu : u.visitedList = s.visitedList) : (u.test F P m pt).InTurn := by
  have hturn := h.next m hm
  have hlist : (u.program F m pt).visitedList = s.visitedList := by
    rw [← hu]
    cases m <;> rfl
  have hret : ∀ r (m : Marker), Pc.ret r ≠ m.place := fun r m => by cases m <;> simp [Marker.place]
  rcases hy : P.out.test u.trials.length with _ | y
  · rw [test_of_none hy]
    exact h.of_left hlist (hret (-1))
  rw [test_of_some hy]
  dsimp only
  set v := (u.program F m pt).ran F m pt y (P.out.sent u.trials.length) with hv
  have hlist' : v.visitedList = s.visitedList := by
    rw [← hlist, hv]
    cases m <;> rfl
  split
  · exact h.of_left hlist' (hret 0)
  · have hvis : (((v.record F).visit m).compare P m pt).visitedList =
        s.visitedList ++ [⟨(v.record F).value, m, (v.record F).y m * 1000, 1⟩] := by
      rw [(compare_written m pt _).2.1, ← hlist']
      rfl
    have hlen : (((v.record F).visit m).compare P m pt).visitedList.length =
        s.visitedList.length + 1 := by
      rw [hvis, List.length_append, List.length_singleton]
    refine ⟨?_, fun m' hm' => ?_⟩
    · rw [hlen, hvis, List.map_append, h.rows, List.range_succ, List.map_append,
        List.map_singleton, List.map_singleton, ← hturn]
    · rw [hlen]
      rcases pc_compare (P := P) m pt ((v.record F).visit m) with hpc | hpc
      · rw [hpc] at hm'
        cases m' <;> cases hm'
      · rw [hpc, hturn, Marker.next_turn] at hm'
        exact (Marker.place_inj hm').symm

variable [FloorRing K]

theorem InTurn.step (h : s.InTurn) : (s.step F P).InTurn := by
  have hdone : ∀ m : Marker, Pc.done ≠ m.place := fun m => by cases m <;> simp [Marker.place]
  unfold Vars.step
  split
  · rename_i hpc
    unfold head
    dsimp only
    split
    · exact h.of_left rfl hdone
    · have hlist : (scale P { s with flag := -1 }).visitedList = s.visitedList := by
        unfold scale
        split <;> rfl
      split
      · exact h.of_left hlist hdone
      split
      · exact h.of_left hlist hdone
      · exact h.test (m := .plus) hpc _ hlist
  · rename_i hpc
    exact h.test (m := .minus) hpc _ rfl
  · rename_i hpc
    have htest := h.test (F := F) (P := P) (m := .star) hpc (s.climb P).theta (u := s.climb P) rfl
    unfold star
    dsimp only
    split
    · exact htest.of_eq rfl fun m hm => hm
    · exact htest
  · exact h
  · exact h

theorem inTurn_run (F : Profiler K Prof Entry) (P : Setup K) (args : Args Prof Entry) (n : ℕ) :
    (run F P args n).InTurn := by
  induction n with
  | zero =>
    refine ⟨rfl, fun m hm => ?_⟩
    have hpc : m.place = .head ∨ m.place = .ret (-1) := by
      have hstart : (run F P args 0).pc = if P.out.openLog then Pc.head else .ret (-1) := rfl
      rw [← hm, hstart]
      split
      · exact .inl rfl
      · exact .inr rfl
    cases m <;> simp [Marker.place] at hpc ⊢
    rfl
  | succ n ih =>
    rw [run_succ]
    exact ih.step

end Vars

/-- The row of the test `t`, which comes after `n` others. -/
def Profiler.row {K Prof Entry : Type*} (F : Profiler K Prof Entry) (n : ℕ) (t : Trial K) :
    FastprofTrace K :=
  ⟨F.value t.window t.theta, Marker.turn n, t.perfMbps, 1⟩

/-- **The rows of the list are the tests of the run**, in turn. -/
theorem Vars.visitedList_run {K Prof Entry : Type*} [Field K] [LinearOrder K]
    [IsStrictOrderedRing K] [FloorRing K] {F : Profiler K Prof Entry} {p : Protocol}
    (hF : F.Composes p) (P : Setup K) (args : Args Prof Entry) (n : ℕ) :
    (run F P args n).visitedList = (run F P args n).counted.mapIdx F.row := by
  have hvisited := (written_run hF P args n).visited
  have hrows := (inTurn_run F P args n).rows
  generalize run F P args n = s at hvisited hrows
  have hlen : s.visitedList.length = s.counted.length := by
    simpa using congrArg List.length hvisited
  refine List.ext_getElem (by simpa using hlen) fun i h1 h2 => ?_
  have hi : i < s.counted.length := hlen ▸ h1
  have hvalue : ((s.visitedList[i]).value, (s.visitedList[i]).perfMbps) =
      (F.value (s.counted[i]).window (s.counted[i]).theta, (s.counted[i]).perfMbps) := by
    have h := congrArg (·[i]?) hvisited
    simpa [h1, hi] using h
  have hmarker : ((s.visitedList[i]).marker, (s.visitedList[i]).runOrNot) = (Marker.turn i, 1) := by
    have h := congrArg (·[i]?) hrows
    simpa [h1] using h
  rw [List.getElem_mapIdx, Profiler.row]
  generalize s.visitedList[i] = r at hvalue hmarker
  obtain ⟨v, m, y, o⟩ := r
  rw [Prod.mk.injEq] at hvalue hmarker
  obtain ⟨rfl, rfl⟩ := hvalue
  obtain ⟨rfl, rfl⟩ := hmarker
  rfl

/-! ### The text of a list -/

def Marker.char : Marker → Char
  | .plus => '+'
  | .minus => '-'
  | .star => '*'

/-- `"%.3lf \t%.3lf \t%c \t%.3lf \t%d\n"` -/
def FastprofTrace.text (r : FastprofTrace ℚ) : List Char :=
  printFixed 3 r.value.1 ++ " \t".toList ++ printFixed 3 r.value.2 ++ " \t".toList ++
    r.marker.char :: " \t".toList ++ printFixed 3 r.perfMbps ++ " \t".toList ++
    printInt r.runOrNot ++ "\n".toList

/-- The reasons that a search may end for. -/
def Protocol.legend : Protocol → List Char
  | .tcp => "1: max profile number\n  2: no improvement\n  3: desired performance\n".toList
  | .udt => "  1: max profile#\n  2: no improvement\n  3: desired performance\n".toList

def Protocol.columns : Protocol → List Char
  | .tcp => "buf \tstream# \ttype \tperf \tnew_or_old\n".toList
  | .udt => "blk \tbuf \ttype \tperf \tnew_or_old\n".toList

/-- What a search prints to the file of its visited list. -/
def visitedText (p : Protocol) (maxPerfGbps : ℚ) (profileNum flag : ℤ)
    (rows : List (FastprofTrace ℚ)) : List Char :=
  "max perf: ".toList ++ printFixed 3 maxPerfGbps ++ " Gb/s\n".toList ++
    "profile#: ".toList ++ printInt profileNum ++ "\n".toList ++
    "terminated: ".toList ++ printInt flag ++ "\n".toList ++
    p.legend ++ p.columns ++ (rows.map FastprofTrace.text).flatten

/-- What the list of a search tells of the tests `ts`. -/
def Profiler.listing {Prof Entry : Type*} (F : Profiler ℚ Prof Entry) (p : Protocol) (flag : ℤ)
    (ts : List (Trial ℚ)) : List Char :=
  visitedText p ((ts.map fun t => t.perfMbps / 1000).foldl max 0) ts.length flag (ts.mapIdx F.row)

/-- The text of the list of a run that has ended is a function of its tests. -/
theorem Vars.visitedText_run {Prof Entry : Type*} {F : Profiler ℚ Prof Entry} {p : Protocol}
    (hF : F.Composes p) (P : Setup ℚ) (args : Args Prof Entry) (n : ℕ)
    (hpc : (run F P args n).pc = .done) :
    visitedText p (run F P args n).maxPerfGbps (run F P args n).profileNum (run F P args n).flag
      (run F P args n).visitedList =
    F.listing p (run F P args n).flag (run F P args n).counted := by
  have hrun : ∀ r, (run F P args n).pc ≠ .ret r := fun r => by rw [hpc]; simp
  have hbook := (run_search F P args n).2.bookkept hrun
  have hcounted := counted_of_ne (hrun 0)
  rw [Profiler.listing, visitedList_run hF, hbook.maxPerf, hbook.profileNum, hcounted,
    List.map_map, List.length_map]
  rfl

/-! ### The files -/

/-- What a folder holds under each name. -/
abbrev Folder := List Char → Option (List Char)

/-- A file is opened with `"a+"` and printed to. -/
def Folder.append (fs : Folder) (name text : List Char) : Folder :=
  Function.update fs name (some ((fs name).getD [] ++ text))

/-- A search, with the second and the process that it ends in, and whether the file of its
list is opened. -/
structure Listed where
  search : Searched
  tm : Packed.Tm
  processid : ℤ
  opens : Bool

namespace Searched

def setup : Searched → Setup ℚ
  | .tcp _ P _ _ => P
  | .udt P _ _ => P

def pc : Searched → Pc
  | .tcp lib P args n => (fTcpClientRun lib P args n).pc
  | .udt P args n => (fUdtClientRun P args n).pc

def rttMs : Searched → ℚ
  | .tcp lib P args n => (fTcpClientRun lib P args n).rttMs
  | .udt P args n => (fUdtClientRun P args n).rttMs

/-- What it prints to the file. -/
def visitedText : Searched → List Char
  | .tcp lib P args n =>
    let s := fTcpClientRun lib P args n
    Fastprof.visitedText .tcp s.maxPerfGbps s.profileNum s.flag
      (s.visitedList.map FastprofTcpTrace.trace)
  | .udt P args n =>
    let s := fUdtClientRun P args n
    Fastprof.visitedText .udt s.maxPerfGbps s.profileNumber s.flag
      (s.visitedList.map FastprofUdtTrace.trace)

/-- What the file tells of the tests that were counted. -/
def listing : Searched → List Char
  | .tcp lib P args n =>
    let s := (fTcpClientRun lib P args n).vars
    (tcpProfiler lib P).listing .tcp s.flag s.counted
  | .udt P args n =>
    let s := (fUdtClientRun P args n).vars
    (udtProfiler P).listing .udt s.flag s.counted

theorem visitedText_eq {s : Searched} (h : s.pc = .done) : s.visitedText = s.listing := by
  cases s with
  | tcp lib P args n =>
    have hvars := fTcpClientRun_vars lib P args n
    have htext := Vars.visitedText_run (tcpProfiler_composes lib P) P args n
    rw [← hvars] at htext
    exact htext h
  | udt P args n =>
    have hvars := fUdtClientRun_vars P args n
    have htext := Vars.visitedText_run (udtProfiler_composes P) P args n
    rw [← hvars] at htext
    exact htext h

end Searched

namespace Listed

/-- What the name of its file is made of. -/
def key (l : Listed) : Key where
  protocol := l.search.protocol
  tm := l.tm
  processid := l.processid
  noImpLimit := l.search.setup.lim.noImp
  maxProfLimit := l.search.setup.lim.maxProf
  perfGainRatioInt := l.search.setup.arith.toInt (l.search.setup.lim.perfGainRatio * 100)
  bdp := decide (l.search.setup.ctrl.bwBps > 0) && decide (l.search.rttMs > 0)

/-- The list is printed: a search that returns inside its loop prints none. -/
def saved (l : Listed) : Bool := decide (l.search.pc = .done) && l.opens

/-- The end of `f_tcp_client_run` and `f_udt_client_run`. -/
def save (fs : Folder) (l : Listed) : Folder :=
  if l.saved then fs.append l.key.name l.search.visitedText else fs

theorem save_name (fs : Folder) (l : Listed) (k : Key) : save fs l k.name =
    if l.saved = true ∧ l.key = k then some ((fs k.name).getD [] ++ l.search.listing)
    else fs k.name := by
  unfold save
  by_cases hs : l.saved = true
  · have hpc : l.search.pc = .done := by
      rw [saved, Bool.and_eq_true, decide_eq_true_eq] at hs
      exact hs.1
    rw [if_pos hs, Folder.append, Searched.visitedText_eq hpc]
    by_cases hk : l.key = k
    · rw [if_pos ⟨hs, hk⟩, hk, Function.update_self]
    · rw [if_neg fun h => hk h.2, Function.update_of_ne fun h => hk (Key.name_inj h.symm)]
  · rw [if_neg hs, if_neg fun h => hs h.1]

end Listed

/-- The searches whose lists are printed to the file of `k`. -/
def listed (k : Key) (ls : List Listed) : List Listed := ls.filter fun l => l.saved && decide (l.key = k)

/-- **A file holds the lists of the searches that its name tells of**, one after the other:
what each tells of its tests. -/
theorem visitedFiles (fs : Folder) (ls : List Listed) (k : Key) :
    ls.foldl Listed.save fs k.name =
      if listed k ls = [] then fs k.name
      else some ((fs k.name).getD [] ++ ((listed k ls).map fun l => l.search.listing).flatten) := by
  induction ls generalizing fs with
  | nil => rfl
  | cons l ls ih =>
    rw [List.foldl_cons, ih, Listed.save_name]
    by_cases hl : l.saved = true ∧ l.key = k
    · have hlisted : listed k (l :: ls) = l :: listed k ls :=
        List.filter_cons_of_pos (by simpa using hl)
      rw [if_pos hl, hlisted, if_neg (List.cons_ne_nil _ _), List.map_cons, List.flatten_cons,
        Option.getD_some]
      by_cases hnil : listed k ls = []
      · rw [if_pos hnil, hnil, List.map_nil, List.flatten_nil, List.append_nil]
      · rw [if_neg hnil, List.append_assoc]
    · have hlisted : listed k (l :: ls) = listed k ls :=
        List.filter_cons_of_neg (by simpa using hl)
      rw [if_neg hl, hlisted]

end Fastprof
end Probdata
