/-
# Bytes at offsets

The memory of a packed struct: a byte at each offset. A write replaces the bytes
from its offset on, whether or not they belong to one field. `Holds m off bs` says
that the bytes `bs` stand at `off`; a later write behind them leaves them alone
(`Holds.write_of_le`).
-/
import Probdata.Lib.Bytes
import Mathlib.Data.List.GetD

namespace Probdata
namespace Layout

open Bytes

/-- The byte at each offset. -/
abbrev Mem := ℕ → UInt8

/-- `memcpy` of the bytes `bs` to the offset `off`. -/
def write (off : ℕ) (bs : List UInt8) (m : Mem) : Mem := fun i =>
  if off ≤ i ∧ i < off + bs.length then bs.getD (i - off) 0 else m i

/-- The writes `ws`, one after the other. -/
def writes (ws : List (ℕ × List UInt8)) (m : Mem) : Mem :=
  ws.foldl (fun m w => write w.1 w.2 m) m

/-- The bytes `bs` stand at `off`. -/
def Holds (m : Mem) (off : ℕ) (bs : List UInt8) : Prop :=
  ∀ i (h : i < bs.length), m (off + i) = bs[i]

instance (m : Mem) (off : ℕ) (bs : List UInt8) : Decidable (Holds m off bs) :=
  Nat.decidableBallLT bs.length fun i _ => m (off + i) = bs[i]

/-- The C string `s` stands at `off`. -/
abbrev HoldsString (m : Mem) (off : ℕ) (s : List UInt8) : Prop := Holds m off (s ++ [0])

/-- The `n` bytes at `off`. -/
def bytesAt (m : Mem) (off n : ℕ) : List UInt8 := (List.range n).map fun i => m (off + i)

def int32At (m : Mem) (off : ℕ) : BitVec 32 := ofLe32 (bytesAt m off 4)

def int64At (m : Mem) (off : ℕ) : BitVec 64 := ofLe64 (bytesAt m off 8)

/-! ### One write -/

theorem write_of_lt {off : ℕ} {bs : List UInt8} {m : Mem} {i : ℕ} (h : i < off) :
    write off bs m i = m i := if_neg (by omega)

theorem write_of_le {off : ℕ} {bs : List UInt8} {m : Mem} {i : ℕ} (h : off + bs.length ≤ i) :
    write off bs m i = m i := if_neg (by omega)

theorem write_add {off : ℕ} {bs : List UInt8} {m : Mem} {i : ℕ} (h : i < bs.length) :
    write off bs m (off + i) = bs[i] := by
  rw [write, if_pos (by omega), Nat.add_sub_cancel_left, List.getD_eq_getElem _ _ h]

theorem holds_write (off : ℕ) (bs : List UInt8) (m : Mem) : Holds (write off bs m) off bs :=
  fun _ h => write_add h

theorem Holds.write_of_le {m : Mem} {off off' : ℕ} {bs bs' : List UInt8} (h : Holds m off bs)
    (hle : off + bs.length ≤ off') : Holds (write off' bs' m) off bs := fun i hi => by
  rw [write_of_lt (by omega)]
  exact h i hi

theorem Holds.append {m : Mem} {off off' : ℕ} {bs cs : List UInt8} (h : Holds m off bs)
    (h' : Holds m off' cs) (hoff : off' = off + bs.length) : Holds m off (bs ++ cs) := by
  subst hoff
  intro i hi
  rw [List.getElem_append]
  split
  · rename_i hlt; exact h i hlt
  · rename_i hge
    have hc := h' (i - bs.length) (by simp only [List.length_append] at hi; omega)
    rw [← hc]
    congr 1
    omega

theorem Holds.left {m : Mem} {off : ℕ} {bs cs : List UInt8} (h : Holds m off (bs ++ cs)) :
    Holds m off bs := fun i hi => by
  rw [h i (by rw [List.length_append]; omega), List.getElem_append_left hi]

/-! ### Many writes -/

/-- Writes behind the bytes leave them alone. -/
theorem Holds.writes {ws : List (ℕ × List UInt8)} {m : Mem} {off : ℕ} {bs : List UInt8}
    (h : Holds m off bs) (hws : ∀ w ∈ ws, off + bs.length ≤ w.1) : Holds (writes ws m) off bs := by
  induction ws generalizing m with
  | nil => exact h
  | cons w ws ih =>
    exact ih (h.write_of_le (hws w List.mem_cons_self)) fun x hx => hws x (List.mem_cons_of_mem _ hx)

/-- What stands in front of all writes. -/
theorem writes_of_lt {ws : List (ℕ × List UInt8)} {m : Mem} {i : ℕ} (h : ∀ w ∈ ws, i < w.1) :
    Layout.writes ws m i = m i := by
  induction ws generalizing m with
  | nil => rfl
  | cons w ws ih =>
    have hw : write w.1 w.2 m i = m i := write_of_lt (h w List.mem_cons_self)
    rw [← hw]
    exact ih fun x hx => h x (List.mem_cons_of_mem _ hx)

theorem writes_append (ws ws' : List (ℕ × List UInt8)) (m : Mem) :
    Layout.writes (ws ++ ws') m = Layout.writes ws' (Layout.writes ws m) := List.foldl_append

/-- Each write starts behind the ones before it. -/
def Ascending (ws : List (ℕ × List UInt8)) : Prop :=
  ws.Pairwise fun w w' => w.1 + w.2.length ≤ w'.1

/-- It is enough that each write starts behind the one right before it. -/
theorem ascending_of_isChain {ws : List (ℕ × List UInt8)}
    (h : ws.IsChain fun w w' => w.1 + w.2.length ≤ w'.1) : Ascending ws := by
  have htrans : IsTrans (ℕ × List UInt8) fun w w' => w.1 + w.2.length ≤ w'.1 :=
    ⟨fun _ _ _ hab hbc => by omega⟩
  exact List.isChain_iff_pairwise.mp h

/-- Of ascending writes each leaves its bytes. -/
theorem Ascending.holds {ws : List (ℕ × List UInt8)} (h : Ascending ws) {w : ℕ × List UInt8}
    (hw : w ∈ ws) (m : Mem) : Holds (Layout.writes ws m) w.1 w.2 := by
  obtain ⟨pre, post, rfl⟩ := List.append_of_mem hw
  obtain ⟨-, hpost, -⟩ := List.pairwise_append.mp h
  rw [writes_append]
  exact (holds_write w.1 w.2 _).writes fun x hx => (List.pairwise_cons.mp hpost).1 x hx

/-! ### Numbers -/

theorem Holds.bytesAt_eq {m : Mem} {off : ℕ} {bs : List UInt8} (h : Holds m off bs) :
    bytesAt m off bs.length = bs := by
  refine List.ext_getElem (by simp [bytesAt]) fun i h1 h2 => ?_
  simpa [bytesAt] using h i h2

theorem Holds.int32At_eq {m : Mem} {off : ℕ} {x : BitVec 32} (h : Holds m off (le32 x)) :
    int32At m off = x := by
  rw [int32At, show (4 : ℕ) = (le32 x).length from rfl, h.bytesAt_eq, ofLe32_le32]

theorem Holds.int64At_eq {m : Mem} {off : ℕ} {x : BitVec 64} (h : Holds m off (le64 x)) :
    int64At m off = x := by
  rw [int64At, show (8 : ℕ) = (le64 x).length from rfl, h.bytesAt_eq, ofLe64_le64]

/-! ### A write and the bytes of a range -/

@[simp] theorem length_bytesAt (m : Mem) (off n : ℕ) : (bytesAt m off n).length = n := by
  rw [bytesAt, List.length_map, List.length_range]

theorem bytesAt_congr {m m' : Mem} {off n : ℕ} (h : ∀ i, off ≤ i → i < off + n → m i = m' i) :
    bytesAt m off n = bytesAt m' off n := by
  refine List.map_congr_left fun i hi => h _ (Nat.le_add_right _ _) ?_
  have hi' : i < n := List.mem_range.mp hi
  omega

/-- A write beside a range leaves it as it is. -/
theorem bytesAt_write_of_disjoint {off off' n : ℕ} {bs : List UInt8} (m : Mem)
    (h : off' + n ≤ off ∨ off + bs.length ≤ off') :
    bytesAt (write off bs m) off' n = bytesAt m off' n := by
  refine bytesAt_congr fun i h1 h2 => ?_
  rcases h with h | h
  · exact write_of_lt (by omega)
  · exact write_of_le (by omega)

/-- A write to the beginning of a range that it fits in. -/
theorem bytesAt_write {off n : ℕ} {bs : List UInt8} (m : Mem) (h : bs.length ≤ n) :
    bytesAt (write off bs m) off n = bs ++ (bytesAt m off n).drop bs.length := by
  refine List.ext_getElem ?_ fun i h1 h2 => ?_
  · rw [List.length_append, List.length_drop, length_bytesAt, length_bytesAt]
    omega
  · have hget : (bytesAt (write off bs m) off n)[i] = write off bs m (off + i) := by simp [bytesAt]
    rw [hget]
    by_cases hi : i < bs.length
    · rw [write_add hi, List.getElem_append_left hi]
    · rw [write_of_le (by omega), List.getElem_append_right (by omega)]
      simp only [bytesAt, List.getElem_drop, List.getElem_map, List.getElem_range]
      congr 1
      omega

end Layout
end Probdata
