/-
# Integers as bytes

An `int` of a packed struct, on the wire or in memory: four bytes, the least
significant first; and eight bytes of a `long long` or of a `double`.
-/
import Mathlib.Data.List.Basic

namespace Probdata
namespace Bytes

def le32 (x : BitVec 32) : List UInt8 :=
  [UInt8.ofNat x.toNat, UInt8.ofNat (x.toNat / 256), UInt8.ofNat (x.toNat / 65536),
    UInt8.ofNat (x.toNat / 16777216)]

/-- The integer of the first four bytes. -/
def ofLe32 (bs : List UInt8) : BitVec 32 :=
  BitVec.ofNat 32 ((bs.getD 0 0).toNat + 256 * (bs.getD 1 0).toNat + 65536 * (bs.getD 2 0).toNat +
    16777216 * (bs.getD 3 0).toNat)

@[simp] theorem le32_length (x : BitVec 32) : (le32 x).length = 4 := rfl

theorem ofLe32_append (x : BitVec 32) (bs : List UInt8) : ofLe32 (le32 x ++ bs) = x := by
  apply BitVec.eq_of_toNat_eq
  have hx := x.isLt
  simp only [ofLe32, le32, List.cons_append, List.nil_append, List.getD_cons_zero,
    List.getD_cons_succ, UInt8.toNat_ofNat', BitVec.toNat_ofNat]
  omega

theorem ofLe32_le32 (x : BitVec 32) : ofLe32 (le32 x) = x := by
  simpa using ofLe32_append x []

def le64 (x : BitVec 64) : List UInt8 := le32 (x.setWidth 32) ++ le32 ((x >>> 32).setWidth 32)

/-- The eight bytes of a 64-bit value. -/
def ofLe64 (bs : List UInt8) : BitVec 64 := ofLe32 (bs.drop 4) ++ ofLe32 bs

theorem ofLe64_le64 (x : BitVec 64) : ofLe64 (le64 x) = x := by
  have h1 : ofLe32 (le64 x) = x.setWidth 32 := ofLe32_append _ _
  have h2 : ofLe32 ((le64 x).drop 4) = (x >>> 32).setWidth 32 := ofLe32_le32 _
  rw [ofLe64, h1, h2]
  apply BitVec.eq_of_toNat_eq
  have hx := x.isLt
  simp only [BitVec.toNat_append, BitVec.toNat_setWidth, BitVec.toNat_ushiftRight, Nat.shiftLeft_eq,
    Nat.shiftRight_eq_div_pow]
  rw [← Nat.shiftLeft_eq, ← Nat.shiftLeft_add_eq_or_of_lt (by omega), Nat.shiftLeft_eq]
  omega

end Bytes
end Probdata
