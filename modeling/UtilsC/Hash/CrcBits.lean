import UtilsC.Lib.Crc
import UtilsC.Hash.Table

/-!
# The table of the default hash function

`uc_hash_crc64` walks over a table of 256 constants.  This file reads them against the polynomial
they were made from.

* `ucHashCrc64_eq`: the table-driven loop is the bit-by-bit CRC.
* `ucHashCal_short`: keys of up to eight bytes never have the same hash value.
-/

namespace UtilsC
namespace Hash

open Lib

/-- The polynomial, lowest power in the top bit. -/
def crc64Poly : BitVec 64 := 0x95ac9329ac4bc9b5#64

/-- The table by the byte that is looked up. -/
def crc64Entry (i : BitVec 8) : BitVec 64 :=
  (ucHashCrc64Tab.getD i.toNat 0).toBitVec

/-- Every constant is eight steps from its index. -/
theorem crc64Entry_eq (i : BitVec 8) : crc64Entry i = Crc.bits crc64Poly 8 (i.setWidth 64) := by
  have hall : ∀ j : Fin (2 ^ 8),
      crc64Entry ⟨j⟩ = Crc.bits crc64Poly 8 (BitVec.setWidth 64 ⟨j⟩) := by
    decide +kernel
  exact hall i.toFin

/-- One turn of the loop is a byte of the bit-by-bit CRC. -/
theorem ucHashCrc64Byte_toBitVec (crc : UInt64) (byte : UInt8) :
    (ucHashCrc64Byte crc byte).toBitVec = Crc.byteStep crc64Poly crc.toBitVec byte := by
  calc
    (ucHashCrc64Byte crc byte).toBitVec = Crc.tableStep crc64Entry crc.toBitVec byte := rfl
    _ = Crc.byteStep crc64Poly crc.toBitVec byte := by rw [Crc.tableStep_eq crc64Entry_eq]

theorem ucHashCrc64_toBitVec (crc : UInt64) (s : List UInt8) :
    (ucHashCrc64 crc s).toBitVec = Crc.run crc64Poly crc.toBitVec s := by
  induction s generalizing crc with
  | nil => rfl
  | cons byte s ih =>
      calc
        (ucHashCrc64 crc (byte :: s)).toBitVec =
            (ucHashCrc64 (ucHashCrc64Byte crc byte) s).toBitVec := rfl
        _ = Crc.run crc64Poly (Crc.byteStep crc64Poly crc.toBitVec byte) s := by
          rw [ih, ucHashCrc64Byte_toBitVec]
        _ = Crc.run crc64Poly crc.toBitVec (byte :: s) := (Crc.run_cons _ _ byte s).symm

/-- `uc_hash_crc64` is the bit-by-bit CRC of its polynomial, without a final xor; a string can be
hashed in two parts. -/
theorem ucHashCrc64_eq (crc : UInt64) (s : List UInt8) :
    (ucHashCrc64 crc s).toBitVec = Crc.run crc64Poly crc.toBitVec s ∧
      ∀ t, ucHashCrc64 crc (s ++ t) = ucHashCrc64 (ucHashCrc64 crc s) t :=
  ⟨ucHashCrc64_toBitVec crc s, fun _ => List.foldl_append⟩

/-- The check value of the source's own test. -/
example : ucHashCrc64 0 [0x31, 0x32, 0x33, 0x34, 0x35, 0x36, 0x37, 0x38, 0x39] =
    0xe9c6d914c4b8d9ca := by
  decide

/-! ## Short keys -/

theorem ucHashCal_injective {s t : List UInt8} (hlen : s.length = t.length) (hshort : s.length ≤ 8)
    (h : ucHashCal s = ucHashCal t) : s = t := by
  have hcrc := congrArg UInt64.toBitVec (UInt64.toNat_inj.1 h)
  rw [ucHashCrc64_toBitVec, ucHashCrc64_toBitVec] at hcrc
  exact Crc.run_injective (by decide) _ hlen (Nat.mul_le_mul_left 8 hshort) hcrc

/-- Different strings of one length up to eight have different hash values.  So have different keys
of a table with such keys and the default function: they share a bucket only where the reduction by
the height takes two hash values to one index. -/
theorem ucHashCal_short {P : Type} :
    (∀ n ≤ 8, ∀ s t : List UInt8, s.length = n → t.length = n → s ≠ t →
        ucHashCal s ≠ ucHashCal t) ∧
      ∀ tbl : UcHashTable P, tbl.hashCalFun = ucHashCal →
        ucCalKeyLen tbl.keyType tbl.memKeyLen ≤ 8 → ∀ keyA keyB : UcHashKey,
        tbl.compare keyA keyB ≠ 0 →
          tbl.hashCalFun (tbl.bytes keyA) ≠ tbl.hashCalFun (tbl.bytes keyB) := by
  constructor
  · intro n hn s t hs ht hne h
    exact hne (ucHashCal_injective (hs.trans ht.symm) (hs ▸ hn) h)
  · intro tbl hdefault hshort keyA keyB hcompare h
    have hlen : ∀ key, (tbl.bytes key).length = ucCalKeyLen tbl.keyType tbl.memKeyLen :=
      fun key => readMem_length _ _
    rw [hdefault] at h
    have hbytes : tbl.bytes keyA = tbl.bytes keyB :=
      ucHashCal_injective ((hlen keyA).trans (hlen keyB).symm) ((hlen keyA).le.trans hshort) h
    exact hcompare ((ucHashKeyCompare_eq_zero_iff tbl.keyType tbl.memKeyLen keyA keyB).2 hbytes)

/-- Two MAC addresses, and two keys of a new table. -/
theorem ucHashCal_short_new :
    ucHashCal [0, 0, 0, 0, 0, 1] ≠ ucHashCal [0, 0, 0, 0, 0, 2] ∧
      ∃ tbl : UcHashTable Nat, ucHashCreate (fun _ => true) 7 .uint64 0 = some tbl ∧
        tbl.hashCalFun (tbl.bytes (ucHashKeyU64 1)) ≠
          tbl.hashCalFun (tbl.bytes (ucHashKeyU64 2)) := by
  rcases ucHashCal_short (P := Nat) with ⟨hstrings, hkeys⟩
  refine ⟨hstrings 6 (by decide) _ _ rfl rfl (by decide), _, rfl, ?_⟩
  exact hkeys _ rfl (by decide) _ _ (by decide)

end Hash
end UtilsC
