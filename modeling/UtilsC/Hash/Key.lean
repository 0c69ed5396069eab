import UtilsC.Lib.Bytes

/-!
# Keys of the hash table

A table key is the union `uc_hash_key_t`: 72 bytes of storage whose meaning depends on the key
type of the table, or, for memory keys, a pointer to a block of `mem_key_len` bytes.  Four
switches over the key type decide how a key is measured, addressed, compared and copied.  This
file has the four switches as the source writes them, case by case, and the facts that make them
agree:

* `ucHashKeyCompare_eq_zero_iff`: two keys compare equal exactly when the bytes fed to the hash
  function are the same;
* `keyBytes_ucHashKeyCopy`: a copied key has the bytes of the original.
-/

namespace UtilsC
namespace Hash

open Lib

/-! ## Key types and the key union -/

inductive UcHashKeyType
  | char
  | uchar
  | int16
  | uint16
  | int32
  | uint32
  | int64
  | uint64
  | pointer
  | mac
  | macStr
  | ipStr
  | idChar32Str
  | idChar64Str
  | mem
  deriving DecidableEq, Repr

def ucMacLenBytes : Nat := 6
def ucMacLenStr00 : Nat := 18
def ucIpv4LenStr00 : Nat := 16
def ucIdChar32Str00 : Nat := 33
def ucIdChar64Str00 : Nat := 65

/-- Size of the union: the longest member has 65 bytes, the alignment is that of a pointer. -/
def ucHashKeySize : Nat := 72

/-- A key: the bytes of the union, and the memory behind its pointer member `mem`
(which only memory keys look at). -/
structure UcHashKey where
  raw : List UInt8
  mem : Nat → UInt8
  raw_length : raw.length = ucHashKeySize

namespace UcHashKey

/-- The bytes of a union member of `n` bytes (every member starts at offset 0). -/
def field (k : UcHashKey) (n : Nat) : List UInt8 :=
  k.raw.take n

/-- Overwrite the member of `n` bytes with that of another key. -/
def setField (k src : UcHashKey) (n : Nat) : UcHashKey :=
  { raw := src.raw.take n ++ k.raw.drop n
    mem := k.mem
    raw_length := by
      have hk := k.raw_length
      have hsrc := src.raw_length
      simp [hk, hsrc]
      omega }

/-- Overwrite the pointer member: eight bytes holding the address. -/
def setPtr (k : UcHashKey) (addr : Nat) : UcHashKey :=
  { raw := leBytes 8 addr ++ k.raw.drop 8
    mem := k.mem
    raw_length := by
      have hk := k.raw_length
      simp [hk, ucHashKeySize] }

@[simp] theorem field_length {k : UcHashKey} {n : Nat} (h : n ≤ ucHashKeySize) :
    (k.field n).length = n := by
  have hk := k.raw_length
  simp [field, hk, h]

@[simp] theorem field_setField {k src : UcHashKey} {n : Nat} (h : n ≤ ucHashKeySize) :
    (k.setField src n).field n = src.field n := by
  have hsrc := src.raw_length
  simp [field, setField, hsrc, h]

@[simp] theorem mem_setField (k src : UcHashKey) (n : Nat) :
    (k.setField src n).mem = k.mem := rfl

end UcHashKey

/-! ## The four switches -/

/-- C's `memcmp`: the difference of the first two bytes that differ. -/
def memcmp : List UInt8 → List UInt8 → Int
  | a :: as, b :: bs => if a = b then memcmp as bs else (a.toNat : Int) - b.toNat
  | _, _ => 0

/-- The compare loops over byte arrays: return 1 at the first difference. -/
def bytesLoop : List UInt8 → List UInt8 → Int
  | a :: as, b :: bs => if a ≠ b then 1 else bytesLoop as bs
  | _, _ => 0

def ucHashKeyCompare (keyType : UcHashKeyType) (keyLen : Nat) (keyA keyB : UcHashKey) : Int :=
  match keyType with
  | .char => if leInt (keyA.field 1) = leInt (keyB.field 1) then 0 else 1
  | .uchar => if leNat (keyA.field 1) = leNat (keyB.field 1) then 0 else 1
  | .int16 => if leInt (keyA.field 2) = leInt (keyB.field 2) then 0 else 1
  | .uint16 => if leNat (keyA.field 2) = leNat (keyB.field 2) then 0 else 1
  | .int32 => if leInt (keyA.field 4) = leInt (keyB.field 4) then 0 else 1
  | .uint32 => if leNat (keyA.field 4) = leNat (keyB.field 4) then 0 else 1
  | .int64 => if leInt (keyA.field 8) = leInt (keyB.field 8) then 0 else 1
  | .uint64 => if leNat (keyA.field 8) = leNat (keyB.field 8) then 0 else 1
  | .pointer => if leNat (keyA.field 8) = leNat (keyB.field 8) then 0 else 1
  | .mac => bytesLoop (keyA.field ucMacLenBytes) (keyB.field ucMacLenBytes)
  | .macStr => bytesLoop (keyA.field ucMacLenStr00) (keyB.field ucMacLenStr00)
  | .ipStr => bytesLoop (keyA.field ucIpv4LenStr00) (keyB.field ucIpv4LenStr00)
  | .idChar32Str => memcmp (keyA.field ucIdChar32Str00) (keyB.field ucIdChar32Str00)
  | .idChar64Str => memcmp (keyA.field ucIdChar64Str00) (keyB.field ucIdChar64Str00)
  | .mem => memcmp (readMem keyA.mem keyLen) (readMem keyB.mem keyLen)

def ucHashKeyCopy (keyType : UcHashKeyType) (keyLen : Nat) (keyA keyB : UcHashKey) : UcHashKey :=
  match keyType with
  | .char => keyA.setField keyB 1
  | .uchar => keyA.setField keyB 1
  | .int16 => keyA.setField keyB 2
  | .uint16 => keyA.setField keyB 2
  | .int32 => keyA.setField keyB 4
  | .uint32 => keyA.setField keyB 4
  | .int64 => keyA.setField keyB 8
  | .uint64 => keyA.setField keyB 8
  | .pointer => keyA.setField keyB 8
  | .mac => keyA.setField keyB ucMacLenBytes
  | .macStr => keyA.setField keyB ucMacLenStr00
  | .ipStr => keyA.setField keyB ucIpv4LenStr00
  | .idChar32Str => keyA.setField keyB ucIdChar32Str00
  | .idChar64Str => keyA.setField keyB ucIdChar64Str00
  -- `memcpy` into the block behind the pointer; the union itself keeps its pointer
  | .mem => { keyA with mem := fun i => if i < keyLen then keyB.mem i else keyA.mem i }

/-- `uc_cal_key_len`; the source passes the table, of which it reads these two fields. -/
def ucCalKeyLen (keyType : UcHashKeyType) (memKeyLen : Nat) : Nat :=
  match keyType with
  | .char | .uchar => 1
  | .int16 | .uint16 => 2
  | .int32 | .uint32 => 4
  | .int64 | .uint64 => 8
  | .pointer => 8
  | .mac => ucMacLenBytes
  | .macStr => ucMacLenStr00
  | .ipStr => ucIpv4LenStr00
  | .idChar32Str => ucIdChar32Str00
  | .idChar64Str => ucIdChar64Str00
  | .mem => memKeyLen

/-- The memory seen from the address `uc_cal_key_addr` returns. -/
def ucCalKeyAddr (keyType : UcHashKeyType) (key : UcHashKey) : Nat → UInt8 :=
  match keyType with
  | .char | .uchar | .int16 | .uint16 | .int32 | .uint32 | .int64 | .uint64 | .pointer
  | .mac | .macStr | .ipStr | .idChar32Str | .idChar64Str => fun i => key.raw.getD i 0
  | .mem => key.mem

/-! ## The switches agree -/

/-- The bytes of a key that the hash function is given. -/
def keyBytes (keyType : UcHashKeyType) (memKeyLen : Nat) (key : UcHashKey) : List UInt8 :=
  readMem (ucCalKeyAddr keyType key) (ucCalKeyLen keyType memKeyLen)

theorem memcmp_eq_zero_iff :
    ∀ {as bs : List UInt8}, as.length = bs.length → (memcmp as bs = 0 ↔ as = bs)
  | [], [], _ => by simp [memcmp]
  | [], _ :: _, h => by simp at h
  | _ :: _, [], h => by simp at h
  | a :: as, b :: bs, h => by
      have hlen : as.length = bs.length := by simpa using h
      have ih := memcmp_eq_zero_iff hlen
      by_cases hab : a = b
      · simp [memcmp, hab, ih]
      · have hne : a.toNat ≠ b.toNat := fun hnat => hab (UInt8.toNat_inj.1 hnat)
        simp only [memcmp, hab, if_false, List.cons.injEq, false_and, iff_false]
        omega

theorem bytesLoop_eq_zero_iff :
    ∀ {as bs : List UInt8}, as.length = bs.length → (bytesLoop as bs = 0 ↔ as = bs)
  | [], [], _ => by simp [bytesLoop]
  | [], _ :: _, h => by simp at h
  | _ :: _, [], h => by simp at h
  | a :: as, b :: bs, h => by
      have hlen : as.length = bs.length := by simpa using h
      have ih := bytesLoop_eq_zero_iff hlen
      by_cases hab : a = b
      · simp [bytesLoop, hab, ih]
      · simp [bytesLoop, hab]

theorem readMem_getD_eq_field (key : UcHashKey) {n : Nat} (h : n ≤ ucHashKeySize) :
    readMem (fun i => key.raw.getD i 0) n = key.field n := by
  have hraw := key.raw_length
  apply List.ext_getElem
  · simp [h]
  · intro i hi _
    have hin : i < n := by simpa using hi
    have hlt : i < key.raw.length := by omega
    simp [readMem, UcHashKey.field, List.getElem?_eq_getElem hlt]

theorem ucCalKeyLen_le {keyType : UcHashKeyType} (hmem : keyType ≠ .mem) (memKeyLen : Nat) :
    ucCalKeyLen keyType memKeyLen ≤ ucHashKeySize := by
  cases keyType <;>
    first
      | exact absurd rfl hmem
      | simp [ucCalKeyLen, ucHashKeySize, ucMacLenBytes, ucMacLenStr00, ucIpv4LenStr00,
          ucIdChar32Str00, ucIdChar64Str00]

/-- A key whose type is not `mem` is hashed by the bytes of its union member. -/
theorem keyBytes_eq_field {keyType : UcHashKeyType} (hmem : keyType ≠ .mem) (memKeyLen : Nat)
    (key : UcHashKey) :
    keyBytes keyType memKeyLen key = key.field (ucCalKeyLen keyType memKeyLen) := by
  have hlen := ucCalKeyLen_le hmem memKeyLen
  have haddr : ucCalKeyAddr keyType key = fun i => key.raw.getD i 0 := by
    cases keyType <;> first | exact absurd rfl hmem | rfl
  simpa [keyBytes, haddr] using readMem_getD_eq_field key hlen

theorem keyBytes_mem (memKeyLen : Nat) (key : UcHashKey) :
    keyBytes .mem memKeyLen key = readMem key.mem memKeyLen := rfl

section Scalars

variable {a b : UcHashKey} {n : Nat}

theorem natField_eq_zero_iff (h : n ≤ ucHashKeySize) :
    (if leNat (a.field n) = leNat (b.field n) then (0 : Int) else 1) = 0 ↔
      a.field n = b.field n := by
  have hlen : (a.field n).length = (b.field n).length := by simp [h]
  simp [leNat_inj hlen]

theorem intField_eq_zero_iff (h : n ≤ ucHashKeySize) :
    (if leInt (a.field n) = leInt (b.field n) then (0 : Int) else 1) = 0 ↔
      a.field n = b.field n := by
  have hlen : (a.field n).length = (b.field n).length := by simp [h]
  simp [leInt_inj hlen]

theorem bytesLoop_field_eq_zero_iff (h : n ≤ ucHashKeySize) :
    bytesLoop (a.field n) (b.field n) = 0 ↔ a.field n = b.field n := by
  have hlen : (a.field n).length = (b.field n).length := by simp [h]
  exact bytesLoop_eq_zero_iff hlen

theorem memcmp_field_eq_zero_iff (h : n ≤ ucHashKeySize) :
    memcmp (a.field n) (b.field n) = 0 ↔ a.field n = b.field n := by
  have hlen : (a.field n).length = (b.field n).length := by simp [h]
  exact memcmp_eq_zero_iff hlen

end Scalars

/-- Two keys compare equal exactly when the hash function is given the same bytes for both. -/
theorem ucHashKeyCompare_eq_zero_iff (keyType : UcHashKeyType) (memKeyLen : Nat)
    (a b : UcHashKey) :
    ucHashKeyCompare keyType (ucCalKeyLen keyType memKeyLen) a b = 0 ↔
      keyBytes keyType memKeyLen a = keyBytes keyType memKeyLen b := by
  by_cases hmem : keyType = .mem
  · subst hmem
    have hlen : (readMem a.mem memKeyLen).length = (readMem b.mem memKeyLen).length := by simp
    exact memcmp_eq_zero_iff hlen
  · have ha := keyBytes_eq_field hmem memKeyLen a
    have hb := keyBytes_eq_field hmem memKeyLen b
    rw [ha, hb]
    cases keyType with
    | char => exact intField_eq_zero_iff (by decide)
    | uchar => exact natField_eq_zero_iff (by decide)
    | int16 => exact intField_eq_zero_iff (by decide)
    | uint16 => exact natField_eq_zero_iff (by decide)
    | int32 => exact intField_eq_zero_iff (by decide)
    | uint32 => exact natField_eq_zero_iff (by decide)
    | int64 => exact intField_eq_zero_iff (by decide)
    | uint64 => exact natField_eq_zero_iff (by decide)
    | pointer => exact natField_eq_zero_iff (by decide)
    | mac => exact bytesLoop_field_eq_zero_iff (by decide)
    | macStr => exact bytesLoop_field_eq_zero_iff (by decide)
    | ipStr => exact bytesLoop_field_eq_zero_iff (by decide)
    | idChar32Str => exact memcmp_field_eq_zero_iff (by decide)
    | idChar64Str => exact memcmp_field_eq_zero_iff (by decide)
    | mem => exact absurd rfl hmem

/-- A copied key is hashed by the bytes of the original. -/
theorem keyBytes_ucHashKeyCopy (keyType : UcHashKeyType) (memKeyLen : Nat) (a b : UcHashKey) :
    keyBytes keyType memKeyLen (ucHashKeyCopy keyType (ucCalKeyLen keyType memKeyLen) a b) =
      keyBytes keyType memKeyLen b := by
  by_cases hmem : keyType = .mem
  · subst hmem
    simp only [keyBytes_mem, readMem_eq_iff]
    intro i hi
    simp [ucHashKeyCopy, ucCalKeyLen, hi]
  · have hcopy : ucHashKeyCopy keyType (ucCalKeyLen keyType memKeyLen) a b =
        a.setField b (ucCalKeyLen keyType memKeyLen) := by
      cases keyType <;> first | exact absurd rfl hmem | rfl
    have hlen := ucCalKeyLen_le hmem memKeyLen
    rw [keyBytes_eq_field hmem, keyBytes_eq_field hmem, hcopy, UcHashKey.field_setField hlen]

/-! ## 64-bit keys -/

/-- `{.u64 = id}`: eight bytes of the number, the rest of the union zero. -/
def ucHashKeyU64 (id : UInt64) : UcHashKey where
  raw := leBytes 8 id.toNat ++ List.replicate 64 0
  mem := fun _ => 0
  raw_length := by simp [ucHashKeySize]

theorem keyBytes_u64 (len : Nat) (id : UInt64) :
    keyBytes .uint64 len (ucHashKeyU64 id) = leBytes 8 id.toNat := by
  have hlen : (leBytes 8 id.toNat).length = 8 := leBytes_length 8 id.toNat
  rw [keyBytes_eq_field (by decide)]
  show (leBytes 8 id.toNat ++ List.replicate 64 0).take 8 = _
  rw [List.take_append_of_le_length (by simp)]
  exact List.take_of_length_le (by simp)

theorem keyBytes_u64_injective {len : Nat} {id id' : UInt64}
    (h : keyBytes .uint64 len (ucHashKeyU64 id) = keyBytes .uint64 len (ucHashKeyU64 id')) :
    id = id' := by
  rw [keyBytes_u64, keyBytes_u64] at h
  have hlt : ∀ x : UInt64, x.toNat < 256 ^ 8 := fun x => x.toNat_lt
  exact UInt64.toNat_inj.1 (leBytes_injective (hlt id) (hlt id') h)

end Hash
end UtilsC
