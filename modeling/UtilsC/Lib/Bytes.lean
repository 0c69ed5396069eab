import Mathlib.Data.List.Basic
import Mathlib.Data.Nat.Digits.Defs
import Mathlib.Tactic.Ring

/-!
# Bytes — fixed-width little-endian numbers

Numbers stored in memory or sent over a byte stream are little-endian byte lists of a fixed
width.  This file has the two conversions and their round trips:

* `leBytes w n` writes the low `w` bytes of `n`, least significant byte first;
* `leNat bs` reads a byte list back;
* `readMem view len` is the list of the first `len` bytes seen through a memory view;
* `overwrite block off bytes` writes into a memory block.
-/

namespace UtilsC
namespace Lib

/-! ## Little-endian numbers -/

/-- The low `w` bytes of `n`, least significant byte first. -/
def leBytes : Nat → Nat → List UInt8
  | 0, _ => []
  | w + 1, n => UInt8.ofNat n :: leBytes w (n / 256)

/-- The number a byte list denotes, least significant byte first. -/
def leNat : List UInt8 → Nat
  | [] => 0
  | b :: bs => b.toNat + 256 * leNat bs

@[simp] theorem leBytes_length (w n : Nat) : (leBytes w n).length = w := by
  induction w generalizing n with
  | zero => rfl
  | succ w ih => simp [leBytes, ih]

theorem leNat_lt (bs : List UInt8) : leNat bs < 256 ^ bs.length := by
  induction bs with
  | nil => simp [leNat]
  | cons b bs ih =>
      have hb : b.toNat < 256 := b.toNat_lt
      have hpow : 256 ^ (b :: bs).length = 256 * 256 ^ bs.length := by
        simp [pow_succ, Nat.mul_comm]
      have hstep : b.toNat + 256 * leNat bs < 256 * (leNat bs + 1) := by omega
      have hle : 256 * (leNat bs + 1) ≤ 256 * 256 ^ bs.length :=
        Nat.mul_le_mul_left 256 ih
      calc
        leNat (b :: bs) = b.toNat + 256 * leNat bs := rfl
        _ < 256 * (leNat bs + 1) := hstep
        _ ≤ 256 * 256 ^ bs.length := hle
        _ = 256 ^ (b :: bs).length := hpow.symm

/-- Reading back what was written loses only what does not fit the width. -/
theorem leNat_leBytes (w n : Nat) : leNat (leBytes w n) = n % 256 ^ w := by
  induction w generalizing n with
  | zero => simp [leBytes, leNat, Nat.mod_one]
  | succ w ih =>
      have hhead : (UInt8.ofNat n).toNat = n % 256 := by simp
      calc
        leNat (leBytes (w + 1) n) = n % 256 + 256 * (n / 256 % 256 ^ w) := by
          simp [leBytes, leNat, ih]
        _ = n % (256 * 256 ^ w) := (Nat.mod_mul).symm
        _ = n % 256 ^ (w + 1) := by rw [pow_succ, Nat.mul_comm]

theorem leNat_leBytes_of_lt {w n : Nat} (h : n < 256 ^ w) : leNat (leBytes w n) = n := by
  have hmod : n % 256 ^ w = n := Nat.mod_eq_of_lt h
  simp [leNat_leBytes, hmod]

/-- Two byte lists of one length that denote the same number are equal. -/
theorem leNat_injective :
    ∀ {as bs : List UInt8}, as.length = bs.length → leNat as = leNat bs → as = bs
  | [], [], _, _ => rfl
  | [], _ :: _, hlen, _ => by simp at hlen
  | _ :: _, [], hlen, _ => by simp at hlen
  | a :: as, b :: bs, hlen, hval => by
      have ha : a.toNat < 256 := a.toNat_lt
      have hb : b.toNat < 256 := b.toNat_lt
      have hval' : a.toNat + 256 * leNat as = b.toNat + 256 * leNat bs := hval
      have hhead : a.toNat = b.toNat := by omega
      have htail : leNat as = leNat bs := by omega
      have hlen' : as.length = bs.length := by simpa using hlen
      have hab : a = b := UInt8.toNat_inj.1 hhead
      have hrest : as = bs := leNat_injective hlen' htail
      simp [hab, hrest]

theorem leNat_inj {as bs : List UInt8} (hlen : as.length = bs.length) :
    leNat as = leNat bs ↔ as = bs := by
  constructor
  · exact leNat_injective hlen
  · intro h
    simp [h]

theorem leBytes_injective {w n m : Nat} (hn : n < 256 ^ w) (hm : m < 256 ^ w)
    (h : leBytes w n = leBytes w m) : n = m := by
  have hread : leNat (leBytes w n) = leNat (leBytes w m) := by rw [h]
  simpa [leNat_leBytes_of_lt hn, leNat_leBytes_of_lt hm] using hread

/-- The signed reading of `w` bytes (two's complement). -/
def leInt (bs : List UInt8) : Int :=
  Int.bmod (leNat bs) (256 ^ bs.length)

theorem leInt_inj {as bs : List UInt8} (hlen : as.length = bs.length) :
    leInt as = leInt bs ↔ as = bs := by
  constructor
  · intro h
    have hmod : (leNat as : Int) % ((256 ^ as.length : Nat) : Int) =
        (leNat bs : Int) % ((256 ^ as.length : Nat) : Int) := by
      have h' : Int.bmod (leNat as) (256 ^ as.length) = Int.bmod (leNat bs) (256 ^ as.length) := by
        simpa [leInt, hlen] using h
      have := congrArg (fun z => z % ((256 ^ as.length : Nat) : Int)) h'
      simpa only [Int.bmod_emod] using this
    have hnat : leNat as % 256 ^ as.length = leNat bs % 256 ^ as.length := by
      exact_mod_cast hmod
    have ha : leNat as % 256 ^ as.length = leNat as := Nat.mod_eq_of_lt (leNat_lt as)
    have hb : leNat bs % 256 ^ as.length = leNat bs := by
      have hlt : leNat bs < 256 ^ as.length := by simpa [hlen] using leNat_lt bs
      exact Nat.mod_eq_of_lt hlt
    exact leNat_injective hlen (by rw [← ha, hnat, hb])
  · intro h
    simp [h]

/-! ## Memory views -/

/-- The first `len` bytes seen through a memory view (address offset to byte). -/
def readMem (view : Nat → UInt8) (len : Nat) : List UInt8 :=
  (List.range len).map view

@[simp] theorem readMem_length (view : Nat → UInt8) (len : Nat) :
    (readMem view len).length = len := by
  simp [readMem]

theorem readMem_eq_iff {v w : Nat → UInt8} {len : Nat} :
    readMem v len = readMem w len ↔ ∀ i, i < len → v i = w i := by
  simp [readMem]

/-! ## Memory blocks -/

/-- Write `bytes` at an offset of a block; there is no such write past its end. -/
def overwrite (block : List UInt8) (off : Nat) (bytes : List UInt8) : Option (List UInt8) :=
  if off + bytes.length ≤ block.length then
    some (block.take off ++ (bytes ++ block.drop (off + bytes.length)))
  else
    none

/-- Writing behind what has been filled in already. -/
theorem overwrite_append {filled rest bytes : List UInt8} (h : bytes.length ≤ rest.length) :
    overwrite (filled ++ rest) filled.length bytes =
      some ((filled ++ bytes) ++ rest.drop bytes.length) := by
  have hfits : filled.length + bytes.length ≤ (filled ++ rest).length := by
    rw [List.length_append]
    omega
  have hdrop : (filled ++ rest).drop (filled.length + bytes.length) = rest.drop bytes.length := by
    rw [← List.drop_drop, List.drop_left]
  rw [overwrite, if_pos hfits, hdrop, List.take_left, List.append_assoc]

/-- A write that is possible leaves the block as long as it was. -/
theorem overwrite_length {block bytes block' : List UInt8} {off : Nat}
    (h : overwrite block off bytes = some block') : block'.length = block.length := by
  unfold overwrite at h
  split at h
  · rename_i hfits
    cases h
    simp only [List.length_append, List.length_take, List.length_drop]
    omega
  · cases h

/-- What lies before the end of a write, and what lies behind it. -/
theorem overwrite_parts {block bytes block' : List UInt8} {off : Nat}
    (h : overwrite block off bytes = some block') :
    block'.take (off + bytes.length) = block.take off ++ bytes ∧
      block'.drop (off + bytes.length) = block.drop (off + bytes.length) := by
  unfold overwrite at h
  split at h
  · rename_i hfits
    cases h
    have hlen : (block.take off ++ bytes).length = off + bytes.length := by
      rw [List.length_append, List.length_take, Nat.min_eq_left (by omega)]
    rw [← List.append_assoc, ← hlen, List.take_left, List.drop_left]
    exact ⟨rfl, rfl⟩
  · cases h

theorem overwrite_of_le (block bytes : List UInt8) (off : Nat)
    (h : off + bytes.length ≤ block.length) : ∃ block', overwrite block off bytes = some block' :=
  ⟨_, if_pos h⟩

theorem overwrite_eq_none {block bytes : List UInt8} {off : Nat}
    (h : block.length < off + bytes.length) : overwrite block off bytes = none :=
  if_neg (Nat.not_le.2 h)

end Lib
end UtilsC
