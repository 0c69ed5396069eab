import UtilsC.Lib.Subnet
import Mathlib.Data.UInt

/-!
# The hosts of a network

`uc_utils_host_range` gives the first and the last address that a host of a network can have, and
`uc_utils_host_count` how many there are.

* `HostRange` says what the two functions promise together;
* `ucUtilsHostRange_spec`: they keep it for every prefix length from 1 to 31.
-/

namespace UtilsC
namespace Util

open Lib

/-- `uc_utils_host_count`; the shift and the subtraction are those of a signed `int`. -/
def ucUtilsHostCount (mask : UInt32) : UInt32 :=
  -- a prefix of one bit shifts into the sign, and the subtraction wraps it off again
  let bits : Int32 := (32 - mask).toInt32
  (((1 : Int32) <<< bits) - 2).toUInt32

/-- `net_mask` of `uc_utils_host_range`. -/
def netMask (bitsMask : UInt32) : UInt32 :=
  0xffffffff <<< (32 - bitsMask)

/-- `host_mask` of `uc_utils_host_range`. -/
def hostMask (bitsMask : UInt32) : UInt32 :=
  0xffffffff >>> bitsMask

/-- `uc_utils_host_range`: what it writes to `*head` and `*tail`. -/
def ucUtilsHostRange (ip bitsMask : UInt32) : UInt32 × UInt32 :=
  ((ip &&& netMask bitsMask) + 1, (ip &&& netMask bitsMask) + hostMask bitsMask - 1)

/-- The two functions, for one address and one prefix length. -/
structure HostRange (ip bitsMask : UInt32) : Prop where
  /-- between the ends of the range are the hosts of the network -/
  range : ∀ a : UInt32,
    ((ucUtilsHostRange ip bitsMask).1 ≤ a ∧ a ≤ (ucUtilsHostRange ip bitsMask).2) ↔
      Subnet.IsHost bitsMask.toNat ip.toBitVec a.toBitVec
  /-- the additions do not wrap, and the subtraction takes 1 from what is not 0 -/
  head_exact : (ip &&& netMask bitsMask).toNat + 1 < 2 ^ 32
  sum_exact : (ip &&& netMask bitsMask).toNat + (hostMask bitsMask).toNat < 2 ^ 32
  tail_exact : 1 ≤ (ip &&& netMask bitsMask).toNat + (hostMask bitsMask).toNat
  /-- the count is the number of the hosts -/
  count : (ucUtilsHostCount bitsMask).toNat =
    {a : UInt32 | Subnet.IsHost bitsMask.toNat ip.toBitVec a.toBitVec}.ncard
  /-- two addresses leave none for a host -/
  count_31 : bitsMask = 31 → ucUtilsHostCount bitsMask = 0

section Spec

variable {ip bitsMask : UInt32}

/-- The shifts, for each prefix length. -/
theorem masks_eq (hlow : 1 ≤ bitsMask) (hhigh : bitsMask ≤ 31) :
    (netMask bitsMask).toBitVec = BitVec.allOnes 32 <<< (32 - bitsMask.toNat) ∧
      (hostMask bitsMask).toBitVec = BitVec.allOnes 32 >>> bitsMask.toNat ∧
      (ucUtilsHostCount bitsMask).toNat = 2 ^ (32 - bitsMask.toNat) - 2 := by
  have hall : ∀ n : Fin 32, n ≠ 0 →
      (netMask (UInt32.ofNat n)).toBitVec = BitVec.allOnes 32 <<< (32 - n.val) ∧
        (hostMask (UInt32.ofNat n)).toBitVec = BitVec.allOnes 32 >>> n.val ∧
        (ucUtilsHostCount (UInt32.ofNat n)).toNat = 2 ^ (32 - n.val) - 2 := by
    decide
  have hlow' : 1 ≤ bitsMask.toNat := UInt32.le_iff_toNat_le.1 hlow
  have hhigh' : bitsMask.toNat ≤ 31 := UInt32.le_iff_toNat_le.1 hhigh
  let n : Fin 32 := ⟨bitsMask.toNat, Nat.lt_succ_of_le hhigh'⟩
  have hne : n ≠ 0 := fun hzero => absurd (congrArg Fin.val hzero) (Nat.ne_of_gt hlow')
  simpa [n] using hall n hne

theorem toNat_net (ip : UInt32) (hlow : 1 ≤ bitsMask) (hhigh : bitsMask ≤ 31) :
    (ip &&& netMask bitsMask).toNat = Subnet.net bitsMask.toNat ip.toBitVec := by
  rw [← Subnet.toNat_and_netMask, ← (masks_eq hlow hhigh).1]
  rfl

theorem toNat_hostMask (hlow : 1 ≤ bitsMask) (hhigh : bitsMask ≤ 31) :
    (hostMask bitsMask).toNat = 2 ^ (32 - bitsMask.toNat) - 1 := by
  rw [← Subnet.toNat_hostMask, ← (masks_eq hlow hhigh).2.1]
  rfl

/-- A network has two addresses at least. -/
theorem two_le_size (hhigh : bitsMask.toNat ≤ 31) : 2 ≤ 2 ^ (32 - bitsMask.toNat) := by
  calc
    2 = 2 ^ 1 := rfl
    _ ≤ 2 ^ (32 - bitsMask.toNat) := Nat.pow_le_pow_right (by omega) (by omega)

/-- The first address of the range, one behind that of the network. -/
theorem toNat_head (ip : UInt32) (hlow : 1 ≤ bitsMask) (hhigh : bitsMask ≤ 31) :
    (ucUtilsHostRange ip bitsMask).1.toNat = Subnet.net bitsMask.toNat ip.toBitVec + 1 := by
  have hhigh' : bitsMask.toNat ≤ 31 := UInt32.le_iff_toNat_le.1 hhigh
  have hb : bitsMask.toNat ≤ 32 := Nat.le_succ_of_le hhigh'
  have hroom := Subnet.net_add_le hb ip.toBitVec
  have htwo := two_le_size hhigh'
  have hlt : Subnet.net bitsMask.toNat ip.toBitVec + 1 < 2 ^ 32 := by omega
  show ((ip &&& netMask bitsMask) + 1).toNat = _
  rw [UInt32.toNat_add, toNat_net ip hlow hhigh]
  exact Nat.mod_eq_of_lt hlt

/-- The last address of the range, two in front of the next network. -/
theorem toNat_tail (ip : UInt32) (hlow : 1 ≤ bitsMask) (hhigh : bitsMask ≤ 31) :
    (ucUtilsHostRange ip bitsMask).2.toNat + 2 =
      Subnet.net bitsMask.toNat ip.toBitVec + 2 ^ (32 - bitsMask.toNat) := by
  have hhigh' : bitsMask.toNat ≤ 31 := UInt32.le_iff_toNat_le.1 hhigh
  have hb : bitsMask.toNat ≤ 32 := Nat.le_succ_of_le hhigh'
  have hroom := Subnet.net_add_le hb ip.toBitVec
  have htwo := two_le_size hhigh'
  have hsum : ((ip &&& netMask bitsMask) + hostMask bitsMask).toNat =
      Subnet.net bitsMask.toNat ip.toBitVec + (2 ^ (32 - bitsMask.toNat) - 1) := by
    rw [UInt32.toNat_add, toNat_net ip hlow hhigh, toNat_hostMask hlow hhigh]
    exact Nat.mod_eq_of_lt (by omega)
  have hone : (1 : UInt32) ≤ (ip &&& netMask bitsMask) + hostMask bitsMask := by
    rw [UInt32.le_iff_toNat_le, hsum]
    show 1 ≤ _
    omega
  show ((ip &&& netMask bitsMask) + hostMask bitsMask - 1).toNat + 2 = _
  rw [UInt32.toNat_sub_of_le _ _ hone, hsum]
  show _ - 1 + 2 = _
  omega

/-- Addresses in C are words in the library. -/
theorem ncard_hosts (ip : UInt32) (hb : bitsMask.toNat ≤ 32) :
    {a : UInt32 | Subnet.IsHost bitsMask.toNat ip.toBitVec a.toBitVec}.ncard =
      2 ^ (32 - bitsMask.toNat) - 2 := by
  have hinj : Function.Injective UInt32.toBitVec := fun _ _ => UInt32.toBitVec_inj.1
  have himage : UInt32.toBitVec '' {a | Subnet.IsHost bitsMask.toNat ip.toBitVec a.toBitVec} =
      {a | Subnet.IsHost bitsMask.toNat ip.toBitVec a} :=
    Set.image_preimage_eq _ fun x => ⟨⟨x⟩, rfl⟩
  rw [← Set.ncard_image_of_injective _ hinj, himage, Subnet.ncard_isHost hb]

/-- For every address and every prefix length from 1 to 31 the range is that of the hosts and the
count their number. -/
theorem ucUtilsHostRange_spec (hlow : 1 ≤ bitsMask) (hhigh : bitsMask ≤ 31) :
    HostRange ip bitsMask := by
  have hhigh' : bitsMask.toNat ≤ 31 := UInt32.le_iff_toNat_le.1 hhigh
  have hb : bitsMask.toNat ≤ 32 := Nat.le_succ_of_le hhigh'
  have hnet := toNat_net ip hlow hhigh
  have hmask := toNat_hostMask hlow hhigh
  have hhead := toNat_head ip hlow hhigh
  have htail := toNat_tail ip hlow hhigh
  have hroom := Subnet.net_add_le hb ip.toBitVec
  have htwo := two_le_size hhigh'
  refine ⟨?_, by omega, by omega, by omega, ?_, ?_⟩
  · intro a
    rw [UInt32.le_iff_toNat_le, UInt32.le_iff_toNat_le, Subnet.isHost_iff hb]
    show _ ↔ _ ≤ a.toNat ∧ a.toNat + 2 ≤ _
    omega
  · rw [(masks_eq hlow hhigh).2.2, ncard_hosts ip hb]
  · rintro rfl
    rfl

/-- 192.168.1.99 with 254 hosts in its network, 10.0.0.1 in half the address space, and the network
at the top of the address space, with two addresses and no host. -/
theorem ucUtilsHostRange_spec_three :
    HostRange 0xc0a80163 24 ∧ HostRange 0x0a000001 1 ∧ HostRange 0xffffffff 31 :=
  ⟨ucUtilsHostRange_spec (by decide) (by decide), ucUtilsHostRange_spec (by decide) (by decide),
    ucUtilsHostRange_spec (by decide) (by decide)⟩

end Spec

end Util
end UtilsC
