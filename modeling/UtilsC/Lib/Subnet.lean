import Mathlib.Data.Set.Card
import Mathlib.Order.Interval.Finset.Nat
import Mathlib.Tactic.Ring

/-!
# Subnets — words that share a prefix

An address of `w` bits is split behind its first `b` bits: in front is the network, behind it the
host.  The hosts of a network are the addresses in it but the first and the last, whose host bits
are all 0 and all 1.

* `isHost_iff`: the hosts are an interval of numbers, between the two ends of the network;
* `ncard_isHost`: how many they are.
-/

namespace UtilsC
namespace Lib
namespace Subnet

variable {w : Nat}

/-- The same first `b` bits. -/
def SamePrefix (b : Nat) (x y : BitVec w) : Prop :=
  ∀ i < b, x.getMsbD i = y.getMsbD i

/-- Every bit behind the first `b` is `v`. -/
def HostBits (b : Nat) (v : Bool) (x : BitVec w) : Prop :=
  ∀ i, b ≤ i → i < w → x.getMsbD i = v

/-- An address of the network of `ip` that a host can have. -/
structure IsHost (b : Nat) (ip a : BitVec w) : Prop where
  network : SamePrefix b a ip
  not_zero : ¬ HostBits b false a
  not_one : ¬ HostBits b true a

/-- The first address of the network. -/
def net (b : Nat) (ip : BitVec w) : Nat :=
  ip.toNat / 2 ^ (w - b) * 2 ^ (w - b)

/-! ## Bits and numbers -/

theorem getMsbD_eq_testBit (x : BitVec w) {i : Nat} (hi : i < w) :
    x.getMsbD i = x.toNat.testBit (w - 1 - i) := by
  rw [BitVec.getMsbD_eq_getLsbD, BitVec.testBit_toNat]
  simp [hi]

theorem samePrefix_iff {b : Nat} (hb : b ≤ w) (x y : BitVec w) :
    SamePrefix b x y ↔ x.toNat / 2 ^ (w - b) = y.toNat / 2 ^ (w - b) := by
  constructor
  · intro hsame
    apply Nat.eq_of_testBit_eq
    intro i
    rw [Nat.testBit_div_two_pow, Nat.testBit_div_two_pow]
    by_cases hi : i < b
    · have hpos : w - 1 - (b - 1 - i) = i + (w - b) := by omega
      have hbit := hsame (b - 1 - i) (by omega)
      rw [getMsbD_eq_testBit x (by omega), getMsbD_eq_testBit y (by omega), hpos] at hbit
      exact hbit
    · -- above the word
      have hge : w ≤ i + (w - b) := by omega
      rw [BitVec.testBit_toNat, BitVec.testBit_toNat, BitVec.getLsbD_of_ge x _ hge,
        BitVec.getLsbD_of_ge y _ hge]
  · intro hdiv i hi
    have hpos : w - 1 - i = (b - 1 - i) + (w - b) := by omega
    rw [getMsbD_eq_testBit x (by omega), getMsbD_eq_testBit y (by omega), hpos,
      ← Nat.testBit_div_two_pow, ← Nat.testBit_div_two_pow, hdiv]

theorem hostBits_iff {b : Nat} (hb : b ≤ w) (v : Bool) (x : BitVec w) :
    HostBits b v x ↔ x.toNat % 2 ^ (w - b) = if v then 2 ^ (w - b) - 1 else 0 := by
  have hall : ∀ j, (if v then 2 ^ (w - b) - 1 else 0).testBit j = (decide (j < w - b) && v) := by
    intro j
    cases v <;> simp
  constructor
  · intro hbits
    apply Nat.eq_of_testBit_eq
    intro j
    rw [Nat.testBit_mod_two_pow, hall]
    by_cases hj : j < w - b
    · have hpos : w - 1 - (w - 1 - j) = j := by omega
      have hbit := hbits (w - 1 - j) (by omega) (by omega)
      rw [getMsbD_eq_testBit x (by omega), hpos] at hbit
      rw [hbit]
    · simp [hj]
  · intro hmod i hbi hiw
    have hj : w - 1 - i < w - b := by omega
    have hbit := congrArg (fun n => n.testBit (w - 1 - i)) hmod
    simp only [Nat.testBit_mod_two_pow, hall, hj, decide_true, Bool.true_and] at hbit
    rw [getMsbD_eq_testBit x hiw, hbit]

/-! ## The hosts of a network -/

section Hosts

variable {b : Nat}

theorem net_add_le (hb : b ≤ w) (ip : BitVec w) : net b ip + 2 ^ (w - b) ≤ 2 ^ w := by
  have hpow : 2 ^ w = 2 ^ b * 2 ^ (w - b) := by
    rw [← pow_add, Nat.add_sub_cancel' hb]
  have hlt : ip.toNat / 2 ^ (w - b) < 2 ^ b := by
    rw [Nat.div_lt_iff_lt_mul (Nat.two_pow_pos _), ← hpow]
    exact ip.isLt
  calc
    net b ip + 2 ^ (w - b) = (ip.toNat / 2 ^ (w - b) + 1) * 2 ^ (w - b) := (Nat.succ_mul _ _).symm
    _ ≤ 2 ^ b * 2 ^ (w - b) := Nat.mul_le_mul_right _ hlt
    _ = 2 ^ w := hpow.symm

theorem isHost_iff (hb : b ≤ w) (ip a : BitVec w) :
    IsHost b ip a ↔ net b ip + 1 ≤ a.toNat ∧ a.toNat + 2 ≤ net b ip + 2 ^ (w - b) := by
  have hpos : 0 < 2 ^ (w - b) := Nat.two_pow_pos _
  have hsplit := Nat.div_add_mod' a.toNat (2 ^ (w - b))
  have hrest := Nat.mod_lt a.toNat hpos
  have hzero := hostBits_iff hb false a
  have hone := hostBits_iff hb true a
  simp only [Bool.false_eq_true, if_false] at hzero
  simp only [if_true] at hone
  constructor
  · rintro ⟨hnet, hnotZero, hnotOne⟩
    rw [samePrefix_iff hb] at hnet
    rw [hzero] at hnotZero
    rw [hone] at hnotOne
    rw [hnet] at hsplit
    unfold net
    omega
  · rintro ⟨hlow, hhigh⟩
    have hdiv : a.toNat / 2 ^ (w - b) = ip.toNat / 2 ^ (w - b) := by
      refine Nat.div_eq_of_lt_le (le_trans (Nat.le_succ _) hlow) ?_
      rw [Nat.succ_mul]
      unfold net at hhigh
      omega
    rw [hdiv] at hsplit
    unfold net at hlow hhigh
    refine ⟨(samePrefix_iff hb a ip).2 hdiv, ?_, ?_⟩
    · rw [hzero]
      omega
    · rw [hone]
      omega

/-- The numbers of the hosts are an interval. -/
theorem image_toNat_isHost (hb : b ≤ w) (ip : BitVec w) :
    BitVec.toNat '' {a | IsHost b ip a} =
      ↑(Finset.Ico (net b ip + 1) (net b ip + 2 ^ (w - b) - 1)) := by
  have hle := net_add_le hb ip
  ext n
  rw [Finset.coe_Ico, Set.mem_Ico]
  constructor
  · rintro ⟨a, hhost, rfl⟩
    have hrange := (isHost_iff hb ip a).1 hhost
    omega
  · rintro ⟨hlow, hhigh⟩
    have hval : (BitVec.ofNat w n).toNat = n := Nat.mod_eq_of_lt (by omega)
    refine ⟨BitVec.ofNat w n, (isHost_iff hb ip _).2 ?_, hval⟩
    rw [hval]
    omega

theorem ncard_isHost (hb : b ≤ w) (ip : BitVec w) :
    {a | IsHost b ip a}.ncard = 2 ^ (w - b) - 2 := by
  have hinj : Function.Injective (BitVec.toNat : BitVec w → Nat) := fun _ _ => BitVec.eq_of_toNat_eq
  rw [← Set.ncard_image_of_injective _ hinj, image_toNat_isHost hb, Set.ncard_coe_finset,
    Nat.card_Ico]
  omega

end Hosts

/-! ## Masks -/

/-- A word under the network mask is the first address of its network. -/
theorem toNat_and_netMask (b : Nat) (ip : BitVec w) :
    (ip &&& (BitVec.allOnes w <<< (w - b))).toNat = net b ip := by
  have hle : ip.toNat / 2 ^ (w - b) * 2 ^ (w - b) < 2 ^ w :=
    lt_of_le_of_lt (Nat.div_mul_le_self _ _) ip.isLt
  rw [← BitVec.shiftLeft_ushiftRight, BitVec.toNat_shiftLeft, BitVec.toNat_ushiftRight,
    Nat.shiftRight_eq_div_pow, Nat.shiftLeft_eq, Nat.mod_eq_of_lt hle, net]

theorem toNat_hostMask (b : Nat) :
    (BitVec.allOnes w >>> b).toNat = 2 ^ (w - b) - 1 := by
  rw [BitVec.toNat_ushiftRight, BitVec.toNat_allOnes, Nat.shiftRight_eq_div_pow]
  apply Nat.eq_of_testBit_eq
  intro i
  have hbits : i + b < w ↔ i < w - b := by omega
  rw [Nat.testBit_div_two_pow, Nat.testBit_two_pow_sub_one, Nat.testBit_two_pow_sub_one,
    decide_eq_decide.2 hbits]

end Subnet
end Lib
end UtilsC
