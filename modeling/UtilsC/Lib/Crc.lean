import UtilsC.Lib.Bytes
import Mathlib.Logic.Function.Iterate

/-!
# Cyclic redundancy checks

A reflected CRC is a shift register that moves towards its low end.  For every bit that falls out
as 1 the polynomial is added (xored) to what is left; a byte of input is added at the low end and
then eight bits are shifted out.  The register has any width.

* `bits_xor`: the register is linear;
* `tableStep_eq`: a table of the 256 possible bytes does the eight steps at once;
* `run_eq_bits`: on a string that fits the register, a run is a number of steps from one xor;
* `run_injective`: with the top bit in the polynomial such strings never collide.
-/

namespace UtilsC
namespace Lib
namespace Crc

variable {w : Nat}

/-- Shift one bit out. -/
def bitStep (poly c : BitVec w) : BitVec w :=
  if c.getLsbD 0 then (c >>> 1) ^^^ poly else c >>> 1

/-- Shift a number of bits out. -/
def bits (poly : BitVec w) : Nat → BitVec w → BitVec w
  | 0, c => c
  | n + 1, c => bits poly n (bitStep poly c)

/-- A byte is xored into the low end and shifted through. -/
def byteStep (poly c : BitVec w) (b : UInt8) : BitVec w :=
  bits poly 8 (c ^^^ b.toBitVec.setWidth w)

/-- The register after a string of bytes. -/
def run (poly c : BitVec w) (s : List UInt8) : BitVec w :=
  s.foldl (byteStep poly) c

/-- The byte step by a table of the bytes that are shifted out. -/
def tableStep (tab : BitVec 8 → BitVec w) (c : BitVec w) (b : UInt8) : BitVec w :=
  tab (c.setWidth 8 ^^^ b.toBitVec) ^^^ (c >>> 8)

section Linear

variable (poly c d : BitVec w)

theorem bitStep_xor : bitStep poly (c ^^^ d) = bitStep poly c ^^^ bitStep poly d := by
  have hshift : (c ^^^ d) >>> 1 = (c >>> 1) ^^^ (d >>> 1) := BitVec.ushiftRight_xor_distrib c d 1
  unfold bitStep
  rw [BitVec.getLsbD_xor, hshift]
  cases hc : c.getLsbD 0 with
  | false =>
      cases hd : d.getLsbD 0 with
      | false => simp
      | true => simp [BitVec.xor_assoc]
  | true =>
      cases hd : d.getLsbD 0 with
      | false => simp [BitVec.xor_assoc, BitVec.xor_comm poly]
      | true =>
          -- the polynomial is added twice
          have htwice : (c >>> 1) ^^^ poly ^^^ ((d >>> 1) ^^^ poly) =
              (c >>> 1) ^^^ (d >>> 1) ^^^ (poly ^^^ poly) := by
            ac_rfl
          simp [htwice]

theorem bits_xor (n : Nat) : bits poly n (c ^^^ d) = bits poly n c ^^^ bits poly n d := by
  induction n generalizing c d with
  | zero => rfl
  | succ n ih =>
      rw [bits, bitStep_xor]
      exact ih _ _

theorem bits_add (m n : Nat) : bits poly (m + n) c = bits poly n (bits poly m c) := by
  induction m generalizing c with
  | zero => rw [Nat.zero_add, bits]
  | succ m ih =>
      rw [Nat.succ_add, bits, bits]
      exact ih _

end Linear

/-- Zeros that fall out leave a shift. -/
theorem bits_of_low_zero (poly : BitVec w) :
    ∀ (n : Nat) (c : BitVec w), (∀ i < n, c.getLsbD i = false) → bits poly n c = c >>> n
  | 0, c, _ => by simp [bits]
  | n + 1, c, hlow => by
      have hstep : bitStep poly c = c >>> 1 := by
        rw [bitStep, hlow 0 (Nat.succ_pos n)]
        rfl
      have hrest : ∀ i < n, (c >>> 1).getLsbD i = false := by
        intro i hi
        rw [BitVec.getLsbD_ushiftRight]
        exact hlow (1 + i) (by omega)
      calc
        bits poly (n + 1) c = bits poly n (c >>> 1) := by rw [bits, hstep]
        _ = c >>> 1 >>> n := bits_of_low_zero poly n _ hrest
        _ = c >>> (n + 1) := by rw [← BitVec.shiftRight_add, Nat.add_comm]

/-! ## The table -/

/-- A register is its low byte and what is above it. -/
theorem eq_low_xor_high (c : BitVec w) :
    c = (c.setWidth 8).setWidth w ^^^ (c >>> 8 <<< 8) := by
  apply BitVec.eq_of_getLsbD_eq
  intro i hi
  rw [BitVec.getLsbD_xor, BitVec.getLsbD_setWidth, BitVec.getLsbD_setWidth,
    BitVec.getLsbD_shiftLeft, BitVec.getLsbD_ushiftRight]
  by_cases hlow : i < 8
  · simp [hi, hlow]
  · have hsum : 8 + (i - 8) = i := by omega
    simp [hi, hlow, hsum]

theorem bits_shiftLeft (poly c : BitVec w) (n : Nat) :
    bits poly n (c <<< n) = c <<< n >>> n := by
  refine bits_of_low_zero poly n _ ?_
  intro i hi
  simp [BitVec.getLsbD_shiftLeft, hi]

theorem high_ushiftRight (c : BitVec w) : (c >>> 8 <<< 8) >>> 8 = c >>> 8 := by
  apply BitVec.eq_of_getLsbD_eq
  intro i hi
  rw [BitVec.getLsbD_ushiftRight, BitVec.getLsbD_shiftLeft, BitVec.getLsbD_ushiftRight]
  by_cases hin : 8 + i < w
  · simp [hin]
  · have hout : c.getLsbD (8 + i) = false := BitVec.getLsbD_of_ge c _ (Nat.not_lt.1 hin)
    simp [hin, hout]

/-- With the eight steps of every byte in the table, a table step is a byte step. -/
theorem tableStep_eq {poly : BitVec w} {tab : BitVec 8 → BitVec w}
    (htab : ∀ i, tab i = bits poly 8 (i.setWidth w)) :
    tableStep tab = byteStep poly := by
  funext c b
  have hlow : (c.setWidth 8 ^^^ b.toBitVec).setWidth w =
      (c.setWidth 8).setWidth w ^^^ b.toBitVec.setWidth w := BitVec.setWidth_xor
  have hsplit : c ^^^ b.toBitVec.setWidth w =
      (c.setWidth 8 ^^^ b.toBitVec).setWidth w ^^^ (c >>> 8 <<< 8) := by
    rw [hlow]
    conv => lhs; rw [eq_low_xor_high c]
    ac_rfl
  calc
    tableStep tab c b = bits poly 8 ((c.setWidth 8 ^^^ b.toBitVec).setWidth w) ^^^ (c >>> 8) := by
      rw [tableStep, htab]
    _ = bits poly 8 ((c.setWidth 8 ^^^ b.toBitVec).setWidth w) ^^^ bits poly 8 (c >>> 8 <<< 8) := by
      rw [bits_shiftLeft, high_ushiftRight]
    _ = byteStep poly c b := by rw [← bits_xor, ← hsplit, byteStep]

/-! ## Strings -/

theorem run_cons (poly c : BitVec w) (b : UInt8) (s : List UInt8) :
    run poly c (b :: s) = run poly (byteStep poly c b) s := rfl

/-- The string as a register, its first byte at the low end. -/
def word (w : Nat) (s : List UInt8) : BitVec w :=
  BitVec.ofNat w (leNat s)

theorem pow_bytes (n : Nat) : 256 ^ n = 2 ^ (8 * n) :=
  (pow_mul 2 8 n).symm

theorem toNat_word {s : List UInt8} (h : 8 * s.length ≤ w) : (word w s).toNat = leNat s := by
  have hpow : 256 ^ s.length ≤ 2 ^ w := by
    calc
      256 ^ s.length = 2 ^ (8 * s.length) := pow_bytes _
      _ ≤ 2 ^ w := Nat.pow_le_pow_right (by omega) h
  have hlt : leNat s < 2 ^ w := lt_of_lt_of_le (leNat_lt s) hpow
  rw [word, BitVec.toNat_ofNat, Nat.mod_eq_of_lt hlt]

theorem word_cons (b : UInt8) (s : List UInt8) :
    word w (b :: s) = b.toBitVec.setWidth w ^^^ (word w s <<< 8) := by
  apply BitVec.eq_of_getLsbD_eq
  intro i hi
  have hsum : leNat (b :: s) = 2 ^ 8 * leNat s + b.toNat := Nat.add_comm _ _
  have hbit := Nat.testBit_two_pow_mul_add (leNat s) b.toNat_lt i
  rw [word, BitVec.getLsbD_ofNat, hsum, hbit, BitVec.getLsbD_xor, BitVec.getLsbD_setWidth,
    BitVec.getLsbD_shiftLeft, word, BitVec.getLsbD_ofNat]
  have hbyte : b.toNat.testBit i = b.toBitVec.getLsbD i := rfl
  by_cases hlow : i < 8
  · simp [hi, hlow, hbyte]
  · have hhigh : b.toBitVec.getLsbD i = false := BitVec.getLsbD_of_ge _ _ (Nat.not_lt.1 hlow)
    have hin : i - 8 < w := lt_of_le_of_lt (Nat.sub_le i 8) hi
    simp [hi, hlow, hhigh, hin]

/-- What fits below the top byte comes back when it is shifted up and down. -/
theorem word_shiftLeft_ushiftRight {s : List UInt8} (h : 8 * s.length + 8 ≤ w) :
    (word w s <<< 8) >>> 8 = word w s := by
  have hword : (word w s).toNat = leNat s := toNat_word (by omega)
  have hlt : leNat s * 2 ^ 8 < 2 ^ w := by
    calc
      leNat s * 2 ^ 8 < 256 ^ s.length * 2 ^ 8 :=
        Nat.mul_lt_mul_of_pos_right (leNat_lt s) (by omega)
      _ = 2 ^ (8 * s.length + 8) := by rw [pow_bytes, pow_add]
      _ ≤ 2 ^ w := Nat.pow_le_pow_right (by omega) h
  apply BitVec.eq_of_toNat_eq
  rw [BitVec.toNat_ushiftRight, BitVec.toNat_shiftLeft, hword, Nat.shiftLeft_eq,
    Nat.mod_eq_of_lt hlt, Nat.shiftRight_eq_div_pow, Nat.mul_div_cancel _ (by omega)]

/-- A string that fits the register is one number, and the run a number of single steps. -/
theorem run_eq_bits (poly : BitVec w) :
    ∀ (s : List UInt8) (c : BitVec w), 8 * s.length ≤ w →
      run poly c s = bits poly (8 * s.length) (c ^^^ word w s)
  | [], c, _ => by simp [run, bits, word, leNat]
  | b :: s, c, h => by
      have hlen : 8 * (b :: s).length = 8 + 8 * s.length := by
        rw [List.length_cons, Nat.mul_succ, Nat.add_comm]
      have hroom : 8 * s.length + 8 ≤ w := by omega
      -- the rest of the string waits above the first byte and comes down with it
      have hrest : bits poly 8 (word w s <<< 8) = word w s := by
        rw [bits_shiftLeft, word_shiftLeft_ushiftRight hroom]
      calc
        run poly c (b :: s) = run poly (byteStep poly c b) s := run_cons poly c b s
        _ = bits poly (8 * s.length) (byteStep poly c b ^^^ word w s) :=
          run_eq_bits poly s _ (by omega)
        _ = bits poly (8 * s.length) (bits poly 8 (c ^^^ word w (b :: s))) := by
          rw [word_cons, ← BitVec.xor_assoc, bits_xor poly _ (word w s <<< 8), hrest, byteStep]
        _ = bits poly (8 * (b :: s).length) (c ^^^ word w (b :: s)) := by
          rw [hlen, bits_add]

/-! ## Strings that do not collide -/

section Injective

variable {poly : BitVec w}

/-- The bit that fell out can be read off the top, where the polynomial has left it. -/
theorem msb_bitStep (hpoly : poly.msb = true) (c : BitVec w) :
    (bitStep poly c).msb = c.getLsbD 0 := by
  have hzero : (c >>> 1).msb = false := by simp [BitVec.msb_ushiftRight]
  unfold bitStep
  cases hc : c.getLsbD 0 with
  | false => simp [hzero]
  | true => simp [hzero, hpoly]

theorem bitStep_injective (hpoly : poly.msb = true) : Function.Injective (bitStep poly) := by
  intro c d h
  have hbit : c.getLsbD 0 = d.getLsbD 0 := by
    rw [← msb_bitStep hpoly c, ← msb_bitStep hpoly d, h]
  have hshift : c >>> 1 = d >>> 1 := by
    unfold bitStep at h
    rw [hbit] at h
    split at h
    · exact (BitVec.xor_left_inj poly).1 h
    · exact h
  apply BitVec.eq_of_getLsbD_eq
  intro i _
  cases i with
  | zero => exact hbit
  | succ i =>
      have hnext := congrArg (fun x : BitVec w => x.getLsbD i) hshift
      simpa [BitVec.getLsbD_ushiftRight, Nat.add_comm] using hnext

theorem bits_injective (hpoly : poly.msb = true) (n : Nat) :
    Function.Injective (bits poly n) := by
  induction n with
  | zero => exact Function.injective_id
  | succ n ih => exact ih.comp (bitStep_injective hpoly)

/-- Different strings of one length that fits the register leave different registers. -/
theorem run_injective (hpoly : poly.msb = true) (c : BitVec w) {s t : List UInt8}
    (hlen : s.length = t.length) (hfits : 8 * s.length ≤ w) (h : run poly c s = run poly c t) :
    s = t := by
  have hfits' : 8 * t.length ≤ w := hlen ▸ hfits
  rw [run_eq_bits poly s c hfits, run_eq_bits poly t c hfits', hlen] at h
  have hword : word w s = word w t := (BitVec.xor_right_inj c).1 (bits_injective hpoly _ h)
  have hnat := congrArg BitVec.toNat hword
  rw [toNat_word hfits, toNat_word hfits'] at hnat
  exact leNat_injective hlen hnat

end Injective

end Crc
end Lib
end UtilsC
