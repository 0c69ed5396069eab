import UtilsC.Lib.Hex
import UtilsC.Lib.Bytes

/-!
# MAC addresses as text

The parser, the printer and the two normalisers of `uc_util.c`.

* A pointer into a string is the memory from there on; a read behind it is `none`.
* `uint8_t[UC_MAC_LEN_BYTES]` is a `MacDigit` and `char[UC_MAC_LEN_STR_00]` a `MacStr`.
* The parser reads what `Lib.Reads` says (`ucUtilsMacHexstrToDigit_reads`), so its language is
  that of six groups, and what the printer writes is among it.
-/

namespace UtilsC
namespace Util

open Lib

def ucMacLenBytes : Nat := 6

def ucMacLenStr00 : Nat := 18

/-- `uint8_t mac_digit[UC_MAC_LEN_BYTES]`. -/
structure MacDigit where
  bytes : List UInt8
  size : bytes.length = ucMacLenBytes
  deriving DecidableEq, Repr

/-- `char mac_hex_str[UC_MAC_LEN_STR_00]`. -/
structure MacStr where
  chars : List UInt8
  size : chars.length = ucMacLenStr00
  deriving DecidableEq, Repr

namespace MacDigit

def zero : MacDigit :=
  { bytes := List.replicate ucMacLenBytes 0, size := rfl }

def set (d : MacDigit) (i : Nat) (val : UInt8) : MacDigit :=
  { bytes := d.bytes.set i val, size := by rw [List.length_set, d.size] }

theorem ext {d d' : MacDigit} (h : d.bytes = d'.bytes) : d = d' := by
  cases d
  cases d'
  cases h
  rfl

end MacDigit

namespace MacStr

def set (str : MacStr) (i : Nat) (c : UInt8) : MacStr :=
  { chars := str.chars.set i c, size := by rw [List.length_set, str.size] }

theorem ext {str str' : MacStr} (h : str.chars = str'.chars) : str = str' := by
  cases str
  cases str'
  cases h
  rfl

end MacStr

/-! ## The functions -/

/-- The chain of digit tests, the same for both digits of a byte. -/
def hexstrDigit (c : UInt8) : Option UInt8 :=
  if 65 ≤ c ∧ c ≤ 70 then some (c - 65 + 10)
  else if 97 ≤ c ∧ c ≤ 102 then some (c - 97 + 10)
  else if 48 ≤ c ∧ c ≤ 57 then some (c - 48)
  else none

/-- The loop from `pos` and `i` on: what it returns, or the `i` it ends with. -/
def macLoop (i : Nat) (macDigit : MacDigit) : List UInt8 → Option ((Int ⊕ Nat) × MacDigit)
  -- `i` is tested first, so nothing is read behind the sixth byte
  | [] => if i < ucMacLenBytes then none else some (.inr i, macDigit)
  | c :: pos =>
      if i < ucMacLenBytes then
        if c = 0 then
          some (.inr i, macDigit)
        else
          match hexstrDigit c with
          | none => macLoop i macDigit pos
          | some hi =>
              match pos with
              | [] => none
              | c' :: pos =>
                  match hexstrDigit c' with
                  | none => some (.inl (-1), macDigit)
                  | some lo => macLoop (i + 1) (macDigit.set i (hi <<< 4 ||| lo)) pos
      else
        some (.inr i, macDigit)

def ucUtilsMacHexstrToDigit (macHexStr : List UInt8) (macDigit : MacDigit) :
    Option (Int × MacDigit) :=
  match macLoop 0 macDigit macHexStr with
  | none => none
  | some (.inl ret, macDigit) => some (ret, macDigit)
  | some (.inr i, macDigit) => some (if i = ucMacLenBytes then 0 else -1, macDigit)

/-- What `sprintf` prints: `%02x` six times, and a colon between two of them. -/
def macText (macDigit : MacDigit) : List UInt8 :=
  List.intercalate [58] (macDigit.bytes.map hexPair)

/-- `none` where `sprintf` would write past the end of the array. -/
def ucUtilsMacDigitToHexstr (macHexStr : MacStr) (macDigit : MacDigit) : Option (Int × MacStr) :=
  match h : overwrite macHexStr.chars 0 (macText macDigit ++ [0]) with
  | none => none
  | some chars =>
      some (if (macText macDigit).length = ucMacLenStr00 - 1 then 0 else -1,
        { chars := chars, size := by rw [overwrite_length h, macHexStr.size] })

def ucUtilsMacHexstrToLower (macHexStr : List UInt8) (lower : MacStr) : Option (Int × MacStr) :=
  let lower := lower.set 0 0
  match ucUtilsMacHexstrToDigit macHexStr .zero with
  | none => none
  | some (ret, macDigit) =>
      if ret ≠ 0 then some (ret, lower) else ucUtilsMacDigitToHexstr lower macDigit

/-- One step of the loop of `uc_utils_mac_to_lower`. -/
def lowerChar (c : UInt8) : UInt8 :=
  if 65 ≤ c ∧ c ≤ 90 then c + 32 else c

def lowerLoop (macHexStr : List UInt8) : Nat → List UInt8
  | 0 => macHexStr
  | n + 1 => (lowerLoop macHexStr n).modify n lowerChar

theorem lowerLoop_length (macHexStr : List UInt8) (n : Nat) :
    (lowerLoop macHexStr n).length = macHexStr.length := by
  induction n with
  | zero => rfl
  | succ n ih => rw [lowerLoop, List.length_modify, ih]

def ucUtilsMacToLower (macHexStr : MacStr) : MacStr :=
  let str := macHexStr.set (ucMacLenStr00 - 1) 0
  { chars := lowerLoop str.chars (ucMacLenStr00 - 1),
    size := by rw [lowerLoop_length, str.size] }

/-! ## The parser -/

theorem hexstrDigit_eq (c : UInt8) : hexstrDigit c = (hexVal c).map UInt8.ofNat := by
  -- one comparison for each byte
  have hall : ∀ n : Fin 256, hexstrDigit (UInt8.ofFin n) =
      (hexVal (UInt8.ofFin n)).map UInt8.ofNat := by decide +kernel
  exact hall c.toFin

theorem hexstrDigit_byte {hi lo : UInt8} {v w : Nat} (hhi : hexVal hi = some v)
    (hlo : hexVal lo = some w) :
    (UInt8.ofNat v <<< 4 ||| UInt8.ofNat w) = UInt8.ofNat (16 * v + w) := by
  have hall : ∀ v w : Fin 16, (UInt8.ofNat v.val <<< 4 ||| UInt8.ofNat w.val) =
      UInt8.ofNat (16 * v.val + w.val) := by decide
  exact hall ⟨v, hexVal_lt hhi⟩ ⟨w, hexVal_lt hlo⟩

section Parser

variable (d : MacDigit)

theorem macLoop_full (mem : List UInt8) : macLoop ucMacLenBytes d mem = some (.inr 6, d) := by
  cases mem with
  | nil => rfl
  | cons c mem => rw [macLoop, if_neg (Nat.lt_irrefl _)]; rfl

variable {d} {i : Nat} {c : UInt8} {mem : List UInt8}

theorem macLoop_nul (hi : i < ucMacLenBytes) : macLoop i d (0 :: mem) = some (.inr i, d) := by
  rw [macLoop, if_pos hi, if_pos rfl]

theorem macLoop_skip (hi : i < ucMacLenBytes) (hc0 : c ≠ 0) (hc : hexVal c = none) :
    macLoop i d (c :: mem) = macLoop i d mem := by
  have hdigit : hexstrDigit c = none := by rw [hexstrDigit_eq, hc]; rfl
  rw [macLoop, if_pos hi, if_neg hc0, hdigit]

theorem macLoop_half {v : Nat} {c' : UInt8} (hi : i < ucMacLenBytes) (hc0 : c ≠ 0)
    (hc : hexVal c = some v) (hc' : hexVal c' = none) :
    macLoop i d (c :: c' :: mem) = some (.inl (-1), d) := by
  have hdigit : hexstrDigit c = some (UInt8.ofNat v) := by rw [hexstrDigit_eq, hc]; rfl
  have hdigit' : hexstrDigit c' = none := by rw [hexstrDigit_eq, hc']; rfl
  rw [macLoop, if_pos hi, if_neg hc0, hdigit]
  simp only [hdigit']

theorem macLoop_pair {v w : Nat} {c' : UInt8} (hi : i < ucMacLenBytes) (hc0 : c ≠ 0)
    (hc : hexVal c = some v) (hc' : hexVal c' = some w) :
    macLoop i d (c :: c' :: mem) = macLoop (i + 1) (d.set i (UInt8.ofNat (16 * v + w))) mem := by
  have hdigit : hexstrDigit c = some (UInt8.ofNat v) := by rw [hexstrDigit_eq, hc]; rfl
  have hdigit' : hexstrDigit c' = some (UInt8.ofNat w) := by rw [hexstrDigit_eq, hc']; rfl
  rw [macLoop, if_pos hi, if_neg hc0, hdigit]
  simp only [hdigit', hexstrDigit_byte hc hc']

end Parser

theorem MacDigit.take_set {d : MacDigit} {i : Nat} (hi : i < ucMacLenBytes) (val : UInt8) :
    (d.set i val).bytes.take (i + 1) = d.bytes.take i ++ [val] := by
  have hlen : i < d.bytes.length := by rw [d.size]; exact hi
  rw [MacDigit.set, List.take_set, List.take_succ_eq_append_getElem hlen,
    List.set_append_right _ _ (by simp)]
  simp [Nat.min_eq_left hlen.le]

/-- What the loop has done when it ends, having begun at `i` with `n` bytes to go. -/
inductive MacEnd (n i : Nat) (s : List UInt8) (d : MacDigit) : Int ⊕ Nat → MacDigit → Prop
  | stored {bs : List UInt8} {d' : MacDigit} (hreads : Reads n s bs)
      (hbytes : d'.bytes = d.bytes.take i ++ bs) : MacEnd n i s d (.inr ucMacLenBytes) d'
  | short {j : Nat} {d' : MacDigit} (hj : j < ucMacLenBytes) (hno : ∀ bs, ¬ Reads n s bs) :
      MacEnd n i s d (.inr j) d'
  | half {d' : MacDigit} (hno : ∀ bs, ¬ Reads n s bs) : MacEnd n i s d (.inl (-1)) d'

/-- The loop ends inside the string, whatever lies behind its terminator. -/
theorem macLoop_ends : ∀ (s : List UInt8) (n i : Nat) (d : MacDigit), 0 ∉ s →
    i + n = ucMacLenBytes → ∃ r d', (∀ behind, macLoop i d (s ++ 0 :: behind) = some (r, d')) ∧
      MacEnd n i s d r d'
  | s, 0, i, d, _, hn => by
      cases (Nat.add_zero i).symm.trans hn
      refine ⟨_, d, fun behind => macLoop_full d _, .stored (.done s) ?_⟩
      rw [← d.size, List.take_length, List.append_nil]
  | [], n + 1, i, d, _, hn => by
      have hi : i < ucMacLenBytes := by omega
      exact ⟨_, d, fun behind => macLoop_nul hi, .short hi fun bs => not_reads_nil⟩
  | c :: s, n + 1, i, d, hs, hn => by
      have hi : i < ucMacLenBytes := by omega
      have hc0 : c ≠ 0 := fun h => hs (by simp [h])
      have hs' : 0 ∉ s := fun h => hs (List.mem_cons_of_mem c h)
      cases hc : hexVal c with
      | none =>
          -- `continue` leads to the `pos++` of the loop alone
          rcases macLoop_ends s (n + 1) i d hs' hn with ⟨r, d', hrun, hend⟩
          refine ⟨r, d', fun behind => (macLoop_skip hi hc0 hc).trans (hrun behind), ?_⟩
          cases hend with
          | stored hreads hbytes => exact .stored (.skip hc hreads) hbytes
          | short hj hno => exact .short hj fun bs h => hno bs ((reads_skip_iff hc).1 h)
          | half hno => exact .half fun bs h => hno bs ((reads_skip_iff hc).1 h)
      | some v =>
          cases s with
          | nil =>
              -- the terminator is no digit, so the second `pos++` does not pass it either
              refine ⟨_, d, fun behind => macLoop_half hi hc0 hc hexVal_zero, .half fun bs => ?_⟩
              exact not_reads_half hc (by simp)
          | cons c' s =>
              cases hc' : hexVal c' with
              | none =>
                  refine ⟨_, d, fun behind => macLoop_half hi hc0 hc hc', .half fun bs => ?_⟩
                  exact not_reads_half hc (by simpa using hc')
              | some w =>
                  have hs'' : 0 ∉ s := fun h => hs' (List.mem_cons_of_mem c' h)
                  have hn' : i + 1 + n = ucMacLenBytes := by omega
                  rcases macLoop_ends s n (i + 1) (d.set i (UInt8.ofNat (16 * v + w))) hs'' hn'
                    with ⟨r, d', hrun, hend⟩
                  refine ⟨r, d', fun behind => (macLoop_pair hi hc0 hc hc').trans (hrun behind), ?_⟩
                  cases hend with
                  | stored hreads hbytes =>
                      rw [MacDigit.take_set hi, List.append_assoc] at hbytes
                      exact .stored (.pair hc hc' hreads) hbytes
                  | short hj hno =>
                      refine .short hj fun bs h => ?_
                      rcases (reads_pair_iff hc hc').1 h with ⟨rest, _, hrest⟩
                      exact hno rest hrest
                  | half hno =>
                      refine .half fun bs h => ?_
                      rcases (reads_pair_iff hc hc').1 h with ⟨rest, _, hrest⟩
                      exact hno rest hrest

section Parsing

variable {s bs : List UInt8}

theorem ucUtilsMacHexstrToDigit_reads (hs : 0 ∉ s) (hreads : Reads 6 s bs) (d : MacDigit) :
    ∃ d', d'.bytes = bs ∧
      ∀ behind, ucUtilsMacHexstrToDigit (s ++ 0 :: behind) d = some (0, d') := by
  rcases macLoop_ends s 6 0 d hs rfl with ⟨r, d', hrun, hend⟩
  cases hend with
  | stored hreads' hbytes =>
      refine ⟨d', ?_, fun behind => ?_⟩
      · rw [hbytes, List.take_zero, List.nil_append, hreads'.unique hreads]
      · rw [ucUtilsMacHexstrToDigit, hrun behind]
        rfl
  | short _ hno => exact absurd hreads (hno bs)
  | half hno => exact absurd hreads (hno bs)

theorem ucUtilsMacHexstrToDigit_not_reads (hs : 0 ∉ s) (hno : ∀ bs, ¬ Reads 6 s bs)
    (d : MacDigit) :
    ∃ d', ∀ behind, ucUtilsMacHexstrToDigit (s ++ 0 :: behind) d = some (-1, d') := by
  rcases macLoop_ends s 6 0 d hs rfl with ⟨r, d', hrun, hend⟩
  refine ⟨d', fun behind => ?_⟩
  rw [ucUtilsMacHexstrToDigit, hrun behind]
  cases hend with
  | stored hreads _ => exact absurd hreads (hno _)
  | short hj _ => simp only [if_neg (Nat.ne_of_lt hj)]
  | half _ => rfl

/-- A string that was accepted begins with the six groups of the bytes stored. -/
theorem reads_of_ucUtilsMacHexstrToDigit {behind : List UInt8} {d d' : MacDigit} (hs : 0 ∉ s)
    (h : ucUtilsMacHexstrToDigit (s ++ 0 :: behind) d = some (0, d')) : Reads 6 s d'.bytes := by
  by_cases hreads : ∃ bs, Reads 6 s bs
  · rcases hreads with ⟨bs, hbs⟩
    rcases ucUtilsMacHexstrToDigit_reads hs hbs d with ⟨d'', hbytes, hrun⟩
    rw [hrun behind] at h
    cases h
    rwa [hbytes]
  · have hno : ∀ bs, ¬ Reads 6 s bs := fun bs hbs => hreads ⟨bs, hbs⟩
    rcases ucUtilsMacHexstrToDigit_not_reads hs hno d with ⟨d'', hrun⟩
    rw [hrun behind] at h
    cases h

/-- The parser ends inside the string; it accepts those that begin with six groups, and
stores the bytes of these. -/
theorem ucUtilsMacHexstrToDigit_language (hs : 0 ∉ s) (macDigit : MacDigit) :
    ∃ ret macDigit',
      (∀ behind, ucUtilsMacHexstrToDigit (s ++ 0 :: behind) macDigit = some (ret, macDigit')) ∧
      (ret = 0 ∨ ret = -1) ∧
      (ret = 0 ↔ ∃ gs : List HexGroup, gs.length = 6 ∧ gs.flatMap HexGroup.text <+: s) ∧
      ∀ gs : List HexGroup, gs.length = 6 → gs.flatMap HexGroup.text <+: s →
        macDigit'.bytes = gs.map HexGroup.byte := by
  by_cases hreads : ∃ bs, Reads 6 s bs
  · rcases hreads with ⟨bs, hbs⟩
    rcases ucUtilsMacHexstrToDigit_reads hs hbs macDigit with ⟨d', hbytes, hrun⟩
    refine ⟨0, d', hrun, .inl rfl, ⟨fun _ => ?_, fun _ => rfl⟩, fun gs hlen hprefix => ?_⟩
    · rcases reads_iff.1 hbs with ⟨gs, hlen, hprefix, _⟩
      exact ⟨gs, hlen, hprefix⟩
    · have hgs : Reads 6 s (gs.map HexGroup.byte) := reads_iff.2 ⟨gs, hlen, hprefix, rfl⟩
      rw [hbytes, hbs.unique hgs]
  · have hno : ∀ gs : List HexGroup, gs.length = 6 → ¬ gs.flatMap HexGroup.text <+: s :=
      fun gs hlen hprefix => hreads ⟨_, reads_iff.2 ⟨gs, hlen, hprefix, rfl⟩⟩
    rcases ucUtilsMacHexstrToDigit_not_reads hs (fun bs hbs => hreads ⟨bs, hbs⟩) macDigit
      with ⟨d', hrun⟩
    refine ⟨-1, d', hrun, .inr rfl, ⟨fun h => ?_, fun h => ?_⟩, fun gs hlen hprefix => ?_⟩
    · cases h
    · rcases h with ⟨gs, hlen, hprefix⟩
      exact absurd hprefix (hno gs hlen)
    · exact absurd hprefix (hno gs hlen)

end Parsing

/-- `"0A:1b--2c3D4e 5f!"`. -/
theorem ucUtilsMacHexstrToDigit_language_mixed :
    let s : List UInt8 := [48, 65, 58, 49, 98, 45, 45, 50, 99, 51, 68, 52, 101, 32, 53, 102, 33]
    ∃ ret macDigit',
      (∀ behind, ucUtilsMacHexstrToDigit (s ++ 0 :: behind) .zero = some (ret, macDigit')) ∧
      (ret = 0 ∨ ret = -1) ∧
      (ret = 0 ↔ ∃ gs : List HexGroup, gs.length = 6 ∧ gs.flatMap HexGroup.text <+: s) ∧
      ∀ gs : List HexGroup, gs.length = 6 → gs.flatMap HexGroup.text <+: s →
        macDigit'.bytes = gs.map HexGroup.byte :=
  ucUtilsMacHexstrToDigit_language (by decide) .zero

/-! ## The printer and the normalisers -/

theorem reads_colon (gs : List HexGroup) :
    Reads gs.length (List.intercalate [58] (gs.map HexGroup.text)) (gs.map HexGroup.byte) := by
  refine reads_intercalate (fun c hc => ?_) gs
  rw [List.mem_singleton.1 hc]
  rfl

theorem reads_macText (d : MacDigit) : Reads 6 (macText d) d.bytes := by
  have hreads := reads_colon (d.bytes.map HexGroup.ofByte)
  have htext : (d.bytes.map HexGroup.ofByte).map HexGroup.text = d.bytes.map hexPair := by
    rw [List.map_map]
    exact List.map_congr_left fun b _ => HexGroup.text_ofByte b
  have hbytes : (d.bytes.map HexGroup.ofByte).map HexGroup.byte = d.bytes := by
    rw [List.map_map]
    exact (List.map_congr_left fun b _ => HexGroup.byte_ofByte b).trans (List.map_id _)
  rwa [htext, hbytes, List.length_map, d.size] at hreads

theorem macText_length (d : MacDigit) : (macText d).length = 17 := by
  have hne : d.bytes ≠ [] := by
    intro h
    have hsize := d.size
    rw [h] at hsize
    cases hsize
  have hlen := length_intercalate_hexPair 58 d.bytes hne
  rw [d.size] at hlen
  exact Nat.succ.inj hlen

theorem nul_not_mem_macText (d : MacDigit) : 0 ∉ macText d := by
  intro h
  rcases mem_intercalate_hexPair d.bytes h with hsep | hdigit
  · cases List.mem_singleton.1 hsep
  · rw [hexVal_zero] at hdigit
    cases hdigit

/-- What `lower` holds when the text of `d` has been written. -/
def macOut (d : MacDigit) : MacStr :=
  { chars := macText d ++ [0], size := by rw [List.length_append, macText_length]; rfl }

theorem ucUtilsMacDigitToHexstr_eq (out : MacStr) (d : MacDigit) :
    ucUtilsMacDigitToHexstr out d = some (0, macOut d) := by
  have hlen : (macText d ++ [0]).length = out.chars.length := by
    rw [out.size]
    exact (macOut d).size
  have hwrite : overwrite out.chars 0 (macText d ++ [0]) = some (macText d ++ [0]) := by
    have happ : overwrite ([] ++ out.chars) 0 _ = _ := overwrite_append (Nat.le_of_eq hlen)
    rwa [hlen, List.drop_length, List.append_nil] at happ
  have hprinted : (macText d).length = ucMacLenStr00 - 1 := macText_length d
  unfold ucUtilsMacDigitToHexstr
  split
  · rename_i hnone
    rw [hwrite] at hnone
    cases hnone
  · rename_i chars hsome
    rw [hwrite] at hsome
    cases hsome
    rw [if_pos hprinted]
    rfl

/-- What the printer wrote is parsed to the bytes it was given. -/
theorem ucUtilsMacHexstrToDigit_macOut (d d₀ : MacDigit) :
    ucUtilsMacHexstrToDigit (macOut d).chars d₀ = some (0, d) := by
  rcases ucUtilsMacHexstrToDigit_reads (nul_not_mem_macText d) (reads_macText d) d₀ with
    ⟨d', hbytes, hrun⟩
  cases MacDigit.ext hbytes
  exact hrun []

section Lower

variable {s : List UInt8} {d d₀ : MacDigit}

theorem ucUtilsMacHexstrToLower_eq {mem : List UInt8}
    (h : ucUtilsMacHexstrToDigit mem .zero = some (0, d)) (lower : MacStr) :
    ucUtilsMacHexstrToLower mem lower = some (0, macOut d) := by
  rw [ucUtilsMacHexstrToLower]
  simp only [h, ucUtilsMacDigitToHexstr_eq]
  rfl

/-- A string that is accepted is accepted whatever the array held before. -/
theorem ucUtilsMacHexstrToDigit_again {behind : List UInt8} (hs : 0 ∉ s)
    (h : ucUtilsMacHexstrToDigit (s ++ 0 :: behind) d₀ = some (0, d)) (d₁ : MacDigit) :
    ucUtilsMacHexstrToDigit (s ++ 0 :: behind) d₁ = some (0, d) := by
  have hreads := reads_of_ucUtilsMacHexstrToDigit hs h
  rcases ucUtilsMacHexstrToDigit_reads hs hreads d₁ with ⟨d', hbytes, hrun⟩
  cases MacDigit.ext hbytes
  exact hrun behind

end Lower

/-! ### Lowering in place -/

theorem lowerLoop_getElem? (str : List UInt8) (n j : Nat) :
    (lowerLoop str n)[j]? = if j < n then str[j]?.map lowerChar else str[j]? := by
  induction n with
  | zero => rfl
  | succ n ih =>
      rw [lowerLoop, List.getElem?_modify, ih]
      rcases Nat.lt_trichotomy j n with hlt | rfl | hgt
      · simp only [if_neg (Nat.ne_of_gt hlt), if_pos hlt, if_pos (Nat.lt_succ_of_lt hlt)]
        exact id_map _
      · simp only [if_neg (Nat.lt_irrefl j), if_pos (Nat.lt_succ_self j)]
        rfl
      · have hgt' : ¬ j < n + 1 := Nat.not_lt.2 hgt
        simp only [if_neg (Nat.ne_of_lt hgt), if_neg (Nat.lt_asymm hgt), if_neg hgt']
        exact id_map _

theorem lowerLoop_append (text rest : List UInt8) :
    lowerLoop (text ++ rest) text.length = text.map lowerChar ++ rest := by
  apply List.ext_getElem?
  intro j
  rw [lowerLoop_getElem?]
  split_ifs with hj
  · rw [List.getElem?_append_left hj, List.getElem?_append_left (by simpa using hj),
      List.getElem?_map]
  · have hj' := Nat.le_of_not_lt hj
    rw [List.getElem?_append_right hj', List.getElem?_append_right (by simpa using hj'),
      List.length_map]

/-- A digit of either case becomes the one that `%x` prints. -/
theorem lowerChar_digit {c : UInt8} {v : Nat} (hc : hexVal c = some v) :
    lowerChar c = hexDigit v := by
  have hall : ∀ n : Fin 256, ∀ v ∈ hexVal (UInt8.ofFin n),
      lowerChar (UInt8.ofFin n) = hexDigit v := by decide +kernel
  exact hall c.toFin v hc

/-- Six pairs of digits with a colon between two of them. -/
structure ColonMac where
  groups : List HexGroup
  six : groups.length = ucMacLenBytes
  bare : ∀ g ∈ groups, g.sep = []

namespace ColonMac

def text (m : ColonMac) : List UInt8 :=
  List.intercalate [58] (m.groups.map HexGroup.text)

def digit (m : ColonMac) : MacDigit :=
  { bytes := m.groups.map HexGroup.byte, size := by rw [List.length_map, m.six] }

theorem reads (m : ColonMac) : Reads 6 m.text m.digit.bytes := by
  have hreads := reads_colon m.groups
  rwa [m.six] at hreads

end ColonMac

theorem map_lowerChar_group {g : HexGroup} (hbare : g.sep = []) :
    g.text.map lowerChar = hexPair g.byte := by
  rcases Option.isSome_iff_exists.1 g.hi_some with ⟨v, hv⟩
  rcases Option.isSome_iff_exists.1 g.lo_some with ⟨w, hw⟩
  rw [HexGroup.hexPair_byte hv hw, HexGroup.text, hbare, ← lowerChar_digit hv,
    ← lowerChar_digit hw]
  rfl

theorem map_lowerChar_intercalate :
    ∀ gs : List HexGroup, (∀ g ∈ gs, g.sep = []) →
      (List.intercalate [58] (gs.map HexGroup.text)).map lowerChar =
        List.intercalate [58] ((gs.map HexGroup.byte).map hexPair)
  | [], _ => rfl
  | [g], hbare => by
      simpa [List.intercalate] using map_lowerChar_group (hbare g (by simp))
  | g :: g' :: gs, hbare => by
      have ih := map_lowerChar_intercalate (g' :: gs) fun g'' h => hbare g'' (by simp [h])
      have hcolon : ([58] : List UInt8).map lowerChar = [58] := rfl
      simp only [List.map_cons, List.intercalate_cons_cons, List.map_append, hcolon,
        map_lowerChar_group (hbare g (by simp))] at ih ⊢
      rw [ih]

/-- In place, a MAC with colons becomes what the printer writes. -/
theorem ucUtilsMacToLower_colonMac {m : ColonMac} {str : MacStr} {last : UInt8}
    (h : str.chars = m.text ++ [last]) : ucUtilsMacToLower str = macOut m.digit := by
  have hlower : m.text.map lowerChar = macText m.digit :=
    map_lowerChar_intercalate m.groups m.bare
  have hlen : m.text.length = ucMacLenStr00 - 1 := by
    rw [← List.length_map (f := lowerChar), hlower, macText_length]
    rfl
  have hset : (m.text ++ [last]).set (ucMacLenStr00 - 1) 0 = m.text ++ [0] := by
    rw [← hlen, List.set_append_right _ _ (Nat.le_refl _), Nat.sub_self]
    rfl
  apply MacStr.ext
  simp only [ucUtilsMacToLower, MacStr.set, h, hset, macOut]
  rw [← hlen, lowerLoop_append, hlower]

theorem nul_not_mem_colonMac (m : ColonMac) : 0 ∉ m.text := by
  intro hmem
  have hmem' : lowerChar 0 ∈ m.text.map lowerChar := List.mem_map_of_mem hmem
  rw [ColonMac.text, map_lowerChar_intercalate m.groups m.bare] at hmem'
  exact nul_not_mem_macText m.digit hmem'

/-- Printing and parsing are inverse; the normal form of what is accepted has the same bytes
and is its own normal form; lowering a MAC with colons in place gives its normal form. -/
theorem ucUtilsMac_roundTrip :
    (∀ (b d₀ : MacDigit) (str : MacStr), ∃ out, ucUtilsMacDigitToHexstr str b = some (0, out) ∧
      ucUtilsMacHexstrToDigit out.chars d₀ = some (0, b)) ∧
    (∀ (s behind : List UInt8) (d₀ d : MacDigit) (lower : MacStr), 0 ∉ s →
      ucUtilsMacHexstrToDigit (s ++ 0 :: behind) d₀ = some (0, d) →
      ∃ c, ucUtilsMacHexstrToLower (s ++ 0 :: behind) lower = some (0, c) ∧
        (∃ text, 0 ∉ text ∧ c.chars = text ++ [0]) ∧
        (∀ d₁, ucUtilsMacHexstrToDigit c.chars d₁ = some (0, d)) ∧
        ∀ lower', ucUtilsMacHexstrToLower c.chars lower' = some (0, c)) ∧
    ∀ (m : ColonMac) (str lower : MacStr), str.chars = m.text ++ [0] →
      ucUtilsMacHexstrToLower str.chars lower = some (0, ucUtilsMacToLower str) := by
  refine ⟨fun b d₀ str => ?_, fun s behind d₀ d lower hs hd => ?_, fun m str lower hstr => ?_⟩
  · exact ⟨macOut b, ucUtilsMacDigitToHexstr_eq str b, ucUtilsMacHexstrToDigit_macOut b d₀⟩
  · -- the normal form is the text of the bytes, and these do not depend on the array
    have hzero := ucUtilsMacHexstrToDigit_again hs hd .zero
    have hfix := ucUtilsMacHexstrToLower_eq (ucUtilsMacHexstrToDigit_macOut d .zero)
    refine ⟨macOut d, ucUtilsMacHexstrToLower_eq hzero lower, ?_,
      ucUtilsMacHexstrToDigit_macOut d, hfix⟩
    exact ⟨macText d, nul_not_mem_macText d, rfl⟩
  · rcases ucUtilsMacHexstrToDigit_reads (nul_not_mem_colonMac m) m.reads .zero with
      ⟨d, hbytes, hrun⟩
    cases MacDigit.ext hbytes
    rw [ucUtilsMacToLower_colonMac hstr, hstr]
    exact ucUtilsMacHexstrToLower_eq (hrun []) lower

/-- `"0A1b2C3d4E5f"` and `"0A:1b:2C:3d:4E:5f"`. -/
theorem ucUtilsMac_roundTrip_mixed :
    let text : List UInt8 := [48, 65, 49, 98, 50, 67, 51, 100, 52, 69, 53, 102]
    let colons : MacStr :=
      { chars := [48, 65, 58, 49, 98, 58, 50, 67, 58, 51, 100, 58, 52, 69, 58, 53, 102, 0]
        size := rfl }
    (∃ c, ucUtilsMacHexstrToLower (text ++ [0]) (macOut .zero) = some (0, c) ∧
      (∃ lower, 0 ∉ lower ∧ c.chars = lower ++ [0]) ∧
      (∀ d₁, ucUtilsMacHexstrToDigit c.chars d₁ =
        some (0, { bytes := [10, 27, 44, 61, 78, 95], size := rfl })) ∧
      ∀ lower', ucUtilsMacHexstrToLower c.chars lower' = some (0, c)) ∧
    ucUtilsMacHexstrToLower colons.chars (macOut .zero) = some (0, ucUtilsMacToLower colons) := by
  intro text colons
  refine ⟨ucUtilsMac_roundTrip.2.1 text [] .zero _ (macOut .zero) (by decide) (by decide), ?_⟩
  let group (hi lo : UInt8) (hhi : (hexVal hi).isSome) (hlo : (hexVal lo).isSome) : HexGroup :=
    { sep := [], hi := hi, lo := lo, sep_none := by simp, hi_some := hhi, lo_some := hlo }
  let m : ColonMac :=
    { groups := [group 48 65 rfl rfl, group 49 98 rfl rfl, group 50 67 rfl rfl,
        group 51 100 rfl rfl, group 52 69 rfl rfl, group 53 102 rfl rfl]
      six := rfl
      bare := by simp [group] }
  exact ucUtilsMac_roundTrip.2.2 m colons (macOut .zero) rfl

end Util
end UtilsC
