import Mathlib.Data.List.Basic
import Mathlib.Data.List.Infix

/-!
# Hexadecimal digits

* `hexVal` reads a digit, in either case; `hexDigit` writes one, in lower case.
* A `HexGroup` is a pair of digits behind any number of other characters.
* `Reads n s bs`: the string `s` begins with `n` groups, and `bs` are their bytes.  There is one
  such reading at most (`Reads.unique`), and it is a prefix made of groups (`reads_iff`).
-/

namespace UtilsC
namespace Lib

/-! ## Digits -/

/-- The value of a digit `0`-`9`, `a`-`f` or `A`-`F`. -/
def hexVal (c : UInt8) : Option Nat :=
  if 48 ≤ c.toNat ∧ c.toNat ≤ 57 then some (c.toNat - 48)
  else if 97 ≤ c.toNat ∧ c.toNat ≤ 102 then some (c.toNat - 87)
  else if 65 ≤ c.toNat ∧ c.toNat ≤ 70 then some (c.toNat - 55)
  else none

def hexDigit (d : Nat) : UInt8 :=
  if d < 10 then UInt8.ofNat (48 + d) else UInt8.ofNat (87 + d)

/-- A byte in two digits. -/
def hexPair (b : UInt8) : List UInt8 :=
  [hexDigit (b.toNat / 16), hexDigit (b.toNat % 16)]

theorem hexVal_lt {c : UInt8} {d : Nat} (h : hexVal c = some d) : d < 16 := by
  unfold hexVal at h
  split_ifs at h <;> cases h <;> omega

theorem hexDigit_toNat {d : Nat} (hd : d < 16) :
    (hexDigit d).toNat = if d < 10 then 48 + d else 87 + d := by
  unfold hexDigit
  split_ifs <;> exact UInt8.toNat_ofNat_of_lt' (by show _ < 2 ^ 8; omega)

theorem hexVal_hexDigit {d : Nat} (hd : d < 16) : hexVal (hexDigit d) = some d := by
  rw [hexVal, hexDigit_toNat hd]
  split_ifs <;> first | omega | (congr 1; omega)

theorem hexVal_zero : hexVal 0 = none := rfl

/-! ## Groups -/

/-- Characters that are no digits, and two digits. -/
structure HexGroup where
  sep : List UInt8
  hi : UInt8
  lo : UInt8
  sep_none : ∀ c ∈ sep, hexVal c = none
  hi_some : (hexVal hi).isSome
  lo_some : (hexVal lo).isSome

namespace HexGroup

def text (g : HexGroup) : List UInt8 :=
  g.sep ++ [g.hi, g.lo]

def byte (g : HexGroup) : UInt8 :=
  UInt8.ofNat (16 * (hexVal g.hi).get g.hi_some + (hexVal g.lo).get g.lo_some)

/-- The group of a byte that is written. -/
def ofByte (b : UInt8) : HexGroup :=
  { sep := []
    hi := hexDigit (b.toNat / 16)
    lo := hexDigit (b.toNat % 16)
    sep_none := by simp
    hi_some := by rw [hexVal_hexDigit (Nat.div_lt_of_lt_mul b.toNat_lt)]; rfl
    lo_some := by rw [hexVal_hexDigit (Nat.mod_lt _ (by decide))]; rfl }

theorem text_ofByte (b : UInt8) : (ofByte b).text = hexPair b := rfl

theorem byte_eq {g : HexGroup} {v w : Nat} (hhi : hexVal g.hi = some v)
    (hlo : hexVal g.lo = some w) : g.byte = UInt8.ofNat (16 * v + w) := by
  simp only [byte, hhi, hlo, Option.get_some]

/-- A byte that was written is read back. -/
theorem byte_ofByte (b : UInt8) : (ofByte b).byte = b := by
  have hhi := hexVal_hexDigit (Nat.div_lt_of_lt_mul (n := 16) b.toNat_lt)
  have hlo := hexVal_hexDigit (Nat.mod_lt b.toNat (y := 16) (by decide))
  rw [byte_eq (g := ofByte b) hhi hlo, Nat.div_add_mod, UInt8.ofNat_toNat]

/-- The byte of a group is written as its two digits, in lower case. -/
theorem hexPair_byte {g : HexGroup} {v w : Nat} (hhi : hexVal g.hi = some v)
    (hlo : hexVal g.lo = some w) : hexPair g.byte = [hexDigit v, hexDigit w] := by
  have hv := hexVal_lt hhi
  have hw := hexVal_lt hlo
  have hbyte : g.byte.toNat = 16 * v + w := by
    rw [byte_eq hhi hlo]
    exact UInt8.toNat_ofNat_of_lt' (by show _ < 2 ^ 8; omega)
  have hdiv : (16 * v + w) / 16 = v := by omega
  have hmod : (16 * v + w) % 16 = w := by omega
  rw [hexPair, hbyte, hdiv, hmod]

end HexGroup

inductive Reads : Nat → List UInt8 → List UInt8 → Prop
  | done (s : List UInt8) : Reads 0 s []
  | skip {n : Nat} {c : UInt8} {s bs : List UInt8} (hc : hexVal c = none)
      (hrest : Reads (n + 1) s bs) : Reads (n + 1) (c :: s) bs
  | pair {n v w : Nat} {hi lo : UInt8} {s bs : List UInt8} (hhi : hexVal hi = some v)
      (hlo : hexVal lo = some w) (hrest : Reads n s bs) :
      Reads (n + 1) (hi :: lo :: s) (UInt8.ofNat (16 * v + w) :: bs)

section Readings

variable {n : Nat} {s bs : List UInt8}

theorem Reads.length (h : Reads n s bs) : bs.length = n := by
  induction h with
  | done => rfl
  | skip _ _ ih => exact ih
  | pair _ _ _ ih => rw [List.length_cons, ih]

theorem Reads.unique (h : Reads n s bs) : ∀ {bs' : List UInt8}, Reads n s bs' → bs = bs' := by
  -- a character is a digit or not, so two readings go the same way at each one
  induction h with
  | done =>
      intro bs' h'
      cases h'
      rfl
  | skip hc _ ih =>
      intro bs' h'
      cases h' with
      | skip _ hrest' => exact ih hrest'
      | pair hhi' _ _ =>
          rw [hc] at hhi'
          cases hhi'
  | pair hhi hlo _ ih =>
      intro bs' h'
      cases h' with
      | skip hc _ =>
          rw [hc] at hhi
          cases hhi
      | pair hhi' hlo' hrest' =>
          cases hhi.symm.trans hhi'
          cases hlo.symm.trans hlo'
          rw [ih hrest']

theorem Reads.skips {sep : List UInt8} (hsep : ∀ c ∈ sep, hexVal c = none)
    (h : Reads (n + 1) s bs) : Reads (n + 1) (sep ++ s) bs := by
  induction sep with
  | nil => exact h
  | cons c sep ih =>
      exact .skip (hsep c (by simp)) (ih fun c' hc' => hsep c' (List.mem_cons_of_mem c hc'))

theorem Reads.group (g : HexGroup) (h : Reads n s bs) :
    Reads (n + 1) (g.text ++ s) (g.byte :: bs) := by
  have hpair : Reads (n + 1) (g.hi :: g.lo :: s) (g.byte :: bs) :=
    .pair (Option.some_get g.hi_some).symm (Option.some_get g.lo_some).symm h
  rw [HexGroup.text, List.append_assoc]
  exact hpair.skips g.sep_none

theorem not_reads_nil : ¬ Reads (n + 1) [] bs := by
  intro h
  cases h

/-- A digit that no digit follows ends the reading. -/
theorem not_reads_half {hi : UInt8} {v : Nat} (hhi : hexVal hi = some v)
    (hlo : ∀ lo ∈ s.head?, hexVal lo = none) : ¬ Reads (n + 1) (hi :: s) bs := by
  intro h
  cases h with
  | skip hc _ =>
      rw [hc] at hhi
      cases hhi
  | pair _ hlo' _ =>
      rw [hlo _ rfl] at hlo'
      cases hlo'

theorem reads_skip_iff {c : UInt8} (hc : hexVal c = none) :
    Reads (n + 1) (c :: s) bs ↔ Reads (n + 1) s bs := by
  constructor
  · intro h
    cases h with
    | skip _ hrest => exact hrest
    | pair hhi _ _ =>
        rw [hc] at hhi
        cases hhi
  · exact Reads.skip hc

theorem reads_pair_iff {hi lo : UInt8} {v w : Nat} (hhi : hexVal hi = some v)
    (hlo : hexVal lo = some w) :
    Reads (n + 1) (hi :: lo :: s) bs ↔
      ∃ rest, bs = UInt8.ofNat (16 * v + w) :: rest ∧ Reads n s rest := by
  constructor
  · intro h
    cases h with
    | skip hc _ =>
        rw [hc] at hhi
        cases hhi
    | pair hhi' hlo' hrest =>
        cases hhi.symm.trans hhi'
        cases hlo.symm.trans hlo'
        exact ⟨_, rfl, hrest⟩
  · rintro ⟨rest, rfl, hrest⟩
    exact .pair hhi hlo hrest

/-- A string begins with `n` groups exactly when it has them for a prefix. -/
theorem reads_iff : Reads n s bs ↔
    ∃ gs : List HexGroup, gs.length = n ∧ gs.flatMap HexGroup.text <+: s ∧
      bs = gs.map HexGroup.byte := by
  constructor
  · intro h
    induction h with
    | done s => exact ⟨[], rfl, List.nil_prefix, rfl⟩
    | @skip n c s bs hc _ ih =>
        rcases ih with ⟨gs, hlen, hprefix, hbs⟩
        cases gs with
        | nil => cases hlen
        | cons g gs =>
            -- the character joins those in front of the first group
            have hsep : ∀ c' ∈ c :: g.sep, hexVal c' = none := by
              intro c' hc'
              rcases List.mem_cons.1 hc' with rfl | hmem
              · exact hc
              · exact g.sep_none c' hmem
            refine ⟨{ g with sep := c :: g.sep, sep_none := hsep } :: gs, hlen, ?_, hbs⟩
            exact List.cons_prefix_cons.2 ⟨rfl, hprefix⟩
    | @pair n v w hi lo s bs hhi hlo _ ih =>
        rcases ih with ⟨gs, hlen, hprefix, hbs⟩
        -- a group with nothing in front of its digits
        let g : HexGroup :=
          { sep := [], hi := hi, lo := lo, sep_none := by simp, hi_some := by simp [hhi],
            lo_some := by simp [hlo] }
        have hbyte : g.byte = UInt8.ofNat (16 * v + w) := by
          simp [HexGroup.byte, g, hhi, hlo]
        refine ⟨g :: gs, by rw [List.length_cons, hlen], ?_, by rw [List.map_cons, hbyte, hbs]⟩
        exact List.cons_prefix_cons.2 ⟨rfl, List.cons_prefix_cons.2 ⟨rfl, hprefix⟩⟩
  · rintro ⟨gs, rfl, hprefix, rfl⟩
    induction gs generalizing s with
    | nil => exact .done s
    | cons g gs ih =>
        rcases hprefix with ⟨rest, rfl⟩
        rw [List.flatMap_cons, List.append_assoc]
        exact (ih (List.prefix_append _ rest)).group g

/-- Groups are read with a separator between them, too. -/
theorem reads_intercalate {sep : List UInt8} (hsep : ∀ c ∈ sep, hexVal c = none) :
    ∀ gs : List HexGroup,
      Reads gs.length (List.intercalate sep (gs.map HexGroup.text)) (gs.map HexGroup.byte)
  | [] => .done _
  | [g] => by
      have hone := Reads.group g (.done [])
      simpa [List.intercalate] using hone
  | g :: g' :: gs => by
      -- the separator is read as part of the group behind it
      have hrest := (reads_intercalate hsep (g' :: gs)).skips hsep
      have hall := Reads.group g hrest
      simpa [List.intercalate] using hall

theorem length_intercalate_hexPair (c : UInt8) :
    ∀ bs : List UInt8, bs ≠ [] → (List.intercalate [c] (bs.map hexPair)).length + 1 = 3 * bs.length
  | [], h => absurd rfl h
  | [b], _ => rfl
  | b :: b' :: bs, _ => by
      have ih := length_intercalate_hexPair c (b' :: bs) (by simp)
      have hpair : (hexPair b ++ [c]).length = 3 := rfl
      rw [List.map_cons, List.map_cons, List.intercalate_cons_cons, List.length_append,
        ← List.map_cons, Nat.add_assoc, ih, hpair, Nat.add_comm]
      rfl

theorem mem_hexPair {b c : UInt8} (h : c ∈ hexPair b) : (hexVal c).isSome := by
  have hb := b.toNat_lt
  rcases List.mem_pair.1 h with rfl | rfl
  · rw [hexVal_hexDigit (by omega)]
    rfl
  · rw [hexVal_hexDigit (by omega)]
    rfl

/-- What is written between separators is digits. -/
theorem mem_intercalate_hexPair {sep : List UInt8} {c : UInt8} :
    ∀ bs : List UInt8, c ∈ List.intercalate sep (bs.map hexPair) → c ∈ sep ∨ (hexVal c).isSome
  | [], h => by cases h
  | [b], h => by
      rw [List.map_singleton, List.intercalate_singleton] at h
      exact .inr (mem_hexPair h)
  | b :: b' :: bs, h => by
      rw [List.map_cons, List.map_cons, List.intercalate_cons_cons, ← List.map_cons] at h
      rcases List.mem_append.1 h with hl | hr
      · rcases List.mem_append.1 hl with hb | hsep
        · exact .inr (mem_hexPair hb)
        · exact .inl hsep
      · exact mem_intercalate_hexPair (b' :: bs) hr

end Readings

end Lib
end UtilsC
