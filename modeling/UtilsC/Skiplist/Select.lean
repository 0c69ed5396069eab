import UtilsC.Skiplist.Run
import Mathlib.Data.List.GetD

/-!
# The node of a rank

`zslGetElementByRank` walks along each level as long as the spans it adds up do not exceed the
rank, and stops after the first level on which they come to the rank.

The row up to the rank is one part of a cut; on every level the walk ends at the last node of that
part which reaches the level (`elementWalk_spec`), and `traversed` is its place.
-/

namespace UtilsC
namespace Skiplist

open Lib Tower

variable {S O A : Type} [LinearOrder S] [DecidableEq A]

/-! ## The function -/

/-- The `while` loop on level `i`; `traversed` is an `unsigned long`, a span an `unsigned int`. -/
def elementWalk (mem : Memory S O A) (rank : UInt64) (i : Nat) :
    Nat → A → UInt64 → Option (A × UInt64)
  | 0, _, _ => none
  | fuel + 1, x, traversed =>
      (mem.readLevel x i).bind fun l =>
        match l.forward with
        | none => some (x, traversed)
        | some y =>
            if traversed + l.span.toUInt64 ≤ rank then
              elementWalk mem rank i fuel y (traversed + l.span.toUInt64)
            else
              some (x, traversed)

/-- The `for` loop from level `i - 1` down; `some none` is NULL. -/
def elementFrom (mem : Memory S O A) (rank : UInt64) (fuel : Nat) :
    Nat → A → UInt64 → Option (Option A)
  | 0, _, _ => some none
  | i + 1, x, traversed =>
      (elementWalk mem rank i fuel x traversed).bind fun found =>
        if found.2 = rank then some (some found.1)
        else elementFrom mem rank fuel i found.1 found.2

def zslGetElementByRank (fuel : Nat) (rank : UInt64) (zsl : Zskiplist S O A) :
    Option (Option A) :=
  elementFrom zsl.mem rank fuel zsl.level zsl.header 0

/-! ## The walks -/

section Walks

variable {mem : Memory S O A} {rank : UInt64} {i : Nat} {header : A} {lo hi : List A}

/-- `lo` is the row up to the rank: something is left behind it only when it is that long. -/
structure CutAt (rank : UInt64) (lo hi : List A) : Prop where
  le : lo.length ≤ rank.toNat
  full : hi ≠ [] → lo.length = rank.toNat
  few : (lo ++ hi).length < 2 ^ 32

omit [LinearOrder S] [DecidableEq A] in
/-- In a row of fewer than `2^32` nodes, places and distances are added without loss. -/
theorem place_add {k n : Nat} (h : k + n < 2 ^ 32) :
    UInt64.ofNat k + (UInt32.ofNat n).toUInt64 = UInt64.ofNat (k + n) := by
  have hn : n % 2 ^ 32 = n := Nat.mod_eq_of_lt (by omega)
  apply UInt64.toNat_inj.1
  simp only [UInt64.toNat_add, UInt32.toNat_toUInt64, UInt32.toNat_ofNat', UInt64.toNat_ofNat', hn]
  omega

omit [LinearOrder S] [DecidableEq A] in
theorem place_le_iff {k : Nat} (h : k < 2 ^ 64) : UInt64.ofNat k ≤ rank ↔ k ≤ rank.toNat := by
  rw [UInt64.le_iff_toNat_le, UInt64.toNat_ofNat_of_lt' h]

omit [LinearOrder S] [DecidableEq A] in
/-- On one level, the walk ends at the last node up to the rank, and has counted its place. -/
theorem elementWalk_spec (hcol : Column mem.size i (mem.column i) (header :: (lo ++ hi)))
    (hcut : CutAt rank lo hi) : ∀ {fuel : Nat} {pre mid : List A} {x : A},
      header :: lo = pre ++ x :: mid → i < mem.size x → mid.length < fuel →
      ∃ p r, elementWalk mem rank i fuel x (UInt64.ofNat pre.length) =
          some (p, UInt64.ofNat r) ∧ Bracket mem.size i (header :: lo) p r
  | 0, _, _, _, _, _, hfuel => by omega
  | fuel + 1, pre, mid, x, hlo, hx, hfuel => by
      have hfew := hcut.few
      have hlen := congrArg List.length hlo
      rw [List.length_append] at hfew
      rw [List.length_cons, List.length_append, List.length_cons] at hlen
      rcases readLevel_cut hcol hlo hx with
        ⟨hlow, hread⟩ | ⟨m₁, y, m₂, hmid, _, hy, hmem, hlo', hread⟩
      · refine ⟨x, pre.length, ?_, pre, mid, hlo, rfl, hx, hlow⟩
        cases hnext : next mem.size i hi with
        | none => simp only [elementWalk, hread, hnext, Option.bind_some]
        | some y =>
            -- the next node is behind the rank, and the span says so
            have hne : hi ≠ [] := List.ne_nil_of_mem (next_mem hnext).1
            have hfull := hcut.full hne
            have hgap : gap mem.size i hi ≤ hi.length := gap_le_length
            have hpos : 0 < gap mem.size i hi := gap_pos hne
            have hadd := place_add (k := pre.length) (n := mid.length + gap mem.size i hi)
              (by omega)
            -- the stride passes the end of the part in front
            have hstop : ¬ UInt64.ofNat (pre.length + (mid.length + gap mem.size i hi)) ≤ rank := by
              rw [place_le_iff (by omega)]
              omega
            simp only [elementWalk, hread, hnext, Option.bind_some, hadd, if_neg hstop]
      · have hmidlen := congrArg List.length hmid
        rw [List.length_append, List.length_cons] at hmidlen
        have hfuel' : m₂.length < fuel := by omega
        have hle := hcut.le
        have hadd := place_add (k := pre.length) (n := m₁.length + 1) (by omega)
        have hgo : UInt64.ofNat (pre.length + (m₁.length + 1)) ≤ rank := by
          rw [place_le_iff (by omega)]
          omega
        have hplace : pre.length + (m₁.length + 1) = (pre ++ x :: m₁).length := by simp
        rcases elementWalk_spec hcol hcut hlo' hy hfuel' with ⟨p, r, hwalk, hb⟩
        refine ⟨p, r, ?_, hb⟩
        simp only [elementWalk, hread, Option.bind_some, hadd, if_pos hgo]
        rw [hplace]
        exact hwalk

omit [LinearOrder S] [DecidableEq A] in
/-- From level `n - 1` down: the node at the rank, if the row goes that far. -/
theorem elementFrom_spec {level fuel : Nat}
    (hcol : ∀ i, i < level → Column mem.size i (mem.column i) (header :: (lo ++ hi)))
    (hcut : CutAt rank lo hi) (hlive : ∀ a ∈ header :: lo, 0 < mem.size a)
    (hfuel : lo.length < fuel) : ∀ {n : Nat} {pre mid : List A} {x : A}, n ≤ level →
      header :: lo = pre ++ x :: mid → n ≤ mem.size x → Low mem.size n mid →
      (n = 0 → pre.length ≠ rank.toNat) →
      elementFrom mem rank fuel n x (UInt64.ofNat pre.length) =
        some ((header :: lo)[rank.toNat]?)
  | 0, pre, mid, x, _, hlo, _, hmid, hrank => by
      -- every node reaches level 0, so `x` is the last one of the row
      have hnil : mid = [] := by
        refine List.eq_nil_iff_forall_not_mem.2 ?_
        intro b hb
        have hpos := hlive b (by simp [hlo, hb])
        have hlow := hmid b hb
        omega
      have hlen := congrArg List.length hlo
      rw [List.length_cons, List.length_append, hnil, List.length_singleton] at hlen
      have hle := hcut.le
      have hne := hrank rfl
      have hbehind : (header :: lo).length ≤ rank.toNat := by
        rw [List.length_cons]
        omega
      rw [elementFrom, List.getElem?_eq_none hbehind]
  | n + 1, pre, mid, x, hn, hlo, hx, hmid, _ => by
      have hmidlen : mid.length < fuel := by
        have hlen := congrArg List.length hlo
        rw [List.length_cons, List.length_append, List.length_cons] at hlen
        omega
      rcases elementWalk_spec (hcol n hn) hcut hlo hx hmidlen with ⟨p, r, hwalk, hb⟩
      rcases hb with ⟨pre', mid', hlo', rfl, hp, hmid'⟩
      have hfew := hcut.few
      have hlen := congrArg List.length hlo'
      rw [List.length_append] at hfew
      rw [List.length_cons, List.length_append, List.length_cons] at hlen
      have hplace : UInt64.ofNat pre'.length = rank ↔ pre'.length = rank.toNat := by
        rw [← UInt64.toNat_inj, UInt64.toNat_ofNat_of_lt' (by show _ < 2 ^ 64; omega)]
      simp only [elementFrom, hwalk, Option.bind_some, hplace]
      by_cases hrank : pre'.length = rank.toNat
      · rw [if_pos hrank, hlo', ← hrank]
        simp
      · rw [if_neg hrank]
        exact elementFrom_spec hcol hcut hlive hfuel (Nat.le_of_succ_le hn) hlo' (Nat.le_of_lt hp)
          hmid' fun _ => hrank

end Walks

/-! ## The function -/

omit [LinearOrder S] [DecidableEq A] in
theorem cutAt_take {rank : UInt64} {ns : List A} (hfew : ns.length < 2 ^ 32) :
    CutAt rank (ns.take rank.toNat) (ns.drop rank.toNat) where
  le := List.length_take_le _ _
  full := by
    intro hne
    have hlt : rank.toNat < ns.length := by
      by_contra hge
      exact hne (List.drop_eq_nil_of_le (Nat.not_lt.1 hge))
    rw [List.length_take, Nat.min_eq_left (Nat.le_of_lt hlt)]
  few := by rwa [List.take_append_drop]

omit [DecidableEq A] in
theorem zslGetElementByRank_spec {ops : ObjectOps O} {zsl : Zskiplist S O A} {ns : List A}
    (hR : Rep ops zsl ns) (hfew : ns.length < 2 ^ 32) {fuel : Nat} (hfuel : ns.length < fuel)
    {rank : UInt64} (hrank : 1 ≤ rank.toNat) :
    zslGetElementByRank fuel rank zsl = some (ns[rank.toNat - 1]?) := by
  have hns : ns.take rank.toNat ++ ns.drop rank.toNat = ns := List.take_append_drop _ _
  have hcol : ∀ i, i < zsl.level → Column zsl.mem.size i (zsl.mem.column i)
      (zsl.header :: (ns.take rank.toNat ++ ns.drop rank.toNat)) := by
    rw [hns]
    exact hR.column
  have hsub : zsl.header :: ns.take rank.toNat ⊆ zsl.header :: ns :=
    List.cons_subset_cons _ (List.take_subset _ _)
  have hlive : ∀ a ∈ zsl.header :: ns.take rank.toNat, 0 < zsl.mem.size a := fun a ha =>
    (hR.live_iff a).2 (hsub ha)
  have hlen : (ns.take rank.toNat).length < fuel := by
    rw [List.length_take]
    omega
  have hlow : Low zsl.mem.size zsl.level (ns.take rank.toNat) := fun a ha =>
    hR.heights a (List.mem_of_mem_take ha)
  have hsize : zsl.level ≤ zsl.mem.size zsl.header := hR.header_size ▸ hR.level_le
  have hpos := hR.level_pos
  have hstart : zsl.header :: ns.take rank.toNat = [] ++ zsl.header :: ns.take rank.toNat := rfl
  have hfrom := elementFrom_spec hcol (cutAt_take hfew) hlive hlen (Nat.le_refl _) hstart hsize hlow
    (by omega)
  rw [zslGetElementByRank]
  refine hfrom.trans ?_
  -- the header has place 0, so the node of a rank is found behind it
  rcases Nat.exists_eq_succ_of_ne_zero (Nat.ne_of_gt hrank) with ⟨n, hn⟩
  rw [hn, List.getElem?_cons_succ, List.getElem?_take_of_lt (Nat.lt_succ_self n)]
  rfl

/-- In every list that can be made, with fewer than `2^32` nodes, the node of a rank from 1 on is
the one at that place on level 0, and not the header; behind the last one it is NULL. -/
theorem zslGetElementByRank_exact [Zero S] {ops : ObjectOps O} (hops : ops.Total)
    {node : A → ZskiplistNode S O A} {header : A} {zsl : Zskiplist S O A}
    (hrun : Run ops node header zsl) :
    ∃ ns, Follows (fun a => (zsl.mem.column 0 a).forward)
        (zsl.mem.column 0 zsl.header).forward ns ∧
      (ns.length < 2 ^ 32 → zsl.length.toNat = ns.length ∧
        ∀ (rank : UInt64) (fuel : Nat), 1 ≤ rank → ns.length < fuel →
          (rank ≤ zsl.length → ∃ x, ns[rank.toNat - 1]? = some x ∧ x ≠ zsl.header ∧
            zslGetElementByRank fuel rank zsl = some (some x)) ∧
          (zsl.length < rank → zslGetElementByRank fuel rank zsl = some none)) := by
  rcases hrun.rep hops with ⟨ns, hR⟩
  refine ⟨ns, hR.wellFormed.chain₀, ?_⟩
  intro hfew
  have hlength : zsl.length.toNat = ns.length := by
    rw [hR.length]
    exact UInt64.toNat_ofNat_of_lt' (by show _ < 2 ^ 64; omega)
  refine ⟨hlength, ?_⟩
  intro rank fuel hone hfuel
  have hrank : 1 ≤ rank.toNat := UInt64.le_iff_toNat_le.1 hone
  have hspec := zslGetElementByRank_spec hR hfew hfuel hrank
  constructor
  · intro hle
    have hlt : rank.toNat - 1 < ns.length := by
      rw [UInt64.le_iff_toNat_le, hlength] at hle
      omega
    have hget : ns[rank.toNat - 1]? = some (ns[rank.toNat - 1]) := List.getElem?_eq_getElem hlt
    refine ⟨ns[rank.toNat - 1], hget, ?_, hget ▸ hspec⟩
    intro hheader
    exact (List.nodup_cons.1 hR.nodup).1 (hheader ▸ List.getElem_mem hlt)
  · intro hlt
    rw [UInt64.lt_iff_toNat_lt, hlength] at hlt
    rw [hspec, List.getElem?_eq_none (by omega)]

theorem zslGetElementByRank_exact_two : ∃ (zsl : Zskiplist Nat Nat (Fin 3)) (ns : List (Fin 3)),
    zsl.level = 3 ∧ Follows (fun a => (zsl.mem.column 0 a).forward)
        (zsl.mem.column 0 zsl.header).forward ns ∧
      (ns.length < 2 ^ 32 → zsl.length.toNat = ns.length ∧
        ∀ (rank : UInt64) (fuel : Nat), 1 ≤ rank → ns.length < fuel →
          (rank ≤ zsl.length → ∃ x, ns[rank.toNat - 1]? = some x ∧ x ≠ zsl.header ∧
            zslGetElementByRank fuel rank zsl = some (some x)) ∧
          (zsl.length < rank → zslGetElementByRank fuel rank zsl = some none)) := by
  rcases exists_run_two with ⟨zsl, hrun, hlevel, -⟩
  rcases zslGetElementByRank_exact natOps_total hrun with ⟨ns, hfollows, hrank⟩
  exact ⟨zsl, ns, hlevel, hfollows, hrank⟩

end Skiplist
end UtilsC
