import UtilsC.Skiplist.SortedSet
import Mathlib.Data.List.TakeWhile
import Mathlib.Algebra.Order.BigOperators.Group.List
import Mathlib.Algebra.Order.Ring.Nat

/-!
# The rank of a pair

`zslGetRank` walks like the search of the other functions, but past the pair, and adds up the spans;
after each level it stops if the node it stands on has the object.

* `upTo`: the nodes that are not behind the pair.
* `Seen`: a node with the object that is taller than all nodes behind it; the function stops at the
  tallest of these (`zslGetRank_spec`), whatever its score.
* `RankExact`: no such node hides the pair, and the spans that are added up are exact.
-/

namespace UtilsC
namespace Skiplist

open Lib Tower

variable {S O A : Type} [LinearOrder S] [DecidableEq A]

/-! ## The function -/

/-- The loop condition of `zslGetRank`, at the node `forward` points to. -/
def notAfter (ops : ObjectOps O) (mem : Memory S O A) (score : S) (obj : O) (y : A) :
    Option Bool :=
  if 0 < mem.size y then
    if (mem.node y).score < score then
      some true
    else if (mem.node y).score = score then
      (mem.node y).obj.map fun o => decide (ops.compareStringObjects o obj ≤ 0)
    else
      some false
  else
    none

/-- The `while` loop on level `i`; `rank` is an `unsigned long`, a span an `unsigned int`. -/
def rankWalk (ops : ObjectOps O) (mem : Memory S O A) (score : S) (obj : O) (i : Nat) :
    Nat → A → UInt64 → Option (A × UInt64)
  | 0, _, _ => none
  | fuel + 1, x, rank =>
      (mem.readLevel x i).bind fun l =>
        match l.forward with
        | none => some (x, rank)
        | some y =>
            (notAfter ops mem score obj y).bind fun b =>
              if b = true then rankWalk ops mem score obj i fuel y (rank + l.span.toUInt64)
              else some (x, rank)

/-- `x->obj && equalStringObjects(x->obj, o)`. -/
def hasObject (ops : ObjectOps O) (mem : Memory S O A) (obj : O) (x : A) : Option Bool :=
  if 0 < mem.size x then
    match (mem.node x).obj with
    | none => some false
    | some o => some (ops.equalStringObjects o obj)
  else
    none

/-- The `for` loop from level `i - 1` down. -/
def rankFrom (ops : ObjectOps O) (mem : Memory S O A) (score : S) (obj : O) (fuel : Nat) :
    Nat → A → UInt64 → Option UInt64
  | 0, _, _ => some 0
  | i + 1, x, rank =>
      (rankWalk ops mem score obj i fuel x rank).bind fun found =>
        (hasObject ops mem obj found.1).bind fun b =>
          if b = true then some found.2 else rankFrom ops mem score obj fuel i found.1 found.2

def zslGetRank (ops : ObjectOps O) (fuel : Nat) (score : S) (obj : O) (zsl : Zskiplist S O A) :
    Option UInt64 :=
  rankFrom ops zsl.mem score obj fuel zsl.level zsl.header 0

/-! ## The nodes that are not behind the pair -/

def Memory.notBehind (mem : Memory S O A) (ops : ObjectOps O) (score : S) (obj : O) (a : A) :
    Bool :=
  (mem.pair a).all fun k => decide (¬ Less ops (score, obj) k)

/-- The nodes up to the place of the pair. -/
def Memory.upTo (mem : Memory S O A) (ops : ObjectOps O) (score : S) (obj : O) (ns : List A) :
    List A :=
  ns.takeWhile (mem.notBehind ops score obj)

/-- A row cut behind the pair. -/
structure UpTo (ops : ObjectOps O) (mem : Memory S O A) (score : S) (obj : O) (lo hi : List A) :
    Prop where
  low : ∀ a ∈ lo, notAfter ops mem score obj a = some true
  high : ∀ a ∈ hi, notAfter ops mem score obj a = some false

section Place

variable {ops : ObjectOps O} {mem : Memory S O A} {score : S} {obj : O} {header : A}
  {lo hi : List A}

omit [DecidableEq A] in
theorem notAfter_eq (hops : ops.Total) {a : A} {k : S × O} (hlive : 0 < mem.size a)
    (hk : mem.pair a = some k) :
    notAfter ops mem score obj a = some (decide (¬ Less ops (score, obj) k)) := by
  rcases Option.map_eq_some_iff.1 hk with ⟨o, ho, hk'⟩
  subst hk'
  rw [notAfter, if_pos hlive]
  rcases lt_trichotomy (mem.node a).score score with hlt | heq | hgt
  · simp [Less, hlt, hlt.not_gt, hlt.ne']
  · have hswap : ops.compareStringObjects o obj ≤ 0 ↔ ¬ ops.compareStringObjects obj o < 0 := by
      rw [hops.swap obj o]
      omega
    simp [Less, heq, ho, hswap]
  · simp [Less, hgt, hgt.not_gt, hgt.ne']

omit [DecidableEq A] in
theorem notBehind_eq {a : A} {k : S × O} (hk : mem.pair a = some k) :
    mem.notBehind ops score obj a = decide (¬ Less ops (score, obj) k) := by
  rw [Memory.notBehind, hk, Option.all_some]

end Place

/-! ## The walks -/

/-- What the walks add up over links of the given lengths. -/
def spanSum (lengths : List Nat) : Nat :=
  (lengths.map (· % 2 ^ 32)).sum

/-- The rank at the last node of a row that starts with the header. -/
def rankAt (h : A → Nat) (row : List A) : UInt64 :=
  UInt64.ofNat (spanSum (strides h 0 row).tail)

section Walks

variable {ops : ObjectOps O} {mem : Memory S O A} {score : S} {obj : O} {i : Nat} {header : A}
  {lo hi : List A}

omit [LinearOrder S] [DecidableEq A] in
theorem span_toUInt64 (n : Nat) : (UInt32.ofNat n).toUInt64 = UInt64.ofNat (n % 2 ^ 32) := by
  apply UInt64.toNat_inj.1
  simp only [UInt32.toNat_toUInt64, UInt32.toNat_ofNat', UInt64.toNat_ofNat']
  omega

omit [DecidableEq A] in
/-- One step further: the span of the link is added. -/
theorem rankAt_step {h : A → Nat} {pre mid : List A} {x y : A} (hmid : ∀ b ∈ mid, h b < h y)
    (hxy : h y ≤ h x) :
    rankAt h (pre ++ [x]) + (UInt32.ofNat (mid.length + 1)).toUInt64 =
      rankAt h (pre ++ x :: mid ++ [y]) := by
  have hrow : pre ++ x :: mid ++ [y] = pre ++ x :: (mid ++ [y]) := by simp
  have hne : strides h 0 (pre ++ [x]) ≠ [] := strides_ne_nil (by simp)
  rw [hrow, rankAt, rankAt, strides_append hmid hxy, List.tail_append_of_ne_nil hne, spanSum,
    spanSum, List.map_append, List.sum_append, UInt64.ofNat_add, span_toUInt64]
  simp

omit [DecidableEq A] in
/-- On one level, the walk ends at the last node up to the place of the pair. -/
theorem rankWalk_spec (hcol : Column mem.size i (mem.column i) (header :: (lo ++ hi)))
    (hcut : UpTo ops mem score obj lo hi) : ∀ {fuel : Nat} {pre mid : List A} {x : A},
      header :: lo = pre ++ x :: mid → i < mem.size x → Low mem.size (i + 1) mid →
      mid.length < fuel →
      ∃ pre' p mid', header :: lo = pre' ++ p :: mid' ∧ i < mem.size p ∧ Low mem.size i mid' ∧
        rankWalk ops mem score obj i fuel x (rankAt mem.size (pre ++ [x])) =
          some (p, rankAt mem.size (pre' ++ [p]))
  | 0, _, _, _, _, _, _, hfuel => by omega
  | fuel + 1, pre, mid, x, hlo, hx, hlowmid, hfuel => by
      rcases readLevel_cut hcol hlo hx with
        ⟨hlow, hread⟩ | ⟨m₁, y, m₂, hmid, hm₁, hy, hmem, hlo', hread⟩
      · -- nothing up to the place of the pair is seen from here: the walk ends
        refine ⟨pre, x, mid, hlo, hx, hlow, ?_⟩
        cases hnext : next mem.size i hi with
        | none => simp only [rankWalk, hread, hnext, Option.bind_some]
        | some y =>
            have hafter := hcut.high y (next_mem hnext).1
            simp [rankWalk, hread, hnext, hafter]
      · have hyi : mem.size y ≤ i + 1 := hlowmid y (by simp [hmid])
        have hm₁y : ∀ b ∈ m₁, mem.size b < mem.size y := fun b hb =>
          Nat.lt_of_le_of_lt (hm₁ b hb) hy
        -- what is seen on this level and not above has height `i + 1`, and `x` is no lower
        have hstep : rankAt mem.size (pre ++ [x]) + (UInt32.ofNat (m₁.length + 1)).toUInt64 =
            rankAt mem.size (pre ++ x :: m₁ ++ [y]) := rankAt_step hm₁y (hyi.trans hx)
        have hafter := hcut.low y hmem
        have hfuel' : m₂.length < fuel := by
          rw [hmid, List.length_append, List.length_cons] at hfuel
          omega
        have hlow₂ : Low mem.size (i + 1) m₂ := fun b hb => hlowmid b (by simp [hmid, hb])
        rcases rankWalk_spec hcol hcut hlo' hy hlow₂ hfuel' with
          ⟨pre', p, mid', hp, hpi, hpmid, hwalk⟩
        refine ⟨pre', p, mid', hp, hpi, hpmid, ?_⟩
        simp only [rankWalk, hread, Option.bind_some, hafter, if_true, hstep, hwalk]

/-- `z` holds the pair `k`, which has the object, and is taller than every node of the row that
is behind it; `pre` are the nodes in front of it. -/
def Seen (ops : ObjectOps O) (mem : Memory S O A) (obj : O) (row pre : List A) (z : A)
    (k : S × O) : Prop :=
  ∃ post, row = pre ++ z :: post ∧ mem.pair z = some k ∧
    ops.equalStringObjects k.2 obj = true ∧ ∀ b ∈ post, mem.size b < mem.size z

omit [LinearOrder S] [DecidableEq A] in
theorem hasObject_eq (ops : ObjectOps O) (obj : O) {z : A} (hlive : 0 < mem.size z) :
    hasObject ops mem obj z = some true ∧
        (∃ k, mem.pair z = some k ∧ ops.equalStringObjects k.2 obj = true) ∨
      hasObject ops mem obj z = some false ∧
        ¬ ∃ k, mem.pair z = some k ∧ ops.equalStringObjects k.2 obj = true := by
  rw [hasObject, if_pos hlive, Memory.pair]
  cases hobj : (mem.node z).obj with
  | none => simp
  | some o => cases hequal : ops.equalStringObjects o obj <;> simp [hequal]

/-- The tallest of the nodes that are seen. -/
structure Tallest (ops : ObjectOps O) (mem : Memory S O A) (obj : O) (row pre : List A) (z : A)
    (k : S × O) : Prop where
  seen : Seen ops mem obj row pre z k
  le : ∀ pre' z' k', Seen ops mem obj row pre' z' k' → mem.size z' ≤ mem.size z

omit [LinearOrder S] [DecidableEq A] in
theorem Tallest.unique {row pre pre' : List A} {z z' : A} {k k' : S × O}
    (h : Tallest ops mem obj row pre z k) (h' : Tallest ops mem obj row pre' z' k') :
    pre = pre' ∧ z = z' := by
  have hle := h.le pre' z' k' h'.seen
  have hle' := h'.le pre z k h.seen
  rcases h.seen with ⟨post, hrow, _, _, hlow⟩
  rcases h'.seen with ⟨post', hrow', _, _, hlow'⟩
  -- of two nodes that are seen, the one in front is taller
  rcases split_middle (hrow.symm.trans hrow') with ⟨m, _, hpost'⟩ | ⟨hz, hpre, _⟩ | ⟨m, hpost, _⟩
  · have hlt := hlow' z (by simp [hpost'])
    omega
  · exact ⟨hpre.symm, hz.symm⟩
  · have hlt := hlow z' (by simp [hpost])
    omega

omit [LinearOrder S] [DecidableEq A] in
/-- A taller node that is seen is further in front, so there is a tallest one. -/
theorem Seen.exists_tallest {row : List A} : ∀ {pre : List A} {z : A} {k : S × O},
    Seen ops mem obj row pre z k → ∃ pre' z' k', Tallest ops mem obj row pre' z' k' := by
  intro pre
  induction hlen : pre.length using Nat.strong_induction_on generalizing pre with
  | _ n ih =>
      intro z k hz
      by_cases htaller : ∃ pre' z' k', Seen ops mem obj row pre' z' k' ∧ mem.size z < mem.size z'
      · rcases htaller with ⟨pre', z', k', hz', hlt⟩
        have hz'' := hz'
        rcases hz with ⟨post, hrow, _, _, hlow⟩
        rcases hz'' with ⟨post', hrow', _⟩
        rcases split_middle (hrow.symm.trans hrow') with ⟨m, hpre, _⟩ | ⟨hzz, _⟩ | ⟨m, hpost, _⟩
        · refine ih pre'.length ?_ rfl hz'
          rw [← hlen, hpre, List.length_append, List.length_cons]
          omega
        · rw [hzz] at hlt
          exact absurd hlt (Nat.lt_irrefl _)
        · have hback := hlow z' (by simp [hpost])
          omega
      · refine ⟨pre, z, k, hz, ?_⟩
        intro pre' z' k' hz'
        by_contra hgt
        exact htaller ⟨pre', z', k', hz', Nat.lt_of_not_le hgt⟩

/-- `f` of the row up to the tallest node that is seen, or 0. -/
def RankResult (ops : ObjectOps O) (mem : Memory S O A) (obj : O) (row : List A)
    (f : List A → UInt64) (rank : UInt64) : Prop :=
  (∃ pre z k, Tallest ops mem obj row pre z k ∧ rank = f (pre ++ [z])) ∨
    (∀ pre z k, ¬ Seen ops mem obj row pre z k) ∧ rank = 0

omit [DecidableEq A] in
/-- From level `n - 1` down, if no node is seen that is taller than `n`. -/
theorem rankFrom_spec {level fuel : Nat}
    (hcol : ∀ i, i < level → Column mem.size i (mem.column i) (header :: (lo ++ hi)))
    (hcut : UpTo ops mem score obj lo hi) (hlive : ∀ a ∈ header :: lo, 0 < mem.size a)
    (hfuel : lo.length < fuel) : ∀ {n : Nat} {pre mid : List A} {x : A}, n ≤ level →
      header :: lo = pre ++ x :: mid → n ≤ mem.size x → Low mem.size n mid →
      (∀ pre z k, Seen ops mem obj (header :: lo) pre z k → mem.size z ≤ n) →
      ∃ rank, rankFrom ops mem score obj fuel n x (rankAt mem.size (pre ++ [x])) = some rank ∧
        RankResult ops mem obj (header :: lo) (rankAt mem.size) rank
  | 0, _, _, _, _, _, _, _, hseen => by
      -- every node has a level, so that none is seen
      have hnone : ∀ pre z k, ¬ Seen ops mem obj (header :: lo) pre z k := by
        intro pre z k hz
        have hle := hseen pre z k hz
        rcases hz with ⟨post, hrow, _⟩
        have hpos := hlive z (by rw [hrow]; simp)
        omega
      exact ⟨0, rfl, Or.inr ⟨hnone, rfl⟩⟩
  | n + 1, pre, mid, x, hn, hlo, hx, hmid, hseen => by
      have hlen : mid.length < fuel := by
        have hlength := congrArg List.length hlo
        rw [List.length_cons, List.length_append, List.length_cons] at hlength
        omega
      rcases rankWalk_spec (hcol n hn) hcut hlo hx hmid hlen with
        ⟨pre', p, mid', hlo', hp, hmid', hwalk⟩
      have hplow : ∀ b ∈ mid', mem.size b < mem.size p := fun b hb =>
        Nat.lt_of_le_of_lt (hmid' b hb) hp
      rcases hasObject_eq ops obj (hlive p (by rw [hlo']; simp)) with
        ⟨hhas, k, hk, hequal⟩ | ⟨hhas, hnot⟩
      · have hpseen : Seen ops mem obj (header :: lo) pre' p k :=
          ⟨mid', hlo', hk, hequal, hplow⟩
        refine ⟨rankAt mem.size (pre' ++ [p]), ?_, Or.inl ⟨pre', p, k, ⟨hpseen, ?_⟩, rfl⟩⟩
        · simp only [rankFrom, hwalk, Option.bind_some, hhas, if_true]
        · intro pre'' z k' hz
          exact Nat.le_trans (hseen pre'' z k' hz) hp
      · have hseen' : ∀ pre z k, Seen ops mem obj (header :: lo) pre z k → mem.size z ≤ n := by
          intro pre'' z k hz
          have hle := hseen pre'' z k hz
          by_contra hgt
          -- a node of height `n + 1` would be the one where the walk has ended
          have hzn : n < mem.size z := Nat.lt_of_not_le hgt
          rcases hz with ⟨post, hrow, hk, hequal, hlow⟩
          have hb : Bracket mem.size n (header :: lo) p pre'.length :=
            ⟨pre', mid', hlo', rfl, hp, hmid'⟩
          rcases hb.split hrow hzn with ⟨hzp, _, _⟩ | ⟨hpm, hptall⟩
          · exact hnot ⟨k, hzp ▸ hk, hequal⟩
          · have hlt := hlow p hpm
            omega
        rcases rankFrom_spec hcol hcut hlive hfuel (Nat.le_of_succ_le hn) hlo' (Nat.le_of_lt hp)
          hmid' hseen' with ⟨rank, hrank, hresult⟩
        refine ⟨rank, ?_, hresult⟩
        simp only [rankFrom, hwalk, Option.bind_some, hhas]
        exact hrank

end Walks

/-! ## The function -/

section GetRank

variable {ops : ObjectOps O} {zsl : Zskiplist S O A} {ns : List A} {ks : List (S × O)}
  {score : S} {obj : O}

omit [DecidableEq A] in
/-- Behind the first node that is behind the pair, all nodes are. -/
theorem Stores.upTo_cut (hops : ops.Total) (hst : Stores ops zsl ns ks) (score : S) (obj : O) :
    ∃ hi, ns = zsl.mem.upTo ops score obj ns ++ hi ∧
      UpTo ops zsl.mem score obj (zsl.mem.upTo ops score obj ns) hi := by
  have hcut : ns.takeWhile _ ++ ns.dropWhile (zsl.mem.notBehind ops score obj) = ns :=
    List.takeWhile_append_dropWhile
  refine ⟨_, hcut.symm, ?_, ?_⟩
  · intro a ha
    rcases hst.exists_pair ((List.takeWhile_sublist _).subset ha) with ⟨k, hk, hlive⟩
    rw [notAfter_eq hops hlive hk, ← notBehind_eq hk, List.mem_takeWhile_imp ha]
  · intro a ha
    have hsub := List.dropWhile_sublist (l := ns) (zsl.mem.notBehind ops score obj)
    have hsorted := hst.rep.sorted.sublist hsub
    have hfirst := List.head?_dropWhile_not (zsl.mem.notBehind ops score obj) ns
    rcases hst.exists_pair (hsub.subset ha) with ⟨k, hk, hlive⟩
    rw [notAfter_eq hops hlive hk]
    cases hdrop : ns.dropWhile (zsl.mem.notBehind ops score obj) with
    | nil =>
        rw [hdrop] at ha
        exact absurd ha List.not_mem_nil
    | cons y hi =>
        rw [hdrop] at ha hsub hsorted hfirst
        have hy : y ∈ ns := hsub.subset (by simp)
        rcases hst.exists_pair hy with ⟨ky, hky, _⟩
        have hless : Less ops (score, obj) ky := by
          rw [List.head?_cons] at hfirst
          have hbehind := (notBehind_eq hky).symm.trans hfirst
          simpa using hbehind
        rcases List.mem_cons.1 ha with hay | ha'
        · rw [hay, hky] at hk
          cases hk
          simp [hless]
        · have hlt := ((List.pairwise_cons.1 hsorted).1 a ha').less hky hk
          simp [hless.trans hops hlt]

omit [DecidableEq A] in
theorem zslGetRank_spec (hops : ops.Total) (hst : Stores ops zsl ns ks) {fuel : Nat}
    (hfuel : ns.length < fuel) (score : S) (obj : O) :
    ∃ rank, zslGetRank ops fuel score obj zsl = some rank ∧
      RankResult ops zsl.mem obj (zsl.mem.upTo ops score obj ns)
        (fun row => UInt64.ofNat (spanSum (strides zsl.mem.size 0 row))) rank := by
  rcases hst.upTo_cut hops score obj with ⟨hi, hns, hcut⟩
  generalize zsl.mem.upTo ops score obj ns = lo at hns hcut ⊢
  subst hns
  have hR := hst.rep
  have hlive : ∀ a ∈ zsl.header :: lo, 0 < zsl.mem.size a := by
    intro a ha
    refine (hR.live_iff a).2 ?_
    rw [← List.cons_append]
    exact List.mem_append_left hi ha
  have hheights : ∀ a ∈ lo, zsl.mem.size a ≤ zsl.level := fun a ha =>
    hR.heights a (List.mem_append_left hi ha)
  have hsize : zsl.level ≤ zsl.mem.size zsl.header := hR.header_size ▸ hR.level_le
  have hfuel' : lo.length < fuel := by
    rw [List.length_append] at hfuel
    omega
  -- the header holds no pair, so what is seen is a node behind it
  have hseen : ∀ {pre z k}, Seen ops zsl.mem obj (zsl.header :: lo) pre z k →
      ∃ pre', pre = zsl.header :: pre' ∧ Seen ops zsl.mem obj lo pre' z k := by
    rintro pre z k ⟨post, hrow, hk, hequal, hlow⟩
    cases pre with
    | nil =>
        have hz : zsl.header = z := (List.cons.inj hrow).1
        rw [← hz, hst.header] at hk
        cases hk
    | cons a pre' =>
        rcases List.cons.inj hrow with ⟨ha, hlo⟩
        exact ⟨pre', by rw [ha], post, hlo, hk, hequal, hlow⟩
  have hseen' : ∀ {pre z k}, Seen ops zsl.mem obj lo pre z k →
      Seen ops zsl.mem obj (zsl.header :: lo) (zsl.header :: pre) z k := by
    rintro pre z k ⟨post, hrow, hrest⟩
    exact ⟨post, by rw [hrow]; rfl, hrest⟩
  have hbound : ∀ pre z k, Seen ops zsl.mem obj (zsl.header :: lo) pre z k →
      zsl.mem.size z ≤ zsl.level := by
    intro pre z k hz
    rcases hseen hz with ⟨pre', _, post, hrow, _⟩
    exact hheights z (by rw [hrow]; simp)
  have hstart : zsl.header :: lo = [] ++ zsl.header :: lo := rfl
  rcases rankFrom_spec hR.column hcut hlive hfuel' (Nat.le_refl _) hstart hsize hheights hbound
    with ⟨rank, hrank, hresult⟩
  refine ⟨rank, hrank, ?_⟩
  rcases hresult with ⟨pre, z, k, htallest, heq⟩ | ⟨hnone, heq⟩
  · rcases hseen htallest.seen with ⟨pre', hpre, hz⟩
    refine Or.inl ⟨pre', z, k, ⟨hz, fun pre'' z' k' hz' => htallest.le _ z' k' (hseen' hz')⟩, ?_⟩
    -- no node is taller than the header, so the first step of the way down leads away from it
    have htall : ∀ b ∈ pre' ++ [z], zsl.mem.size b ≤ zsl.mem.size zsl.header := by
      rcases hz with ⟨post, hrow, _⟩
      intro b hb
      refine (hheights b ?_).trans hsize
      rw [hrow]
      rcases List.mem_append.1 hb with hb' | hb'
      · exact List.mem_append_left _ hb'
      · exact List.mem_append_right _ (by simp [List.mem_singleton.1 hb'])
    rw [heq, hpre, rankAt, List.cons_append, strides_cons_tall htall, List.tail_cons]
  · exact Or.inr ⟨fun pre z k hz => hnone _ z k (hseen' hz), heq⟩

omit [DecidableEq A] in
/-- A stored pair is the last of those that are not behind it. -/
theorem Stores.upTo_stored (hops : ops.Total) {klo khi : List (S × O)} {k : S × O}
    (hst : Stores ops zsl ns (klo ++ k :: khi)) (hsame : SamePair ops k (score, obj)) :
    ∃ lo x, zsl.mem.upTo ops score obj ns = lo ++ [x] ∧ lo.length = klo.length ∧
      zsl.mem.pair x = some k ∧ ∀ a ∈ lo, zsl.mem.NodeLess ops a x := by
  have hpairs := hst.pairs
  rw [List.map_append, List.map_cons] at hpairs
  rcases List.map_eq_append_iff.1 hpairs with ⟨lo, rest, rfl, hlo, hrest⟩
  rcases List.map_eq_cons_iff.1 hrest with ⟨x, hi, rfl, hx, hhi⟩
  have hsorted := List.pairwise_append.1 hst.rep.sorted
  have hbefore : ∀ a ∈ lo, zsl.mem.NodeLess ops a x := fun a ha => hsorted.2.2 a ha x (by simp)
  refine ⟨lo, x, ?_, ?_, hx, hbefore⟩
  · have hlow : ∀ a ∈ lo, zsl.mem.notBehind ops score obj a = true := by
      intro a ha
      rcases hst.exists_pair (List.mem_append_left _ ha) with ⟨ka, hka, _⟩
      have hto := ((hbefore a ha).less hka hx).of_same hops hsame
      rw [notBehind_eq hka]
      exact decide_eq_true fun hback => Less.irrefl hops _ (hto.trans hops hback)
    have hxin : zsl.mem.notBehind ops score obj x = true := by
      rw [notBehind_eq hx]
      exact decide_eq_true fun hback => Less.irrefl hops _ (hback.of_same hops hsame)
    have hstop : hi.takeWhile (zsl.mem.notBehind ops score obj) = [] := by
      cases hi with
      | nil => rfl
      | cons y hi =>
          have hy : y ∈ lo ++ x :: y :: hi := by simp
          rcases hst.exists_pair hy with ⟨ky, hky, _⟩
          have hless := ((List.pairwise_cons.1 hsorted.2.1).1 y (by simp)).less hx hky
          -- the next pair is neither the same nor before
          have hnot : ¬ Less ops ky (score, obj) :=
            fun hback => (hless.trans hops hback).not_same hops hsame
          have hother : ¬ SamePair ops ky (score, obj) :=
            fun hsame' => (hless.of_same hops hsame').not_same hops hsame
          have hbehind := less_of_not_less hops hnot hother
          refine List.takeWhile_cons_of_neg ?_
          rw [notBehind_eq hky]
          simp [hbehind]
    rw [Memory.upTo, List.takeWhile_append_of_pos hlow, List.takeWhile_cons_of_pos hxin, hstop]
  · have hlen := congrArg List.length hlo
    rwa [List.length_map, List.length_map] at hlen

end GetRank

/-! ## When the rank is right -/

section Sums

variable {lengths : List Nat}

theorem spanSum_le : spanSum lengths ≤ lengths.sum := by
  induction lengths with
  | nil => exact Nat.le_refl 0
  | cons n lengths ih =>
      have hmod := Nat.mod_le n (2 ^ 32)
      simp only [spanSum, List.map_cons, List.sum_cons] at ih ⊢
      omega

theorem spanSum_eq_iff : spanSum lengths = lengths.sum ↔ ∀ n ∈ lengths, n < 2 ^ 32 := by
  induction lengths with
  | nil => simp [spanSum]
  | cons n lengths ih =>
      have hle : spanSum lengths ≤ lengths.sum := spanSum_le
      have hmod := Nat.mod_le n (2 ^ 32)
      have hiff : n % 2 ^ 32 = n ↔ n < 2 ^ 32 := by omega
      rw [List.forall_mem_cons, ← ih, ← hiff]
      simp only [spanSum, List.map_cons, List.sum_cons] at hle ⊢
      omega

/-- Nothing is lost exactly when no link is too long for a span, and the sum for a rank. -/
theorem toNat_spanSum_eq_iff : (UInt64.ofNat (spanSum lengths)).toNat = lengths.sum ↔
    (∀ n ∈ lengths, n < 2 ^ 32) ∧ lengths.sum < 2 ^ 64 := by
  have hle : spanSum lengths ≤ lengths.sum := spanSum_le
  have hmod := Nat.mod_le (spanSum lengths) (2 ^ 64)
  rw [UInt64.toNat_ofNat', ← spanSum_eq_iff]
  omega

end Sums

/-- What the rank of a pair is: its place in the sequence, from 1 on, or 0. -/
structure RankAnswer (ops : ObjectOps O) (ks : List (S × O)) (score : S) (obj : O) (rank : Nat) :
    Prop where
  stored : ∀ lo k hi, ks = lo ++ k :: hi → SamePair ops k (score, obj) → rank = lo.length + 1
  absent : (∀ k ∈ ks, ¬ SamePair ops k (score, obj)) → rank = 0

/-- When the function answers that: a stored pair is not hidden by a node with the same object and
a smaller score, and its rank fits in the spans and in the result; if the pair is not stored, no
node with the object is seen, or the 32-bit spans on the way to the tallest of these come to 0. -/
structure RankExact (ops : ObjectOps O) (mem : Memory S O A) (ns : List A) (ks : List (S × O))
    (score : S) (obj : O) : Prop where
  stored : (∃ k ∈ ks, SamePair ops k (score, obj)) →
    (∀ pre z k, Seen ops mem obj (mem.upTo ops score obj ns) pre z k → ¬ k.1 < score) ∧
      (∀ n ∈ strides mem.size 0 (mem.upTo ops score obj ns), n < 2 ^ 32) ∧
      (mem.upTo ops score obj ns).length < 2 ^ 64
  absent : (∀ k ∈ ks, ¬ SamePair ops k (score, obj)) →
    ∀ pre z k, Tallest ops mem obj (mem.upTo ops score obj ns) pre z k →
      spanSum (strides mem.size 0 (pre ++ [z])) % 2 ^ 64 = 0

section Exact

variable {ops : ObjectOps O} {zsl : Zskiplist S O A} {ns : List A} {ks : List (S × O)}
  {score : S} {obj : O} {rank : UInt64}

omit [DecidableEq A] in
theorem Stores.rank_stored_iff (hops : ops.Total) {klo khi : List (S × O)} {k : S × O}
    (hst : Stores ops zsl ns (klo ++ k :: khi)) (hsame : SamePair ops k (score, obj))
    (hresult : RankResult ops zsl.mem obj (zsl.mem.upTo ops score obj ns)
      (fun row => UInt64.ofNat (spanSum (strides zsl.mem.size 0 row))) rank) :
    rank.toNat = klo.length + 1 ↔
      (∀ pre z k, Seen ops zsl.mem obj (zsl.mem.upTo ops score obj ns) pre z k → ¬ k.1 < score) ∧
        (∀ n ∈ strides zsl.mem.size 0 (zsl.mem.upTo ops score obj ns), n < 2 ^ 32) ∧
        (zsl.mem.upTo ops score obj ns).length < 2 ^ 64 := by
  rcases hst.upTo_stored hops hsame with ⟨lo, x, hupTo, hlen, hx, hbefore⟩
  rw [hupTo] at hresult ⊢
  have hxseen : Seen ops zsl.mem obj (lo ++ [x]) lo x k := ⟨[], rfl, hx, hsame.2, by simp⟩
  -- another node that is seen hides the pair
  have hother : ∀ {pre z kz}, Seen ops zsl.mem obj (lo ++ [x]) pre z kz →
      (pre = lo ∧ z = x) ∨
        (pre.length < lo.length ∧ kz.1 < score ∧ zsl.mem.size x < zsl.mem.size z) := by
    rintro pre z kz ⟨post, hrow, hkz, hequal, hlow⟩
    rcases split_middle hrow with ⟨m, hlo, hpost⟩ | ⟨hzx, hpre, _⟩ | ⟨m, hnil, _⟩
    · refine Or.inr ⟨?_, ?_, hlow x (by simp [hpost])⟩
      · rw [hlo, List.length_append, List.length_cons]
        omega
      · have hto := ((hbefore z (by simp [hlo])).less hkz hx).of_same hops hsame
        rcases hto with hlt | ⟨heq, hlt⟩
        · exact hlt
        · exact absurd ⟨heq, hequal⟩ (Less.not_same hops (Or.inr ⟨heq, hlt⟩))
    · exact Or.inl ⟨hpre, hzx⟩
    · simp at hnil
  have hsum : ∀ {pre : List A} {z : A},
      (strides zsl.mem.size 0 (pre ++ [z])).sum = pre.length + 1 := by
    intro pre z
    rw [sum_strides (by simp), List.length_append, List.length_singleton, Nat.zero_add]
  rcases hresult with ⟨pre, z, kz, htallest, heq⟩ | ⟨hnone, _⟩
  · rw [heq, ← hlen, List.length_append, List.length_singleton]
    rcases hother htallest.seen with ⟨hpre, hz⟩ | ⟨hshort, hscore, _⟩
    · subst hpre hz
      rw [← hsum, toNat_spanSum_eq_iff]
      refine ⟨fun hexact => ⟨?_, hexact⟩, And.right⟩
      intro pre' z' k' hz'
      rcases hother hz' with ⟨_, hzx⟩ | ⟨_, _, htall⟩
      · rcases hz' with ⟨_, _, hk', _⟩
        rw [hzx, hx] at hk'
        cases hk'
        exact hsame.1.not_lt
      · have hle := htallest.le pre' z' k' hz'
        omega
    · constructor
      · -- the rank of a node in front is smaller, also when spans are cut off
        intro hrank
        have hle : spanSum (strides zsl.mem.size 0 (pre ++ [z])) ≤ pre.length + 1 :=
          hsum ▸ spanSum_le
        have hmod := Nat.mod_le (spanSum (strides zsl.mem.size 0 (pre ++ [z]))) (2 ^ 64)
        rw [UInt64.toNat_ofNat'] at hrank
        omega
      · rintro ⟨hseen, _⟩
        exact absurd hscore (hseen pre z kz htallest.seen)
  · exact absurd hxseen (hnone lo x k)

omit [DecidableEq A] in
theorem Stores.rank_absent_iff
    (hresult : RankResult ops zsl.mem obj (zsl.mem.upTo ops score obj ns)
      (fun row => UInt64.ofNat (spanSum (strides zsl.mem.size 0 row))) rank) :
    rank.toNat = 0 ↔
      ∀ pre z k, Tallest ops zsl.mem obj (zsl.mem.upTo ops score obj ns) pre z k →
        spanSum (strides zsl.mem.size 0 (pre ++ [z])) % 2 ^ 64 = 0 := by
  rcases hresult with ⟨pre, z, k, htallest, heq⟩ | ⟨hnone, heq⟩
  · rw [heq, UInt64.toNat_ofNat']
    constructor
    · intro hzero pre' z' k' htallest'
      rcases htallest.unique htallest' with ⟨hpre, hz⟩
      rw [← hpre, ← hz]
      exact hzero
    · intro hall
      exact hall pre z k htallest
  · rw [heq]
    exact ⟨fun _ pre z k htallest => absurd htallest.seen (hnone pre z k), fun _ => rfl⟩

end Exact

omit [DecidableEq A] in
/-- With fewer than `2^32` nodes no span is cut off: the answer depends on what is seen alone. -/
theorem rankExact_iff_of_few {ops : ObjectOps O} {mem : Memory S O A} {ns : List A}
    {ks : List (S × O)} {score : S} {obj : O} (hfew : ns.length < 2 ^ 32) :
    RankExact ops mem ns ks score obj ↔
      ((∃ k ∈ ks, SamePair ops k (score, obj)) → ∀ pre z k,
        Seen ops mem obj (mem.upTo ops score obj ns) pre z k → ¬ k.1 < score) ∧
      ((∀ k ∈ ks, ¬ SamePair ops k (score, obj)) → ∀ pre z k,
        ¬ Seen ops mem obj (mem.upTo ops score obj ns) pre z k) := by
  have hlen : (mem.upTo ops score obj ns).length ≤ ns.length :=
    (List.takeWhile_sublist _).length_le
  have hlt : ∀ {l : List Nat}, l.sum < 2 ^ 32 → ∀ n ∈ l, n < 2 ^ 32 :=
    fun hsum n hn => Nat.lt_of_le_of_lt (List.le_sum_of_mem hn) hsum
  constructor
  · intro hexact
    refine ⟨fun hstored => (hexact.stored hstored).1, ?_⟩
    intro habsent pre z k hz
    rcases hz.exists_tallest with ⟨pre', z', k', htallest⟩
    have hzero := hexact.absent habsent pre' z' k' htallest
    rcases htallest.seen with ⟨post, hrow, _⟩
    have hrowlen := congrArg List.length hrow
    rw [List.length_append, List.length_cons] at hrowlen
    have hsum : (strides mem.size 0 (pre' ++ [z'])).sum = pre'.length + 1 := by
      rw [sum_strides (by simp), List.length_append, List.length_singleton, Nat.zero_add]
    -- the rank of that node is between 1 and `2^32`
    have hspan := spanSum_eq_iff.2 (hlt (l := strides mem.size 0 (pre' ++ [z'])) (by omega))
    omega
  · rintro ⟨hseen, hnone⟩
    refine ⟨fun hstored => ⟨hseen hstored, ?_, by omega⟩, ?_⟩
    · by_cases hnil : mem.upTo ops score obj ns = []
      · rw [hnil]
        simp [strides]
      · refine hlt ?_
        rw [sum_strides hnil]
        omega
    · intro habsent pre z k htallest
      exact absurd htallest.seen (hnone habsent pre z k)

/-- The answer is right exactly when nothing hides a stored pair or is taken for one that is not
stored, and no span is cut off that matters. -/
theorem zslGetRank_exact_iff [Zero S] {ops : ObjectOps O} (hops : ops.Total)
    {node : A → ZskiplistNode S O A} {header : A} {zsl : Zskiplist S O A}
    (hrun : Run ops node header zsl) (score : S) (obj : O) :
    ∃ ns ks, Follows (fun a => (zsl.mem.column 0 a).forward)
        (zsl.mem.column 0 zsl.header).forward ns ∧ ns.map zsl.mem.pair = ks.map some ∧
      ∀ fuel, ns.length < fuel → ∃ rank, zslGetRank ops fuel score obj zsl = some rank ∧
        (RankAnswer ops ks score obj rank.toNat ↔ RankExact ops zsl.mem ns ks score obj) := by
  rcases run_iff_history.1 hrun with ⟨history, hhistory⟩
  rcases hhistory.stores hops with ⟨ns, ks, hst, _⟩
  refine ⟨ns, ks, hst.rep.wellFormed.chain₀, hst.pairs, ?_⟩
  intro fuel hfuel
  rcases zslGetRank_spec hops hst hfuel score obj with ⟨rank, hrank, hresult⟩
  refine ⟨rank, hrank, ?_⟩
  by_cases hstored : ∃ k ∈ ks, SamePair ops k (score, obj)
  · have hnot : ¬ ∀ k ∈ ks, ¬ SamePair ops k (score, obj) := by
      intro hall
      rcases hstored with ⟨k, hk, hsame⟩
      exact hall k hk hsame
    constructor
    · intro hanswer
      refine ⟨fun _ => ?_, fun hall => absurd hall hnot⟩
      rcases hstored with ⟨k, hk, hsame⟩
      rcases List.append_of_mem hk with ⟨klo, khi, rfl⟩
      exact (hst.rank_stored_iff hops hsame hresult).1 (hanswer.stored klo k khi rfl hsame)
    · intro hexact
      refine ⟨?_, fun hall => absurd hall hnot⟩
      intro klo k khi hks hsame
      subst hks
      exact (hst.rank_stored_iff hops hsame hresult).2 (hexact.stored hstored)
  · have hall : ∀ k ∈ ks, ¬ SamePair ops k (score, obj) :=
      fun k hk hsame => hstored ⟨k, hk, hsame⟩
    have hiff := Stores.rank_absent_iff hresult
    constructor
    · intro hanswer
      exact ⟨fun h => absurd h hstored, fun _ => hiff.1 (hanswer.absent hall)⟩
    · intro hexact
      refine ⟨?_, fun _ => hiff.2 (hexact.absent hall)⟩
      intro klo k khi hks hsame
      exact absurd hsame (hall k (by simp [hks]))

theorem zslGetRank_exact_two : ∃ zsl : Zskiplist Nat Nat (Fin 3),
    Run natOps (fun _ => blankNode) 0 zsl ∧ zslGetRank natOps 3 7 5 zsl = some 2 ∧
      RankAnswer natOps [(7, 4), (7, 5)] 7 5 2 ∧
      RankExact natOps zsl.mem [2, 1] [(7, 4), (7, 5)] 7 5 := by
  rcases exists_inserts_two with
    ⟨zsl₁, zsl, ⟨hempty, hinsert₁⟩, ⟨hfresh, habsent, hinsert₂⟩, -, hfollows, hpair₂, hpair₁⟩
  have hrun₁ : Run natOps (fun _ => blankNode) 0 zsl₁ := Run.create.insert rfl hempty hinsert₁
  have hrun := hrun₁.insert hfresh habsent hinsert₂
  have htwo : ((zslInsert natOps 1 ⟨1, blankNode⟩ 1 7 5 (zslCreate (fun _ => blankNode) 0)).bind
      fun r => (zslInsert natOps 1 ⟨2, blankNode⟩ 2 7 4 r.1).bind fun r =>
        zslGetRank natOps 3 7 5 r.1) = some 2 := rfl
  rw [hinsert₁, Option.bind_some, hinsert₂, Option.bind_some] at htwo
  rcases zslGetRank_exact_iff natOps_total hrun 7 5 with ⟨ns, ks, hchain, hpairs, hrank⟩
  have hns : ns = [2, 1] := hchain.unique hfollows
  subst hns
  have hks : ks = [(7, 4), (7, 5)] := by
    rw [List.map_cons, List.map_cons, hpair₂, hpair₁] at hpairs
    exact (List.map_injective_iff.2 (Option.some_injective _) (by exact hpairs)).symm
  subst hks
  rcases hrank 3 (by decide) with ⟨rank, hget, hiff⟩
  cases htwo.symm.trans hget
  have hanswer : RankAnswer natOps [(7, 4), (7, 5)] 7 5 2 := by
    refine ⟨fun lo k hi hsplit hsame => ?_, fun hnone => ?_⟩
    swap
    · exact absurd (by decide) (hnone (7, 5) (by simp))
    rcases lo with _ | ⟨k₁, _ | ⟨k₂, lo⟩⟩
    · cases hsplit
      exact absurd hsame (by decide)
    · rfl
    · simp at hsplit
  exact ⟨zsl, hrun, htwo, hanswer, hiff.1 hanswer⟩

/-- The object 5 is stored with the scores 1 and 2, the former in a taller node: it is found for
every greater score, stored or not. -/
theorem zslGetRank_not_exact : ∃ (node : Fin 3 → ZskiplistNode Nat Nat (Fin 3))
    (zsl : Zskiplist Nat Nat (Fin 3)), Run natOps node 0 zsl ∧ Sequence zsl [(1, 5), (2, 5)] ∧
      zslGetRank natOps 3 2 5 zsl = some 1 ∧ ¬ RankAnswer natOps [(1, 5), (2, 5)] 2 5 1 ∧
      zslGetRank natOps 3 3 5 zsl = some 1 ∧ ¬ RankAnswer natOps [(1, 5), (2, 5)] 3 5 1 := by
  let blank : ZskiplistNode Nat Nat (Fin 3) := ⟨none, 0, none, fun _ => ⟨none, 0⟩⟩
  have hone : ∃ zsl₁, zslInsert natOps 1 ⟨1, blank⟩ 1 1 5 (zslCreate (fun _ => blank) 0) =
      some (zsl₁, 1) ∧ zsl₁.mem.size 2 = 0 ∧ (∀ a, 0 < zsl₁.mem.size a →
        ∀ k ∈ zsl₁.mem.pair a, ¬ SamePair natOps k (2, 5)) ∧
      ∃ zsl₂, zslInsert natOps 2 ⟨2, blank⟩ 0 2 5 zsl₁ = some (zsl₂, 2) ∧
        Sequence zsl₂ [(1, 5), (2, 5)] ∧ zslGetRank natOps 3 2 5 zsl₂ = some 1 ∧
        zslGetRank natOps 3 3 5 zsl₂ = some 1 := by
    refine ⟨_, rfl, rfl, ?_, _, rfl, ⟨[1, 2], ⟨rfl, rfl, rfl⟩, rfl⟩, by decide, by decide⟩
    decide
  rcases hone with ⟨zsl₁, hinsert₁, hfresh, habsent, zsl₂, hinsert₂, hseq, hstored, hother⟩
  have hempty : Absent natOps (zslCreate (fun _ => blank) 0) 1 5 := by
    unfold Absent
    decide
  have hrun₁ : Run natOps (fun _ => blank) 0 zsl₁ := Run.create.insert rfl hempty hinsert₁
  refine ⟨fun _ => blank, zsl₂, hrun₁.insert hfresh habsent hinsert₂, hseq, hstored, ?_, hother, ?_⟩
  · intro hanswer
    have hplace := hanswer.stored [(1, 5)] (2, 5) [] rfl (by decide)
    exact absurd hplace (by decide)
  · intro hanswer
    exact absurd (hanswer.absent (by decide)) (by decide)

end Skiplist
end UtilsC
