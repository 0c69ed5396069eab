import UtilsC.Skiplist.Insert

/-!
# zslDelete keeps the representation

`unlink_spec` is the loop over the levels, `shrink_spec` the loop that lowers the list.  A deletion
takes out the first node that is not before the pair, and only when that node holds the pair
(`zslDelete_found`); otherwise it changes nothing (`zslDelete_absent`).
-/

namespace UtilsC
namespace Skiplist

open Lib Tower

variable {S O A : Type} [LinearOrder S] [DecidableEq A]

instance (ops : ObjectOps O) (k k' : S × O) : Decidable (SamePair ops k k') :=
  inferInstanceAs (Decidable (_ ∧ _))

variable {ops : ObjectOps O} {zsl : Zskiplist S O A} {lo hi : List A} {x : A}

omit [DecidableEq A] in
theorem isPair_eq {mem : Memory S O A} {score : S} {obj : O} {k : S × O}
    (hlive : 0 < mem.size x) (hk : mem.pair x = some k) :
    isPair ops mem score obj x = some (decide (SamePair ops k (score, obj))) := by
  rcases Option.map_eq_some_iff.1 hk with ⟨o, ho, hk'⟩
  subst hk'
  rw [isPair, if_pos hlive]
  by_cases heq : score = (mem.node x).score
  · simp [SamePair, heq, ho]
  · have heq' : ¬ (mem.node x).score = score := fun h => heq h.symm
    simp [SamePair, heq, heq']

/-! ## The loop over the levels -/

/-- Every level is relinked around `x`, whether `x` reaches it or not. -/
theorem unlink_spec {found : List (A × UInt32)} (hR : Rep ops zsl (lo ++ x :: hi))
    (hfound : Found zsl.mem.size (zsl.header :: lo) zsl.level found) :
    ∃ mem, forLevels (unlinkLevel x) 0 (found.map Prod.fst) zsl.mem = some mem ∧
      SameNodes zsl.mem mem ∧
      (∀ i, i < zsl.level → Column zsl.mem.size i (mem.column i) (zsl.header :: (lo ++ hi))) ∧
      (∀ i, zsl.level ≤ i → mem.column i = zsl.mem.column i) ∧
      mem.column 0 x = zsl.mem.column 0 x := by
  have hentry : ∀ (k : Nat) (u : A), (found.map Prod.fst)[k]? = some u →
      k < zsl.level ∧ ∃ r, Bracket zsl.mem.size k (zsl.header :: lo) u r := by
    intro k u hu
    rw [List.getElem?_map] at hu
    rcases Option.map_eq_some_iff.1 hu with ⟨p, hp, rfl⟩
    rcases hfound.2 k p hp with ⟨r, _, hb⟩
    exact ⟨hfound.1 ▸ (List.getElem?_eq_some_iff.1 hp).1, r, hb⟩
  have hlaw : ∀ k, k < zsl.level →
      Column zsl.mem.size k (zsl.mem.column k) ((zsl.header :: lo) ++ x :: hi) := hR.column
  have hbody : ∀ k u (mem' : Memory S O A), (found.map Prod.fst)[k]? = some u →
      mem'.size = zsl.mem.size → mem'.column (0 + k) = zsl.mem.column (0 + k) →
      unlinkLevel x (0 + k) u mem' =
        some (mem'.setColumn (0 + k) (unlinkColumn x u (mem'.column (0 + k)))) := by
    intro k u mem' hu hsize hcol
    rw [Nat.zero_add] at hcol ⊢
    rcases hentry k u hu with ⟨hk, r, pre, mid, hlo, _, htall, _⟩
    refine unlinkLevel_eq ?_ ?_
    · rwa [hsize]
    · intro hforward
      have hcell := hlaw k hk pre u (mid ++ x :: hi) (by rw [hlo]; simp) htall
      rw [hcol, hcell] at hforward
      rw [hsize]
      exact (next_mem hforward).2
  rcases forLevels_spec hbody with ⟨mem, hloop, hsame, hinside, houtside⟩
  have hlen : (found.map Prod.fst).length = zsl.level := by
    rw [List.length_map, hfound.1]
  have hround : ∀ i, i < zsl.level → ∃ u r, Bracket zsl.mem.size i (zsl.header :: lo) u r ∧
      mem.column i = unlinkColumn x u (zsl.mem.column i) := by
    intro i hi'
    have hlt : i < (found.map Prod.fst).length := hlen.symm ▸ hi'
    have hget := List.getElem?_eq_getElem hlt
    rcases hentry i _ hget with ⟨_, r, hb⟩
    have hcol := hinside i _ hget
    rw [Nat.zero_add] at hcol
    exact ⟨_, r, hb, hcol⟩
  have hnd : ((zsl.header :: lo) ++ x :: hi).Nodup := hR.nodup
  refine ⟨mem, hloop, hsame, ?_, ?_, ?_⟩
  · intro i hi'
    rcases hround i hi' with ⟨u, r, hb, hcol⟩
    rw [hcol]
    exact (hlaw i hi').unlink hb hnd
  · intro i hi'
    exact houtside i (Or.inr (by rw [hlen, Nat.zero_add]; exact hi'))
  · rcases hround 0 hR.level_pos with ⟨u, r, ⟨pre, mid, hlo, _⟩, hcol⟩
    have hux : x ≠ u := by
      have hu : u ∈ zsl.header :: lo := by simp [hlo]
      exact fun hxu => (List.nodup_append.1 hnd).2.2 u hu x (by simp) hxu.symm
    rw [hcol, unlinkColumn]
    split_ifs <;> rw [Function.update_of_ne hux]

/-! ## The loop that lowers the list -/

omit [LinearOrder S] [DecidableEq A] in
theorem shrink_spec {mem : Memory S O A} {header : A} {ns : List A} : ∀ {n : Nat}, 1 ≤ n →
    n ≤ mem.size header → (∀ a ∈ ns, mem.size a ≤ n) →
    (∀ i, i < n → Column mem.size i (mem.column i) (header :: ns)) →
    ∃ level, shrinkLevel mem header n = some level ∧ 1 ≤ level ∧ level ≤ n ∧
      (∀ a ∈ ns, mem.size a ≤ level) ∧ (level = 1 ∨ ∃ a ∈ ns, mem.size a = level) ∧
      ∀ i, level ≤ i → i < n → (mem.column i header).forward = none
  | 0, hpos, _, _, _ => by omega
  | n + 1, _, hsize, hheights, hcol => by
      by_cases hone : 1 < n + 1
      · have hread := Memory.readLevel_eq (Nat.lt_of_succ_le hsize)
        have hcell := hcol n (Nat.lt_succ_self n) [] header ns rfl (Nat.lt_of_succ_le hsize)
        by_cases hnone : (mem.column n header).forward = none
        · -- no node reaches the highest level
          have hlow : Low mem.size n ns := by
            rw [hcell] at hnone
            exact next_eq_none_iff.1 hnone
          rcases shrink_spec (Nat.le_of_lt_succ hone) (Nat.le_of_succ_le hsize) hlow
            (fun i hi => hcol i (Nat.lt_succ_of_lt hi)) with
            ⟨level, hshrink, hpos, hle, hheights', hreach, habove⟩
          refine ⟨level, ?_, hpos, Nat.le_succ_of_le hle, hheights', hreach, ?_⟩
          · simp only [shrinkLevel, if_pos hone, hread, Option.bind_some, hnone, if_true, hshrink]
          · intro i hi hlt
            by_cases hin : i = n
            · rw [hin, hnone]
            · exact habove i hi (by omega)
        · refine ⟨n + 1, ?_, Nat.succ_pos n, Nat.le_refl _, hheights, Or.inr ?_, ?_⟩
          · simp only [shrinkLevel, if_pos hone, hread, Option.bind_some, hnone, if_false]
          · -- the highest level is in use: a node of the row reaches it
            cases hnext : next mem.size n ns with
            | none =>
                rw [hcell] at hnone
                exact absurd hnext hnone
            | some a =>
                rcases next_mem hnext with ⟨ha, htall⟩
                exact ⟨a, ha, Nat.le_antisymm (hheights a ha) htall⟩
          · intro i hi hlt
            omega
      · -- the loop stops at one level, whether that is in use or not
        have hn : n = 0 := by omega
        subst hn
        refine ⟨1, by simp [shrinkLevel], Nat.le_refl _, Nat.le_refl _, hheights, Or.inl rfl, ?_⟩
        intro i hi hlt
        omega

/-! ## The function -/

/-- What a deletion leaves of the memory: all but the block of `x`, with the same pairs. -/
structure Deleted (zsl zsl' : Zskiplist S O A) (x : A) : Prop where
  header : zsl'.header = zsl.header
  pair : ∀ a, zsl'.mem.pair a = zsl.mem.pair a
  size : zsl'.mem.size = Function.update zsl.mem.size x 0

omit [DecidableEq A] in
theorem getLast?_erase (x : A) (lo hi : List A) :
    (if hi = [] then lo.getLast? else (lo ++ x :: hi).getLast?) = (lo ++ hi).getLast? := by
  cases hi with
  | nil => simp
  | cons y hi => simp [List.getLast?_append]

theorem zslDeleteNode_spec {found : List (A × UInt32)} (hR : Rep ops zsl (lo ++ x :: hi))
    (hfound : Found zsl.mem.size (zsl.header :: lo) zsl.level found) :
    ∃ zsl', zslDeleteNode x (found.map Prod.fst) zsl = some zsl' ∧
      Deleted zsl { zsl' with mem := zslFreeNode x zsl'.mem } x ∧
      Rep ops { zsl' with mem := zslFreeNode x zsl'.mem } (lo ++ hi) := by
  rcases unlink_spec hR hfound with ⟨mem₁, hunlink, hsame₁, hcol₁, habove₁, hx₁⟩
  have hnd : ((zsl.header :: lo) ++ x :: hi).Nodup := hR.nodup
  have hnd' := List.nodup_cons.1 (List.perm_middle.nodup_iff.1 hnd)
  have hmem : ∀ a, a ∈ lo ++ hi → a ∈ lo ++ x :: hi := by
    intro a ha
    exact List.perm_middle.mem_iff.2 (List.mem_cons_of_mem x ha)
  have hposns : ∀ a ∈ lo ++ x :: hi, 0 < zsl.mem.size a := fun a ha =>
    (hR.live_iff a).2 (List.mem_cons_of_mem _ ha)
  have hxpos : 0 < mem₁.size x := by
    rw [hsame₁.size]
    exact hposns x (by simp)
  have hlivehi : ∀ y ∈ hi, 0 < mem₁.size y := by
    intro y hy
    rw [hsame₁.size]
    exact hposns y (by simp [hy])
  have hforward : (mem₁.column 0 x).forward = hi.head? := by
    have hcell := hR.column 0 hR.level_pos (zsl.header :: lo) x hi rfl (hposns x (by simp))
    rw [hx₁, hcell, cell]
    exact next_zero fun y hy => hposns y (by simp [hy])
  have hbackx : (mem₁.node x).backward = lo.getLast? :=
    (hsame₁.backward x).trans (hR.back lo x hi rfl)
  rcases setBackward_spec hxpos hforward hlivehi (mem₁.node x).backward zsl.tail with
    ⟨mem₂, tail, hset, hsame₂, hback₂, htail⟩
  have hsize₂ : mem₂.size = zsl.mem.size := hsame₂.size.trans hsame₁.size
  have hcol₂ : ∀ i, i < zsl.level →
      Column mem₂.size i (mem₂.column i) (zsl.header :: (lo ++ hi)) := by
    intro i hi'
    rw [hsize₂, hsame₂.column]
    exact hcol₁ i hi'
  have hheader : zsl.level ≤ mem₂.size zsl.header := by
    rw [hsize₂, hR.header_size]
    exact hR.level_le
  have hheights : ∀ a ∈ lo ++ hi, mem₂.size a ≤ zsl.level := by
    intro a ha
    rw [hsize₂]
    exact hR.heights a (hmem a ha)
  rcases shrink_spec hR.level_pos hheader hheights hcol₂ with
    ⟨level, hshrink, hlevel, hle, hheights', hreach, habove₂⟩
  have hresult : zslDeleteNode x (found.map Prod.fst) zsl =
      some { zsl with mem := mem₂, tail := tail, length := zsl.length - 1, level := level } := by
    simp only [zslDeleteNode, hunlink, Option.bind_some, hset, hshrink, Option.map_some]
  have hne : ∀ a ∈ zsl.header :: (lo ++ hi), a ≠ x := fun a ha hax => hnd'.1 (hax ▸ ha)
  have hsize : (zslFreeNode x mem₂).size = Function.update zsl.mem.size x 0 := by
    rw [← hsize₂]
    rfl
  have hold : ∀ a ∈ zsl.header :: (lo ++ hi), (zslFreeNode x mem₂).size a = mem₂.size a := by
    intro a ha
    rw [hsize, Function.update_of_ne (hne a ha), hsize₂]
  have hpair : ∀ a, (zslFreeNode x mem₂).pair a = zsl.mem.pair a := by
    intro a
    have hpair₂ := pair_congr hsame₂.obj hsame₂.score a
    have hpair₁ := pair_congr hsame₁.obj hsame₁.score a
    exact hpair₂.trans hpair₁
  refine ⟨_, hresult, ⟨rfl, hpair, hsize⟩, ?_⟩
  exact
    { nodup := hnd'.2
      live_iff := fun a => by
        show 0 < (zslFreeNode x mem₂).size a ↔ _
        rw [hsize]
        by_cases hax : a = x
        · subst hax
          -- the block of `x` is freed, and `x` is in the row no more
          rw [Function.update_self]
          exact ⟨fun h => absurd h (Nat.lt_irrefl 0), fun h => absurd h hnd'.1⟩
        · have hiff := hR.live_iff a
          have hperm : a ∈ zsl.header :: (lo ++ x :: hi) ↔ a ∈ zsl.header :: (lo ++ hi) := by
            rw [List.mem_cons, List.mem_cons, List.perm_middle.mem_iff, List.mem_cons]
            simp [hax]
          rw [Function.update_of_ne hax, hiff, hperm]
      header_size := by
        show (zslFreeNode x mem₂).size zsl.header = _
        rw [hold _ (by simp), hsize₂, hR.header_size]
      pairs := fun a ha => by
        rcases hR.pairs a (hmem a ha) with ⟨k, hk⟩
        exact ⟨k, (hpair a).trans hk⟩
      sorted := by
        have hsub : (lo ++ hi).Sublist (lo ++ x :: hi) :=
          (List.Sublist.refl lo).append (List.sublist_cons_self x hi)
        refine (hR.sorted.sublist hsub).imp ?_
        rintro a b ⟨k, k', hk, hk', hless⟩
        exact ⟨k, k', (hpair a).trans hk, (hpair b).trans hk', hless⟩
      level_pos := hlevel
      level_le := Nat.le_trans hle hR.level_le
      heights := fun a ha => by
        show (zslFreeNode x mem₂).size a ≤ level
        rw [hold a (List.mem_cons_of_mem _ ha)]
        exact hheights' a ha
      reached := by
        rcases hreach with hone | ⟨a, ha, hreach⟩
        · exact Or.inl hone
        · exact Or.inr ⟨a, ha, (hold a (List.mem_cons_of_mem _ ha)).trans hreach⟩
      column := fun i hi' => by
        have hlt : i < zsl.level := Nat.lt_of_lt_of_le hi' hle
        exact (hcol₂ i hlt).congr hold fun _ _ _ => rfl
      above := fun i hi' hmax => by
        show (mem₂.column i zsl.header).forward = none
        by_cases hlt : i < zsl.level
        · exact habove₂ i hi' hlt
        · have hge : zsl.level ≤ i := Nat.le_of_not_lt hlt
          rw [hsame₂.column, habove₁ i hge]
          exact hR.above i hge hmax
      back := by
        refine hR.back.erase (List.nodup_cons.1 hnd).2 ?_ ?_
        · intro y hy
          show (mem₂.node y).backward = (zsl.mem.node x).backward
          rw [hback₂, if_pos hy, hsame₁.backward]
        · intro a hy
          show (mem₂.node a).backward = (zsl.mem.node a).backward
          rw [hback₂, if_neg hy, hsame₁.backward]
      tail := by
        show tail = _
        rw [htail, hbackx, hR.tail, getLast?_erase]
      length := by
        show zsl.length - 1 = _
        have hlen : (lo ++ x :: hi).length = (lo ++ hi).length + 1 := by
          simp only [List.length_append, List.length_cons]
          omega
        rw [hR.length, hlen, UInt64.ofNat_add]
        grind }

section Delete

variable {score : S} {obj : O} {fuel : Nat} {k : S × O}

omit [DecidableEq A] in
/-- The node the search ends in front of. -/
theorem search_head (hR : Rep ops zsl (lo ++ hi)) (hcut : Cut ops zsl.mem score obj lo hi)
    (hfuel : lo.length < fuel) :
    ∃ found u₀ l, search ops zsl.mem score obj fuel zsl.level zsl.header 0 = some found ∧
      Found zsl.mem.size (zsl.header :: lo) zsl.level found ∧ found.head? = some u₀ ∧
      zsl.mem.readLevel u₀.1 0 = some l ∧ l.forward = hi.head? := by
  rcases hR.search hcut hfuel with ⟨found, hsearch, hfound⟩
  have hne : 0 < found.length := by
    rw [hfound.1]
    exact hR.level_pos
  have hget : found[0]? = some found[0] := List.getElem?_eq_getElem hne
  -- on level 0 every node of the row is seen, so `update[0]` stands right before the rest
  rcases hfound.2 0 _ hget with ⟨r, _, pre, mid, hlo, hr, htall, hlow⟩
  have hpos : ∀ a ∈ lo ++ hi, 0 < zsl.mem.size a := fun a ha =>
    (hR.live_iff a).2 (List.mem_cons_of_mem _ ha)
  have hsplit : zsl.header :: (lo ++ hi) = pre ++ found[0].1 :: (mid ++ hi) := by
    rw [← List.cons_append, hlo]
    simp
  have hcell := hR.column 0 hR.level_pos pre found[0].1 (mid ++ hi) hsplit htall
  refine ⟨found, found[0], _, hsearch, hfound, by rw [List.head?_eq_getElem?, hget],
    Memory.readLevel_eq htall, ?_⟩
  rw [hcell, cell_low hlow]
  exact next_zero fun a ha => hpos a (by simp [ha])

theorem zslDelete_found (hR : Rep ops zsl (lo ++ x :: hi))
    (hcut : Cut ops zsl.mem score obj lo (x :: hi)) (hfuel : lo.length < fuel)
    (hk : zsl.mem.pair x = some k) (hsame : SamePair ops k (score, obj)) :
    ∃ zsl', zslDelete ops fuel score obj zsl = some (zsl', 1) ∧ Deleted zsl zsl' x ∧
      Rep ops zsl' (lo ++ hi) := by
  rcases search_head hR hcut hfuel with ⟨found, u₀, l, hsearch, hfound, hhead, hread, hforward⟩
  rw [List.head?_cons] at hforward
  have hlive : 0 < zsl.mem.size x := (hR.live_iff x).2 (by simp)
  have hpair : isPair ops zsl.mem score obj _ = _ := isPair_eq hlive hk
  rw [decide_eq_true hsame] at hpair
  rcases zslDeleteNode_spec hR hfound with ⟨zsl', hdelete, hdeleted, hR'⟩
  refine ⟨_, ?_, hdeleted, hR'⟩
  simp only [zslDelete, hsearch, Option.bind_some, hhead, hread, hforward, hpair, if_true,
    hdelete, Option.map_some]

theorem zslDelete_absent (hR : Rep ops zsl (lo ++ hi))
    (hcut : Cut ops zsl.mem score obj lo hi) (hfuel : lo.length < fuel)
    (habsent : ∀ y, hi.head? = some y → ∀ k, zsl.mem.pair y = some k →
      ¬ SamePair ops k (score, obj)) :
    zslDelete ops fuel score obj zsl = some (zsl, 0) := by
  rcases search_head hR hcut hfuel with ⟨found, u₀, l, hsearch, _, hhead, hread, hforward⟩
  cases hi with
  | nil =>
      rw [List.head?_nil] at hforward
      simp only [zslDelete, hsearch, Option.bind_some, hhead, hread, hforward]
  | cons y hi =>
      rw [List.head?_cons] at hforward
      have hmem : y ∈ lo ++ y :: hi := by simp
      have hlive : 0 < zsl.mem.size y := (hR.live_iff y).2 (List.mem_cons_of_mem _ hmem)
      rcases hR.pairs y hmem with ⟨k, hk⟩
      have hpair : isPair ops zsl.mem score obj _ = _ := isPair_eq hlive hk
      rw [decide_eq_false (habsent y rfl k hk)] at hpair
      simp only [zslDelete, hsearch, Option.bind_some, hhead, hread, hforward, hpair]
      rfl

/-- A deletion returns, and the result is represented. -/
theorem zslDelete_spec {ns : List A} (hops : ops.Total) (hR : Rep ops zsl ns)
    (hfuel : ns.length < fuel) (score : S) (obj : O) :
    ∃ zsl' ret ns', zslDelete ops fuel score obj zsl = some (zsl', ret) ∧ Rep ops zsl' ns' := by
  rcases hR.exists_cut hops score obj with ⟨lo, hi, rfl, hcut⟩
  have hfuel' : lo.length < fuel := by
    rw [List.length_append] at hfuel
    omega
  by_cases hfound : ∃ y k, hi.head? = some y ∧ zsl.mem.pair y = some k ∧
      SamePair ops k (score, obj)
  · rcases hfound with ⟨y, k, hhead, hk, hsame⟩
    rcases List.head?_eq_some_iff.1 hhead with ⟨hi', rfl⟩
    rcases zslDelete_found hR hcut hfuel' hk hsame with ⟨zsl', hdelete, _, hR'⟩
    exact ⟨zsl', 1, lo ++ hi', hdelete, hR'⟩
  · refine ⟨zsl, 0, lo ++ hi, zslDelete_absent hR hcut hfuel' ?_, hR⟩
    intro y hy k hk hsame
    exact hfound ⟨y, k, hy, hk, hsame⟩

end Delete

end Skiplist
end UtilsC
