import UtilsC.Skiplist.Run
import Mathlib.Data.List.Sort

/-!
# A skiplist is a sorted set

The abstract component is a set of pairs with two transitions, `SetOp.apply`.  `History` is a run
of the code with its operations, and leaves open what a run has besides: the levels drawn, the
blocks `malloc` returns, the fuel.

* `Sequence zsl ks`: following the links of level 0 one reads the pairs `ks`.
* `History.stores`: those are the pairs of the abstract set.
* `SortedSet`: the sequence is strictly sorted, and what insertion and deletion do to it.
* A strictly sorted sequence is known from its members, so nothing else in a run has a part in it.
-/

namespace UtilsC
namespace Skiplist

open Lib Tower

/-! ## The order of the pairs -/

section Order

variable {S O : Type} [LinearOrder S] {ops : ObjectOps O} {k k' k'' : S × O}

theorem ObjectOps.Total.not_lt_self (hops : ops.Total) (a : O) :
    ¬ ops.compareStringObjects a a < 0 := by
  intro hlt
  have hgt := (hops.swap a a).1 hlt
  omega

theorem Less.irrefl (hops : ops.Total) (k : S × O) : ¬ Less ops k k := by
  rintro (hlt | ⟨_, hlt⟩)
  · exact absurd hlt (lt_irrefl k.1)
  · exact hops.not_lt_self k.2 hlt

theorem Less.not_same (hops : ops.Total) (hless : Less ops k k') : ¬ SamePair ops k k' := by
  rintro ⟨hscore, hequal⟩
  rcases hless with hlt | ⟨_, hlt⟩
  · exact absurd hscore hlt.ne
  · have hzero := (hops.equal_iff _ _).1 hequal
    omega

/-- What is less than a pair is less than the same pair. -/
theorem Less.of_same (hops : ops.Total) (hless : Less ops k k') (hsame : SamePair ops k' k'') :
    Less ops k k'' := by
  rcases hsame with ⟨hscore, hequal⟩
  have hzero := (hops.equal_iff _ _).1 hequal
  rcases hless with hlt | ⟨hscore', hlt⟩
  · exact Or.inl (hscore ▸ hlt)
  · refine Or.inr ⟨hscore'.trans hscore, ?_⟩
    -- equal objects compare as 0, so the strict comparison is carried along both ways
    have hle := hops.trans k.2 k'.2 k''.2 hlt.le hzero.le
    by_contra hnot
    have hback : ops.compareStringObjects k''.2 k.2 ≤ 0 := by
      by_contra hpos
      exact hnot ((hops.swap k.2 k''.2).2 (Int.not_le.1 hpos))
    have hback' := hops.trans k'.2 k''.2 k.2 hzero.le hback
    have hgt := (hops.swap k.2 k'.2).1 hlt
    omega

/-- Two strictly sorted sequences with the same members are the same. -/
theorem eq_of_sorted (hops : ops.Total) {ks ks' : List (S × O)} (hks : ks.Pairwise (Less ops))
    (hks' : ks'.Pairwise (Less ops)) (hmem : ∀ k, k ∈ ks ↔ k ∈ ks') : ks = ks' := by
  have hirrefl : Std.Irrefl (Less (S := S) ops) := ⟨Less.irrefl hops⟩
  have hantisymm : Std.Antisymm (Less (S := S) ops) :=
    ⟨fun a b hab hba => absurd (hab.trans hops hba) (Less.irrefl hops a)⟩
  exact hks.eq_of_mem_iff hks' hmem

end Order

/-! ## The abstract set -/

inductive SetOp (S O : Type)
  | insert (k : S × O)
  | delete (k : S × O)

section Abstract

variable {S O : Type}

def SetOp.apply (ops : ObjectOps O) (s : Set (S × O)) : SetOp S O → Set (S × O)
  | .insert k => s ∪ {k}
  | .delete k => {k' | k' ∈ s ∧ ¬ SamePair ops k' k}

/-- The set that operations make of the empty one. -/
def denote (ops : ObjectOps O) (history : List (SetOp S O)) : Set (S × O) :=
  history.foldl (SetOp.apply ops) ∅

variable {ops : ObjectOps O} {history : List (SetOp S O)}

theorem denote_concat (op : SetOp S O) :
    denote ops (history ++ [op]) = op.apply ops (denote ops history) := by
  simp only [denote, List.foldl_append, List.foldl_cons, List.foldl_nil]

theorem foldl_insertions (ps : List (S × O)) (s : Set (S × O)) :
    (ps.map SetOp.insert).foldl (SetOp.apply ops) s = s ∪ {k | k ∈ ps} := by
  induction ps generalizing s with
  | nil => simp
  | cons p ps ih =>
      rw [List.map_cons, List.foldl_cons, ih, SetOp.apply, Set.union_assoc]
      congr 1
      ext k
      simp

/-- The same operations, but for the order of insertions in a row. -/
inductive Reordered : List (SetOp S O) → List (SetOp S O) → Prop
  | refl (history : List (SetOp S O)) : Reordered history history
  | insertions (pre post : List (SetOp S O)) {ps ps' : List (S × O)} (hperm : ps.Perm ps') :
      Reordered (pre ++ ps.map .insert ++ post) (pre ++ ps'.map .insert ++ post)
  | trans {history history' history'' : List (SetOp S O)} (h : Reordered history history')
      (h' : Reordered history' history'') : Reordered history history''

theorem Reordered.denote_eq {history' : List (SetOp S O)} (h : Reordered history history') :
    denote ops history = denote ops history' := by
  induction h with
  | refl => rfl
  | @insertions pre post ps ps' hperm =>
      have hset : {k | k ∈ ps} = {k | k ∈ ps'} := by
        ext k
        exact hperm.mem_iff
      simp only [denote, List.foldl_append, foldl_insertions, hset]
  | trans _ _ ih ih' => exact ih.trans ih'

end Abstract

/-! ## The pairs of a list -/

variable {S O A : Type} [LinearOrder S] [DecidableEq A]

/-- The links of level 0 lead through nodes that hold the pairs `ks`. -/
def Sequence (zsl : Zskiplist S O A) (ks : List (S × O)) : Prop :=
  ∃ ns, Follows (fun a => (zsl.mem.column 0 a).forward) (zsl.mem.column 0 zsl.header).forward ns ∧
    ns.map zsl.mem.pair = ks.map some

/-- A represented list and the pairs of its nodes. -/
structure Stores (ops : ObjectOps O) (zsl : Zskiplist S O A) (ns : List A) (ks : List (S × O)) :
    Prop where
  rep : Rep ops zsl ns
  header : zsl.mem.pair zsl.header = none
  pairs : ns.map zsl.mem.pair = ks.map some

section Pairs

variable {ops : ObjectOps O} {zsl : Zskiplist S O A} {ns : List A} {ks : List (S × O)}

omit [LinearOrder S] [DecidableEq A] in
theorem Sequence.unique {ks' : List (S × O)} (h : Sequence zsl ks) (h' : Sequence zsl ks') :
    ks = ks' := by
  rcases h with ⟨ns, hfollows, hpairs⟩
  rcases h' with ⟨ns', hfollows', hpairs'⟩
  -- the links lead through one sequence of nodes only
  have hsame : ns = ns' := hfollows.unique hfollows'
  subst hsame
  exact List.map_injective_iff.2 (Option.some_injective _) (hpairs.symm.trans hpairs')

omit [DecidableEq A] in
theorem Stores.sequence (hst : Stores ops zsl ns ks) : Sequence zsl ks :=
  ⟨ns, hst.rep.wellFormed.chain₀, hst.pairs⟩

omit [DecidableEq A] in
theorem Stores.length (hst : Stores ops zsl ns ks) : ns.length = ks.length := by
  have hlen := congrArg List.length hst.pairs
  rwa [List.length_map, List.length_map] at hlen

omit [DecidableEq A] in
theorem Stores.sorted (hst : Stores ops zsl ns ks) : ks.Pairwise (Less ops) := by
  have hsorted : (ns.map zsl.mem.pair).Pairwise
      fun p q => ∃ k k', p = some k ∧ q = some k' ∧ Less ops k k' :=
    List.pairwise_map.2 hst.rep.sorted
  rw [hst.pairs, List.pairwise_map] at hsorted
  refine hsorted.imp ?_
  rintro k k' ⟨k₁, k₂, hk₁, hk₂, hless⟩
  rwa [Option.some.inj hk₁, Option.some.inj hk₂]

omit [DecidableEq A] in
theorem Stores.live (hst : Stores ops zsl ns ks) {a : A} (ha : a ∈ ns) : 0 < zsl.mem.size a :=
  (hst.rep.live_iff a).2 (List.mem_cons_of_mem _ ha)

omit [DecidableEq A] in
theorem Stores.exists_pair (hst : Stores ops zsl ns ks) {a : A} (ha : a ∈ ns) :
    ∃ k, zsl.mem.pair a = some k ∧ 0 < zsl.mem.size a := by
  rcases hst.rep.pairs a ha with ⟨k, hk⟩
  exact ⟨k, hk, hst.live ha⟩

omit [DecidableEq A] in
theorem Stores.mem_of_pair (hst : Stores ops zsl ns ks) {a : A} {k : S × O} (ha : a ∈ ns)
    (hk : zsl.mem.pair a = some k) : k ∈ ks := by
  have hmem : some k ∈ ns.map zsl.mem.pair := List.mem_map.2 ⟨a, ha, hk⟩
  rw [hst.pairs] at hmem
  rcases List.mem_map.1 hmem with ⟨k', hk', hsome⟩
  exact Option.some.inj hsome ▸ hk'

omit [DecidableEq A] in
/-- The pairs of a part of the nodes are a part of the pairs. -/
theorem Stores.split (hst : Stores ops zsl ns ks) {lo hi : List A} (hns : ns = lo ++ hi) :
    ∃ klo khi, ks = klo ++ khi ∧ lo.map zsl.mem.pair = klo.map some ∧
      hi.map zsl.mem.pair = khi.map some := by
  have hpairs := hst.pairs
  rw [hns, List.map_append] at hpairs
  rcases List.map_eq_append_iff.1 hpairs.symm with ⟨klo, khi, hks, hlo, hhi⟩
  exact ⟨klo, khi, hks, hlo.symm, hhi.symm⟩

omit [DecidableEq A] in
/-- `Absent`, said of the sequence; the header holds no pair. -/
theorem Stores.absent_iff (hst : Stores ops zsl ns ks) {score : S} {obj : O} :
    Absent ops zsl score obj ↔ ∀ k ∈ ks, ¬ SamePair ops k (score, obj) := by
  constructor
  · intro habsent k hk
    have hmem : some k ∈ ns.map zsl.mem.pair := hst.pairs ▸ List.mem_map_of_mem hk
    rcases List.mem_map.1 hmem with ⟨a, ha, hpair⟩
    exact habsent a (hst.live ha) k hpair
  · intro hks a hlive k hk
    rcases List.mem_cons.1 ((hst.rep.live_iff a).1 hlive) with hah | ha
    · rw [hah, hst.header] at hk
      cases hk
    · exact hks k (hst.mem_of_pair ha hk)

end Pairs

/-! ## One operation -/

section Operations

variable {ops : ObjectOps O} {zsl : Zskiplist S O A} {ns : List A} {ks : List (S × O)}
  {fuel : Nat} {score : S} {obj : O}

/-- An absent pair is added in its place. -/
theorem Stores.insert (hops : ops.Total) (hst : Stores ops zsl ns ks) (hfuel : ks.length < fuel)
    {malloc : Block S O A} (hfresh : zsl.mem.size malloc.addr = 0)
    (hnew : ∀ k ∈ ks, ¬ SamePair ops k (score, obj)) (hits : Nat) :
    ∃ zsl' ns' klo khi, ks = klo ++ khi ∧
      zslInsert ops fuel malloc hits score obj zsl = some (zsl', malloc.addr) ∧
      Stores ops zsl' ns' (klo ++ (score, obj) :: khi) := by
  rcases hst.rep.exists_cut hops score obj with ⟨lo, hi, hns, hcut⟩
  rcases hst.split hns with ⟨klo, khi, hks, hlo, hhi⟩
  have hlen := hst.length
  subst hns
  rw [List.length_append] at hlen
  have hnew' : ∀ a ∈ lo ++ hi, ∀ k, zsl.mem.pair a = some k → ¬ SamePair ops k (score, obj) :=
    fun a ha k hk => hnew k (hst.mem_of_pair ha hk)
  have hfuel' : lo.length < fuel := by omega
  rcases zslInsert_spec hops hst.rep hcut hfuel' hfresh hnew' hits with
    ⟨zsl', hinsert, hinserted, hR'⟩
  -- the block is fresh, so the other nodes and the header keep their pairs
  have hkeep : ∀ a, 0 < zsl.mem.size a → zsl'.mem.pair a = zsl.mem.pair a := by
    intro a hlive
    have hne : a ≠ malloc.addr := by
      rintro rfl
      omega
    rw [hinserted.pair, if_neg hne]
  have hkeepmap : ∀ {l : List A}, (∀ a ∈ l, a ∈ lo ++ hi) →
      l.map zsl'.mem.pair = l.map zsl.mem.pair :=
    fun hl => List.map_congr_left fun a ha => hkeep a (hst.live (hl a ha))
  refine ⟨zsl', _, klo, khi, hks, hinsert, hR', ?_, ?_⟩
  · rw [hinserted.header, hkeep _ ((hst.rep.live_iff _).2 (by simp)), hst.header]
  · rw [List.map_append, List.map_cons, List.map_append, List.map_cons,
      hkeepmap fun a ha => List.mem_append_left hi ha,
      hkeepmap fun a ha => List.mem_append_right lo ha, hlo, hhi, hinserted.pair, if_pos rfl]

omit [DecidableEq A] in
/-- The pairs in front of a stored pair are before it, and no other pair is. -/
theorem Stores.cut_at (hops : ops.Total) {lo hi : List A} {x : A} {k : S × O}
    (hst : Stores ops zsl (lo ++ x :: hi) ks) (hk : zsl.mem.pair x = some k)
    (hsame : SamePair ops k (score, obj)) : Cut ops zsl.mem score obj lo (x :: hi) := by
  have hsorted := List.pairwise_append.1 hst.rep.sorted
  constructor
  · intro a ha
    rcases hst.exists_pair (List.mem_append_left _ ha) with ⟨ka, hka, hlive⟩
    have hless := (hsorted.2.2 a ha x (by simp)).less hka hk
    rw [before_eq hlive hka, decide_eq_true (hless.of_same hops hsame)]
  · intro a ha
    rcases List.mem_cons.1 ha with hax | ha'
    · have hnot : ¬ Less ops k (score, obj) := fun hless => hless.not_same hops hsame
      rw [hax, before_eq (hst.live (by simp)) hk, decide_eq_false hnot]
    · rcases hst.exists_pair (List.mem_append_right lo ha) with ⟨ka, hka, hlive⟩
      have hless := ((List.pairwise_cons.1 hsorted.2.1).1 a ha').less hk hka
      -- a later pair that is before would put the stored one before too
      have hnot : ¬ Less ops ka (score, obj) :=
        fun hless' => (hless.trans hops hless').not_same hops hsame
      rw [before_eq hlive hka, decide_eq_false hnot]

/-- A stored pair is removed, and the others are kept. -/
theorem Stores.delete_present (hops : ops.Total) {klo khi : List (S × O)} {k : S × O}
    (hst : Stores ops zsl ns (klo ++ k :: khi)) (hfuel : (klo ++ k :: khi).length < fuel)
    (hsame : SamePair ops k (score, obj)) :
    ∃ zsl' ns', zslDelete ops fuel score obj zsl = some (zsl', 1) ∧
      Stores ops zsl' ns' (klo ++ khi) := by
  have hpairs := hst.pairs
  rw [List.map_append, List.map_cons] at hpairs
  rcases List.map_eq_append_iff.1 hpairs with ⟨lo, rest, rfl, hlo, hrest⟩
  rcases List.map_eq_cons_iff.1 hrest with ⟨x, hi, rfl, hx, hhi⟩
  have hlen := hst.length
  rw [← hlen, List.length_append] at hfuel
  have hfuel' : lo.length < fuel := by omega
  rcases zslDelete_found hst.rep (hst.cut_at hops hx hsame) hfuel' hx hsame with
    ⟨zsl', hdelete, hdeleted, hR'⟩
  refine ⟨zsl', lo ++ hi, hdelete, hR', ?_, ?_⟩
  · rw [hdeleted.header, hdeleted.pair, hst.header]
  · have hpair : zsl'.mem.pair = zsl.mem.pair := funext hdeleted.pair
    rw [List.map_append, List.map_append, hpair, hlo, hhi]

theorem Stores.delete_absent (hops : ops.Total) (hst : Stores ops zsl ns ks)
    (hfuel : ks.length < fuel) (habsent : ∀ k ∈ ks, ¬ SamePair ops k (score, obj)) :
    zslDelete ops fuel score obj zsl = some (zsl, 0) := by
  rcases hst.rep.exists_cut hops score obj with ⟨lo, hi, rfl, hcut⟩
  have hlen := hst.length
  rw [List.length_append] at hlen
  refine zslDelete_absent hst.rep hcut (by omega) ?_
  intro y hy k hk
  exact habsent k (hst.mem_of_pair (List.mem_append_right lo (List.mem_of_head? hy)) hk)

end Operations

/-! ## Runs with their operations -/

/-- The operations of a run, in their order.  Insertions are of pairs that are absent. -/
inductive History [Zero S] (ops : ObjectOps O) (node : A → ZskiplistNode S O A) (header : A) :
    List (SetOp S O) → Zskiplist S O A → Prop
  | create : History ops node header [] (zslCreate node header)
  | insert {history : List (SetOp S O)} {zsl zsl' : Zskiplist S O A} {fuel hits : Nat}
      {malloc : Block S O A} {score : S} {obj : O} {x : A}
      (hrun : History ops node header history zsl) (hfresh : zsl.mem.size malloc.addr = 0)
      (hnew : Absent ops zsl score obj)
      (hinsert : zslInsert ops fuel malloc hits score obj zsl = some (zsl', x)) :
      History ops node header (history ++ [.insert (score, obj)]) zsl'
  | delete {history : List (SetOp S O)} {zsl zsl' : Zskiplist S O A} {fuel : Nat} {score : S}
      {obj : O} {ret : Int} (hrun : History ops node header history zsl)
      (hdelete : zslDelete ops fuel score obj zsl = some (zsl', ret)) :
      History ops node header (history ++ [.delete (score, obj)]) zsl'

/-- Every list that can be made has a history. -/
theorem run_iff_history [Zero S] {ops : ObjectOps O} {node : A → ZskiplistNode S O A} {header : A}
    {zsl : Zskiplist S O A} :
    Run ops node header zsl ↔ ∃ history, History ops node header history zsl := by
  constructor
  · intro hrun
    induction hrun with
    | create => exact ⟨[], .create⟩
    | insert _ hfresh hnew hinsert ih =>
        rcases ih with ⟨history, hhistory⟩
        exact ⟨_, hhistory.insert hfresh hnew hinsert⟩
    | delete _ hdelete ih =>
        rcases ih with ⟨history, hhistory⟩
        exact ⟨_, hhistory.delete hdelete⟩
  · rintro ⟨history, hhistory⟩
    induction hhistory with
    | create => exact .create
    | insert _ hfresh hnew hinsert ih => exact ih.insert hfresh hnew hinsert
    | delete _ hdelete ih => exact ih.delete hdelete

section Histories

variable [Zero S] {ops : ObjectOps O} {node : A → ZskiplistNode S O A} {header : A}
  {zsl zsl' : Zskiplist S O A} {history : List (SetOp S O)}

omit [Zero S] [DecidableEq A] in
/-- Around a stored pair no other pair is the same. -/
theorem mem_delete_iff (hops : ops.Total) {klo khi : List (S × O)} {k key : S × O}
    (hsorted : (klo ++ k :: khi).Pairwise (Less ops)) (hsame : SamePair ops k key) (k' : S × O) :
    k' ∈ klo ++ khi ↔ k' ∈ klo ++ k :: khi ∧ ¬ SamePair ops k' key := by
  have hparts := List.pairwise_append.1 hsorted
  constructor
  · intro hk'
    refine ⟨List.perm_middle.mem_iff.2 (List.mem_cons_of_mem k hk'), ?_⟩
    rcases List.mem_append.1 hk' with hlo | hhi
    · have hless := hparts.2.2 k' hlo k (by simp)
      exact (hless.of_same hops hsame).not_same hops
    · intro hsame'
      have hless := (List.pairwise_cons.1 hparts.2.1).1 k' hhi
      exact (hless.of_same hops hsame').not_same hops hsame
  · rintro ⟨hk', hnot⟩
    rcases List.mem_cons.1 (List.perm_middle.mem_iff.1 hk') with hkk | hother
    · exact absurd (hkk ▸ hsame) hnot
    · exact hother

/-- The list holds the pairs of the abstract set. -/
theorem History.stores (hops : ops.Total) (hrun : History ops node header history zsl) :
    ∃ ns ks, Stores ops zsl ns ks ∧ ∀ k, k ∈ ks ↔ k ∈ denote ops history := by
  induction hrun with
  | create =>
      refine ⟨[], [], ⟨zslCreate_rep ops node header, ?_, rfl⟩, ?_⟩
      · simp [zslCreate, zslCreateNode, Memory.pair]
      · intro k
        simp [denote]
  | @insert history zsl zsl' fuel hits malloc score obj x _ hfresh hnew hinsert ih =>
      rcases ih with ⟨ns, ks, hst, hmem⟩
      -- the operation returned, so it returns the same with fuel for the whole list
      rcases hst.insert hops (Nat.lt_succ_self _) hfresh (hst.absent_iff.1 hnew) hits with
        ⟨zsl₁, ns', klo, khi, hks, hspec, hst'⟩
      have hsame : zsl₁ = zsl' := congrArg Prod.fst (zslInsert_unique hspec hinsert)
      subst hsame
      refine ⟨ns', _, hst', ?_⟩
      intro k
      rw [denote_concat, SetOp.apply, Set.mem_union, ← hmem k, hks, List.perm_middle.mem_iff,
        List.mem_cons, Set.mem_singleton_iff, or_comm]
  | @delete history zsl zsl' fuel score obj ret _ hdelete ih =>
      rcases ih with ⟨ns, ks, hst, hmem⟩
      by_cases hstored : ∃ k ∈ ks, SamePair ops k (score, obj)
      · rcases hstored with ⟨k, hk, hsame⟩
        rcases List.append_of_mem hk with ⟨klo, khi, rfl⟩
        rcases hst.delete_present hops (Nat.lt_succ_self _) hsame with ⟨zsl₁, ns', hspec, hst'⟩
        have heq : zsl₁ = zsl' := congrArg Prod.fst (zslDelete_unique hspec hdelete)
        subst heq
        refine ⟨ns', _, hst', ?_⟩
        intro k'
        -- the set drops every pair that is the same, and only one is stored
        rw [denote_concat, mem_delete_iff hops hst.sorted hsame, hmem k']
        rfl
      · -- nothing is removed, here and in the set
        have hnone : ∀ k ∈ ks, ¬ SamePair ops k (score, obj) :=
          fun k hk hsame => hstored ⟨k, hk, hsame⟩
        have hspec := hst.delete_absent hops (Nat.lt_succ_self _) hnone
        have heq : zsl = zsl' := congrArg Prod.fst (zslDelete_unique hspec hdelete)
        subst heq
        refine ⟨ns, ks, hst, ?_⟩
        intro k
        rw [denote_concat, hmem k]
        exact ⟨fun hk => ⟨hk, hnone k ((hmem k).2 hk)⟩, And.left⟩

end Histories

/-! ## The sorted set -/

/-- What a list with the pairs `ks` is and does as a set. -/
structure SortedSet (ops : ObjectOps O) (zsl : Zskiplist S O A) (ks : List (S × O)) : Prop where
  sequence : Sequence zsl ks
  sorted : ks.Pairwise (Less ops)
  /-- An insertion adds the pair in its place, whatever the level of the new node. -/
  insert : ∀ (fuel hits : Nat) (malloc : Block S O A) (score : S) (obj : O), ks.length < fuel →
    zsl.mem.size malloc.addr = 0 → (∀ k ∈ ks, ¬ SamePair ops k (score, obj)) →
    ∃ zsl' lo hi, ks = lo ++ hi ∧
      zslInsert ops fuel malloc hits score obj zsl = some (zsl', malloc.addr) ∧
      Sequence zsl' (lo ++ (score, obj) :: hi) ∧
      (lo ++ (score, obj) :: hi).Pairwise (Less ops)
  /-- A deletion of a stored pair returns 1 and removes that pair. -/
  delete_present : ∀ (fuel : Nat) (score : S) (obj : O) (lo hi : List (S × O)) (k : S × O),
    ks.length < fuel → ks = lo ++ k :: hi → SamePair ops k (score, obj) →
    ∃ zsl', zslDelete ops fuel score obj zsl = some (zsl', 1) ∧ Sequence zsl' (lo ++ hi)
  /-- A deletion of another pair returns 0, and nothing has changed. -/
  delete_absent : ∀ (fuel : Nat) (score : S) (obj : O), ks.length < fuel →
    (∀ k ∈ ks, ¬ SamePair ops k (score, obj)) →
    zslDelete ops fuel score obj zsl = some (zsl, 0)

theorem Stores.sortedSet {ops : ObjectOps O} (hops : ops.Total) {zsl : Zskiplist S O A}
    {ns : List A} {ks : List (S × O)} (hst : Stores ops zsl ns ks) : SortedSet ops zsl ks where
  sequence := hst.sequence
  sorted := hst.sorted
  insert := by
    intro fuel hits malloc score obj hfuel hfresh hnew
    rcases hst.insert hops hfuel hfresh hnew hits with ⟨zsl', ns', lo, hi, hks, hinsert, hst'⟩
    exact ⟨zsl', lo, hi, hks, hinsert, hst'.sequence, hst'.sorted⟩
  delete_present := by
    intro fuel score obj lo hi k hfuel hks hsame
    subst hks
    rcases hst.delete_present hops hfuel hsame with ⟨zsl', ns', hdelete, hst'⟩
    exact ⟨zsl', hdelete, hst'.sequence⟩
  delete_absent := fun fuel score obj hfuel habsent => hst.delete_absent hops hfuel habsent

/-- Runs that make the same set leave the same sequence, with whatever levels, blocks and
addresses. -/
theorem History.sequence_eq [Zero S] {A' : Type} [DecidableEq A'] {ops : ObjectOps O}
    (hops : ops.Total) {node : A → ZskiplistNode S O A} {header : A} {zsl : Zskiplist S O A}
    {node' : A' → ZskiplistNode S O A'} {header' : A'} {zsl' : Zskiplist S O A'}
    {history history' : List (SetOp S O)} (hrun : History ops node header history zsl)
    (hrun' : History ops node' header' history' zsl')
    (hset : denote ops history = denote ops history') {ks : List (S × O)}
    (hks : Sequence zsl ks) : Sequence zsl' ks := by
  rcases hrun.stores hops with ⟨ns, ks₁, hst, hmem⟩
  rcases hrun'.stores hops with ⟨ns', ks', hst', hmem'⟩
  -- both sequences are sorted and have the members of one set
  have hsame : ks = ks' := by
    rw [hks.unique hst.sequence]
    refine eq_of_sorted hops hst.sorted hst'.sorted ?_
    intro k
    rw [hmem k, hmem' k, hset]
  rw [hsame]
  exact hst'.sequence

/-- Every list that can be made is a sorted set.  Its pairs are those its operations make, and its
sequence is that of every other run of them, also when insertions in a row come in another
order. -/
theorem zsl_sortedSet [Zero S] {ops : ObjectOps O} (hops : ops.Total)
    {node : A → ZskiplistNode S O A} {header : A} {zsl : Zskiplist S O A}
    (hrun : Run ops node header zsl) :
    ∃ ks, SortedSet ops zsl ks ∧ ∀ history, History ops node header history zsl →
      (∀ k, k ∈ ks ↔ k ∈ denote ops history) ∧
      ∀ {A' : Type} [DecidableEq A'] (node' : A' → ZskiplistNode S O A') (header' : A')
        (history' : List (SetOp S O)) (zsl' : Zskiplist S O A'), Reordered history history' →
        History ops node' header' history' zsl' → Sequence zsl' ks := by
  rcases run_iff_history.1 hrun with ⟨history₀, hrun₀⟩
  rcases hrun₀.stores hops with ⟨ns, ks, hst, _⟩
  refine ⟨ks, hst.sortedSet hops, ?_⟩
  intro history hhistory
  rcases hhistory.stores hops with ⟨ns', ks', hst', hmem⟩
  -- the sequence is read from the list, so every history of it gives the same one
  have hks : ks = ks' := hst.sequence.unique hst'.sequence
  refine ⟨hks ▸ hmem, ?_⟩
  intro A' _ node' header' history' zsl' hreordered hrun'
  exact hhistory.sequence_eq hops hrun' hreordered.denote_eq hst.sequence

/-- The pairs (7, 5) and (7, 4), inserted in this order and in the other one. -/
theorem zsl_sortedSet_two : ∃ zsl : Zskiplist Nat Nat (Fin 3),
    Run natOps (fun _ => blankNode) 0 zsl ∧ SortedSet natOps zsl [(7, 4), (7, 5)] ∧
      (∀ k, k ∈ [(7, 4), (7, 5)] ↔ k ∈ denote natOps [.insert (7, 5), .insert (7, 4)]) ∧
      ∀ zsl' : Zskiplist Nat Nat (Fin 3),
        History natOps (fun _ => blankNode) 0 [.insert (7, 4), .insert (7, 5)] zsl' →
          Sequence zsl' [(7, 4), (7, 5)] := by
  rcases exists_inserts_two with
    ⟨zsl₁, zsl, ⟨hempty, hinsert₁⟩, ⟨hfresh, habsent, hinsert₂⟩, -, hfollows, hpair₂, hpair₁⟩
  have hhistory₁ : History natOps (fun _ => blankNode) 0 [.insert (7, 5)] zsl₁ :=
    History.create.insert rfl hempty hinsert₁
  have hhistory := hhistory₁.insert hfresh habsent hinsert₂
  have hrun := run_iff_history.2 ⟨_, hhistory⟩
  rcases zsl_sortedSet natOps_total hrun with ⟨ks, hset, hsame⟩
  have hsequence : Sequence zsl [(7, 4), (7, 5)] := by
    refine ⟨[2, 1], hfollows, ?_⟩
    rw [List.map_cons, List.map_cons, hpair₂, hpair₁]
    rfl
  have hks : ks = [(7, 4), (7, 5)] := hset.sequence.unique hsequence
  subst hks
  rcases hsame _ hhistory with ⟨hdenote, hreordered⟩
  refine ⟨zsl, hrun, hset, hdenote, fun zsl' hhistory' => ?_⟩
  have hperm : [(7, 5), (7, 4)].Perm [(7, 4), (7, 5)] := List.Perm.swap _ _ _
  exact hreordered _ _ _ zsl' (Reordered.insertions [] [] hperm) hhistory'

end Skiplist
end UtilsC
