import Mathlib.Order.Nat
import UtilsC.Skiplist.Delete

/-!
# Runs of a skiplist

Every list that insertions and deletions can make, from `zslCreate` on.  `zsl_wellFormed` reads the
state of such a list off its representation: what following the pointers visits on every level and
backwards, what the spans count, and that the next operation returns.
-/

namespace UtilsC
namespace Skiplist

open Lib Tower

variable {S O A : Type} [LinearOrder S] [DecidableEq A]

/-! ## More fuel changes no result -/

section Fuel

variable {ops : ObjectOps O} {mem : Memory S O A} {score : S} {obj : O} {fuel fuel' : Nat}

omit [DecidableEq A] in
theorem walk_mono {i : Nat} (hle : fuel ≤ fuel') : ∀ {x : A} {rank : UInt32} {r : A × UInt32},
    walk ops mem score obj i fuel x rank = some r →
      walk ops mem score obj i fuel' x rank = some r := by
  induction fuel generalizing fuel' with
  | zero =>
      intro x rank r hret
      simp [walk] at hret
  | succ fuel ih =>
      intro x rank r hret
      cases fuel' with
      | zero => omega
      | succ fuel' =>
          have hle' : fuel ≤ fuel' := Nat.le_of_succ_le_succ hle
          rcases Option.bind_eq_some_iff.1 hret with ⟨l, hread, hrest⟩
          refine Option.bind_eq_some_iff.2 ⟨l, hread, ?_⟩
          cases hforward : l.forward with
          | none => simpa [hforward] using hrest
          | some y =>
              simp only [hforward] at hrest ⊢
              rcases Option.bind_eq_some_iff.1 hrest with ⟨b, hbefore, hwalk⟩
              refine Option.bind_eq_some_iff.2 ⟨b, hbefore, ?_⟩
              cases b with
              | false => simpa using hwalk
              | true =>
                  simp only [if_true] at hwalk ⊢
                  exact ih hle' hwalk

omit [DecidableEq A] in
theorem search_mono (hle : fuel ≤ fuel') : ∀ {n : Nat} {x : A} {rank : UInt32}
    {found : List (A × UInt32)}, search ops mem score obj fuel n x rank = some found →
      search ops mem score obj fuel' n x rank = some found
  | 0, _, _, _, hret => hret
  | n + 1, x, rank, found, hret => by
      rcases Option.bind_eq_some_iff.1 hret with ⟨p, hwalk, hrest⟩
      rcases Option.map_eq_some_iff.1 hrest with ⟨below, hbelow, hfound⟩
      refine Option.bind_eq_some_iff.2 ⟨p, walk_mono hle hwalk, ?_⟩
      exact Option.map_eq_some_iff.2 ⟨below, search_mono hle hbelow, hfound⟩

variable {zsl : Zskiplist S O A}

theorem zslInsert_mono (hle : fuel ≤ fuel') {malloc : Block S O A} {hits : Nat}
    {r : Zskiplist S O A × A} (hret : zslInsert ops fuel malloc hits score obj zsl = some r) :
    zslInsert ops fuel' malloc hits score obj zsl = some r := by
  rcases Option.bind_eq_some_iff.1 hret with ⟨found, hsearch, hrest⟩
  exact Option.bind_eq_some_iff.2 ⟨found, search_mono hle hsearch, hrest⟩

theorem zslDelete_mono (hle : fuel ≤ fuel') {r : Zskiplist S O A × Int}
    (hret : zslDelete ops fuel score obj zsl = some r) :
    zslDelete ops fuel' score obj zsl = some r := by
  rcases Option.bind_eq_some_iff.1 hret with ⟨found, hsearch, hrest⟩
  exact Option.bind_eq_some_iff.2 ⟨found, search_mono hle hsearch, hrest⟩

/-- Two calls that return have returned the same, whatever their fuel. -/
theorem zslInsert_unique {malloc : Block S O A} {hits : Nat} {r r' : Zskiplist S O A × A}
    (hret : zslInsert ops fuel malloc hits score obj zsl = some r)
    (hret' : zslInsert ops fuel' malloc hits score obj zsl = some r') : r = r' := by
  have hmax := zslInsert_mono (Nat.le_max_left fuel fuel') hret
  have hmax' := zslInsert_mono (Nat.le_max_right fuel fuel') hret'
  exact Option.some.inj (hmax.symm.trans hmax')

theorem zslDelete_unique {r r' : Zskiplist S O A × Int}
    (hret : zslDelete ops fuel score obj zsl = some r)
    (hret' : zslDelete ops fuel' score obj zsl = some r') : r = r' := by
  have hmax := zslDelete_mono (Nat.le_max_left fuel fuel') hret
  have hmax' := zslDelete_mono (Nat.le_max_right fuel fuel') hret'
  exact Option.some.inj (hmax.symm.trans hmax')

end Fuel

/-! ## Runs -/

/-- No node holds the pair. -/
def Absent (ops : ObjectOps O) (zsl : Zskiplist S O A) (score : S) (obj : O) : Prop :=
  ∀ a, 0 < zsl.mem.size a → ∀ k ∈ zsl.mem.pair a, ¬ SamePair ops k (score, obj)

/-- The lists made by insertions of pairs that are absent, with any outcome of `random`, and by
deletions of any pairs.  `malloc` returns memory that is not in use. -/
inductive Run [Zero S] (ops : ObjectOps O) (node : A → ZskiplistNode S O A) (header : A) :
    Zskiplist S O A → Prop
  | create : Run ops node header (zslCreate node header)
  | insert {zsl zsl' : Zskiplist S O A} {fuel hits : Nat} {malloc : Block S O A} {score : S}
      {obj : O} {x : A} (hrun : Run ops node header zsl)
      (hfresh : zsl.mem.size malloc.addr = 0) (hnew : Absent ops zsl score obj)
      (hinsert : zslInsert ops fuel malloc hits score obj zsl = some (zsl', x)) :
      Run ops node header zsl'
  | delete {zsl zsl' : Zskiplist S O A} {fuel : Nat} {score : S} {obj : O} {ret : Int}
      (hrun : Run ops node header zsl)
      (hdelete : zslDelete ops fuel score obj zsl = some (zsl', ret)) : Run ops node header zsl'

theorem zslCreate_rep [Zero S] (ops : ObjectOps O) (node : A → ZskiplistNode S O A)
    (header : A) : Rep ops (zslCreate node header) [] where
  nodup := by simp
  live_iff := fun a => by
    by_cases ha : a = header
    · simp [zslCreate, zslCreateNode, ha, zskiplistMaxlevel]
    · simp [zslCreate, zslCreateNode, ha]
  header_size := by simp [zslCreate, zslCreateNode]
  pairs := fun a ha => absurd ha List.not_mem_nil
  sorted := List.Pairwise.nil
  level_pos := Nat.le_refl 1
  level_le := Nat.succ_le_of_lt (by decide : 0 < 32)
  heights := fun a ha => absurd ha List.not_mem_nil
  reached := Or.inl rfl
  column := fun i hi' => by
    have hone : i < 1 := hi'
    have hi : i < zskiplistMaxlevel := Nat.lt_of_lt_of_le hone (by decide)
    intro pre a post hsplit _
    have hlen := congrArg List.length hsplit
    simp only [List.length_cons, List.length_nil, List.length_append] at hlen
    have hpre : pre = [] := List.length_eq_zero_iff.1 (by omega)
    have hpost : post = [] := List.length_eq_zero_iff.1 (by omega)
    subst hpre hpost
    have ha : header = a := (List.cons.inj hsplit).1
    rw [← ha]
    simp [zslCreate, Memory.column, hi, cell, next, gap]
  above := fun i _ hmax => by
    simp [zslCreate, Memory.column, hmax]
  back := fun pre a post hsplit => by
    simp at hsplit
  tail := rfl
  length := rfl

section Runs

variable [Zero S] {ops : ObjectOps O} {node : A → ZskiplistNode S O A} {header : A}
  {zsl zsl' : Zskiplist S O A} {ns : List A}

omit [Zero S] in
theorem Rep.insert_returns (hops : ops.Total) (hR : Rep ops zsl ns) {fuel : Nat}
    (hfuel : ns.length < fuel) {malloc : Block S O A} {score : S} {obj : O}
    (hfresh : zsl.mem.size malloc.addr = 0) (hnew : Absent ops zsl score obj) (hits : Nat) :
    ∃ zsl' ns', zslInsert ops fuel malloc hits score obj zsl = some (zsl', malloc.addr) ∧
      Rep ops zsl' ns' := by
  rcases hR.exists_cut hops score obj with ⟨lo, hi, rfl, hcut⟩
  have hfuel' : lo.length < fuel := by
    rw [List.length_append] at hfuel
    omega
  have hnew' : ∀ a ∈ lo ++ hi, ∀ k, zsl.mem.pair a = some k → ¬ SamePair ops k (score, obj) := by
    intro a ha k hk
    exact hnew a ((hR.live_iff a).2 (List.mem_cons_of_mem _ ha)) k hk
  rcases zslInsert_spec hops hR hcut hfuel' hfresh hnew' hits with ⟨zsl', hinsert, _, hR'⟩
  exact ⟨zsl', _, hinsert, hR'⟩

theorem Run.rep (hops : ops.Total) (hrun : Run ops node header zsl) : ∃ ns, Rep ops zsl ns := by
  induction hrun with
  | create => exact ⟨[], zslCreate_rep ops node header⟩
  | @insert zsl zsl' fuel hits malloc score obj x _ hfresh hnew hinsert ih =>
      rcases ih with ⟨ns, hR⟩
      -- the operation returned, so it returns the same with fuel for the whole list
      rcases hR.insert_returns hops (Nat.lt_succ_self _) hfresh hnew hits with
        ⟨zsl₁, ns', hspec, hR'⟩
      have hsame : zsl₁ = zsl' := congrArg Prod.fst (zslInsert_unique hspec hinsert)
      exact ⟨ns', hsame ▸ hR'⟩
  | @delete zsl zsl' fuel score obj ret _ hdelete ih =>
      rcases ih with ⟨ns, hR⟩
      rcases zslDelete_spec hops hR (Nat.lt_succ_self _) score obj with
        ⟨zsl₁, ret₁, ns', hspec, hR'⟩
      have hsame : zsl₁ = zsl' := congrArg Prod.fst (zslDelete_unique hspec hdelete)
      exact ⟨ns', hsame ▸ hR'⟩

/-! ## What the pointers say -/

/-- The state of a skiplist with nodes `ns`, in the terms of its links. -/
structure WellFormed (ops : ObjectOps O) (zsl : Zskiplist S O A) (ns : List A) : Prop where
  /-- The level-0 chain visits `ns`. -/
  chain₀ : Follows (fun a => (zsl.mem.column 0 a).forward)
    (zsl.mem.column 0 zsl.header).forward ns
  increasing : ns.Pairwise (zsl.mem.NodeLess ops)
  length : ns.length < 2 ^ 64 → zsl.length.toNat = ns.length
  heights : ∀ a ∈ ns, 1 ≤ zsl.mem.size a ∧ zsl.mem.size a ≤ zskiplistMaxlevel
  /-- The chain of a level visits the nodes that reach it. -/
  chain : ∀ i, i < zsl.level → Follows (fun a => (zsl.mem.column i a).forward)
    (zsl.mem.column i zsl.header).forward (ns.filter fun a => decide (i < zsl.mem.size a))
  /-- A span is the distance to the next node of its level, or to the end. -/
  span : ns.length < 2 ^ 32 → ∀ i, i < zsl.level → ∀ pre a post,
    zsl.header :: ns = pre ++ a :: post → i < zsl.mem.size a →
      match (zsl.mem.column i a).forward with
      | some y => ∃ mid rest, post = mid ++ y :: rest ∧
          (zsl.mem.column i a).span.toNat = mid.length + 1
      | none => (zsl.mem.column i a).span.toNat = post.length
  level : (∀ a ∈ ns, zsl.mem.size a ≤ zsl.level) ∧
    (zsl.level = 1 ∨ ∃ a ∈ ns, zsl.mem.size a = zsl.level)
  /-- Backward pointers and tail visit `ns` in reverse. -/
  backward : Follows (fun a => (zsl.mem.node a).backward) zsl.tail ns.reverse

omit [DecidableEq A] [Zero S] in
theorem Rep.chain (hR : Rep ops zsl ns) {i : Nat} (hi : i < zsl.level) :
    Follows (fun a => (zsl.mem.column i a).forward) (zsl.mem.column i zsl.header).forward
      (ns.filter fun a => decide (i < zsl.mem.size a)) := by
  have hheader : i < zsl.mem.size zsl.header := by
    rw [hR.header_size]
    exact Nat.lt_of_lt_of_le hi hR.level_le
  have hfirst := hR.column i hi [] zsl.header ns rfl hheader
  rw [hfirst]
  refine follows_next ?_
  intro pre a post hsplit ha
  have hcell := hR.column i hi (zsl.header :: pre) a post (by simp [hsplit]) ha
  show (zsl.mem.column i a).forward = _
  rw [hcell]
  rfl

omit [DecidableEq A] [Zero S] in
theorem Rep.span (hR : Rep ops zsl ns) (hfew : ns.length < 2 ^ 32) {i : Nat}
    (hi : i < zsl.level) {pre post : List A} {a : A}
    (hsplit : zsl.header :: ns = pre ++ a :: post) (ha : i < zsl.mem.size a) :
    match (zsl.mem.column i a).forward with
    | some y => ∃ mid rest, post = mid ++ y :: rest ∧
        (zsl.mem.column i a).span.toNat = mid.length + 1
    | none => (zsl.mem.column i a).span.toNat = post.length := by
  have hcell := hR.column i hi pre a post hsplit ha
  have hlen := congrArg List.length hsplit
  rw [List.length_cons, List.length_append, List.length_cons] at hlen
  have hspan : (UInt32.ofNat (gap zsl.mem.size i post)).toNat = gap zsl.mem.size i post := by
    have hle : gap zsl.mem.size i post ≤ post.length := gap_le_length
    rw [UInt32.toNat_ofNat']
    exact Nat.mod_eq_of_lt (by omega)
  rw [hcell, cell]
  rcases low_or_first zsl.mem.size i post with hlow | ⟨mid, y, rest, hpost, hmid, hy⟩
  · rw [next_low hlow]
    exact hspan.trans (gap_low hlow)
  · have hnext : next zsl.mem.size i post = some y := by rw [hpost, next_first hmid hy]
    have hgap : gap zsl.mem.size i post = mid.length + 1 := by rw [hpost, gap_first hmid hy]
    rw [hnext]
    exact ⟨mid, rest, hpost, hspan.trans hgap⟩

omit [DecidableEq A] [Zero S] in
theorem Rep.wellFormed (hR : Rep ops zsl ns) : WellFormed ops zsl ns where
  chain₀ := by
    have hall : (ns.filter fun a => decide (0 < zsl.mem.size a)) = ns := by
      refine List.filter_eq_self.2 ?_
      intro a ha
      exact decide_eq_true ((hR.live_iff a).2 (List.mem_cons_of_mem _ ha))
    have hchain := hR.chain hR.level_pos
    rwa [hall] at hchain
  increasing := hR.sorted
  length := fun hfew => by
    rw [hR.length, UInt64.toNat_ofNat']
    exact Nat.mod_eq_of_lt hfew
  heights := fun a ha =>
    ⟨(hR.live_iff a).2 (List.mem_cons_of_mem _ ha), Nat.le_trans (hR.heights a ha) hR.level_le⟩
  chain := fun _ hi => hR.chain hi
  span := fun hfew _ hi _ _ _ hsplit ha => hR.span hfew hi hsplit ha
  level := ⟨hR.heights, hR.reached⟩
  backward := by
    rw [hR.tail]
    exact follows_reverse hR.back

/-- Every list that can be made is well formed, and the next operation on it returns. -/
theorem zsl_wellFormed (hops : ops.Total) (hrun : Run ops node header zsl) :
    ∃ ns, WellFormed ops zsl ns ∧ ∀ (fuel : Nat) (score : S) (obj : O), ns.length < fuel →
      (zslDelete ops fuel score obj zsl).isSome = true ∧
      (Absent ops zsl score obj → ∀ (malloc : Block S O A) (hits : Nat),
        zsl.mem.size malloc.addr = 0 →
          (zslInsert ops fuel malloc hits score obj zsl).isSome = true) := by
  rcases hrun.rep hops with ⟨ns, hR⟩
  refine ⟨ns, hR.wellFormed, ?_⟩
  intro fuel score obj hfuel
  refine ⟨?_, ?_⟩
  · rcases zslDelete_spec hops hR hfuel score obj with ⟨zsl', ret, ns', hdelete, _⟩
    simp [hdelete]
  · intro hnew malloc hits hfresh
    rcases hR.insert_returns hops hfuel hfresh hnew hits with ⟨zsl', ns', hinsert, _⟩
    simp [hinsert]

end Runs

/-- Objects that are numbers. -/
def natOps : ObjectOps Nat where
  compareStringObjects a b := (a : Int) - b
  equalStringObjects a b := a == b

theorem natOps_total : natOps.Total where
  swap := fun a b => by
    simp only [natOps]
    omega
  trans := fun a b c hab hbc => by
    simp only [natOps] at *
    omega
  equal_iff := fun a b => by
    simp only [natOps, beq_iff_eq]
    omega

/-- Memory for a node. -/
def blankNode : ZskiplistNode Nat Nat (Fin 3) := ⟨none, 0, none, fun _ => ⟨none, 0⟩⟩

/-- Two insertions; the second pair is taller and goes in front. -/
theorem exists_inserts_two : ∃ zsl₁ zsl : Zskiplist Nat Nat (Fin 3),
    (Absent natOps (zslCreate (fun _ => blankNode) 0) 7 5 ∧
      zslInsert natOps 1 ⟨1, blankNode⟩ 1 7 5 (zslCreate (fun _ => blankNode) 0) =
        some (zsl₁, 1)) ∧
    (zsl₁.mem.size 2 = 0 ∧ Absent natOps zsl₁ 7 4 ∧
      zslInsert natOps 1 ⟨2, blankNode⟩ 2 7 4 zsl₁ = some (zsl, 2)) ∧
    zsl.level = 3 ∧
    Follows (fun a => (zsl.mem.column 0 a).forward) (zsl.mem.column 0 zsl.header).forward [2, 1] ∧
    zsl.mem.pair 2 = some (7, 4) ∧ zsl.mem.pair 1 = some (7, 5) := by
  refine ⟨_, _, ⟨?_, rfl⟩, ⟨rfl, ?_, rfl⟩, rfl, ⟨rfl, rfl, rfl⟩, rfl, rfl⟩
  · unfold Absent
    decide
  · unfold Absent
    decide

theorem exists_run_two : ∃ zsl : Zskiplist Nat Nat (Fin 3),
    Run natOps (fun _ => blankNode) 0 zsl ∧ zsl.level = 3 ∧
      Follows (fun a => (zsl.mem.column 0 a).forward) (zsl.mem.column 0 zsl.header).forward
        [2, 1] := by
  rcases exists_inserts_two with
    ⟨zsl₁, zsl, ⟨hempty, hinsert₁⟩, ⟨hfresh, habsent, hinsert₂⟩, hlevel, hfollows, -⟩
  have hrun₁ : Run natOps (fun _ => blankNode) 0 zsl₁ := Run.create.insert rfl hempty hinsert₁
  exact ⟨zsl, hrun₁.insert hfresh habsent hinsert₂, hlevel, hfollows⟩

theorem zsl_wellFormed_two : ∃ zsl : Zskiplist Nat Nat (Fin 3),
    Run natOps (fun _ => blankNode) 0 zsl ∧ zsl.level = 3 ∧ WellFormed natOps zsl [2, 1] ∧
      (zslDelete natOps 3 7 5 zsl).isSome = true := by
  rcases exists_run_two with ⟨zsl, hrun, hlevel, hfollows⟩
  rcases zsl_wellFormed natOps_total hrun with ⟨ns, hwf, hnext⟩
  have hns : ns = [2, 1] := hwf.chain₀.unique hfollows
  subst hns
  exact ⟨zsl, hrun, hlevel, hwf, (hnext 3 7 5 (by decide)).1⟩

end Skiplist
end UtilsC
