import UtilsC.Hash.Update

/-!
# Replacing a value by itself

The header says that a value stored by `uc_hash_insert` is freed together with the table.  The
replace path frees the old value before it stores the new one, also when the two are the same.

* `ucHashInsert_self`: such a call leaves the table as it is and frees the value it keeps.
* `SelfInsert` is what the call should do and `Dangling` what it leaves behind;
  `ucHashInsert_self_freed` says so of every reachable table.
-/

namespace UtilsC
namespace Hash

open Lib UcHashTable

variable {P : Type}

/-! ## One call -/

section SelfInsert

variable {tbl : UcHashTable P} {key : UcHashKey}

/-- Assigning the value that the first matching node has. -/
theorem ucHashAssign_self {node : UcHashNode P} {chain : List (UcHashNode P)}
    (h : ucHashSearch tbl key chain = some node) :
    ucHashAssign tbl key node.val chain = chain := by
  induction chain with
  | nil => cases h
  | cons head next ih =>
      by_cases hcmp : tbl.compare head.keys key = 0
      · rw [ucHashSearch, if_pos hcmp] at h
        cases h
        rw [ucHashAssign, if_pos hcmp]
      · rw [ucHashSearch, if_neg hcmp] at h
        rw [ucHashAssign, if_neg hcmp, ih h]

/-- The table stays as it is, and the value goes to `free`. -/
theorem ucHashInsert_self (malloc : Option NodeBlock) {v : P}
    (hbound : (ucHashFind tbl key).map ucHashNodeVal = some (some v)) :
    ucHashInsert malloc tbl key (some v) = (errOk, tbl, [v]) := by
  rcases Option.map_eq_some_iff.1 hbound with ⟨node, hfind, hval⟩
  have hsearch : ucHashSearch tbl key (tbl.nodes (tbl.bucket key)) = some node := hfind
  have hnode : node.val = some v := hval
  -- the old value is freed, and the same one is stored
  have hsame := ucHashAssign_self hsearch
  rw [hnode] at hsame
  have hchain : tbl.setChain (tbl.bucket key) (tbl.nodes (tbl.bucket key)) = tbl := by
    rw [setChain, Function.update_eq_self]
  simp only [ucHashInsert, hsearch, hsame, hchain, hnode, Option.toList_some]

/-- The second insertion of a pair, harmless: `live` are the live blocks before it. -/
structure SelfInsert [DecidableEq P] (malloc : Option NodeBlock) (live : P → Bool)
    (tbl : UcHashTable P) (key : UcHashKey) (v : P) : Prop where
  bindings : ∀ key',
    (ucHashFind (ucHashInsert malloc tbl key (some v)).2.1 key').map ucHashNodeVal =
      (ucHashFind tbl key').map ucHashNodeVal
  ttl : ucHashNodeTtl (ucHashInsert malloc tbl key (some v)).2.1 = ucHashNodeTtl tbl
  kept : ∃ live', Ledger.freeAll live (ucHashInsert malloc tbl key (some v)).2.2 = some live' ∧
    live' v = true

variable [DecidableEq P]

/-- The table holds a freed block, and `uc_hash_free` would free it once more. -/
structure Dangling (live : P → Bool) (tbl : UcHashTable P) (v : P) : Prop where
  dead : live v = false
  held : ∃ node ∈ tbl.allNodes, ucHashNodeVal node = some v
  twice : Ledger.freeAll live (ucHashFree tbl) = none

omit [DecidableEq P] in
/-- A key that is found with a value: the value is one of the table's. -/
theorem node_of_bound {v : P} (hheight : 0 < tbl.height)
    (hbound : (ucHashFind tbl key).map ucHashNodeVal = some (some v)) :
    ∃ node ∈ tbl.allNodes, ucHashNodeVal node = some v := by
  rcases Option.map_eq_some_iff.1 hbound with ⟨node, hfind, hval⟩
  have hsearch : ucHashSearch tbl key (tbl.nodes (tbl.bucket key)) = some node := hfind
  rw [ucHashSearch_eq] at hsearch
  refine ⟨node, List.mem_flatMap.2 ⟨tbl.bucket key, ?_, (Chain.find?_eq_some hsearch).1⟩, hval⟩
  exact List.mem_range.2 (Nat.mod_lt _ hheight)

theorem dangling_of_bound {live : P → Bool} {v : P} (hheight : 0 < tbl.height)
    (hbound : (ucHashFind tbl key).map ucHashNodeVal = some (some v)) :
    Dangling (Function.update live v false) tbl v := by
  rcases node_of_bound hheight hbound with ⟨node, hmem, hval⟩
  have hdead : Function.update live v false v = false := Function.update_self _ _ _
  -- `uc_hash_free` goes over all nodes
  have hfreed : ucHashFree tbl = tbl.values := by
    have hloop := ucHashReset_loop_freed tbl tbl.height
    simp only [ucHashFree, ucHashReset]
    split <;> exact hloop
  have hin : v ∈ ucHashFree tbl := by
    have hnode : node.val = some v := hval
    rw [hfreed]
    exact List.mem_flatMap.2 ⟨node, hmem, by rw [hnode]; exact List.mem_singleton.2 rfl⟩
  exact ⟨hdead, ⟨node, hmem, hval⟩, Ledger.freeAll_eq_none hin hdead⟩

theorem not_selfInsert (malloc : Option NodeBlock) {live : P → Bool} {v : P}
    (hbound : (ucHashFind tbl key).map ucHashNodeVal = some (some v)) (hlive : live v = true) :
    ¬ SelfInsert malloc live tbl key v := by
  intro hself
  rcases hself.kept with ⟨live', hfree, hkept⟩
  -- the value itself is the one that is freed
  rw [ucHashInsert_self malloc hbound, Ledger.freeAll, if_pos hlive] at hfree
  cases hfree
  rw [Function.update_self] at hkept
  cases hkept

end SelfInsert

/-! ## Runs -/

variable [DecidableEq P]

/-- In every reachable table with memory for its buckets and for every key that is bound to a live
block, inserting the pair again changes nothing in the table and frees the block it is bound to. -/
theorem ucHashInsert_self_freed {calloc : Nat → Bool} {height : Int} {keyType : UcHashKeyType}
    {keyVoidLen : Nat} {tbl₀ : UcHashTable P} (hpos : 0 < height) (hlt : height < 2 ^ 31)
    (hcreate : ucHashCreate calloc height keyType keyVoidLen = some tbl₀)
    (ops : List (PublicOp P)) (malloc : Option NodeBlock) {key : UcHashKey} {live : P → Bool}
    {v : P}
    (hbound : (ucHashFind (ops.foldl PublicOp.onNamed (named tbl₀)).tbl key).map ucHashNodeVal =
      some (some v)) (hlive : live v = true) :
    let tbl := (ops.foldl PublicOp.onNamed (named tbl₀)).tbl
    Extent (ucHashCreateSize height) tbl ∧ ¬ SelfInsert malloc live tbl key v ∧
      (ucHashInsert malloc tbl key (some v)).2.1 = tbl ∧
      ∃ live', Ledger.freeAll live (ucHashInsert malloc tbl key (some v)).2.2 = some live' ∧
        Dangling live' tbl v := by
  intro tbl
  have hheight : 0 < tbl.height := by
    rw [show tbl.height = tbl₀.height from onNamed_height ops (named tbl₀)]
    exact (ucHashCreate_spec hcreate).1.height_pos
  refine ⟨(extent_run_iff ⟨by omega, hlt⟩ hcreate ops).2 hpos,
    not_selfInsert malloc hbound hlive, ?_⟩
  rw [ucHashInsert_self malloc hbound]
  exact ⟨rfl, _, if_pos hlive, dangling_of_bound hheight hbound⟩

/-- The pair (1, block 10) twice. -/
theorem ucHashInsert_self_freed_once :
    ∃ tbl₀ : UcHashTable Nat, ucHashCreate (fun _ => true) 1 .uint64 0 = some tbl₀ ∧
      ¬ SelfInsert none (fun _ => true)
        ([PublicOp.table (.insert (some ⟨8, ucHashKeyU64 0⟩) (ucHashKeyU64 1) (some 10))].foldl
          PublicOp.onNamed (named tbl₀)).tbl (ucHashKeyU64 1) 10 := by
  have hcreate : ∃ tbl₀ : UcHashTable Nat,
      ucHashCreate (fun _ => true) 1 .uint64 0 = some tbl₀ := ⟨_, rfl⟩
  rcases hcreate with ⟨tbl₀, hcreate⟩
  refine ⟨tbl₀, hcreate,
    (ucHashInsert_self_freed (by decide) (by decide) hcreate _ none ?_ rfl).2.1⟩
  cases hcreate
  decide

/-- The block is freed while the node holds it. -/
theorem ucHashInsert_self_loses :
    ∃ tbl₀ : UcHashTable Nat, ucHashCreate (fun _ => true) 1 .uint64 0 = some tbl₀ ∧
      let tbl := (ucHashInsert (some ⟨8, ucHashKeyU64 0⟩) tbl₀ (ucHashKeyU64 1) (some 10)).2.1
      (ucHashFind tbl (ucHashKeyU64 1)).map ucHashNodeVal = some (some 10) ∧
      (ucHashInsert none tbl (ucHashKeyU64 1) (some 10)).2.2 = [10] ∧
      ¬ SelfInsert none (fun _ => true) tbl (ucHashKeyU64 1) 10 := by
  have hcreate : ∃ tbl₀ : UcHashTable Nat,
      ucHashCreate (fun _ => true) 1 .uint64 0 = some tbl₀ := ⟨_, rfl⟩
  rcases hcreate with ⟨tbl₀, hcreate⟩
  refine ⟨tbl₀, hcreate, ?_⟩
  intro tbl
  have hbound : (ucHashFind tbl (ucHashKeyU64 1)).map ucHashNodeVal = some (some 10) := by
    cases hcreate
    decide
  refine ⟨hbound, ?_, not_selfInsert none hbound rfl⟩
  rw [ucHashInsert_self none hbound]

end Hash
end UtilsC
