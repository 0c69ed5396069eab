import UtilsC.Hash.Invariant
import Mathlib.Data.Set.Card

/-!
# The hash table refines a finite map

The abstract component is a map from key bytes to values, with one transition for each table
operation (`TableOp.onMap`).  The code's operations (`TableOp.onTable`) keep the table invariant
and commute with the abstract ones under `lookup`, so after any sequence of operations the table
holds exactly the bindings of the abstract map.
-/

namespace UtilsC
namespace Hash

open UcHashTable

variable {P : Type}

/-! ## Operations on the map and on the table -/

/-- A finite map from key bytes to values (a value may be `NULL`). -/
abbrev Bindings (P : Type) : Type :=
  List UInt8 → Option (Option P)

inductive TableOp (P : Type)
  | insert (malloc : Option NodeBlock) (key : UcHashKey) (val : Option P)
  | delete (key : UcHashKey)
  | update (key : UcHashKey) (val : Option P)
  | find (key : UcHashKey)
  | reset

namespace TableOp

/-- What an operation does to the map, when keys are identified by `bytes`. -/
def onMap (bytes : UcHashKey → List UInt8) (m : Bindings P) : TableOp P → Bindings P
  | insert malloc key val =>
      if m (bytes key) ≠ none ∨ malloc.isSome then
        Function.update m (bytes key) (some val)
      else
        m
  | delete key => Function.update m (bytes key) none
  | update key val =>
      if m (bytes key) ≠ none then Function.update m (bytes key) (some val) else m
  | find _ => m
  | reset => fun _ => none

def onTable (tbl : UcHashTable P) : TableOp P → UcHashTable P
  | insert malloc key val => (ucHashInsert malloc tbl key val).2.1
  | delete key => (ucHashDelete tbl key).2.1
  | update key val => (ucHashUpdate tbl key val).2
  | find _ => tbl
  | reset => (ucHashReset tbl).2.1

end TableOp

/-! ## One step -/

/-- An operation writes to the buckets and to the counter only. -/
theorem onTable_eq (tbl : UcHashTable P) (op : TableOp P) :
    ∃ ttl nodes, op.onTable tbl = { tbl with nodeTtl := ttl, nodes := nodes } := by
  cases op with
  | insert malloc key val =>
      simp only [TableOp.onTable, ucHashInsert]
      split
      · exact ⟨_, _, rfl⟩
      · cases malloc <;> exact ⟨_, _, rfl⟩
  | delete key =>
      simp only [TableOp.onTable, ucHashDelete]
      split <;> exact ⟨_, _, rfl⟩
  | update key val =>
      simp only [TableOp.onTable, ucHashUpdate]
      split <;> exact ⟨_, _, rfl⟩
  | find key => exact ⟨_, _, rfl⟩
  | reset => exact ⟨_, _, ucHashReset_table tbl⟩

theorem onTable_frame (tbl : UcHashTable P) (op : TableOp P) :
    (op.onTable tbl).bytes = tbl.bytes ∧ (op.onTable tbl).height = tbl.height ∧
      (op.onTable tbl).hashCalFun = tbl.hashCalFun := by
  rcases onTable_eq tbl op with ⟨ttl, nodes, heq⟩
  rw [heq]
  exact ⟨rfl, rfl, rfl⟩

/-- One operation keeps the invariant and does to `lookup` what it does to the map. -/
theorem onTable_step {tbl : UcHashTable P} (hw : tbl.Wf) (op : TableOp P) :
    (op.onTable tbl).Wf ∧ (op.onTable tbl).lookup = op.onMap tbl.bytes tbl.lookup := by
  cases op with
  | insert malloc key val => exact ucHashInsert_spec hw key malloc val
  | delete key => exact ucHashDelete_spec hw key
  | update key val =>
      have hspec := ucHashUpdate_spec hw key val
      exact ⟨hspec.1, hspec.2.1⟩
  | find key => exact ⟨hw, rfl⟩
  | reset =>
      have hspec := ucHashReset_spec hw
      exact ⟨hspec.2.1, hspec.2.2⟩

/-! ## Runs -/

/-- The table and the map, taken through one sequence of operations, stay related. -/
theorem onTable_run {tbl : UcHashTable P} (hw : tbl.Wf) (ops : List (TableOp P)) :
    (ops.foldl TableOp.onTable tbl).Wf ∧
      (ops.foldl TableOp.onTable tbl).lookup = ops.foldl (TableOp.onMap tbl.bytes) tbl.lookup ∧
      (ops.foldl TableOp.onTable tbl).bytes = tbl.bytes ∧
      (ops.foldl TableOp.onTable tbl).height = tbl.height ∧
      (ops.foldl TableOp.onTable tbl).hashCalFun = tbl.hashCalFun := by
  induction ops generalizing tbl with
  | nil => exact ⟨hw, rfl, rfl, rfl, rfl⟩
  | cons op ops ih =>
      have hstep := onTable_step hw op
      rcases onTable_frame tbl op with ⟨hbytes, hheight, hfun⟩
      rcases ih hstep.1 with ⟨hwf, hlook, hb, hh, hf⟩
      refine ⟨hwf, ?_, hb.trans hbytes, hh.trans hheight, hf.trans hfun⟩
      simpa [hbytes, hstep.2] using hlook

/-! ## All nodes of a table -/

namespace UcHashTable

/-- All nodes, bucket by bucket. -/
def allNodes (tbl : UcHashTable P) : List (UcHashNode P) :=
  (List.range tbl.height).flatMap tbl.nodes

end UcHashTable

section AllNodes

variable {tbl : UcHashTable P} (hw : tbl.Wf)
include hw

omit hw in
theorem mem_chain_of_lookup {b : List UInt8} (h : tbl.lookup b ≠ none) :
    ∃ node ∈ tbl.nodes (tbl.bucketOf b), tbl.nodeKey node = b := by
  cases hf : Lib.Chain.find? tbl.nodeKey b (tbl.nodes (tbl.bucketOf b)) with
  | none => simp [lookup, hf] at h
  | some node =>
      rcases Lib.Chain.find?_eq_some hf with ⟨hmem, hkey⟩
      exact ⟨node, hmem, hkey⟩

theorem mem_allNodes_keys_iff {b : List UInt8} :
    b ∈ tbl.allNodes.map tbl.nodeKey ↔ tbl.lookup b ≠ none := by
  constructor
  · intro hb
    rcases List.mem_map.1 hb with ⟨node, hnode, hkey⟩
    rcases List.mem_flatMap.1 hnode with ⟨h, _, hmem⟩
    have hbucket : tbl.bucketOf b = h := by
      have := hw.bucket_eq h node hmem
      simpa [← hkey, bucketOf, nodeKey, bucket] using this
    have hin : b ∈ (tbl.nodes (tbl.bucketOf b)).map tbl.nodeKey := by
      rw [hbucket]
      exact List.mem_map.2 ⟨node, hmem, hkey⟩
    have hsome := Lib.Chain.isSome_find?_iff.2 hin
    intro hnone
    have hf : Lib.Chain.find? tbl.nodeKey b (tbl.nodes (tbl.bucketOf b)) = none := by
      simpa [lookup] using hnone
    simp [hf] at hsome
  · intro hb
    rcases mem_chain_of_lookup hb with ⟨node, hmem, hkey⟩
    refine List.mem_map.2 ⟨node, ?_, hkey⟩
    refine List.mem_flatMap.2 ⟨tbl.bucketOf b, ?_, hmem⟩
    exact List.mem_range.2 (Nat.mod_lt _ hw.height_pos)

/-- No key occurs in two nodes, also not in different buckets. -/
theorem nodup_allNodes_keys : (tbl.allNodes.map tbl.nodeKey).Nodup := by
  rw [UcHashTable.allNodes, List.map_flatMap, List.nodup_flatMap]
  constructor
  · intro h _
    exact hw.nodup h
  · refine List.Nodup.pairwise_of_forall_ne List.nodup_range ?_
    intro h _ h' _ hne b hb hb'
    rcases List.mem_map.1 hb with ⟨n, hn, hkey⟩
    rcases List.mem_map.1 hb' with ⟨n', hn', hkey'⟩
    have hn1 := hw.bucket_eq h n hn
    have hn2 := hw.bucket_eq h' n' hn'
    have hsame : tbl.bytes n.keys = tbl.bytes n'.keys := hkey.trans hkey'.symm
    exact hne (by rw [← hn1, ← hn2, bucket, bucket, hsame])

omit hw in
theorem sum_map_range (f : Nat → Nat) (n : Nat) :
    ((List.range n).map f).sum = ∑ i ∈ Finset.range n, f i := by
  induction n with
  | zero => rfl
  | succ n ih => simp [List.range_succ, Finset.sum_range_succ, ih]

theorem length_allNodes : tbl.allNodes.length = tbl.nodeTtl := by
  rw [UcHashTable.allNodes, List.length_flatMap, sum_map_range, hw.ttl_eq]

/-- `node_ttl` is the number of bindings. -/
theorem nodeTtl_eq_ncard : tbl.nodeTtl = Set.ncard {b | tbl.lookup b ≠ none} := by
  have hset : {b | tbl.lookup b ≠ none} =
      ((tbl.allNodes.map tbl.nodeKey).toFinset : Set (List UInt8)) := by
    ext b
    simp only [Set.mem_ofPred_eq, List.coe_toFinset]
    exact (mem_allNodes_keys_iff hw).symm
  rw [hset, Set.ncard_coe_finset, List.toFinset_card_of_nodup (nodup_allNodes_keys hw)]
  simp [length_allNodes hw]

end AllNodes

/-! ## One chain among all nodes -/

namespace UcHashTable

/-- The nodes in the buckets below `h`. -/
def lowNodes (tbl : UcHashTable P) (h : Nat) : List (UcHashNode P) :=
  (List.range h).flatMap tbl.nodes

/-- The nodes in the buckets from `h` on. -/
def highNodes (tbl : UcHashTable P) (h : Nat) : List (UcHashNode P) :=
  (List.range' h (tbl.height - h)).flatMap tbl.nodes

theorem highNodes_eq (tbl : UcHashTable P) {h : Nat} (hh : h < tbl.height) :
    tbl.highNodes h = tbl.nodes h ++ tbl.highNodes (h + 1) := by
  have hlen : tbl.height - h = (tbl.height - (h + 1)) + 1 := by omega
  rw [highNodes, hlen, List.range'_succ, List.flatMap_cons]
  rfl

theorem allNodes_eq (tbl : UcHashTable P) {h : Nat} (hh : h < tbl.height) :
    tbl.allNodes = tbl.lowNodes h ++ (tbl.nodes h ++ tbl.highNodes (h + 1)) := by
  have hrange : List.range tbl.height = List.range h ++ List.range' h (tbl.height - h) := by
    have happ := List.range'_append_1 (s := 0) (m := h) (n := tbl.height - h)
    have hsum : h + (tbl.height - h) = tbl.height := by omega
    rw [hsum, Nat.zero_add] at happ
    simpa [List.range_eq_range'] using happ.symm
  rw [← highNodes_eq tbl hh, allNodes, hrange, List.flatMap_append]
  rfl

theorem flatMap_setChain (tbl : UcHashTable P) {h : Nat} {chain : List (UcHashNode P)}
    {hs : List Nat} (hh : h ∉ hs) :
    hs.flatMap (tbl.setChain h chain).nodes = hs.flatMap tbl.nodes := by
  refine List.flatMap_congr ?_
  intro i hi
  have hne : i ≠ h := fun he => hh (he ▸ hi)
  exact Function.update_of_ne hne _ _

theorem allNodes_setChain (tbl : UcHashTable P) {h : Nat} (hh : h < tbl.height)
    (chain : List (UcHashNode P)) :
    (tbl.setChain h chain).allNodes = tbl.lowNodes h ++ (chain ++ tbl.highNodes (h + 1)) := by
  have hlow : (tbl.setChain h chain).lowNodes h = tbl.lowNodes h :=
    flatMap_setChain tbl (by simp)
  have hhigh : (tbl.setChain h chain).highNodes (h + 1) = tbl.highNodes (h + 1) :=
    flatMap_setChain tbl (by simp)
  have hchain : (tbl.setChain h chain).nodes h = chain := Function.update_self _ _ _
  rw [allNodes_eq (tbl.setChain h chain) hh, hlow, hhigh, hchain]

end UcHashTable

section OneChain

variable {tbl : UcHashTable P} (hw : tbl.Wf) (key : UcHashKey)
include hw

/-- A key is in no bucket but its own. -/
theorem not_mem_keys {hs : List Nat} (hh : tbl.bucket key ∉ hs) :
    tbl.bytes key ∉ (hs.flatMap tbl.nodes).map tbl.nodeKey := by
  intro hmem
  rcases List.mem_map.1 hmem with ⟨node, hnode, hkey⟩
  rcases List.mem_flatMap.1 hnode with ⟨h, hin, hchain⟩
  have hbucket := hw.bucket_eq h node hchain
  have hkey' : tbl.bytes node.keys = tbl.bytes key := hkey
  have hsame : tbl.bucket key = h := by rw [← hbucket, bucket, bucket, hkey']
  exact hh (hsame ▸ hin)

theorem not_mem_lowNodes : tbl.bytes key ∉ (tbl.lowNodes (tbl.bucket key)).map tbl.nodeKey :=
  not_mem_keys hw key (by simp)

theorem not_mem_highNodes :
    tbl.bytes key ∉ (tbl.highNodes (tbl.bucket key + 1)).map tbl.nodeKey :=
  not_mem_keys hw key (by simp)

/-- The search among all nodes is the search in the key's chain. -/
theorem find?_allNodes :
    Lib.Chain.find? tbl.nodeKey (tbl.bytes key) tbl.allNodes = ucHashFind tbl key := by
  rw [allNodes_eq tbl (bucket_lt hw key),
    Lib.Chain.find?_append_of_not_mem (not_mem_lowNodes hw key),
    Lib.Chain.find?_append_of_not_mem_right (not_mem_highNodes hw key)]
  exact (ucHashSearch_eq tbl key _).symm

theorem allNodes_assign (val : Option P) :
    (tbl.setChain (tbl.bucket key)
        (ucHashAssign tbl key val (tbl.nodes (tbl.bucket key)))).allNodes =
      Lib.Chain.replaceFirst tbl.nodeKey (tbl.bytes key) (fun node => { node with val := val })
        tbl.allNodes := by
  rw [allNodes_setChain tbl (bucket_lt hw key), allNodes_eq tbl (bucket_lt hw key),
    Lib.Chain.replaceFirst_append_of_not_mem (not_mem_lowNodes hw key),
    Lib.Chain.replaceFirst_append_of_not_mem_right (not_mem_highNodes hw key), ucHashAssign_eq]

theorem allNodes_delete :
    (ucHashDelete tbl key).2.1.allNodes =
      Lib.Chain.eraseFirst tbl.nodeKey (tbl.bytes key) tbl.allNodes := by
  cases hs : ucHashSearch tbl key (tbl.nodes (tbl.bucket key)) with
  | none =>
      have hun := (search_eq_none_iff key).1 hs
      have habsent : tbl.bytes key ∉ tbl.allNodes.map tbl.nodeKey := fun hmem =>
        (mem_allNodes_keys_iff hw).1 hmem hun
      rw [ucHashDelete_unbound key hun, Lib.Chain.eraseFirst_of_not_mem habsent]
  | some node =>
      have hdel : (ucHashDelete tbl key).2.1.allNodes =
          (tbl.setChain (tbl.bucket key)
            (ucHashUnlink tbl key (tbl.nodes (tbl.bucket key)))).allNodes := by
        simp only [ucHashDelete, hs]
        rfl
      rw [hdel, allNodes_setChain tbl (bucket_lt hw key), allNodes_eq tbl (bucket_lt hw key),
        Lib.Chain.eraseFirst_append_of_not_mem (not_mem_lowNodes hw key),
        Lib.Chain.eraseFirst_append_of_not_mem_right (not_mem_highNodes hw key), ucHashUnlink_eq]

end OneChain

/-! ## The refinement theorem -/

theorem nodes_of_create {calloc : Nat → Bool} {height : Int} {keyType : UcHashKeyType}
    {len : Nat} {tbl : UcHashTable P} (hc : ucHashCreate calloc height keyType len = some tbl)
    (h : Nat) : tbl.nodes h = [] := by
  unfold ucHashCreate ucHashCreateDo at hc
  split at hc
  · cases hc
  · split at hc <;> cases hc
    rfl

/-- The hash table refines a finite map.  A table is created with any height, key type and key
length, gets any hash handler and goes through any sequence of operations; `m` is the map the
same sequence builds. -/
theorem ucHashTable_refines_bindings {calloc : Nat → Bool} {height : Int}
    {keyType : UcHashKeyType} {keyVoidLen : Nat} {tbl₀ : UcHashTable P}
    (hcreate : ucHashCreate calloc height keyType keyVoidLen = some tbl₀)
    (handler : List UInt8 → Nat) (ops : List (TableOp P)) :
    let tbl := ops.foldl TableOp.onTable (ucHashSetCalHashHandler tbl₀ handler)
    let m := ops.foldl (TableOp.onMap (keyBytes keyType keyVoidLen)) (fun _ => none)
    -- `uc_hash_find` finds a node exactly for the bound keys, with the bound value
    (∀ key, (ucHashFind tbl key).map ucHashNodeVal = m (keyBytes keyType keyVoidLen key)) ∧
    -- no key occurs in two nodes
    (tbl.allNodes.map fun node => keyBytes keyType keyVoidLen node.keys).Nodup ∧
    -- every node lies in the bucket of its key
    (∀ h, ∀ node ∈ tbl.nodes h,
      h = handler (keyBytes keyType keyVoidLen node.keys) % (height % 2 ^ 64).toNat) ∧
    ucHashNodeTtl tbl = Set.ncard {b | m b ≠ none} ∧
    -- a failing insert changes nothing
    (∀ malloc key val, (ucHashInsert malloc tbl key val).1 ≠ errOk →
      (ucHashInsert malloc tbl key val).2.1 = tbl) ∧
    -- deleting an absent key changes nothing
    (∀ key, ucHashFind tbl key = none → (ucHashDelete tbl key).2.1 = tbl) ∧
    -- resetting succeeds and leaves the empty map
    (ucHashReset tbl).1 = 0 ∧
    (∀ key, ucHashFind (ucHashReset tbl).2.1 key = none) := by
  intro tbl m
  rcases ucHashCreate_spec hcreate with ⟨hw₀, hlook₀, _, hbytes₀, hheight₀⟩
  have hwh : (ucHashSetCalHashHandler tbl₀ handler).Wf :=
    setCalHashHandler_wf (nodes_of_create hcreate) hw₀ handler
  have hlookh : (ucHashSetCalHashHandler tbl₀ handler).lookup = fun _ => none := by
    funext b
    simp [lookup, ucHashSetCalHashHandler, nodes_of_create hcreate]
  rcases onTable_run hwh ops with ⟨hw, hlook, hbytes, hheight, hfun⟩
  have hbytes' : tbl.bytes = keyBytes keyType keyVoidLen := hbytes.trans hbytes₀
  have hlook' : tbl.lookup = m := by
    have hb : (ucHashSetCalHashHandler tbl₀ handler).bytes = keyBytes keyType keyVoidLen := hbytes₀
    simpa [hlookh, hb] using hlook
  have hunbound : ∀ key, ucHashFind tbl key = none → tbl.lookup (tbl.bytes key) = none := by
    intro key hf
    rw [← ucHashFind_val, hf]
    rfl
  refine ⟨?_, ?_, ?_, ?_, ?_, ?_, ?_, ?_⟩
  · intro key
    rw [← hlook', ← hbytes']
    exact ucHashFind_val tbl key
  · have hkey : tbl.nodeKey = fun node => keyBytes keyType keyVoidLen node.keys := by
      funext node
      simp [nodeKey, hbytes']
    rw [← hkey]
    exact nodup_allNodes_keys hw
  · intro h node hnode
    have hb := hw.bucket_eq h node hnode
    have hh : tbl.height = (height % 2 ^ 64).toNat := hheight.trans hheight₀
    have hf : tbl.hashCalFun = handler := hfun
    rw [← hb, bucket, hbytes', hh, hf]
  · rw [← hlook']
    exact nodeTtl_eq_ncard hw
  · intro malloc key val hret
    rw [ucHashInsert_failed key hret]
  · intro key hf
    rw [ucHashDelete_unbound key (hunbound key hf)]
  · exact (ucHashReset_spec hw).1
  · intro key
    have hval := ucHashFind_val (ucHashReset tbl).2.1 key
    rw [(ucHashReset_spec hw).2.2] at hval
    exact Option.map_eq_none_iff.1 hval

/-- Two keys in one bucket: the deleted one is gone, the overwritten one has its new value. -/
theorem ucHashTable_refines_bindings_one_bucket :
    ∃ tbl₀ : UcHashTable Nat, ucHashCreate (fun _ => true) 1 .uint64 0 = some tbl₀ ∧
      (ucHashFind
        ([TableOp.insert (some ⟨8, ucHashKeyU64 0⟩) (ucHashKeyU64 3) (some 10),
          TableOp.insert (some ⟨8, ucHashKeyU64 0⟩) (ucHashKeyU64 5) (some 11),
          TableOp.insert none (ucHashKeyU64 5) (some 12),
          TableOp.delete (ucHashKeyU64 3)].foldl TableOp.onTable
            (ucHashSetCalHashHandler tbl₀ (fun _ => 0)))
        (ucHashKeyU64 5)).map ucHashNodeVal = some (some 12) := by
  have hcreate : ∃ tbl₀ : UcHashTable Nat,
      ucHashCreate (fun _ => true) 1 .uint64 0 = some tbl₀ := ⟨_, rfl⟩
  rcases hcreate with ⟨tbl₀, hcreate⟩
  refine ⟨tbl₀, hcreate, ?_⟩
  refine ((ucHashTable_refines_bindings hcreate (fun _ => 0) _).1 (ucHashKeyU64 5)).trans ?_
  decide

end Hash
end UtilsC
