import UtilsC.Hash.Handler
import UtilsC.Hash.Ownership

/-!
# What `uc_hash_update` hands back

The header promises one pointer back for the pointer passed in: the old value of the key, or `val`
itself when the key has no node.  The function returns `NULL` in the second case.

* `HandsBack` is the promise, for a table in any state.
* `ucHashUpdate_handsBack_iff` says when it is kept, over all runs of the public operations.
-/

namespace UtilsC
namespace Hash

open Lib UcHashTable

variable {P : Type}

namespace UcHashTable

/-- Some node of the table has the key. -/
def Stored (tbl : UcHashTable P) (key : UcHashKey) : Prop :=
  ∃ node ∈ tbl.allNodes, tbl.bytes node.keys = tbl.bytes key

/-- Some node in the bucket of the key has it. -/
def InBucket (tbl : UcHashTable P) (key : UcHashKey) : Prop :=
  ∃ node ∈ tbl.nodes (tbl.bucket key), tbl.bytes node.keys = tbl.bytes key

end UcHashTable

/-- `uc_hash_update` as the header describes it. -/
structure HandsBack (tbl : UcHashTable P) (key : UcHashKey) (val : Option P) : Prop where
  /-- an absent key: `val` itself comes back, and nothing changes -/
  absent : ¬ tbl.Stored key → ucHashUpdate tbl key val = (val, tbl)
  /-- a stored key: one node gets the new value and its old one comes back -/
  stored : tbl.Stored key → ∃ pre node post, tbl.allNodes = pre ++ node :: post ∧
    tbl.bytes node.keys = tbl.bytes key ∧ (ucHashUpdate tbl key val).1 = node.val ∧
    (ucHashUpdate tbl key val).2.allNodes = pre ++ { node with val := val } :: post
  /-- the key is bound to the new value, and the other keys as before -/
  bound : tbl.Stored key → ∀ key',
    (ucHashFind (ucHashUpdate tbl key val).2 key').map ucHashNodeVal =
      if tbl.bytes key' = tbl.bytes key then some val
      else (ucHashFind tbl key').map ucHashNodeVal
  /-- the values held and the pointer returned are the old values and `val` -/
  balance : ((ucHashUpdate tbl key val).1.toList ++ (ucHashUpdate tbl key val).2.values).Perm
    (val.toList ++ tbl.values)

section Update

variable {tbl : UcHashTable P} {key : UcHashKey} {val : Option P}

theorem inBucket_iff : tbl.InBucket key ↔ ucHashFind tbl key ≠ none := by
  have hmem : tbl.InBucket key ↔
      tbl.bytes key ∈ (tbl.nodes (tbl.bucket key)).map tbl.nodeKey := by
    rw [List.mem_map]
    exact Iff.rfl
  have hfind : ucHashFind tbl key =
      Chain.find? tbl.nodeKey (tbl.bytes key) (tbl.nodes (tbl.bucket key)) :=
    ucHashSearch_eq tbl key _
  rw [hmem, hfind, ne_eq, Chain.find?_eq_none_iff, not_not]

theorem stored_of_inBucket (hheight : 0 < tbl.height) (h : tbl.InBucket key) :
    tbl.Stored key := by
  rcases h with ⟨node, hnode, hkey⟩
  refine ⟨node, List.mem_flatMap.2 ⟨tbl.bucket key, ?_, hnode⟩, hkey⟩
  exact List.mem_range.2 (Nat.mod_lt _ hheight)

/-- A key that is not found changes nothing. -/
theorem ucHashUpdate_none (val : Option P) (h : ucHashFind tbl key = none) :
    ucHashUpdate tbl key val = (none, tbl) := by
  rw [ucHashUpdate, h]

/-- A key that is found: one node is overwritten, wherever the others are. -/
theorem ucHashUpdate_found (val : Option P) (hheight : 0 < tbl.height) {node : UcHashNode P}
    (h : ucHashFind tbl key = some node) :
    ∃ pre post, tbl.allNodes = pre ++ node :: post ∧ tbl.bytes node.keys = tbl.bytes key ∧
      (ucHashUpdate tbl key val).1 = node.val ∧
      (ucHashUpdate tbl key val).2.allNodes = pre ++ { node with val := val } :: post := by
  have hlt : tbl.bucket key < tbl.height := Nat.mod_lt _ hheight
  have hfind : Chain.find? tbl.nodeKey (tbl.bytes key) (tbl.nodes (tbl.bucket key)) =
      some node := (ucHashSearch_eq tbl key _).symm.trans h
  -- the chain is split at the first node with the key, and the table around the chain
  rcases Chain.split_of_find? hfind fun n : UcHashNode P => { n with val := val } with
    ⟨pre, post, hchain, hreplace⟩
  refine ⟨tbl.lowNodes (tbl.bucket key) ++ pre, post ++ tbl.highNodes (tbl.bucket key + 1), ?_,
    (Chain.find?_eq_some hfind).2, ?_, ?_⟩
  · rw [allNodes_eq tbl hlt, hchain]
    simp
  · rw [ucHashUpdate, h]
  · rw [ucHashUpdate, h]
    show (tbl.setChain _ _).allNodes = _
    rw [allNodes_setChain tbl hlt, ucHashAssign_eq, hreplace]
    simp

theorem ucHashUpdate_lookup {node : UcHashNode P} (h : ucHashFind tbl key = some node)
    (key' : UcHashKey) :
    (ucHashFind (ucHashUpdate tbl key val).2 key').map ucHashNodeVal =
      if tbl.bytes key' = tbl.bytes key then some val
      else (ucHashFind tbl key').map ucHashNodeVal := by
  have hbound : tbl.lookup (tbl.bytes key) ≠ none := by
    rw [← ucHashFind_val, h]
    exact Option.some_ne_none _
  have hlook : (ucHashUpdate tbl key val).2.lookup =
      Function.update tbl.lookup (tbl.bytes key) (some val) := by
    rw [ucHashUpdate, h]
    exact assign_lookup key val hbound
  have hbytes : (ucHashUpdate tbl key val).2.bytes = tbl.bytes := by
    rw [ucHashUpdate, h]
    rfl
  have hval := ucHashFind_val (ucHashUpdate tbl key val).2 key'
  rw [hlook, hbytes, Function.update_apply] at hval
  rw [show (ucHashFind (ucHashUpdate tbl key val).2 key').map ucHashNodeVal = _ from hval]
  split
  · rfl
  · exact (ucHashFind_val tbl key').symm

theorem handsBack_iff (hheight : 0 < tbl.height) :
    HandsBack tbl key val ↔ tbl.InBucket key ∨ (¬ tbl.Stored key ∧ val = none) := by
  constructor
  · intro hback
    by_cases hin : tbl.InBucket key
    · exact Or.inl hin
    · have hnone : ucHashFind tbl key = none := by
        by_contra hne
        exact hin (inBucket_iff.2 hne)
      by_cases hstored : tbl.Stored key
      · -- a stored key that is not found is not bound to the new value afterwards
        have hbound := hback.bound hstored key
        rw [ucHashUpdate_none val hnone, if_pos rfl, hnone] at hbound
        cases hbound
      · -- the value comes back only as what the function returns anyway, `NULL`
        have habsent := hback.absent hstored
        rw [ucHashUpdate_none val hnone] at habsent
        exact Or.inr ⟨hstored, (congrArg Prod.fst habsent).symm⟩
  · rintro (hin | ⟨hstored, rfl⟩)
    · rcases Option.ne_none_iff_exists'.1 (inBucket_iff.1 hin) with ⟨node, hfind⟩
      rcases ucHashUpdate_found val hheight hfind with
        ⟨pre, post, hall, hkey, hold, hall'⟩
      refine ⟨fun habsent => absurd (stored_of_inBucket hheight hin) habsent,
        fun _ => ⟨pre, node, post, hall, hkey, hold, hall'⟩,
        fun _ key' => ucHashUpdate_lookup hfind key', ?_⟩
      -- the old value goes out where the new one comes in
      have hswap : (node.val.toList ++
          (pre ++ { node with val := val } :: post).flatMap fun n => n.val.toList).Perm
          (val.toList ++ (pre ++ node :: post).flatMap fun n => n.val.toList) := by
        let node' : UcHashNode P := { node with val := val }
        have hout : (node :: (pre ++ node' :: post)).Perm (node :: node' :: (pre ++ post)) :=
          List.perm_middle.cons node
        have hin : (node' :: node :: (pre ++ post)).Perm (node' :: (pre ++ node :: post)) :=
          List.perm_middle.symm.cons node'
        have hnodes := (hout.trans (List.Perm.swap node' node (pre ++ post))).trans hin
        exact hnodes.flatMap_right fun n : UcHashNode P => n.val.toList
      rw [values, values, hold, hall, hall']
      exact hswap
    · have hnone : ucHashFind tbl key = none := by
        by_contra hne
        exact hstored (stored_of_inBucket hheight (inBucket_iff.2 hne))
      have hsame := ucHashUpdate_none none hnone
      refine ⟨fun _ => hsame, fun h => absurd h hstored, fun h => absurd h hstored, ?_⟩
      rw [hsame]

end Update

/-! ## Runs -/

/-- In every reachable table the buckets lie in the block and the promise is kept exactly for a
positive height and a key that is in its bucket or, when the key has no node, for the value
`NULL`. -/
theorem ucHashUpdate_handsBack_iff {calloc : Nat → Bool} {height : Int} {keyType : UcHashKeyType}
    {keyVoidLen : Nat} {tbl₀ : UcHashTable P} (hint : -2 ^ 31 ≤ height ∧ height < 2 ^ 31)
    (hcreate : ucHashCreate calloc height keyType keyVoidLen = some tbl₀)
    (ops : List (PublicOp P)) (key : UcHashKey) (val : Option P) :
    let tbl := (ops.foldl PublicOp.onNamed (named tbl₀)).tbl
    (Extent (ucHashCreateSize height) tbl ∧ HandsBack tbl key val) ↔
      0 < height ∧ (tbl.InBucket key ∨ (¬ tbl.Stored key ∧ val = none)) := by
  intro tbl
  have hheight : tbl.height = tbl₀.height := onNamed_height ops (named tbl₀)
  have hpos : 0 < tbl₀.height := (ucHashCreate_spec hcreate).1.height_pos
  rw [extent_run_iff hint hcreate ops, handsBack_iff (hheight ▸ hpos)]

/-- Where every node is in its bucket, a stored key is enough. -/
theorem handsBack_iff_of_wf {tbl : UcHashTable P} (hw : tbl.Wf) (key : UcHashKey)
    (val : Option P) : HandsBack tbl key val ↔ tbl.Stored key ∨ val = none := by
  have hbucket : tbl.Stored key → tbl.InBucket key := by
    rintro ⟨node, hnode, hkey⟩
    rcases List.mem_flatMap.1 hnode with ⟨h, _, hmem⟩
    -- equal bytes have one hash, so the node stands in the bucket of the key
    have hh : tbl.bucket key = h := by
      rw [← hw.bucket_eq h node hmem, bucket, bucket, hkey]
    exact ⟨node, hh ▸ hmem, hkey⟩
  rw [handsBack_iff hw.height_pos]
  constructor
  · rintro (hin | ⟨_, hval⟩)
    · exact Or.inl (stored_of_inBucket hw.height_pos hin)
    · exact Or.inr hval
  · intro h
    by_cases hstored : tbl.Stored key
    · exact Or.inl (hbucket hstored)
    · exact Or.inr ⟨hstored, h.resolve_left hstored⟩

/-- A table that holds the key 1. -/
theorem ucHashUpdate_handsBack_bound :
    ∃ tbl₀ : UcHashTable Nat, ucHashCreate (fun _ => true) 1 .uint64 0 = some tbl₀ ∧
      let tbl := ([PublicOp.table (.insert (some ⟨8, ucHashKeyU64 0⟩) (ucHashKeyU64 1)
        (some 10))].foldl PublicOp.onNamed (named tbl₀)).tbl
      Extent (ucHashCreateSize 1) tbl ∧ HandsBack tbl (ucHashKeyU64 1) (some 11) := by
  have hcreate : ∃ tbl₀ : UcHashTable Nat,
      ucHashCreate (fun _ => true) 1 .uint64 0 = some tbl₀ := ⟨_, rfl⟩
  rcases hcreate with ⟨tbl₀, hcreate⟩
  refine ⟨tbl₀, hcreate,
    (ucHashUpdate_handsBack_iff (by decide) hcreate _ _ _).2 ⟨by decide, Or.inl ?_⟩⟩
  cases hcreate
  rw [inBucket_iff, ← Option.isSome_iff_ne_none]
  decide

/-- An empty table: the caller does not get its value back. -/
theorem ucHashUpdate_loses :
    ∃ tbl₀ : UcHashTable Nat, ucHashCreate (fun _ => true) 1 .uint64 0 = some tbl₀ ∧
      (ucHashUpdate tbl₀ (ucHashKeyU64 1) (some 11)).1 = none ∧
      ¬ HandsBack tbl₀ (ucHashKeyU64 1) (some 11) := by
  refine ⟨_, rfl, rfl, ?_⟩
  intro hback
  have habsent := hback.absent (by simp [UcHashTable.Stored, UcHashTable.allNodes])
  have hval := congrArg Prod.fst habsent
  cases hval

end Hash
end UtilsC
