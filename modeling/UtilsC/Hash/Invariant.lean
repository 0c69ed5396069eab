import UtilsC.Hash.Table
import UtilsC.Lib.Chain
import Mathlib.Algebra.Order.BigOperators.Group.Finset

/-!
# The table invariant

`UcHashTable.Wf` is what every operation keeps: each node lies in the bucket its key hashes to,
the keys of a chain are pairwise different, and `node_ttl` counts the nodes.  `lookup` is the map
a table stands for; each operation has one lemma that says what it does to `lookup`.

The loops of the table are the chain operations of the library, at the key bytes.
-/

namespace UtilsC
namespace Hash

open Lib

variable {P : Type}

namespace UcHashTable

/-- The bytes that identify the key of a node. -/
def nodeKey (tbl : UcHashTable P) (node : UcHashNode P) : List UInt8 :=
  tbl.bytes node.keys

/-- The bucket of the key with the given bytes. -/
def bucketOf (tbl : UcHashTable P) (b : List UInt8) : Nat :=
  tbl.hashCalFun b % tbl.height

/-- The map a table stands for: key bytes to stored value. -/
def lookup (tbl : UcHashTable P) (b : List UInt8) : Option (Option P) :=
  (Chain.find? tbl.nodeKey b (tbl.nodes (tbl.bucketOf b))).map UcHashNode.val

structure Wf (tbl : UcHashTable P) : Prop where
  height_pos : 0 < tbl.height
  bucket_eq : ∀ h, ∀ node ∈ tbl.nodes h, tbl.bucket node.keys = h
  nodup : ∀ h, ((tbl.nodes h).map tbl.nodeKey).Nodup
  ttl_eq : tbl.nodeTtl = ∑ h ∈ Finset.range tbl.height, (tbl.nodes h).length

end UcHashTable

open UcHashTable

/-- What holds of a table whichever hash functions it is given: `node_ttl` counts the nodes. -/
structure Counted (tbl : UcHashTable P) : Prop where
  height_pos : 0 < tbl.height
  ttl_eq : tbl.nodeTtl = ∑ h ∈ Finset.range tbl.height, (tbl.nodes h).length

theorem Counted.of_wf {tbl : UcHashTable P} (hw : tbl.Wf) : Counted tbl :=
  ⟨hw.height_pos, hw.ttl_eq⟩

/-! ## The loops are chain operations -/

section Loops

variable (tbl : UcHashTable P) (key : UcHashKey)

theorem compare_eq_zero_iff (keyA keyB : UcHashKey) :
    tbl.compare keyA keyB = 0 ↔ tbl.bytes keyA = tbl.bytes keyB :=
  ucHashKeyCompare_eq_zero_iff tbl.keyType tbl.memKeyLen keyA keyB

theorem ucHashSearch_eq (chain : List (UcHashNode P)) :
    ucHashSearch tbl key chain = Chain.find? tbl.nodeKey (tbl.bytes key) chain := by
  induction chain with
  | nil => rfl
  | cons node next ih =>
      have hcmp := compare_eq_zero_iff tbl node.keys key
      by_cases hb : tbl.bytes node.keys = tbl.bytes key
      · simp [ucHashSearch, Chain.find?, hcmp.2 hb, nodeKey, hb]
      · have hne : tbl.compare node.keys key ≠ 0 := fun h => hb (hcmp.1 h)
        simp [ucHashSearch, Chain.find?, hne, nodeKey, hb, ih]

theorem ucHashAssign_eq (val : Option P) (chain : List (UcHashNode P)) :
    ucHashAssign tbl key val chain =
      Chain.replaceFirst tbl.nodeKey (tbl.bytes key) (fun node => { node with val := val })
        chain := by
  induction chain with
  | nil => rfl
  | cons node next ih =>
      have hcmp := compare_eq_zero_iff tbl node.keys key
      by_cases hb : tbl.bytes node.keys = tbl.bytes key
      · simp [ucHashAssign, Chain.replaceFirst, hcmp.2 hb, nodeKey, hb]
      · have hne : tbl.compare node.keys key ≠ 0 := fun h => hb (hcmp.1 h)
        simp [ucHashAssign, Chain.replaceFirst, hne, nodeKey, hb, ih]

theorem ucHashUnlink_eq (chain : List (UcHashNode P)) :
    ucHashUnlink tbl key chain = Chain.eraseFirst tbl.nodeKey (tbl.bytes key) chain := by
  induction chain with
  | nil => rfl
  | cons node next ih =>
      have hcmp := compare_eq_zero_iff tbl node.keys key
      by_cases hb : tbl.bytes node.keys = tbl.bytes key
      · simp [ucHashUnlink, Chain.eraseFirst, hcmp.2 hb, nodeKey, hb]
      · have hne : tbl.compare node.keys key ≠ 0 := fun h => hb (hcmp.1 h)
        simp [ucHashUnlink, Chain.eraseFirst, hne, nodeKey, hb, ih]

theorem ucHashFind_eq :
    ucHashFind tbl key =
      Chain.find? tbl.nodeKey (tbl.bytes key) (tbl.nodes (tbl.bucketOf (tbl.bytes key))) :=
  ucHashSearch_eq tbl key _

/-- `uc_hash_find` reads the map. -/
theorem ucHashFind_val : (ucHashFind tbl key).map UcHashNode.val = tbl.lookup (tbl.bytes key) := by
  rw [ucHashFind_eq, lookup]

theorem bytes_newKeys (block : NodeBlock) :
    tbl.bytes (ucHashNewKeys tbl block key) = tbl.bytes key :=
  keyBytes_ucHashKeyCopy tbl.keyType tbl.memKeyLen _ key

end Loops

/-! ## Replacing one chain -/

section SetChain

variable {tbl : UcHashTable P} {h : Nat} {chain : List (UcHashNode P)}

@[simp] theorem setChain_nodes :
    (tbl.setChain h chain).nodes = Function.update tbl.nodes h chain := rfl
@[simp] theorem setChain_nodeKey : (tbl.setChain h chain).nodeKey = tbl.nodeKey := rfl
@[simp] theorem setChain_bucket : (tbl.setChain h chain).bucket = tbl.bucket := rfl
@[simp] theorem setChain_bucketOf : (tbl.setChain h chain).bucketOf = tbl.bucketOf := rfl
@[simp] theorem setChain_height : (tbl.setChain h chain).height = tbl.height := rfl
@[simp] theorem setChain_nodeTtl : (tbl.setChain h chain).nodeTtl = tbl.nodeTtl := rfl
@[simp] theorem setChain_bytes : (tbl.setChain h chain).bytes = tbl.bytes := rfl

theorem sum_length_update (chain : List (UcHashNode P)) (hh : h < tbl.height) :
    ∑ i ∈ Finset.range tbl.height, (Function.update tbl.nodes h chain i).length
        + (tbl.nodes h).length =
      ∑ i ∈ Finset.range tbl.height, (tbl.nodes i).length + chain.length := by
  have hmem : h ∈ Finset.range tbl.height := Finset.mem_range.2 hh
  have hrest : ∑ i ∈ (Finset.range tbl.height).erase h,
        (Function.update tbl.nodes h chain i).length =
      ∑ i ∈ (Finset.range tbl.height).erase h, (tbl.nodes i).length := by
    refine Finset.sum_congr rfl ?_
    intro i hi
    have hne : i ≠ h := (Finset.mem_erase.1 hi).1
    simp [Function.update_of_ne hne]
  have hnew := Finset.add_sum_erase _ (fun i => (Function.update tbl.nodes h chain i).length) hmem
  have hold := Finset.add_sum_erase _ (fun i => (tbl.nodes i).length) hmem
  simp only [Function.update_self] at hnew
  omega

theorem Counted.setChain (hc : Counted tbl) (hh : h < tbl.height) {ttl : Nat}
    (httl : ttl + (tbl.nodes h).length = tbl.nodeTtl + chain.length) :
    Counted ({ tbl.setChain h chain with nodeTtl := ttl } : UcHashTable P) where
  height_pos := hc.height_pos
  ttl_eq := by
    have hsum := sum_length_update chain hh
    have hold := hc.ttl_eq
    show ttl = ∑ i ∈ Finset.range tbl.height, (Function.update tbl.nodes h chain i).length
    omega

theorem Counted.length_le (hc : Counted tbl) (hh : h < tbl.height) :
    (tbl.nodes h).length ≤ tbl.nodeTtl := by
  rw [hc.ttl_eq]
  exact Finset.single_le_sum (f := fun i => (tbl.nodes i).length)
    (fun i _ => Nat.zero_le _) (Finset.mem_range.2 hh)

theorem Counted.ttl_eq_zero_iff (hc : Counted tbl) :
    tbl.nodeTtl = 0 ↔ ∀ j, j < tbl.height → tbl.nodes j = [] := by
  rw [hc.ttl_eq, Finset.sum_eq_zero_iff]
  simp only [Finset.mem_range, List.length_eq_zero_iff]

/-- What a new chain must satisfy for the table with that chain, and the counter moved along
with the chain's length, to be well formed again. -/
theorem Wf.setChain (hw : tbl.Wf) (hh : h < tbl.height)
    (hbucket : ∀ node ∈ chain, tbl.bucket node.keys = h)
    (hnodup : (chain.map tbl.nodeKey).Nodup) {ttl : Nat}
    (httl : ttl + (tbl.nodes h).length = tbl.nodeTtl + chain.length) :
    ({ tbl.setChain h chain with nodeTtl := ttl } : UcHashTable P).Wf where
  height_pos := hw.height_pos
  bucket_eq := by
    intro i node hnode
    have hnode' : node ∈ Function.update tbl.nodes h chain i := hnode
    by_cases hi : i = h
    · subst hi
      exact hbucket node (by simpa using hnode')
    · exact hw.bucket_eq i node (by simpa [Function.update_of_ne hi] using hnode')
  nodup := by
    intro i
    show ((Function.update tbl.nodes h chain i).map tbl.nodeKey).Nodup
    by_cases hi : i = h
    · subst hi
      simpa using hnodup
    · simpa [Function.update_of_ne hi] using hw.nodup i
  ttl_eq := ((Counted.of_wf hw).setChain hh httl).ttl_eq

end SetChain

section Operations

variable {tbl : UcHashTable P} (hw : tbl.Wf) (key : UcHashKey)
include hw

theorem bucket_lt : tbl.bucket key < tbl.height :=
  Nat.mod_lt _ hw.height_pos

omit hw in
/-- A chain that binds `key` differently only there changes the map only at `key`. -/
theorem lookup_setChain (ttl : Nat) {chain : List (UcHashNode P)} {v : Option (Option P)}
    (hself : (Chain.find? tbl.nodeKey (tbl.bytes key) chain).map UcHashNode.val = v)
    (hother : ∀ b, b ≠ tbl.bytes key → Chain.find? tbl.nodeKey b chain =
      Chain.find? tbl.nodeKey b (tbl.nodes (tbl.bucket key))) :
    ({ tbl.setChain (tbl.bucket key) chain with nodeTtl := ttl } : UcHashTable P).lookup =
      Function.update tbl.lookup (tbl.bytes key) v := by
  funext b
  show (Chain.find? tbl.nodeKey b
    (Function.update tbl.nodes (tbl.bucket key) chain (tbl.bucketOf b))).map UcHashNode.val = _
  by_cases hb : b = tbl.bytes key
  · have hbucket : tbl.bucketOf b = tbl.bucket key := by simp [hb, bucketOf, bucket]
    rw [hbucket, Function.update_self, hb, Function.update_self, hself]
  · rw [Function.update_of_ne hb, lookup]
    -- another key of the same bucket is looked up behind the changed node
    by_cases hbucket : tbl.bucketOf b = tbl.bucket key
    · rw [hbucket, Function.update_self, hother b hb]
    · rw [Function.update_of_ne hbucket]

omit hw in
theorem search_eq_none_iff :
    ucHashSearch tbl key (tbl.nodes (tbl.bucket key)) = none ↔
      tbl.lookup (tbl.bytes key) = none := by
  have hfind := ucHashFind_val tbl key
  rw [← hfind, Option.map_eq_none_iff]
  exact Iff.rfl

omit hw in
theorem lookup_of_search {node : UcHashNode P}
    (hs : ucHashSearch tbl key (tbl.nodes (tbl.bucket key)) = some node) :
    tbl.lookup (tbl.bytes key) = some node.val := by
  rw [← ucHashFind_val]
  show (ucHashSearch tbl key (tbl.nodes (tbl.bucket key))).map UcHashNode.val = _
  rw [hs]
  rfl

/-! ## Overwriting a value -/

theorem assign_wf (val : Option P) :
    (tbl.setChain (tbl.bucket key)
      (ucHashAssign tbl key val (tbl.nodes (tbl.bucket key)))).Wf := by
  have hkey : ∀ n : UcHashNode P, tbl.nodeKey { n with val := val } = tbl.nodeKey n :=
    fun _ => rfl
  refine Wf.setChain hw (bucket_lt hw key) ?_ ?_ ?_
  · intro node hnode
    rw [ucHashAssign_eq] at hnode
    rcases Chain.mem_replaceFirst hnode with hold | ⟨m, hm, hnm⟩
    · exact hw.bucket_eq _ node hold
    · have hbm := hw.bucket_eq _ m hm
      simpa [hnm] using hbm
  · rw [ucHashAssign_eq, Chain.map_key_replaceFirst hkey]
    exact hw.nodup _
  · rw [ucHashAssign_eq, Chain.length_replaceFirst]

omit hw in
theorem assign_lookup (val : Option P) (hbound : tbl.lookup (tbl.bytes key) ≠ none) :
    (tbl.setChain (tbl.bucket key)
        (ucHashAssign tbl key val (tbl.nodes (tbl.bucket key)))).lookup =
      Function.update tbl.lookup (tbl.bytes key) (some val) := by
  have hkey : ∀ n : UcHashNode P, tbl.nodeKey { n with val := val } = tbl.nodeKey n :=
    fun _ => rfl
  have hsome : ∃ node, Chain.find? tbl.nodeKey (tbl.bytes key) (tbl.nodes (tbl.bucket key)) =
      some node := by
    have hne : ucHashSearch tbl key (tbl.nodes (tbl.bucket key)) ≠ none :=
      fun h => hbound ((search_eq_none_iff key).1 h)
    rw [ucHashSearch_eq] at hne
    exact Option.ne_none_iff_exists'.1 hne
  rcases hsome with ⟨node, hnode⟩
  refine lookup_setChain key tbl.nodeTtl ?_ ?_
  · rw [ucHashAssign_eq, Chain.find?_replaceFirst_self hkey, hnode]
    rfl
  · intro b hb
    rw [ucHashAssign_eq, Chain.find?_replaceFirst_ne hkey hb]

/-! ## Insertion -/

omit hw in
theorem insert_bound (malloc : Option NodeBlock) (val : Option P)
    (hbound : tbl.lookup (tbl.bytes key) ≠ none) :
    (ucHashInsert malloc tbl key val).1 = errOk ∧
      (ucHashInsert malloc tbl key val).2.1 =
        tbl.setChain (tbl.bucket key)
          (ucHashAssign tbl key val (tbl.nodes (tbl.bucket key))) ∧
      some (ucHashInsert malloc tbl key val).2.2 =
        (tbl.lookup (tbl.bytes key)).map Option.toList := by
  cases hs : ucHashSearch tbl key (tbl.nodes (tbl.bucket key)) with
  | none => exact absurd ((search_eq_none_iff key).1 hs) hbound
  | some node =>
      have hval := lookup_of_search key hs
      simp [ucHashInsert, hs, hval]

omit hw in
theorem insert_unbound_fail (val : Option P) (hun : tbl.lookup (tbl.bytes key) = none) :
    ucHashInsert none tbl key val = (-0x6488e857, tbl, []) := by
  have hs := (search_eq_none_iff key).2 hun
  simp [ucHashInsert, hs]

omit hw in
theorem insert_unbound (block : NodeBlock) (val : Option P)
    (hun : tbl.lookup (tbl.bytes key) = none) :
    ucHashInsert (some block) tbl key val =
      (errOk,
        { tbl.setChain (tbl.bucket key)
            ({ val := val, keys := ucHashNewKeys tbl block key } ::
              tbl.nodes (tbl.bucket key)) with nodeTtl := tbl.nodeTtl + 1 }, []) := by
  have hs := (search_eq_none_iff key).2 hun
  simp [ucHashInsert, hs]

theorem insert_new_wf (block : NodeBlock) (val : Option P)
    (hun : tbl.lookup (tbl.bytes key) = none) :
    ({ tbl.setChain (tbl.bucket key)
        ({ val := val, keys := ucHashNewKeys tbl block key } ::
          tbl.nodes (tbl.bucket key)) with nodeTtl := tbl.nodeTtl + 1 } : UcHashTable P).Wf := by
  have hkeys := bytes_newKeys tbl key block
  refine Wf.setChain hw (bucket_lt hw key) ?_ ?_ ?_
  · intro node hnode
    rcases List.mem_cons.1 hnode with hnew | hold
    · simp [hnew, bucket, hkeys]
    · exact hw.bucket_eq _ node hold
  · -- the search has gone through the whole chain without a match
    have hfresh : tbl.bytes key ∉ (tbl.nodes (tbl.bucket key)).map tbl.nodeKey := by
      have hs := (search_eq_none_iff key).2 hun
      rw [ucHashSearch_eq] at hs
      exact Chain.find?_eq_none_iff.1 hs
    have hold := hw.nodup (tbl.bucket key)
    rw [List.map_cons, List.nodup_cons]
    refine ⟨?_, hold⟩
    simpa [nodeKey, hkeys] using hfresh
  · simp
    omega

omit hw in
theorem insert_new_lookup (block : NodeBlock) (val : Option P) {ttl : Nat} :
    ({ tbl.setChain (tbl.bucket key)
        ({ val := val, keys := ucHashNewKeys tbl block key } ::
          tbl.nodes (tbl.bucket key)) with nodeTtl := ttl } : UcHashTable P).lookup =
      Function.update tbl.lookup (tbl.bytes key) (some val) := by
  have hkeys := bytes_newKeys tbl key block
  refine lookup_setChain key _ ?_ ?_
  · simp [Chain.find?, nodeKey, hkeys]
  · intro b hb
    refine Chain.find?_cons_ne ?_
    intro h
    exact hb (by simpa [nodeKey, hkeys] using h.symm)

/-- Everything `uc_hash_insert` does: it overwrites, or adds when the allocation succeeds. -/
theorem ucHashInsert_spec (malloc : Option NodeBlock) (val : Option P) :
    (ucHashInsert malloc tbl key val).2.1.Wf ∧
      (ucHashInsert malloc tbl key val).2.1.lookup =
        (if tbl.lookup (tbl.bytes key) ≠ none ∨ malloc.isSome then
          Function.update tbl.lookup (tbl.bytes key) (some val)
        else
          tbl.lookup) := by
  by_cases hbound : tbl.lookup (tbl.bytes key) = none
  · cases malloc with
    | none =>
        rw [insert_unbound_fail key val hbound]
        simp [hbound, hw]
    | some block =>
        rw [insert_unbound key block val hbound]
        refine ⟨insert_new_wf hw key block val hbound, ?_⟩
        simpa using insert_new_lookup key block val
  · have hins := insert_bound key malloc val hbound
    rw [hins.2.1]
    refine ⟨assign_wf hw key val, ?_⟩
    simpa [hbound] using assign_lookup key val hbound

omit hw in
/-- The status of an insertion: it fails exactly when a new node is needed and not to be had. -/
theorem ucHashInsert_status (malloc : Option NodeBlock) (val : Option P) :
    (ucHashInsert malloc tbl key val).1 =
      if tbl.lookup (tbl.bytes key) ≠ none ∨ malloc.isSome then errOk else -0x6488e857 := by
  by_cases hbound : tbl.lookup (tbl.bytes key) = none
  · cases malloc with
    | none => simp [insert_unbound_fail key val hbound, hbound]
    | some block => simp [insert_unbound key block val hbound]
  · have hins := insert_bound key malloc val hbound
    simp [hins.1, hbound]

omit hw in
/-- An insertion fails only for want of a node, and then leaves the table as it is. -/
theorem ucHashInsert_failed {malloc : Option NodeBlock} {val : Option P}
    (hret : (ucHashInsert malloc tbl key val).1 ≠ errOk) :
    ucHashInsert malloc tbl key val = (-0x6488e857, tbl, []) := by
  rw [ucHashInsert_status] at hret
  by_cases hbound : tbl.lookup (tbl.bytes key) = none
  · cases malloc with
    | none => exact insert_unbound_fail key val hbound
    | some block => simp at hret
  · simp [hbound] at hret

/-! ## Deletion -/

/-- Everything `uc_hash_delete` does: it unbinds the key. -/
theorem ucHashDelete_spec :
    (ucHashDelete tbl key).2.1.Wf ∧
      (ucHashDelete tbl key).2.1.lookup = Function.update tbl.lookup (tbl.bytes key) none := by
  cases hs : ucHashSearch tbl key (tbl.nodes (tbl.bucket key)) with
  | none =>
      have hun := (search_eq_none_iff key).1 hs
      -- nothing is bound, so nothing is unlinked
      have hsame : Function.update tbl.lookup (tbl.bytes key) none = tbl.lookup := by
        rw [← hun, Function.update_eq_self]
      simp [ucHashDelete, hs, hw, hsame]
  | some node =>
      have hdel : (ucHashDelete tbl key).2.1 =
          { tbl.setChain (tbl.bucket key) (ucHashUnlink tbl key (tbl.nodes (tbl.bucket key)))
            with nodeTtl := tbl.nodeTtl - 1 } := by
        simp [ucHashDelete, hs]
      have hmem : tbl.bytes key ∈ (tbl.nodes (tbl.bucket key)).map tbl.nodeKey := by
        rw [ucHashSearch_eq] at hs
        exact Chain.isSome_find?_iff.1 (by simp [hs])
      have hlt := bucket_lt hw key
      have hlen := Chain.length_eraseFirst_of_mem hmem
      rw [hdel]
      constructor
      · refine Wf.setChain hw hlt ?_ ?_ ?_
        · intro n hn
          rw [ucHashUnlink_eq] at hn
          exact hw.bucket_eq _ n (Chain.eraseFirst_sublist.subset hn)
        · rw [ucHashUnlink_eq]
          exact (hw.nodup (tbl.bucket key)).sublist
            (Chain.eraseFirst_sublist.map tbl.nodeKey)
        · -- the counter covers this chain, so that counting down does not stop at 0
          have hpos := (Counted.of_wf hw).length_le hlt
          rw [ucHashUnlink_eq]
          omega
      · refine lookup_setChain key _ ?_ ?_
        · rw [ucHashUnlink_eq, Chain.find?_eraseFirst_self (hw.nodup _)]
          rfl
        · intro b hb
          rw [ucHashUnlink_eq, Chain.find?_eraseFirst_ne hb]

omit hw in
theorem ucHashDelete_unbound (hun : tbl.lookup (tbl.bytes key) = none) :
    ucHashDelete tbl key = (errOk, tbl, []) := by
  have hs := (search_eq_none_iff key).2 hun
  simp [ucHashDelete, hs]

omit hw in
/-- `uc_hash_delete` frees the value it unbinds, and always reports success. -/
theorem ucHashDelete_freed :
    (ucHashDelete tbl key).1 = errOk ∧
      (ucHashDelete tbl key).2.2 =
        (match tbl.lookup (tbl.bytes key) with
          | some val => val.toList
          | none => []) := by
  cases hs : ucHashSearch tbl key (tbl.nodes (tbl.bucket key)) with
  | none =>
      have hun := (search_eq_none_iff key).1 hs
      simp [ucHashDelete, hs, hun]
  | some node =>
      have hval := lookup_of_search key hs
      simp [ucHashDelete, hs, hval]

/-! ## Update -/

/-- Everything `uc_hash_update` does: a stored key gets the new value, and the old value is
returned; an absent key changes nothing. -/
theorem ucHashUpdate_spec (val : Option P) :
    (ucHashUpdate tbl key val).2.Wf ∧
      (ucHashUpdate tbl key val).2.lookup =
        (if tbl.lookup (tbl.bytes key) ≠ none then
          Function.update tbl.lookup (tbl.bytes key) (some val)
        else
          tbl.lookup) ∧
      (ucHashUpdate tbl key val).1 = (tbl.lookup (tbl.bytes key)).join := by
  have hval := ucHashFind_val tbl key
  cases hf : ucHashFind tbl key with
  | none =>
      have hun : tbl.lookup (tbl.bytes key) = none := by simpa [hf] using hval.symm
      simp [ucHashUpdate, hf, hun, hw]
  | some node =>
      have hbound : tbl.lookup (tbl.bytes key) = some node.val := by simpa [hf] using hval.symm
      have hne : tbl.lookup (tbl.bytes key) ≠ none := by simp [hbound]
      have hwf := assign_wf hw key val
      have hlook := assign_lookup key val hne
      simp [ucHashUpdate, hf, hbound, hwf, hlook]

end Operations

/-! ## Reset -/

theorem ucHashFreeChain_ttl (chain : List (UcHashNode P)) (ttl : Nat) (freed : List P) :
    (ucHashFreeChain chain (ttl, freed)).1 = ttl - chain.length := by
  induction chain generalizing ttl freed with
  | nil => rfl
  | cons node next ih =>
      simp only [ucHashFreeChain, ih, List.length_cons]
      omega

theorem ucHashResetBucket_fst (acc : UcHashTable P × List P) (h : Nat) :
    (ucHashResetBucket acc h).1 =
      { acc.1.setChain h [] with nodeTtl := acc.1.nodeTtl - (acc.1.nodes h).length } := by
  simp [ucHashResetBucket, ucHashFreeChain_ttl]

/-- The outer loop up to bucket `n`: the chains below `n` are gone and counted off. -/
theorem ucHashReset_loop (tbl : UcHashTable P) (freed : List P) (n : Nat) :
    ((List.range n).foldl ucHashResetBucket (tbl, freed)).1 = { tbl with
      nodeTtl := tbl.nodeTtl - ∑ h ∈ Finset.range n, (tbl.nodes h).length
      nodes := fun h => if h < n then [] else tbl.nodes h } := by
  induction n with
  | zero => simp
  | succ n ih =>
      simp only [List.range_succ, List.foldl_append, List.foldl_cons, List.foldl_nil,
        ucHashResetBucket_fst, ih, setChain]
      have hnodes : Function.update (fun h => if h < n then [] else tbl.nodes h) n [] =
          fun h => if h < n + 1 then [] else tbl.nodes h := by
        funext h
        by_cases hn : h = n
        · simp [hn]
        · have hiff : h < n ↔ h < n + 1 := by omega
          simp [Function.update_of_ne hn, hiff]
      have httl : ∀ s : Nat, tbl.nodeTtl - s - (tbl.nodes n).length =
          tbl.nodeTtl - (s + (tbl.nodes n).length) := by
        intro s
        omega
      simp [hnodes, httl, Finset.sum_range_succ]

theorem ucHashReset_table (tbl : UcHashTable P) :
    (ucHashReset tbl).2.1 = { tbl with
      nodeTtl := tbl.nodeTtl - ∑ h ∈ Finset.range tbl.height, (tbl.nodes h).length
      nodes := fun h => if h < tbl.height then [] else tbl.nodes h } := by
  rw [← ucHashReset_loop tbl [] tbl.height]
  simp only [ucHashReset]
  split <;> rfl

/-- `uc_hash_reset` returns 0 and leaves the empty map. -/
theorem ucHashReset_spec {tbl : UcHashTable P} (hw : tbl.Wf) :
    (ucHashReset tbl).1 = 0 ∧ (ucHashReset tbl).2.1.Wf ∧
      (ucHashReset tbl).2.1.lookup = fun _ => none := by
  have hloop := ucHashReset_loop tbl [] tbl.height
  have hempty : ∀ h, (if h < tbl.height then [] else tbl.nodes h) = ([] : List (UcHashNode P)) := by
    intro h
    by_cases hlt : h < tbl.height
    · simp [hlt]
    · cases hn : tbl.nodes h with
      | nil => simp
      -- a bucket beyond the height holds no node
      | cons node next =>
          have hb := hw.bucket_eq h node (by simp [hn])
          have hmod : tbl.bucket node.keys < tbl.height := Nat.mod_lt _ hw.height_pos
          omega
  have hres : ((List.range tbl.height).foldl ucHashResetBucket (tbl, [])).1 =
      { tbl with nodeTtl := 0, nodes := fun _ => [] } := by
    rw [hloop]
    simp [← hw.ttl_eq, hempty]
  have hret : ucHashReset tbl = (0, { tbl with nodeTtl := 0, nodes := fun _ => [] },
      ((List.range tbl.height).foldl ucHashResetBucket (tbl, [])).2) := by
    simp [ucHashReset, hres]
  rw [hret]
  refine ⟨rfl, ?_, ?_⟩
  · exact
      { height_pos := hw.height_pos
        bucket_eq := by simp
        nodup := by simp
        ttl_eq := by simp }
  · funext b
    simp [lookup]

/-! ## The initial table -/

theorem ucHashCreate_spec {calloc : Nat → Bool} {height : Int} {keyType : UcHashKeyType}
    {len : Nat} {tbl : UcHashTable P} (hc : ucHashCreate calloc height keyType len = some tbl) :
    tbl.Wf ∧ tbl.lookup = (fun _ => none) ∧ tbl.keyType = keyType ∧
      tbl.bytes = keyBytes keyType len ∧ tbl.height = (height % 2 ^ 64).toNat := by
  unfold ucHashCreate ucHashCreateDo at hc
  split at hc
  · cases hc
  · rename_i hpos
    split at hc
    · cases hc
    · cases hc
      refine ⟨?_, ?_, rfl, ?_, rfl⟩
      · exact
          { height_pos := Nat.pos_of_ne_zero hpos
            bucket_eq := by simp
            nodup := by simp
            ttl_eq := by simp }
      · funext b
        simp [lookup]
      · funext key
        by_cases hmem : keyType = .mem
        · simp [bytes, hmem]
        · simp only [bytes, hmem, if_false, keyBytes_eq_field hmem]
          cases keyType <;> first | exact absurd rfl hmem | rfl

/-! ### The block of a table -/

theorem extent_iff {size : Nat} {tbl : UcHashTable P} (hpos : 0 < tbl.height) :
    Extent size tbl ↔ ucHashTableSize + 8 * tbl.height ≤ size := by
  constructor
  · exact Extent.room
  · intro hroom
    have hscan : ∀ i < tbl.height, bucketEnd i ≤ size := by
      intro i hi
      calc
        bucketEnd i ≤ ucHashTableSize + 8 * tbl.height :=
          Nat.add_le_add_left (Nat.mul_le_mul_left 8 hi) _
        _ ≤ size := hroom
    exact ⟨hroom, fun hash => hscan _ (Nat.mod_lt hash hpos), hscan⟩

/-- The conversion of the height. -/
theorem toNat_emod_of_int {height : Int} (hint : -2 ^ 31 ≤ height ∧ height < 2 ^ 31) :
    (0 ≤ height ∧ ((height % 2 ^ 64).toNat : Int) = height) ∨
      (height < 0 ∧ ((height % 2 ^ 64).toNat : Int) = height + 2 ^ 64) := by
  omega

/-- A negative height is converted to one whose array no block can hold. -/
theorem room_iff {height : Int} (hint : -2 ^ 31 ≤ height ∧ height < 2 ^ 31) :
    ucHashTableSize + 8 * (height % 2 ^ 64).toNat ≤ ucHashCreateSize height ↔ 0 ≤ height := by
  have hsize : ucHashTableSize = 296 := rfl
  rw [ucHashCreateSize, hsize]
  -- for a negative height the sum wraps around to less than the header
  rcases toNat_emod_of_int hint with ⟨hpos, heq⟩ | ⟨hneg, heq⟩
  · omega
  · omega

theorem ucHashCreate_height_ne {calloc : Nat → Bool} {height : Int} {keyType : UcHashKeyType}
    {len : Nat} {tbl : UcHashTable P} (hc : ucHashCreate calloc height keyType len = some tbl) :
    height ≠ 0 := by
  rintro rfl
  cases hc

/-- A table that keeps the height it was made with lies in the block `calloc` was asked for exactly
when this height is positive. -/
theorem extent_create_iff {calloc : Nat → Bool} {height : Int} {keyType : UcHashKeyType}
    {len : Nat} {tbl tbl' : UcHashTable P} (hint : -2 ^ 31 ≤ height ∧ height < 2 ^ 31)
    (hc : ucHashCreate calloc height keyType len = some tbl) (hheight : tbl'.height = tbl.height) :
    Extent (ucHashCreateSize height) tbl' ↔ 0 < height := by
  have hspec := ucHashCreate_spec hc
  have hpos : 0 < tbl'.height := by
    rw [hheight]
    exact hspec.1.height_pos
  -- a height of 0 creates no table
  have hne := ucHashCreate_height_ne hc
  rw [extent_iff hpos, hheight, hspec.2.2.2.2, room_iff hint]
  omega

theorem setCalHashHandler_wf {tbl : UcHashTable P} (hempty : ∀ h, tbl.nodes h = [])
    (hw : tbl.Wf) (handler : List UInt8 → Nat) : (ucHashSetCalHashHandler tbl handler).Wf where
  height_pos := hw.height_pos
  bucket_eq := by simp [ucHashSetCalHashHandler, hempty]
  nodup := hw.nodup
  ttl_eq := hw.ttl_eq

end Hash
end UtilsC
