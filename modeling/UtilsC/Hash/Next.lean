import UtilsC.Hash.Handler

/-!
# Walking through a table

`uc_hash_next` finds the successor of a node from its key alone: it hashes the key, searches the
chain, and goes on to the next bucket that is not empty.

* On a table that keeps its invariant it steps along `allNodes` (`ucHashNext_some`).
* `ucHashTraverse` and `ucHashDrain` are the two loops of the header: visiting every node, and
  deleting each node after its successor was fetched.
* `ucHashNext_exact_iff`: both loops are exact in every state of a run exactly when each hash
  function installed on the way keeps the buckets.
-/

namespace UtilsC
namespace Hash

open Lib
open UcHashTable

variable {P : Type}

/-! ## The successor of a node -/

/-- The search loop of `uc_hash_next_node`: `none` when no key of the chain compares equal,
otherwise the link `next` of the first node that does. -/
def ucHashSeek (tbl : UcHashTable P) (key : UcHashKey) :
    List (UcHashNode P) → Option (Option (UcHashNode P))
  | [] => none
  | node :: next =>
      if tbl.compare node.keys key = 0 then some next.head? else ucHashSeek tbl key next

/-- The loop over the buckets: the first node of the first bucket from `i` on that has one. -/
def ucHashFirst (tbl : UcHashTable P) (i : Nat) : Option (UcHashNode P) :=
  (List.range' i (tbl.height - i)).findSome? fun i => (tbl.nodes i).head?

def ucHashNextNode (tbl : UcHashTable P) (key : UcHashKey) : Option (UcHashNode P) :=
  let h := tbl.bucket key
  match ucHashSeek tbl key (tbl.nodes h) with
  | none => none
  -- the next one of the chain, or the first one behind its bucket
  | some (some node) => some node
  | some none => ucHashFirst tbl (h + 1)

/-- The key is a pointer that may be `NULL`. -/
def ucHashNext (tbl : UcHashTable P) : Option UcHashKey → Option (UcHashNode P)
  | some key => ucHashNextNode tbl key
  | none => ucHashFirst tbl 0

/-! ## The loops of the header -/

/-- `while (item) item = uc_hash_next(tbl, uc_hash_key_addr(item))`, at most `fuel` rounds. -/
def ucHashTraverse (tbl : UcHashTable P) (fuel : Nat) (item : Option (UcHashNode P)) :
    Option (List (UcHashNode P)) :=
  Chain.visit (fun node => ucHashNext tbl (some node.keys)) fuel item

/-- One round of the drain loop: the node it was at, the values freed, `node_ttl` afterwards. -/
structure DrainStep (P : Type) where
  item : UcHashNode P
  freed : List P
  ttl : Nat

/-- `while (item) { next = uc_hash_next(..); uc_hash_delete(..); item = next; }`. -/
def ucHashDrain : Nat → UcHashTable P → Option (UcHashNode P) →
    Option (UcHashTable P × List (DrainStep P))
  | _, tbl, none => some (tbl, [])
  -- out of fuel
  | 0, _, some _ => none
  | fuel + 1, tbl, some item =>
      -- the successor is fetched while the item is still there
      let next := ucHashNext tbl (some item.keys)
      let del := ucHashDelete tbl item.keys
      let step := { item := item, freed := del.2.2, ttl := ucHashNodeTtl del.2.1 }
      (ucHashDrain fuel del.2.1 next).map fun r => (r.1, step :: r.2)

/-! ## The successor among all nodes -/

theorem ucHashSeek_eq (tbl : UcHashTable P) (key : UcHashKey) (chain : List (UcHashNode P)) :
    ucHashSeek tbl key chain = Chain.after? tbl.nodeKey (tbl.bytes key) chain := by
  induction chain with
  | nil => rfl
  | cons node next ih =>
      have hcmp := compare_eq_zero_iff tbl node.keys key
      by_cases hb : tbl.bytes node.keys = tbl.bytes key
      · simp [ucHashSeek, Chain.after?, hcmp.2 hb, nodeKey, hb]
      · -- the loop goes on behind a node with another key
        have hne : tbl.compare node.keys key ≠ 0 := fun h => hb (hcmp.1 h)
        simp [ucHashSeek, Chain.after?, hne, nodeKey, hb, ih]

theorem ucHashFirst_eq (tbl : UcHashTable P) (i : Nat) :
    ucHashFirst tbl i = (tbl.highNodes i).head? := by
  rw [ucHashFirst, highNodes, List.head?_flatMap]

theorem ucHashNext_none (tbl : UcHashTable P) : ucHashNext tbl none = tbl.allNodes.head? := by
  have hall : tbl.highNodes 0 = tbl.allNodes := by
    rw [highNodes, allNodes, List.range_eq_range', Nat.sub_zero]
  rw [← hall]
  exact ucHashFirst_eq tbl 0

section Successor

variable {tbl : UcHashTable P} (hw : tbl.Wf)
include hw

/-- The successor the code computes is the node behind the key in the list of all nodes. -/
theorem ucHashNext_some (key : UcHashKey) :
    ucHashNext tbl (some key) =
      (Chain.after? tbl.nodeKey (tbl.bytes key) tbl.allNodes).join := by
  have hseek := ucHashSeek_eq tbl key (tbl.nodes (tbl.bucket key))
  rw [allNodes_eq tbl (bucket_lt hw key),
    Chain.after?_append_of_not_mem (not_mem_lowNodes hw key)]
  -- the key is not in its bucket, or it is the last one there, or another node follows it
  cases hs : Chain.after? tbl.nodeKey (tbl.bytes key) (tbl.nodes (tbl.bucket key)) with
  | none =>
      have habsent := Chain.after?_eq_none_iff.1 hs
      rw [Chain.after?_append_of_not_mem habsent,
        Chain.after?_eq_none_iff.2 (not_mem_highNodes hw key)]
      simp [ucHashNext, ucHashNextNode, hseek, hs]
  | some o =>
      rw [Chain.after?_append_of_some hs]
      cases o with
      | none => simp [ucHashNext, ucHashNextNode, hseek, hs, ucHashFirst_eq]
      | some node => simp [ucHashNext, ucHashNextNode, hseek, hs]

theorem ucHashNext_of_split {pre post : List (UcHashNode P)} {node : UcHashNode P}
    (hsplit : tbl.allNodes = pre ++ node :: post) :
    ucHashNext tbl (some node.keys) = post.head? := by
  have hnodup := nodup_allNodes_keys hw
  rw [hsplit, List.map_append, List.map_cons] at hnodup
  -- no key occurs twice, so the search stops at this node
  have hpre : tbl.nodeKey node ∉ pre.map tbl.nodeKey := by
    intro hmem
    exact (List.nodup_append.1 hnodup).2.2 _ hmem _ (by simp) rfl
  have hafter : Chain.after? tbl.nodeKey (tbl.nodeKey node) tbl.allNodes = some post.head? := by
    rw [hsplit, Chain.after?_append_of_not_mem hpre, Chain.after?_cons_self]
  have hkey : tbl.bytes node.keys = tbl.nodeKey node := rfl
  rw [ucHashNext_some hw, hkey, hafter]
  rfl

/-! ## The loops -/

theorem ucHashTraverse_eq {fuel : Nat} (hfuel : ucHashNodeTtl tbl ≤ fuel) :
    ucHashTraverse tbl fuel (ucHashNext tbl none) = some tbl.allNodes := by
  have hlen : tbl.allNodes.length ≤ fuel := (length_allNodes hw).trans_le hfuel
  rw [ucHashNext_none]
  exact Chain.visit_eq hlen fun _ _ _ hsplit => ucHashNext_of_split hw hsplit

/-- Deleting the first of all nodes leaves the others, and frees its value. -/
theorem ucHashDelete_head {node : UcHashNode P} {rest : List (UcHashNode P)}
    (hall : tbl.allNodes = node :: rest) :
    (ucHashDelete tbl node.keys).2.1.Wf ∧
      (ucHashDelete tbl node.keys).2.1.allNodes = rest ∧
      (ucHashDelete tbl node.keys).2.2 = node.val.toList := by
  have hfind : ucHashFind tbl node.keys = some node := by
    rw [← find?_allNodes hw, hall]
    exact Chain.find?_cons_self
  have hval : tbl.lookup (tbl.bytes node.keys) = some node.val := by
    rw [← ucHashFind_val, hfind]
    rfl
  refine ⟨(ucHashDelete_spec hw node.keys).1, ?_, ?_⟩
  · rw [allNodes_delete hw, hall]
    simp [Chain.eraseFirst, nodeKey]
  · rw [(ucHashDelete_freed node.keys).2, hval]

end Successor

/-- The induction is on the nodes that are left; the current item is always the first of them. -/
theorem ucHashDrain_eq {nodes : List (UcHashNode P)} :
    ∀ {tbl : UcHashTable P} {fuel : Nat}, tbl.Wf → tbl.allNodes = nodes → nodes.length ≤ fuel →
      ∃ last steps, ucHashDrain fuel tbl nodes.head? = some (last, steps) ∧
        steps.map DrainStep.item = nodes ∧
        steps.map DrainStep.freed = nodes.map (fun node => node.val.toList) ∧
        steps.map DrainStep.ttl = (List.range nodes.length).reverse ∧
        last.Wf ∧ last.allNodes = [] := by
  induction nodes with
  | nil =>
      intro tbl fuel hw hall _
      refine ⟨tbl, [], ?_, rfl, rfl, rfl, hw, hall⟩
      cases fuel <;> rfl
  | cons node rest ih =>
      intro tbl fuel hw hall hfuel
      cases fuel with
      | zero => simp at hfuel
      | succ fuel =>
          rcases ucHashDelete_head hw hall with ⟨hw', hall', hfreed⟩
          have hlen : rest.length ≤ fuel := by simpa using hfuel
          rcases ih hw' hall' hlen with ⟨last, steps, hdrain, hitem, hval, httl, hwl, halll⟩
          -- the item is the first of the nodes that are left, and its successor the second
          have hsplit : tbl.allNodes = [] ++ node :: rest := hall
          have hnext : ucHashNext tbl (some node.keys) = rest.head? :=
            ucHashNext_of_split hw hsplit
          have hleft : ucHashNodeTtl (ucHashDelete tbl node.keys).2.1 = rest.length := by
            rw [← hall']
            exact (length_allNodes hw').symm
          refine ⟨last,
            { item := node, freed := node.val.toList, ttl := rest.length } :: steps,
            ?_, ?_, ?_, ?_, hwl, halll⟩
          · show ucHashDrain (fuel + 1) tbl (some node) = _
            simp only [ucHashDrain, hnext, hdrain, hfreed, hleft]
            rfl
          · simp [hitem]
          · simp [hval]
          · simp [httl, List.range_succ]

/-! ## Exact traversal -/

/-- Both loops see every node of the table once; the drain loop lowers `node_ttl` by one in each
round and leaves the empty table. -/
structure TraversalExact (tbl : UcHashTable P) : Prop where
  distinct : (tbl.allNodes.map tbl.nodeKey).Nodup
  complete : ∀ h, ∀ node ∈ tbl.nodes h, node ∈ tbl.allNodes
  count : tbl.allNodes.length = ucHashNodeTtl tbl
  visits : ∀ fuel, ucHashNodeTtl tbl ≤ fuel →
    ucHashTraverse tbl fuel (ucHashNext tbl none) = some tbl.allNodes
  drains : ∀ fuel, ucHashNodeTtl tbl ≤ fuel →
    ∃ last steps, ucHashDrain fuel tbl (ucHashNext tbl none) = some (last, steps) ∧
      steps.map DrainStep.item = tbl.allNodes ∧
      steps.map DrainStep.freed = tbl.allNodes.map (fun node => node.val.toList) ∧
      steps.map DrainStep.ttl = (List.range (ucHashNodeTtl tbl)).reverse ∧
      (∀ h, last.nodes h = []) ∧ ucHashNodeTtl last = 0

theorem traversalExact_of_wf {tbl : UcHashTable P} (hw : tbl.Wf) : TraversalExact tbl where
  distinct := nodup_allNodes_keys hw
  complete := fun _ _ hmem => mem_allNodes_of_mem hw hmem
  count := length_allNodes hw
  visits := fun _ hfuel => ucHashTraverse_eq hw hfuel
  drains := by
    intro fuel hfuel
    have hlen : tbl.allNodes.length = ucHashNodeTtl tbl := length_allNodes hw
    rcases ucHashDrain_eq hw rfl (hlen.trans_le hfuel) with
      ⟨last, steps, hdrain, hitem, hval, httl, hwl, hall⟩
    have hempty : ∀ h, last.nodes h = [] := by
      intro h
      refine List.eq_nil_iff_forall_not_mem.2 ?_
      intro node hmem
      have hin := mem_allNodes_of_mem hwl hmem
      simp [hall] at hin
    have hzero : ucHashNodeTtl last = 0 := by
      rw [ucHashNodeTtl, ← length_allNodes hwl, hall]
      rfl
    rw [ucHashNext_none, ← hlen]
    exact ⟨last, steps, hdrain, hitem, hval, httl, hempty, hzero⟩

/-! ## A misplaced node -/

/-- A deletion searches only the chain its key hashes to, so it cannot unlink a node of another
bucket. -/
theorem mem_delete_of_misplaced {tbl : UcHashTable P} {h : Nat} {node : UcHashNode P}
    (key : UcHashKey) (hmem : node ∈ tbl.nodes h) (hmis : tbl.bucket node.keys ≠ h) :
    node ∈ (ucHashDelete tbl key).2.1.nodes h := by
  cases hs : ucHashSearch tbl key (tbl.nodes (tbl.bucket key)) with
  | none => simpa [ucHashDelete, hs] using hmem
  | some found =>
      simp only [ucHashDelete, hs, setChain_nodes]
      -- in the bucket that is searched, the node has another key than the one deleted
      by_cases hh : h = tbl.bucket key
      · have hne : tbl.nodeKey node ≠ tbl.bytes key := by
          intro hkey
          have hkey' : tbl.bytes node.keys = tbl.bytes key := hkey
          exact hmis (by rw [hh, bucket, bucket, hkey'])
        rw [← hh, Function.update_self, ucHashUnlink_eq]
        exact Chain.mem_eraseFirst_of_ne hmem hne
      · rw [Function.update_of_ne hh]
        exact hmem

theorem mem_drain_of_misplaced {h : Nat} {node : UcHashNode P} :
    ∀ {fuel : Nat} {tbl last : UcHashTable P} {item : Option (UcHashNode P)}
      {steps : List (DrainStep P)}, ucHashDrain fuel tbl item = some (last, steps) →
      node ∈ tbl.nodes h → tbl.bucket node.keys ≠ h → node ∈ last.nodes h := by
  -- the induction is on the fuel; every round deletes by some key and so spares the node
  intro fuel
  induction fuel with
  | zero =>
      intro tbl last item steps hdrain hmem _
      cases item with
      | none =>
          cases hdrain
          exact hmem
      | some item => cases hdrain
  | succ fuel ih =>
      intro tbl last item steps hdrain hmem hmis
      cases item with
      | none =>
          cases hdrain
          exact hmem
      | some item =>
          simp only [ucHashDrain, Option.map_eq_some_iff] at hdrain
          rcases hdrain with ⟨r, hrest, hr⟩
          have hlast : r.1 = last := congrArg Prod.fst hr
          have hframe := onTable_frame tbl (.delete item.keys)
          have hbucket : (ucHashDelete tbl item.keys).2.1.bucket node.keys ≠ h := by
            have hsame : (ucHashDelete tbl item.keys).2.1.bucket node.keys =
                tbl.bucket node.keys := by
              show (TableOp.onTable tbl (.delete item.keys)).bucket node.keys = _
              rw [bucket, bucket, hframe.1, hframe.2.1, hframe.2.2]
            rwa [hsame]
          rw [← hlast]
          exact ih hrest (mem_delete_of_misplaced item.keys hmem hmis) hbucket

/-- Where the drain loop empties the table, no node is misplaced. -/
theorem bucket_eq_of_exact {tbl : UcHashTable P} (hexact : TraversalExact tbl) {h : Nat}
    {node : UcHashNode P} (hmem : node ∈ tbl.nodes h) : tbl.bucket node.keys = h := by
  by_contra hmis
  rcases hexact.drains _ le_rfl with ⟨last, steps, hdrain, _, _, _, hempty, _⟩
  have hstill := mem_drain_of_misplaced hdrain hmem hmis
  simp [hempty h] at hstill

/-! ## Runs -/

/-- Traversal stays in the block of the table and is exact in every state of a run exactly when the
height is positive and each hash function the run installs sends the keys stored at that moment to
the buckets they are in. -/
theorem ucHashNext_exact_iff {calloc : Nat → Bool} {height : Int} {keyType : UcHashKeyType}
    {keyVoidLen : Nat} {tbl₀ : UcHashTable P} (hint : -2 ^ 31 ≤ height ∧ height < 2 ^ 31)
    (hcreate : ucHashCreate calloc height keyType keyVoidLen = some tbl₀)
    (ops : List (PublicOp P)) :
    (∀ pre, pre <+: ops →
      Extent (ucHashCreateSize height) (pre.foldl PublicOp.onNamed (named tbl₀)).tbl ∧
        TraversalExact (pre.foldl PublicOp.onNamed (named tbl₀)).tbl) ↔
      0 < height ∧ HandlersKeep (named tbl₀) ops := by
  constructor
  · intro hall
    refine ⟨(extent_run_iff hint hcreate []).1 (hall [] (List.nil_prefix)).1, ?_⟩
    refine handlersKeep_of_bucket_eq fun pre hpre h node hmem => ?_
    exact bucket_eq_of_exact (hall pre hpre).2 hmem
  · rintro ⟨hpos, hkeep⟩ pre hpre
    have hrun := (Represents.of_create hcreate).run (t := named tbl₀) (hkeep.of_prefix hpre)
    exact ⟨(extent_run_iff hint hcreate pre).2 hpos, traversalExact_of_wf hrun.wf⟩

theorem ucHashNext_exact_shifted :
    ∃ tbl₀ : UcHashTable Nat, ucHashCreate (fun _ => true) 2 .uint64 0 = some tbl₀ ∧
      ∀ pre, pre <+: shiftedOps →
        Extent (ucHashCreateSize 2) (pre.foldl PublicOp.onNamed (named tbl₀)).tbl ∧
          TraversalExact (pre.foldl PublicOp.onNamed (named tbl₀)).tbl := by
  have hcreate : ∃ tbl₀ : UcHashTable Nat,
      ucHashCreate (fun _ => true) 2 .uint64 0 = some tbl₀ := ⟨_, rfl⟩
  rcases hcreate with ⟨tbl₀, hcreate⟩
  exact ⟨tbl₀, hcreate,
    (ucHashNext_exact_iff (by decide) hcreate shiftedOps).2
      ⟨by decide, handlersKeep_shifted hcreate⟩⟩

/-- Two keys are stored in bucket 0.  After the handler is replaced, the successor of the first
is searched in bucket 1: the walk sees one of the two nodes, and the drain loop deletes none. -/
theorem ucHashNext_not_exact :
    ∃ tbl₀ : UcHashTable Nat, ucHashCreate (fun _ => true) 2 .uint64 0 = some tbl₀ ∧
      let ops := [PublicOp.setCalHashHandler fun _ => 0,
        .table (.insert (some ⟨8, ucHashKeyU64 0⟩) (ucHashKeyU64 1) (some 10)),
        .table (.insert (some ⟨9, ucHashKeyU64 0⟩) (ucHashKeyU64 2) (some 11)),
        .setCalHashHandler fun _ => 1]
      let tbl := (ops.foldl PublicOp.onNamed (named tbl₀)).tbl
      ¬ TraversalExact tbl ∧ ucHashNodeTtl tbl = 2 ∧
        (ucHashTraverse tbl 2 (ucHashNext tbl none)).map List.length = some 1 ∧
        (ucHashDrain 2 tbl (ucHashNext tbl none)).map (fun r => ucHashNodeTtl r.1) = some 2 := by
  refine ⟨_, rfl, ?_, by decide, by decide, by decide⟩
  intro hexact
  rcases hexact.drains 2 (by decide) with ⟨last, steps, hdrain, _, _, _, _, hzero⟩
  have httl := congrArg (Option.map fun r => ucHashNodeTtl r.1) hdrain
  rw [Option.map_some, hzero] at httl
  revert httl
  decide

end Hash
end UtilsC
