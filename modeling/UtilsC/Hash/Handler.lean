import UtilsC.Hash.Refine

/-!
# Replacing the hash function of a table

`uc_hash_set_cal_hash_handler` installs a new hash function and leaves the nodes where they are.
This file follows a table through runs in which that happens at any point.

* `PublicOp` adds the handler and the name to the operations of the map.
* `KeepsBuckets`: the new function sends every stored key to the bucket it is in.
* `setCalHashHandler_placed_iff`: a table with memory for its buckets keeps its invariant, and with
  it the map it stands for, exactly in the runs whose handlers keep the buckets.
-/

namespace UtilsC
namespace Hash

open UcHashTable

variable {P : Type}

/-! ## The public operations -/

def ucHashNameLen00 : Nat := 257

/-- A table with its name, the bytes before the terminator. -/
structure NamedTable (P : Type) where
  name : List UInt8
  tbl : UcHashTable P

/-- `snprintf(tbl->name, sizeof(tbl->name), "%s", name)`. -/
def ucHashSetName (t : NamedTable P) (name : List UInt8) : NamedTable P :=
  { t with name := (name.takeWhile (· ≠ 0)).take (ucHashNameLen00 - 1) }

inductive PublicOp (P : Type)
  | table (op : TableOp P)
  | setName (name : List UInt8)
  | setCalHashHandler (handler : List UInt8 → Nat)

namespace PublicOp

def onNamed (t : NamedTable P) : PublicOp P → NamedTable P
  | table op => { t with tbl := op.onTable t.tbl }
  | setName name => ucHashSetName t name
  -- the nodes stay in the buckets where the old function has put them
  | setCalHashHandler handler => { t with tbl := ucHashSetCalHashHandler t.tbl handler }

/-- The map the operation leads to: names and hash functions are not part of it. -/
def onMap (bytes : UcHashKey → List UInt8) (m : Bindings P) : PublicOp P → Bindings P
  | table op => op.onMap bytes m
  | setName _ => m
  | setCalHashHandler _ => m

end PublicOp

/-- A new table has the empty name. -/
def named (tbl : UcHashTable P) : NamedTable P :=
  { name := [], tbl := tbl }

/-- `handler` sends every key stored in the table to the bucket it is in now. -/
def KeepsBuckets (tbl : UcHashTable P) (handler : List UInt8 → Nat) : Prop :=
  ∀ node ∈ tbl.allNodes, handler (tbl.bytes node.keys) % tbl.height = tbl.bucket node.keys

/-- Every handler the run installs keeps the buckets of the keys stored at that moment. -/
def HandlersKeep (t : NamedTable P) (ops : List (PublicOp P)) : Prop :=
  ∀ pre handler post, ops = pre ++ PublicOp.setCalHashHandler handler :: post →
    KeepsBuckets (pre.foldl PublicOp.onNamed t).tbl handler

theorem HandlersKeep.of_prefix {t : NamedTable P} {ops pre : List (PublicOp P)}
    (hkeep : HandlersKeep t ops) (hpre : pre <+: ops) : HandlersKeep t pre := by
  rcases hpre with ⟨rest, hrest⟩
  intro pre' handler post heq
  exact hkeep pre' handler (post ++ rest) (by rw [← hrest, heq]; simp)

/-- Where no state of a run has a misplaced node, both sides of an installation are placed, and it
has moved no key. -/
theorem handlersKeep_of_bucket_eq {t : NamedTable P} {ops : List (PublicOp P)}
    (hplaced : ∀ pre, pre <+: ops → ∀ h, ∀ node ∈ (pre.foldl PublicOp.onNamed t).tbl.nodes h,
      (pre.foldl PublicOp.onNamed t).tbl.bucket node.keys = h) : HandlersKeep t ops := by
  intro pre handler post heq node hnode
  rcases List.mem_flatMap.1 hnode with ⟨h, _, hmem⟩
  have hold := hplaced pre ⟨_, heq.symm⟩ h node hmem
  have hafter := hplaced (pre ++ [.setCalHashHandler handler]) ⟨post, by simp [heq]⟩ h node
  rw [List.foldl_append] at hafter
  -- one chain holds the node, whichever function is installed
  exact (hafter hmem).trans hold.symm

theorem handlersKeep_cons {t : NamedTable P} {op : PublicOp P} {ops : List (PublicOp P)} :
    HandlersKeep t (op :: ops) ↔
      (∀ handler, op = .setCalHashHandler handler → KeepsBuckets t.tbl handler) ∧
        HandlersKeep (op.onNamed t) ops := by
  constructor
  · intro hkeep
    refine ⟨?_, ?_⟩
    · intro handler hop
      exact hkeep [] handler ops (by rw [hop]; rfl)
    · intro pre handler post heq
      exact hkeep (op :: pre) handler post (by simp [heq])
  · rintro ⟨hfirst, hrest⟩ pre handler post heq
    -- the handler in question is the first operation, or it comes later
    cases pre with
    | nil =>
        have hop : op = .setCalHashHandler handler := (List.cons.inj heq).1
        exact hfirst handler hop
    | cons op' pre =>
        rcases List.cons.inj heq with ⟨hop, hops⟩
        subst hop
        exact hrest pre handler post hops

/-- An empty table may get any hash function. -/
theorem keepsBuckets_of_empty {tbl : UcHashTable P} (hempty : ∀ h, tbl.nodes h = [])
    (handler : List UInt8 → Nat) : KeepsBuckets tbl handler := by
  intro node hnode
  rcases List.mem_flatMap.1 hnode with ⟨h, _, hmem⟩
  simp [hempty h] at hmem

/-! ## One handler -/

section OneHandler

variable {tbl : UcHashTable P} (hw : tbl.Wf) {handler : List UInt8 → Nat}
include hw

theorem mem_allNodes_of_mem {h : Nat} {node : UcHashNode P} (hmem : node ∈ tbl.nodes h) :
    node ∈ tbl.allNodes := by
  have hbucket := hw.bucket_eq h node hmem
  refine List.mem_flatMap.2 ⟨h, ?_, hmem⟩
  rw [← hbucket]
  exact List.mem_range.2 (bucket_lt hw node.keys)

theorem setCalHashHandler_wf_of_keeps (hkeep : KeepsBuckets tbl handler) :
    (ucHashSetCalHashHandler tbl handler).Wf where
  height_pos := hw.height_pos
  bucket_eq := by
    intro h node hmem
    have hmem' : node ∈ tbl.nodes h := hmem
    have hnew := hkeep node (mem_allNodes_of_mem hw hmem')
    exact hnew.trans (hw.bucket_eq h node hmem')
  nodup := hw.nodup
  ttl_eq := hw.ttl_eq

/-- The map does not change: with either hash function, the search for a key is the search
among all nodes. -/
theorem setCalHashHandler_lookup (hkeep : KeepsBuckets tbl handler) :
    (ucHashSetCalHashHandler tbl handler).lookup = tbl.lookup := by
  have hw' := setCalHashHandler_wf_of_keeps hw hkeep
  funext b
  -- a stored key is found among all nodes with either function, another one with neither
  by_cases hb : b ∈ tbl.allNodes.map tbl.nodeKey
  · rcases List.mem_map.1 hb with ⟨node, _, hkey⟩
    subst hkey
    have hold : Lib.Chain.find? tbl.nodeKey (tbl.bytes node.keys) tbl.allNodes =
        ucHashFind tbl node.keys := find?_allNodes hw node.keys
    have hnew : Lib.Chain.find? tbl.nodeKey (tbl.bytes node.keys) tbl.allNodes =
        ucHashFind (ucHashSetCalHashHandler tbl handler) node.keys := find?_allNodes hw' node.keys
    have hval : (ucHashFind tbl node.keys).map UcHashNode.val = tbl.lookup (tbl.nodeKey node) :=
      ucHashFind_val tbl node.keys
    have hval' : (ucHashFind (ucHashSetCalHashHandler tbl handler) node.keys).map UcHashNode.val =
        (ucHashSetCalHashHandler tbl handler).lookup (tbl.nodeKey node) :=
      ucHashFind_val (ucHashSetCalHashHandler tbl handler) node.keys
    rw [← hval', ← hnew, hold, hval]
  · have hold : tbl.lookup b = none := by
      by_contra hne
      exact hb ((mem_allNodes_keys_iff hw).2 hne)
    have hnew : (ucHashSetCalHashHandler tbl handler).lookup b = none := by
      by_contra hne
      exact hb ((mem_allNodes_keys_iff hw').2 hne)
    rw [hold, hnew]

end OneHandler

/-! ## Runs -/

/-- A table and a map that agree, on tables that keep their invariant. -/
structure Represents (tbl : UcHashTable P) (bytes : UcHashKey → List UInt8) (m : Bindings P) :
    Prop where
  wf : tbl.Wf
  bytes_eq : tbl.bytes = bytes
  lookup_eq : tbl.lookup = m

section Runs

variable {t : NamedTable P} {bytes : UcHashKey → List UInt8} {m : Bindings P}

theorem Represents.step (hr : Represents t.tbl bytes m) {op : PublicOp P}
    (hop : ∀ handler, op = .setCalHashHandler handler → KeepsBuckets t.tbl handler) :
    Represents (op.onNamed t).tbl bytes (op.onMap bytes m) := by
  cases op with
  | table op =>
      have hstep := onTable_step hr.wf op
      have hframe := onTable_frame t.tbl op
      refine ⟨hstep.1, hframe.1.trans hr.bytes_eq, ?_⟩
      have hlook := hstep.2
      rw [hr.bytes_eq, hr.lookup_eq] at hlook
      exact hlook
  | setName name => exact hr
  -- the only operation that needs the hypothesis
  | setCalHashHandler handler =>
      have hkeep := hop handler rfl
      have hlook := setCalHashHandler_lookup hr.wf hkeep
      exact ⟨setCalHashHandler_wf_of_keeps hr.wf hkeep, hr.bytes_eq, hlook.trans hr.lookup_eq⟩

/-- Runs grow at their end, so that each operation meets the state it is applied to. -/
theorem Represents.run (hr : Represents t.tbl bytes m) {ops : List (PublicOp P)}
    (hkeep : HandlersKeep t ops) :
    Represents (ops.foldl PublicOp.onNamed t).tbl bytes
      (ops.foldl (PublicOp.onMap bytes) m) := by
  induction ops using List.reverseRecOn with
  | nil => exact hr
  | append_singleton ops op ih =>
      have hkeep' : HandlersKeep t ops := by
        intro pre handler post heq
        exact hkeep pre handler (post ++ [op]) (by simp [heq])
      have hlast : ∀ handler, op = .setCalHashHandler handler →
          KeepsBuckets (ops.foldl PublicOp.onNamed t).tbl handler := by
        intro handler heq
        exact hkeep ops handler [] (by rw [heq])
      have hstep := (ih hkeep').step hlast
      simpa [List.foldl_append] using hstep

/-- What does not depend on the buckets, the counter and the handler stays. -/
theorem onNamed_frame {α : Type} (f : UcHashTable P → α)
    (hf : ∀ (tbl : UcHashTable P) ttl nodes handler,
      f { tbl with nodeTtl := ttl, hashCalFun := handler, nodes := nodes } = f tbl)
    (ops : List (PublicOp P)) (t : NamedTable P) :
    f (ops.foldl PublicOp.onNamed t).tbl = f t.tbl := by
  induction ops generalizing t with
  | nil => rfl
  | cons op ops ih =>
      have hstep : f (op.onNamed t).tbl = f t.tbl := by
        cases op with
        | table op =>
            rcases onTable_eq t.tbl op with ⟨ttl, nodes, heq⟩
            show f (op.onTable t.tbl) = f t.tbl
            rw [heq]
            exact hf t.tbl ttl nodes t.tbl.hashCalFun
        | setName name => rfl
        | setCalHashHandler handler => exact hf t.tbl t.tbl.nodeTtl t.tbl.nodes handler
      exact (ih (op.onNamed t)).trans hstep

/-- No operation changes which bytes identify a key. -/
theorem onNamed_bytes (ops : List (PublicOp P)) (t : NamedTable P) :
    (ops.foldl PublicOp.onNamed t).tbl.bytes = t.tbl.bytes :=
  onNamed_frame bytes (fun _ _ _ _ => rfl) ops t

theorem onNamed_height (ops : List (PublicOp P)) (t : NamedTable P) :
    (ops.foldl PublicOp.onNamed t).tbl.height = t.tbl.height :=
  onNamed_frame height (fun _ _ _ _ => rfl) ops t

theorem onNamed_keyType (ops : List (PublicOp P)) (t : NamedTable P) :
    (ops.foldl PublicOp.onNamed t).tbl.keyType = t.tbl.keyType :=
  onNamed_frame keyType (fun _ _ _ _ => rfl) ops t

end Runs

/-- The state a run starts from: a table fresh from `uc_hash_create`. -/
theorem Represents.of_create {calloc : Nat → Bool} {height : Int} {keyType : UcHashKeyType}
    {len : Nat} {tbl : UcHashTable P} (hc : ucHashCreate calloc height keyType len = some tbl) :
    Represents tbl (keyBytes keyType len) (fun _ => none) := by
  rcases ucHashCreate_spec hc with ⟨hw, hlook, _, hbytes, _⟩
  exact ⟨hw, hbytes, hlook⟩

/-! ## What a misplaced node costs -/

/-- Every node is in the bucket its key hashes to; so `uc_hash_find` finds every key of the map,
and inserting one of them again replaces its value and adds no node. -/
structure Placed (tbl : UcHashTable P) (bytes : UcHashKey → List UInt8) (m : Bindings P) :
    Prop where
  bucket_eq : ∀ h, ∀ node ∈ tbl.nodes h, h = tbl.hashCalFun (bytes node.keys) % tbl.height
  found : ∀ key, (ucHashFind tbl key).map ucHashNodeVal = m (bytes key)
  replaced : ∀ malloc key val, m (bytes key) ≠ none →
    (ucHashInsert malloc tbl key val).1 = errOk ∧
      ucHashNodeTtl (ucHashInsert malloc tbl key val).2.1 = ucHashNodeTtl tbl ∧
      (ucHashInsert malloc tbl key val).2.1.allNodes.map (fun node => bytes node.keys) =
        tbl.allNodes.map fun node => bytes node.keys

theorem Represents.placed {tbl : UcHashTable P} {bytes : UcHashKey → List UInt8} {m : Bindings P}
    (hr : Represents tbl bytes m) : Placed tbl bytes m where
  bucket_eq := by
    intro h node hnode
    have hb := hr.wf.bucket_eq h node hnode
    rw [← hb, bucket, hr.bytes_eq]
  found := by
    intro key
    have hval := ucHashFind_val tbl key
    rw [hr.bytes_eq, hr.lookup_eq] at hval
    exact hval
  replaced := by
    intro malloc key val hbound
    have hne : tbl.lookup (tbl.bytes key) ≠ none := by rwa [hr.bytes_eq, hr.lookup_eq]
    have hins := insert_bound key malloc val hne
    refine ⟨hins.1, ?_, ?_⟩
    · rw [hins.2.1]
      rfl
    · -- the value of one node is replaced, and the keys are the same as before
      have hkey : tbl.nodeKey = fun node => bytes node.keys := by
        funext node
        simp [nodeKey, hr.bytes_eq]
      have hsame : ∀ n : UcHashNode P, tbl.nodeKey { n with val := val } = tbl.nodeKey n :=
        fun _ => rfl
      rw [hins.2.1, allNodes_assign hr.wf key val, ← hkey, Lib.Chain.map_key_replaceFirst hsame]

theorem extent_run_iff {calloc : Nat → Bool} {height : Int} {keyType : UcHashKeyType} {len : Nat}
    {tbl : UcHashTable P} (hint : -2 ^ 31 ≤ height ∧ height < 2 ^ 31)
    (hc : ucHashCreate calloc height keyType len = some tbl) (ops : List (PublicOp P)) :
    Extent (ucHashCreateSize height) (ops.foldl PublicOp.onNamed (named tbl)).tbl ↔ 0 < height :=
  extent_create_iff hint hc (onNamed_height ops (named tbl))

/-- The public operations stay in the block of the table and keep every node in its bucket exactly
for a positive height and in the runs in which each new hash function sends the keys stored at that
moment to the buckets they are in. -/
theorem setCalHashHandler_placed_iff {calloc : Nat → Bool} {height : Int}
    {keyType : UcHashKeyType} {keyVoidLen : Nat} {tbl₀ : UcHashTable P}
    (hint : -2 ^ 31 ≤ height ∧ height < 2 ^ 31)
    (hcreate : ucHashCreate calloc height keyType keyVoidLen = some tbl₀)
    (ops : List (PublicOp P)) :
    (∀ pre, pre <+: ops →
      Extent (ucHashCreateSize height) (pre.foldl PublicOp.onNamed (named tbl₀)).tbl ∧
        Placed (pre.foldl PublicOp.onNamed (named tbl₀)).tbl (keyBytes keyType keyVoidLen)
          (pre.foldl (PublicOp.onMap (keyBytes keyType keyVoidLen)) fun _ => none)) ↔
      0 < height ∧ HandlersKeep (named tbl₀) ops := by
  have hbytes₀ := (Represents.of_create hcreate).bytes_eq
  constructor
  · intro hall
    refine ⟨(extent_run_iff hint hcreate []).1 (hall [] (List.nil_prefix)).1, ?_⟩
    refine handlersKeep_of_bucket_eq fun pre hpre h node hmem => ?_
    have hbytes : (pre.foldl PublicOp.onNamed (named tbl₀)).tbl.bytes =
        keyBytes keyType keyVoidLen := (onNamed_bytes pre (named tbl₀)).trans hbytes₀
    rw [bucket, hbytes]
    exact ((hall pre hpre).2.bucket_eq h node hmem).symm
  · rintro ⟨hpos, hkeep⟩ pre hpre
    have hrun := (Represents.of_create hcreate).run (t := named tbl₀) (hkeep.of_prefix hpre)
    exact ⟨(extent_run_iff hint hcreate pre).2 hpos, hrun.placed⟩

/-- A run that replaces the hash function of a table of height 2 by one that differs by 2. -/
def shiftedOps : List (PublicOp Nat) :=
  [.setCalHashHandler List.length,
    .table (.insert (some ⟨8, ucHashKeyU64 0⟩) (ucHashKeyU64 3) (some 10)),
    .setCalHashHandler fun b => b.length + 2]

theorem handlersKeep_shifted {tbl₀ : UcHashTable Nat}
    (hcreate : ucHashCreate (fun _ => true) 2 .uint64 0 = some tbl₀) :
    HandlersKeep (named tbl₀) shiftedOps := by
  have hheight : tbl₀.height = 2 := (ucHashCreate_spec hcreate).2.2.2.2
  refine handlersKeep_cons.2 ⟨?_, handlersKeep_cons.2 ⟨?_, handlersKeep_cons.2 ⟨?_, ?_⟩⟩⟩
  · intro handler _
    exact keepsBuckets_of_empty (nodes_of_create hcreate) handler
  · intro handler hop
    cases hop
  · intro handler hop node _
    cases hop
    rcases onTable_frame (ucHashSetCalHashHandler tbl₀ List.length)
      (.insert (some ⟨8, ucHashKeyU64 0⟩) (ucHashKeyU64 3) (some 10)) with ⟨_, hh, hf⟩
    have hh' := hh.trans hheight
    simp only [PublicOp.onNamed, named, bucket]
    rw [hh', hf, Nat.add_mod_right]
    rfl
  · intro pre handler post heq
    simp at heq

/-- A function that differs by a multiple of the height may be installed at any time. -/
theorem setCalHashHandler_placed_shifted :
    ∃ tbl₀ : UcHashTable Nat, ucHashCreate (fun _ => true) 2 .uint64 0 = some tbl₀ ∧
      ∀ pre, pre <+: shiftedOps →
        Extent (ucHashCreateSize 2) (pre.foldl PublicOp.onNamed (named tbl₀)).tbl ∧
          Placed (pre.foldl PublicOp.onNamed (named tbl₀)).tbl (keyBytes .uint64 0)
            (pre.foldl (PublicOp.onMap (keyBytes .uint64 0)) fun _ => none) := by
  have hcreate : ∃ tbl₀ : UcHashTable Nat,
      ucHashCreate (fun _ => true) 2 .uint64 0 = some tbl₀ := ⟨_, rfl⟩
  rcases hcreate with ⟨tbl₀, hcreate⟩
  exact ⟨tbl₀, hcreate,
    (setCalHashHandler_placed_iff (by decide) hcreate shiftedOps).2
      ⟨by decide, handlersKeep_shifted hcreate⟩⟩

/-- The key 1 is stored in bucket 0; a handler that sends it to bucket 1 makes it unreachable, and
inserting it again makes a second node. -/
theorem setCalHashHandler_misplaces :
    ∃ tbl₀ : UcHashTable Nat, ucHashCreate (fun _ => true) 2 .uint64 0 = some tbl₀ ∧
      let ops := [PublicOp.setCalHashHandler fun _ => 0,
        .table (.insert (some ⟨8, ucHashKeyU64 0⟩) (ucHashKeyU64 1) (some 10)),
        .setCalHashHandler fun _ => 1]
      let tbl := (ops.foldl PublicOp.onNamed (named tbl₀)).tbl
      ¬ Placed tbl (keyBytes .uint64 0)
          (ops.foldl (PublicOp.onMap (keyBytes .uint64 0)) fun _ => none) ∧
        (ucHashFind tbl (ucHashKeyU64 1)).isNone = true ∧
        ucHashNodeTtl (ucHashInsert (some ⟨8, ucHashKeyU64 0⟩) tbl (ucHashKeyU64 1) (some 11)).2.1 =
          2 := by
  refine ⟨_, rfl, ?_, by decide, by decide⟩
  intro hplaced
  have hfound := hplaced.found (ucHashKeyU64 1)
  revert hfound
  decide

end Hash
end UtilsC
