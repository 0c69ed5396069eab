import UtilsC.Hash.Key
import UtilsC.Hash.Crc64
import Mathlib.Logic.Function.Basic

/-!
# The chained hash table

The table operations of `uc_hash.c`, on explicit state.

* A value is a pointer: `none` is `NULL`, `some p` a block the caller handed over.
* An operation that frees values returns them as a list, in the order of the `free` calls.
* An allocation is an argument: `none` when `malloc` fails, otherwise the block it returns, whose
  contents are whatever the memory held before.
* The bucket array is a function from index to chain; the code uses the indices below `height`.
  They have memory only in a table with `Extent`, and what is said of an operation is said of such
  tables.
-/

namespace UtilsC
namespace Hash

variable {P : Type}

/-- `struct uc_hash_node_s`; the link `next` is the chain order. -/
structure UcHashNode (P : Type) where
  val : Option P
  keys : UcHashKey

/-- `struct uc_hash_table_s` without its name, which only log messages use. -/
structure UcHashTable (P : Type) where
  keyType : UcHashKeyType
  memKeyLen : Nat
  nodeTtl : Nat
  height : Nat
  hashCalFun : List UInt8 → Nat
  nodes : Nat → List (UcHashNode P)

/-- A node fresh from `malloc`: its address and the key bytes it happens to hold. -/
structure NodeBlock where
  addr : Nat
  keys : UcHashKey

def errOk : Int := 0

/-- `sizeof(struct uc_hash_table_s)`: 257 name bytes, the key type, three counters, the handler. -/
def ucHashTableSize : Nat := 296

/-- `sizeof(uc_hash_node_t)`: two pointers and the key union. -/
def ucHashNodeSize : Nat := 88

namespace UcHashTable

/-- The bytes that identify a key of this table. -/
def bytes (tbl : UcHashTable P) (key : UcHashKey) : List UInt8 :=
  keyBytes tbl.keyType tbl.memKeyLen key

/-- The bucket a key hashes to. -/
def bucket (tbl : UcHashTable P) (key : UcHashKey) : Nat :=
  tbl.hashCalFun (tbl.bytes key) % tbl.height

/-- `uc_hash_key_compare` as every loop of the table calls it. -/
def compare (tbl : UcHashTable P) (keyA keyB : UcHashKey) : Int :=
  ucHashKeyCompare tbl.keyType (ucCalKeyLen tbl.keyType tbl.memKeyLen) keyA keyB

/-- Replace the chain at one index of the bucket array. -/
def setChain (tbl : UcHashTable P) (h : Nat) (chain : List (UcHashNode P)) : UcHashTable P :=
  { tbl with nodes := Function.update tbl.nodes h chain }

end UcHashTable

/-! ## Creation -/

/-- `calloc` is asked for a number of bytes (computed modulo `2^64`) and succeeds or fails. -/
def ucHashCreateDo (calloc : Nat → Bool) (height : Nat) (keyType : UcHashKeyType)
    (memKeyLen : Nat) : Option (UcHashTable P) :=
  if height = 0 then
    none
  else if calloc ((ucHashTableSize + 8 * height) % 2 ^ 64) = false then
    none
  else
    some
      { keyType := keyType
        memKeyLen := if keyType = .mem then memKeyLen else 0
        nodeTtl := 0
        height := height
        hashCalFun := ucHashCal
        nodes := fun _ => [] }

/-- `uc_hash_create`: the `int` height is converted to `size_t`, a negative one to a number for
which the block is too small. -/
def ucHashCreate (calloc : Nat → Bool) (height : Int) (keyType : UcHashKeyType)
    (keyVoidLen : Nat) : Option (UcHashTable P) :=
  ucHashCreateDo calloc (height % 2 ^ 64).toNat keyType keyVoidLen

/-- What `uc_hash_create` asks `calloc` for. -/
def ucHashCreateSize (height : Int) : Nat :=
  (ucHashTableSize + 8 * (height % 2 ^ 64).toNat) % 2 ^ 64

/-- The end of the pointer `nodes[i]`, in bytes from the start of the table. -/
def bucketEnd (i : Nat) : Nat :=
  ucHashTableSize + 8 * (i + 1)

/-- Every index into `nodes` stays inside the block. -/
structure Extent (size : Nat) (tbl : UcHashTable P) : Prop where
  /-- the block has room for the whole array -/
  room : ucHashTableSize + 8 * tbl.height ≤ size
  /-- `uc_hash_insert`, `uc_hash_find`, `uc_hash_delete` and `uc_hash_next` with a key -/
  hashed : ∀ hash : Nat, bucketEnd (hash % tbl.height) ≤ size
  /-- the scans of `uc_hash_reset`, `uc_hash_next` and `uc_hash_random_node` -/
  scanned : ∀ i < tbl.height, bucketEnd i ≤ size

def ucHashSetCalHashHandler (tbl : UcHashTable P) (handler : List UInt8 → Nat) : UcHashTable P :=
  { tbl with hashCalFun := handler }

/-! ## Walking a chain -/

/-- The search loop: the first node of the chain whose key compares equal. -/
def ucHashSearch (tbl : UcHashTable P) (key : UcHashKey) :
    List (UcHashNode P) → Option (UcHashNode P)
  | [] => none
  | node :: next =>
      if tbl.compare node.keys key = 0 then some node else ucHashSearch tbl key next

/-- The search loop followed by an assignment to `node->val`. -/
def ucHashAssign (tbl : UcHashTable P) (key : UcHashKey) (val : Option P) :
    List (UcHashNode P) → List (UcHashNode P)
  | [] => []
  | node :: next =>
      if tbl.compare node.keys key = 0 then
        { node with val := val } :: next
      else
        node :: ucHashAssign tbl key val next

/-- The loop of `uc_hash_delete`: `pre` walks along, and `*pre = node->next` unlinks the node. -/
def ucHashUnlink (tbl : UcHashTable P) (key : UcHashKey) :
    List (UcHashNode P) → List (UcHashNode P)
  | [] => []
  | node :: next =>
      if tbl.compare node.keys key = 0 then next else node :: ucHashUnlink tbl key next

/-! ## Operations -/

def ucHashFind (tbl : UcHashTable P) (key : UcHashKey) : Option (UcHashNode P) :=
  ucHashSearch tbl key (tbl.nodes (tbl.bucket key))

def ucHashNodeVal (node : UcHashNode P) : Option P :=
  node.val

def ucHashNodeTtl (tbl : UcHashTable P) : Nat :=
  tbl.nodeTtl

/-- The key a new node stores: the pointer member is set first, then the key is copied in. -/
def ucHashNewKeys (tbl : UcHashTable P) (block : NodeBlock) (key : UcHashKey) : UcHashKey :=
  let keys :=
    if tbl.memKeyLen = 0 then
      block.keys.setPtr 0
    else
      block.keys.setPtr (block.addr + ucHashNodeSize)
  ucHashKeyCopy tbl.keyType (ucCalKeyLen tbl.keyType tbl.memKeyLen) keys key

/-- Returns the status, the table and the values freed. -/
def ucHashInsert (malloc : Option NodeBlock) (tbl : UcHashTable P) (key : UcHashKey)
    (val : Option P) : Int × UcHashTable P × List P :=
  let h := tbl.bucket key
  match ucHashSearch tbl key (tbl.nodes h) with
  | some node =>
      (errOk, tbl.setChain h (ucHashAssign tbl key val (tbl.nodes h)), node.val.toList)
  | none =>
      match malloc with
      | none => (-0x6488e857, tbl, [])
      | some block =>
          let node := { val := val, keys := ucHashNewKeys tbl block key }
          let tbl' := tbl.setChain h (node :: tbl.nodes h)
          (errOk, { tbl' with nodeTtl := tbl.nodeTtl + 1 }, [])

/-- Returns the status, the table and the values freed. -/
def ucHashDelete (tbl : UcHashTable P) (key : UcHashKey) : Int × UcHashTable P × List P :=
  let h := tbl.bucket key
  match ucHashSearch tbl key (tbl.nodes h) with
  | some node =>
      let tbl' := tbl.setChain h (ucHashUnlink tbl key (tbl.nodes h))
      (errOk, { tbl' with nodeTtl := tbl.nodeTtl - 1 }, node.val.toList)
  | none => (errOk, tbl, [])

/-- Returns the old value (`NULL` when the key has no node) and the table. -/
def ucHashUpdate (tbl : UcHashTable P) (key : UcHashKey) (val : Option P) :
    Option P × UcHashTable P :=
  let h := tbl.bucket key
  match ucHashFind tbl key with
  | none => (none, tbl)
  | some node => (node.val, tbl.setChain h (ucHashAssign tbl key val (tbl.nodes h)))

/-- The inner loop of `uc_hash_reset`: free a chain, counting down `node_ttl`. -/
def ucHashFreeChain : List (UcHashNode P) → Nat × List P → Nat × List P
  | [], acc => acc
  | node :: next, (ttl, freed) => ucHashFreeChain next (ttl - 1, freed ++ node.val.toList)

/-- One round of the outer loop of `uc_hash_reset`. -/
def ucHashResetBucket (acc : UcHashTable P × List P) (h : Nat) : UcHashTable P × List P :=
  let (ttl, freed) := ucHashFreeChain (acc.1.nodes h) (acc.1.nodeTtl, acc.2)
  ({ acc.1.setChain h [] with nodeTtl := ttl }, freed)

/-- Returns the status, the table and the values freed. -/
def ucHashReset (tbl : UcHashTable P) : Int × UcHashTable P × List P :=
  let (tbl', freed) := (List.range tbl.height).foldl ucHashResetBucket (tbl, [])
  if tbl'.nodeTtl ≠ 0 then (-0x58a6823d, tbl', freed) else (0, tbl', freed)

end Hash
end UtilsC
