import UtilsC.Hash.Refine

/-!
# Tables keyed by 64-bit numbers

The message layer uses three tables whose keys are 64-bit numbers, built as
`uc_hash_key_t key = {.u64 = id}`.  `U64Table` is such a table together with its invariant, so
that a table that is not well formed cannot be built; `get` is the map it stands for, and each
operation has one lemma in terms of `get`.
-/

namespace UtilsC
namespace Hash

open Lib

variable {P : Type}

/-- A well-formed table whose keys are 64-bit numbers. -/
structure U64Table (P : Type) where
  tbl : UcHashTable P
  wf : tbl.Wf
  keyType_eq : tbl.keyType = .uint64

namespace U64Table

/-- The bytes under which the number is stored. -/
def key (t : U64Table P) (id : UInt64) : List UInt8 :=
  t.tbl.bytes (ucHashKeyU64 id)

/-- The map of the table: `none` when the number has no node. -/
def get (t : U64Table P) (id : UInt64) : Option (Option P) :=
  t.tbl.lookup (t.key id)

theorem key_eq (t : U64Table P) (id : UInt64) : t.key id = leBytes 8 id.toNat := by
  show keyBytes t.tbl.keyType t.tbl.memKeyLen (ucHashKeyU64 id) = _
  rw [t.keyType_eq]
  exact keyBytes_u64 _ id

theorem key_inj (t t' : U64Table P) {id id' : UInt64} : t.key id = t'.key id' ↔ id = id' := by
  constructor
  · intro h
    rw [key_eq, key_eq, ← keyBytes_u64 0 id, ← keyBytes_u64 0 id'] at h
    exact keyBytes_u64_injective h
  · intro h
    rw [key_eq, key_eq, h]

theorem keyType_onTable (tbl : UcHashTable P) (op : TableOp P) :
    (op.onTable tbl).keyType = tbl.keyType := by
  rcases onTable_eq tbl op with ⟨ttl, nodes, heq⟩
  rw [heq]

/-- Take the table through one operation. -/
def apply (t : U64Table P) (op : TableOp P) : U64Table P where
  tbl := op.onTable t.tbl
  wf := (onTable_step t.wf op).1
  keyType_eq := (keyType_onTable t.tbl op).trans t.keyType_eq

def insert (malloc : Option NodeBlock) (t : U64Table P) (id : UInt64) (val : Option P) :
    Int × U64Table P × List P :=
  let r := ucHashInsert malloc t.tbl (ucHashKeyU64 id) val
  (r.1, t.apply (.insert malloc (ucHashKeyU64 id) val), r.2.2)

def delete (t : U64Table P) (id : UInt64) : Int × U64Table P × List P :=
  let r := ucHashDelete t.tbl (ucHashKeyU64 id)
  (r.1, t.apply (.delete (ucHashKeyU64 id)), r.2.2)

def update (t : U64Table P) (id : UInt64) (val : Option P) : Option P × U64Table P :=
  let r := ucHashUpdate t.tbl (ucHashKeyU64 id) val
  (r.1, t.apply (.update (ucHashKeyU64 id) val))

/-- `uc_hash_find` followed by `uc_hash_node_val` on the node, when there is one. -/
def findVal (t : U64Table P) (id : UInt64) : Option (Option P) :=
  (ucHashFind t.tbl (ucHashKeyU64 id)).map ucHashNodeVal

/-! ## The operations in terms of `get` -/

@[simp] theorem findVal_eq_get (t : U64Table P) (id : UInt64) : t.findVal id = t.get id :=
  ucHashFind_val t.tbl (ucHashKeyU64 id)

theorem get_apply (t : U64Table P) (op : TableOp P) (id : UInt64) :
    (t.apply op).get id = op.onMap t.tbl.bytes t.tbl.lookup (t.key id) := by
  have hkey : (t.apply op).key id = t.key id := (key_inj _ _).2 rfl
  show (op.onTable t.tbl).lookup ((t.apply op).key id) = _
  rw [hkey, (onTable_step t.wf op).2]

section Spec

variable (t : U64Table P) (id id' : UInt64) (val : Option P)

/-- Reading the map after one binding was overwritten or removed. -/
theorem update_lookup_key (v : Option (Option P)) :
    Function.update t.tbl.lookup (t.key id) v (t.key id') = if id' = id then v else t.get id' := by
  by_cases h : id' = id
  · simp [h]
  · have hne : t.key id' ≠ t.key id := fun hk => h ((key_inj t t).1 hk)
    simp [h, Function.update_of_ne hne, get]

theorem get_insert (malloc : Option NodeBlock) :
    (t.insert malloc id val).2.1.get id' =
      if t.get id ≠ none ∨ malloc.isSome then
        if id' = id then some val else t.get id'
      else
        t.get id' := by
  have happ := get_apply t (.insert malloc (ucHashKeyU64 id) val) id'
  have hupd := update_lookup_key t id id' (some val)
  show (t.apply (.insert malloc (ucHashKeyU64 id) val)).get id' = _
  rw [happ, TableOp.onMap]
  by_cases hc : t.get id ≠ none ∨ malloc.isSome
  · have hc' : t.tbl.lookup (t.tbl.bytes (ucHashKeyU64 id)) ≠ none ∨ malloc.isSome := hc
    rw [if_pos hc', if_pos hc]
    exact hupd
  · have hc' : ¬ (t.tbl.lookup (t.tbl.bytes (ucHashKeyU64 id)) ≠ none ∨ malloc.isSome) := hc
    rw [if_neg hc', if_neg hc]
    rfl

theorem insert_status (malloc : Option NodeBlock) :
    (t.insert malloc id val).1 =
      if t.get id ≠ none ∨ malloc.isSome then errOk else -0x6488e857 :=
  ucHashInsert_status (ucHashKeyU64 id) malloc val

/-- An insertion frees the value it overwrites. -/
theorem insert_freed (malloc : Option NodeBlock) :
    (t.insert malloc id val).2.2 =
      (match t.get id with
        | some old => old.toList
        | none => []) := by
  show (ucHashInsert malloc t.tbl (ucHashKeyU64 id) val).2.2 = _
  cases hg : t.get id with
  | none =>
      cases malloc with
      | none => rw [insert_unbound_fail (ucHashKeyU64 id) val hg]
      | some block => rw [insert_unbound (ucHashKeyU64 id) block val hg]
  | some old =>
      have hne : t.tbl.lookup (t.tbl.bytes (ucHashKeyU64 id)) ≠ none := by
        show t.get id ≠ none
        simp [hg]
      have hfreed := (insert_bound (ucHashKeyU64 id) malloc val hne).2.2
      have hlook : t.tbl.lookup (t.tbl.bytes (ucHashKeyU64 id)) = some old := hg
      rw [hlook] at hfreed
      exact Option.some.inj hfreed

theorem get_delete :
    (t.delete id).2.1.get id' = if id' = id then none else t.get id' := by
  have happ := get_apply t (.delete (ucHashKeyU64 id)) id'
  show (t.apply (.delete (ucHashKeyU64 id))).get id' = _
  rw [happ]
  exact update_lookup_key t id id' none

theorem delete_freed :
    (t.delete id).2.2 =
      (match t.get id with
        | some old => old.toList
        | none => []) :=
  (ucHashDelete_freed (ucHashKeyU64 id)).2

theorem get_update :
    (t.update id val).2.get id' =
      if t.get id ≠ none ∧ id' = id then some val else t.get id' := by
  have happ := get_apply t (.update (ucHashKeyU64 id) val) id'
  have hupd := update_lookup_key t id id' (some val)
  show (t.apply (.update (ucHashKeyU64 id) val)).get id' = _
  rw [happ, TableOp.onMap]
  by_cases hc : t.get id = none
  · have hc' : ¬ t.tbl.lookup (t.tbl.bytes (ucHashKeyU64 id)) ≠ none := fun h => h hc
    rw [if_neg hc', if_neg (fun h => h.1 hc)]
    rfl
  · have hc' : t.tbl.lookup (t.tbl.bytes (ucHashKeyU64 id)) ≠ none := hc
    rw [if_pos hc']
    by_cases hid : id' = id
    · rw [if_pos ⟨hc, hid⟩]
      exact hupd.trans (if_pos hid)
    · rw [if_neg (fun h => hid h.2)]
      exact hupd.trans (if_neg hid)

theorem update_old : (t.update id val).1 = (t.get id).join :=
  (ucHashUpdate_spec t.wf (ucHashKeyU64 id) val).2.2

end Spec

/-! ## The empty table -/

theorem exists_create (height : Int) (h : (height % 2 ^ 64).toNat ≠ 0) :
    (ucHashCreate (fun _ => true) height .uint64 0 : Option (UcHashTable P)).isSome := by
  unfold ucHashCreate ucHashCreateDo
  rw [if_neg h]
  rfl

/-- A new table, as `uc_hash_create` returns it when the allocation succeeds. -/
def create (height : Int) (h : (height % 2 ^ 64).toNat ≠ 0) : U64Table P where
  tbl := (ucHashCreate (fun _ => true) height .uint64 0).get (exists_create height h)
  wf := (ucHashCreate_spec (Option.some_get (exists_create height h)).symm).1
  keyType_eq := (ucHashCreate_spec (Option.some_get (exists_create height h)).symm).2.2.1

@[simp] theorem get_create (height : Int) (h : (height % 2 ^ 64).toNat ≠ 0) (id : UInt64) :
    (create height h : U64Table P).get id = none := by
  have hspec := ucHashCreate_spec (P := P) (Option.some_get (exists_create height h)).symm
  show (create height h : U64Table P).tbl.lookup _ = none
  exact congrFun hspec.2.1 _

end U64Table

/-- A node block at an address, as a concrete `malloc` may return it. -/
def nodeAt (addr : Nat) : NodeBlock where
  addr := addr
  keys := ucHashKeyU64 0

end Hash
end UtilsC
