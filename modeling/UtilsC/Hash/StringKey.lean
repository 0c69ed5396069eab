import UtilsC.Hash.Handler

/-!
# Keys that are strings

A key of type `mac_str`, `ip_str`, `id_char32_str` or `id_char64_str` is a string in a field of
fixed size.  `uc_hash_key_compare`, `uc_hash_key_copy` and the hash function all take the whole
field, so the bytes behind the terminator belong to the key.

* `SameString` is what the callers see of two keys, `SameEffect` what the table does with them.
* `stringKey_sameEffect_iff`: they go together only when the bytes behind the terminator do, too.
-/

namespace UtilsC
namespace Hash

open Lib UcHashTable

variable {P : Type}

/-- The size of the field of a key type that is a string. -/
def UcHashKeyType.strLen00 : UcHashKeyType → Option Nat
  | .macStr => some ucMacLenStr00
  | .ipStr => some ucIpv4LenStr00
  | .idChar32Str => some ucIdChar32Str00
  | .idChar64Str => some ucIdChar64Str00
  | _ => none

namespace UcHashKey

/-- The string in a field of `n` bytes, without the terminator. -/
def str (k : UcHashKey) (n : Nat) : List UInt8 :=
  (k.field n).takeWhile (· ≠ 0)

/-- The rest of the field, from the terminator on. -/
def behind (k : UcHashKey) (n : Nat) : List UInt8 :=
  (k.field n).dropWhile (· ≠ 0)

/-- Both fields hold a terminated string, and it is the same. -/
structure SameString (keyA keyB : UcHashKey) (n : Nat) : Prop where
  terminated : 0 ∈ keyA.field n ∧ 0 ∈ keyB.field n
  str_eq : keyA.str n = keyB.str n

theorem field_eq_iff {keyA keyB : UcHashKey} {n : Nat} (h : SameString keyA keyB n) :
    keyA.field n = keyB.field n ↔ keyA.behind n = keyB.behind n := by
  constructor
  · intro heq
    rw [behind, behind, heq]
  · intro hbehind
    -- the field is the string and what is behind it
    have hsplit : ∀ k : UcHashKey, k.field n = k.str n ++ k.behind n := fun k =>
      (List.takeWhile_append_dropWhile).symm
    rw [hsplit keyA, hsplit keyB, h.str_eq, hbehind]

end UcHashKey

/-- The table does the same for both keys: the same node is found, and an insertion and a deletion
have the same results. -/
structure SameEffect (tbl : UcHashTable P) (keyA keyB : UcHashKey) : Prop where
  find : ucHashFind tbl keyA = ucHashFind tbl keyB
  insert : ∀ malloc val, ucHashInsert malloc tbl keyA val = ucHashInsert malloc tbl keyB val
  delete : ucHashDelete tbl keyA = ucHashDelete tbl keyB

section Effect

variable {tbl : UcHashTable P} {keyA keyB : UcHashKey} {n : Nat}

theorem bytes_of_strLen00 (hn : tbl.keyType.strLen00 = some n) (key : UcHashKey) :
    tbl.bytes key = key.field n := by
  have hmem : tbl.keyType ≠ .mem := by
    intro hmem
    rw [hmem] at hn
    cases hn
  have hlen : ucCalKeyLen tbl.keyType tbl.memKeyLen = n := by
    cases htype : tbl.keyType <;> rw [htype] at hn <;> cases hn <;> rfl
  rw [bytes, keyBytes_eq_field hmem, hlen]

theorem copy_of_strLen00 {keyType : UcHashKeyType} (hn : keyType.strLen00 = some n) (len : Nat)
    (key src : UcHashKey) : ucHashKeyCopy keyType len key src = key.setField src n := by
  cases keyType <;> cases hn <;> rfl

/-- The table looks at a key through its field only. -/
theorem sameEffect_of_field (hn : tbl.keyType.strLen00 = some n)
    (hfield : keyA.field n = keyB.field n) : SameEffect tbl keyA keyB := by
  have hbytes : tbl.bytes keyA = tbl.bytes keyB := by
    rw [bytes_of_strLen00 hn, bytes_of_strLen00 hn, hfield]
  have hbucket : tbl.bucket keyA = tbl.bucket keyB := by
    rw [bucket, bucket, hbytes]
  have hsearch : ∀ chain, ucHashSearch tbl keyA chain = ucHashSearch tbl keyB chain := by
    intro chain
    rw [ucHashSearch_eq, ucHashSearch_eq, hbytes]
  have hassign : ∀ val chain, ucHashAssign tbl keyA val chain =
      ucHashAssign tbl keyB val chain := by
    intro val chain
    rw [ucHashAssign_eq, ucHashAssign_eq, hbytes]
  have hunlink : ∀ chain, ucHashUnlink tbl keyA chain = ucHashUnlink tbl keyB chain := by
    intro chain
    rw [ucHashUnlink_eq, ucHashUnlink_eq, hbytes]
  -- a new node copies the field and keeps the rest of its block
  have hnew : ∀ block, ucHashNewKeys tbl block keyA = ucHashNewKeys tbl block keyB := by
    intro block
    have hraw : keyA.raw.take n = keyB.raw.take n := hfield
    rw [ucHashNewKeys, ucHashNewKeys, copy_of_strLen00 hn, copy_of_strLen00 hn]
    simp only [UcHashKey.setField, hraw]
  refine ⟨?_, fun malloc val => ?_, ?_⟩
  · rw [ucHashFind, ucHashFind, hbucket, hsearch]
  · simp only [ucHashInsert, hbucket, hsearch, hassign, hnew]
  · simp only [ucHashDelete, hbucket, hsearch, hunlink]

/-- The bytes of the key of a node that is found. -/
theorem bytes_of_find {node : UcHashNode P} (h : ucHashFind tbl keyA = some node) :
    tbl.bytes node.keys = tbl.bytes keyA :=
  (Chain.find?_eq_some ((ucHashFind_eq tbl keyA).symm.trans h)).2

/-- Different bytes show: in what is found, or else in the node that an insertion makes. -/
theorem bytes_of_sameEffect (hsame : SameEffect tbl keyA keyB) :
    tbl.bytes keyA = tbl.bytes keyB := by
  cases hA : ucHashFind tbl keyA with
  | some node =>
      have hB : ucHashFind tbl keyB = some node := hsame.find ▸ hA
      rw [← bytes_of_find hA, bytes_of_find hB]
  | none =>
      have hunbound : ∀ key, ucHashFind tbl key = none → tbl.lookup (tbl.bytes key) = none := by
        intro key hnone
        rw [← ucHashFind_val, hnone]
        rfl
      let block : NodeBlock := { addr := 0, keys := keyA }
      let nodeOf : UcHashKey → UcHashNode P := fun key =>
        { val := none, keys := ucHashNewKeys tbl block key }
      have hinsert := hsame.insert (some block) none
      rw [insert_unbound keyA block none (hunbound keyA hA),
        insert_unbound keyB block none (hunbound keyB (hsame.find ▸ hA))] at hinsert
      have hnodes : Function.update tbl.nodes (tbl.bucket keyA)
            (nodeOf keyA :: tbl.nodes (tbl.bucket keyA)) (tbl.bucket keyA) =
          Function.update tbl.nodes (tbl.bucket keyB)
            (nodeOf keyB :: tbl.nodes (tbl.bucket keyB)) (tbl.bucket keyA) :=
        congrArg (fun r : Int × UcHashTable P × List P => r.2.1.nodes (tbl.bucket keyA)) hinsert
      rw [Function.update_self] at hnodes
      -- the new nodes stand at the head of one chain, and are the same
      by_cases hbucket : tbl.bucket keyA = tbl.bucket keyB
      · rw [hbucket, Function.update_self] at hnodes
        have hkeys := congrArg UcHashNode.keys (List.cons.inj hnodes).1
        rw [← bytes_newKeys tbl keyA block, ← bytes_newKeys tbl keyB block]
        exact congrArg tbl.bytes hkeys
      · -- in two buckets, one chain would be longer than itself
        rw [Function.update_of_ne hbucket] at hnodes
        have hlen := congrArg List.length hnodes
        simp at hlen

end Effect

/-! ## Runs -/

theorem keyType_of_create {calloc : Nat → Bool} {height : Int} {keyType : UcHashKeyType}
    {len : Nat} {tbl : UcHashTable P} (hc : ucHashCreate calloc height keyType len = some tbl) :
    tbl.keyType = keyType := by
  unfold ucHashCreate ucHashCreateDo at hc
  split at hc
  · cases hc
  · split at hc <;> cases hc
    rfl

/-- Two keys that hold one string are the same to a table, whatever its content, exactly when their
fields agree also from the terminator on; for a negative height no operation stays in the block. -/
theorem stringKey_sameEffect_iff {calloc : Nat → Bool} {height : Int} {keyType : UcHashKeyType}
    {keyVoidLen n : Nat} {tbl₀ : UcHashTable P} (hint : -2 ^ 31 ≤ height ∧ height < 2 ^ 31)
    (hcreate : ucHashCreate calloc height keyType keyVoidLen = some tbl₀)
    (hn : keyType.strLen00 = some n) (ops : List (PublicOp P)) {keyA keyB : UcHashKey}
    (hstr : keyA.SameString keyB n) :
    (Extent (ucHashCreateSize height) (ops.foldl PublicOp.onNamed (named tbl₀)).tbl ∧
        SameEffect (ops.foldl PublicOp.onNamed (named tbl₀)).tbl keyA keyB) ↔
      0 < height ∧ keyA.behind n = keyB.behind n := by
  have htype : (ops.foldl PublicOp.onNamed (named tbl₀)).tbl.keyType.strLen00 = some n := by
    rw [onNamed_keyType, named, keyType_of_create hcreate, hn]
  rw [← UcHashKey.field_eq_iff hstr, extent_run_iff hint hcreate ops]
  refine and_congr_right fun _ => ⟨fun hsame => ?_, fun hfield => sameEffect_of_field htype hfield⟩
  have hbytes := bytes_of_sameEffect hsame
  rwa [bytes_of_strLen00 htype, bytes_of_strLen00 htype] at hbytes

/-- A key with a string, and the byte that the rest of the union holds. -/
def stringKey (str : List UInt8) (rest : UInt8) : UcHashKey where
  raw := (str ++ 0 :: List.replicate ucHashKeySize rest).take ucHashKeySize
  mem := fun _ => 0
  raw_length := by
    simp
    omega

/-- "1.1.1.1" -/
def ipOnes : List UInt8 := [49, 46, 49, 46, 49, 46, 49]

/-- Two keys that differ only outside the field. -/
theorem stringKey_sameEffect_outside :
    ∃ tbl₀ : UcHashTable Nat, ucHashCreate (fun _ => true) 16 .ipStr 0 = some tbl₀ ∧
      Extent (ucHashCreateSize 16) tbl₀ ∧
        SameEffect tbl₀ (stringKey ipOnes 0)
          ((stringKey ipOnes 255).setField (stringKey ipOnes 0) 16) := by
  have hcreate : ∃ tbl₀ : UcHashTable Nat,
      ucHashCreate (fun _ => true) 16 .ipStr 0 = some tbl₀ := ⟨_, rfl⟩
  rcases hcreate with ⟨tbl₀, hcreate⟩
  have hstr : (stringKey ipOnes 0).SameString
      ((stringKey ipOnes 255).setField (stringKey ipOnes 0) 16) 16 := ⟨by decide, by decide⟩
  exact ⟨tbl₀, hcreate,
    (stringKey_sameEffect_iff (by decide) hcreate rfl [] hstr).2 ⟨by decide, by decide⟩⟩

/-- The address is stored with zeros behind the terminator, and looked up with other bytes there:
it is not found, and inserting it makes a second node. -/
theorem stringKey_not_found :
    (stringKey ipOnes 0).SameString (stringKey ipOnes 255) 16 ∧
    ∃ tbl₀ : UcHashTable Nat, ucHashCreate (fun _ => true) 1 .ipStr 0 = some tbl₀ ∧
      let tbl := ([PublicOp.table (.insert (some ⟨8, ucHashKeyU64 0⟩) (stringKey ipOnes 0)
        (some 10))].foldl PublicOp.onNamed (named tbl₀)).tbl
      ¬ SameEffect tbl (stringKey ipOnes 0) (stringKey ipOnes 255) ∧
        (ucHashFind tbl (stringKey ipOnes 0)).isSome = true ∧
        (ucHashFind tbl (stringKey ipOnes 255)).isSome = false := by
  refine ⟨⟨by decide, by decide⟩, _, rfl, ?_, by decide +kernel, by decide +kernel⟩
  intro hsame
  have hfind := congrArg Option.isSome hsame.find
  revert hfind
  decide +kernel

end Hash
end UtilsC
