import UtilsC.Hash.Handler

/-!
# The extent of the bucket array

`uc_hash_create` takes an `int` height, converts it to `size_t` and asks `calloc` for the header
and as many bucket pointers, modulo `2^64`; the table keeps the converted height.

`ucHashCreate_extent_iff`: the buckets of a created table lie in its block exactly for the positive
heights.
-/

namespace UtilsC
namespace Hash

open UcHashTable

variable {P : Type}

/-- The bucket array of a table, in all its life, lies in the block `calloc` was asked for exactly
when the height is positive. -/
theorem ucHashCreate_extent_iff {calloc : Nat → Bool} {height : Int} {keyType : UcHashKeyType}
    {keyVoidLen : Nat} {tbl₀ : UcHashTable P} (hint : -2 ^ 31 ≤ height ∧ height < 2 ^ 31)
    (hcreate : ucHashCreate calloc height keyType keyVoidLen = some tbl₀) :
    (∀ ops : List (PublicOp P),
      Extent (ucHashCreateSize height) (ops.foldl PublicOp.onNamed (named tbl₀)).tbl) ↔
      0 < height := by
  constructor
  · intro hall
    exact (extent_create_iff hint hcreate rfl).1 (hall [])
  · intro hpos ops
    exact (extent_create_iff hint hcreate (onNamed_height ops (named tbl₀))).2 hpos

theorem ucHashCreate_extent_seven :
    ∃ tbl₀ : UcHashTable Nat, ucHashCreate (fun _ => true) 7 .uint64 0 = some tbl₀ ∧
      ∀ ops : List (PublicOp Nat),
        Extent (ucHashCreateSize 7) (ops.foldl PublicOp.onNamed (named tbl₀)).tbl := by
  have hcreate : ∃ tbl₀ : UcHashTable Nat,
      ucHashCreate (fun _ => true) 7 .uint64 0 = some tbl₀ := ⟨_, rfl⟩
  rcases hcreate with ⟨tbl₀, hcreate⟩
  exact ⟨tbl₀, hcreate, (ucHashCreate_extent_iff (by decide) hcreate).2 (by decide)⟩

/-- The height -1: `calloc` is asked for 288 bytes, and the table has `2^64 - 1` buckets. -/
theorem ucHashCreate_extent_negative :
    ∃ tbl₀ : UcHashTable Nat, ucHashCreate (· == 288) (-1) .uint64 0 = some tbl₀ ∧
      ucHashCreateSize (-1) = 288 ∧ tbl₀.height = 2 ^ 64 - 1 ∧
      ¬ Extent (ucHashCreateSize (-1)) tbl₀ := by
  refine ⟨_, rfl, rfl, rfl, fun hextent => ?_⟩
  have hroom := hextent.room
  exact absurd hroom (by decide)

end Hash
end UtilsC
