import UtilsC.Hash.Handler
import Mathlib.Data.Nat.ModEq

/-!
# Picking a node by a number

`uc_hash_random_node` takes the number modulo the height for a bucket to start from, scans up and
then down for a bucket that is not empty, and takes the same number modulo the length of its chain.

* A node is known by its place; `none` for a result means that a loop has left the bucket array or
  a chain.
* `ScanEnds i b` says that the scan from bucket `i` ends in bucket `b`.
* `ucHashRandomNode_safe`: the scan misses nothing.
* `ucHashRandomNode_reaches_iff`: which nodes are picked for some number.  Bucket and position come
  from one number, so not all of them are.
-/

namespace UtilsC
namespace Hash

open UcHashTable

variable {P : Type}

/-! ## The function -/

/-- A node, by its bucket and its position in the chain. -/
structure NodePlace where
  bucket : Nat
  pos : Nat
  deriving DecidableEq

/-- The second walk along a chain; there is no step from NULL. -/
def ucHashWalk : List (UcHashNode P) → Nat → Option (List (UcHashNode P))
  | node, 0 => some node
  | [], _ + 1 => none
  | _ :: next, listIdx + 1 => ucHashWalk next listIdx

/-- What becomes of one round of a scan. -/
inductive RandomRound
  /-- a read outside the bucket array or behind the end of a chain -/
  | outside
  /-- the bucket is empty -/
  | next
  /-- the function returns; `none` is NULL -/
  | ret (node : Option NodePlace)
  deriving DecidableEq

/-- The body of both scans. -/
def ucHashRandomRound (tbl : UcHashTable P) (rdmIdx i : Nat) : RandomRound :=
  if tbl.height ≤ i then
    .outside
  else
    match tbl.nodes i with
    | [] => .next
    | nodeHead :: next =>
        let listIdx := rdmIdx % (nodeHead :: next).length
        match ucHashWalk (nodeHead :: next) listIdx with
        | none => .outside
        | some [] => .ret none
        | some (_ :: _) => .ret (some { bucket := i, pos := listIdx })

/-- The scan up, over `count` buckets from `i` on. -/
def ucHashRandomUp (tbl : UcHashTable P) (rdmIdx : Nat) : Nat → Nat → RandomRound
  | 0, _ => .next
  | count + 1, i =>
      match ucHashRandomRound tbl rdmIdx i with
      | .next => ucHashRandomUp tbl rdmIdx count (i + 1)
      | r => r

/-- The scan down, over the `count` lowest buckets. -/
def ucHashRandomDown (tbl : UcHashTable P) (rdmIdx : Nat) : Nat → RandomRound
  | 0 => .next
  | count + 1 =>
      match ucHashRandomRound tbl rdmIdx count with
      | .next => ucHashRandomDown tbl rdmIdx count
      | r => r

def ucHashRandomNode (tbl : UcHashTable P) (rdmIdx : UInt64) : Option (Option NodePlace) :=
  if tbl.nodeTtl = 0 then
    some none
  else
    let idx := rdmIdx.toNat % tbl.height
    match ucHashRandomUp tbl rdmIdx.toNat (tbl.height - idx) idx with
    | .outside => none
    | .ret node => some node
    | .next =>
        -- `idx - 1` is a `size_t`, and converted to a signed number; below 0 nothing is scanned
        let loopIdx : Int := Int.bmod (idx - 1) (2 ^ 64)
        match ucHashRandomDown tbl rdmIdx.toNat (loopIdx + 1).toNat with
        | .outside => none
        | .ret node => some node
        | .next => some none

/-! ## Where a scan ends -/

namespace UcHashTable

/-- The scan from bucket `i` ends in bucket `b`: everything on the way is empty. -/
structure ScanEnds (tbl : UcHashTable P) (i b : Nat) : Prop where
  lt : b < tbl.height
  full : tbl.nodes b ≠ []
  way : (i ≤ b ∧ ∀ j, i ≤ j → j < b → tbl.nodes j = []) ∨
    (b < i ∧ (∀ j, i ≤ j → j < tbl.height → tbl.nodes j = []) ∧
      ∀ j, b < j → j < i → tbl.nodes j = [])

/-- The node that is picked in a bucket. -/
def pick (tbl : UcHashTable P) (rdmIdx b : Nat) : NodePlace where
  bucket := b
  pos := rdmIdx % (tbl.nodes b).length

end UcHashTable

section Scan

variable {tbl : UcHashTable P} {rdmIdx : Nat}

theorem scanEnds_unique {i b b' : Nat} (h : tbl.ScanEnds i b) (h' : tbl.ScanEnds i b') :
    b = b' := by
  -- the first of two ends would lie on the way to the second, where all is empty
  rcases h with ⟨hlt, hfull, ⟨hle, hway⟩ | ⟨hgt, hup, hdown⟩⟩
  · rcases h' with ⟨hlt', hfull', ⟨hle', hway'⟩ | ⟨_, hup', _⟩⟩
    · rcases Nat.lt_trichotomy b b' with hbb | hbb | hbb
      · exact absurd (hway' b hle hbb) hfull
      · exact hbb
      · exact absurd (hway b' hle' hbb) hfull'
    · exact absurd (hup' b hle hlt) hfull
  · rcases h' with ⟨hlt', hfull', ⟨hle', _⟩ | ⟨hgt', _, hdown'⟩⟩
    · exact absurd (hup b' hle' hlt') hfull'
    · rcases Nat.lt_trichotomy b b' with hbb | hbb | hbb
      · exact absurd (hdown b' hbb hgt') hfull'
      · exact hbb
      · exact absurd (hdown' b hbb hgt) hfull

theorem ucHashWalk_eq {chain : List (UcHashNode P)} :
    ∀ {k : Nat}, k < chain.length → ucHashWalk chain k = some (chain.drop k) := by
  induction chain with
  | nil =>
      intro k hk
      exact absurd hk (Nat.not_lt_zero k)
  | cons node next ih =>
      intro k hk
      cases k with
      | zero => rfl
      | succ k => exact ih (Nat.lt_of_succ_lt_succ hk)

theorem ucHashRandomRound_empty (rdmIdx : Nat) {i : Nat} (hi : i < tbl.height)
    (hempty : tbl.nodes i = []) : ucHashRandomRound tbl rdmIdx i = .next := by
  rw [ucHashRandomRound, if_neg (Nat.not_le.2 hi), hempty]

/-- The counted length bounds the walk, so it ends on a node. -/
theorem ucHashRandomRound_full {i : Nat} (hi : i < tbl.height) (hfull : tbl.nodes i ≠ []) :
    ucHashRandomRound tbl rdmIdx i = .ret (some (tbl.pick rdmIdx i)) := by
  rw [ucHashRandomRound, if_neg (Nat.not_le.2 hi), pick]
  cases hchain : tbl.nodes i with
  | nil => exact absurd hchain hfull
  | cons nodeHead next =>
      have hlt : rdmIdx % (nodeHead :: next).length < (nodeHead :: next).length :=
        Nat.mod_lt _ (Nat.succ_pos _)
      simp only [ucHashWalk_eq hlt]
      cases hdrop : (nodeHead :: next).drop (rdmIdx % (nodeHead :: next).length) with
      | nil => exact absurd (List.drop_eq_nil_iff.1 hdrop) (Nat.not_le.2 hlt)
      | cons node rest => rfl

/-- The scan up stops at the first bucket that is not empty. -/
theorem ucHashRandomUp_cases (rdmIdx : Nat) {count : Nat} : ∀ {i : Nat}, i + count ≤ tbl.height →
    (ucHashRandomUp tbl rdmIdx count i = .next ∧
        ∀ j, i ≤ j → j < i + count → tbl.nodes j = []) ∨
      ∃ b, i ≤ b ∧ b < i + count ∧ tbl.nodes b ≠ [] ∧
        (∀ j, i ≤ j → j < b → tbl.nodes j = []) ∧
        ucHashRandomUp tbl rdmIdx count i = .ret (some (tbl.pick rdmIdx b)) := by
  induction count with
  | zero =>
      intro i _
      refine Or.inl ⟨rfl, ?_⟩
      intro j hij hji
      omega
  | succ count ih =>
      intro i hi
      by_cases hempty : tbl.nodes i = []
      · have hround := ucHashRandomRound_empty rdmIdx (by omega) hempty
        have hstep : ucHashRandomUp tbl rdmIdx (count + 1) i =
            ucHashRandomUp tbl rdmIdx count (i + 1) := by
          rw [ucHashRandomUp, hround]
        rw [hstep]
        -- bucket `i` is empty as well
        have hfrom : ∀ n, (∀ j, i + 1 ≤ j → j < n → tbl.nodes j = []) →
            ∀ j, i ≤ j → j < n → tbl.nodes j = [] := by
          intro n hall j hij hjn
          rcases Nat.eq_or_lt_of_le hij with rfl | hlt
          · exact hempty
          · exact hall j hlt hjn
        rcases ih (i := i + 1) (by omega) with ⟨hnext, hall⟩ | ⟨b, hib, hb, hfull, hway, hret⟩
        · exact Or.inl ⟨hnext, hfrom (i + (count + 1)) fun j hj hjn => hall j hj (by omega)⟩
        · exact Or.inr ⟨b, by omega, by omega, hfull, hfrom b hway, hret⟩
      · refine Or.inr ⟨i, le_rfl, by omega, hempty, ?_, ?_⟩
        · intro j hij hji
          omega
        · rw [ucHashRandomUp, ucHashRandomRound_full (by omega) hempty]

/-- The scan down stops at the last bucket below `count` that is not empty. -/
theorem ucHashRandomDown_cases (rdmIdx : Nat) {count : Nat} (hcount : count ≤ tbl.height) :
    (ucHashRandomDown tbl rdmIdx count = .next ∧ ∀ j, j < count → tbl.nodes j = []) ∨
      ∃ b, b < count ∧ tbl.nodes b ≠ [] ∧ (∀ j, b < j → j < count → tbl.nodes j = []) ∧
        ucHashRandomDown tbl rdmIdx count = .ret (some (tbl.pick rdmIdx b)) := by
  induction count with
  | zero => exact Or.inl ⟨rfl, fun j hj => absurd hj (Nat.not_lt_zero j)⟩
  | succ count ih =>
      by_cases hempty : tbl.nodes count = []
      · have hround := ucHashRandomRound_empty rdmIdx hcount hempty
        have hstep : ucHashRandomDown tbl rdmIdx (count + 1) =
            ucHashRandomDown tbl rdmIdx count := by
          rw [ucHashRandomDown, hround]
        rw [hstep]
        rcases ih (Nat.le_of_succ_le hcount) with ⟨hnext, hall⟩ | ⟨b, hb, hfull, hway, hret⟩
        · refine Or.inl ⟨hnext, ?_⟩
          intro j hj
          rcases Nat.eq_or_lt_of_le (Nat.le_of_lt_succ hj) with rfl | hlt
          · exact hempty
          · exact hall j hlt
        · refine Or.inr ⟨b, by omega, hfull, ?_, hret⟩
          intro j hbj hj
          rcases Nat.eq_or_lt_of_le (Nat.le_of_lt_succ hj) with rfl | hlt
          · exact hempty
          · exact hway j hbj hlt
      · refine Or.inr ⟨count, Nat.lt_succ_self count, hempty, ?_, ?_⟩
        · intro j hbj hj
          omega
        · rw [ucHashRandomDown, ucHashRandomRound_full hcount hempty]

end Scan

/-! ## The counter -/

section Counter

variable {tbl : UcHashTable P}

theorem Counted.onTable (hc : Counted tbl) (op : TableOp P) : Counted (op.onTable tbl) := by
  have hbucket : ∀ key, tbl.bucket key < tbl.height := fun key => Nat.mod_lt _ hc.height_pos
  have hassign : ∀ key val, Counted (tbl.setChain (tbl.bucket key)
      (ucHashAssign tbl key val (tbl.nodes (tbl.bucket key)))) := by
    intro key val
    refine hc.setChain (hbucket key) ?_
    rw [ucHashAssign_eq, Lib.Chain.length_replaceFirst]
  cases op with
  | insert malloc key val =>
      simp only [TableOp.onTable, ucHashInsert]
      split
      · exact hassign key val
      · cases malloc with
        | none => exact hc
        | some block =>
            refine hc.setChain (hbucket key) ?_
            simp only [List.length_cons]
            omega
  | delete key =>
      simp only [TableOp.onTable, ucHashDelete]
      split
      · rename_i node hs
        have hmem : tbl.bytes key ∈ (tbl.nodes (tbl.bucket key)).map tbl.nodeKey := by
          rw [ucHashSearch_eq] at hs
          exact Lib.Chain.isSome_find?_iff.1 (by simp [hs])
        have hlen := Lib.Chain.length_eraseFirst_of_mem hmem
        -- the bucket holds a node, so the counter is not 0 and does not wrap
        have hle := hc.length_le (hbucket key)
        refine hc.setChain (hbucket key) ?_
        rw [ucHashUnlink_eq]
        omega
      · exact hc
  | update key val =>
      simp only [TableOp.onTable, ucHashUpdate]
      split
      · exact hc
      · exact hassign key val
  | find key => exact hc
  | reset =>
      show Counted (ucHashReset tbl).2.1
      rw [ucHashReset_table, hc.ttl_eq]
      refine ⟨hc.height_pos, ?_⟩
      rw [Nat.sub_self]
      refine (Finset.sum_eq_zero ?_).symm
      intro h hh
      simp [Finset.mem_range.1 hh]

theorem Counted.onNamed {t : NamedTable P} (hc : Counted t.tbl) (op : PublicOp P) :
    Counted (op.onNamed t).tbl := by
  cases op with
  | table op => exact hc.onTable op
  | setName name => exact hc
  | setCalHashHandler handler => exact ⟨hc.height_pos, hc.ttl_eq⟩

theorem Counted.run {t : NamedTable P} (hc : Counted t.tbl) (ops : List (PublicOp P)) :
    Counted (ops.foldl PublicOp.onNamed t).tbl := by
  induction ops generalizing t with
  | nil => exact hc
  | cons op ops ih => exact ih (hc.onNamed op)

theorem Counted.of_create {calloc : Nat → Bool} {height : Int} {keyType : UcHashKeyType}
    {len : Nat} (hcreate : ucHashCreate calloc height keyType len = some tbl) : Counted tbl := by
  have hw := (ucHashCreate_spec hcreate).1
  exact ⟨hw.height_pos, hw.ttl_eq⟩

/-! ## What is returned -/

/-- The node where the scan ends, or NULL when both scans have seen only empty buckets.  The start
of the second one is converted to a signed number, which changes no index of a table that small. -/
theorem ucHashRandomNode_cases (hc : Counted tbl) (hsmall : tbl.height ≤ 2 ^ 63)
    (rdmIdx : UInt64) :
    (∃ b, tbl.ScanEnds (rdmIdx.toNat % tbl.height) b ∧
        ucHashRandomNode tbl rdmIdx = some (some (tbl.pick rdmIdx.toNat b))) ∨
      (ucHashRandomNode tbl rdmIdx = some none ∧ ∀ j, j < tbl.height → tbl.nodes j = []) := by
  have hidx : rdmIdx.toNat % tbl.height < tbl.height := Nat.mod_lt _ hc.height_pos
  unfold ucHashRandomNode
  by_cases httl : tbl.nodeTtl = 0
  · rw [if_pos httl]
    exact Or.inr ⟨rfl, hc.ttl_eq_zero_iff.1 httl⟩
  · rw [if_neg httl]
    generalize hi : rdmIdx.toNat % tbl.height = i at hidx ⊢
    have hcount : i + (tbl.height - i) ≤ tbl.height := by omega
    rcases ucHashRandomUp_cases rdmIdx.toNat hcount with
      ⟨hup, hall⟩ | ⟨b, hib, hb, hfull, hway, hup⟩
    · have hall' : ∀ j, i ≤ j → j < tbl.height → tbl.nodes j = [] :=
        fun j hij hj => hall j hij (by omega)
      simp only [hup]
      -- the signed start is `i - 1`, also for `i = 0`, where the subtraction wraps
      have hloop : (Int.bmod ((i : Int) - 1) (2 ^ 64) + 1).toNat = i := by
        rw [Int.bmod_def]
        split <;> omega
      rw [hloop]
      rcases ucHashRandomDown_cases rdmIdx.toNat hidx.le with
        ⟨hdown, hnone⟩ | ⟨b, hb, hfull, hway, hdown⟩
      · refine Or.inr ⟨by rw [hdown], fun j hj => ?_⟩
        -- below the start the scan down has been, and else the scan up
        rcases Nat.lt_or_ge j i with hlt | hge
        · exact hnone j hlt
        · exact hall' j hge hj
      · exact Or.inl ⟨b, ⟨by omega, hfull, Or.inr ⟨hb, hall', hway⟩⟩, by rw [hdown]⟩
    · exact Or.inl ⟨b, ⟨by omega, hfull, Or.inl ⟨hib, hway⟩⟩, by simp only [hup]⟩

/-- Where a scan ends, that bucket's node is returned. -/
theorem ucHashRandomNode_eq (hc : Counted tbl) (hsmall : tbl.height ≤ 2 ^ 63) {rdmIdx : UInt64}
    {b : Nat} (hends : tbl.ScanEnds (rdmIdx.toNat % tbl.height) b) :
    ucHashRandomNode tbl rdmIdx = some (some (tbl.pick rdmIdx.toNat b)) := by
  rcases ucHashRandomNode_cases hc hsmall rdmIdx with ⟨b', hends', hret⟩ | ⟨_, hnone⟩
  · rw [hret, scanEnds_unique hends hends']
  · exact absurd (hnone b hends.lt) hends.full

/-- Both scans together see every bucket. -/
theorem ucHashRandomNode_null_iff (hc : Counted tbl) (hsmall : tbl.height ≤ 2 ^ 63)
    (rdmIdx : UInt64) : ucHashRandomNode tbl rdmIdx = some none ↔ tbl.allNodes = [] := by
  have hall : tbl.allNodes = [] ↔ ∀ j, j < tbl.height → tbl.nodes j = [] := by
    simp [allNodes, List.flatMap_eq_nil_iff]
  rw [hall]
  rcases ucHashRandomNode_cases hc hsmall rdmIdx with ⟨b, hends, hret⟩ | ⟨hret, hnone⟩
  · rw [hret]
    refine ⟨fun h => ?_, fun hempty => absurd (hempty b hends.lt) hends.full⟩
    exact absurd (Option.some.inj h) (Option.some_ne_none _)
  · exact iff_of_true hret hnone

/-- A number picks the node at a place exactly when its scan ends in that bucket and its remainder
there is that position. -/
theorem ucHashRandomNode_eq_iff (hc : Counted tbl) (hsmall : tbl.height ≤ 2 ^ 63)
    {rdmIdx : UInt64} {p : NodePlace} :
    ucHashRandomNode tbl rdmIdx = some (some p) ↔
      tbl.ScanEnds (rdmIdx.toNat % tbl.height) p.bucket ∧
        rdmIdx.toNat % (tbl.nodes p.bucket).length = p.pos := by
  constructor
  · intro hret
    rcases ucHashRandomNode_cases hc hsmall rdmIdx with ⟨b, hends, hret'⟩ | ⟨hret', _⟩
    · have hp : tbl.pick rdmIdx.toNat b = p := by
        have heq := hret'.symm.trans hret
        exact Option.some.inj (Option.some.inj heq)
      subst hp
      exact ⟨hends, rfl⟩
    · rw [hret'] at hret
      cases hret
  · rintro ⟨hends, hpos⟩
    rw [ucHashRandomNode_eq hc hsmall hends, pick, hpos]

omit tbl in
theorem height_run {calloc : Nat → Bool} {height : Int} {keyType : UcHashKeyType}
    {len : Nat} {tbl₀ : UcHashTable P}
    (hcreate : ucHashCreate calloc height keyType len = some tbl₀) (hpos : 0 < height)
    (hlt : height < 2 ^ 31) (ops : List (PublicOp P)) :
    (ops.foldl PublicOp.onNamed (named tbl₀)).tbl.height ≤ 2 ^ 63 := by
  have hheight : tbl₀.height = (height % 2 ^ 64).toNat := (ucHashCreate_spec hcreate).2.2.2.2
  have hrun : (ops.foldl PublicOp.onNamed (named tbl₀)).tbl.height = tbl₀.height :=
    onNamed_height ops (named tbl₀)
  omega

end Counter

/-! ## No number misses -/

/-- Whatever the number, the scans stay in the array and the walk in its chain; NULL is returned
for the empty table only, and otherwise the place of a stored node. -/
theorem ucHashRandomNode_safe {calloc : Nat → Bool} {height : Int} {keyType : UcHashKeyType}
    {keyVoidLen : Nat} {tbl₀ : UcHashTable P}
    (hcreate : ucHashCreate calloc height keyType keyVoidLen = some tbl₀)
    (hpos : 0 < height) (hlt : height < 2 ^ 31) (ops : List (PublicOp P)) (rdmIdx : UInt64) :
    let tbl := (ops.foldl PublicOp.onNamed (named tbl₀)).tbl
    ∃ node, ucHashRandomNode tbl rdmIdx = some node ∧ (node = none ↔ tbl.allNodes = []) ∧
      ∀ p, node = some p →
        p.bucket < tbl.height ∧ ∃ n, (tbl.nodes p.bucket)[p.pos]? = some n := by
  intro tbl
  have hc : Counted tbl := (Counted.of_create hcreate).run (t := named tbl₀) ops
  have hsmall : tbl.height ≤ 2 ^ 63 := height_run hcreate hpos hlt ops
  have hnull := ucHashRandomNode_null_iff hc hsmall rdmIdx
  rcases ucHashRandomNode_cases hc hsmall rdmIdx with ⟨b, hends, hret⟩ | ⟨hret, _⟩
  · refine ⟨some (tbl.pick rdmIdx.toNat b), hret, ?_, ?_⟩
    · rw [← hnull, hret, Option.some_inj]
    · intro p hp
      have hplace : tbl.pick rdmIdx.toNat b = p := Option.some.inj hp
      subst hplace
      -- the bucket is not empty, so the remainder is a position in it
      have hin : rdmIdx.toNat % (tbl.nodes b).length < (tbl.nodes b).length :=
        Nat.mod_lt _ (List.length_pos_of_ne_nil hends.full)
      exact ⟨hends.lt, _, List.getElem?_eq_getElem hin⟩
  · refine ⟨none, hret, ⟨fun _ => hnull.1 hret, fun _ => rfl⟩, ?_⟩
    intro p hp
    cases hp

/-- Buckets by the first byte of the key: the keys 0 and 2 share bucket 0 of two. -/
def parityOps : List (PublicOp Nat) :=
  [.setCalHashHandler fun b => (b.headD 0).toNat,
    .table (.insert (some ⟨8, ucHashKeyU64 0⟩) (ucHashKeyU64 0) (some 10)),
    .table (.insert (some ⟨8, ucHashKeyU64 0⟩) (ucHashKeyU64 2) (some 12)),
    .table (.insert (some ⟨8, ucHashKeyU64 0⟩) (ucHashKeyU64 1) (some 11))]

theorem ucHashRandomNode_safe_parity :
    ∃ tbl₀ : UcHashTable Nat, ucHashCreate (fun _ => true) 2 .uint64 0 = some tbl₀ ∧
      let tbl := (parityOps.foldl PublicOp.onNamed (named tbl₀)).tbl
      ∃ node, ucHashRandomNode tbl 7 = some node ∧ (node = none ↔ tbl.allNodes = []) ∧
        ∀ p, node = some p →
          p.bucket < tbl.height ∧ ∃ n, (tbl.nodes p.bucket)[p.pos]? = some n := by
  have hcreate : ∃ tbl₀ : UcHashTable Nat,
      ucHashCreate (fun _ => true) 2 .uint64 0 = some tbl₀ := ⟨_, rfl⟩
  rcases hcreate with ⟨tbl₀, hcreate⟩
  exact ⟨tbl₀, hcreate, ucHashRandomNode_safe hcreate (by decide) (by decide) parityOps 7⟩

/-! ## Which nodes are picked -/

/-- Some start bucket leads to the node's bucket and agrees with the node's position modulo the
common divisor of both moduli, and the number these two determine is a `size_t`. -/
def Pickable (tbl : UcHashTable P) (p : NodePlace) : Prop :=
  ∃ i, i < tbl.height ∧ tbl.ScanEnds i p.bucket ∧
    ∃ h : i ≡ p.pos [MOD Nat.gcd tbl.height (tbl.nodes p.bucket).length],
      (Nat.chineseRemainder' h : Nat) < 2 ^ 64

section Pickable

variable {tbl : UcHashTable P} {p : NodePlace}

theorem exists_pick_iff (hc : Counted tbl) (hsmall : tbl.height ≤ 2 ^ 63)
    (hp : p.pos < (tbl.nodes p.bucket).length) :
    (∃ rdmIdx : UInt64, ucHashRandomNode tbl rdmIdx = some (some p)) ↔ Pickable tbl p := by
  constructor
  · rintro ⟨rdmIdx, hret⟩
    rcases (ucHashRandomNode_eq_iff hc hsmall).1 hret with ⟨hends, hpos⟩
    have hheight : rdmIdx.toNat ≡ rdmIdx.toNat % tbl.height [MOD tbl.height] :=
      (Nat.mod_modEq _ _).symm
    have hlen : rdmIdx.toNat ≡ p.pos [MOD (tbl.nodes p.bucket).length] := by
      rw [← hpos]
      exact (Nat.mod_modEq _ _).symm
    have hgcd : rdmIdx.toNat % tbl.height ≡ p.pos
        [MOD Nat.gcd tbl.height (tbl.nodes p.bucket).length] :=
      (hheight.symm.of_dvd (Nat.gcd_dvd_left _ _)).trans (hlen.of_dvd (Nat.gcd_dvd_right _ _))
    refine ⟨_, Nat.mod_lt _ hc.height_pos, hends, hgcd, ?_⟩
    -- the number itself is a solution, and the remainder is the least one
    have hsol := (Nat.chineseRemainder' hgcd).2
    have hsame : (Nat.chineseRemainder' hgcd : Nat) ≡ rdmIdx.toNat
        [MOD Nat.lcm tbl.height (tbl.nodes p.bucket).length] :=
      Nat.mod_lcm (hsol.1.trans hheight.symm) (hsol.2.trans hlen.symm)
    have hleast := Nat.chineseRemainder'_lt_lcm hgcd hc.height_pos.ne' (Nat.ne_of_gt (by omega))
    calc (Nat.chineseRemainder' hgcd : Nat)
        = (Nat.chineseRemainder' hgcd : Nat) %
            Nat.lcm tbl.height (tbl.nodes p.bucket).length := (Nat.mod_eq_of_lt hleast).symm
      _ = rdmIdx.toNat % Nat.lcm tbl.height (tbl.nodes p.bucket).length := hsame
      _ ≤ rdmIdx.toNat := Nat.mod_le _ _
      _ < 2 ^ 64 := rdmIdx.toNat_lt
  · rintro ⟨i, hi, hends, hgcd, hsize⟩
    have hsol := (Nat.chineseRemainder' hgcd).2
    have hnum : (UInt64.ofNat (Nat.chineseRemainder' hgcd : Nat)).toNat =
        (Nat.chineseRemainder' hgcd : Nat) := UInt64.toNat_ofNat_of_lt' hsize
    -- the least solution is the number to draw
    refine ⟨UInt64.ofNat (Nat.chineseRemainder' hgcd : Nat),
      (ucHashRandomNode_eq_iff hc hsmall).2 ?_⟩
    rw [hnum]
    have hstart : (Nat.chineseRemainder' hgcd : Nat) % tbl.height = i :=
      (show _ % _ = _ % _ from hsol.1).trans (Nat.mod_eq_of_lt hi)
    have hpos : (Nat.chineseRemainder' hgcd : Nat) % (tbl.nodes p.bucket).length = p.pos :=
      (show _ % _ = _ % _ from hsol.2).trans (Nat.mod_eq_of_lt hp)
    refine ⟨?_, hpos⟩
    rw [hstart]
    exact hends

/-- A chain is picked from as a whole when its length has no divisor in common with the height. -/
theorem pickable_of_coprime (hb : p.bucket < tbl.height)
    (hp : p.pos < (tbl.nodes p.bucket).length)
    (hco : Nat.Coprime tbl.height (tbl.nodes p.bucket).length)
    (hsize : tbl.height * (tbl.nodes p.bucket).length ≤ 2 ^ 64) : Pickable tbl p := by
  have hfull : tbl.nodes p.bucket ≠ [] := by
    intro hempty
    rw [hempty] at hp
    exact absurd hp (Nat.not_lt_zero _)
  have hends : tbl.ScanEnds p.bucket p.bucket :=
    ⟨hb, hfull, Or.inl ⟨le_rfl, fun j hj hj' => absurd hj' (Nat.not_lt.2 hj)⟩⟩
  have hgcd : p.bucket ≡ p.pos [MOD Nat.gcd tbl.height (tbl.nodes p.bucket).length] := by
    rw [hco]
    exact Nat.modEq_one
  -- modulo 1 all agree, and the least solution is below the product
  have hlt := Nat.chineseRemainder'_lt_lcm hgcd (by omega) (by omega)
  rw [hco.lcm_eq_mul] at hlt
  exact ⟨p.bucket, hb, hends, hgcd, hlt.trans_le hsize⟩

end Pickable

/-- The scans stay in the block and a stored node is returned for some number exactly when the
height is positive and the node is `Pickable`. -/
theorem ucHashRandomNode_reaches_iff {calloc : Nat → Bool} {height : Int}
    {keyType : UcHashKeyType} {keyVoidLen : Nat} {tbl₀ : UcHashTable P}
    (hint : -2 ^ 31 ≤ height ∧ height < 2 ^ 31)
    (hcreate : ucHashCreate calloc height keyType keyVoidLen = some tbl₀)
    (ops : List (PublicOp P)) {p : NodePlace} {node : UcHashNode P}
    (hnode : ((ops.foldl PublicOp.onNamed (named tbl₀)).tbl.nodes p.bucket)[p.pos]? =
      some node) :
    (Extent (ucHashCreateSize height) (ops.foldl PublicOp.onNamed (named tbl₀)).tbl ∧
        ∃ rdmIdx : UInt64, ucHashRandomNode (ops.foldl PublicOp.onNamed (named tbl₀)).tbl rdmIdx =
          some (some p)) ↔
      0 < height ∧ Pickable (ops.foldl PublicOp.onNamed (named tbl₀)).tbl p := by
  have hc : Counted (ops.foldl PublicOp.onNamed (named tbl₀)).tbl :=
    (Counted.of_create hcreate).run (t := named tbl₀) ops
  rw [extent_run_iff hint hcreate ops]
  refine and_congr_right fun hpos => ?_
  have hsmall := height_run hcreate hpos hint.2 ops
  exact exists_pick_iff hc hsmall (List.getElem?_eq_some_iff.1 hnode).1

theorem ucHashRandomNode_reaches_parity :
    ∃ tbl₀ : UcHashTable Nat, ucHashCreate (fun _ => true) 2 .uint64 0 = some tbl₀ ∧
      let tbl := (parityOps.foldl PublicOp.onNamed (named tbl₀)).tbl
      Extent (ucHashCreateSize 2) tbl ∧
        ∃ rdmIdx : UInt64, ucHashRandomNode tbl rdmIdx = some (some ⟨0, 0⟩) := by
  have hcreate : ucHashCreate (P := Nat) (fun _ => true) 2 .uint64 0 = some _ := rfl
  refine ⟨_, hcreate,
    (ucHashRandomNode_reaches_iff (by decide) hcreate parityOps rfl).2 ⟨by decide, ?_⟩⟩
  -- the first node of its bucket, for which 0 is drawn
  refine ⟨0, by decide, ⟨by decide, List.ne_nil_of_length_pos (by decide), Or.inl ?_⟩, ?_⟩
  · exact ⟨le_rfl, fun j _ hj => absurd hj (Nat.not_lt_zero j)⟩
  · refine ⟨Nat.ModEq.refl 0, ?_⟩
    exact (Nat.chineseRemainder'_lt_lcm _ (by decide) (by decide)).trans (by decide)

/-- Two nodes are in bucket 0 of two buckets that both are used: an even number picks the first of
them and an odd one the node of bucket 1, so that the second is never picked. -/
theorem ucHashRandomNode_skips :
    ∃ tbl₀ : UcHashTable Nat, ucHashCreate (fun _ => true) 2 .uint64 0 = some tbl₀ ∧
      let tbl := (parityOps.foldl PublicOp.onNamed (named tbl₀)).tbl
      tbl.allNodes ≠ [] ∧ ((tbl.nodes 0)[1]?).isSome = true ∧
        ∀ rdmIdx : UInt64, ucHashRandomNode tbl rdmIdx ≠ some (some ⟨0, 1⟩) := by
  have hcreate : ucHashCreate (P := Nat) (fun _ => true) 2 .uint64 0 = some _ := rfl
  refine ⟨_, hcreate, List.ne_nil_of_length_pos (by decide), by decide, ?_⟩
  intro rdmIdx hret
  have hc := (Counted.of_create hcreate).run (t := named _) parityOps
  have hsmall := height_run hcreate (by decide) (by decide) parityOps
  rcases (ucHashRandomNode_eq_iff hc hsmall).1 hret with ⟨⟨_, _, hway⟩, hpos⟩
  have hodd : rdmIdx.toNat % 2 = 1 := hpos
  rcases hway with ⟨hle, _⟩ | ⟨_, hup, _⟩
  · have hzero : rdmIdx.toNat % 2 ≤ 0 := hle
    omega
  · have hempty := hup 1 hodd.le (by decide)
    exact absurd (congrArg List.length hempty) (by decide)

end Hash
end UtilsC
