import UtilsC.Hash.Refine
import UtilsC.Lib.Ledger
import UtilsC.Lib.Machine

/-!
# Who owns the values of a table

A table takes over the blocks stored in it: replacing a value by `uc_hash_insert`, deleting a key,
resetting and freeing the table free them, and `uc_hash_update` hands the old one back.

* `values` are the blocks a table holds; each operation exchanges blocks (`insert_exchange`,
  `delete_exchange`, `update_exchange`, `reset_exchange`).
* `machine` runs a table together with a ledger.  `exec` has no result when a block that is not
  live would be freed.
* `ucHash_ownership`: that never happens, and every block is in one place all the time.
-/

namespace UtilsC
namespace Hash

open Lib
open UcHashTable

variable {P : Type}

/-- `uc_hash_free`: the values freed.  The bucket array is freed with the table. -/
def ucHashFree (tbl : UcHashTable P) : List P :=
  (ucHashReset tbl).2.2

/-- The blocks the table holds, node by node. -/
def UcHashTable.values (tbl : UcHashTable P) : List P :=
  tbl.allNodes.flatMap fun node => node.val.toList

/-! ## What each operation exchanges -/

section Exchanges

variable {tbl : UcHashTable P} (hw : tbl.Wf) (key : UcHashKey)
include hw

theorem find_of_lookup {old : Option P} (hold : tbl.lookup (tbl.bytes key) = some old) :
    ∃ node, Chain.find? tbl.nodeKey (tbl.bytes key) tbl.allNodes = some node ∧
      node.val = old := by
  have hval := ucHashFind_val tbl key
  rw [hold] at hval
  rcases Option.map_eq_some_iff.1 hval with ⟨node, hfind, hnode⟩
  exact ⟨node, (find?_allNodes hw key).trans hfind, hnode⟩

/-- Overwriting a value: the old one goes out, the new one comes in. -/
theorem assign_exchange (val : Option P) {old : Option P}
    (hold : tbl.lookup (tbl.bytes key) = some old) :
    (old.toList ++ (tbl.setChain (tbl.bucket key)
        (ucHashAssign tbl key val (tbl.nodes (tbl.bucket key)))).values).Perm
      (val.toList ++ tbl.values) := by
  rcases find_of_lookup hw key hold with ⟨node, hfind, hnode⟩
  have hperm := Chain.perm_replaceFirst (f := fun n : UcHashNode P => { n with val := val }) hfind
  have hvals := hperm.flatMap_right fun n : UcHashNode P => n.val.toList
  rw [values, allNodes_assign hw key val, ← hnode]
  exact hvals

theorem insert_exchange (malloc : Option NodeBlock) (val : Option P) :
    ((ucHashInsert malloc tbl key val).2.2 ++ (ucHashInsert malloc tbl key val).2.1.values).Perm
      ((if (ucHashInsert malloc tbl key val).1 = errOk then val.toList else []) ++
        tbl.values) := by
  cases hold : tbl.lookup (tbl.bytes key) with
  | none =>
      cases malloc with
      | none =>
          rw [insert_unbound_fail key val hold]
          exact List.Perm.refl _
      | some block =>
          rw [insert_unbound key block val hold]
          have hall := allNodes_setChain tbl (bucket_lt hw key)
            ({ val := val, keys := ucHashNewKeys tbl block key } :: tbl.nodes (tbl.bucket key))
          -- the new node stands at the head of its bucket, in the middle of all nodes
          have hmid : (tbl.lowNodes (tbl.bucket key) ++
                { val := val, keys := ucHashNewKeys tbl block key } ::
                  (tbl.nodes (tbl.bucket key) ++ tbl.highNodes (tbl.bucket key + 1))).Perm
              ({ val := val, keys := ucHashNewKeys tbl block key } ::
                (tbl.lowNodes (tbl.bucket key) ++
                  (tbl.nodes (tbl.bucket key) ++ tbl.highNodes (tbl.bucket key + 1)))) :=
            List.perm_middle
          have hvals := hmid.flatMap_right fun n : UcHashNode P => n.val.toList
          rw [← allNodes_eq tbl (bucket_lt hw key)] at hvals
          show (tbl.setChain (tbl.bucket key) _).values.Perm (val.toList ++ tbl.values)
          rw [values, hall]
          exact hvals
  -- the key is there: its old value is freed
  | some old =>
      have hne : tbl.lookup (tbl.bytes key) ≠ none := by simp [hold]
      rcases insert_bound key malloc val hne with ⟨hret, htbl, hfreed⟩
      rw [hold] at hfreed
      have hfreed' : (ucHashInsert malloc tbl key val).2.2 = old.toList := Option.some.inj hfreed
      rw [hret, htbl, hfreed', if_pos rfl]
      exact assign_exchange hw key val hold

theorem delete_exchange :
    ((ucHashDelete tbl key).2.2 ++ (ucHashDelete tbl key).2.1.values).Perm tbl.values := by
  have hfreed : (ucHashDelete tbl key).2.2 = _ := (ucHashDelete_freed key).2
  cases hold : tbl.lookup (tbl.bytes key) with
  | none =>
      rw [ucHashDelete_unbound key hold]
      exact List.Perm.refl _
  -- one node goes, and its value is freed with it
  | some old =>
      rcases find_of_lookup hw key hold with ⟨node, hfind, hnode⟩
      have hperm := Chain.perm_eraseFirst hfind
      have hvals := hperm.flatMap_right fun n : UcHashNode P => n.val.toList
      rw [hfreed, hold, values, allNodes_delete hw, ← hnode]
      exact hvals

theorem update_exchange (val : Option P) :
    ((ucHashUpdate tbl key val).1.toList ++ (ucHashUpdate tbl key val).2.values).Perm
      ((if (ucHashFind tbl key).isSome = true then val.toList else []) ++ tbl.values) := by
  have hval := ucHashFind_val tbl key
  cases hf : ucHashFind tbl key with
  -- a key that is not found leaves the value with the caller
  | none => simp [ucHashUpdate, hf]
  | some node =>
      have hold : tbl.lookup (tbl.bytes key) = some node.val := by
        rw [← hval, hf]
        rfl
      simpa [ucHashUpdate, hf] using assign_exchange hw key val hold

omit hw in
theorem ucHashFreeChain_freed (chain : List (UcHashNode P)) (ttl : Nat) (freed : List P) :
    (ucHashFreeChain chain (ttl, freed)).2 =
      freed ++ chain.flatMap fun node => node.val.toList := by
  induction chain generalizing ttl freed with
  | nil => simp [ucHashFreeChain]
  | cons node next ih => simp [ucHashFreeChain, ih]

omit hw in
/-- The outer loop up to bucket `n` has freed the values of the buckets below `n`. -/
theorem ucHashReset_loop_freed (tbl : UcHashTable P) (n : Nat) :
    ((List.range n).foldl ucHashResetBucket (tbl, [])).2 =
      (tbl.lowNodes n).flatMap fun node => node.val.toList := by
  induction n with
  | zero => rfl
  | succ n ih =>
      have hloop := ucHashReset_loop tbl [] n
      simp only [List.range_succ, List.foldl_append, List.foldl_cons, List.foldl_nil]
      rw [ucHashResetBucket, ucHashFreeChain_freed, hloop, ih]
      simp [lowNodes, List.range_succ, List.flatMap_append]

theorem reset_exchange : (ucHashReset tbl).2.2 = tbl.values ∧
    (ucHashReset tbl).2.1.values = [] := by
  constructor
  · have hfreed : (ucHashReset tbl).2.2 =
        ((List.range tbl.height).foldl ucHashResetBucket (tbl, [])).2 := by
      simp only [ucHashReset]
      split <;> rfl
    exact hfreed.trans (ucHashReset_loop_freed tbl tbl.height)
  · have hspec := ucHashReset_spec hw
    have hnil : (ucHashReset tbl).2.1.allNodes = [] := by
      refine List.eq_nil_iff_forall_not_mem.2 ?_
      intro node hmem
      have hkey := (mem_allNodes_keys_iff hspec.2.1).1 (List.mem_map_of_mem hmem)
      exact hkey (congrFun hspec.2.2 _)
    rw [values, hnil]
    rfl

end Exchanges

/-! ## A table with its ledger -/

variable [DecidableEq P]

/-- The table is gone after `uc_hash_free`. -/
structure Owner (P : Type) where
  tbl : Option (UcHashTable P)
  ledger : Ledger P

inductive OwnerOp (P : Type)
  | insert (malloc : Option NodeBlock) (key : UcHashKey) (val : Option P)
  | update (key : UcHashKey) (val : Option P)
  | delete (key : UcHashKey)
  | reset
  | free

namespace Owner

def start (tbl : UcHashTable P) (live : P → Bool) : Owner P :=
  { tbl := some tbl, ledger := Ledger.new live }

/-- The table after an operation, holding its values; `ins`, `frees` and `back` go to the books. -/
def exchange (s : Owner P) (tbl : Option (UcHashTable P)) (ins frees back : List P) :
    Option (Owner P) :=
  (s.ledger.exchange ((tbl.map values).getD []) ins frees back).map fun ledger =>
    { tbl := tbl, ledger := ledger }

/-- A value may be passed in when it is `NULL` or a live block the table does not hold. -/
def offered (s : Owner P) (val : Option P) : Bool :=
  val.all s.ledger.offered

def enabled (s : Owner P) : OwnerOp P → Bool
  | .insert _ _ val => s.tbl.isSome && s.offered val
  | .update _ val => s.tbl.isSome && s.offered val
  | .delete _ => s.tbl.isSome
  | .reset => s.tbl.isSome
  | .free => s.tbl.isSome

/-- An insertion accepts its value when it succeeds, an update when it finds the key. -/
def exec (s : Owner P) (op : OwnerOp P) : Option (Owner P) :=
  s.tbl.bind fun tbl =>
    match op with
    | .insert malloc key val =>
        let r := ucHashInsert malloc tbl key val
        s.exchange (some r.2.1) (if r.1 = errOk then val.toList else []) r.2.2 []
    | .update key val =>
        let r := ucHashUpdate tbl key val
        -- the old value is handed back and not freed
        let ins := if (ucHashFind tbl key).isSome = true then val.toList else []
        s.exchange (some r.2) ins [] r.1.toList
    | .delete key =>
        let r := ucHashDelete tbl key
        s.exchange (some r.2.1) [] r.2.2 []
    | .reset =>
        let r := ucHashReset tbl
        s.exchange (some r.2.1) [] r.2.2 []
    | .free => s.exchange none [] (ucHashFree tbl) []

def machine : Machine (Owner P) (OwnerOp P) :=
  { enabled := enabled, exec := exec }

/-! ## The invariant -/

structure Kept (s : Owner P) : Prop where
  wf : ∀ tbl, s.tbl = some tbl → tbl.Wf
  held_eq : s.ledger.held = (s.tbl.map values).getD []
  balanced : s.ledger.Balanced

section Step

variable {s : Owner P} (hk : s.Kept)
include hk

/-- An operation that leads to a well-formed table and conserves blocks keeps the books. -/
theorem exchange_kept (val : Option P) {tbl' : Option (UcHashTable P)} {ins frees back : List P}
    (hwf : ∀ tbl, tbl' = some tbl → tbl.Wf) (hins : ins = val.toList ∨ ins = [])
    (hoff : s.offered val = true)
    (hperm : (frees ++ back ++ (tbl'.map values).getD []).Perm (ins ++ s.ledger.held)) :
    ∃ s', s.exchange tbl' ins frees back = some s' ∧ s'.Kept := by
  have hnd : ins.Nodup := by
    rcases hins with h | h
    · rw [h]
      cases val <;> simp
    · simp [h]
  have hoffered : ∀ p ∈ ins, s.ledger.offered p = true := by
    intro p hp
    rcases hins with h | h
    · have hval : val = some p := by simpa [h] using hp
      simpa [offered, hval] using hoff
    · simp [h] at hp
  rcases Ledger.exchange_balanced hk.balanced hnd hoffered hperm with
    ⟨ledger, hexchange, hheld, hbalanced⟩
  refine ⟨{ tbl := tbl', ledger := ledger }, ?_, hwf, hheld, hbalanced⟩
  rw [exchange, hexchange]
  rfl

/-- The step lemma: every operation the callers may perform executes, and keeps the books. -/
theorem exec_kept {op : OwnerOp P} (henabled : s.enabled op = true) :
    ∃ s', s.exec op = some s' ∧ s'.Kept := by
  have hnull : s.offered none = true := rfl
  cases htbl : s.tbl with
  | none => cases op <;> simp [enabled, htbl] at henabled
  | some tbl =>
      have hw := hk.wf tbl htbl
      have hheld : s.ledger.held = tbl.values := by simp [hk.held_eq, htbl]
      -- each operation is one exchange with the ledger
      simp only [exec, htbl, Option.bind_some]
      cases op with
      | insert malloc key val =>
          have hoff : s.offered val = true := by simpa [enabled, htbl] using henabled
          refine exchange_kept hk val ?_ ?_ hoff ?_
          · rintro _ ⟨⟩
            exact (ucHashInsert_spec hw key malloc val).1
          · by_cases hret : (ucHashInsert malloc tbl key val).1 = errOk
            · exact Or.inl (if_pos hret)
            · exact Or.inr (if_neg hret)
          · rw [hheld, List.append_nil]
            exact insert_exchange hw key malloc val
      | update key val =>
          have hoff : s.offered val = true := by simpa [enabled, htbl] using henabled
          refine exchange_kept hk val ?_ ?_ hoff ?_
          · rintro _ ⟨⟩
            exact (ucHashUpdate_spec hw key val).1
          · by_cases hfind : (ucHashFind tbl key).isSome = true
            · exact Or.inl (if_pos hfind)
            · exact Or.inr (if_neg hfind)
          · rw [hheld]
            exact update_exchange hw key val
      | delete key =>
          refine exchange_kept hk none ?_ (Or.inr rfl) hnull ?_
          · rintro _ ⟨⟩
            exact (ucHashDelete_spec hw key).1
          · rw [hheld, List.append_nil]
            exact delete_exchange hw key
      | reset =>
          refine exchange_kept hk none ?_ (Or.inr rfl) hnull ?_
          · rintro _ ⟨⟩
            exact (ucHashReset_spec hw).2.1
          · have hreset := reset_exchange hw
            simp [hheld, hreset.1, hreset.2]
      | free =>
          refine exchange_kept hk none ?_ (Or.inr rfl) hnull ?_
          · rintro _ ⟨⟩
          · have hreset := reset_exchange hw
            simp [hheld, ucHashFree, hreset.1]

end Step

omit [DecidableEq P] in
theorem start_kept {tbl : UcHashTable P} (hw : tbl.Wf) (hempty : ∀ h, tbl.nodes h = [])
    (live : P → Bool) : (start tbl live).Kept where
  wf := by
    rintro _ ⟨⟩
    exact hw
  held_eq := by simp [start, Ledger.new, values, allNodes, hempty]
  balanced := Ledger.balanced_new live

theorem run_kept {s t : Owner P} {ops : List (OwnerOp P)} (hk : s.Kept)
    (hrun : machine.Run s ops t) : t.Kept := by
  refine hrun.invariant hk ?_ (fun _ _ => trivial : ∀ op ∈ ops, True)
  intro s s' op hs _ henabled hexec
  rcases exec_kept hs henabled with ⟨s'', hexec', hkept⟩
  have hsame : s' = s'' := Option.some.inj (hexec.symm.trans hexec')
  exact hsame ▸ hkept

theorem exchange_tbl {s t : Owner P} {tbl : Option (UcHashTable P)} {ins frees back : List P}
    (hexchange : s.exchange tbl ins frees back = some t) : t.tbl = tbl := by
  rcases Option.map_eq_some_iff.1 hexchange with ⟨ledger, -, rfl⟩
  rfl

theorem exec_height {s t : Owner P} {op : OwnerOp P} {h : Nat}
    (hheight : ∀ tbl, s.tbl = some tbl → tbl.height = h) (hexec : s.exec op = some t) :
    ∀ tbl, t.tbl = some tbl → tbl.height = h := by
  rcases Option.bind_eq_some_iff.1 hexec with ⟨tbl, htbl, hexec'⟩
  have hframe : ∀ op : TableOp P, (op.onTable tbl).height = h :=
    fun op => (onTable_frame tbl op).2.1.trans (hheight tbl htbl)
  cases op with
  | insert malloc key val =>
      rw [exchange_tbl hexec']
      rintro _ ⟨⟩
      exact hframe (.insert malloc key val)
  | update key val =>
      rw [exchange_tbl hexec']
      rintro _ ⟨⟩
      exact hframe (.update key val)
  | delete key =>
      rw [exchange_tbl hexec']
      rintro _ ⟨⟩
      exact hframe (.delete key)
  | reset =>
      rw [exchange_tbl hexec']
      rintro _ ⟨⟩
      exact hframe .reset
  | free =>
      rw [exchange_tbl hexec']
      rintro _ ⟨⟩

/-- No operation makes another table of the one it has. -/
theorem run_height {s t : Owner P} {ops : List (OwnerOp P)} {h : Nat}
    (hheight : ∀ tbl, s.tbl = some tbl → tbl.height = h) (hrun : machine.Run s ops t) :
    ∀ tbl, t.tbl = some tbl → tbl.height = h := by
  refine hrun.invariant (J := fun s => ∀ tbl, s.tbl = some tbl → tbl.height = h) hheight ?_
    (fun _ _ => trivial : ∀ op ∈ ops, True)
  intro s s' op hs _ _ hexec
  exact exec_height hs hexec

end Owner

/-! ## Ownership -/

open Owner in
/-- Value ownership is conserved over every run of a table with memory for its buckets.  `live` is
the set of live blocks at the start; a step frees a block only while it is live. -/
theorem ucHash_ownership {calloc : Nat → Bool} {height : Int} {keyType : UcHashKeyType}
    {keyVoidLen : Nat} {tbl₀ : UcHashTable P} (hpos : 0 < height) (hlt : height < 2 ^ 31)
    (hcreate : ucHashCreate calloc height keyType keyVoidLen = some tbl₀)
    (handler : List UInt8 → Nat) (live : P → Bool) {ops : List (OwnerOp P)} {s : Owner P}
    (hrun : machine.Run (start (ucHashSetCalHashHandler tbl₀ handler) live) ops s) :
    -- the operations stay in the block of the table
    (∀ tbl, s.tbl = some tbl → Extent (ucHashCreateSize height) tbl) ∧
    -- an accepted block is in exactly one place, once; another block is nowhere
    (∀ p, s.ledger.held.count p + s.ledger.freed.count p + s.ledger.handed.count p =
      if p ∈ s.ledger.accepted then 1 else 0) ∧
    -- the blocks held are the values of the nodes, and live
    (∀ tbl, s.tbl = some tbl → s.ledger.held = tbl.values) ∧
    (∀ p ∈ s.ledger.held, s.ledger.live p = true) ∧
    -- after `uc_hash_free` none is held
    (s.tbl = none → s.ledger.held = []) ∧
    -- no step of the table frees a block that is not live
    (∀ op, machine.enabled s op = true → (machine.exec s op).isSome) ∧
    -- a value whose insertion failed is not freed, and the table is unchanged
    (∀ tbl malloc key val, s.tbl = some tbl → (ucHashInsert malloc tbl key val).1 ≠ errOk →
      (ucHashInsert malloc tbl key val).2 = (tbl, [])) := by
  have hw₀ := (ucHashCreate_spec hcreate).1
  have hempty := nodes_of_create hcreate
  have hwh := setCalHashHandler_wf hempty hw₀ handler
  have hk := run_kept (start_kept hwh hempty live) hrun
  refine ⟨?_, hk.balanced.count_eq, ?_, hk.balanced.held_live, ?_, ?_, ?_⟩
  · intro tbl htbl
    have hstart : ∀ tbl,
        (start (ucHashSetCalHashHandler tbl₀ handler) live).tbl = some tbl →
          tbl.height = tbl₀.height := by
      rintro _ ⟨⟩
      rfl
    exact (extent_create_iff ⟨by omega, hlt⟩ hcreate (run_height hstart hrun tbl htbl)).2 hpos
  · intro tbl htbl
    simp [hk.held_eq, htbl]
  · intro htbl
    simp [hk.held_eq, htbl]
  · intro op henabled
    rcases exec_kept hk henabled with ⟨s', hexec, _⟩
    have hsome : machine.exec s op = some s' := hexec
    simp [hsome]
  · intro tbl malloc key val htbl hret
    rw [ucHashInsert_failed key hret]

/-- Replacing, updating, a failed insertion, a deletion, storing a block that was handed back, and
freeing the table, with two keys in one bucket. -/
def mixedOps : List (OwnerOp Nat) :=
  [.insert (some ⟨8, ucHashKeyU64 0⟩) (ucHashKeyU64 3) (some 10),
    .insert (some ⟨9, ucHashKeyU64 0⟩) (ucHashKeyU64 5) (some 11),
    .insert none (ucHashKeyU64 5) (some 12),
    .update (ucHashKeyU64 5) (some 13),
    .insert none (ucHashKeyU64 9) (some 14),
    .delete (ucHashKeyU64 3),
    .insert (some ⟨8, ucHashKeyU64 0⟩) (ucHashKeyU64 3) (some 12),
    .free]

theorem ucHash_ownership_mixed :
    ∃ (tbl₀ : UcHashTable Nat) (s : Owner Nat),
      ucHashCreate (fun _ => true) 1 .uint64 0 = some tbl₀ ∧
        Owner.machine.Run (Owner.start (ucHashSetCalHashHandler tbl₀ fun _ => 0) fun _ => true)
          mixedOps s ∧
        s.ledger.held.count 12 + s.ledger.freed.count 12 + s.ledger.handed.count 12 =
          if 12 ∈ s.ledger.accepted then 1 else 0 := by
  have hcreate : ucHashCreate (P := Nat) (fun _ => true) 1 .uint64 0 =
      some ((ucHashCreate (fun _ => true) 1 .uint64 0).get rfl) := rfl
  have hplay : (Owner.machine.play
      (Owner.start (ucHashSetCalHashHandler
        ((ucHashCreate (P := Nat) (fun _ => true) 1 .uint64 0).get rfl) fun _ => 0)
        fun _ => true) mixedOps).isSome = true := by decide
  rcases Option.isSome_iff_exists.1 hplay with ⟨s, hs⟩
  have hrun := Machine.run_of_play hs
  have howned := ucHash_ownership (by decide) (by decide) hcreate (fun _ => 0) (fun _ => true) hrun
  exact ⟨_, s, hcreate, hrun, howned.2.1 12⟩

end Hash
end UtilsC
