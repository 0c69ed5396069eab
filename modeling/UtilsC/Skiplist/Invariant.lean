import UtilsC.Skiplist.Column

/-!
# The representation of a sorted sequence, and the search in it

`Rep ops zsl ns` says that `zsl` represents the nodes `ns`: they are sorted by score and object,
every level links those that reach it with exact spans, and backward pointers, tail, length and
level are right.

`search_spec` is about both insertion and deletion: between the nodes before a pair and the others,
the search finds on every level the last node before, and its rank.
-/

namespace UtilsC
namespace Skiplist

open Lib Tower

/-! ## The order of the pairs -/

section Order

variable {S O : Type} [LinearOrder S] {ops : ObjectOps O} {k k' k'' : S × O}

/-- `compareStringObjects` orders all objects, those it finds equal are what `equalStringObjects`
calls equal. -/
structure ObjectOps.Total (ops : ObjectOps O) : Prop where
  swap : ∀ a b, ops.compareStringObjects a b < 0 ↔ 0 < ops.compareStringObjects b a
  trans : ∀ a b c, ops.compareStringObjects a b ≤ 0 → ops.compareStringObjects b c ≤ 0 →
    ops.compareStringObjects a c ≤ 0
  equal_iff : ∀ a b, ops.equalStringObjects a b = true ↔ ops.compareStringObjects a b = 0

def Less (ops : ObjectOps O) (k k' : S × O) : Prop :=
  k.1 < k'.1 ∨ k.1 = k'.1 ∧ ops.compareStringObjects k.2 k'.2 < 0

def SamePair (ops : ObjectOps O) (k k' : S × O) : Prop :=
  k.1 = k'.1 ∧ ops.equalStringObjects k.2 k'.2 = true

instance (ops : ObjectOps O) (k k' : S × O) : Decidable (Less ops k k') :=
  inferInstanceAs (Decidable (_ ∨ _))

theorem ObjectOps.Total.lt_trans (hops : ops.Total) {a b c : O}
    (hab : ops.compareStringObjects a b < 0) (hbc : ops.compareStringObjects b c < 0) :
    ops.compareStringObjects a c < 0 := by
  have hle := hops.trans a b c (Int.le_of_lt hab) (Int.le_of_lt hbc)
  rcases Int.lt_or_eq_of_le hle with hlt | heq
  · exact hlt
  · have hca : ops.compareStringObjects c a ≤ 0 := by
      by_contra hpos
      have hlt := (hops.swap a c).2 (Int.not_le.1 hpos)
      omega
    have hcb := hops.trans c a b hca (Int.le_of_lt hab)
    have hpos := (hops.swap b c).1 hbc
    omega

theorem Less.trans (hops : ops.Total) (h : Less ops k k') (h' : Less ops k' k'') :
    Less ops k k'' := by
  rcases h with h | ⟨h, hc⟩
  · rcases h' with h' | ⟨h', _⟩
    · exact Or.inl (h.trans h')
    · exact Or.inl (h' ▸ h)
  · rcases h' with h' | ⟨h', hc'⟩
    · exact Or.inl (h ▸ h')
    · exact Or.inr ⟨h.trans h', hops.lt_trans hc hc'⟩

/-- Two pairs are the same or one is less. -/
theorem less_of_not_less (hops : ops.Total) (hless : ¬ Less ops k k')
    (hsame : ¬ SamePair ops k k') : Less ops k' k := by
  rcases lt_trichotomy k.1 k'.1 with h | h | h
  · exact absurd (Or.inl h) hless
  · refine Or.inr ⟨h.symm, ?_⟩
    have hnot : ¬ ops.compareStringObjects k.2 k'.2 < 0 := fun hc => hless (Or.inr ⟨h, hc⟩)
    have hne : ops.compareStringObjects k.2 k'.2 ≠ 0 :=
      fun hc => hsame ⟨h, (hops.equal_iff _ _).2 hc⟩
    refine (hops.swap _ _).2 ?_
    omega
  · exact Or.inl h

end Order

variable {S O A : Type} [LinearOrder S] [DecidableEq A]

/-! ## The representation -/

/-- The pair of a node; the header has none. -/
def Memory.pair (mem : Memory S O A) (a : A) : Option (S × O) :=
  (mem.node a).obj.map fun o => ((mem.node a).score, o)

def Memory.NodeLess (mem : Memory S O A) (ops : ObjectOps O) (a b : A) : Prop :=
  ∃ k k', mem.pair a = some k ∧ mem.pair b = some k' ∧ Less ops k k'

omit [DecidableEq A] in
theorem Memory.NodeLess.less {mem : Memory S O A} {ops : ObjectOps O} {a b : A} {k k' : S × O}
    (h : mem.NodeLess ops a b) (ha : mem.pair a = some k) (hb : mem.pair b = some k') :
    Less ops k k' := by
  rcases h with ⟨k₁, k₂, hk₁, hk₂, hless⟩
  rw [ha] at hk₁
  rw [hb] at hk₂
  cases hk₁
  cases hk₂
  exact hless

structure Rep (ops : ObjectOps O) (zsl : Zskiplist S O A) (ns : List A) : Prop where
  nodup : (zsl.header :: ns).Nodup
  live_iff : ∀ a, 0 < zsl.mem.size a ↔ a ∈ zsl.header :: ns
  header_size : zsl.mem.size zsl.header = zskiplistMaxlevel
  pairs : ∀ a ∈ ns, ∃ k, zsl.mem.pair a = some k
  sorted : ns.Pairwise (zsl.mem.NodeLess ops)
  level_pos : 1 ≤ zsl.level
  level_le : zsl.level ≤ zskiplistMaxlevel
  heights : ∀ a ∈ ns, zsl.mem.size a ≤ zsl.level
  reached : zsl.level = 1 ∨ ∃ a ∈ ns, zsl.mem.size a = zsl.level
  column : ∀ i, i < zsl.level → Column zsl.mem.size i (zsl.mem.column i) (zsl.header :: ns)
  above : ∀ i, zsl.level ≤ i → i < zskiplistMaxlevel →
    (zsl.mem.column i zsl.header).forward = none
  back : Backs (fun a => (zsl.mem.node a).backward) ns
  tail : zsl.tail = ns.getLast?
  length : zsl.length = UInt64.ofNat ns.length

/-! ## The search -/

section Search

variable {ops : ObjectOps O} {mem : Memory S O A} {score : S} {obj : O} {i : Nat}
  {header : A} {lo hi : List A}

omit [DecidableEq A] in
theorem before_eq {a : A} {k : S × O} (hlive : 0 < mem.size a) (hk : mem.pair a = some k) :
    before ops mem score obj a = some (decide (Less ops k (score, obj))) := by
  rcases Option.map_eq_some_iff.1 hk with ⟨o, ho, hk'⟩
  subst hk'
  rw [before, if_pos hlive]
  by_cases hlt : (mem.node a).score < score
  · simp [Less, hlt]
  · by_cases heq : (mem.node a).score = score
    · simp [Less, heq, ho]
    · simp [Less, hlt, heq]

/-- The nodes before a pair are the first ones. -/
structure Cut (ops : ObjectOps O) (mem : Memory S O A) (score : S) (obj : O) (lo hi : List A) :
    Prop where
  low : ∀ a ∈ lo, before ops mem score obj a = some true
  high : ∀ a ∈ hi, before ops mem score obj a = some false

omit [DecidableEq A] in
theorem exists_cut (hops : ops.Total) (score : S) (obj : O) :
    ∀ {ns : List A}, (∀ a ∈ ns, 0 < mem.size a ∧ ∃ k, mem.pair a = some k) →
      ns.Pairwise (mem.NodeLess ops) →
      ∃ lo hi, ns = lo ++ hi ∧ Cut ops mem score obj lo hi
  | [], _, _ => ⟨[], [], rfl, by simp, by simp⟩
  | a :: ns, hns, hsorted => by
      have hcons := List.pairwise_cons.1 hsorted
      rcases hns a (by simp) with ⟨hlive, k, hk⟩
      have ha : before ops mem score obj a = _ := before_eq hlive hk
      by_cases hless : Less ops k (score, obj)
      · rcases exists_cut hops score obj (fun b hb => hns b (List.mem_cons_of_mem a hb))
          hcons.2 with ⟨lo, hi, hcut, hlow, hhigh⟩
        refine ⟨a :: lo, hi, by simp [hcut], ?_, hhigh⟩
        intro b hb
        rcases List.mem_cons.1 hb with hba | hb'
        · rw [hba, ha, decide_eq_true hless]
        · exact hlow b hb'
      · refine ⟨[], a :: ns, rfl, by simp, ?_⟩
        intro b hb
        rcases List.mem_cons.1 hb with hba | hb'
        · rw [hba, ha, decide_eq_false hless]
        · -- a later node that is before would put the first one before too
          rcases hns b (by simp [hb']) with ⟨hliveb, kb, hkb⟩
          have hlt := (hcons.1 b hb').less hk hkb
          have hnot : ¬ Less ops kb (score, obj) := fun h => hless (hlt.trans hops h)
          rw [before_eq hliveb hkb, decide_eq_false hnot]

omit [LinearOrder S] [DecidableEq A] in
/-- In a row that is cut in two, a link of the first part leads past it or to its next node. -/
theorem readLevel_cut (hcol : Column mem.size i (mem.column i) (header :: (lo ++ hi)))
    {pre mid : List A} {x : A} (hlo : header :: lo = pre ++ x :: mid) (hx : i < mem.size x) :
    (Low mem.size i mid ∧ mem.readLevel x i =
        some ⟨next mem.size i hi, UInt32.ofNat (mid.length + gap mem.size i hi)⟩) ∨
      ∃ m₁ y m₂, mid = m₁ ++ y :: m₂ ∧ Low mem.size i m₁ ∧ i < mem.size y ∧ y ∈ lo ∧
        header :: lo = (pre ++ x :: m₁) ++ y :: m₂ ∧
        mem.readLevel x i = some ⟨some y, UInt32.ofNat (m₁.length + 1)⟩ := by
  have hsplit : header :: (lo ++ hi) = pre ++ x :: (mid ++ hi) := by
    rw [← List.cons_append, hlo]
    simp
  have hcell := hcol pre x (mid ++ hi) hsplit hx
  have hread : mem.readLevel x i = some (cell mem.size i (mid ++ hi)) := by
    rw [Memory.readLevel_eq hx, hcell]
  rcases low_or_first mem.size i mid with hlow | ⟨m₁, y, m₂, hmid, hm₁, hy⟩
  · refine Or.inl ⟨hlow, ?_⟩
    rw [hread, cell, next_append_low hlow, gap_append_low hlow]
  · have hmem : y ∈ (header :: lo).tail := by
      rw [hlo, hmid]
      cases pre <;> simp
    refine Or.inr ⟨m₁, y, m₂, hmid, hm₁, hy, hmem, ?_, ?_⟩
    · rw [hlo, hmid]
      simp
    · rw [hread, cell, hmid, List.append_assoc, List.cons_append, next_first hm₁ hy,
        gap_first hm₁ hy]

omit [DecidableEq A] in
/-- On one level, the walk ends at the last node before the pair. -/
theorem walk_spec (hcol : Column mem.size i (mem.column i) (header :: (lo ++ hi)))
    (hcut : Cut ops mem score obj lo hi) : ∀ {fuel : Nat} {pre mid : List A} {x : A},
      header :: lo = pre ++ x :: mid → i < mem.size x → mid.length < fuel →
      ∃ p r, walk ops mem score obj i fuel x (UInt32.ofNat pre.length) =
          some (p, UInt32.ofNat r) ∧ Bracket mem.size i (header :: lo) p r
  | 0, _, _, _, _, _, hfuel => by omega
  | fuel + 1, pre, mid, x, hlo, hx, hfuel => by
      rcases readLevel_cut hcol hlo hx with
        ⟨hlow, hread⟩ | ⟨m₁, y, m₂, hmid, _, hy, hmem, hlo', hread⟩
      · -- nothing before the pair is seen from here: the walk ends
        refine ⟨x, pre.length, ?_, pre, mid, hlo, rfl, hx, hlow⟩
        cases hnext : next mem.size i hi with
        | none => simp only [walk, hread, hnext, Option.bind_some]
        | some y =>
            have hbefore := hcut.high y (next_mem hnext).1
            simp [walk, hread, hnext, hbefore]
      · have hbefore := hcut.low y hmem
        have hfuel' : m₂.length < fuel := by
          rw [hmid, List.length_append, List.length_cons] at hfuel
          omega
        have hrank : UInt32.ofNat pre.length + UInt32.ofNat (m₁.length + 1) =
            UInt32.ofNat (pre ++ x :: m₁).length := by
          rw [← UInt32.ofNat_add, List.length_append, List.length_cons]
        rcases walk_spec hcol hcut hlo' hy hfuel' with ⟨p, r, hwalk, hb⟩
        refine ⟨p, r, ?_, hb⟩
        simp only [walk, hread, Option.bind_some, hbefore, if_true, hrank, hwalk]

/-- What the search leaves in `update` and `rank`. -/
def Found (h : A → Nat) (xs : List A) (n : Nat) (found : List (A × UInt32)) : Prop :=
  found.length = n ∧
    ∀ (i : Nat) (p : A × UInt32), found[i]? = some p →
      ∃ r, p.2 = UInt32.ofNat r ∧ Bracket h i xs p.1 r

omit [DecidableEq A] in
theorem search_spec {level fuel : Nat} (hcut : Cut ops mem score obj lo hi)
    (hcol : ∀ i, i < level → Column mem.size i (mem.column i) (header :: (lo ++ hi)))
    (hfuel : lo.length < fuel) : ∀ {n : Nat} {pre mid : List A} {x : A}, n ≤ level →
      header :: lo = pre ++ x :: mid → n ≤ mem.size x →
      ∃ found, search ops mem score obj fuel n x (UInt32.ofNat pre.length) = some found ∧
        Found mem.size (header :: lo) n found
  | 0, _, _, _, _, _, _ => ⟨[], rfl, rfl, by simp⟩
  | n + 1, pre, mid, x, hn, hlo, hx => by
      have hmid : mid.length < fuel := by
        have hlen := congrArg List.length hlo
        rw [List.length_cons, List.length_append, List.length_cons] at hlen
        omega
      rcases walk_spec (hcol n hn) hcut hlo hx hmid with ⟨p, r, hwalk, hb⟩
      have hb' := hb
      rcases hb' with ⟨pre', mid', hlo', hr, hp, _⟩
      rcases search_spec hcut hcol hfuel (Nat.le_of_succ_le hn) hlo' (Nat.le_of_lt hp) with
        ⟨below, hbelow, hlength, hfound⟩
      rw [hr] at hbelow
      refine ⟨below ++ [(p, UInt32.ofNat r)], ?_, by simp [hlength], ?_⟩
      · simp only [search, hwalk, Option.bind_some, hbelow, Option.map_some]
      · intro i q hq
        by_cases hi : i < below.length
        · rw [List.getElem?_append_left hi] at hq
          exact hfound i q hq
        · have hle : below.length ≤ i := Nat.not_lt.1 hi
          rw [List.getElem?_append_right hle] at hq
          have hlast : i - below.length = 0 := by
            have hlt := (List.getElem?_eq_some_iff.1 hq).1
            simpa using hlt
          rw [hlast] at hq
          have hqp : (p, UInt32.ofNat r) = q := by simpa using hq
          have hin : i = n := by omega
          rw [← hqp, hin]
          exact ⟨r, rfl, hb⟩

end Search

section RepSearch

variable {ops : ObjectOps O} {zsl : Zskiplist S O A} {ns lo hi : List A}

omit [DecidableEq A] in
theorem Rep.exists_cut (hops : ops.Total) (hR : Rep ops zsl ns) (score : S) (obj : O) :
    ∃ lo hi, ns = lo ++ hi ∧ Cut ops zsl.mem score obj lo hi := by
  refine Skiplist.exists_cut hops score obj ?_ hR.sorted
  intro a ha
  exact ⟨(hR.live_iff a).2 (List.mem_cons_of_mem _ ha), hR.pairs a ha⟩

omit [DecidableEq A] in
/-- The search of `zslInsert` and `zslDelete`, from the header down. -/
theorem Rep.search {score : S} {obj : O} {fuel : Nat} (hR : Rep ops zsl (lo ++ hi))
    (hcut : Cut ops zsl.mem score obj lo hi) (hfuel : lo.length < fuel) :
    ∃ found, Skiplist.search ops zsl.mem score obj fuel zsl.level zsl.header 0 = some found ∧
      Found zsl.mem.size (zsl.header :: lo) zsl.level found := by
  have hsize : zsl.level ≤ zsl.mem.size zsl.header := hR.header_size ▸ hR.level_le
  have hstart : zsl.header :: lo = [] ++ zsl.header :: lo := rfl
  exact search_spec hcut hR.column hfuel (Nat.le_refl _) hstart hsize

end RepSearch

end Skiplist
end UtilsC
