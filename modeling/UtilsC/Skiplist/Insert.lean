import UtilsC.Skiplist.Invariant

/-!
# zslInsert keeps the representation

The parts of the function in its order: levels that are new to the list (`grow_spec`), the links of
the new node and the spans above it (`link_spec`), the backward pointers (`setBackward_spec`).
`zslInsert_spec` puts them together: the new node stands between the nodes before its pair and the
others.
-/

namespace UtilsC
namespace Skiplist

open Lib Tower

variable {S O A : Type} [LinearOrder S] [DecidableEq A]

/-! ## Other heights -/

section Heights

variable {h h' : A → Nat} {xs : List A} {n : Nat} {found : List (A × UInt32)}

omit [DecidableEq A] in
theorem bracket_congr {i r : Nat} {p : A} (hh : ∀ a ∈ xs, h' a = h a)
    (hb : Bracket h i xs p r) : Bracket h' i xs p r := by
  rcases hb with ⟨pre, mid, hxs, hr, hp, hmid⟩
  refine ⟨pre, mid, hxs, hr, ?_, ?_⟩
  · rwa [hh p (by simp [hxs])]
  · exact low_congr (fun a ha => hh a (by simp [hxs, ha])) hmid

omit [DecidableEq A] in
theorem Found.congr (hh : ∀ a ∈ xs, h' a = h a) (hfound : Found h xs n found) :
    Found h' xs n found := by
  refine ⟨hfound.1, ?_⟩
  intro i p hp
  rcases hfound.2 i p hp with ⟨r, hr, hb⟩
  exact ⟨r, hr, bracket_congr hh hb⟩

omit [DecidableEq A] in
/-- On level 0 every node is seen: the bracket is the last node, and its rank counts them all. -/
theorem bracket_zero {header p : A} {lo : List A} {r : Nat}
    (hb : Bracket h 0 (header :: lo) p r) (hpos : ∀ a ∈ lo, 0 < h a) :
    r = lo.length ∧ header :: lo = (header :: lo).dropLast ++ [p] := by
  rcases hb with ⟨pre, mid, hlo, hr, _, hmid⟩
  have hnil : mid = [] := by
    cases mid with
    | nil => rfl
    | cons b mid =>
        have hb : b ∈ lo := by
          cases pre with
          | nil => simp [(List.cons.inj hlo).2]
          | cons c pre => simp [(List.cons.inj hlo).2]
        exact absurd (hpos b hb) (Nat.not_lt.2 (hmid b (by simp)))
  subst hnil
  have hlen := congrArg List.length hlo
  simp only [List.length_cons, List.length_append, List.length_nil] at hlen
  refine ⟨by omega, ?_⟩
  rw [hlo]
  simp

end Heights

/-! ## New levels -/

section Grow

variable {ops : ObjectOps O} {zsl : Zskiplist S O A} {lo hi : List A} {level : Nat}
  {found : List (A × UInt32)}

omit [DecidableEq A] in
/-- No node reaches a level that is new to the list. -/
theorem Rep.low_above {ns : List A} (hR : Rep ops zsl ns) {i : Nat} (hi : zsl.level ≤ i) :
    Low zsl.mem.size i ns :=
  fun a ha => Nat.le_trans (hR.heights a ha) hi

omit [LinearOrder S] in
theorem toUInt32_ofNat (n : Nat) : (UInt64.ofNat n).toUInt32 = UInt32.ofNat n := by
  apply UInt32.toNat_inj.1
  simp only [UInt64.toNat_toUInt32, UInt64.toNat_ofNat', UInt32.toNat_ofNat']
  omega

/-- The new levels hold the header's link, from its place to the end of the list. -/
theorem grow_column (hR : Rep ops zsl (lo ++ hi)) {i : Nat} (hlevel : zsl.level ≤ i)
    (hmax : i < zskiplistMaxlevel) :
    Column zsl.mem.size i (growColumn zsl.length (zsl.header, 0) (zsl.mem.column i))
      (zsl.header :: (lo ++ hi)) := by
  have hlow := hR.low_above hlevel
  intro pre a post hsplit ha
  cases pre with
  | nil =>
      have hcons := List.cons.inj hsplit
      have habove := hR.above i hlevel hmax
      rw [← hcons.1, ← hcons.2, cell, next_low hlow, gap_low hlow]
      simp only [growColumn, Function.update_self, habove, hR.length, toUInt32_ofNat]
  | cons b pre =>
      have hmem : a ∈ lo ++ hi := by simp [(List.cons.inj hsplit).2]
      exact absurd ha (Nat.not_lt.2 (hlow a hmem))

theorem grow_spec (hR : Rep ops zsl (lo ++ hi)) (hlevel : level ≤ zskiplistMaxlevel)
    (hfound : Found zsl.mem.size (zsl.header :: lo) zsl.level found) :
    ∃ mem, forLevels (growLevel zsl.length) zsl.level
        (List.replicate (level - zsl.level) (zsl.header, (0 : UInt32))) zsl.mem = some mem ∧
      SameNodes zsl.mem mem ∧
      Found zsl.mem.size (zsl.header :: lo) (max zsl.level level)
        (found ++ List.replicate (level - zsl.level) (zsl.header, (0 : UInt32))) ∧
      (∀ i, i < max zsl.level level →
        Column zsl.mem.size i (mem.column i) (zsl.header :: (lo ++ hi))) ∧
      ∀ i, max zsl.level level ≤ i → mem.column i = zsl.mem.column i := by
  have hentry : ∀ (k : Nat) (p : A × UInt32),
      (List.replicate (level - zsl.level) (zsl.header, (0 : UInt32)))[k]? = some p →
      k < level - zsl.level ∧ p = (zsl.header, 0) := by
    intro k p hp
    rcases List.getElem?_eq_some_iff.1 hp with ⟨hlt, hp'⟩
    exact ⟨by simpa using hlt, by simpa using hp'.symm⟩
  have hbody : ∀ k p (mem' : Memory S O A),
      (List.replicate (level - zsl.level) (zsl.header, (0 : UInt32)))[k]? = some p →
      mem'.size = zsl.mem.size →
      mem'.column (zsl.level + k) = zsl.mem.column (zsl.level + k) →
      growLevel zsl.length (zsl.level + k) p mem' =
        some (mem'.setColumn (zsl.level + k)
          (growColumn zsl.length p (mem'.column (zsl.level + k)))) := by
    intro k p mem' hp hsize _
    rcases hentry k p hp with ⟨hk, rfl⟩
    refine growLevel_eq zsl.length ?_
    rw [hsize, hR.header_size]
    omega
  rcases forLevels_spec hbody with ⟨mem, hloop, hsame, hinside, houtside⟩
  refine ⟨mem, hloop, hsame, ⟨?_, ?_⟩, ?_, ?_⟩
  · rw [List.length_append, List.length_replicate, hfound.1]
    omega
  · intro i p hp
    by_cases hi' : i < found.length
    · rw [List.getElem?_append_left hi'] at hp
      exact hfound.2 i p hp
    · have hle : found.length ≤ i := Nat.not_lt.1 hi'
      rw [List.getElem?_append_right hle] at hp
      rcases hentry _ p hp with ⟨hk, rfl⟩
      have hlevel' : zsl.level ≤ i := hfound.1 ▸ hle
      refine ⟨0, rfl, [], lo, rfl, rfl, ?_, ?_⟩
      · rw [hR.header_size]
        have := hfound.1
        omega
      · exact fun a ha => hR.low_above hlevel' a (by simp [ha])
  · intro i hi'
    by_cases hold : i < zsl.level
    · rw [houtside i (Or.inl hold)]
      exact hR.column i hold
    · have hle : zsl.level ≤ i := Nat.not_lt.1 hold
      have hk : i - zsl.level < level - zsl.level := by omega
      have hcol := hinside (i - zsl.level) (zsl.header, 0) (by simp [hk])
      rw [Nat.add_sub_cancel' hle] at hcol
      rw [hcol]
      exact grow_column hR hle (by omega)
  · intro i hi'
    refine houtside i (Or.inr ?_)
    rw [List.length_replicate]
    omega

end Grow

/-! ## The links of the new node -/

section Link

variable {mem : Memory S O A} {header x : A} {lo hi : List A} {levels : Nat}
  {update : List (A × UInt32)}

omit [LinearOrder S] in
theorem link_spec (hcol : ∀ i, i < levels →
      Column mem.size i (mem.column i) (header :: (lo ++ hi)))
    (hfound : Found mem.size (header :: lo) levels update)
    (hnd : (header :: (lo ++ hi)).Nodup) (hx : x ∉ header :: (lo ++ hi))
    (hlevel : mem.size x ≤ levels) :
    ∃ mem₁ mem₂, forLevels (linkLevel x (UInt32.ofNat lo.length)) 0
          (update.take (mem.size x)) mem = some mem₁ ∧
      forLevels bumpLevel (mem.size x) (update.drop (mem.size x)) mem₁ = some mem₂ ∧
      SameNodes mem mem₂ ∧
      (∀ i, i < levels →
        Column mem.size i (mem₂.column i) (header :: (lo ++ x :: hi))) ∧
      ∀ i, levels ≤ i → mem₂.column i = mem.column i := by
  have htake : ∀ k p, (update.take (mem.size x))[k]? = some p →
      k < mem.size x ∧ update[k]? = some p := by
    intro k p hp
    rw [List.getElem?_take] at hp
    split_ifs at hp with hk
    exact ⟨hk, hp⟩
  have hbound : ∀ k p, update[k]? = some p → k < mem.size p.1 := by
    intro k p hp
    rcases hfound.2 k p hp with ⟨r, _, _, _, _, _, htall, _⟩
    exact htall
  have hlink : ∀ k p (mem' : Memory S O A), (update.take (mem.size x))[k]? = some p →
      mem'.size = mem.size → mem'.column (0 + k) = mem.column (0 + k) →
      linkLevel x (UInt32.ofNat lo.length) (0 + k) p mem' =
        some (mem'.setColumn (0 + k)
          (linkColumn x (UInt32.ofNat lo.length) p (mem'.column (0 + k)))) := by
    intro k p mem' hp hsize _
    rcases htake k p hp with ⟨hk, hp'⟩
    rw [Nat.zero_add]
    refine linkLevel_eq _ ?_ ?_
    · rw [hsize]
      exact hbound k p hp'
    · rwa [hsize]
  rcases forLevels_spec hlink with ⟨mem₁, hloop₁, hsame₁, hinside₁, houtside₁⟩
  have hbump : ∀ k p (mem' : Memory S O A), (update.drop (mem.size x))[k]? = some p →
      mem'.size = mem₁.size → mem'.column (mem.size x + k) = mem₁.column (mem.size x + k) →
      bumpLevel (mem.size x + k) p mem' =
        some (mem'.setColumn (mem.size x + k)
          (bumpColumn p (mem'.column (mem.size x + k)))) := by
    intro k p mem' hp hsize _
    rw [List.getElem?_drop] at hp
    refine bumpLevel_eq ?_
    rw [hsize, hsame₁.size]
    exact hbound _ p hp
  rcases forLevels_spec hbump with ⟨mem₂, hloop₂, hsame₂, hinside₂, houtside₂⟩
  have hlen : (update.take (mem.size x)).length = mem.size x := by
    rw [List.length_take, hfound.1]
    omega
  have hlen' : (update.drop (mem.size x)).length = levels - mem.size x := by
    rw [List.length_drop, hfound.1]
  refine ⟨mem₁, mem₂, hloop₁, hloop₂, hsame₁.trans hsame₂, ?_, ?_⟩
  · intro i hi'
    have hlt : i < update.length := hfound.1.symm ▸ hi'
    have hget : update[i]? = some update[i] := List.getElem?_eq_getElem hlt
    rcases hfound.2 i _ hget with ⟨r, hr, hb⟩
    have hpair : update[i] = (update[i].1, UInt32.ofNat r) := by rw [← hr]
    have hcol' : Column mem.size i (mem.column i) ((header :: lo) ++ hi) := hcol i hi'
    have hnd' : ((header :: lo) ++ hi).Nodup := hnd
    have hx' : x ∉ (header :: lo) ++ hi := hx
    -- the node is linked into the levels it reaches and counted in the spans above it
    by_cases htall : i < mem.size x
    · have hkept := houtside₂ i (Or.inl htall)
      have hcol₁ := hinside₁ i update[i] (by rw [List.getElem?_take, if_pos htall, hget])
      rw [Nat.zero_add, hpair] at hcol₁
      have hlinked := hcol'.link hb hnd' hx' htall
      rw [List.length_cons, Nat.add_sub_cancel] at hlinked
      rw [hkept, hcol₁]
      exact hlinked
    · have hshort : mem.size x ≤ i := Nat.not_lt.1 htall
      have hkept := houtside₁ i (Or.inr (by rw [hlen, Nat.zero_add]; exact hshort))
      have hcol₂ := hinside₂ (i - mem.size x) update[i] (by
        rw [List.getElem?_drop, Nat.add_sub_cancel' hshort, hget])
      rw [Nat.add_sub_cancel' hshort, hkept, hpair] at hcol₂
      have hbumped := hcol'.bump hb hnd' hshort (UInt32.ofNat r)
      rw [hcol₂]
      exact hbumped
  · intro i hi'
    have hkept₁ := houtside₁ i (Or.inr (by rw [hlen]; omega))
    have hkept₂ := houtside₂ i (Or.inr (by rw [hlen']; omega))
    rw [hkept₂, hkept₁]

end Link

/-! ## Backward pointers -/

/-- Only backward pointers differ. -/
structure SameLinks (mem mem' : Memory S O A) : Prop where
  size : mem'.size = mem.size
  obj : ∀ a, (mem'.node a).obj = (mem.node a).obj
  score : ∀ a, (mem'.node a).score = (mem.node a).score
  column : ∀ i, mem'.column i = mem.column i

section Backward

variable {mem : Memory S O A} {a x : A} {b tail : Option A} {hi : List A}

omit [LinearOrder S] in
theorem writeBackward_spec (ha : 0 < mem.size a) (b : Option A) :
    ∃ mem', mem.writeBackward a b = some mem' ∧ SameLinks mem mem' ∧
      ∀ c, (mem'.node c).backward = if c = a then b else (mem.node c).backward := by
  have hnode : Function.update mem.node a { mem.node a with backward := b } = fun c =>
      { mem.node c with backward := if c = a then b else (mem.node c).backward } := by
    funext c
    by_cases hc : c = a
    · subst hc
      simp
    · simp [hc]
  have hwrite : mem.writeBackward a b = some { mem with node := fun c =>
      { mem.node c with backward := if c = a then b else (mem.node c).backward } } := by
    rw [Memory.writeBackward, if_pos ha, hnode]
  exact ⟨_, hwrite, ⟨rfl, fun _ => rfl, fun _ => rfl, fun _ => rfl⟩, fun _ => rfl⟩

omit [LinearOrder S] in
/-- The pointer back to `x` is in the next node, or is the tail. -/
theorem setBackward_spec (hx : 0 < mem.size x) (hforward : (mem.column 0 x).forward = hi.head?)
    (hlive : ∀ y ∈ hi, 0 < mem.size y) (b tail : Option A) :
    ∃ mem' tail', setBackward x b mem tail = some (mem', tail') ∧ SameLinks mem mem' ∧
      (∀ c, (mem'.node c).backward =
        if hi.head? = some c then b else (mem.node c).backward) ∧
      tail' = if hi = [] then b else tail := by
  have hread := Memory.readLevel_eq hx
  cases hi with
  | nil =>
      refine ⟨mem, b, ?_, ⟨rfl, fun _ => rfl, fun _ => rfl, fun _ => rfl⟩, by simp, by simp⟩
      simp only [setBackward, hread, Option.bind_some, hforward, List.head?_nil]
  | cons y hi =>
      rcases writeBackward_spec (hlive y (by simp)) b with ⟨mem', hwrite, hsame, hback⟩
      refine ⟨mem', tail, ?_, hsame, ?_, by simp⟩
      · simp only [setBackward, hread, Option.bind_some, hforward, List.head?_cons, hwrite,
          Option.map_some]
      · intro c
        rw [hback c]
        simp only [List.head?_cons, Option.some.injEq, eq_comm]

end Backward

/-! ## The function -/

section Insert

variable {ops : ObjectOps O} {zsl : Zskiplist S O A} {lo hi : List A} {score : S} {obj : O}

theorem zslRandomLevel_pos (hits : Nat) : 1 ≤ zslRandomLevel hits := by
  show 1 ≤ if 1 + hits < 32 then 1 + hits else 32
  split_ifs <;> omega

theorem zslRandomLevel_le (hits : Nat) : zslRandomLevel hits ≤ zskiplistMaxlevel := by
  show (if 1 + hits < 32 then 1 + hits else 32) ≤ 32
  split_ifs <;> omega

/-- What an insertion leaves: the new node holds the pair, between the nodes before it and the
others; all other nodes keep theirs. -/
structure Inserted (ops : ObjectOps O) (zsl zsl' : Zskiplist S O A) (x : A) (level : Nat)
    (score : S) (obj : O) : Prop where
  header : zsl'.header = zsl.header
  pair : ∀ a, zsl'.mem.pair a = if a = x then some (score, obj) else zsl.mem.pair a
  size : zsl'.mem.size = Function.update zsl.mem.size x level

omit [LinearOrder S] in
theorem pair_zslCreateNode (malloc : Block S O A) (level : Nat) (mem : Memory S O A) (a : A) :
    (zslCreateNode malloc level score (some obj) mem).pair a =
      if a = malloc.addr then some (score, obj) else mem.pair a := by
  by_cases ha : a = malloc.addr
  · simp [Memory.pair, zslCreateNode, ha]
  · simp [Memory.pair, zslCreateNode, ha]

omit [LinearOrder S] [DecidableEq A] in
theorem pair_congr {mem mem' : Memory S O A} (hobj : ∀ a, (mem'.node a).obj = (mem.node a).obj)
    (hscore : ∀ a, (mem'.node a).score = (mem.node a).score) (a : A) :
    mem'.pair a = mem.pair a := by
  simp only [Memory.pair, hobj, hscore]

/-- The new node stands in order. -/
theorem sorted_insert {mem mem' : Memory S O A} {x : A} (hops : ops.Total)
    (hsorted : (lo ++ hi).Pairwise (mem.NodeLess ops)) (hcut : Cut ops mem score obj lo hi)
    (hlive : ∀ a ∈ lo ++ hi, 0 < mem.size a ∧ ∃ k, mem.pair a = some k)
    (hnew : ∀ a ∈ lo ++ hi, ∀ k, mem.pair a = some k → ¬ SamePair ops k (score, obj))
    (hx : x ∉ lo ++ hi)
    (hpair : ∀ a, mem'.pair a = if a = x then some (score, obj) else mem.pair a) :
    (lo ++ x :: hi).Pairwise (mem'.NodeLess ops) := by
  have hpairx : mem'.pair x = some (score, obj) := by rw [hpair, if_pos rfl]
  have hother : ∀ a ∈ lo ++ hi, mem'.pair a = mem.pair a := by
    intro a ha
    have hne : a ≠ x := fun hax => hx (hax ▸ ha)
    rw [hpair, if_neg hne]
  have hsorted' : (lo ++ hi).Pairwise (mem'.NodeLess ops) := by
    refine hsorted.imp_of_mem ?_
    rintro a b ha hb ⟨k, k', hk, hk', hless⟩
    exact ⟨k, k', (hother a ha).trans hk, (hother b hb).trans hk', hless⟩
  have hparts := List.pairwise_append.1 hsorted'
  refine List.pairwise_append.2 ⟨hparts.1, List.pairwise_cons.2 ⟨?_, hparts.2.1⟩, ?_⟩
  · intro b hb
    have hmem : b ∈ lo ++ hi := by simp [hb]
    rcases hlive b hmem with ⟨hlive, k, hk⟩
    -- `b` is not before the pair and does not hold it, so the pair is before `b`
    have hbefore := hcut.high b hb
    rw [before_eq hlive hk] at hbefore
    have hnot : ¬ Less ops k (score, obj) := of_decide_eq_false (Option.some.inj hbefore)
    exact ⟨_, k, hpairx, (hother b hmem).trans hk,
      less_of_not_less hops hnot (hnew b hmem k hk)⟩
  · intro a ha b hb
    rcases List.mem_cons.1 hb with hbx | hb'
    · have hmem : a ∈ lo ++ hi := by simp [ha]
      rcases hlive a hmem with ⟨hlive, k, hk⟩
      have hbefore := hcut.low a ha
      rw [before_eq hlive hk] at hbefore
      exact ⟨k, _, (hother a hmem).trans hk, hbx ▸ hpairx,
        of_decide_eq_true (Option.some.inj hbefore)⟩
    · exact hparts.2.2 a ha b hb'

/-- The pointer back from the new node: to the last node before it, or nowhere. -/
theorem backward_insert {header p : A} (hnd : header ∉ lo)
    (hlast : header :: lo = (header :: lo).dropLast ++ [p]) :
    (if p = header then none else some p) = lo.getLast? := by
  -- no node before the new one, or the last of them
  cases lo using List.reverseRecOn with
  | nil =>
      have hp : header = p := by simpa using hlast
      simp [hp]
  | append_singleton lo a =>
      have hp : a = p := by
        have hlast' := congrArg List.getLast? hlast
        rw [← List.cons_append, List.getLast?_concat, List.getLast?_concat] at hlast'
        exact Option.some.inj hlast'
      have hne : p ≠ header := by
        rintro rfl
        exact hnd (by simp [hp])
      rw [if_neg hne, List.getLast?_concat, hp]

omit [DecidableEq A] in
/-- On level 0 the next node is the next of the row. -/
theorem next_zero {h : A → Nat} (hpos : ∀ a ∈ hi, 0 < h a) : next h 0 hi = hi.head? := by
  cases hi with
  | nil => rfl
  | cons y hi => exact next_cons_tall (hpos y (by simp))

omit [LinearOrder S] in
theorem column_zslCreateNode {malloc : Block S O A} {level : Nat} {mem : Memory S O A} {a : A}
    (ha : a ≠ malloc.addr) (i : Nat) :
    (zslCreateNode malloc level score (some obj) mem).column i a = mem.column i a := by
  simp [Memory.column, zslCreateNode, ha]

/-- What the loops of an insertion leave, before the backward pointers are written. -/
structure Linked (zsl : Zskiplist S O A) (mem : Memory S O A) (x : A) (level : Nat) (score : S)
    (obj : O) (lo hi : List A) : Prop where
  size : mem.size = Function.update zsl.mem.size x level
  pair : ∀ a, mem.pair a = if a = x then some (score, obj) else zsl.mem.pair a
  backward : ∀ a, a ≠ x → (mem.node a).backward = (zsl.mem.node a).backward
  column : ∀ i, i < max zsl.level level →
    Column mem.size i (mem.column i) (zsl.header :: (lo ++ x :: hi))
  above : ∀ i, max zsl.level level ≤ i → ∀ a, a ≠ x → mem.column i a = zsl.mem.column i a

theorem insert_links {fuel : Nat} {malloc : Block S O A} (hR : Rep ops zsl (lo ++ hi))
    (hcut : Cut ops zsl.mem score obj lo hi) (hfuel : lo.length < fuel)
    (hfresh : zsl.mem.size malloc.addr = 0) (hits : Nat) :
    ∃ found mem₁ mem₂ mem₃ u₀, search ops zsl.mem score obj fuel zsl.level zsl.header 0 =
        some found ∧
      forLevels (growLevel zsl.length) zsl.level
        (List.replicate (zslRandomLevel hits - zsl.level) (zsl.header, (0 : UInt32))) zsl.mem =
        some mem₁ ∧
      (found ++ List.replicate (zslRandomLevel hits - zsl.level)
        (zsl.header, (0 : UInt32))).head? = some u₀ ∧
      forLevels (linkLevel malloc.addr u₀.2) 0
        ((found ++ List.replicate (zslRandomLevel hits - zsl.level)
          (zsl.header, (0 : UInt32))).take (zslRandomLevel hits))
        (zslCreateNode malloc (zslRandomLevel hits) score (some obj) mem₁) = some mem₂ ∧
      forLevels bumpLevel (zslRandomLevel hits)
        ((found ++ List.replicate (zslRandomLevel hits - zsl.level)
          (zsl.header, (0 : UInt32))).drop (zslRandomLevel hits)) mem₂ = some mem₃ ∧
      (if u₀.1 = zsl.header then none else some u₀.1) = lo.getLast? ∧
      Linked zsl mem₃ malloc.addr (zslRandomLevel hits) score obj lo hi := by
  have hxout : malloc.addr ∉ zsl.header :: (lo ++ hi) := by
    intro hmem
    have hlive := (hR.live_iff _).2 hmem
    omega
  rcases hR.search hcut hfuel with ⟨found, hsearch, hfound⟩
  rcases grow_spec hR (zslRandomLevel_le hits) hfound with
    ⟨mem₁, hgrow, hsame₁, hfound₁, hcol₁, habove₁⟩
  generalize hupdate : found ++ List.replicate (zslRandomLevel hits - zsl.level)
    (zsl.header, (0 : UInt32)) = update at hfound₁ ⊢
  -- the new node, with whatever its memory held in its links
  generalize hmem₂ : zslCreateNode malloc (zslRandomLevel hits) score (some obj) mem₁ = mem₂
  have hsize₂ : mem₂.size = Function.update zsl.mem.size malloc.addr (zslRandomLevel hits) := by
    rw [← hsame₁.size, ← hmem₂]
    rfl
  have hsizex : mem₂.size malloc.addr = zslRandomLevel hits := by
    rw [hsize₂, Function.update_self]
  have hheights : ∀ a ∈ zsl.header :: (lo ++ hi), mem₂.size a = zsl.mem.size a := by
    intro a ha
    have hne : a ≠ malloc.addr := fun hax => hxout (hax ▸ ha)
    rw [hsize₂, Function.update_of_ne hne]
  have hheights' : ∀ a ∈ zsl.header :: lo, mem₂.size a = zsl.mem.size a := by
    intro a ha
    refine hheights a (List.mem_cons.2 ?_)
    exact (List.mem_cons.1 ha).imp_right fun h => List.mem_append_left hi h
  have hcolumn₂ : ∀ i a, a ≠ malloc.addr → mem₂.column i a = mem₁.column i a := by
    intro i a ha
    rw [← hmem₂]
    exact column_zslCreateNode ha i
  have hcol₂ : ∀ i, i < max zsl.level (zslRandomLevel hits) →
      Column mem₂.size i (mem₂.column i) (zsl.header :: (lo ++ hi)) := by
    intro i hi'
    refine (hcol₁ i hi').congr hheights ?_
    intro a ha _
    exact hcolumn₂ i a fun hax => hxout (hax ▸ ha)
  have hfound₂ := hfound₁.congr hheights'
  have hlevel : mem₂.size malloc.addr ≤ max zsl.level (zslRandomLevel hits) := by
    rw [hsizex]
    exact Nat.le_max_right _ _
  rcases link_spec hcol₂ hfound₂ hR.nodup hxout hlevel with
    ⟨mem₃, mem₄, hlink, hbump, hsame₄, hcol₄, habove₄⟩
  -- `update[0]` and `rank[0]`: the node in front of the new one, and how many are before it
  have hne : 0 < update.length := by
    rw [hfound₂.1]
    have := zslRandomLevel_pos hits
    omega
  have hget : update[0]? = some update[0] := List.getElem?_eq_getElem hne
  rcases hfound₂.2 0 _ hget with ⟨r, hr, hb⟩
  have hpos : ∀ a ∈ lo, 0 < mem₂.size a := by
    intro a ha
    rw [hheights' a (List.mem_cons_of_mem _ ha)]
    exact (hR.live_iff a).2 (by simp [ha])
  rcases bracket_zero hb hpos with ⟨hrank, hlast⟩
  have hheader : zsl.header ∉ lo := fun h =>
    (List.nodup_cons.1 hR.nodup).1 (List.mem_append_left hi h)
  rw [hsizex] at hlink hbump
  refine ⟨found, mem₁, mem₃, mem₄, update[0], hsearch, hgrow, ?_, ?_, ?_, ?_, ?_⟩
  · rw [hupdate, List.head?_eq_getElem?, hget]
  · rw [hupdate, hr, hrank, hmem₂]
    exact hlink
  · rw [hupdate]
    exact hbump
  · exact backward_insert hheader hlast
  · exact
      { size := hsame₄.size.trans hsize₂
        pair := fun a => by
          have hpair₁ := pair_congr hsame₁.obj hsame₁.score a
          rw [pair_congr hsame₄.obj hsame₄.score a, ← hmem₂, pair_zslCreateNode, hpair₁]
        backward := fun a ha => by
          have hback : (mem₂.node a).backward = (mem₁.node a).backward := by
            rw [← hmem₂]
            simp [zslCreateNode, ha]
          exact (hsame₄.backward a).trans (hback.trans (hsame₁.backward a))
        column := fun i hi' => by
          rw [hsame₄.size]
          exact hcol₄ i hi'
        above := fun i hi' a ha => by
          rw [habove₄ i hi', hcolumn₂ i a ha, habove₁ i hi'] }

omit [DecidableEq A] in
theorem getLast?_insert (x : A) (lo hi : List A) :
    (lo ++ x :: hi).getLast? = if hi = [] then some x else (lo ++ hi).getLast? := by
  cases hi with
  | nil => simp
  | cons y hi => simp [List.getLast?_append]

theorem zslInsert_spec {fuel : Nat} {malloc : Block S O A} (hops : ops.Total)
    (hR : Rep ops zsl (lo ++ hi)) (hcut : Cut ops zsl.mem score obj lo hi)
    (hfuel : lo.length < fuel) (hfresh : zsl.mem.size malloc.addr = 0)
    (hnew : ∀ a ∈ lo ++ hi, ∀ k, zsl.mem.pair a = some k → ¬ SamePair ops k (score, obj))
    (hits : Nat) :
    ∃ zsl', zslInsert ops fuel malloc hits score obj zsl = some (zsl', malloc.addr) ∧
      Inserted ops zsl zsl' malloc.addr (zslRandomLevel hits) score obj ∧
      Rep ops zsl' (lo ++ malloc.addr :: hi) := by
  rcases insert_links hR hcut hfuel hfresh hits with
    ⟨found, mem₁, mem₂, mem₃, u₀, hsearch, hgrow, hhead, hlink, hbump, hlast, hlinked⟩
  have hxout : malloc.addr ∉ zsl.header :: (lo ++ hi) := by
    intro hmem
    have hlive := (hR.live_iff _).2 hmem
    omega
  have hlive : ∀ a, 0 < mem₃.size a ↔ a = malloc.addr ∨ 0 < zsl.mem.size a := by
    intro a
    have hpos := zslRandomLevel_pos hits
    rw [hlinked.size]
    by_cases ha : a = malloc.addr
    · simp [ha]
      omega
    · simp [ha]
  have hx : 0 < mem₃.size malloc.addr := (hlive _).2 (Or.inl rfl)
  have hlivehi : ∀ y ∈ hi, 0 < mem₃.size y := fun y hy =>
    (hlive y).2 (Or.inr ((hR.live_iff y).2 (by simp [hy])))
  rcases writeBackward_spec hx (if u₀.1 = zsl.header then none else some u₀.1) with
    ⟨mem₄, hwrite, hsame₄, hback₄⟩
  have hcol₀ := hlinked.column 0 (Nat.lt_of_lt_of_le hR.level_pos (Nat.le_max_left _ _))
  have hforward : (mem₄.column 0 malloc.addr).forward = hi.head? := by
    have hcell := hcol₀ (zsl.header :: lo) malloc.addr hi (by simp) hx
    rw [hsame₄.column, hcell, cell, next_zero hlivehi]
  have hx₄ : 0 < mem₄.size malloc.addr := by rwa [hsame₄.size]
  have hlivehi₄ : ∀ y ∈ hi, 0 < mem₄.size y := by rwa [hsame₄.size]
  rcases setBackward_spec hx₄ hforward hlivehi₄ (some malloc.addr) zsl.tail with
    ⟨mem₅, tail, hset, hsame₅, hback₅, htail⟩
  have hnd : ((zsl.header :: lo) ++ malloc.addr :: hi).Nodup :=
    List.perm_middle.nodup_iff.2 (List.nodup_cons.2 ⟨hxout, hR.nodup⟩)
  have hsize : mem₅.size = Function.update zsl.mem.size malloc.addr (zslRandomLevel hits) := by
    rw [hsame₅.size, hsame₄.size, hlinked.size]
  have hpair : ∀ a, mem₅.pair a =
      if a = malloc.addr then some (score, obj) else zsl.mem.pair a := by
    intro a
    rw [pair_congr hsame₅.obj hsame₅.score a, pair_congr hsame₄.obj hsame₄.score a,
      hlinked.pair a]
  have hcolumn : ∀ i, mem₅.column i = mem₃.column i := fun i =>
    (hsame₅.column i).trans (hsame₄.column i)
  have hne : ∀ a ∈ zsl.header :: (lo ++ hi), a ≠ malloc.addr := fun a ha hax =>
    hxout (hax ▸ ha)
  have hold : ∀ a ∈ zsl.header :: (lo ++ hi), mem₅.size a = zsl.mem.size a := by
    intro a ha
    rw [hsize, Function.update_of_ne (hne a ha)]
  have hmem : ∀ a, a ∈ lo ++ malloc.addr :: hi ↔ a = malloc.addr ∨ a ∈ lo ++ hi := by
    intro a
    rw [List.perm_middle.mem_iff, List.mem_cons]
  have hresult : zslInsert ops fuel malloc hits score obj zsl =
      some ({ zsl with
        mem := mem₅
        tail := tail
        length := zsl.length + 1
        level := max zsl.level (zslRandomLevel hits) }, malloc.addr) := by
    simp only [zslInsert, hsearch, Option.bind_some, hgrow, hhead, hlink, hbump, hwrite, hset,
      Option.map_some]
  refine ⟨_, hresult, ⟨rfl, hpair, hsize⟩, ?_⟩
  exact
    { nodup := hnd
      live_iff := fun a => by
        show 0 < mem₅.size a ↔ _
        rw [hsame₅.size, hsame₄.size, hlive a, hR.live_iff a, List.mem_cons, List.mem_cons,
          hmem a, or_left_comm]
      header_size := (hold _ (by simp)).trans hR.header_size
      pairs := fun a ha => by
        show ∃ k, mem₅.pair a = some k
        rcases (hmem a).1 ha with hax | ha'
        · exact ⟨_, by rw [hpair, if_pos hax]⟩
        · rw [hpair, if_neg (hne a (by simp [ha']))]
          exact hR.pairs a ha'
      sorted := by
        refine sorted_insert hops hR.sorted hcut ?_ hnew (fun h => hxout (by simp [h])) hpair
        intro a ha
        exact ⟨(hR.live_iff a).2 (List.mem_cons_of_mem _ ha), hR.pairs a ha⟩
      level_pos := Nat.le_trans hR.level_pos (Nat.le_max_left _ _)
      level_le := Nat.max_le.2 ⟨hR.level_le, zslRandomLevel_le hits⟩
      heights := fun a ha => by
        show mem₅.size a ≤ _
        rcases (hmem a).1 ha with hax | ha'
        · rw [hsize, hax, Function.update_self]
          exact Nat.le_max_right _ _
        · rw [hold a (by simp [ha'])]
          exact Nat.le_trans (hR.heights a ha') (Nat.le_max_left _ _)
      reached := by
        show max zsl.level (zslRandomLevel hits) = 1 ∨ ∃ a ∈ lo ++ malloc.addr :: hi,
          mem₅.size a = max zsl.level (zslRandomLevel hits)
        -- the new node reaches the new level, or the node that reached the old one still does
        by_cases htall : zsl.level ≤ zslRandomLevel hits
        · refine Or.inr ⟨malloc.addr, (hmem _).2 (Or.inl rfl), ?_⟩
          rw [hsize, Function.update_self, Nat.max_eq_right htall]
        · rw [Nat.max_eq_left (Nat.le_of_not_le htall)]
          rcases hR.reached with hone | ⟨a, ha, hreach⟩
          · exact Or.inl hone
          · exact Or.inr ⟨a, (hmem a).2 (Or.inr ha), (hold a (by simp [ha])).trans hreach⟩
      column := fun i hi' => by
        have hcol := hlinked.column i hi'
        rw [← hsame₄.size, ← hsame₅.size, ← hcolumn] at hcol
        exact hcol
      above := fun i hi' hmax => by
        show (mem₅.column i zsl.header).forward = none
        rw [hcolumn, hlinked.above i hi' _ (hne _ (by simp))]
        exact hR.above i (Nat.le_trans (Nat.le_max_left _ _) hi') hmax
      back := by
        have hbackx : (mem₄.node malloc.addr).backward = lo.getLast? := by
          rw [hback₄, if_pos rfl, hlast]
        have hxhi : malloc.addr ∉ hi := fun h => hxout (by simp [h])
        refine hR.back.insert (List.nodup_cons.1 hnd).2 ?_ ?_ ?_
        · show (mem₅.node malloc.addr).backward = lo.getLast?
          rw [hback₅, if_neg (fun h => hxhi (List.mem_of_head? h)), hbackx]
        · intro y hy
          show (mem₅.node y).backward = some malloc.addr
          rw [hback₅, if_pos hy]
        · intro a hax hy
          show (mem₅.node a).backward = (zsl.mem.node a).backward
          rw [hback₅, if_neg hy, hback₄, if_neg hax, hlinked.backward a hax]
      tail := by
        show tail = _
        rw [htail, hR.tail, getLast?_insert]
      length := by
        show zsl.length + 1 = _
        have hlen : (lo ++ malloc.addr :: hi).length = (lo ++ hi).length + 1 := by
          simp only [List.length_append, List.length_cons]
          omega
        rw [hR.length, hlen, UInt64.ofNat_add]
        rfl }

end Insert

end Skiplist
end UtilsC
