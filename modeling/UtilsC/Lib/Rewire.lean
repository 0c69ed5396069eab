import UtilsC.Lib.Ring

/-!
# Rewiring rings

Every edit of a circular list makes pairs of locations neighbours.  A piece of a ring survives such
an edit when none of the pairs starts inside it or ends inside it, and the new rings are put
together from the surviving pieces and the new pairs.

* `getNext`, `setNext` and their likes look at whether the memory is live.
* `joins` makes the pairs neighbours, one after another.
* `RingFamily.merge` moves all items of one ring to a place of another, `RingFamily.cut` moves the
  items in front of a place to an empty ring, and `RingFamily.close` lets all items of a ring go.
-/

namespace UtilsC
namespace Lib

universe u v

variable {S : Type u} {A : Type v} [DecidableEq S] [DecidableEq A]

namespace LinkHeap

section Access

variable (h : LinkHeap S A)

def getNext (x : Loc S A) : Option (Loc S A) :=
  if h.live x = true then some (h.next x) else none

def getPrev (x : Loc S A) : Option (Loc S A) :=
  if h.live x = true then some (h.prev x) else none

def setNext (x y : Loc S A) : Option (LinkHeap S A) :=
  if h.live x = true then some { h with next := Function.update h.next x y } else none

def setPrev (x y : Loc S A) : Option (LinkHeap S A) :=
  if h.live x = true then some { h with prev := Function.update h.prev x y } else none

end Access

def joins (h : LinkHeap S A) (pairs : List (Loc S A × Loc S A)) : LinkHeap S A :=
  pairs.foldl (fun h pair => h.unlink pair.1 pair.2) h

variable {h : LinkHeap S A} {pairs : List (Loc S A × Loc S A)} {p q x : Loc S A}

@[simp] theorem joins_nil : h.joins [] = h := rfl

@[simp] theorem joins_cons : h.joins ((p, q) :: pairs) = (h.unlink p q).joins pairs := rfl

theorem unlink_next_of_ne (hne : x ≠ p) : (h.unlink p q).next x = h.next x :=
  Function.update_of_ne hne _ _

theorem unlink_prev_of_ne (hne : x ≠ q) : (h.unlink p q).prev x = h.prev x :=
  Function.update_of_ne hne _ _

theorem joins_live : ∀ {pairs : List (Loc S A × Loc S A)} {h : LinkHeap S A},
    (h.joins pairs).live = h.live
  | [], _ => rfl
  | (p, q) :: pairs, h => by
      rw [joins_cons, joins_live]
      rfl

theorem joins_next_of_ne : ∀ {pairs : List (Loc S A × Loc S A)} {h : LinkHeap S A},
    (∀ pair ∈ pairs, x ≠ pair.1) → (h.joins pairs).next x = h.next x
  | [], _, _ => rfl
  | (p, q) :: pairs, h, hne => by
      rw [joins_cons, joins_next_of_ne fun pair hmem => hne pair (List.mem_cons_of_mem _ hmem)]
      exact unlink_next_of_ne (hne (p, q) (by simp))

theorem joins_prev_of_ne : ∀ {pairs : List (Loc S A × Loc S A)} {h : LinkHeap S A},
    (∀ pair ∈ pairs, x ≠ pair.2) → (h.joins pairs).prev x = h.prev x
  | [], _, _ => rfl
  | (p, q) :: pairs, h, hne => by
      rw [joins_cons, joins_prev_of_ne fun pair hmem => hne pair (List.mem_cons_of_mem _ hmem)]
      exact unlink_prev_of_ne (hne (p, q) (by simp))

/-- No pair is undone by a later one. -/
theorem joins_adj : ∀ {pairs : List (Loc S A × Loc S A)} {h : LinkHeap S A},
    (pairs.map Prod.fst).Nodup → (pairs.map Prod.snd).Nodup → (p, q) ∈ pairs →
      (h.joins pairs).Adj p q
  | [], _, _, _, hmem => by simp at hmem
  | (p', q') :: pairs, h, hfst, hsnd, hmem => by
      simp only [List.map_cons, List.nodup_cons] at hfst hsnd
      rcases List.mem_cons.1 hmem with heq | hmem
      · cases heq
        rw [joins_cons]
        constructor
        · have hne : ∀ pair ∈ pairs, p ≠ pair.1 := fun pair hmem hp =>
            hfst.1 (List.mem_map.2 ⟨pair, hmem, hp.symm⟩)
          rw [joins_next_of_ne hne]
          exact Function.update_self _ _ _
        · have hne : ∀ pair ∈ pairs, q ≠ pair.2 := fun pair hmem hq =>
            hsnd.1 (List.mem_map.2 ⟨pair, hmem, hq.symm⟩)
          rw [joins_prev_of_ne hne]
          exact Function.update_self _ _ _
      · rw [joins_cons]
        exact joins_adj hfst.2 hsnd.2 hmem

/-- A piece of a ring that no pair starts or ends in. -/
theorem isChain_joins {l : List (Loc S A)} (hl : l.IsChain h.Adj)
    (hfst : ∀ pair ∈ pairs, pair.1 ∉ l.dropLast) (hsnd : ∀ pair ∈ pairs, pair.2 ∉ l.tail) :
    l.IsChain (h.joins pairs).Adj := by
  refine isChain_transport hl ?_ ?_
  · intro x hx
    exact joins_next_of_ne fun pair hmem hxp => hfst pair hmem (hxp ▸ hx)
  · intro y hy
    exact joins_prev_of_ne fun pair hmem hyp => hsnd pair hmem (hyp ▸ hy)

end LinkHeap

namespace RingFamily

open LinkHeap

variable {h : LinkHeap S A} {lists : S → List A} {s t : S} {xs ys : List A}
variable {p q f l x : Loc S A} {l₁ l₂ m m' : List (Loc S A)}

omit [DecidableEq S] [DecidableEq A] in
theorem mem_cycle_iff {zs : List A} :
    x ∈ cycle s zs ↔ x = Loc.head s ∨ ∃ a ∈ zs, x = Loc.item a := by
  simp only [cycle, List.mem_append, List.mem_cons, List.mem_map, List.not_mem_nil, or_false]
  constructor
  · rintro ((hhead | ⟨a, ha, rfl⟩) | hhead)
    · exact Or.inl hhead
    · exact Or.inr ⟨a, ha, rfl⟩
    · exact Or.inl hhead
  · rintro (hhead | ⟨a, ha, rfl⟩)
    · exact Or.inr hhead
    · exact Or.inl (Or.inr ⟨a, ha, rfl⟩)

omit [DecidableEq S] [DecidableEq A] in
/-- A location is in one ring only. -/
theorem cycle_unique (hF : RingFamily h lists) (hs : x ∈ cycle s (lists s))
    (ht : x ∈ cycle t (lists t)) : s = t := by
  rcases mem_cycle_iff.1 hs with rfl | ⟨a, ha, rfl⟩
  · rcases mem_cycle_iff.1 ht with hhead | ⟨b, _, hb⟩
    · cases hhead
      rfl
    · cases hb
  · rcases mem_cycle_iff.1 ht with hhead | ⟨b, hb, heq⟩
    · cases hhead
    · cases heq
      exact hF.disjoint s t a ha hb

/-- A ring that no pair touches. -/
theorem ring_joins (hF : RingFamily h lists) {pairs : List (Loc S A × Loc S A)}
    (hfst : ∀ pair ∈ pairs, pair.1 ∉ cycle s (lists s))
    (hsnd : ∀ pair ∈ pairs, pair.2 ∉ cycle s (lists s)) : Ring (h.joins pairs) s (lists s) := by
  refine isChain_joins (hF.ring s) ?_ ?_
  · intro pair hmem hx
    exact hfst pair hmem ((List.dropLast_sublist _).subset hx)
  · intro pair hmem hy
    exact hsnd pair hmem (List.mem_of_mem_tail hy)

omit [DecidableEq S] [DecidableEq A] in
/-- The pieces in front of a place and behind it, and the seam. -/
theorem halves (hF : RingFamily h lists) (hs : lists s = xs ++ ys)
    (hl : Loc.head s :: xs.map Loc.item = l₁ ++ [p])
    (hr : ys.map Loc.item ++ [Loc.head s] = q :: l₂) :
    (l₁ ++ [p]).IsChain h.Adj ∧ h.Adj p q ∧ (q :: l₂).IsChain h.Adj := by
  have hring := hF.ring s
  have hcycle : cycle s (lists s) = l₁ ++ p :: q :: l₂ := by
    have hassoc : cycle s (lists s) =
        (Loc.head s :: xs.map Loc.item) ++ (ys.map Loc.item ++ [Loc.head s]) := by
      simp [cycle, hs]
    rw [hassoc, hl, hr]
    simp
  rw [Ring, hcycle] at hring
  exact List.isChain_append_cons_cons.1 hring

omit [DecidableEq S] [DecidableEq A] in
/-- Items that follow each other in a list are a piece of its ring. -/
theorem isChain_items (hF : RingFamily h lists) {zs : List A} (hs : lists s = xs ++ zs ++ ys) :
    (zs.map Loc.item).IsChain h.Adj := by
  have hring := hF.ring s
  have hcycle : cycle s (lists s) = Loc.head s :: xs.map Loc.item ++ zs.map Loc.item ++
      (ys.map Loc.item ++ [Loc.head s]) := by
    simp [cycle, hs]
  rw [Ring, hcycle] at hring
  exact (List.isChain_append.1 (List.isChain_append.1 hring).1).2.1

omit [DecidableEq S] [DecidableEq A] in
theorem head_mem_cycle {zs : List A} : Loc.head s ∈ cycle s zs :=
  mem_cycle_iff.2 (Or.inl rfl)

omit [DecidableEq S] [DecidableEq A] in
theorem items_subset_cycle {zs : List A} (hx : x ∈ zs.map Loc.item) : x ∈ cycle s zs := by
  rcases List.mem_map.1 hx with ⟨a, ha, rfl⟩
  exact mem_cycle_iff.2 (Or.inr ⟨a, ha, rfl⟩)

omit [DecidableEq S] [DecidableEq A] in
theorem left_subset_cycle (hs : lists s = xs ++ ys)
    (hl : Loc.head s :: xs.map Loc.item = l₁ ++ [p]) (hx : x ∈ l₁ ++ [p]) :
    x ∈ cycle s (lists s) := by
  rw [← hl] at hx
  rw [cycle, hs]
  simp only [List.map_append, List.cons_append, List.append_assoc, List.mem_cons,
    List.mem_append] at hx ⊢
  rcases hx with hx | hx
  · exact Or.inl hx
  · exact Or.inr (Or.inl hx)

omit [DecidableEq S] [DecidableEq A] in
theorem right_subset_cycle (hs : lists s = xs ++ ys)
    (hr : ys.map Loc.item ++ [Loc.head s] = q :: l₂) (hx : x ∈ q :: l₂) :
    x ∈ cycle s (lists s) := by
  rw [← hr] at hx
  rw [cycle, hs]
  simp only [List.map_append, List.cons_append, List.append_assoc, List.mem_cons,
    List.mem_append] at hx ⊢
  exact Or.inr (Or.inr hx)

omit [DecidableEq S] [DecidableEq A] in
/-- Three pieces with two seams. -/
theorem isChain_three {R : Loc S A → Loc S A → Prop} (hleft : (l₁ ++ [p]).IsChain R)
    (hf : x :: m = m' ++ [l]) (hitems : (x :: m).IsChain R) (hright : (q :: l₂).IsChain R)
    (hpx : R p x) (hlq : R l q) : (l₁ ++ [p] ++ (x :: m) ++ q :: l₂).IsChain R := by
  have htail : ((x :: m) ++ q :: l₂).IsChain R := by
    rw [hf, List.append_assoc, List.singleton_append]
    rw [hf] at hitems
    exact List.isChain_append_cons_cons.2 ⟨hitems, hlq, hright⟩
  rw [List.append_assoc, List.append_assoc, List.singleton_append, List.cons_append]
  exact List.isChain_append_cons_cons.2 ⟨hleft, hpx, htail⟩

omit [DecidableEq S] [DecidableEq A] in
/-- Three pairs, one by one. -/
theorem forall_three {P : Loc S A × Loc S A → Prop} {a b c : Loc S A × Loc S A} (ha : P a)
    (hb : P b) (hc : P c) : ∀ pair ∈ [a, b, c], P pair := by
  intro pair hmem
  simp only [List.mem_cons, List.not_mem_nil, or_false] at hmem
  rcases hmem with rfl | rfl | rfl
  · exact ha
  · exact hb
  · exact hc

theorem merge_ring (hF : RingFamily h lists) (hst : s ≠ t) (ht : lists t = xs ++ ys)
    (hl : Loc.head t :: xs.map Loc.item = l₁ ++ [p])
    (hr : ys.map Loc.item ++ [Loc.head t] = q :: l₂) (hf : (lists s).map Loc.item = f :: m)
    (hlast : (lists s).map Loc.item = m' ++ [l]) (u : S) :
    Ring (h.joins [(p, f), (l, q), (Loc.head s, Loc.head s)]) u
      (Function.update (Function.update lists t (xs ++ lists s ++ ys)) s [] u) := by
  have hseam : Seam l₁ p q l₂ := seam_of_nodup hl hr (ht ▸ hF.nodup t)
  rcases hF.halves ht hl hr with ⟨hchainl, _, hchainr⟩
  have hitems : (f :: m).IsChain h.Adj := by
    rw [← hf]
    exact hF.isChain_items (show lists s = [] ++ lists s ++ [] by simp)
  have hnd : (f :: m).Nodup := by
    rw [← hf]
    exact (List.nodup_map_iff item_injective).2 (hF.nodup s)
  have hfl : f :: m = m' ++ [l] := hf.symm.trans hlast
  -- no location is in both rings
  have hleft : ∀ x ∈ l₁ ++ [p], x ∉ cycle s (lists s) := fun x hx hxs =>
    hst (hF.cycle_unique hxs (left_subset_cycle ht hl hx))
  have hright : ∀ x ∈ q :: l₂, x ∉ cycle s (lists s) := fun x hx hxs =>
    hst (hF.cycle_unique hxs (right_subset_cycle ht hr hx))
  have hblock : ∀ x ∈ f :: m, x ∈ cycle s (lists s) ∧ x ≠ Loc.head s := by
    intro x hx
    rw [← hf] at hx
    refine ⟨items_subset_cycle hx, ?_⟩
    rintro rfl
    simp at hx
  have hfs := hblock f (by simp)
  have hls := hblock l (by rw [hfl]; simp)
  have hps := hleft p (by simp)
  have hqs := hright q (by simp)
  have hhead : Loc.head s ∈ cycle s (lists s) := head_mem_cycle
  have hne : ∀ {x y : Loc S A}, x ∈ cycle s (lists s) → y ∉ cycle s (lists s) → x ≠ y :=
    fun hx hy hxy => hy (hxy ▸ hx)
  have hadj : ∀ {x y : Loc S A}, (x, y) ∈ [(p, f), (l, q), (Loc.head s, Loc.head s)] →
      (h.joins [(p, f), (l, q), (Loc.head s, Loc.head s)]).Adj x y := by
    intro x y hmem
    refine joins_adj ?_ ?_ hmem
    · simp [(hne hls.1 hps).symm, (hne hhead hps).symm, hls.2]
    · simp [hne hfs.1 hqs, hfs.2, (hne hhead hqs).symm]
  by_cases hus : u = s
  · subst hus
    rw [Function.update_self]
    exact List.isChain_cons_cons.2 ⟨hadj (by simp), List.isChain_singleton _⟩
  rw [Function.update_of_ne hus]
  by_cases hut : u = t
  · subst hut
    have hcycle : cycle u (xs ++ lists s ++ ys) = l₁ ++ [p] ++ (f :: m) ++ q :: l₂ := by
      rw [← hl, ← hf, ← hr]
      simp [cycle]
    rw [Function.update_self, Ring, hcycle]
    refine isChain_three ?_ hfl ?_ ?_ (hadj (by simp)) (hadj (by simp))
    · refine isChain_joins hchainl (forall_three ?_ ?_ ?_) (forall_three ?_ ?_ ?_)
      · rw [List.dropLast_concat]
        exact hseam.p_left
      · exact fun hx => hleft _ ((List.dropLast_sublist _).subset hx) hls.1
      · exact fun hx => hleft _ ((List.dropLast_sublist _).subset hx) hhead
      · exact fun hx => hleft _ (List.mem_of_mem_tail hx) hfs.1
      · exact hseam.q_left
      · exact fun hx => hleft _ (List.mem_of_mem_tail hx) hhead
    · refine isChain_joins hitems (forall_three ?_ ?_ ?_) (forall_three ?_ ?_ ?_)
      · exact fun hx => hps (hblock _ ((List.dropLast_sublist _).subset hx)).1
      · rw [hfl, List.dropLast_concat]
        rw [hfl] at hnd
        exact fun hx => (List.nodup_append.1 hnd).2.2 _ hx l (by simp) rfl
      · exact fun hx => (hblock _ ((List.dropLast_sublist _).subset hx)).2 rfl
      · exact (List.nodup_cons.1 hnd).1
      · exact fun hx => hqs (hblock _ (List.mem_of_mem_tail hx)).1
      · exact fun hx => (hblock _ (List.mem_of_mem_tail hx)).2 rfl
    · refine isChain_joins hchainr (forall_three ?_ ?_ ?_) (forall_three ?_ ?_ ?_)
      · exact hseam.p_right
      · exact fun hx => hright _ ((List.dropLast_sublist _).subset hx) hls.1
      · exact fun hx => hright _ ((List.dropLast_sublist _).subset hx) hhead
      · exact fun hx => hright _ (List.mem_of_mem_tail hx) hfs.1
      · exact hseam.q_right
      · exact fun hx => hright _ (List.mem_of_mem_tail hx) hhead
  · rw [Function.update_of_ne hut]
    have houts : ∀ {x : Loc S A}, x ∈ cycle s (lists s) → x ∉ cycle u (lists u) := fun hs hu =>
      hus (hF.cycle_unique hu hs)
    have houtt : ∀ {x : Loc S A}, x ∈ cycle t (lists t) → x ∉ cycle u (lists u) := fun ht hu =>
      hut (hF.cycle_unique hu ht)
    have hpt := left_subset_cycle ht hl (x := p) (by simp)
    have hqt := right_subset_cycle ht hr (x := q) (by simp)
    exact hF.ring_joins (forall_three (houtt hpt) (houts hls.1) (houts hhead))
      (forall_three (houts hfs.1) (houtt hqt) (houts hhead))

/-- The items of the ring of `s` go, all of them and in their order, to a place of the ring of
`t`; the ring of `s` is closed. -/
theorem merge (hF : RingFamily h lists) (hst : s ≠ t) (ht : lists t = xs ++ ys)
    (hl : Loc.head t :: xs.map Loc.item = l₁ ++ [p])
    (hr : ys.map Loc.item ++ [Loc.head t] = q :: l₂) (hf : (lists s).map Loc.item = f :: m)
    (hlast : (lists s).map Loc.item = m' ++ [l]) :
    RingFamily (h.joins [(p, f), (l, q), (Loc.head s, Loc.head s)])
      (Function.update (Function.update lists t (xs ++ lists s ++ ys)) s []) := by
  have hmem : ∀ {u : S} {a : A},
      a ∈ Function.update (Function.update lists t (xs ++ lists s ++ ys)) s [] u →
        u ≠ s ∧ (a ∈ lists u ∨ u = t ∧ a ∈ lists s) := by
    intro u a ha
    by_cases hus : u = s
    · subst hus
      simp at ha
    rw [Function.update_of_ne hus] at ha
    refine ⟨hus, ?_⟩
    by_cases hut : u = t
    · subst hut
      simp only [Function.update_self, List.mem_append] at ha
      rw [ht, List.mem_append]
      rcases ha with (ha | ha) | ha
      · exact Or.inl (Or.inl ha)
      · exact Or.inr ⟨rfl, ha⟩
      · exact Or.inl (Or.inr ha)
    · rw [Function.update_of_ne hut] at ha
      exact Or.inl ha
  refine
    { ring := hF.merge_ring hst ht hl hr hf hlast
      nodup := ?_
      disjoint := ?_
      live_head := fun u => by rw [joins_live]; exact hF.live_head u
      live_item := ?_ }
  · intro u
    by_cases hus : u = s
    · subst hus
      simp
    rw [Function.update_of_ne hus]
    by_cases hut : u = t
    · subst hut
      have hparts : (lists s ++ (xs ++ ys)).Nodup := by
        refine List.nodup_append.2 ⟨hF.nodup s, ht ▸ hF.nodup u, ?_⟩
        rintro a ha b hb rfl
        exact hst (hF.disjoint s u a ha (ht ▸ hb))
      rw [Function.update_self]
      refine (List.Perm.nodup_iff ?_).1 hparts
      rw [List.append_assoc]
      exact List.perm_append_comm_assoc _ _ _
    · rw [Function.update_of_ne hut]
      exact hF.nodup u
  · intro u u' a ha ha'
    rcases hmem ha with ⟨hus, hu | ⟨hut, hs⟩⟩
    · rcases hmem ha' with ⟨_, hu' | ⟨_, hs'⟩⟩
      · exact hF.disjoint u u' a hu hu'
      · exact absurd (hF.disjoint u s a hu hs') hus
    · rcases hmem ha' with ⟨hus', hu' | ⟨hut', _⟩⟩
      · exact absurd (hF.disjoint s u' a hs hu').symm hus'
      · exact hut.trans hut'.symm
  · intro u a ha
    rw [joins_live]
    rcases (hmem ha).2 with ha | ⟨_, ha⟩
    · exact hF.live_item u a ha
    · exact hF.live_item s a ha

theorem cut_ring (hF : RingFamily h lists) (hst : s ≠ t) (hs : lists s = xs ++ ys)
    (hr : ys.map Loc.item ++ [Loc.head s] = q :: l₂) (hf : xs.map Loc.item = f :: m)
    (hlast : xs.map Loc.item = m' ++ [l]) (u : S) :
    Ring (h.joins [(Loc.head t, f), (l, Loc.head t), (Loc.head s, q)]) u
      (Function.update (Function.update lists s ys) t xs u) := by
  have hl : Loc.head s :: xs.map Loc.item = Loc.head s :: m' ++ [l] := by
    rw [hlast]
    rfl
  have hseam : Seam (Loc.head s :: m') l q l₂ := seam_of_nodup hl hr (hs ▸ hF.nodup s)
  rcases hF.halves hs hl hr with ⟨_, _, hchainr⟩
  have hitems : (f :: m).IsChain h.Adj := by
    rw [← hf]
    exact hF.isChain_items (show lists s = [] ++ xs ++ ys from hs)
  have hparts := List.nodup_append.1 (hs ▸ hF.nodup s)
  have hnd : (f :: m).Nodup := by
    rw [← hf]
    exact (List.nodup_map_iff item_injective).2 hparts.1
  have hfl : f :: m = m' ++ [l] := hf.symm.trans hlast
  have hqm : q ∉ f :: m := by
    rw [hfl]
    exact hseam.q_left
  have hblock : ∀ x ∈ f :: m, x ∈ cycle s (lists s) ∧ ∀ v, x ≠ Loc.head v := by
    intro x hx
    rw [← hf] at hx
    refine ⟨left_subset_cycle hs hl ?_, ?_⟩
    · rw [← hl]
      exact List.mem_cons_of_mem _ hx
    · rintro v rfl
      simp at hx
  have hright : ∀ x ∈ q :: l₂, x ∈ cycle s (lists s) := fun x hx => right_subset_cycle hs hr hx
  have hheads : Loc.head s ∈ cycle s (lists s) := head_mem_cycle
  have hheadt : Loc.head t ∉ cycle s (lists s) := fun hx =>
    hst (hF.cycle_unique hx head_mem_cycle)
  have hfs := hblock f (by simp)
  have hls := hblock l (by rw [hfl]; simp)
  have hqs := hright q (by simp)
  have hqt : q ≠ Loc.head t := fun hx => hheadt (hx ▸ hqs)
  have hadj : ∀ {x y : Loc S A}, (x, y) ∈ [(Loc.head t, f), (l, Loc.head t), (Loc.head s, q)] →
      (h.joins [(Loc.head t, f), (l, Loc.head t), (Loc.head s, q)]).Adj x y := by
    intro x y hmem
    refine joins_adj ?_ ?_ hmem
    · simp [(hls.2 t).symm, hls.2 s, hst.symm]
    · have hfq : f ≠ q := fun hfq => hqm (List.mem_cons.2 (Or.inl hfq.symm))
      simp [hfs.2 t, hqt.symm, hfq]
  by_cases hut : u = t
  · subst hut
    have hcycle : cycle u xs = [] ++ [Loc.head u] ++ (f :: m) ++ [Loc.head u] := by
      rw [← hf]
      simp [cycle]
    rw [Function.update_self, Ring, hcycle]
    refine isChain_three (List.isChain_singleton _) hfl ?_ (List.isChain_singleton _)
      (hadj (by simp)) (hadj (by simp))
    refine isChain_joins hitems (forall_three ?_ ?_ ?_) (forall_three ?_ ?_ ?_)
    · exact fun hx => (hblock _ ((List.dropLast_sublist _).subset hx)).2 u rfl
    · rw [hfl, List.dropLast_concat]
      exact fun hx => hseam.p_left (List.mem_cons_of_mem _ hx)
    · exact fun hx => (hblock _ ((List.dropLast_sublist _).subset hx)).2 s rfl
    · exact (List.nodup_cons.1 hnd).1
    · exact fun hx => (hblock _ (List.mem_of_mem_tail hx)).2 u rfl
    · exact fun hx => hqm (List.mem_of_mem_tail hx)
  rw [Function.update_of_ne hut]
  by_cases hus : u = s
  · subst hus
    have hfr : f ∉ q :: l₂ := by
      rw [← hr, List.mem_append, List.mem_singleton]
      rintro (hx | hx)
      · rcases List.mem_map.1 hx with ⟨y, hy, hyf⟩
        have hfx : f ∈ xs.map Loc.item := by simp [hf]
        rcases List.mem_map.1 hfx with ⟨x, hx, hxf⟩
        exact hparts.2.2 x hx y hy (item_injective (hxf.trans hyf.symm))
      · exact hfs.2 u hx
    have hcycle : cycle u ys = Loc.head u :: q :: l₂ := by
      rw [← hr]
      rfl
    rw [Function.update_self, Ring, hcycle]
    refine List.isChain_cons_cons.2 ⟨hadj (by simp), ?_⟩
    refine isChain_joins hchainr (forall_three ?_ ?_ ?_) (forall_three ?_ ?_ ?_)
    · exact fun hx => hheadt (hright _ ((List.dropLast_sublist _).subset hx))
    · exact hseam.p_right
    · rw [← hr, List.dropLast_concat]
      simp
    · exact fun hx => hfr (List.mem_cons_of_mem _ hx)
    · exact fun hx => hheadt (hright _ (List.mem_of_mem_tail hx))
    · exact hseam.q_right
  · rw [Function.update_of_ne hus]
    have houts : ∀ {x : Loc S A}, x ∈ cycle s (lists s) → x ∉ cycle u (lists u) := fun hs hu =>
      hus (hF.cycle_unique hu hs)
    have houtt : Loc.head t ∉ cycle u (lists u) := fun hx =>
      hut (hF.cycle_unique hx head_mem_cycle)
    exact hF.ring_joins (forall_three houtt (houts hls.1) (houts hheads))
      (forall_three (houts hfs.1) houtt (houts hqs))

/-- The items in front of a place of the ring of `s` go to the ring of `t`, which was empty. -/
theorem cut (hF : RingFamily h lists) (hst : s ≠ t) (ht : lists t = []) (hs : lists s = xs ++ ys)
    (hr : ys.map Loc.item ++ [Loc.head s] = q :: l₂) (hf : xs.map Loc.item = f :: m)
    (hlast : xs.map Loc.item = m' ++ [l]) :
    RingFamily (h.joins [(Loc.head t, f), (l, Loc.head t), (Loc.head s, q)])
      (Function.update (Function.update lists s ys) t xs) := by
  have hparts := List.nodup_append.1 (hs ▸ hF.nodup s)
  have hmem : ∀ {u : S} {a : A}, a ∈ Function.update (Function.update lists s ys) t xs u →
      (u = t ∧ a ∈ xs) ∨ (u = s ∧ a ∈ ys) ∨ (u ≠ t ∧ u ≠ s ∧ a ∈ lists u) := by
    intro u a ha
    by_cases hut : u = t
    · subst hut
      rw [Function.update_self] at ha
      exact Or.inl ⟨rfl, ha⟩
    rw [Function.update_of_ne hut] at ha
    by_cases hus : u = s
    · subst hus
      rw [Function.update_self] at ha
      exact Or.inr (Or.inl ⟨rfl, ha⟩)
    · rw [Function.update_of_ne hus] at ha
      exact Or.inr (Or.inr ⟨hut, hus, ha⟩)
  have hxs : ∀ {a : A}, a ∈ xs → a ∈ lists s := fun ha => by simp [hs, ha]
  have hys : ∀ {a : A}, a ∈ ys → a ∈ lists s := fun ha => by simp [hs, ha]
  refine
    { ring := hF.cut_ring hst hs hr hf hlast
      nodup := ?_
      disjoint := ?_
      live_head := fun u => by rw [joins_live]; exact hF.live_head u
      live_item := ?_ }
  · intro u
    by_cases hut : u = t
    · subst hut
      rw [Function.update_self]
      exact hparts.1
    rw [Function.update_of_ne hut]
    by_cases hus : u = s
    · subst hus
      rw [Function.update_self]
      exact hparts.2.1
    · rw [Function.update_of_ne hus]
      exact hF.nodup u
  · intro u u' a ha ha'
    rcases hmem ha with ⟨hu, hax⟩ | ⟨hu, hay⟩ | ⟨_, hus, hau⟩
    · rcases hmem ha' with ⟨hu', _⟩ | ⟨_, hay'⟩ | ⟨_, hus', hau'⟩
      · exact hu.trans hu'.symm
      · exact absurd rfl (hparts.2.2 a hax a hay')
      · exact absurd (hF.disjoint u' s a hau' (hxs hax)) hus'
    · rcases hmem ha' with ⟨_, hax'⟩ | ⟨hu', _⟩ | ⟨_, hus', hau'⟩
      · exact absurd rfl (hparts.2.2 a hax' a hay)
      · exact hu.trans hu'.symm
      · exact absurd (hF.disjoint u' s a hau' (hys hay)) hus'
    · rcases hmem ha' with ⟨_, hax'⟩ | ⟨_, hay'⟩ | ⟨_, _, hau'⟩
      · exact absurd (hF.disjoint u s a hau (hxs hax')) hus
      · exact absurd (hF.disjoint u s a hau (hys hay')) hus
      · exact hF.disjoint u u' a hau hau'
  · intro u a ha
    rw [joins_live]
    rcases hmem ha with ⟨_, hax⟩ | ⟨_, hay⟩ | ⟨_, _, hau⟩
    · exact hF.live_item s a (hxs hax)
    · exact hF.live_item s a (hys hay)
    · exact hF.live_item u a hau

/-- Pairs of locations that carry no ring. -/
theorem joins_unlinked (hF : RingFamily h lists) {pairs : List (Loc S A × Loc S A)}
    (hpairs : ∀ pair ∈ pairs, ¬ Linked lists pair.1 ∧ ¬ Linked lists pair.2) :
    RingFamily (h.joins pairs) lists := by
  refine hF.of_linked joins_live ?_ ?_
  · exact fun x hx => joins_next_of_ne fun pair hmem heq => (hpairs pair hmem).1 (heq ▸ hx)
  · exact fun x hx => joins_prev_of_ne fun pair hmem heq => (hpairs pair hmem).2 (heq ▸ hx)

/-- The ring of `s` is closed without its items. -/
theorem close (hF : RingFamily h lists) (s : S) :
    RingFamily (h.joins [(Loc.head s, Loc.head s)]) (Function.update lists s []) := by
  have hsub : ∀ u, Function.update lists s [] u ⊆ lists u := by
    intro u
    by_cases hus : u = s
    · subst hus
      simp
    · rw [Function.update_of_ne hus]
      exact List.Subset.refl _
  refine
    { ring := ?_
      nodup := ?_
      disjoint := fun u v a hu hv => hF.disjoint u v a (hsub u hu) (hsub v hv)
      live_head := fun u => by rw [joins_live]; exact hF.live_head u
      live_item := fun u a ha => by rw [joins_live]; exact hF.live_item u a (hsub u ha) }
  · intro u
    by_cases hus : u = s
    · subst hus
      rw [Function.update_self]
      have hadj : (h.joins [(Loc.head u, Loc.head u)]).Adj (Loc.head u) (Loc.head u) :=
        joins_adj (by simp) (by simp) (by simp)
      exact List.isChain_cons_cons.2 ⟨hadj, List.isChain_singleton _⟩
    · rw [Function.update_of_ne hus]
      have hout : Loc.head s ∉ cycle u (lists u) := fun hx =>
        hus (hF.cycle_unique hx head_mem_cycle)
      exact hF.ring_joins (by simpa using hout) (by simpa using hout)
  · intro u
    by_cases hus : u = s
    · subst hus
      simp
    · rw [Function.update_of_ne hus]
      exact hF.nodup u

end RingFamily
end Lib
end UtilsC
