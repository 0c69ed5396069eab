import Mathlib.Data.List.Chain
import Mathlib.Data.List.Nodup
import Mathlib.Logic.Function.Basic

/-!
# Rings — circular doubly linked lists in a heap of links

A ring is a circular list threaded through a head and its items by two pointers a node.  The heap
of links (`LinkHeap`) says which locations are live memory and what their two pointers hold; a
location that is not live keeps whatever its pointers held last.

* `Ring h s xs`: following `next` from the head `s` visits exactly `xs`, and `prev` goes back.
* `splice` links a node in between two neighbours, `unlink` closes the gap around a node; both
  are the bare pointer writes, and neither looks at what is being linked.
* `RingFamily h lists`: several rings in one heap that share no item.  `RingFamily.unlink`,
  `RingFamily.append` and `RingFamily.prepend` say that the pointer writes, done at the right
  neighbours, are the list operations.
-/

namespace UtilsC
namespace Lib

universe u v

/-- A location that carries links: the head of a ring, or an item. -/
inductive Loc (S : Type u) (A : Type v)
  | head (s : S)
  | item (a : A)
  deriving DecidableEq

structure LinkHeap (S : Type u) (A : Type v) where
  live : Loc S A → Bool
  next : Loc S A → Loc S A
  prev : Loc S A → Loc S A

variable {S : Type u} {A : Type v} [DecidableEq S] [DecidableEq A]

namespace LinkHeap

/-- Link `n` in between `p` and `q`. -/
def splice (h : LinkHeap S A) (n p q : Loc S A) : LinkHeap S A :=
  { live := h.live
    next := Function.update (Function.update h.next n q) p n
    prev := Function.update (Function.update h.prev q n) n p }

/-- Make `p` and `q` neighbours. -/
def unlink (h : LinkHeap S A) (p q : Loc S A) : LinkHeap S A :=
  { live := h.live
    next := Function.update h.next p q
    prev := Function.update h.prev q p }

/-- Hand out the memory of an item; what its pointers hold is whatever was there. -/
def alloc (h : LinkHeap S A) (a : A) : LinkHeap S A :=
  { h with live := Function.update h.live (Loc.item a) true }

def free (h : LinkHeap S A) (a : A) : LinkHeap S A :=
  { h with live := Function.update h.live (Loc.item a) false }

/-- `a` and `b` are linked to each other, `b` after `a`. -/
def Adj (h : LinkHeap S A) (a b : Loc S A) : Prop :=
  h.next a = b ∧ h.prev b = a

end LinkHeap

open LinkHeap

/-- The locations of a ring in `next` order, back to the head. -/
def cycle (s : S) (xs : List A) : List (Loc S A) :=
  Loc.head s :: xs.map Loc.item ++ [Loc.head s]

def Ring (h : LinkHeap S A) (s : S) (xs : List A) : Prop :=
  (cycle s xs).IsChain h.Adj

/-! ## Chains of links -/

omit [DecidableEq S] [DecidableEq A] in
/-- A chain of links survives every change of the heap that leaves alone the `next` of all but
its last location and the `prev` of all but its first. -/
theorem isChain_transport {h h' : LinkHeap S A} :
    ∀ {l : List (Loc S A)}, l.IsChain h.Adj →
      (∀ x ∈ l.dropLast, h'.next x = h.next x) → (∀ y ∈ l.tail, h'.prev y = h.prev y) →
      l.IsChain h'.Adj
  | [], _, _, _ => List.isChain_nil
  | [x], _, _, _ => List.isChain_singleton x
  | x :: y :: rest, hc, hnext, hprev => by
      have hcons := List.isChain_cons_cons.1 hc
      have hxy : h'.Adj x y := by
        have hx := hnext x (by simp)
        have hy := hprev y (by simp)
        exact ⟨hx.trans hcons.1.1, hy.trans hcons.1.2⟩
      have hrest : (y :: rest).IsChain h'.Adj := by
        refine isChain_transport hcons.2 ?_ ?_
        · intro z hz
          exact hnext z (by simp [List.dropLast_cons_cons, hz])
        · intro z hz
          exact hprev z (by simpa using Or.inr hz)
      exact List.isChain_cons_cons.2 ⟨hxy, hrest⟩

/-- The place in a cycle between `p` and `q`: neither occurs where a write to `p.next` and
`q.prev` would be seen elsewhere. -/
structure Seam (l₁ : List (Loc S A)) (p q : Loc S A) (l₂ : List (Loc S A)) : Prop where
  p_left : p ∉ l₁
  p_right : p ∉ (q :: l₂).dropLast
  q_left : q ∉ (l₁ ++ [p]).tail
  q_right : q ∉ l₂

section Chains

variable {h : LinkHeap S A} {l₁ l₂ : List (Loc S A)} {p q n : Loc S A}

theorem isChain_unlink (hs : Seam l₁ p q l₂) (hl : (l₁ ++ [p]).IsChain h.Adj)
    (hr : (q :: l₂).IsChain h.Adj) : (l₁ ++ p :: q :: l₂).IsChain (h.unlink p q).Adj := by
  have hleft : (l₁ ++ [p]).IsChain (h.unlink p q).Adj := by
    refine isChain_transport hl ?_ ?_
    · intro x hx
      have hx' : x ∈ l₁ := by simpa using hx
      have hne : x ≠ p := fun hxp => hs.p_left (hxp ▸ hx')
      simp [LinkHeap.unlink, Function.update_of_ne hne]
    · intro y hy
      have hne : y ≠ q := fun hyq => hs.q_left (hyq ▸ hy)
      simp [LinkHeap.unlink, Function.update_of_ne hne]
  have hright : (q :: l₂).IsChain (h.unlink p q).Adj := by
    refine isChain_transport hr ?_ ?_
    · intro x hx
      have hne : x ≠ p := fun hxp => hs.p_right (hxp ▸ hx)
      simp [LinkHeap.unlink, Function.update_of_ne hne]
    · intro y hy
      have hy' : y ∈ l₂ := by simpa using hy
      have hne : y ≠ q := fun hyq => hs.q_right (hyq ▸ hy')
      simp [LinkHeap.unlink, Function.update_of_ne hne]
  have hseam : (h.unlink p q).Adj p q := by
    constructor <;> simp [LinkHeap.unlink]
  exact List.isChain_append_cons_cons.2 ⟨hleft, hseam, hright⟩

theorem isChain_splice (hs : Seam l₁ p q l₂) (hl : (l₁ ++ [p]).IsChain h.Adj)
    (hr : (q :: l₂).IsChain h.Adj) (hnl : n ∉ l₁ ++ [p]) (hnr : n ∉ q :: l₂) :
    (l₁ ++ p :: n :: q :: l₂).IsChain (h.splice n p q).Adj := by
  have hnp : n ≠ p := fun hnp => hnl (by simp [hnp])
  have hnq : n ≠ q := fun hnq => hnr (by simp [hnq])
  have hleft : (l₁ ++ [p]).IsChain (h.splice n p q).Adj := by
    refine isChain_transport hl ?_ ?_
    · intro x hx
      have hx' : x ∈ l₁ := by simpa using hx
      have hne : x ≠ p := fun hxp => hs.p_left (hxp ▸ hx')
      have hnn : x ≠ n := fun hxn => hnl (by simp [← hxn, hx'])
      simp [LinkHeap.splice, Function.update_of_ne hne, Function.update_of_ne hnn]
    · intro y hy
      have hne : y ≠ q := fun hyq => hs.q_left (hyq ▸ hy)
      have hnn : y ≠ n := fun hyn => hnl (hyn ▸ List.mem_of_mem_tail hy)
      simp [LinkHeap.splice, Function.update_of_ne hne, Function.update_of_ne hnn]
  have hright : (q :: l₂).IsChain (h.splice n p q).Adj := by
    refine isChain_transport hr ?_ ?_
    · intro x hx
      have hne : x ≠ p := fun hxp => hs.p_right (hxp ▸ hx)
      have hnn : x ≠ n := fun hxn => hnr (hxn ▸ (List.dropLast_sublist _).subset hx)
      simp [LinkHeap.splice, Function.update_of_ne hne, Function.update_of_ne hnn]
    · intro y hy
      have hy' : y ∈ l₂ := by simpa using hy
      have hne : y ≠ q := fun hyq => hs.q_right (hyq ▸ hy')
      have hnn : y ≠ n := fun hyn => hnr (by simp [← hyn, hy'])
      simp [LinkHeap.splice, Function.update_of_ne hne, Function.update_of_ne hnn]
  have hpn : (h.splice n p q).Adj p n := by
    constructor <;> simp [LinkHeap.splice]
  have hnq' : (h.splice n p q).Adj n q := by
    constructor
    · simp [LinkHeap.splice, Function.update_of_ne hnp]
    · simp [LinkHeap.splice, Function.update_of_ne hnq.symm]
  exact List.isChain_append_cons_cons.2
    ⟨hleft, hpn, List.isChain_cons_cons.2 ⟨hnq', hright⟩⟩

end Chains

/-! ## The two halves of a cycle -/

omit [DecidableEq S] [DecidableEq A] in
/-- The head and the items in front of a place end in some location. -/
theorem exists_left (s : S) (xs : List A) :
    ∃ l₁ p, Loc.head s :: xs.map Loc.item = l₁ ++ [p] := by
  have hne : (Loc.head s :: xs.map Loc.item : List (Loc S A)) ≠ [] := by simp
  exact ⟨_, _, (List.dropLast_append_getLast hne).symm⟩

omit [DecidableEq S] [DecidableEq A] in
/-- The items behind a place, with the head after them, start with some location. -/
theorem exists_right (s : S) (ys : List A) :
    ∃ q l₂, ys.map Loc.item ++ [Loc.head s] = q :: l₂ := by
  cases ys with
  | nil => exact ⟨Loc.head s, [], rfl⟩
  | cons y ys => exact ⟨Loc.item y, ys.map Loc.item ++ [Loc.head s], rfl⟩

section Halves

variable {s : S} {xs ys : List A} {l₁ l₂ : List (Loc S A)} {p q : Loc S A}

omit [DecidableEq S] [DecidableEq A] in
theorem item_injective : Function.Injective (Loc.item : A → Loc S A) := by
  intro a b hab
  cases hab
  rfl

omit [DecidableEq S] [DecidableEq A] in
theorem seam_of_nodup (hl : Loc.head s :: xs.map Loc.item = l₁ ++ [p])
    (hr : ys.map Loc.item ++ [Loc.head s] = q :: l₂) (hnd : (xs ++ ys).Nodup) :
    Seam l₁ p q l₂ := by
  -- each half holds a location once; the head starts the left one and ends the right one
  have hparts := List.nodup_append.1 hnd
  have hleft : (l₁ ++ [p]).Nodup := by
    rw [← hl, List.nodup_cons]
    exact ⟨by simp, (List.nodup_map_iff item_injective).2 hparts.1⟩
  have hright : (q :: l₂).Nodup := by
    rw [← hr, List.nodup_append]
    refine ⟨(List.nodup_map_iff item_injective).2 hparts.2.1, by simp, ?_⟩
    intro a ha b hb hab
    rcases List.mem_map.1 ha with ⟨x, _, rfl⟩
    have hb' : b = Loc.head s := by simpa using hb
    rw [hb'] at hab
    cases hab
  have hdrop : (q :: l₂).dropLast = ys.map Loc.item := by
    rw [← hr]
    simp
  have htail : (l₁ ++ [p]).tail = xs.map Loc.item := by
    rw [← hl]
    rfl
  constructor
  · have := (List.nodup_append.1 hleft).2.2
    intro hp
    exact this p hp p (by simp) rfl
  · rw [hdrop]
    intro hp
    rcases List.mem_map.1 hp with ⟨y, hy, hyp⟩
    have hp' : p ∈ Loc.head s :: xs.map Loc.item := by simp [hl]
    rcases List.mem_cons.1 hp' with hhead | hitem
    · rw [← hyp] at hhead
      cases hhead
    · rcases List.mem_map.1 hitem with ⟨x, hx, hxp⟩
      have hxy : x = y := item_injective (hxp.trans hyp.symm)
      exact hparts.2.2 x hx y hy hxy
  · rw [htail]
    intro hq
    rcases List.mem_map.1 hq with ⟨x, hx, hxq⟩
    have hq' : q ∈ ys.map Loc.item ++ [Loc.head s] := by simp [hr]
    rcases List.mem_append.1 hq' with hitem | hhead
    · rcases List.mem_map.1 hitem with ⟨y, hy, hyq⟩
      have hxy : x = y := item_injective (hxq.trans hyq.symm)
      exact hparts.2.2 x hx y hy hxy
    · have hq'' : q = Loc.head s := by simpa using hhead
      rw [hq''] at hxq
      cases hxq
  · exact (List.nodup_cons.1 hright).1

end Halves

/-! ## Families of rings -/

/-- Rings in one heap, one for each head, that share no item. -/
structure RingFamily (h : LinkHeap S A) (lists : S → List A) : Prop where
  ring : ∀ s, Ring h s (lists s)
  nodup : ∀ s, (lists s).Nodup
  disjoint : ∀ s t a, a ∈ lists s → a ∈ lists t → s = t
  live_head : ∀ s, h.live (Loc.head s) = true
  live_item : ∀ s, ∀ a ∈ lists s, h.live (Loc.item a) = true

namespace RingFamily

variable {h : LinkHeap S A} {lists : S → List A} {s : S} {a : A} {xs ys : List A}

omit [DecidableEq S] [DecidableEq A] in
/-- Writes that stay within the ring of `s` and the location `n` leave every other ring. -/
theorem ring_frame (hF : RingFamily h lists) {h' : LinkHeap S A} {t : S} (hts : t ≠ s)
    {M : List (Loc S A)} (hM : ∀ x ∈ M, x = Loc.head s ∨ ∃ b, x = Loc.item b ∧ b ∉ lists t)
    (hnext : ∀ x, x ∉ M → h'.next x = h.next x) (hprev : ∀ x, x ∉ M → h'.prev x = h.prev x) :
    Ring h' t (lists t) := by
  have hout : ∀ x ∈ cycle t (lists t), x ∉ M := by
    intro x hx hxM
    have hx' : x = Loc.head t ∨ ∃ c ∈ lists t, Loc.item c = x := by
      have := hx
      simp only [cycle, List.mem_append, List.mem_cons, List.mem_map, List.not_mem_nil,
        or_false] at this
      rcases this with (hh | hc) | hh
      · exact Or.inl hh
      · exact Or.inr hc
      · exact Or.inl hh
    rcases hM x hxM with hh | ⟨b, hb, hbt⟩
    · rcases hx' with hx' | ⟨c, _, hc⟩
      · rw [hh] at hx'
        cases hx'
        exact hts rfl
      · rw [hh] at hc
        cases hc
    · rcases hx' with hx' | ⟨c, hct, hc⟩
      · rw [hb] at hx'
        cases hx'
      · rw [hb] at hc
        cases hc
        exact hbt hct
  refine isChain_transport (hF.ring t) ?_ ?_
  · intro x hx
    exact hnext x (hout x ((List.dropLast_sublist _).subset hx))
  · intro y hy
    exact hprev y (hout y (List.mem_of_mem_tail hy))

omit [DecidableEq S] [DecidableEq A] in
/-- The two halves of the ring of `s` around an item, and the item's neighbours. -/
theorem split_item (hF : RingFamily h lists) (hs : lists s = xs ++ a :: ys) :
    ∃ l₁ p q l₂, Loc.head s :: xs.map Loc.item = l₁ ++ [p] ∧
      ys.map Loc.item ++ [Loc.head s] = q :: l₂ ∧ h.Adj p (Loc.item a) ∧
      h.Adj (Loc.item a) q ∧ (l₁ ++ [p]).IsChain h.Adj ∧ (q :: l₂).IsChain h.Adj := by
  rcases exists_left s xs with ⟨l₁, p, hl⟩
  rcases exists_right s ys with ⟨q, l₂, hr⟩
  have hring : (l₁ ++ p :: Loc.item a :: q :: l₂).IsChain h.Adj := by
    have hc := hF.ring s
    have hcycle : cycle s (lists s) = l₁ ++ p :: Loc.item a :: q :: l₂ := by
      have hassoc : cycle s (lists s) =
          (Loc.head s :: xs.map Loc.item) ++ Loc.item a :: (ys.map Loc.item ++ [Loc.head s]) := by
        simp [cycle, hs]
      rw [hassoc, hl, hr]
      simp
    rw [Ring, hcycle] at hc
    exact hc
  have h1 := List.isChain_append_cons_cons.1 hring
  have h2 := List.isChain_cons_cons.1 h1.2.2
  exact ⟨l₁, p, q, l₂, hl, hr, h1.2.1, h2.1, h1.1, h2.2⟩

omit [DecidableEq S] [DecidableEq A] in
/-- What the neighbour of an item is: the item in front, or the head. -/
theorem prev_item (hF : RingFamily h lists) (hs : lists s = xs ++ a :: ys) :
    Loc.head s :: xs.map Loc.item =
      (Loc.head s :: xs.map Loc.item).dropLast ++ [h.prev (Loc.item a)] := by
  rcases split_item hF hs with ⟨l₁, p, q, l₂, hl, _, hp, _, _, _⟩
  rw [hl, hp.2]
  simp

omit [DecidableEq S] [DecidableEq A] in
theorem next_item (hF : RingFamily h lists) (hs : lists s = xs ++ a :: ys) :
    ys.map Loc.item ++ [Loc.head s] =
      h.next (Loc.item a) :: (ys.map Loc.item ++ [Loc.head s]).tail := by
  rcases split_item hF hs with ⟨l₁, p, q, l₂, _, hr, _, hq, _, _⟩
  rw [hr, hq.1]
  simp

omit [DecidableEq S] [DecidableEq A] in
/-- Following `next` from the head. -/
theorem next_head (hF : RingFamily h lists) (s : S) :
    (lists s).map Loc.item ++ [Loc.head s] =
      h.next (Loc.head s) :: ((lists s).map Loc.item ++ [Loc.head s]).tail := by
  rcases exists_right s (lists s) with ⟨q, l₂, hr⟩
  have hring : (Loc.head s :: q :: l₂).IsChain h.Adj := by
    have hc := hF.ring s
    rw [Ring, cycle, List.cons_append, hr] at hc
    exact hc
  have hq := (List.isChain_cons_cons.1 hring).1.1
  rw [hr, hq]
  simp

omit [DecidableEq S] [DecidableEq A] in
/-- The last location of the ring of `s` stands in front of the head. -/
theorem adj_head (hF : RingFamily h lists) {l₁ : List (Loc S A)} {p : Loc S A}
    (hl : Loc.head s :: (lists s).map Loc.item = l₁ ++ [p]) : h.Adj p (Loc.head s) := by
  have hc := hF.ring s
  have hcycle : cycle s (lists s) = l₁ ++ p :: Loc.head s :: [] := by
    rw [cycle, hl]
    simp
  rw [Ring, hcycle] at hc
  exact (List.isChain_append_cons_cons.1 hc).2.1

omit [DecidableEq S] [DecidableEq A] in
/-- A location that is a neighbour in the ring of `s` is its head or one of its items. -/
theorem mem_of_left {l₁ : List (Loc S A)} {p : Loc S A}
    (hl : Loc.head s :: xs.map Loc.item = l₁ ++ [p]) :
    p = Loc.head s ∨ ∃ b ∈ xs, p = Loc.item b := by
  have hp : p ∈ Loc.head s :: xs.map Loc.item := by simp [hl]
  rcases List.mem_cons.1 hp with hh | hi
  · exact Or.inl hh
  · rcases List.mem_map.1 hi with ⟨b, hb, hbp⟩
    exact Or.inr ⟨b, hb, hbp.symm⟩

omit [DecidableEq S] [DecidableEq A] in
theorem mem_of_right {l₂ : List (Loc S A)} {q : Loc S A}
    (hr : ys.map Loc.item ++ [Loc.head s] = q :: l₂) :
    q = Loc.head s ∨ ∃ b ∈ ys, q = Loc.item b := by
  have hq : q ∈ ys.map Loc.item ++ [Loc.head s] := by simp [hr]
  rcases List.mem_append.1 hq with hi | hh
  · rcases List.mem_map.1 hi with ⟨b, hb, hbq⟩
    exact Or.inr ⟨b, hb, hbq.symm⟩
  · exact Or.inl (by simpa using hh)

omit [DecidableEq S] [DecidableEq A] in
/-- The items of the ring of `s` are in no other list. -/
theorem outside_of_mem (hF : RingFamily h lists) {t : S} (hts : t ≠ s) (hxs : xs ⊆ lists s)
    {x : Loc S A} (hx : x = Loc.head s ∨ ∃ b ∈ xs, x = Loc.item b) :
    x = Loc.head s ∨ ∃ b, x = Loc.item b ∧ b ∉ lists t := by
  rcases hx with hh | ⟨b, hb, hbx⟩
  · exact Or.inl hh
  · exact Or.inr ⟨b, hbx, fun hbt => hts (hF.disjoint t s b hbt (hxs hb))⟩

/-- Closing the gap around an item removes it from its list and leaves the others. -/
theorem unlink (hF : RingFamily h lists) (hs : lists s = xs ++ a :: ys) :
    RingFamily (h.unlink (h.prev (Loc.item a)) (h.next (Loc.item a)))
      (Function.update lists s (xs ++ ys)) := by
  rcases split_item hF hs with ⟨l₁, p, q, l₂, hl, hr, hp, hq, hcl, hcr⟩
  have hnd : (xs ++ a :: ys).Nodup := hs ▸ hF.nodup s
  have hsub : (xs ++ ys).Sublist (xs ++ a :: ys) :=
    List.Sublist.append_left (List.sublist_cons_self a ys) xs
  have hsubset : ∀ t, Function.update lists s (xs ++ ys) t ⊆ lists t := by
    intro t b hb
    by_cases hts : t = s
    · subst hts
      rw [Function.update_self] at hb
      rw [hs]
      exact hsub.subset hb
    · rwa [Function.update_of_ne hts] at hb
  rw [hp.2, hq.1]
  refine
    { ring := ?_
      nodup := ?_
      disjoint := ?_
      live_head := hF.live_head
      live_item := fun t b hb => hF.live_item t b (hsubset t hb) }
  · intro t
    by_cases hts : t = s
    · subst hts
      have hcycle : cycle t (xs ++ ys) = l₁ ++ p :: q :: l₂ := by
        have hassoc : cycle t (xs ++ ys) =
            (Loc.head t :: xs.map Loc.item) ++ (ys.map Loc.item ++ [Loc.head t]) := by
          simp [cycle]
        rw [hassoc, hl, hr]
        simp
      rw [Function.update_self, Ring, hcycle]
      exact isChain_unlink (seam_of_nodup hl hr (hnd.sublist hsub)) hcl hcr
    · rw [Function.update_of_ne hts]
      refine ring_frame (M := [p, q]) hF hts ?_ ?_ ?_
      · intro x hx
        have hx' : x = p ∨ x = q := by simpa using hx
        -- both neighbours belong to the ring of `s`
        rcases hx' with rfl | rfl
        · exact outside_of_mem hF hts (by simp [hs]) (mem_of_left hl)
        · exact outside_of_mem hF hts (by simp [hs]) (mem_of_right hr)
      · intro x hx
        have hne : x ≠ p := fun hxp => hx (by simp [hxp])
        simp [LinkHeap.unlink, Function.update_of_ne hne]
      · intro x hx
        have hne : x ≠ q := fun hxq => hx (by simp [hxq])
        simp [LinkHeap.unlink, Function.update_of_ne hne]
  · intro t
    by_cases hts : t = s
    · subst hts
      rw [Function.update_self]
      exact hnd.sublist hsub
    · rw [Function.update_of_ne hts]
      exact hF.nodup t
  · intro t t' b hb hb'
    exact hF.disjoint t t' b (hsubset t hb) (hsubset t' hb')

/-- Linking a free node in at a place of the ring of `s` inserts it into the list there. -/
theorem splice (hF : RingFamily h lists) {l₁ l₂ : List (Loc S A)} {p q : Loc S A}
    (hs : lists s = xs ++ ys) (hl : Loc.head s :: xs.map Loc.item = l₁ ++ [p])
    (hr : ys.map Loc.item ++ [Loc.head s] = q :: l₂) (hfree : ∀ t, a ∉ lists t)
    (hlive : h.live (Loc.item a) = true) :
    RingFamily (h.splice (Loc.item a) p q) (Function.update lists s (xs ++ a :: ys)) := by
  have hnd : (xs ++ ys).Nodup := hs ▸ hF.nodup s
  have haxs : a ∉ xs := fun ha => hfree s (by simp [hs, ha])
  have hays : a ∉ ys := fun ha => hfree s (by simp [hs, ha])
  have hring : (l₁ ++ p :: q :: l₂).IsChain h.Adj := by
    have hc := hF.ring s
    have hcycle : cycle s (lists s) = l₁ ++ p :: q :: l₂ := by
      have hassoc : cycle s (lists s) =
          (Loc.head s :: xs.map Loc.item) ++ (ys.map Loc.item ++ [Loc.head s]) := by
        simp [cycle, hs]
      rw [hassoc, hl, hr]
      simp
    rw [Ring, hcycle] at hc
    exact hc
  have hparts := List.isChain_append_cons_cons.1 hring
  have hmem : ∀ t b, b ∈ Function.update lists s (xs ++ a :: ys) t →
      b ∈ lists t ∨ (b = a ∧ t = s) := by
    intro t b hb
    by_cases hts : t = s
    · subst hts
      rw [Function.update_self] at hb
      have hb' : b ∈ xs ∨ b = a ∨ b ∈ ys := by simpa using hb
      rcases hb' with hb' | hb' | hb'
      · exact Or.inl (by simp [hs, hb'])
      · exact Or.inr ⟨hb', rfl⟩
      · exact Or.inl (by simp [hs, hb'])
    · rw [Function.update_of_ne hts] at hb
      exact Or.inl hb
  refine
    { ring := ?_
      nodup := ?_
      disjoint := ?_
      live_head := hF.live_head
      live_item := ?_ }
  · intro t
    by_cases hts : t = s
    · subst hts
      have hcycle : cycle t (xs ++ a :: ys) = l₁ ++ p :: Loc.item a :: q :: l₂ := by
        have hassoc : cycle t (xs ++ a :: ys) =
            (Loc.head t :: xs.map Loc.item) ++
              Loc.item a :: (ys.map Loc.item ++ [Loc.head t]) := by
          simp [cycle]
        rw [hassoc, hl, hr]
        simp
      have hnl : Loc.item a ∉ l₁ ++ [p] := by
        rw [← hl]
        simpa [item_injective.eq_iff] using haxs
      have hnr : Loc.item a ∉ q :: l₂ := by
        rw [← hr]
        simpa [item_injective.eq_iff] using hays
      rw [Function.update_self, Ring, hcycle]
      exact isChain_splice (seam_of_nodup hl hr hnd) hparts.1 hparts.2.2 hnl hnr
    · rw [Function.update_of_ne hts]
      refine ring_frame (M := [p, q, Loc.item a]) hF hts ?_ ?_ ?_
      · intro x hx
        have hx' : x = p ∨ x = q ∨ x = Loc.item a := by simpa using hx
        rcases hx' with rfl | rfl | rfl
        · exact outside_of_mem hF hts (by simp [hs]) (mem_of_left hl)
        · exact outside_of_mem hF hts (by simp [hs]) (mem_of_right hr)
        · exact Or.inr ⟨a, rfl, hfree t⟩
      · intro x hx
        have hne : x ≠ p := fun hxp => hx (by simp [hxp])
        have hna : x ≠ Loc.item a := fun hxa => hx (by simp [hxa])
        simp [LinkHeap.splice, Function.update_of_ne hne, Function.update_of_ne hna]
      · intro x hx
        have hne : x ≠ q := fun hxq => hx (by simp [hxq])
        have hna : x ≠ Loc.item a := fun hxa => hx (by simp [hxa])
        simp [LinkHeap.splice, Function.update_of_ne hne, Function.update_of_ne hna]
  · intro t
    by_cases hts : t = s
    · subst hts
      rw [Function.update_self]
      have hcons : (a :: (xs ++ ys)).Nodup := List.nodup_cons.2 ⟨by simp [haxs, hays], hnd⟩
      exact (List.perm_middle.nodup_iff).2 hcons
    · rw [Function.update_of_ne hts]
      exact hF.nodup t
  · intro t t' b hb hb'
    -- only `a` is new, and it was in no list
    rcases hmem t b hb with hbt | ⟨hba, hts⟩
    · rcases hmem t' b hb' with hbt' | ⟨hba, _⟩
      · exact hF.disjoint t t' b hbt hbt'
      · exact absurd (hba ▸ hbt) (hfree t)
    · rcases hmem t' b hb' with hbt' | ⟨_, hts'⟩
      · exact absurd (hba ▸ hbt') (hfree t')
      · rw [hts, hts']
  · intro t b hb
    rcases hmem t b hb with hbt | ⟨hba, _⟩
    · exact hF.live_item t b hbt
    · rw [hba]
      exact hlive

/-- Linking a free node in before the head appends it. -/
theorem append (hF : RingFamily h lists) (hfree : ∀ t, a ∉ lists t)
    (hlive : h.live (Loc.item a) = true) :
    RingFamily (h.splice (Loc.item a) (h.prev (Loc.head s)) (Loc.head s))
      (Function.update lists s (lists s ++ [a])) := by
  rcases exists_left s (lists s) with ⟨l₁, p, hl⟩
  have hp : h.prev (Loc.head s) = p := (adj_head hF hl).2
  have hr : ([] : List A).map Loc.item ++ [Loc.head s] = Loc.head s :: ([] : List (Loc S A)) := rfl
  have hs : lists s = lists s ++ [] := by simp
  have hspl := splice hF hs hl hr hfree hlive
  rw [hp]
  simpa using hspl

/-- Linking a free node in after the head prepends it. -/
theorem prepend (hF : RingFamily h lists) (hfree : ∀ t, a ∉ lists t)
    (hlive : h.live (Loc.item a) = true) :
    RingFamily (h.splice (Loc.item a) (Loc.head s) (h.next (Loc.head s)))
      (Function.update lists s (a :: lists s)) := by
  have hl : Loc.head s :: ([] : List A).map Loc.item = [] ++ [(Loc.head s : Loc S A)] := rfl
  have hs : lists s = [] ++ lists s := by simp
  have hspl := splice hF hs hl (next_head hF s) hfree hlive
  simpa using hspl

/-! ### By name of the item

The same edits for callers that know an item's list but not its position in it. -/

/-- Where a walk over `xs` that ends at the head `s` starts. -/
def first (s : S) : List A → Loc S A
  | [] => Loc.head s
  | a :: _ => Loc.item a

omit [DecidableEq S] [DecidableEq A] in
@[simp] theorem first_nil (s : S) : first s ([] : List A) = Loc.head s := rfl

omit [DecidableEq S] [DecidableEq A] in
@[simp] theorem first_cons (s : S) (a : A) (xs : List A) : first s (a :: xs) = Loc.item a := rfl

omit [DecidableEq S] [DecidableEq A] in
theorem first_eq_of_cons {q : Loc S A} {l : List (Loc S A)}
    (hq : ys.map Loc.item ++ [Loc.head s] = q :: l) : q = first s ys := by
  cases ys with
  | nil =>
      have hcons : Loc.head s = q ∧ [] = l := by simpa using hq
      exact hcons.1.symm
  | cons y ys =>
      have hcons : Loc.item y = q ∧ ys.map Loc.item ++ [Loc.head s] = l := by simpa using hq
      exact hcons.1.symm

omit [DecidableEq S] [DecidableEq A] in
theorem next_head_eq (hF : RingFamily h lists) (s : S) :
    h.next (Loc.head s) = first s (lists s) :=
  first_eq_of_cons (next_head hF s)

omit [DecidableEq S] [DecidableEq A] in
theorem next_item_eq (hF : RingFamily h lists) (hs : lists s = xs ++ a :: ys) :
    h.next (Loc.item a) = first s ys :=
  first_eq_of_cons (next_item hF hs)

omit [DecidableEq S] [DecidableEq A] in
theorem live_first (hF : RingFamily h lists) (hys : ys ⊆ lists s) :
    h.live (first s ys) = true := by
  cases ys with
  | nil => exact hF.live_head s
  | cons y ys => exact hF.live_item s y (hys (by simp))

omit [DecidableEq S] [DecidableEq A] in
theorem live_next (hF : RingFamily h lists) (ha : a ∈ lists s) :
    h.live (h.next (Loc.item a)) = true := by
  rcases List.append_of_mem ha with ⟨xs, ys, hs⟩
  rw [next_item_eq hF hs]
  refine live_first hF ?_
  intro b hb
  simp [hs, hb]

omit [DecidableEq S] [DecidableEq A] in
theorem live_prev (hF : RingFamily h lists) (ha : a ∈ lists s) :
    h.live (h.prev (Loc.item a)) = true := by
  rcases List.append_of_mem ha with ⟨xs, ys, hs⟩
  rcases mem_of_left (prev_item hF hs) with hh | ⟨b, hb, hbp⟩
  · rw [hh]
    exact hF.live_head s
  · rw [hbp]
    exact hF.live_item s b (by simp [hs, hb])

omit [DecidableEq S] [DecidableEq A] in
theorem live_prev_head (hF : RingFamily h lists) (s : S) :
    h.live (h.prev (Loc.head s)) = true := by
  rcases exists_left s (lists s) with ⟨l₁, p, hl⟩
  rw [(adj_head hF hl).2]
  rcases mem_of_left hl with hh | ⟨b, hb, hbp⟩
  · rw [hh]
    exact hF.live_head s
  · rw [hbp]
    exact hF.live_item s b hb

omit [DecidableEq S] in
theorem erase_eq_of_split (hF : RingFamily h lists) (hs : lists s = xs ++ a :: ys) :
    (lists s).erase a = xs ++ ys := by
  have hnd : (xs ++ a :: ys).Nodup := hs ▸ hF.nodup s
  have haxs : a ∉ xs := by
    intro ha
    exact (List.nodup_append.1 hnd).2.2 a ha a (by simp) rfl
  rw [hs, List.erase_append_right _ haxs, List.erase_cons_head]

theorem unlink_erase (hF : RingFamily h lists) (ha : a ∈ lists s) :
    RingFamily (h.unlink (h.prev (Loc.item a)) (h.next (Loc.item a)))
      (fun t => (lists t).erase a) := by
  rcases List.append_of_mem ha with ⟨xs, ys, hs⟩
  have hlists : Function.update lists s (xs ++ ys) = fun t => (lists t).erase a := by
    funext t
    by_cases hts : t = s
    · subst hts
      rw [Function.update_self, erase_eq_of_split hF hs]
    · have hat : a ∉ lists t := fun hat => hts (hF.disjoint t s a hat ha)
      rw [Function.update_of_ne hts, List.erase_of_not_mem hat]
  exact hlists ▸ unlink hF hs

omit [DecidableEq S] in
theorem not_mem_erase (hF : RingFamily h lists) (t : S) : a ∉ (lists t).erase a :=
  (hF.nodup t).not_mem_erase

omit [DecidableEq S] [DecidableEq A] in
/-- A change of the live memory that takes no head and no linked item away. -/
theorem of_live (hF : RingFamily h lists) {h' : LinkHeap S A} (hnext : h'.next = h.next)
    (hprev : h'.prev = h.prev) (hhead : ∀ s, h'.live (Loc.head s) = true)
    (hitem : ∀ s, ∀ a ∈ lists s, h'.live (Loc.item a) = true) : RingFamily h' lists := by
  have hadj : h'.Adj = h.Adj := by
    funext x y
    simp [LinkHeap.Adj, hnext, hprev]
  refine
    { ring := ?_
      nodup := hF.nodup
      disjoint := hF.disjoint
      live_head := hhead
      live_item := hitem }
  intro s
  have hring := hF.ring s
  rwa [Ring, hadj]

theorem alloc (hF : RingFamily h lists) (a : A) : RingFamily (h.alloc a) lists := by
  refine hF.of_live rfl rfl ?_ ?_
  · intro s
    simpa [LinkHeap.alloc] using hF.live_head s
  · intro s b hb
    have hlive := hF.live_item s b hb
    by_cases hba : b = a
    · simp [LinkHeap.alloc, hba]
    · simpa [LinkHeap.alloc, Function.update_apply, hba] using hlive

theorem free (hF : RingFamily h lists) (hfree : ∀ t, a ∉ lists t) :
    RingFamily (h.free a) lists := by
  refine hF.of_live rfl rfl ?_ ?_
  · intro s
    simpa [LinkHeap.free] using hF.live_head s
  · intro s b hb
    have hlive := hF.live_item s b hb
    have hba : b ≠ a := fun hba => hfree s (hba ▸ hb)
    simpa [LinkHeap.free, Function.update_apply, hba] using hlive

omit [DecidableEq S] [DecidableEq A] in
/-- The links determine the list. -/
theorem walk_unique : ∀ {xs ys : List A} {p : Loc S A},
    (p :: (xs.map Loc.item ++ [Loc.head s])).IsChain h.Adj →
      (p :: (ys.map Loc.item ++ [Loc.head s])).IsChain h.Adj → xs = ys
  | [], [], _, _, _ => rfl
  | [], y :: ys, p, hx, hy => by
      have hxp := (List.isChain_cons_cons.1 hx).1.1
      have hyp := (List.isChain_cons_cons.1 hy).1.1
      rw [hxp] at hyp
      cases hyp
  | x :: xs, [], p, hx, hy => by
      have hxp := (List.isChain_cons_cons.1 hx).1.1
      have hyp := (List.isChain_cons_cons.1 hy).1.1
      rw [hxp] at hyp
      cases hyp
  | x :: xs, y :: ys, p, hx, hy => by
      have hx' := List.isChain_cons_cons.1 hx
      have hy' := List.isChain_cons_cons.1 hy
      have hxy : (Loc.item x : Loc S A) = Loc.item y := hx'.1.1.symm.trans hy'.1.1
      cases hxy
      rw [walk_unique hx'.2 hy'.2]

omit [DecidableEq S] [DecidableEq A] in
theorem unique {lists' : S → List A} (hF : RingFamily h lists) (hF' : RingFamily h lists') :
    lists = lists' := by
  funext s
  exact walk_unique (hF.ring s) (hF'.ring s)

omit [DecidableEq S] [DecidableEq A] in
/-- A linked item and its neighbours point at each other. -/
theorem adj_item (hF : RingFamily h lists) (ha : a ∈ lists s) :
    h.next (h.prev (Loc.item a)) = Loc.item a ∧ h.prev (h.next (Loc.item a)) = Loc.item a := by
  rcases List.append_of_mem ha with ⟨xs, ys, hs⟩
  rcases split_item hF hs with ⟨l₁, p, q, l₂, _, _, hp, hq, _, _⟩
  rw [hp.2, hq.1]
  exact ⟨hp.1, hq.2⟩

/-! ### Closing a gap between any two locations

What `unlink p q` does when `p` and `q` are not the neighbours of one linked item. -/

/-- The location carries a ring: it is a head or a linked item. -/
def Linked (lists : S → List A) : Loc S A → Prop
  | Loc.head _ => True
  | Loc.item a => ∃ s, a ∈ lists s

omit [DecidableEq S] [DecidableEq A] in
theorem linked_of_left {l₁ : List (Loc S A)} {p : Loc S A} (hxs : xs ⊆ lists s)
    (hl : Loc.head s :: xs.map Loc.item = l₁ ++ [p]) : Linked lists p := by
  rcases mem_of_left hl with hh | ⟨b, hb, hbp⟩
  · rw [hh]
    exact True.intro
  · rw [hbp]
    exact ⟨s, hxs hb⟩

omit [DecidableEq S] [DecidableEq A] in
theorem linked_first (hys : ys ⊆ lists s) : Linked lists (first s ys) := by
  cases ys with
  | nil => exact True.intro
  | cons y ys => exact ⟨s, hys (by simp)⟩

omit [DecidableEq S] [DecidableEq A] in
theorem adj_next_head (hF : RingFamily h lists) (s : S) :
    h.Adj (Loc.head s) (first s (lists s)) := by
  have hc := hF.ring s
  rw [Ring, cycle, List.cons_append, next_head hF s] at hc
  have hadj := (List.isChain_cons_cons.1 hc).1
  rwa [next_head_eq hF s] at hadj

omit [DecidableEq S] [DecidableEq A] in
theorem adj_prev_head (hF : RingFamily h lists) (s : S) :
    ∃ p, h.Adj p (Loc.head s) ∧ Linked lists p := by
  rcases exists_left s (lists s) with ⟨l₁, p, hl⟩
  exact ⟨p, adj_head hF hl, linked_of_left (fun _ hb => hb) hl⟩

omit [DecidableEq S] [DecidableEq A] in
/-- The successor of a linked location is linked, and points back. -/
theorem linked_next (hF : RingFamily h lists) {x : Loc S A} (hx : Linked lists x) :
    h.prev (h.next x) = x ∧ Linked lists (h.next x) := by
  cases x with
  | head s =>
      have hadj := adj_next_head hF s
      rw [hadj.1]
      exact ⟨hadj.2, linked_first (fun _ hb => hb)⟩
  | item a =>
      rcases hx with ⟨s, ha⟩
      refine ⟨(adj_item hF ha).2, ?_⟩
      rcases List.append_of_mem ha with ⟨xs, ys, hs⟩
      rw [next_item_eq hF hs]
      exact linked_first fun b hb => by simp [hs, hb]

omit [DecidableEq S] [DecidableEq A] in
theorem linked_prev (hF : RingFamily h lists) {x : Loc S A} (hx : Linked lists x) :
    h.next (h.prev x) = x ∧ Linked lists (h.prev x) := by
  cases x with
  | head s =>
      rcases adj_prev_head hF s with ⟨p, hadj, hp⟩
      rw [hadj.2]
      exact ⟨hadj.1, hp⟩
  | item a =>
      rcases hx with ⟨s, ha⟩
      refine ⟨(adj_item hF ha).1, ?_⟩
      rcases List.append_of_mem ha with ⟨xs, ys, hs⟩
      exact linked_of_left (fun b hb => by simp [hs, hb]) (prev_item hF hs)

omit [DecidableEq S] [DecidableEq A] in
theorem linked_of_mem_cycle {x : Loc S A} (hx : x ∈ cycle s (lists s)) : Linked lists x := by
  simp only [cycle, List.mem_append, List.mem_cons, List.mem_map, List.not_mem_nil,
    or_false] at hx
  rcases hx with (hh | ⟨a, ha, hax⟩) | hh
  · rw [hh]
    exact True.intro
  · rw [← hax]
    exact ⟨s, ha⟩
  · rw [hh]
    exact True.intro

omit [DecidableEq S] [DecidableEq A] in
/-- Writes to locations that carry no ring. -/
theorem of_linked (hF : RingFamily h lists) {h' : LinkHeap S A} (hlive : h'.live = h.live)
    (hnext : ∀ x, Linked lists x → h'.next x = h.next x)
    (hprev : ∀ x, Linked lists x → h'.prev x = h.prev x) : RingFamily h' lists := by
  refine
    { ring := ?_
      nodup := hF.nodup
      disjoint := hF.disjoint
      live_head := fun s => hlive ▸ hF.live_head s
      live_item := fun s a ha => hlive ▸ hF.live_item s a ha }
  intro s
  refine isChain_transport (hF.ring s) ?_ ?_
  · intro x hx
    exact hnext x (linked_of_mem_cycle ((List.dropLast_sublist _).subset hx))
  · intro x hx
    exact hprev x (linked_of_mem_cycle (List.mem_of_mem_tail hx))

theorem unlink_unlinked (hF : RingFamily h lists) {p q : Loc S A} (hp : ¬ Linked lists p)
    (hq : ¬ Linked lists q) : RingFamily (h.unlink p q) lists := by
  refine hF.of_linked rfl ?_ ?_
  · intro x hx
    have hne : x ≠ p := fun hxp => hp (hxp ▸ hx)
    simp [LinkHeap.unlink, Function.update_of_ne hne]
  · intro x hx
    have hne : x ≠ q := fun hxq => hq (hxq ▸ hx)
    simp [LinkHeap.unlink, Function.update_of_ne hne]

theorem unlink_adj {p q : Loc S A} (hadj : h.Adj p q) : h.unlink p q = h := by
  rcases hadj with ⟨hnext, hprev⟩
  cases h
  simp only [LinkHeap.unlink, LinkHeap.mk.injEq, true_and]
  exact ⟨Function.update_eq_self_iff.2 hnext.symm, Function.update_eq_self_iff.2 hprev.symm⟩

/-- Once a linked location is written to, the rings survive only if nothing was changed. -/
theorem adj_of_unlink (hF : RingFamily h lists) {h' : LinkHeap S A} {lists' : S → List A}
    {p q : Loc S A} (hnext : h'.next = (h.unlink p q).next)
    (hprev : h'.prev = (h.unlink p q).prev) (hF' : RingFamily h' lists')
    (hsub : ∀ s, lists s ⊆ lists' s) (hpq : Linked lists p ∨ Linked lists q) : h.Adj p q := by
  have hlift : ∀ x, Linked lists x → Linked lists' x := by
    intro x hx
    cases x with
    | head s => exact True.intro
    | item a =>
        rcases hx with ⟨s, ha⟩
        exact ⟨s, hsub s ha⟩
  have hp' : h'.next p = q := by
    rw [hnext]
    exact Function.update_self _ _ _
  have hq' : h'.prev q = p := by
    rw [hprev]
    exact Function.update_self _ _ _
  rcases hpq with hp | hq
  · have hsucc := linked_next hF hp
    by_cases hr : h.next p = q
    · exact ⟨hr, hr ▸ hsucc.1⟩
    · -- the old successor of `p` would still point back to `p`
      have hback : h'.prev (h.next p) = p := by
        rw [hprev]
        exact (Function.update_of_ne hr _ _).trans hsucc.1
      have hring := (linked_prev hF' (hlift _ hsucc.2)).1
      rw [hback, hp'] at hring
      exact absurd hring.symm hr
  · have hpred := linked_prev hF hq
    by_cases hr : h.prev q = p
    · exact ⟨hr ▸ hpred.1, hr⟩
    · have hforth : h'.next (h.prev q) = q := by
        rw [hnext]
        exact (Function.update_of_ne hr _ _).trans hpred.1
      -- the old predecessor of `q` would still point to `q`
      have hring := (linked_next hF' (hlift _ hpred.2)).1
      rw [hforth, hq'] at hring
      exact absurd hring.symm hr

end RingFamily

end Lib
end UtilsC
