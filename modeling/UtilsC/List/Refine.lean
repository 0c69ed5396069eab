import UtilsC.List.Operations

/-!
# The functions of list.h keep the lists

A call makes a few pairs of locations neighbours (`Edit`).  What it is given decides where: behind a
location or in front of it (`place_after`, `place_before`).  The entries that the call is not about
and that are on no list keep their links.

* One `Edit` for each function: `listDel_edit`, `listAdd_edit`, `listReplace_edit`, …
* `represents_call` is one call, `list_calls` any sequence of calls.
-/

namespace UtilsC
namespace ListHead

open Lib LinkHeap

variable {S A : Type} [DecidableEq S] [DecidableEq A]

/-! ## Places in the lists -/

section Places

variable {h : LinkHeap S A} {lists lists' lists'' : S → List A} {s t : S} {a b : A}
  {p q x : Loc S A} {xs ys zs : List A}

/-- A place in the ring of `s`, in front of `ys`. -/
structure Place (lists : S → List A) (s : S) (xs ys : List A) (l₁ : List (Loc S A))
    (p q : Loc S A) (l₂ : List (Loc S A)) : Prop where
  split : lists s = xs ++ ys
  left : Loc.head s :: xs.map Loc.item = l₁ ++ [p]
  right : ys.map Loc.item ++ [Loc.head s] = q :: l₂

omit [DecidableEq S] in
theorem flatMap_of_not_mem {g : A → List A} (hb : b ∉ zs) :
    (zs.flatMap fun a => if a = b then g a else [a]) = zs := by
  induction zs with
  | nil => rfl
  | cons z zs ih =>
      have hzb : z ≠ b := fun hzb => hb (by simp [hzb])
      rw [List.flatMap_cons, if_neg hzb, ih fun hmem => hb (List.mem_cons_of_mem _ hmem)]
      rfl

theorem flatMap_item (hF : RingFamily h lists) (hs : lists s = xs ++ b :: ys) (g : A → List A) :
    (fun t => (lists t).flatMap fun a => if a = b then g a else [a]) =
      Function.update lists s (xs ++ g b ++ ys) := by
  have hnd : (xs ++ b :: ys).Nodup := hs ▸ hF.nodup s
  rcases List.nodup_append.1 hnd with ⟨_, hcons, hdisj⟩
  have hbxs : b ∉ xs := fun hb => hdisj b hb b (by simp) rfl
  funext t
  by_cases hts : t = s
  · subst hts
    rw [Function.update_self, hs, List.flatMap_append, List.flatMap_cons, if_pos rfl,
      flatMap_of_not_mem hbxs, flatMap_of_not_mem (List.nodup_cons.1 hcons).1, List.append_assoc]
  · have hbt : b ∉ lists t := fun hbt => hts (hF.disjoint t s b hbt (by simp [hs]))
    rw [Function.update_of_ne hts, flatMap_of_not_mem hbt]

theorem place_after (hF : RingFamily h lists) (hp : RingFamily.Linked lists p) :
    ∃ s xs ys l₁ q l₂, Place lists s xs ys l₁ p q l₂ ∧
      ∀ zs, insertAfter lists zs p = Function.update lists s (xs ++ zs ++ ys) := by
  cases p with
  | head s =>
      rcases exists_right s (lists s) with ⟨q, l₂, hr⟩
      exact ⟨s, [], lists s, [], q, l₂, ⟨rfl, rfl, hr⟩, fun zs => rfl⟩
  | item b =>
      rcases hp with ⟨s, hb⟩
      rcases List.append_of_mem hb with ⟨xs, ys, hs⟩
      rcases exists_right s ys with ⟨q, l₂, hr⟩
      refine ⟨s, xs ++ [b], ys, Loc.head s :: xs.map Loc.item, q, l₂, ⟨?_, ?_, hr⟩, fun zs => ?_⟩
      · rw [hs, List.append_assoc, List.singleton_append]
      · simp
      · have hflat := flatMap_item hF hs fun a => a :: zs
        rw [insertAfter, hflat]
        simp

theorem place_before (hF : RingFamily h lists) (hq : RingFamily.Linked lists q) :
    ∃ s xs ys l₁ p l₂, Place lists s xs ys l₁ p q l₂ ∧
      ∀ zs, insertBefore lists zs q = Function.update lists s (xs ++ zs ++ ys) := by
  cases q with
  | head s =>
      rcases exists_left s (lists s) with ⟨l₁, p, hl⟩
      refine ⟨s, lists s, [], l₁, p, [], ⟨by simp, hl, rfl⟩, fun zs => ?_⟩
      rw [insertBefore, List.append_nil]
  | item b =>
      rcases hq with ⟨s, hb⟩
      rcases List.append_of_mem hb with ⟨xs, ys, hs⟩
      rcases exists_left s xs with ⟨l₁, p, hl⟩
      refine ⟨s, xs, b :: ys, l₁, p, ys.map Loc.item ++ [Loc.head s], ⟨hs, hl, rfl⟩, fun zs => ?_⟩
      have hflat := flatMap_item hF hs fun a => zs ++ [a]
      rw [insertBefore, hflat]
      simp

omit [DecidableEq S] [DecidableEq A] in
theorem live_of_linked (hF : RingFamily h lists) (hx : RingFamily.Linked lists x) :
    h.live x = true := by
  cases x with
  | head s => exact hF.live_head s
  | item a =>
      rcases hx with ⟨s, ha⟩
      exact hF.live_item s a ha

section Place

variable {l₁ l₂ : List (Loc S A)}

omit [DecidableEq S] [DecidableEq A] in
theorem Place.adj (hP : Place lists s xs ys l₁ p q l₂) (hF : RingFamily h lists) : h.Adj p q :=
  (hF.halves hP.split hP.left hP.right).2.1

omit [DecidableEq S] [DecidableEq A] in
theorem Place.linked_left (hP : Place lists s xs ys l₁ p q l₂) : RingFamily.Linked lists p :=
  RingFamily.linked_of_left (by simp [hP.split]) hP.left

omit [DecidableEq S] [DecidableEq A] in
theorem Place.linked_right (hP : Place lists s xs ys l₁ p q l₂) : RingFamily.Linked lists q := by
  rw [RingFamily.first_eq_of_cons hP.right]
  exact RingFamily.linked_first (by simp [hP.split])

end Place

/-! ## Edits -/

/-- The location is part of a ring or among the entries of the call. -/
def Within (lists : S → List A) (ops : List A) (x : Loc S A) : Prop :=
  ∀ b, x = Loc.item b → b ∈ ops ∨ ∃ s, b ∈ lists s

omit [DecidableEq S] [DecidableEq A] in
theorem within_of_linked {ops : List A} (hx : RingFamily.Linked lists x) :
    Within lists ops x := by
  rintro b rfl
  exact Or.inr hx

omit [DecidableEq S] [DecidableEq A] in
theorem within_of_mem {ops : List A} (ha : a ∈ ops) : Within lists ops (Loc.item a) := by
  intro b hb
  cases hb
  exact Or.inl ha

/-- The rings change; an entry that is neither on a list nor among `ops` is left alone. -/
structure Edit (h : LinkHeap S A) (lists : S → List A) (ops : List A) (h' : LinkHeap S A)
    (lists' : S → List A) : Prop where
  family : RingFamily h' lists'
  live : h'.live = h.live
  frame : ∀ b, b ∉ ops → (∀ s, b ∉ lists s) →
    h'.next (Loc.item b) = h.next (Loc.item b) ∧ h'.prev (Loc.item b) = h.prev (Loc.item b) ∧
      ∀ s, b ∉ lists' s

theorem Edit.of_joins {ops : List A} {pairs : List (Loc S A × Loc S A)}
    (hF : RingFamily (h.joins pairs) lists')
    (hpairs : ∀ pair ∈ pairs, Within lists ops pair.1 ∧ Within lists ops pair.2)
    (hsub : ∀ s, ∀ b ∈ lists' s, b ∈ ops ∨ ∃ t, b ∈ lists t) :
    Edit h lists ops (h.joins pairs) lists' where
  family := hF
  live := joins_live
  frame := by
    intro b hops hout
    have hnot : ¬ (b ∈ ops ∨ ∃ s, b ∈ lists s) := by
      rintro (hb | ⟨s, hb⟩)
      · exact hops hb
      · exact hout s hb
    refine ⟨joins_next_of_ne ?_, joins_prev_of_ne ?_, fun s hb => hnot (hsub s b hb)⟩
    · exact fun pair hmem heq => hnot ((hpairs pair hmem).1 b heq.symm)
    · exact fun pair hmem heq => hnot ((hpairs pair hmem).2 b heq.symm)

omit [DecidableEq S] [DecidableEq A] in
theorem Edit.trans {ops : List A} {h' h'' : LinkHeap S A} (hE : Edit h lists ops h' lists')
    (hE' : Edit h' lists' ops h'' lists'') : Edit h lists ops h'' lists'' where
  family := hE'.family
  live := hE'.live.trans hE.live
  frame := by
    intro b hops hout
    rcases hE.frame b hops hout with ⟨hnext, hprev, hout'⟩
    rcases hE'.frame b hops hout' with ⟨hnext', hprev', hout''⟩
    exact ⟨hnext'.trans hnext, hprev'.trans hprev, hout''⟩

omit [DecidableEq S] [DecidableEq A] in
theorem Represents.of_edit {m : Lists S A} {h' : LinkHeap S A} {ops : List A}
    (hR : Represents h m) (m' : Lists S A) (hE : Edit h m.lists ops h' m'.lists)
    (hlive : m'.live = m.live)
    (hsingle : ∀ a, m'.single a = true → (a ∉ ops ∧ m.single a = true) ∨
      (h'.Adj (Loc.item a) (Loc.item a) ∧ m'.Addable a)) : Represents h' m' where
  family := hE.family
  live := by
    intro a
    rw [hE.live, hlive]
    exact hR.live a
  single := by
    intro a ha
    rcases hsingle a ha with ⟨hops, ha'⟩ | hnew
    · rcases hR.single a ha' with ⟨hadj, halive, hout⟩
      rcases hE.frame a hops hout with ⟨hnext, hprev, hout'⟩
      refine ⟨⟨hnext.trans hadj.1, hprev.trans hadj.2⟩, ?_, hout'⟩
      rw [hlive]
      exact halive
    · exact hnew

/-! ## The functions -/

variable {m : Lists S A} {l₁ l₂ : List (Loc S A)}

omit [DecidableEq S] in
theorem erase_sub (t : S) : ∀ b ∈ (lists t).erase a, b ∈ [a] ∨ ∃ u, b ∈ lists u :=
  fun _ hb => Or.inr ⟨t, List.mem_of_mem_erase hb⟩

/-- A linked entry is deleted. -/
theorem listDel_edit (hF : RingFamily h lists) (ha : a ∈ lists s) :
    ∃ h', listDel h (Loc.item a) = some h' ∧
      Edit h lists [a] h' fun t => (lists t).erase a := by
  have hlink : RingFamily.Linked lists (Loc.item a) := ⟨s, ha⟩
  have hprev := (hF.linked_prev hlink).2
  have hnext := (hF.linked_next hlink).2
  refine ⟨h.joins [(h.prev (Loc.item a), h.next (Loc.item a))], ?_, ?_⟩
  · simp [listDel, listDelBetween, live_of_linked hF hlink, live_of_linked hF hprev,
      live_of_linked hF hnext]
  · refine Edit.of_joins (hF.unlink_erase ha) ?_ erase_sub
    simpa using ⟨within_of_linked hprev, within_of_linked hnext⟩

/-- Deleting what may be deleted; an entry that is initialised is left as it is. -/
theorem listDel_spec (hR : Represents h m) (hdel : m.Deletable a) :
    ∃ h', listDel h (Loc.item a) = some h' ∧ Edit h m.lists [a] h' (m.erase a).lists ∧
      (m.single a = true → h' = h) := by
  rcases hdel with ⟨s, ha⟩ | hsingle
  · rcases listDel_edit hR.family ha with ⟨h', hdel, hE⟩
    refine ⟨h', hdel, hE, fun hsingle => ?_⟩
    exact absurd ha ((hR.single a hsingle).2.2 s)
  · rcases hR.single a hsingle with ⟨hadj, halive, hout⟩
    have hsame : (m.erase a).lists = m.lists := by
      funext t
      exact List.erase_of_not_mem (hout t)
    have hlive : h.live (Loc.item a) = true := (hR.live a).trans halive
    refine ⟨h, ?_, ?_, fun _ => rfl⟩
    · simp [listDel, listDelBetween, hlive, hadj.1, hadj.2, RingFamily.unlink_adj hadj]
    · rw [hsame]
      exact ⟨hR.family, rfl, fun b _ hb => ⟨rfl, rfl, hb⟩⟩

omit [DecidableEq A] in
theorem update_sub {ops : List A} (hxs : xs ⊆ lists s) (hys : ys ⊆ lists s)
    (hzs : ∀ b ∈ zs, b ∈ ops) (t : S) :
    ∀ b ∈ Function.update lists s (xs ++ zs ++ ys) t, b ∈ ops ∨ ∃ u, b ∈ lists u := by
  intro b hb
  by_cases hts : t = s
  · subst hts
    simp only [Function.update_self, List.mem_append] at hb
    rcases hb with (hb | hb) | hb
    · exact Or.inr ⟨t, hxs hb⟩
    · exact Or.inl (hzs b hb)
    · exact Or.inr ⟨t, hys hb⟩
  · rw [Function.update_of_ne hts] at hb
    exact Or.inr ⟨t, hb⟩

/-- An entry comes to a place. -/
theorem splice_edit (hF : RingFamily h lists) (hP : Place lists s xs ys l₁ p q l₂)
    (hfree : ∀ t, a ∉ lists t) (hlive : h.live (Loc.item a) = true) :
    Edit h lists [a] (h.splice (Loc.item a) p q)
      (Function.update lists s (xs ++ [a] ++ ys)) := by
  have hfamily := hF.splice hP.split hP.left hP.right hfree hlive
  have hassoc : xs ++ a :: ys = xs ++ [a] ++ ys := by simp
  rw [hassoc] at hfamily
  have hentry : Within lists [a] (Loc.item a) := within_of_mem (by simp)
  show Edit h lists [a] (h.joins [(Loc.item a, q), (p, Loc.item a)]) _
  refine Edit.of_joins hfamily ?_ (update_sub (by simp [hP.split]) (by simp [hP.split]) (by simp))
  simpa [hentry] using ⟨within_of_linked hP.linked_right, within_of_linked hP.linked_left⟩

theorem listAdd_edit (hF : RingFamily h lists) (hfree : ∀ t, a ∉ lists t)
    (hlive : h.live (Loc.item a) = true) (hp : RingFamily.Linked lists p) :
    ∃ h', listAdd h (Loc.item a) p = some h' ∧ Edit h lists [a] h' (insertAfter lists [a] p) := by
  rcases place_after hF hp with ⟨s, xs, ys, l₁, q, l₂, hP, hafter⟩
  refine ⟨h.splice (Loc.item a) p q, ?_, ?_⟩
  · simp [listAdd, listAddBetween, (hP.adj hF).1, live_of_linked hF hp, hlive,
      live_of_linked hF hP.linked_right]
  · rw [hafter]
    exact splice_edit hF hP hfree hlive

theorem listAddTail_edit (hF : RingFamily h lists) (hfree : ∀ t, a ∉ lists t)
    (hlive : h.live (Loc.item a) = true) (hq : RingFamily.Linked lists q) :
    ∃ h', listAddTail h (Loc.item a) q = some h' ∧
      Edit h lists [a] h' (insertBefore lists [a] q) := by
  rcases place_before hF hq with ⟨s, xs, ys, l₁, p, l₂, hP, hbefore⟩
  refine ⟨h.splice (Loc.item a) p q, ?_, ?_⟩
  · simp [listAddTail, listAddBetween, (hP.adj hF).2, live_of_linked hF hq, hlive,
      live_of_linked hF hP.linked_left]
  · rw [hbefore]
    exact splice_edit hF hP hfree hlive

/-! ### Replacing an entry -/

theorem splice_unlink {n : Loc S A} (hp : n ≠ p) :
    (h.unlink p q).splice n p q = h.splice n p q := by
  have hnext : Function.update (Function.update (Function.update h.next p q) n q) p n =
      Function.update (Function.update h.next n q) p n := by
    rw [Function.update_comm hp.symm, Function.update_idem]
  have hprev : Function.update (Function.update (Function.update h.prev q p) q n) n p =
      Function.update (Function.update h.prev q n) n p := by
    rw [Function.update_idem]
  simp only [LinkHeap.splice, LinkHeap.unlink, hnext, hprev]

theorem map_item (hF : RingFamily h lists) (hs : lists s = xs ++ b :: ys) (n : A) :
    (fun t => (lists t).map fun a => if a = b then n else a) =
      Function.update lists s (xs ++ [n] ++ ys) := by
  rw [← flatMap_item hF hs fun _ => [n]]
  funext t
  rw [List.map_eq_flatMap]
  congr 1
  funext a
  split <;> rfl

theorem listReplace_linked (hF : RingFamily h lists) (ha : a ∈ lists s) {n : A}
    (hfree : ∀ t, n ∉ lists t) (hlive : h.live (Loc.item n) = true) :
    ∃ h', listReplace h (Loc.item a) (Loc.item n) = some h' ∧
      Edit h lists [a, n] h' fun t => (lists t).map fun b => if b = a then n else b := by
  rcases List.append_of_mem ha with ⟨xs, ys, hs⟩
  rcases hF.split_item hs with ⟨l₁, p, q, l₂, hl, hr, hp, hq, _, _⟩
  have hnd : (xs ++ a :: ys).Nodup := hs ▸ hF.nodup s
  have hxs : xs ⊆ lists s := fun b hb => by simp [hs, hb]
  have hys : ys ⊆ lists s := fun b hb => by simp [hs, hb]
  have hlinkp : RingFamily.Linked lists p := RingFamily.linked_of_left hxs hl
  have hlinkq : RingFamily.Linked lists q := by
    rw [RingFamily.first_eq_of_cons hr]
    exact RingFamily.linked_first hys
  have hnp : Loc.item n ≠ p := by
    rintro rfl
    rcases hlinkp with ⟨t, hn⟩
    exact hfree t hn
  have haq : Loc.item a ≠ q := by
    rintro rfl
    rcases RingFamily.mem_of_right hr with hhead | ⟨b, hb, heq⟩
    · cases hhead
    · cases heq
      exact (List.nodup_cons.1 (List.nodup_append.1 hnd).2.1).1 hb
  have hfamily : RingFamily (h.splice (Loc.item n) p q)
      (Function.update lists s (xs ++ [n] ++ ys)) := by
    have hunlink := hF.unlink hs
    rw [hp.2, hq.1] at hunlink
    have hsplice := hunlink.splice (by rw [Function.update_self]) hl hr (a := n) ?_ hlive
    · rw [Function.update_idem, splice_unlink hnp] at hsplice
      simpa using hsplice
    · intro t hn
      by_cases hts : t = s
      · subst hts
        rw [Function.update_self] at hn
        exact hfree t (hs ▸ List.mem_append.2 ((List.mem_append.1 hn).imp_right
          fun hn => List.mem_cons_of_mem _ hn))
      · rw [Function.update_of_ne hts] at hn
        exact hfree t hn
  refine ⟨h.splice (Loc.item n) p q, ?_, ?_⟩
  · have hlivea := hF.live_item s a ha
    simp [listReplace, getNext, getPrev, setNext, setPrev, hlivea, hlive, hq.1, hp.2,
      live_of_linked hF hlinkp, live_of_linked hF hlinkq, Function.update_of_ne haq,
      LinkHeap.splice]
  · rw [map_item hF hs n]
    show Edit h lists [a, n] (h.joins [(Loc.item n, q), (p, Loc.item n)]) _
    refine Edit.of_joins hfamily ?_ (update_sub hxs hys (by simp))
    have hentry : Within lists [a, n] (Loc.item n) := within_of_mem (by simp)
    simpa [hentry] using ⟨within_of_linked hlinkq, within_of_linked hlinkp⟩

/-- An initialised entry is replaced: the new one comes out initialised. -/
theorem listReplace_single (hF : RingFamily h lists) (hout : ∀ t, a ∉ lists t)
    (hadj : h.Adj (Loc.item a) (Loc.item a)) (halive : h.live (Loc.item a) = true) {n : A}
    (hfree : ∀ t, n ∉ lists t) (hlive : h.live (Loc.item n) = true) (hna : n ≠ a) :
    ∃ h', listReplace h (Loc.item a) (Loc.item n) = some h' ∧
      (Edit h lists [a, n] h' fun t => (lists t).map fun b => if b = a then n else b) ∧
      h'.Adj (Loc.item n) (Loc.item n) := by
  have hsame : (fun t => (lists t).map fun b => if b = a then n else b) = lists := by
    funext t
    have hid : ∀ b ∈ lists t, (if b = a then n else b) = id b := by
      intro b hb
      have hba : b ≠ a := fun hba => hout t (hba ▸ hb)
      exact if_neg hba
    rw [List.map_congr_left hid, List.map_id]
  have hne : (Loc.item n : Loc S A) ≠ Loc.item a := fun heq => hna (by cases heq; rfl)
  refine ⟨h.joins [(Loc.item n, Loc.item a), (Loc.item n, Loc.item n)], ?_, ?_, ?_⟩
  · simp [listReplace, getNext, getPrev, setNext, setPrev, hlive, halive, hadj.1, LinkHeap.unlink]
  · rw [hsame]
    have hna' : ¬ RingFamily.Linked lists (Loc.item n) := not_exists.2 hfree
    have ha' : ¬ RingFamily.Linked lists (Loc.item a) := not_exists.2 hout
    refine Edit.of_joins (hF.joins_unlinked ?_) ?_ fun t b hb => Or.inr ⟨t, hb⟩
    · simp [hna', ha']
    · have hnew : Within lists [a, n] (Loc.item n) := within_of_mem (by simp)
      have hold : Within lists [a, n] (Loc.item a) := within_of_mem (by simp)
      simp [hnew, hold]
  · exact ⟨by simp [LinkHeap.unlink], by simp [LinkHeap.unlink]⟩

/-! ## Calls -/

omit [DecidableEq S] [DecidableEq A] in
theorem live_of_deletable (hR : Represents h m) (hdel : m.Deletable a) :
    h.live (Loc.item a) = true := by
  rcases hdel with ⟨s, ha⟩ | hsingle
  · exact hR.family.live_item s a ha
  · exact (hR.live a).trans (hR.single a hsingle).2.1

theorem represents_init (hR : Represents h m) (hadd : m.Addable a) :
    Represents (listInit h (Loc.item a)) (m.mark a) := by
  have hout : ¬ RingFamily.Linked m.lists (Loc.item a) := not_exists.2 hadd.2
  have hentry : Within m.lists [a] (Loc.item a) := within_of_mem (by simp)
  have hE : Edit h m.lists [a] (h.joins [(Loc.item a, Loc.item a)]) m.lists := by
    refine Edit.of_joins (hR.family.joins_unlinked (by simpa using hout)) (by simpa using hentry) ?_
    exact fun t b hb => Or.inr ⟨t, hb⟩
  refine hR.of_edit (m.mark a) hE rfl fun b hb => ?_
  by_cases hba : b = a
  · subst hba
    have hadj : (h.joins [(Loc.item b, Loc.item b)]).Adj (Loc.item b) (Loc.item b) :=
      joins_adj (by simp) (by simp) (by simp)
    exact Or.inr ⟨hadj, hadd⟩
  · have hb' : m.single b = true := by simpa [Lists.mark, Function.update_of_ne hba] using hb
    exact Or.inl ⟨by simpa using hba, hb'⟩

theorem represents_del (hR : Represents h m) (hdel : m.Deletable a) :
    ∃ h', listDel h (Loc.item a) = some h' ∧ Represents h' (m.erase a) := by
  rcases listDel_spec hR hdel with ⟨h', hlist, hE, hkeep⟩
  refine ⟨h', hlist, hR.of_edit (m.erase a) hE rfl fun b hb => ?_⟩
  have hb' : m.single b = true := hb
  by_cases hba : b = a
  · subst hba
    rcases hR.single b hb' with ⟨hadj, halive, hout⟩
    rw [hkeep hb']
    exact Or.inr ⟨hadj, halive, fun t hmem => hout t (List.mem_of_mem_erase hmem)⟩
  · exact Or.inl ⟨by simpa using hba, hb'⟩

omit [DecidableEq S] in
/-- The entry is deletable, and after that it may be added. -/
theorem addable_erase (hR : Represents h m) (hdel : m.Deletable a) : (m.erase a).Addable a := by
  refine ⟨?_, fun t => hR.family.not_mem_erase t⟩
  show m.live a = true
  rw [← hR.live a]
  exact live_of_deletable hR hdel

omit [DecidableEq S] in
theorem represents_insert (hR : Represents h m) {h' : LinkHeap S A}
    (hE : Edit h m.lists [a] h' lists) : Represents h' (m.insert a lists) := by
  refine hR.of_edit (m.insert a lists) hE rfl fun b hb => ?_
  by_cases hba : b = a
  · subst hba
    simp [Lists.insert] at hb
  · have hb' : m.single b = true := by simpa [Lists.insert, Function.update_of_ne hba] using hb
    exact Or.inl ⟨by simpa using hba, hb'⟩

theorem represents_add (hR : Represents h m) (hadd : m.Addable a)
    (hp : RingFamily.Linked m.lists p) :
    ∃ h', listAdd h (Loc.item a) p = some h' ∧
      Represents h' (m.insert a (insertAfter m.lists [a] p)) := by
  rcases listAdd_edit hR.family hadd.2 ((hR.live a).trans hadd.1) hp with ⟨h', hlist, hE⟩
  exact ⟨h', hlist, represents_insert hR hE⟩

theorem represents_addTail (hR : Represents h m) (hadd : m.Addable a)
    (hq : RingFamily.Linked m.lists q) :
    ∃ h', listAddTail h (Loc.item a) q = some h' ∧
      Represents h' (m.insert a (insertBefore m.lists [a] q)) := by
  rcases listAddTail_edit hR.family hadd.2 ((hR.live a).trans hadd.1) hq with ⟨h', hlist, hE⟩
  exact ⟨h', hlist, represents_insert hR hE⟩

omit [DecidableEq S] in
theorem linked_erase (hp : RingFamily.Linked m.lists p) (hne : p ≠ Loc.item a) :
    RingFamily.Linked (m.erase a).lists p := by
  cases p with
  | head s => exact True.intro
  | item b =>
      rcases hp with ⟨s, hb⟩
      have hba : b ≠ a := fun hba => hne (by rw [hba])
      exact ⟨s, (List.mem_erase_of_ne hba).2 hb⟩

theorem represents_move (hR : Represents h m) (hdel : m.Deletable a)
    (hp : RingFamily.Linked m.lists p) (hne : p ≠ Loc.item a) :
    ∃ h', listMove h (Loc.item a) p = some h' ∧
      Represents h' (m.insert a (insertAfter (m.erase a).lists [a] p)) := by
  rcases represents_del hR hdel with ⟨h₁, hlist, hR₁⟩
  rcases represents_add hR₁ (addable_erase hR hdel) (linked_erase hp hne) with ⟨h₂, hadd, hR₂⟩
  exact ⟨h₂, by rw [listMove, hlist, Option.bind_some, hadd], hR₂⟩

theorem represents_moveTail (hR : Represents h m) (hdel : m.Deletable a)
    (hq : RingFamily.Linked m.lists q) (hne : q ≠ Loc.item a) :
    ∃ h', listMoveTail h (Loc.item a) q = some h' ∧
      Represents h' (m.insert a (insertBefore (m.erase a).lists [a] q)) := by
  rcases represents_del hR hdel with ⟨h₁, hlist, hR₁⟩
  rcases represents_addTail hR₁ (addable_erase hR hdel) (linked_erase hq hne) with ⟨h₂, hadd, hR₂⟩
  exact ⟨h₂, by rw [listMoveTail, hlist, Option.bind_some, hadd], hR₂⟩

theorem represents_replace (hR : Represents h m) (hdel : m.Deletable a) {n : A}
    (hadd : m.Addable n) (hna : n ≠ a) :
    ∃ h', listReplace h (Loc.item a) (Loc.item n) = some h' ∧ Represents h' (m.replace a n) ∧
      (m.replace a n).Addable a := by
  have hlive := (hR.live n).trans hadd.1
  have halive := live_of_deletable hR hdel
  have hgone : (m.replace a n).Addable a := by
    refine ⟨(hR.live a).symm.trans halive, fun t ha => ?_⟩
    rcases List.mem_map.1 ha with ⟨b, _, hb⟩
    by_cases hba : b = a
    · rw [if_pos hba] at hb
      exact hna hb
    · rw [if_neg hba] at hb
      exact hba hb
  have hold : ∀ b, (m.replace a n).single b = true → b ≠ a := by
    rintro b hb rfl
    simp [Lists.replace] at hb
  have hother : ∀ b, b ≠ n → b ≠ a → (m.replace a n).single b = m.single b := by
    intro b hbn hba
    simp [Lists.replace, Function.update_of_ne hba, Function.update_of_ne hbn]
  have hnew : (m.replace a n).single n = m.single a := by
    simp [Lists.replace, Function.update_of_ne hna]
  rcases hdel with ⟨s, ha⟩ | hsingle
  · rcases listReplace_linked hR.family ha hadd.2 hlive with ⟨h', hlist, hE⟩
    refine ⟨h', hlist, hR.of_edit (m.replace a n) hE rfl fun b hb => ?_, hgone⟩
    have hba := hold b hb
    by_cases hbn : b = n
    · subst hbn
      rw [hnew] at hb
      exact absurd ha ((hR.single a hb).2.2 s)
    · rw [hother b hbn hba] at hb
      exact Or.inl ⟨by simp [hba, hbn], hb⟩
  · rcases hR.single a hsingle with ⟨hadj, _, hout⟩
    rcases listReplace_single hR.family hout hadj halive hadd.2 hlive hna with
      ⟨h', hlist, hE, hadj'⟩
    refine ⟨h', hlist, hR.of_edit (m.replace a n) hE rfl fun b hb => ?_, hgone⟩
    have hba := hold b hb
    by_cases hbn : b = n
    · subst hbn
      refine Or.inr ⟨hadj', hadd.1, fun t hmem => ?_⟩
      rcases List.mem_map.1 hmem with ⟨c, hc, hcb⟩
      have hca : c ≠ a := fun hca => hout t (hca ▸ hc)
      rw [if_neg hca] at hcb
      exact hadd.2 t (hcb ▸ hc)
    · rw [hother b hbn hba] at hb
      exact Or.inl ⟨by simp [hba, hbn], hb⟩

/-! ### Whole lists -/

/-- The rings change, and no entry is initialised by it. -/
theorem represents_joins {pairs : List (Loc S A × Loc S A)} (hR : Represents h m)
    (hF : RingFamily (h.joins pairs) lists)
    (hpairs : ∀ pair ∈ pairs, RingFamily.Linked m.lists pair.1 ∧ RingFamily.Linked m.lists pair.2)
    (hsub : ∀ s, ∀ b ∈ lists s, ∃ t, b ∈ m.lists t) :
    Represents (h.joins pairs) { m with lists := lists } := by
  have hE : Edit h m.lists [] (h.joins pairs) lists := by
    refine Edit.of_joins hF ?_ fun s b hb => Or.inr (hsub s b hb)
    exact fun pair hmem =>
      ⟨within_of_linked (hpairs pair hmem).1, within_of_linked (hpairs pair hmem).2⟩
  exact hR.of_edit { m with lists := lists } hE rfl fun b hb =>
    Or.inl ⟨by simp, hb⟩

omit [DecidableEq A] in
theorem clear_sub {s : S} (hsub : ∀ t, ∀ b ∈ lists' t, ∃ u, b ∈ lists u) (t : S) :
    ∀ b ∈ Function.update lists' s [] t, ∃ u, b ∈ lists u := by
  intro b hb
  by_cases hts : t = s
  · subst hts
    simp at hb
  · rw [Function.update_of_ne hts] at hb
    exact hsub t b hb

theorem represents_initHead (hR : Represents h m) (s : S) :
    Represents (listInit h (Loc.head s)) (m.clear s m.lists) := by
  refine represents_joins hR (hR.family.close s) ?_ (clear_sub fun t b hb => ⟨t, hb⟩)
  simp [RingFamily.Linked]

omit [DecidableEq S] [DecidableEq A] in
theorem exists_last {zs : List A} (hzs : zs ≠ []) :
    ∃ m' l, (zs.map Loc.item : List (Loc S A)) = m' ++ [l] := by
  have hne : (zs.map Loc.item : List (Loc S A)) ≠ [] := by simp [hzs]
  exact ⟨_, _, (List.dropLast_append_getLast hne).symm⟩

/-- What `__list_splice` and the initialisation of the emptied head come to. -/
theorem listSpliceBetween_spec (hR : Represents h m) (hs : m.lists s ≠ [])
    (hP : Place m.lists t xs ys l₁ p q l₂) (hst : s ≠ t) :
    ∃ h', (listSpliceBetween h (Loc.head s) p q).map (fun h => listInit h (Loc.head s)) = some h' ∧
      Represents h' (m.clear s (Function.update m.lists t (xs ++ m.lists s ++ ys))) := by
  have hF := hR.family
  rcases List.exists_cons_of_ne_nil hs with ⟨a, as, has⟩
  have hf : (m.lists s).map Loc.item = (Loc.item a : Loc S A) :: as.map Loc.item := by
    rw [has]
    rfl
  rcases exists_last (S := S) hs with ⟨m', l, hlast⟩
  have hnext : h.next (Loc.head s) = Loc.item a := by
    rw [hF.next_head_eq s, has]
    rfl
  have hprev : h.prev (Loc.head s) = l := by
    have hl : Loc.head s :: (m.lists s).map Loc.item = Loc.head s :: m' ++ [l] := by
      rw [List.cons_append, ← hlast]
    exact (hF.adj_head hl).2
  have hlinka : RingFamily.Linked m.lists (Loc.item a : Loc S A) := ⟨s, by simp [has]⟩
  have hlinkl : RingFamily.Linked m.lists l := by
    rw [← hprev]
    exact (hF.linked_prev (x := Loc.head s) True.intro).2
  refine ⟨h.joins [(p, Loc.item a), (l, q), (Loc.head s, Loc.head s)], ?_, ?_⟩
  · simp [listSpliceBetween, getNext, getPrev, setNext, setPrev, hF.live_head s, hnext, hprev,
      live_of_linked hF hlinka, live_of_linked hF hlinkl, live_of_linked hF hP.linked_left,
      live_of_linked hF hP.linked_right, LinkHeap.unlink, listInit]
  · refine represents_joins hR (hF.merge hst hP.split hP.left hP.right hf hlast) ?_
      (clear_sub fun u b hb => ?_)
    · have hhead : RingFamily.Linked m.lists (Loc.head s : Loc S A) := True.intro
      simp [hlinka, hlinkl, hhead, hP.linked_left, hP.linked_right]
    · by_cases hut : u = t
      · subst hut
        simp only [Function.update_self, List.mem_append] at hb
        rcases hb with (hb | hb) | hb
        · exact ⟨u, by simp [hP.split, hb]⟩
        · exact ⟨s, hb⟩
        · exact ⟨u, by simp [hP.split, hb]⟩
      · rw [Function.update_of_ne hut] at hb
        exact ⟨u, hb⟩

omit [DecidableEq S] [DecidableEq A] in
theorem place_ne (hx : x ∉ cycle s (lists s)) (hmem : x ∈ cycle t (lists t)) : s ≠ t := by
  rintro rfl
  exact hx hmem

omit [DecidableEq A] in
theorem clear_of_empty (hs : m.lists s = []) (ht : m.lists t = xs ++ ys) :
    m.clear s (Function.update m.lists t (xs ++ m.lists s ++ ys)) = m := by
  have hlists : Function.update m.lists t (xs ++ ys) = m.lists := by
    rw [← ht, Function.update_eq_self]
  rw [hs, List.append_nil, hlists, Lists.clear, ← hs, Function.update_eq_self]

theorem listEmpty_eq_false (hF : RingFamily h lists) (hs : lists s ≠ []) :
    listEmpty h (Loc.head s) = false := by
  rw [Bool.eq_false_iff, ne_eq, listEmpty_iff hF]
  exact hs

omit [DecidableEq S] [DecidableEq A] in
theorem adj_of_empty (hF : RingFamily h lists) (hs : lists s = []) :
    h.Adj (Loc.head s) (Loc.head s) := by
  have hadj := hF.adj_next_head s
  rwa [hs] at hadj

theorem listInit_of_empty (hF : RingFamily h lists) (hs : lists s = []) :
    listInit h (Loc.head s) = h :=
  RingFamily.unlink_adj (adj_of_empty hF hs)

/-- `list_splice` and `list_splice_init`: the first wants the emptied head initialised. -/
theorem represents_splice (hR : Represents h m) (hp : m.Apart s p) :
    ∃ h', listSpliceInit h (Loc.head s) p = some h' ∧
      (listSplice h (Loc.head s) p).map (fun h => listInit h (Loc.head s)) = some h' ∧
        Represents h' (m.clear s (insertAfter m.lists (m.lists s) p)) := by
  have hF := hR.family
  rcases place_after hF hp.1 with ⟨t, xs, ys, l₁, q, l₂, hP, hafter⟩
  rw [hafter]
  by_cases hs : m.lists s = []
  · rw [clear_of_empty hs hP.split]
    have hempty := (listEmpty_iff hF).2 hs
    refine ⟨h, ?_, ?_, hR⟩
    · simp [listSpliceInit, getNext, hF.live_head s, hempty]
    · simp [listSplice, getNext, hF.live_head s, hempty, listInit_of_empty hF hs]
  · have hst : s ≠ t := place_ne hp.2 (RingFamily.left_subset_cycle hP.split hP.left (by simp))
    rcases listSpliceBetween_spec hR hs hP hst with ⟨h', hexec, hR'⟩
    have hempty := listEmpty_eq_false hF hs
    refine ⟨h', ?_, ?_, hR'⟩
    · simpa [listSpliceInit, getNext, hF.live_head s, live_of_linked hF hp.1, hempty,
        (hP.adj hF).1] using hexec
    · simpa [listSplice, getNext, hF.live_head s, live_of_linked hF hp.1, hempty,
        (hP.adj hF).1] using hexec

theorem represents_spliceTail (hR : Represents h m) (hq : m.Apart s q) :
    ∃ h', listSpliceTailInit h (Loc.head s) q = some h' ∧
      (listSpliceTail h (Loc.head s) q).map (fun h => listInit h (Loc.head s)) = some h' ∧
        Represents h' (m.clear s (insertBefore m.lists (m.lists s) q)) := by
  have hF := hR.family
  rcases place_before hF hq.1 with ⟨t, xs, ys, l₁, p, l₂, hP, hbefore⟩
  rw [hbefore]
  by_cases hs : m.lists s = []
  · rw [clear_of_empty hs hP.split]
    have hempty := (listEmpty_iff hF).2 hs
    refine ⟨h, ?_, ?_, hR⟩
    · simp [listSpliceTailInit, getNext, hF.live_head s, hempty]
    · simp [listSpliceTail, getNext, hF.live_head s, hempty, listInit_of_empty hF hs]
  · have hst : s ≠ t := place_ne hq.2 (RingFamily.right_subset_cycle hP.split hP.right (by simp))
    rcases listSpliceBetween_spec hR hs hP hst with ⟨h', hexec, hR'⟩
    have hempty := listEmpty_eq_false hF hs
    refine ⟨h', ?_, ?_, hR'⟩
    · simpa [listSpliceTailInit, getNext, getPrev, hF.live_head s, live_of_linked hF hq.1, hempty,
        (hP.adj hF).2] using hexec
    · simpa [listSpliceTail, getNext, getPrev, hF.live_head s, live_of_linked hF hq.1, hempty,
        (hP.adj hF).2] using hexec

omit [DecidableEq S] [DecidableEq A] in
/-- The two ends of a list. -/
theorem ends (hF : RingFamily h lists) (hs : lists s ≠ []) :
    ∃ a b, h.next (Loc.head s) = Loc.item a ∧ h.prev (Loc.head s) = Loc.item b ∧
      (∃ as, lists s = a :: as) ∧ ∃ bs, lists s = bs ++ [b] := by
  rcases List.exists_cons_of_ne_nil hs with ⟨a, as, has⟩
  have hbs := (List.dropLast_append_getLast hs).symm
  have hnext : h.next (Loc.head s) = Loc.item a := by
    rw [hF.next_head_eq s, has]
    rfl
  have hl : Loc.head s :: (lists s).map Loc.item =
      Loc.head s :: (lists s).dropLast.map Loc.item ++ [Loc.item ((lists s).getLast hs)] := by
    conv_lhs => rw [hbs]
    simp
  exact ⟨a, _, hnext, (hF.adj_head hl).2, ⟨as, has⟩, ⟨_, hbs⟩⟩

/-- Two heads without entries. -/
theorem joins_empty (hs : h.Adj (Loc.head s) (Loc.head s)) (ht : h.Adj (Loc.head t) (Loc.head t)) :
    h.joins [(Loc.head t, Loc.head s), (Loc.head t, Loc.head t), (Loc.head s, Loc.head s)] = h := by
  have hnexts : Function.update h.next (Loc.head s) (Loc.head s) = h.next :=
    Function.update_eq_self_iff.2 hs.1.symm
  have hnextt : Function.update h.next (Loc.head t) (Loc.head t) = h.next :=
    Function.update_eq_self_iff.2 ht.1.symm
  have hprevs : Function.update h.prev (Loc.head s) (Loc.head s) = h.prev :=
    Function.update_eq_self_iff.2 hs.2.symm
  have hprevt : Function.update h.prev (Loc.head t) (Loc.head t) = h.prev :=
    Function.update_eq_self_iff.2 ht.2.symm
  have hprev : Function.update (Function.update (Function.update h.prev (Loc.head s) (Loc.head t))
      (Loc.head t) (Loc.head t)) (Loc.head s) (Loc.head s) = h.prev := by
    by_cases hst : s = t
    · subst hst
      rw [Function.update_idem, Function.update_idem, hprevs]
    · have hne : (Loc.head s : Loc S A) ≠ Loc.head t := fun heq => hst (by cases heq; rfl)
      rw [Function.update_comm hne.symm, Function.update_idem, hprevs, hprevt]
  simp only [joins_cons, joins_nil, LinkHeap.unlink, Function.update_idem, hnextt, hnexts, hprev]

/-- `list_replace_init` of a head: the list changes its head. -/
theorem represents_replaceHead (hR : Represents h m) (hst : s ≠ t) (ht : m.lists t = []) :
    ∃ h', listReplaceInit h (Loc.head s) (Loc.head t) = some h' ∧
      Represents h' (m.clear s (Function.update m.lists t (m.lists s))) := by
  have hF := hR.family
  have hlives := hF.live_head s
  have hlivet := hF.live_head t
  have hP : Place m.lists t [] [] [] (Loc.head t) (Loc.head t) [] := ⟨ht, rfl, rfl⟩
  have hne : (Loc.head s : Loc S A) ≠ Loc.head t := fun heq => hst (by cases heq; rfl)
  by_cases hs : m.lists s = []
  · have hclear := clear_of_empty (m := m) hs hP.split
    rw [List.nil_append, List.append_nil] at hclear
    rw [hclear]
    have hadjs := adj_of_empty hF hs
    have hadjt := adj_of_empty hF ht
    refine ⟨h, ?_, hR⟩
    conv_rhs => rw [← joins_empty hadjs hadjt]
    simp [listReplaceInit, listReplace, listInit, getNext, getPrev, setNext, setPrev, hlives,
      hlivet, hadjs.1, LinkHeap.unlink]
  · rcases listSpliceBetween_spec hR hs hP hst with ⟨h', hexec, hR'⟩
    rw [List.nil_append, List.append_nil] at hR'
    refine ⟨h', ?_, hR'⟩
    rcases ends hF hs with ⟨a, b, ha, hb, ⟨as, has⟩, ⟨bs, hbs⟩⟩
    have hlivea := hF.live_item s a (by simp [has])
    have hliveb := hF.live_item s b (by simp [hbs])
    rw [← hexec]
    simp [listReplaceInit, listReplace, listSpliceBetween, listInit, getNext, getPrev, setNext,
      setPrev, hlives, hlivet, ha, hb, hlivea, hliveb]

/-- Just one entry. -/
theorem listIsSingular_iff (hF : RingFamily h lists) :
    listIsSingular h (Loc.head s) = true ↔ ∃ a, lists s = [a] := by
  by_cases hs : lists s = []
  · simp [listIsSingular, (listEmpty_iff hF).2 hs, hs]
  rcases ends hF hs with ⟨a, b, ha, hb, ⟨as, has⟩, ⟨bs, hbs⟩⟩
  have hloc : listIsSingular h (Loc.head s) = true ↔ a = b := by
    simp [listIsSingular, listEmpty_eq_false hF hs, ha, hb]
  rw [hloc]
  constructor
  · rintro rfl
    have hnd : (bs ++ [a]).Nodup := hbs ▸ hF.nodup s
    cases bs with
    | nil => exact ⟨a, hbs⟩
    | cons b bs =>
        have hab : b = a := (List.cons.inj (has.symm.trans hbs)).1.symm
        rw [hab] at hnd
        simp at hnd
  · rintro ⟨c, hc⟩
    rw [hc] at has hbs
    have hca : c = a := (List.cons.inj has).1
    have hcb : b ∈ [c] := by simp [hbs]
    rw [← hca, List.mem_singleton.1 hcb]

theorem represents_rotateLeft (hR : Represents h m) (s : S) :
    ∃ h', listRotateLeft h (Loc.head s) = some h' ∧
      Represents h' { m with
        lists := Function.update m.lists s ((m.lists s).drop 1 ++ (m.lists s).take 1) } := by
  have hF := hR.family
  cases hs : m.lists s with
  | nil =>
      refine ⟨h, ?_, ?_⟩
      · simp [listRotateLeft, getNext, hF.live_head s, (listEmpty_iff hF).2 hs]
      · have hsame : Function.update m.lists s [] = m.lists := by
          rw [← hs, Function.update_eq_self]
        simpa [hsame] using hR
  | cons a as =>
      have ha : a ∈ m.lists s := by simp [hs]
      have hnext : h.next (Loc.head s) = Loc.item a := by
        rw [hF.next_head_eq s, hs]
        rfl
      rcases represents_moveTail hR (Or.inl ⟨s, ha⟩) (q := Loc.head s) True.intro (by simp) with
        ⟨h', hexec, hR'⟩
      refine ⟨h', ?_, ?_⟩
      · have hempty := listEmpty_eq_false hF (s := s) (by simp [hs])
        simp [listRotateLeft, getNext, hF.live_head s, hempty, hnext, hexec]
      · have hsingle : m.single a ≠ true := fun hsingle => (hR.single a hsingle).2.2 s ha
        have hkeep : Function.update m.single a false = m.single := by
          rw [Function.update_eq_self_iff]
          simpa using hsingle
        have hlists : insertBefore (m.erase a).lists [a] (Loc.head s) =
            Function.update m.lists s (as ++ [a]) := by
          funext t
          by_cases hts : t = s
          · subst hts
            simp [insertBefore, Lists.erase, hs]
          · have hat : a ∉ m.lists t := fun hat => hts (hF.disjoint t s a hat ha)
            simp [insertBefore, Lists.erase, Function.update_of_ne hts, List.erase_of_not_mem hat]
        rw [Lists.insert, hkeep, hlists] at hR'
        simpa using hR'

omit [DecidableEq S] in
theorem takeWhile_split (ys : List A) (hb : b ∉ xs) :
    (xs ++ b :: ys).takeWhile (· ≠ b) = xs ∧ ((xs ++ b :: ys).dropWhile (· ≠ b)).tail = ys := by
  induction xs with
  | nil => simp
  | cons x xs ih =>
      have hxb : x ≠ b := fun hxb => hb (by simp [hxb])
      rcases ih fun hmem => hb (List.mem_cons_of_mem _ hmem) with ⟨htake, hdrop⟩
      exact ⟨by simpa [hxb] using htake, by simpa [hxb] using hdrop⟩

theorem represents_cutBetween (hR : Represents h m) (hst : s ≠ t) (hs : m.lists s = xs ++ b :: ys) :
    ∃ h', listCutBetween h (Loc.head t) (Loc.head s) (Loc.item b) = some h' ∧
      Represents h' { m with
        lists := Function.update (Function.update m.lists s ys) t (xs ++ [b]) } := by
  have hF := hR.family
  have hs' : m.lists s = (xs ++ [b]) ++ ys := by rw [hs, List.append_assoc, List.singleton_append]
  rcases exists_right s ys with ⟨q, l₂, hr⟩
  have hb : h.next (Loc.item b) = q := by
    rw [hF.next_item_eq hs, ← RingFamily.first_eq_of_cons hr]
  have hlinkb : RingFamily.Linked m.lists (Loc.item b : Loc S A) := ⟨s, by simp [hs]⟩
  have hlinkq : RingFamily.Linked m.lists q := by
    rw [← hb]
    exact (hF.linked_next hlinkb).2
  rcases hfirst : (xs ++ [b]).map (Loc.item : A → Loc S A) with _ | ⟨f, rest⟩
  · simp at hfirst
  have hf : h.next (Loc.head s) = f := by
    have hcons := hF.next_head s
    rw [hs', List.map_append, hfirst] at hcons
    exact (List.cons.inj hcons).1.symm
  have hlinkf : RingFamily.Linked m.lists f := by
    rw [← hf]
    exact (hF.linked_next (x := Loc.head s) True.intro).2
  have hclose := hF.close t
  have hlists : Function.update m.lists t [] s = (xs ++ [b]) ++ ys := by
    rw [Function.update_of_ne hst, hs']
  have hlast : (xs ++ [b]).map (Loc.item : A → Loc S A) = xs.map Loc.item ++ [Loc.item b] := by
    simp
  have hcut := hclose.cut hst (Function.update_self _ _ _) hlists hr hfirst hlast
  rw [Function.update_comm hst.symm, Function.update_idem] at hcut
  have hheap : (h.joins [(Loc.head t, Loc.head t)]).joins
      [(Loc.head t, f), (Loc.item b, Loc.head t), (Loc.head s, q)] =
        h.joins [(Loc.head t, f), (Loc.item b, Loc.head t), (Loc.head s, q)] := by
    have hft : Loc.head t ≠ f := by
      rintro rfl
      have hmem : Loc.head t ∈ (xs ++ [b]).map (Loc.item : A → Loc S A) := by
        rw [hfirst]
        exact List.mem_cons_self
      simp at hmem
    simp only [joins_cons, joins_nil, LinkHeap.unlink, Function.update_idem,
      Function.update_comm hft]
  rw [hheap] at hcut
  refine ⟨h.joins [(Loc.head t, f), (Loc.item b, Loc.head t), (Loc.head s, q)], ?_, ?_⟩
  · simp [listCutBetween, getNext, setNext, setPrev, hF.live_head s, hF.live_head t, hb, hf,
      live_of_linked hF hlinkb, live_of_linked hF hlinkq, live_of_linked hF hlinkf,
      LinkHeap.unlink]
  · refine represents_joins hR hcut ?_ ?_
    · have hheadt : RingFamily.Linked m.lists (Loc.head t : Loc S A) := True.intro
      have hheads : RingFamily.Linked m.lists (Loc.head s : Loc S A) := True.intro
      simp [hlinkb, hlinkq, hlinkf, hheadt, hheads]
    · intro u a ha
      by_cases hut : u = t
      · subst hut
        rw [Function.update_self] at ha
        exact ⟨s, by rw [hs']; exact List.mem_append_left _ ha⟩
      rw [Function.update_of_ne hut] at ha
      by_cases hus : u = s
      · subst hus
        rw [Function.update_self] at ha
        exact ⟨u, by rw [hs']; exact List.mem_append_right _ ha⟩
      · rw [Function.update_of_ne hus] at ha
        exact ⟨u, ha⟩

theorem represents_cutPosition (hR : Represents h m) (hst : t ≠ s)
    (hentry : x = Loc.head s ∨ ∃ b ∈ m.lists s, x = Loc.item b) :
    ∃ h', listCutPosition h (Loc.head t) (Loc.head s) x = some h' ∧
      Represents h' (if m.lists s = [] then m else m.cut t s x) := by
  have hF := hR.family
  by_cases hs : m.lists s = []
  · rw [if_pos hs]
    refine ⟨h, ?_, hR⟩
    simp [listCutPosition, getNext, hF.live_head s, (listEmpty_iff hF).2 hs]
  rw [if_neg hs]
  have hempty := listEmpty_eq_false hF hs
  rcases hentry with rfl | ⟨b, hb, rfl⟩
  · refine ⟨listInit h (Loc.head t), ?_, represents_initHead hR t⟩
    simp [listCutPosition, getNext, hF.live_head s, hempty]
  · rcases List.append_of_mem hb with ⟨xs, ys, hsplit⟩
    rcases represents_cutBetween hR hst.symm hsplit with ⟨h', hexec, hR'⟩
    have hbxs : b ∉ xs := by
      have hnd : (xs ++ b :: ys).Nodup := hsplit ▸ hF.nodup s
      exact fun hbxs => (List.nodup_append.1 hnd).2.2 b hbxs b (by simp) rfl
    refine ⟨h', ?_, ?_⟩
    · -- a list of one entry is cut behind that entry
      have hone : listIsSingular h (Loc.head s) = true → h.next (Loc.head s) = Loc.item b := by
        intro hsingular
        rcases (listIsSingular_iff hF).1 hsingular with ⟨a, ha⟩
        have hba : b = a := by simpa [ha] using hb
        rw [hF.next_head_eq s, ha, hba]
        rfl
      by_cases hsingular : listIsSingular h (Loc.head s) = true
      · simp [listCutPosition, getNext, hF.live_head s, hempty, hone hsingular, hexec]
      · simp [listCutPosition, getNext, hF.live_head s, hempty, hsingular, hexec]
    · rcases takeWhile_split ys hbxs with ⟨htake, hdrop⟩
      rw [Lists.cut, hsplit, htake, hdrop]
      exact hR'

theorem represents_call (hR : Represents h m) {call : Call S A} (hfine : m.Fine call) :
    ∃ h', exec h call = some h' ∧ Represents h' (m.after call) := by
  cases call with
  | init a =>
      refine ⟨listInit h (Loc.item a), ?_, represents_init hR hfine⟩
      simp [exec, (hR.live a).trans hfine.1]
  | initHead s =>
      refine ⟨listInit h (Loc.head s), ?_, represents_initHead hR s⟩
      simp [exec, hR.family.live_head s]
  | add n head => exact represents_add hR hfine.1 hfine.2
  | addTail n head => exact represents_addTail hR hfine.1 hfine.2
  | del entry => exact represents_del hR hfine
  | delInit entry =>
      rcases represents_del hR hfine with ⟨h', hexec, hR'⟩
      refine ⟨listInit h' (Loc.item entry), ?_, represents_init hR' (addable_erase hR hfine)⟩
      rw [exec, listDelInit, hexec, Option.map_some]
  | move list head => exact represents_move hR hfine.1 hfine.2.1 hfine.2.2
  | moveTail list head => exact represents_moveTail hR hfine.1 hfine.2.1 hfine.2.2
  | replace old n =>
      rcases represents_replace hR hfine.1 hfine.2.1 hfine.2.2 with ⟨h', hexec, hR', _⟩
      exact ⟨h', hexec, hR'⟩
  | replaceInit old n =>
      rcases represents_replace hR hfine.1 hfine.2.1 hfine.2.2 with ⟨h', hexec, hR', hold⟩
      refine ⟨listInit h' (Loc.item old), ?_, represents_init hR' hold⟩
      rw [exec, listReplaceInit, hexec, Option.map_some]
  | replaceHead old n => exact represents_replaceHead hR hfine.1 hfine.2
  | rotateLeft head => exact represents_rotateLeft hR head
  | cutPosition list head entry => exact represents_cutPosition hR hfine.1 hfine.2
  | splice list head =>
      rcases represents_splice hR hfine with ⟨h', _, hexec, hR'⟩
      exact ⟨h', hexec, hR'⟩
  | spliceTail list head =>
      rcases represents_spliceTail hR hfine with ⟨h', _, hexec, hR'⟩
      exact ⟨h', hexec, hR'⟩
  | spliceInit list head =>
      rcases represents_splice hR hfine with ⟨h', hexec, _, hR'⟩
      exact ⟨h', hexec, hR'⟩
  | spliceTailInit list head =>
      rcases represents_spliceTail hR hfine with ⟨h', hexec, _, hR'⟩
      exact ⟨h', hexec, hR'⟩

theorem represents_calls {calls : List (Call S A)} : ∀ {h : LinkHeap S A} {m : Lists S A},
    Represents h m → m.FineAll calls →
      ∃ h', execAll h calls = some h' ∧ Represents h' (m.afterAll calls) := by
  induction calls with
  | nil =>
      intro h m hR _
      exact ⟨h, rfl, hR⟩
  | cons call calls ih =>
      intro h m hR hfine
      rcases represents_call hR hfine.1 with ⟨h₁, hexec, hR₁⟩
      rcases ih hR₁ hfine.2 with ⟨h₂, hexecs, hR₂⟩
      exact ⟨h₂, by rw [execAll, hexec, Option.bind_some, hexecs], hR₂⟩

/-! ## What the lists look like from outside -/

omit [DecidableEq A] in
theorem listWalk_next (hF : RingFamily h lists) : ∀ {ys xs : List A} {fuel : Nat},
    lists s = xs ++ ys → ys.length < fuel →
      listWalk h h.next s fuel (RingFamily.first s ys) = some ys
  | [], _, fuel + 1, _, _ => by simp [listWalk]
  | b :: ys, xs, fuel + 1, hs, hfuel => by
      have hlive := hF.live_item s b (by simp [hs])
      have hs' : lists s = (xs ++ [b]) ++ ys := by rw [hs, List.append_assoc, List.singleton_append]
      have hrest := listWalk_next hF hs' (Nat.lt_of_succ_lt_succ hfuel)
      simp [listWalk, hlive, hF.next_item_eq hs, hrest]

omit [DecidableEq A] in
theorem listWalk_prev (hF : RingFamily h lists) (xs : List A) : ∀ {ys : List A} {fuel : Nat}
    {l₁ : List (Loc S A)} {p : Loc S A}, lists s = xs ++ ys → xs.length < fuel →
      Loc.head s :: xs.map Loc.item = l₁ ++ [p] →
        listWalk h h.prev s fuel p = some xs.reverse := by
  induction xs using List.reverseRecOn with
  | nil =>
      intro ys fuel l₁ p hs hfuel hl
      cases fuel with
      | zero => simp at hfuel
      | succ fuel =>
          have hp := RingFamily.mem_of_left hl
          have hp' : p = Loc.head s := by simpa using hp
          simp [hp', listWalk]
  | append_singleton xs b ih =>
      intro ys fuel l₁ p hs hfuel hl
      cases fuel with
      | zero => simp at hfuel
      | succ fuel =>
          have hs' : lists s = xs ++ b :: ys := by
            rw [hs, List.append_assoc, List.singleton_append]
          have hp : p = Loc.item b := by
            rw [List.map_append, ← List.cons_append] at hl
            have htail := List.append_inj_right' hl rfl
            exact (List.cons.inj htail).1.symm
          have hlive := hF.live_item s b (by simp [hs'])
          have hlen : xs.length < fuel := by
            rw [List.length_append, List.length_singleton] at hfuel
            omega
          have hrest := ih hs' hlen (hF.prev_item hs')
          simp [hp, listWalk, hlive, hrest]

/-- The functions that look at the lists agree with them. -/
structure Observed (h : LinkHeap S A) (m : Lists S A) : Prop where
  empty : ∀ s, listEmpty h (Loc.head s) = true ↔ m.lists s = []
  careful : ∀ s, listEmptyCareful h (Loc.head s) = listEmpty h (Loc.head s)
  singular : ∀ s, listIsSingular h (Loc.head s) = true ↔ ∃ a, m.lists s = [a]
  last : ∀ s, ∀ a ∈ m.lists s,
    listIsLast h (Loc.item a) (Loc.head s) = true ↔ ∃ xs, m.lists s = xs ++ [a]
  /-- for an entry that is on a list or initialised `list_empty` says whether it is on one -/
  entry : ∀ a, m.Deletable a → (listEmpty h (Loc.item a) = true ↔ m.Unlinked a)
  next : ∀ s fuel, (m.lists s).length < fuel → listForEachNext h s fuel = some (m.lists s)
  prev : ∀ s fuel, (m.lists s).length < fuel →
    listForEachPrev h s fuel = some (m.lists s).reverse

theorem Represents.observed (hR : Represents h m) : Observed h m := by
  have hF := hR.family
  constructor
  case empty => exact fun s => listEmpty_iff hF
  case careful =>
    intro s
    by_cases hs : m.lists s = []
    · have hadj := adj_of_empty hF hs
      simp [listEmptyCareful, listEmpty, hadj.1, hadj.2]
    · rcases ends hF hs with ⟨a, b, ha, _, _, _⟩
      simp [listEmptyCareful, listEmpty, ha]
  case singular => exact fun s => listIsSingular_iff hF
  case last =>
    intro s a ha
    constructor
    · intro hlast
      rcases List.append_of_mem ha with ⟨xs, ys, hs⟩
      have hhead : RingFamily.first s ys = Loc.head s := by
        rw [← hF.next_item_eq hs]
        exact of_decide_eq_true hlast
      cases ys with
      | nil => exact ⟨xs, hs⟩
      | cons y ys => cases hhead
    · rintro ⟨xs, hs⟩
      exact decide_eq_true (hF.next_item_eq hs)
  case entry =>
    intro a hdel
    rcases hdel with ⟨s, ha⟩ | hsingle
    · refine ⟨fun hempty => ?_, fun hout => absurd ha (hout s)⟩
      rcases List.append_of_mem ha with ⟨xs, ys, hs⟩
      have hself : RingFamily.first s ys = Loc.item a := by
        rw [← hF.next_item_eq hs]
        exact of_decide_eq_true hempty
      cases ys with
      | nil => cases hself
      | cons y ys =>
          cases hself
          have hnd : (xs ++ a :: a :: ys).Nodup := hs ▸ hF.nodup s
          have hcons := List.nodup_cons.1 (List.nodup_append.1 hnd).2.1
          exact absurd List.mem_cons_self hcons.1
    · rcases hR.single a hsingle with ⟨hadj, _, hout⟩
      exact ⟨fun _ => hout, fun _ => decide_eq_true hadj.1⟩
  case next =>
    intro s fuel hfuel
    rw [listForEachNext, hF.next_head_eq s]
    exact listWalk_next hF (show m.lists s = [] ++ m.lists s from rfl) hfuel
  case prev =>
    intro s fuel hfuel
    rcases exists_left s (m.lists s) with ⟨l₁, p, hl⟩
    rw [listForEachPrev, (hF.adj_head hl).2]
    exact listWalk_prev hF (m.lists s) (List.append_nil (m.lists s)).symm hfuel hl

/-- Any sequence of calls, each of them fine where it is made. -/
theorem list_calls (hR : Represents h m) {calls : List (Call S A)} (hfine : m.FineAll calls) :
    ∃ h', execAll h calls = some h' ∧ Represents h' (m.afterAll calls) ∧
      Observed h' (m.afterAll calls) := by
  rcases represents_calls hR hfine with ⟨h', hexec, hR'⟩
  exact ⟨h', hexec, hR', hR'.observed⟩

/-! ### Two heads and four entries -/

/-- Memory in which the two heads have been initialised, and nothing else. -/
def twoHeads : LinkHeap Bool (Fin 4) where
  live := fun _ => true
  next := fun x =>
    match x with
    | .head s => .head s
    | .item _ => .head true
  prev := fun x =>
    match x with
    | .head s => .head s
    | .item _ => .head false

def noLists : Lists Bool (Fin 4) where
  lists := fun _ => []
  single := fun _ => false
  live := fun _ => true

theorem twoHeads_represents : Represents twoHeads noLists where
  family :=
    { ring := fun s => List.isChain_cons_cons.2 ⟨⟨rfl, rfl⟩, List.isChain_singleton _⟩
      nodup := fun _ => List.nodup_nil
      disjoint := fun s t a ha _ => by simp [noLists] at ha
      live_head := fun _ => rfl
      live_item := fun _ _ _ => rfl }
  live := fun _ => rfl
  single := fun a ha => by simp [noLists] at ha

def elevenCalls : List (Call Bool (Fin 4)) :=
  [.addTail 0 (.head true), .addTail 1 (.head true), .add 2 (.item 0), .delInit 1, .delInit 1,
    .cutPosition false true (.item 0), .moveTail 1 (.item 2), .replaceInit 2 3,
    .spliceTailInit false (.item 3), .rotateLeft true, .replaceHead true false]

theorem list_calls_eleven : ∃ h', execAll twoHeads elevenCalls = some h' ∧
    listForEachNext h' false 4 = some [0, 3, 1] ∧ Observed h' (noLists.afterAll elevenCalls) := by
  have hfine : noLists.FineAll elevenCalls := by decide
  rcases list_calls twoHeads_represents hfine with ⟨h', hexec, _, hobserved⟩
  refine ⟨h', hexec, ?_, hobserved⟩
  have hlists : (noLists.afterAll elevenCalls).lists false = [0, 3, 1] := by decide
  rw [← hlists]
  exact hobserved.next false 4 (by rw [hlists]; decide)

end Places

end ListHead
end UtilsC
