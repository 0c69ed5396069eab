import Mathlib.Algebra.Order.Group.Multiset
import Mathlib.Data.Multiset.Range
import Mathlib.Data.Multiset.UnionInter

/-!
# Blocks of memory and their owners

Blocks get the numbers 0, 1, 2, … as they are allocated.  The heap knows which of them have been
freed; a block that is freed must be live.

* `Balanced h owned` says that every block allocated so far is owned, once, or was freed, once.
* The step lemmas are `Balanced.alloc` and `Balanced.free`; `Balanced.live` is what an owner may
  rely on.
-/

namespace UtilsC
namespace Lib

structure BlockHeap where
  count : Nat
  freed : List Nat

namespace BlockHeap

variable (h : BlockHeap)

def empty : BlockHeap where
  count := 0
  freed := []

def live (b : Nat) : Bool :=
  b < h.count && !h.freed.contains b

/-- The new block has the number `h.count`. -/
def alloc : BlockHeap :=
  { h with count := h.count + 1 }

def free (b : Nat) : Option BlockHeap :=
  if h.live b then some { h with freed := h.freed ++ [b] } else none

/-- Blocks are freed one after another. -/
def freeAll : List Nat → BlockHeap → Option BlockHeap
  | [], h => some h
  | b :: bs, h => (h.free b).bind (freeAll bs)

theorem freeAll_freed {bs : List Nat} : ∀ {h h' : BlockHeap}, freeAll bs h = some h' →
    h'.freed = h.freed ++ bs := by
  induction bs with
  | nil =>
      intro h h' hfrees
      cases hfrees
      rw [List.append_nil]
  | cons b bs ih =>
      intro h h' hfrees
      rcases Option.bind_eq_some_iff.1 hfrees with ⟨mid, hfree, hrest⟩
      unfold free at hfree
      split at hfree
      · cases hfree
        rw [ih hrest, List.append_assoc, List.singleton_append]
      · cases hfree

theorem live_eq_false {b : Nat} (hmem : b ∈ h.freed) : h.live b = false := by
  simp [live, hmem]

/-- Every block is in one place. -/
def Balanced (owned : Multiset Nat) : Prop :=
  owned + (h.freed : Multiset Nat) = Multiset.range h.count

variable {h} {owned : Multiset Nat} {b : Nat}

theorem empty_balanced : empty.Balanced 0 := rfl

namespace Balanced

theorem nodup (hB : h.Balanced owned) : (owned + (h.freed : Multiset Nat)).Nodup := by
  rw [hB]
  exact Multiset.nodup_range _

theorem owned_nodup (hB : h.Balanced owned) : owned.Nodup :=
  (Multiset.nodup_add.1 hB.nodup).1

theorem freed_nodup (hB : h.Balanced owned) : h.freed.Nodup :=
  Multiset.coe_nodup.1 (Multiset.nodup_add.1 hB.nodup).2.1

theorem mem_iff (hB : h.Balanced owned) : b < h.count ↔ b ∈ owned ∨ b ∈ h.freed := by
  rw [← Multiset.mem_range, ← hB, Multiset.mem_add, Multiset.mem_coe]

/-- What is owned is live, and nothing else is. -/
theorem live_iff (hB : h.Balanced owned) : h.live b = true ↔ b ∈ owned := by
  simp only [BlockHeap.live, Bool.and_eq_true, decide_eq_true_eq, Bool.not_eq_true',
    List.contains_eq_mem, decide_eq_false_iff_not, hB.mem_iff]
  refine ⟨fun hlive => hlive.1.resolve_right hlive.2, fun hmem => ⟨Or.inl hmem, fun hfreed => ?_⟩⟩
  exact Multiset.disjoint_left.1 (Multiset.nodup_add.1 hB.nodup).2.2 hmem
    (Multiset.mem_coe.2 hfreed)

theorem live (hB : h.Balanced owned) (hmem : b ∈ owned) : h.live b = true :=
  hB.live_iff.2 hmem

theorem alloc (hB : h.Balanced owned) : h.alloc.Balanced (h.count ::ₘ owned) := by
  show h.count ::ₘ owned + (h.freed : Multiset Nat) = Multiset.range (h.count + 1)
  rw [Multiset.range_succ, Multiset.cons_add, hB]

theorem free (hB : h.Balanced (b ::ₘ owned)) :
    ∃ h', h.free b = some h' ∧ h'.Balanced owned := by
  have hlive := hB.live (Multiset.mem_cons_self b owned)
  refine ⟨_, if_pos hlive, ?_⟩
  have hsnoc : ((h.freed ++ [b] : List Nat) : Multiset Nat) = b ::ₘ (h.freed : Multiset Nat) :=
    Multiset.coe_eq_coe.2 (List.perm_append_singleton b h.freed)
  show owned + ((h.freed ++ [b] : List Nat) : Multiset Nat) = Multiset.range h.count
  rw [hsnoc, Multiset.add_cons, ← Multiset.cons_add]
  exact hB

theorem freeAll {bs : List Nat} : ∀ {h : BlockHeap}, h.Balanced ((bs : Multiset Nat) + owned) →
    ∃ h', BlockHeap.freeAll bs h = some h' ∧ h'.Balanced owned := by
  induction bs with
  | nil =>
      intro h hB
      exact ⟨h, rfl, by simpa using hB⟩
  | cons b bs ih =>
      intro h hB
      rw [← Multiset.cons_coe, Multiset.cons_add] at hB
      rcases hB.free with ⟨h₁, hfree, hB₁⟩
      rcases ih hB₁ with ⟨h₂, hfrees, hB₂⟩
      exact ⟨h₂, by rw [BlockHeap.freeAll, hfree, Option.bind_some, hfrees], hB₂⟩

/-- A block that is freed where it was allocated. -/
theorem alloc_free (hB : h.Balanced owned) :
    ∃ h', h.alloc.free h.count = some h' ∧ h'.freed = h.freed ++ [h.count] ∧ h'.Balanced owned := by
  rcases hB.alloc.free with ⟨h', hfree, hB'⟩
  refine ⟨h', hfree, ?_, hB'⟩
  unfold BlockHeap.free at hfree
  split at hfree
  · cases hfree
    rfl
  · cases hfree

end Balanced
end BlockHeap

private theorem add_middle {A D x y u v : Multiset Nat} (huv : y + u = x + v) :
    A + (y + D) + u = A + (x + D) + v := by
  calc A + (y + D) + u = A + D + (y + u) := by
        rw [add_comm y D, ← add_assoc, add_assoc (A + D)]
    _ = A + D + (x + v) := by rw [huv]
    _ = A + (x + D) + v := by rw [add_comm x D, ← add_assoc A, add_assoc (A + D)]

/-- One entry of a list of owners is replaced: `u` goes and `v` comes. -/
theorem coe_flatMap_set {α : Type} {f : α → List Nat} {l : List α} {k : Nat} {x y : α}
    (hx : l[k]? = some x) {u v : Multiset Nat}
    (huv : (f y : Multiset Nat) + u = (f x : Multiset Nat) + v) :
    (((l.set k y).flatMap f : List Nat) : Multiset Nat) + u =
      ((l.flatMap f : List Nat) : Multiset Nat) + v := by
  rcases List.getElem?_eq_some_iff.1 hx with ⟨hk, rfl⟩
  have hsplit : l = l.take k ++ l[k] :: l.drop (k + 1) := by
    rw [← List.drop_eq_getElem_cons hk, List.take_append_drop]
  rw [List.set_eq_take_append_cons_drop, if_pos hk]
  conv_rhs => rw [hsplit]
  simp only [List.flatMap_append, List.flatMap_cons, ← Multiset.coe_add]
  exact add_middle huv

end Lib
end UtilsC
