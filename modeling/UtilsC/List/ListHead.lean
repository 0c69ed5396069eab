import UtilsC.Lib.Ring

/-!
# list.h — the intrusive doubly linked list

The operations are the pointer writes of the header, in its order.  An operation answers `none`
when it would read or write a `list_head` that is not in live memory.

`list_del` leaves the pointers of the deleted entry as they are: a later `list_del` of the same
entry writes to whatever its old neighbours have become.  The lemmas therefore ask for an entry
that is linked; what happens otherwise is the business of the callers.
-/

namespace UtilsC
namespace ListHead

open Lib

variable {S A : Type} [DecidableEq S] [DecidableEq A]

def listInit (h : LinkHeap S A) (list : Loc S A) : LinkHeap S A :=
  { live := h.live
    next := Function.update h.next list list
    prev := Function.update h.prev list list }

/-- `__list_add`: four writes, of which `splice` is the sum. -/
def listAddBetween (h : LinkHeap S A) (n prev next : Loc S A) : Option (LinkHeap S A) :=
  if h.live n = true ∧ h.live prev = true ∧ h.live next = true then
    some (h.splice n prev next)
  else
    none

def listAdd (h : LinkHeap S A) (n head : Loc S A) : Option (LinkHeap S A) :=
  if h.live head = true then listAddBetween h n head (h.next head) else none

def listAddTail (h : LinkHeap S A) (n head : Loc S A) : Option (LinkHeap S A) :=
  if h.live head = true then listAddBetween h n (h.prev head) head else none

/-- `__list_del`. -/
def listDelBetween (h : LinkHeap S A) (prev next : Loc S A) : Option (LinkHeap S A) :=
  if h.live prev = true ∧ h.live next = true then some (h.unlink prev next) else none

def listDel (h : LinkHeap S A) (entry : Loc S A) : Option (LinkHeap S A) :=
  if h.live entry = true then
    listDelBetween h (h.prev entry) (h.next entry)
  else
    none

def listEmpty (h : LinkHeap S A) (head : Loc S A) : Bool :=
  h.next head = head

section ForEach

variable {σ : Type} (links : σ → LinkHeap S A) (body : A → σ → Option σ) (s : S)

/-- `list_for_each_safe (pos, n, head)` from `pos` on: `n` is read before the body runs.  The fuel
bounds the number of entries visited. -/
def listForEachSafe : Nat → Loc S A → σ → Option σ
  | 0, _, _ => none
  | _ + 1, Loc.head t, st => if t = s then some st else none
  | fuel + 1, Loc.item a, st =>
      if (links st).live (Loc.item a) = true then
        let n := (links st).next (Loc.item a)
        (body a st).bind fun st' => listForEachSafe fuel n st'
      else
        none

def listForEach (fuel : Nat) (st : σ) : Option σ :=
  listForEachSafe links body s fuel ((links st).next (Loc.head s)) st

omit [DecidableEq A] in
/-- More fuel never changes a result. -/
theorem listForEachSafe_mono {fuel fuel' : Nat} (hle : fuel ≤ fuel') {pos : Loc S A}
    {st st' : σ} (hret : listForEachSafe links body s fuel pos st = some st') :
    listForEachSafe links body s fuel' pos st = some st' := by
  induction fuel generalizing fuel' pos st with
  | zero => simp [listForEachSafe] at hret
  | succ fuel ih =>
      cases fuel' with
      | zero => omega
      | succ fuel' =>
          have hle' : fuel ≤ fuel' := Nat.le_of_succ_le_succ hle
          cases pos with
          | head t => simpa [listForEachSafe] using hret
          | item a =>
              by_cases hlive : (links st).live (Loc.item a) = true
              · simp only [listForEachSafe, hlive, if_true] at hret ⊢
                rcases Option.bind_eq_some_iff.1 hret with ⟨st₁, hbody, hrest⟩
                exact Option.bind_eq_some_iff.2 ⟨st₁, hbody, ih hle' hrest⟩
              · simp [listForEachSafe, hlive] at hret

end ForEach

/-! ## The operations on a family of lists -/

section Family

variable {h : LinkHeap S A} {lists : S → List A} {s : S} {a : A}

theorem listEmpty_iff (hF : RingFamily h lists) :
    listEmpty h (Loc.head s) = true ↔ lists s = [] := by
  have hnext := hF.next_head_eq s
  cases hs : lists s with
  | nil => simp [listEmpty, hnext, hs]
  | cons a xs => simp [listEmpty, hnext, hs]

theorem listDel_linked (hF : RingFamily h lists) (ha : a ∈ lists s) :
    ∃ h', listDel h (Loc.item a) = some h' ∧ h'.live = h.live ∧
      RingFamily h' (fun t => (lists t).erase a) := by
  have hlive : h.live (Loc.item a) = true := hF.live_item s a ha
  have hprev := hF.live_prev ha
  have hnext := hF.live_next ha
  refine ⟨h.unlink (h.prev (Loc.item a)) (h.next (Loc.item a)), ?_, rfl, hF.unlink_erase ha⟩
  simp [listDel, listDelBetween, hlive, hprev, hnext]

theorem listAddTail_unlinked (hF : RingFamily h lists) (hfree : ∀ t, a ∉ lists t)
    (hlive : h.live (Loc.item a) = true) (s : S) :
    ∃ h', listAddTail h (Loc.item a) (Loc.head s) = some h' ∧ h'.live = h.live ∧
      RingFamily h' (Function.update lists s (lists s ++ [a])) := by
  have hhead := hF.live_head s
  have hprev := hF.live_prev_head s
  refine ⟨h.splice (Loc.item a) (h.prev (Loc.head s)) (Loc.head s), ?_, rfl,
    hF.append hfree hlive⟩
  simp [listAddTail, listAddBetween, hlive, hhead, hprev]

theorem listAdd_unlinked (hF : RingFamily h lists) (hfree : ∀ t, a ∉ lists t)
    (hlive : h.live (Loc.item a) = true) (s : S) :
    ∃ h', listAdd h (Loc.item a) (Loc.head s) = some h' ∧ h'.live = h.live ∧
      RingFamily h' (Function.update lists s (a :: lists s)) := by
  have hhead := hF.live_head s
  have hnext : h.live (h.next (Loc.head s)) = true := by
    rw [hF.next_head_eq s]
    exact hF.live_first (List.Subset.refl _)
  refine ⟨h.splice (Loc.item a) (Loc.head s) (h.next (Loc.head s)), ?_, rfl,
    hF.prepend hfree hlive⟩
  simp [listAdd, listAddBetween, hlive, hhead, hnext]

end Family

end ListHead
end UtilsC
