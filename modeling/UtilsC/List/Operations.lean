import Mathlib.Data.Fintype.Defs
import UtilsC.Lib.Rewire
import UtilsC.List.ListHead

/-!
# The operations of list.h as operations on lists

An entry is on a list, or it is initialised and on no list, or its links are not to be looked at.
A call is fine in a state when the entries and heads it is given are what the comments of the header
ask for; `Lists.after` is what it does to the lists.

* The functions below are those of the header that `ListHead` does not have, read by read and write
  by write.
* `Represents h m` ties a heap to the lists; `Refine` proves that every sequence of calls keeps it.
-/

namespace UtilsC
namespace ListHead

open Lib LinkHeap

variable {S A : Type} [DecidableEq S] [DecidableEq A]

/-! ## The functions -/

section Functions

variable (h : LinkHeap S A)

def listDelInit (entry : Loc S A) : Option (LinkHeap S A) :=
  (listDel h entry).map fun h => listInit h entry

def listMove (list head : Loc S A) : Option (LinkHeap S A) :=
  (listDel h list).bind fun h => listAdd h list head

def listMoveTail (list head : Loc S A) : Option (LinkHeap S A) :=
  (listDel h list).bind fun h => listAddTail h list head

def listReplace (old n : Loc S A) : Option (LinkHeap S A) := do
  let next ← h.getNext old
  let h ← h.setNext n next
  let h ← h.setPrev next n
  let prev ← h.getPrev old
  let h ← h.setPrev n prev
  h.setNext prev n

def listReplaceInit (old n : Loc S A) : Option (LinkHeap S A) :=
  (listReplace h old n).map fun h => listInit h old

def listIsLast (list head : Loc S A) : Bool :=
  h.next list = head

def listEmptyCareful (head : Loc S A) : Bool :=
  h.next head = head && h.next head = h.prev head

def listIsSingular (head : Loc S A) : Bool :=
  !listEmpty h head && h.next head = h.prev head

def listRotateLeft (head : Loc S A) : Option (LinkHeap S A) := do
  let first ← h.getNext head
  if listEmpty h head then some h else listMoveTail h first head

/-- `__list_cut_position`. -/
def listCutBetween (list head entry : Loc S A) : Option (LinkHeap S A) := do
  let newFirst ← h.getNext entry
  let first ← h.getNext head
  let h ← h.setNext list first
  let h ← h.setPrev first list
  let h ← h.setPrev list entry
  let h ← h.setNext entry list
  let h ← h.setNext head newFirst
  h.setPrev newFirst head

def listCutPosition (list head entry : Loc S A) : Option (LinkHeap S A) := do
  let first ← h.getNext head
  if listEmpty h head then some h
  else if listIsSingular h head && first ≠ entry && head ≠ entry then some h
  else if entry = head then some (listInit h list)
  else listCutBetween h list head entry

/-- `__list_splice`. -/
def listSpliceBetween (list prev next : Loc S A) : Option (LinkHeap S A) := do
  let first ← h.getNext list
  let last ← h.getPrev list
  let h ← h.setPrev first prev
  let h ← h.setNext prev first
  let h ← h.setNext last next
  h.setPrev next last

def listSplice (list head : Loc S A) : Option (LinkHeap S A) := do
  let _ ← h.getNext list
  if listEmpty h list then some h
  else
    let next ← h.getNext head
    listSpliceBetween h list head next

def listSpliceTail (list head : Loc S A) : Option (LinkHeap S A) := do
  let _ ← h.getNext list
  if listEmpty h list then some h
  else
    let prev ← h.getPrev head
    listSpliceBetween h list prev head

def listSpliceInit (list head : Loc S A) : Option (LinkHeap S A) := do
  let _ ← h.getNext list
  if listEmpty h list then some h
  else
    let next ← h.getNext head
    (listSpliceBetween h list head next).map fun h => listInit h list

def listSpliceTailInit (list head : Loc S A) : Option (LinkHeap S A) := do
  let _ ← h.getNext list
  if listEmpty h list then some h
  else
    let prev ← h.getPrev head
    (listSpliceBetween h list prev head).map fun h => listInit h list

/-- A walk along one of the two links, with the entries that it visits. -/
def listWalk (link : Loc S A → Loc S A) (s : S) : Nat → Loc S A → Option (List A)
  | 0, _ => none
  | _ + 1, Loc.head t => if t = s then some [] else none
  | fuel + 1, Loc.item a =>
      if h.live (Loc.item a) = true then
        (listWalk link s fuel (link (Loc.item a))).map fun visited => a :: visited
      else
        none

/-- `list_for_each`. -/
def listForEachNext (s : S) (fuel : Nat) : Option (List A) :=
  listWalk h h.next s fuel (h.next (Loc.head s))

def listForEachPrev (s : S) (fuel : Nat) : Option (List A) :=
  listWalk h h.prev s fuel (h.prev (Loc.head s))

end Functions

/-! ## The lists -/

/-- `single` are the entries that are initialised and on no list. -/
structure Lists (S A : Type) where
  lists : S → List A
  single : A → Bool
  live : A → Bool

inductive Call (S A : Type)
  | init (a : A)
  | initHead (s : S)
  | add (n : A) (head : Loc S A)
  | addTail (n : A) (head : Loc S A)
  | del (entry : A)
  | delInit (entry : A)
  | move (list : A) (head : Loc S A)
  | moveTail (list : A) (head : Loc S A)
  | replace (old n : A)
  | replaceInit (old n : A)
  /-- `list_replace_init` of a head by another -/
  | replaceHead (old n : S)
  | rotateLeft (head : S)
  | cutPosition (list head : S) (entry : Loc S A)
  /-- `list_splice`, after which the emptied head is initialised again -/
  | splice (list : S) (head : Loc S A)
  | spliceTail (list : S) (head : Loc S A)
  | spliceInit (list : S) (head : Loc S A)
  | spliceTailInit (list : S) (head : Loc S A)

def exec (h : LinkHeap S A) : Call S A → Option (LinkHeap S A)
  | .init a => if h.live (Loc.item a) = true then some (listInit h (Loc.item a)) else none
  | .initHead s => if h.live (Loc.head s) = true then some (listInit h (Loc.head s)) else none
  | .add n head => listAdd h (Loc.item n) head
  | .addTail n head => listAddTail h (Loc.item n) head
  | .del entry => listDel h (Loc.item entry)
  | .delInit entry => listDelInit h (Loc.item entry)
  | .move list head => listMove h (Loc.item list) head
  | .moveTail list head => listMoveTail h (Loc.item list) head
  | .replace old n => listReplace h (Loc.item old) (Loc.item n)
  | .replaceInit old n => listReplaceInit h (Loc.item old) (Loc.item n)
  | .replaceHead old n => listReplaceInit h (Loc.head old) (Loc.head n)
  | .rotateLeft head => listRotateLeft h (Loc.head head)
  | .cutPosition list head entry => listCutPosition h (Loc.head list) (Loc.head head) entry
  | .splice list head =>
      (listSplice h (Loc.head list) head).map fun h => listInit h (Loc.head list)
  | .spliceTail list head =>
      (listSpliceTail h (Loc.head list) head).map fun h => listInit h (Loc.head list)
  | .spliceInit list head => listSpliceInit h (Loc.head list) head
  | .spliceTailInit list head => listSpliceTailInit h (Loc.head list) head

/-- `zs` right behind a location. -/
def insertAfter (lists : S → List A) (zs : List A) : Loc S A → S → List A
  | .head s => Function.update lists s (zs ++ lists s)
  | .item b => fun t => (lists t).flatMap fun a => if a = b then a :: zs else [a]

/-- `zs` right in front of a location. -/
def insertBefore (lists : S → List A) (zs : List A) : Loc S A → S → List A
  | .head s => Function.update lists s (lists s ++ zs)
  | .item b => fun t => (lists t).flatMap fun a => if a = b then zs ++ [a] else [a]

namespace Lists

variable (m : Lists S A)

def erase (a : A) : Lists S A :=
  { m with lists := fun t => (m.lists t).erase a }

/-- The entry comes to a list. -/
def insert (a : A) (lists : S → List A) : Lists S A :=
  { m with lists := lists, single := Function.update m.single a false }

/-- `n` takes the place of `old`. -/
def replace (old n : A) : Lists S A :=
  { m with
    lists := fun t => (m.lists t).map fun a => if a = old then n else a
    single := Function.update (Function.update m.single n (m.single old)) old false }

def mark (a : A) : Lists S A :=
  { m with single := Function.update m.single a true }

/-- The items of `lists s` went elsewhere. -/
def clear (s : S) (lists : S → List A) : Lists S A :=
  { m with lists := Function.update lists s [] }

/-- The items up to the entry go to `list`, whatever was there. -/
def cut (list head : S) : Loc S A → Lists S A
  | .head _ => m.clear list m.lists
  | .item b =>
      { m with
        lists := Function.update
          (Function.update m.lists head ((m.lists head).dropWhile (· ≠ b)).tail)
          list ((m.lists head).takeWhile (· ≠ b) ++ [b]) }

def after : Call S A → Lists S A
  | .init a => m.mark a
  | .initHead s => m.clear s m.lists
  | .add n head => m.insert n (insertAfter m.lists [n] head)
  | .addTail n head => m.insert n (insertBefore m.lists [n] head)
  | .del entry => m.erase entry
  | .delInit entry => (m.erase entry).mark entry
  | .move list head => m.insert list (insertAfter (m.erase list).lists [list] head)
  | .moveTail list head => m.insert list (insertBefore (m.erase list).lists [list] head)
  | .replace old n => m.replace old n
  | .replaceInit old n => (m.replace old n).mark old
  | .replaceHead old n => m.clear old (Function.update m.lists n (m.lists old))
  | .rotateLeft head =>
      { m with
        lists := Function.update m.lists head ((m.lists head).drop 1 ++ (m.lists head).take 1) }
  | .cutPosition list head entry => if m.lists head = [] then m else m.cut list head entry
  | .splice list head => m.clear list (insertAfter m.lists (m.lists list) head)
  | .spliceTail list head => m.clear list (insertBefore m.lists (m.lists list) head)
  | .spliceInit list head => m.clear list (insertAfter m.lists (m.lists list) head)
  | .spliceTailInit list head => m.clear list (insertBefore m.lists (m.lists list) head)

def Unlinked (a : A) : Prop :=
  ∀ s, a ∉ m.lists s

/-- The entry may be deleted: it is on a list, or it is initialised. -/
def Deletable (a : A) : Prop :=
  (∃ s, a ∈ m.lists s) ∨ m.single a = true

/-- The entry may be added. -/
def Addable (a : A) : Prop :=
  m.live a = true ∧ m.Unlinked a

/-- The location is on a list other than that of `s`. -/
def Apart (s : S) (x : Loc S A) : Prop :=
  RingFamily.Linked m.lists x ∧ x ∉ cycle s (m.lists s)

def Fine : Call S A → Prop
  | .init a => m.Addable a
  | .initHead _ => True
  | .add n head => m.Addable n ∧ RingFamily.Linked m.lists head
  | .addTail n head => m.Addable n ∧ RingFamily.Linked m.lists head
  | .del entry => m.Deletable entry
  | .delInit entry => m.Deletable entry
  | .move list head =>
      m.Deletable list ∧ RingFamily.Linked m.lists head ∧ head ≠ Loc.item list
  | .moveTail list head =>
      m.Deletable list ∧ RingFamily.Linked m.lists head ∧ head ≠ Loc.item list
  | .replace old n => m.Deletable old ∧ m.Addable n ∧ n ≠ old
  | .replaceInit old n => m.Deletable old ∧ m.Addable n ∧ n ≠ old
  | .replaceHead old n => old ≠ n ∧ m.lists n = []
  | .rotateLeft _ => True
  | .cutPosition list head entry =>
      list ≠ head ∧ (entry = Loc.head head ∨ ∃ b ∈ m.lists head, entry = Loc.item b)
  | .splice list head => m.Apart list head
  | .spliceTail list head => m.Apart list head
  | .spliceInit list head => m.Apart list head
  | .spliceTailInit list head => m.Apart list head

/-- Each call is fine where it is made. -/
def FineAll : Lists S A → List (Call S A) → Prop
  | _, [] => True
  | m, call :: calls => m.Fine call ∧ (m.after call).FineAll calls

section Decidable

variable [Fintype S]

instance (a : A) : Decidable (m.Unlinked a) :=
  inferInstanceAs (Decidable (∀ s, a ∉ m.lists s))

instance (a : A) : Decidable (m.Deletable a) :=
  inferInstanceAs (Decidable ((∃ s, a ∈ m.lists s) ∨ m.single a = true))

instance (a : A) : Decidable (m.Addable a) :=
  inferInstanceAs (Decidable (m.live a = true ∧ m.Unlinked a))

instance (lists : S → List A) : DecidablePred (RingFamily.Linked lists)
  | .head _ => isTrue True.intro
  | .item a => inferInstanceAs (Decidable (∃ s, a ∈ lists s))

instance (s : S) (x : Loc S A) : Decidable (m.Apart s x) :=
  inferInstanceAs (Decidable (RingFamily.Linked m.lists x ∧ x ∉ cycle s (m.lists s)))

instance : DecidablePred m.Fine
  | .init a => inferInstanceAs (Decidable (m.Addable a))
  | .initHead _ => isTrue True.intro
  | .add n head => inferInstanceAs (Decidable (m.Addable n ∧ RingFamily.Linked m.lists head))
  | .addTail n head => inferInstanceAs (Decidable (m.Addable n ∧ RingFamily.Linked m.lists head))
  | .del entry => inferInstanceAs (Decidable (m.Deletable entry))
  | .delInit entry => inferInstanceAs (Decidable (m.Deletable entry))
  | .move list head =>
      inferInstanceAs (Decidable
        (m.Deletable list ∧ RingFamily.Linked m.lists head ∧ head ≠ Loc.item list))
  | .moveTail list head =>
      inferInstanceAs (Decidable
        (m.Deletable list ∧ RingFamily.Linked m.lists head ∧ head ≠ Loc.item list))
  | .replace old n => inferInstanceAs (Decidable (m.Deletable old ∧ m.Addable n ∧ n ≠ old))
  | .replaceInit old n => inferInstanceAs (Decidable (m.Deletable old ∧ m.Addable n ∧ n ≠ old))
  | .replaceHead old n => inferInstanceAs (Decidable (old ≠ n ∧ m.lists n = []))
  | .rotateLeft _ => isTrue True.intro
  | .cutPosition list head entry =>
      inferInstanceAs (Decidable
        (list ≠ head ∧ (entry = Loc.head head ∨ ∃ b ∈ m.lists head, entry = Loc.item b)))
  | .splice list head => inferInstanceAs (Decidable (m.Apart list head))
  | .spliceTail list head => inferInstanceAs (Decidable (m.Apart list head))
  | .spliceInit list head => inferInstanceAs (Decidable (m.Apart list head))
  | .spliceTailInit list head => inferInstanceAs (Decidable (m.Apart list head))

instance decidableFineAll : ∀ (m : Lists S A) (calls : List (Call S A)), Decidable (m.FineAll calls)
  | _, [] => isTrue True.intro
  | m, call :: calls =>
      have := decidableFineAll (m.after call) calls
      inferInstanceAs (Decidable (m.Fine call ∧ (m.after call).FineAll calls))

end Decidable

def afterAll (calls : List (Call S A)) : Lists S A :=
  calls.foldl after m

end Lists

def execAll : LinkHeap S A → List (Call S A) → Option (LinkHeap S A)
  | h, [] => some h
  | h, call :: calls => (exec h call).bind fun h => execAll h calls

/-- The heap holds these lists. -/
structure Represents (h : LinkHeap S A) (m : Lists S A) : Prop where
  family : RingFamily h m.lists
  live : ∀ a, h.live (Loc.item a) = m.live a
  single : ∀ a, m.single a = true → h.Adj (Loc.item a) (Loc.item a) ∧ m.Addable a

end ListHead
end UtilsC
