import Mathlib.Algebra.Group.Nat.Defs
import Mathlib.Logic.Function.Basic
import Mathlib.Order.Lattice

/-!
# skiplist.c — nodes in memory, insertion and deletion

A node is a block of memory with room for `size` levels; `size` is 0 where no block is.  Reading or
writing a level outside of a block is an error (`none`), as is comparing the object of a node that
has none.  The walks along a level are bounded by a fuel; running out of it is `none` as well.

Spans are 32-bit numbers and `length` is a 64-bit number, as in the source.  The objects and their
two comparison functions are not part of the source: they come as `ObjectOps`.
-/

namespace UtilsC
namespace Skiplist

/-- `ZSKIPLIST_MAXLEVEL`. -/
def zskiplistMaxlevel : Nat := 32

/-- `compareStringObjects` and `equalStringObjects`. -/
structure ObjectOps (O : Type) where
  compareStringObjects : O → O → Int
  equalStringObjects : O → O → Bool

structure ZskiplistLevel (A : Type) where
  forward : Option A
  span : UInt32
  deriving DecidableEq

structure ZskiplistNode (S O A : Type) where
  obj : Option O
  score : S
  backward : Option A
  level : Nat → ZskiplistLevel A

structure Memory (S O A : Type) where
  size : A → Nat
  node : A → ZskiplistNode S O A

structure Zskiplist (S O A : Type) where
  mem : Memory S O A
  header : A
  tail : Option A
  length : UInt64
  level : Nat

variable {S O A : Type} [LinearOrder S] [DecidableEq A]

/-! ## Memory -/

namespace Memory

omit [LinearOrder S] [DecidableEq A] in
def readLevel (mem : Memory S O A) (a : A) (i : Nat) : Option (ZskiplistLevel A) :=
  if i < mem.size a then some ((mem.node a).level i) else none

omit [LinearOrder S] in
def writeLevel (mem : Memory S O A) (a : A) (i : Nat) (l : ZskiplistLevel A) :
    Option (Memory S O A) :=
  if i < mem.size a then
    some
      { mem with
        node := Function.update mem.node a
          { mem.node a with level := Function.update (mem.node a).level i l } }
  else
    none

omit [LinearOrder S] in
def writeBackward (mem : Memory S O A) (a : A) (b : Option A) : Option (Memory S O A) :=
  if 0 < mem.size a then
    some { mem with node := Function.update mem.node a { mem.node a with backward := b } }
  else
    none

end Memory

/-- What `malloc` returns: memory that is not in use, with whatever was there. -/
structure Block (S O A : Type) where
  addr : A
  content : ZskiplistNode S O A

def zslCreateNode (block : Block S O A) (level : Nat) (score : S) (obj : Option O)
    (mem : Memory S O A) : Memory S O A :=
  { size := Function.update mem.size block.addr level
    node := Function.update mem.node block.addr
      { block.content with score := score, obj := obj } }

def zslFreeNode (a : A) (mem : Memory S O A) : Memory S O A :=
  { mem with size := Function.update mem.size a 0 }

/-- `zslCreate`, in a memory without blocks; `node` is what lies there. -/
def zslCreate [Zero S] (node : A → ZskiplistNode S O A) (header : A) : Zskiplist S O A :=
  let mem := zslCreateNode ⟨header, node header⟩ zskiplistMaxlevel 0 none
    { size := fun _ => 0, node := node }
  let head : ZskiplistNode S O A :=
    { mem.node header with
      backward := none
      level := fun j =>
        if j < zskiplistMaxlevel then ⟨none, 0⟩ else (mem.node header).level j }
  { mem := { mem with node := Function.update mem.node header head }
    header := header
    tail := none
    length := 0
    level := 1 }

/-- `zslRandomLevel`; `hits` is how many draws in a row stay below `ZSKIPLIST_P * 0xFFFF`. -/
def zslRandomLevel (hits : Nat) : Nat :=
  let level := 1 + hits
  if level < zskiplistMaxlevel then level else zskiplistMaxlevel

/-! ## The search -/

/-- The loop condition of both searches, at the node `forward` points to. -/
def before (ops : ObjectOps O) (mem : Memory S O A) (score : S) (obj : O) (y : A) :
    Option Bool :=
  if 0 < mem.size y then
    if (mem.node y).score < score then
      some true
    else if (mem.node y).score = score then
      (mem.node y).obj.map fun o => decide (ops.compareStringObjects o obj < 0)
    else
      some false
  else
    none

/-- The `while` loop on level `i`: to the right as long as the next node lies before. -/
def walk (ops : ObjectOps O) (mem : Memory S O A) (score : S) (obj : O) (i : Nat) :
    Nat → A → UInt32 → Option (A × UInt32)
  | 0, _, _ => none
  | fuel + 1, x, rank =>
      (mem.readLevel x i).bind fun l =>
        match l.forward with
        | none => some (x, rank)
        | some y =>
            (before ops mem score obj y).bind fun b =>
              if b = true then walk ops mem score obj i fuel y (rank + l.span)
              else some (x, rank)

/-- The `for` loop from level `i - 1` down.  The result is `update` and `rank`, by level. -/
def search (ops : ObjectOps O) (mem : Memory S O A) (score : S) (obj : O) (fuel : Nat) :
    Nat → A → UInt32 → Option (List (A × UInt32))
  | 0, _, _ => some []
  | i + 1, x, rank =>
      (walk ops mem score obj i fuel x rank).bind fun found =>
        (search ops mem score obj fuel i found.1 found.2).map fun below => below ++ [found]

/-! ## The loops over the levels -/

/-- `for (i = ...; ...; i++)` over the entries of `update` from level `i` on. -/
def forLevels {P : Type} (body : Nat → P → Memory S O A → Option (Memory S O A)) :
    Nat → List P → Memory S O A → Option (Memory S O A)
  | _, [], mem => some mem
  | i, p :: ps, mem => (body i p mem).bind (forLevels body (i + 1) ps)

/-- A level that is new to the list: the header's link spans all of it. -/
def growLevel (length : UInt64) (i : Nat) (p : A × UInt32) (mem : Memory S O A) :
    Option (Memory S O A) :=
  (mem.readLevel p.1 i).bind fun l =>
    mem.writeLevel p.1 i { l with span := length.toUInt32 }

/-- Link the new node `x` behind `update[i]`. -/
def linkLevel (x : A) (rank₀ : UInt32) (i : Nat) (p : A × UInt32) (mem : Memory S O A) :
    Option (Memory S O A) :=
  (mem.readLevel p.1 i).bind fun l =>
    (mem.writeLevel x i ⟨l.forward, l.span - (rank₀ - p.2)⟩).bind fun mem =>
      mem.writeLevel p.1 i ⟨some x, (rank₀ - p.2) + 1⟩

/-- A level the new node does not reach. -/
def bumpLevel (i : Nat) (p : A × UInt32) (mem : Memory S O A) : Option (Memory S O A) :=
  (mem.readLevel p.1 i).bind fun l =>
    mem.writeLevel p.1 i { l with span := l.span + 1 }

def unlinkLevel (x : A) (i : Nat) (u : A) (mem : Memory S O A) : Option (Memory S O A) :=
  (mem.readLevel u i).bind fun l =>
    if l.forward = some x then
      (mem.readLevel x i).bind fun lx =>
        mem.writeLevel u i ⟨lx.forward, l.span + (lx.span - 1)⟩
    else
      mem.writeLevel u i { l with span := l.span - 1 }

/-! ## Inserting -/

/-- `x->level[0].forward->backward = b`, or `zsl->tail = b` at the end of the list. -/
def setBackward (x : A) (b : Option A) (mem : Memory S O A) (tail : Option A) :
    Option (Memory S O A × Option A) :=
  (mem.readLevel x 0).bind fun l =>
    match l.forward with
    | some y => (mem.writeBackward y b).map fun mem' => (mem', tail)
    | none => some (mem, b)

def zslInsert (ops : ObjectOps O) (fuel : Nat) (malloc : Block S O A) (hits : Nat) (score : S)
    (obj : O) (zsl : Zskiplist S O A) : Option (Zskiplist S O A × A) :=
  (search ops zsl.mem score obj fuel zsl.level zsl.header 0).bind fun found =>
    let level := zslRandomLevel hits
    let grown := List.replicate (level - zsl.level) (zsl.header, (0 : UInt32))
    let update := found ++ grown
    (forLevels (growLevel zsl.length) zsl.level grown zsl.mem).bind fun mem =>
      let x := malloc.addr
      let mem := zslCreateNode malloc level score (some obj) mem
      (update.head?).bind fun u₀ =>
        (forLevels (linkLevel x u₀.2) 0 (update.take level) mem).bind fun mem =>
          (forLevels bumpLevel level (update.drop level) mem).bind fun mem =>
            (mem.writeBackward x (if u₀.1 = zsl.header then none else some u₀.1)).bind fun mem =>
              (setBackward x (some x) mem zsl.tail).map fun r =>
                ({ zsl with
                    mem := r.1
                    tail := r.2
                    length := zsl.length + 1
                    level := max zsl.level level }, x)

/-! ## Deleting -/

/-- `while (zsl->level > 1 && ...) zsl->level--`. -/
def shrinkLevel (mem : Memory S O A) (header : A) : Nat → Option Nat
  | 0 => some 0
  | n + 1 =>
      if 1 < n + 1 then
        (mem.readLevel header n).bind fun l =>
          if l.forward = none then shrinkLevel mem header n else some (n + 1)
      else
        some (n + 1)

def zslDeleteNode (x : A) (update : List A) (zsl : Zskiplist S O A) :
    Option (Zskiplist S O A) :=
  (forLevels (unlinkLevel x) 0 update zsl.mem).bind fun mem =>
    (setBackward x (mem.node x).backward mem zsl.tail).bind fun r =>
      (shrinkLevel r.1 zsl.header zsl.level).map fun level =>
        { zsl with
          mem := r.1
          tail := r.2
          length := zsl.length - 1
          level := level }

/-- The node found is the pair searched for. -/
def isPair (ops : ObjectOps O) (mem : Memory S O A) (score : S) (obj : O) (x : A) :
    Option Bool :=
  if 0 < mem.size x then
    if score = (mem.node x).score then
      (mem.node x).obj.map fun o => ops.equalStringObjects o obj
    else
      some false
  else
    none

/-- `zslDelete`.  Its search is that of `zslInsert` without `rank`. -/
def zslDelete (ops : ObjectOps O) (fuel : Nat) (score : S) (obj : O) (zsl : Zskiplist S O A) :
    Option (Zskiplist S O A × Int) :=
  (search ops zsl.mem score obj fuel zsl.level zsl.header 0).bind fun found =>
    (found.head?).bind fun u₀ =>
      (zsl.mem.readLevel u₀.1 0).bind fun l =>
        match l.forward with
        | none => some (zsl, 0)
        | some x =>
            (isPair ops zsl.mem score obj x).bind fun b =>
              if b = true then
                (zslDeleteNode x (found.map Prod.fst) zsl).map fun zsl' =>
                  ({ zsl' with mem := zslFreeNode x zsl'.mem }, 1)
              else
                some (zsl, 0)

end Skiplist
end UtilsC
