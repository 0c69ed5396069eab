import UtilsC.List.ListHead
import Mathlib.Algebra.Group.Int.Defs
import Mathlib.Algebra.Order.Ring.Nat
import Mathlib.Data.Int.Basic
import Mathlib.Data.Fin.Basic

/-!
# The timer wheel — `uc_time.c`

Five wheels of lists (milliseconds, seconds, minutes, hours, days) and a clock of five indices.
A timer is linked in one list; a tick moves the clock by one millisecond, fires the timers of the
millisecond list it reaches and, when a lower index comes round to 0, empties the list the next
higher index reaches: its timers fall to lower wheels or fire.

* A handle is the address of a `uc_timer_item_t`; freed addresses may be handed out again.
* `tasks` collects what the wheel gives to `uc_threadpool_add_void_task`, the handle included.
* An operation answers `none` when it would touch memory that is not live, or when a loop of a
  tick would visit more than `fuel` entries.
-/

namespace UtilsC
namespace Time

open Lib ListHead

/-! Every wheel has a list 0, and there is a day 0. -/

instance neZeroMs : NeZero 1000 := ⟨by decide⟩

instance neZeroS : NeZero 60 := ⟨by decide⟩

instance neZeroH : NeZero 24 := ⟨by decide⟩

instance neZeroD : NeZero 1 := ⟨by decide⟩

instance neZeroDay : NeZero 65536 := ⟨by decide⟩

/-- The list heads of `uc_timer_manager_t`. -/
inductive Slot
  | ms (i : Fin 1000)
  | s (i : Fin 60)
  | m (i : Fin 60)
  | h (i : Fin 24)
  | d (i : Fin 1)
  deriving DecidableEq

/-- The five `uint16_t` that hold a time: the clock's indices, or a timer's next deadline.  Every
assignment in the source reduces the first four into these ranges. -/
structure Stamp where
  ms : Fin 1000
  s : Fin 60
  m : Fin 60
  h : Fin 24
  d : Fin 65536
  deriving DecidableEq

structure UcTimerItem (F X : Type) where
  interval : Nat
  ttl : Nat
  next : Stamp
  cb : F
  arg : X

structure UcTimerManager (A F X : Type) where
  links : LinkHeap Slot A
  item : A → UcTimerItem F X
  idx : Stamp
  tasks : List (A × F × X)

def timerIntervalMax : Nat := 20 * 365 * 24 * 60 * 60 * 1000

/-! ## Deadlines -/

/-- The sum of the indices, computed in 32-bit `int`. -/
def millisecondNow (idx : Stamp) : Int :=
  Int.bmod (idx.ms + idx.s * 1000 + idx.m * 1000 * 60 + idx.h * 1000 * 60 * 60 +
    idx.d * 1000 * 60 * 60 * 24) (2 ^ 32)

/-- `millisecond_next`, a `uint64_t`. -/
def millisecondNext (idx : Stamp) (interval : Nat) : Nat :=
  ((millisecondNow idx + interval) % 2 ^ 64).toNat

/-- The five digits of a number of milliseconds; the day is cut to 16 bits. -/
def Stamp.ofMillisecond (x : Nat) : Stamp :=
  { ms := Fin.ofNat 1000 x
    s := Fin.ofNat 60 (x / 1000)
    m := Fin.ofNat 60 (x / 1000 / 60)
    h := Fin.ofNat 24 (x / 1000 / 60 / 60)
    d := Fin.ofNat 65536 (x / 1000 / 60 / 60 / 24) }

/-- The list `uc_timer_node_reinsert` chooses: the highest digit that is neither 0 nor the
clock's. -/
def reinsertSlot (idx next : Stamp) : Slot :=
  if next.d ≠ 0 ∧ next.d ≠ idx.d then Slot.d 0
  else if next.h ≠ 0 ∧ next.h ≠ idx.h then Slot.h next.h
  else if next.m ≠ 0 ∧ next.m ≠ idx.m then Slot.m next.m
  else if next.s ≠ 0 ∧ next.s ≠ idx.s then Slot.s next.s
  else Slot.ms next.ms

/-- The list `uc_timer_add_do` chooses: the highest digit that is not 0. -/
def addSlot (next : Stamp) : Slot :=
  if next.d ≠ 0 then Slot.d 0
  else if next.h ≠ 0 then Slot.h next.h
  else if next.m ≠ 0 then Slot.m next.m
  else if next.s ≠ 0 then Slot.s next.s
  else Slot.ms next.ms

section Operations

variable {A F X : Type} [DecidableEq A]

namespace UcTimerManager

def setItem (mgr : UcTimerManager A F X) (a : A) (it : UcTimerItem F X) : UcTimerManager A F X :=
  { mgr with item := Function.update mgr.item a it }

/-- `list_del (&timer->list)`. -/
def del (mgr : UcTimerManager A F X) (a : A) : Option (UcTimerManager A F X) :=
  (listDel mgr.links (Loc.item a)).map fun links => { mgr with links := links }

/-- `list_add_tail (&timer->list, &slot)`. -/
def addTail (mgr : UcTimerManager A F X) (a : A) (slot : Slot) :
    Option (UcTimerManager A F X) :=
  (listAddTail mgr.links (Loc.item a) (Loc.head slot)).map fun links =>
    { mgr with links := links }

def ucThreadpoolAddVoidTask (mgr : UcTimerManager A F X) (a : A) : UcTimerManager A F X :=
  { mgr with tasks := mgr.tasks ++ [(a, (mgr.item a).cb, (mgr.item a).arg)] }

end UcTimerManager

open UcTimerManager

/-! ## Ticks -/

def ucTimerNodeReinsert (mgr : UcTimerManager A F X) (a : A) : Option (UcTimerManager A F X) :=
  let next := Stamp.ofMillisecond (millisecondNext mgr.idx (mgr.item a).interval)
  (mgr.setItem a { mgr.item a with next := next }).addTail a (reinsertSlot mgr.idx next)

/-- The block that every stage repeats for a timer whose deadline is reached: hand the callback to
the pool, then put the timer back or, after its last time, leave it unlinked. -/
def timeout (mgr : UcTimerManager A F X) (a : A) : Option (UcTimerManager A F X) :=
  let mgr := mgr.ucThreadpoolAddVoidTask a
  if (mgr.item a).ttl = 0 then
    (mgr.del a).bind fun mgr => ucTimerNodeReinsert mgr a
  else
    let mgr := mgr.setItem a { mgr.item a with ttl := (mgr.item a).ttl - 1 }
    if (mgr.item a).ttl = 0 then
      mgr.del a
    else
      (mgr.del a).bind fun mgr => ucTimerNodeReinsert mgr a

/-- What a stage does with a timer of the list it visits. -/
inductive Act
  | keep
  | cascade (slot : Slot)
  | timeout
  deriving DecidableEq

def Act.run (act : Act) (mgr : UcTimerManager A F X) (a : A) : Option (UcTimerManager A F X) :=
  match act with
  | .keep => some mgr
  | .cascade slot => (mgr.del a).bind fun mgr => mgr.addTail a slot
  | .timeout => Time.timeout mgr a

/-- One of the five blocks of `uc_timer_check_timeout`: when it is due it moves its index and
visits one list. -/
structure Stage where
  due : Stamp → Bool
  advance : Stamp → Stamp
  slot : Stamp → Slot
  act : Stamp → Stamp → Act

def Stage.run (stage : Stage) (fuel : Nat) (mgr : UcTimerManager A F X) :
    Option (UcTimerManager A F X) :=
  if stage.due mgr.idx = true then
    let mgr := { mgr with idx := stage.advance mgr.idx }
    listForEach UcTimerManager.links
      (fun a mgr => (stage.act mgr.idx (mgr.item a).next).run mgr a)
      (stage.slot mgr.idx) fuel mgr
  else
    some mgr

def msStage : Stage :=
  { due := fun _ => true
    advance := fun idx => { idx with ms := idx.ms + 1 }
    slot := fun idx => Slot.ms idx.ms
    act := fun _ _ => .timeout }

def sStage : Stage :=
  { due := fun idx => idx.ms = 0
    advance := fun idx => { idx with s := idx.s + 1 }
    slot := fun idx => Slot.s idx.s
    act := fun _ next => if next.ms ≠ 0 then .cascade (Slot.ms next.ms) else .timeout }

def mStage : Stage :=
  { due := fun idx => idx.ms = 0 ∧ idx.s = 0
    advance := fun idx => { idx with m := idx.m + 1 }
    slot := fun idx => Slot.m idx.m
    act := fun _ next =>
      if next.s ≠ 0 then .cascade (Slot.s next.s)
      else if next.ms ≠ 0 then .cascade (Slot.ms next.ms)
      else .timeout }

def hStage : Stage :=
  { due := fun idx => idx.ms = 0 ∧ idx.s = 0 ∧ idx.m = 0
    advance := fun idx => { idx with h := idx.h + 1 }
    slot := fun idx => Slot.h idx.h
    act := fun _ next =>
      if next.m ≠ 0 then .cascade (Slot.m next.m)
      else if next.s ≠ 0 then .cascade (Slot.s next.s)
      else if next.ms ≠ 0 then .cascade (Slot.ms next.ms)
      else .timeout }

/-- The last wheel has one list for all days, so only this stage compares the day. -/
def dStage : Stage :=
  { due := fun idx => idx.ms = 0 ∧ idx.s = 0 ∧ idx.m = 0 ∧ idx.h = 0
    advance := fun idx => { idx with d := idx.d + 1 }
    slot := fun _ => Slot.d 0
    act := fun idx next =>
      if next.d = idx.d then
        if next.h ≠ 0 then .cascade (Slot.h next.h)
        else if next.m ≠ 0 then .cascade (Slot.m next.m)
        else if next.s ≠ 0 then .cascade (Slot.s next.s)
        else if next.ms ≠ 0 then .cascade (Slot.ms next.ms)
        else .timeout
      else .keep }

def stages : List Stage := [msStage, sStage, mStage, hStage, dStage]

/-- One round of the loop of `uc_timer_check_timeout`, between lock and unlock. -/
def ucTimerCheckTimeout (fuel : Nat) (mgr : UcTimerManager A F X) :
    Option (UcTimerManager A F X) :=
  stages.foldlM (fun mgr stage => stage.run fuel mgr) mgr

/-! ## The interface -/

/-- What the `INIT_LIST_HEAD` loops leave: every list empty.  `mem` is what unallocated memory
happens to hold. -/
def emptyManager (mem : A → UcTimerItem F X) : UcTimerManager A F X :=
  { links :=
      { live := fun l => match l with
          | Loc.head _ => true
          | Loc.item _ => false
        next := id
        prev := id }
    item := mem
    idx := { ms := 0, s := 0, m := 0, h := 0, d := 0 }
    tasks := [] }

def ucTimerInitDo (mem : A → UcTimerItem F X) (malloc threadpoolCreate : Bool)
    (threadpoolAddVoidTask : Int) (mgr : Option (UcTimerManager A F X)) :
    Int × Option (UcTimerManager A F X) :=
  match mgr with
  | some mgr => (0, some mgr)
  | none =>
      if malloc = false then (-0x3c48acf9, none)
      else if threadpoolCreate = false then (-0x51a7fab4, none)
      else if threadpoolAddVoidTask ≠ 0 then (-0x583f7a7e, none)
      else (0, some (emptyManager mem))

/-- The handle (`none` is NULL) comes with the new state. -/
def ucTimerAddDo (malloc : Option A) (millisecond ttl : Nat) (cb : Option F) (arg : X)
    (mgr : UcTimerManager A F X) : Option (UcTimerManager A F X × Option A) :=
  if millisecond ≥ timerIntervalMax ∨ millisecond = 0 then some (mgr, none)
  else
    match cb, malloc with
    | none, _ => some (mgr, none)
    | some _, none => some (mgr, none)
    | some cb, some a =>
        let next := Stamp.ofMillisecond (millisecondNext mgr.idx millisecond)
        let mgr := { mgr with links := mgr.links.alloc a }
        let mgr := mgr.setItem a { interval := millisecond, ttl, next, cb, arg }
        (mgr.addTail a (addSlot next)).map fun mgr => (mgr, some a)

def ucTimerDeleteDo (hdl : Option A) (mgr : UcTimerManager A F X) :
    Option (UcTimerManager A F X × Int) :=
  match hdl with
  | none => some (mgr, -0x6816560a)
  | some a =>
      (mgr.del a).map fun mgr => ({ mgr with links := mgr.links.free a }, 0)

end Operations

end Time
end UtilsC
