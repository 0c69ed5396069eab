import UtilsC.Lib.Machine
import UtilsC.Threadpool.Pool

/-!
# The threads of a pool

Producers, workers and the thread that closes the pool, with every section under `pool->lock` as
one atomic step.

* A worker is where it stands in `uc_threadpool_thread_work`, a call is one call of
  `uc_threadpool_add_void_task` or `uc_threadpool_insert_void_task_at_head`, with its arguments.
  Any number of calls may be under way, so any number of producers is.
* `pthread_cond_wait` is two steps: the section ends with the thread asleep on `cond_task`, and a
  woken thread takes the lock again and goes back to its loop test.  A signal wakes a waiter of the
  scheduler's choice (`wake`); `spurious` is a wakeup without a signal.
* `locked` is set by the one exit that keeps the lock, a failed `malloc` in an addition; after it
  no section of any thread is entered.
* `History` is what the threads leave behind in time.  No function of the source reads it.
-/

namespace UtilsC
namespace Threadpool

open Lib ListHead

variable {F X : Type}

/-- Where a worker stands. -/
inductive WorkerPc
  /-- in front of the lock at the top of the loop -/
  | ready
  /-- in `pthread_cond_wait` -/
  | asleep
  | woken
  /-- the node is dequeued and the lock released -/
  | holding (node : TaskPtr)
  /-- inside `task->fun(task->arg)` -/
  | calling (node : TaskPtr)
  /-- in front of the lock of the recycling section -/
  | called (node : TaskPtr)
  | exited
  deriving DecidableEq

/-- Where a call stands. -/
inductive CallPc
  | entry
  | asleep
  | woken
  /-- the task is queued; in front of `uc_threadpool_activty_try` -/
  | activate
  | returned (ret : Int)
  deriving DecidableEq

structure Call (F X : Type) where
  func : Option F
  arg : Option X
  forcetoHead : Bool
  pc : CallPc

/-- Where the thread in `uc_threadpool_close` stands. -/
inductive CloserPc
  | notCalled
  | joinLoop
  | join (pid : Nat)
  | freeLists
  | returned
  deriving DecidableEq

/-- A task function that was entered: by which call it was added, and with what it was entered. -/
structure Invocation (F X : Type) where
  call : Nat
  func : F
  arg : Option X

/-- `owner` is the call whose task a node holds.  The lists are in order of time: calls that queued
their task, tasks that a worker dequeued, functions entered, and tasks whose function returned or
that had none. -/
structure History (F X : Type) where
  owner : TaskPtr → Nat
  enqueued : List Nat
  started : List Nat
  invoked : List (Invocation F X)
  finished : List Nat

structure System (F X : Type) where
  pool : UcThreadpool F X
  locked : Bool
  workers : List WorkerPc
  calls : List (Call F X)
  closer : CloserPc
  history : History F X

/-- A thread that may sleep on `cond_task`. -/
inductive Waiter
  | call (c : Nat)
  | worker (w : Nat)
  deriving DecidableEq

inductive Event (F X : Type)
  | call (func : Option F) (arg : Option X) (forcetoHead : Bool)
  | enter (c : Nat) (malloc : Option TaskPtr) (wake : Option Waiter)
  | resume (c : Nat) (malloc : Option TaskPtr) (wake : Option Waiter)
  | activate (c : Nat) (malloc create : Bool)
  | setTaskMax (max : UInt64) (wake : Option Waiter)
  | work (w : Nat) (wake : Option Waiter)
  | begin (w : Nat)
  | finish (w : Nat)
  | recycle (w : Nat)
  | spurious (waiter : Waiter)
  | close
  | closeNext
  | closeJoin
  | closeFree (fuel : Nat)

/-- The events of `uc_threadpool_close`. -/
def Event.closing : Event F X → Bool
  | Event.close => true
  | Event.closeNext => true
  | Event.closeJoin => true
  | Event.closeFree _ => true
  | _ => false

namespace System

/-! ## Threads -/

def setCall (sys : System F X) (c : Nat) (pc : CallPc) : System F X :=
  { sys with calls := sys.calls.modify c fun call => { call with pc := pc } }

def setWorker (sys : System F X) (w : Nat) (pc : WorkerPc) : System F X :=
  { sys with workers := sys.workers.set w pc }

def callPc (sys : System F X) (c : Nat) : Option CallPc :=
  sys.calls[c]?.map Call.pc

def isAsleep (sys : System F X) : Waiter → Bool
  | Waiter.call c => sys.callPc c = some CallPc.asleep
  | Waiter.worker w => sys.workers[w]? = some WorkerPc.asleep

/-- `wake` is a choice that a signal has: some waiter, or none when nobody waits. -/
def signalOk (sys : System F X) : Option Waiter → Bool
  | some waiter => sys.isAsleep waiter
  | none =>
      sys.calls.all (fun call => call.pc ≠ CallPc.asleep) &&
        sys.workers.all (fun pc => pc ≠ WorkerPc.asleep)

def wakeUp (sys : System F X) : Option Waiter → System F X
  | some (Waiter.call c) => sys.setCall c CallPc.woken
  | some (Waiter.worker w) => sys.setWorker w WorkerPc.woken
  | none => sys

/-- `pthread_cond_broadcast`. -/
def wakeAll (sys : System F X) : System F X :=
  { sys with
    calls := sys.calls.map fun call =>
      if call.pc = CallPc.asleep then { call with pc := CallPc.woken } else call
    workers := sys.workers.map fun pc =>
      if pc = WorkerPc.asleep then WorkerPc.woken else pc }

/-! ## What the history keeps -/

def noteQueued (sys : System F X) (node : TaskPtr) (c : Nat) : System F X :=
  { sys with
    history :=
      { sys.history with
        owner := Function.update sys.history.owner node c
        enqueued := sys.history.enqueued ++ [c] } }

def noteStarted (sys : System F X) (node : TaskPtr) : System F X :=
  { sys with
    history :=
      { sys.history with started := sys.history.started ++ [sys.history.owner node] } }

def noteInvoked (sys : System F X) (node : TaskPtr) (func : F) (arg : Option X) : System F X :=
  { sys with
    history :=
      { sys.history with
        invoked := sys.history.invoked ++ [⟨sys.history.owner node, func, arg⟩] } }

def noteFinished (sys : System F X) (node : TaskPtr) : System F X :=
  { sys with
    history :=
      { sys.history with finished := sys.history.finished ++ [sys.history.owner node] } }

/-! ## The steps -/

/-- From the loop test of `uc_threadpool_add_to_void_task_do` to the wait or the unlock. -/
def addLoop (sys : System F X) (c : Nat) (call : Call F X) (malloc : Option TaskPtr)
    (wake : Option Waiter) : Option (System F X) :=
  if queueFull sys.pool = true then
    -- `pthread_cond_wait` gives the lock back, so that others go on
    some (sys.setCall c CallPc.asleep)
  else
    (ucThreadpoolAddToVoidTaskDo malloc call.func call.arg call.forcetoHead sys.pool).map fun
      | (some node, pool) =>
          ((({ sys with pool := pool }).setCall c CallPc.activate).noteQueued node c).wakeUp wake
      | (none, pool) =>
          -- the early return forgets the unlock
          ({ sys with pool := pool, locked := true }).setCall c (CallPc.returned (-0x18aa3f60))

/-- From the loop test of `uc_threadpool_thread_work` to the wait or the unlock. -/
def workLoop (sys : System F X) (w : Nat) (wake : Option Waiter) : Option (System F X) :=
  if sys.pool.shutdown = true then
    some
      -- a closed pool is left with whatever is in its queue
      (({ sys with
          pool := { sys.pool with threadAlive := sys.pool.threadAlive - 1 } }).setWorker w
        WorkerPc.exited)
  else if listEmpty sys.pool.links (Loc.head PoolList.task) = true then
    some (sys.setWorker w WorkerPc.asleep)
  else
    (takeTask sys.pool).map fun r =>
      ((({ sys with pool := r.2 }).setWorker w (WorkerPc.holding r.1)).noteStarted r.1).wakeUp wake

/-- `if (task->fun) task->fun(task->arg)`, up to the entry of the function. -/
def beginTask (sys : System F X) (w : Nat) (node : TaskPtr) : Option (System F X) :=
  if sys.pool.links.live (Loc.item node) = true then
    match (sys.pool.task node).func with
    | some func =>
        some
          ((sys.setWorker w (WorkerPc.calling node)).noteInvoked node func
            (sys.pool.task node).arg)
    | none => some ((sys.setWorker w (WorkerPc.called node)).noteFinished node)
  else
    none

def exec (sys : System F X) : Event F X → Option (System F X)
  | Event.call func arg forcetoHead =>
      some { sys with calls := sys.calls ++ [⟨func, arg, forcetoHead, CallPc.entry⟩] }
  | Event.enter c malloc wake =>
      sys.calls[c]?.bind fun call =>
        if sys.pool.shutdown = true then
          some (sys.setCall c (CallPc.returned (-0x7d1a4672)))
        else
          sys.addLoop c call malloc wake
  | Event.resume c malloc wake =>
      sys.calls[c]?.bind fun call => sys.addLoop c call malloc wake
  | Event.activate c malloc create =>
      let r := ucThreadpoolActivtyTryDo malloc create sys.workers.length sys.pool
      let workers := if r.2.1 = true then sys.workers ++ [WorkerPc.ready] else sys.workers
      -- the caller ignores what `uc_threadpool_activty_try` returns
      some (({ sys with pool := r.2.2, workers := workers }).setCall c (CallPc.returned 0))
  | Event.setTaskMax max wake =>
      some (({ sys with pool := { sys.pool with listTaskMax := max } }).wakeUp wake)
  | Event.work w wake => sys.workLoop w wake
  | Event.begin w =>
      match sys.workers[w]? with
      | some (WorkerPc.holding node) => sys.beginTask w node
      | _ => none
  | Event.finish w =>
      match sys.workers[w]? with
      | some (WorkerPc.calling node) =>
          some ((sys.setWorker w (WorkerPc.called node)).noteFinished node)
      | _ => none
  | Event.recycle w =>
      match sys.workers[w]? with
      | some (WorkerPc.called node) =>
          (recycleTask node sys.pool).map fun pool =>
            ({ sys with pool := pool }).setWorker w WorkerPc.ready
      | _ => none
  | Event.spurious waiter => some (sys.wakeUp (some waiter))
  | Event.close =>
      -- the lock is given back before the threads are joined
      let sys := { sys with pool := { sys.pool with shutdown := true } }
      some { sys.wakeAll with closer := CloserPc.joinLoop }
  | Event.closeNext =>
      match sys.pool.listPid with
      | pid :: rest =>
          some
            { sys with
              pool := { sys.pool with listPid := rest }
              closer := CloserPc.join pid }
      | [] => some { sys with closer := CloserPc.freeLists }
  | Event.closeJoin => some { sys with closer := CloserPc.joinLoop }
  | Event.closeFree fuel =>
      (freeTasks PoolList.free fuel sys.pool.links).bind fun links =>
        (freeTasks PoolList.task fuel links).map fun links' =>
          { sys with
            pool := { sys.pool with links := links' }
            closer := CloserPc.returned }

/-- The addresses `malloc` may return: memory that is not in use. -/
def mallocOk (sys : System F X) : Option TaskPtr → Bool
  | some node => !sys.pool.links.live (Loc.item node)
  | none => true

def enabled (sys : System F X) : Event F X → Bool
  | Event.call _ _ _ => true
  | Event.enter c malloc wake =>
      !sys.locked && sys.callPc c = some CallPc.entry && sys.mallocOk malloc && sys.signalOk wake
  | Event.resume c malloc wake =>
      !sys.locked && sys.callPc c = some CallPc.woken && sys.mallocOk malloc && sys.signalOk wake
  | Event.activate c _ _ => !sys.locked && sys.callPc c = some CallPc.activate
  | Event.setTaskMax _ wake => !sys.locked && sys.signalOk wake
  | Event.work w wake =>
      !sys.locked && (sys.workers[w]? = some WorkerPc.ready ||
        sys.workers[w]? = some WorkerPc.woken) && sys.signalOk wake
  | Event.begin w =>
      match sys.workers[w]? with
      | some (WorkerPc.holding _) => true
      | _ => false
  | Event.finish w =>
      match sys.workers[w]? with
      | some (WorkerPc.calling _) => true
      | _ => false
  | Event.recycle w =>
      !sys.locked &&
        match sys.workers[w]? with
        | some (WorkerPc.called _) => true
        | _ => false
  | Event.spurious waiter => sys.isAsleep waiter
  | Event.close => !sys.locked && sys.closer = CloserPc.notCalled
  | Event.closeNext => !sys.locked && sys.closer = CloserPc.joinLoop
  | Event.closeJoin =>
      match sys.closer with
      | CloserPc.join pid => sys.workers[pid]? = some WorkerPc.exited
      | _ => false
  | Event.closeFree _ => !sys.locked && sys.closer = CloserPc.freeLists

/-- The threads of a pool as a machine. -/
def machine (F X : Type) : Machine (System F X) (Event F X) where
  enabled := enabled
  exec := exec

/-- A pool as it comes from `uc_threadpool_create`, with its first workers. -/
def ofPool (pool : UcThreadpool F X) : System F X where
  pool := pool
  locked := false
  workers := pool.listPid.map fun _ => WorkerPc.ready
  calls := []
  closer := CloserPc.notCalled
  history := ⟨fun _ => 0, [], [], [], []⟩

/-- From a created pool, through any events but those of `uc_threadpool_close`. -/
inductive Reachable (start : Nat → Bool) (thrNumMin thrNumMax : UInt32) (sys : System F X) :
    Prop
  | mk {pool : UcThreadpool F X} {events : List (Event F X)}
      (hcreate : ucThreadpoolCreate start thrNumMin thrNumMax = some pool)
      (hopen : ∀ e ∈ events, e.closing = false)
      (hrun : (machine F X).Run (ofPool pool) events sys)

end System

end Threadpool
end UtilsC
