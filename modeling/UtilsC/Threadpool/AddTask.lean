import UtilsC.Threadpool.Run

/-!
# One addition, lock by lock

`uc_threadpool_add_to_void_task_do` from its call to its return, with `pool->lock` as a variable
that has an owner.

* What the other threads do to the pool while the caller sleeps on `cond_task`, or between its two
  sections, is an argument: the pool the caller finds when it has the lock again.
* `ucThreadpoolAddToVoidTask` is the function; its first section is that of `System.addLoop`
  (`addLoop_eq_section`).
* `ucThreadpoolAdd_usable_iff`: it gives the lock back but for one of its exits.
-/

namespace UtilsC
namespace Threadpool

open Lib ListHead

variable {F X : Type}

/-- A pool and the thread that owns `pool->lock`. -/
structure LockedPool (F X : Type) where
  pool : UcThreadpool F X
  owner : Option Nat

/-- There is no value while another thread owns the lock, or the thread itself. -/
def mutexLock (me : Nat) (s : LockedPool F X) : Option (LockedPool F X) :=
  if s.owner = none then some { s with owner := some me } else none

/-- Only the owner may unlock. -/
def mutexUnlock (me : Nat) (s : LockedPool F X) : Option (LockedPool F X) :=
  if s.owner = some me then some { s with owner := none } else none

/-- `pthread_cond_wait`: the lock is given back, others change the pool into `next`, and the lock
is taken again. -/
def condWait (me : Nat) (next : UcThreadpool F X) (s : LockedPool F X) :
    Option (LockedPool F X) :=
  (mutexUnlock me s).bind fun s => mutexLock me { s with pool := next }

/-! ## The function -/

/-- The rest of the program during one call, and the allocations. -/
structure AddWorld (F X : Type) where
  /-- the pool at each wakeup of the caller -/
  wakeups : List (UcThreadpool F X)
  malloc : Option TaskPtr
  /-- what the others make of the pool before `uc_threadpool_activty_try` takes the lock -/
  meanwhile : UcThreadpool F X → UcThreadpool F X
  pidMalloc : Bool
  pidCreate : Bool
  pid : Nat

/-- The wait loop.  There is no value when the caller would have to wait once more, or would not
wait for the wakeups there are. -/
def addWait (me : Nat) : List (UcThreadpool F X) → LockedPool F X → Option (LockedPool F X)
  | [], s => if queueFull s.pool = true then none else some s
  | next :: wakeups, s =>
      if queueFull s.pool = true then (condWait me next s).bind (addWait me wakeups) else none

/-- From the free list to the unlock; the number is that of the early return. -/
def addSection (me : Nat) (malloc : Option TaskPtr) (func : Option F) (arg : Option X)
    (forcetoHead : Bool) (s : LockedPool F X) : Option (Option Int × LockedPool F X) :=
  (ucThreadpoolAddToVoidTaskDo malloc func arg forcetoHead s.pool).bind fun
    -- the return in the middle does not unlock
    | (none, pool) => some (some (-0x18aa3f60), { s with pool := pool })
    | (some _, pool) => (mutexUnlock me { s with pool := pool }).map fun s => (none, s)

/-- The value that `uc_threadpool_activty_try_do` returns is not used by the caller. -/
def ucThreadpoolActivtyTry (me : Nat) (w : AddWorld F X) (s : LockedPool F X) :
    Option (Int × LockedPool F X) :=
  (mutexLock me s).bind fun s =>
    let r := ucThreadpoolActivtyTryDo w.pidMalloc w.pidCreate w.pid s.pool
    (mutexUnlock me { s with pool := r.2.2 }).map fun s => (r.1, s)

def ucThreadpoolAddToVoidTask (me : Nat) (w : AddWorld F X) (func : Option F) (arg : Option X)
    (forcetoHead : Bool) (s : LockedPool F X) : Option (Int × LockedPool F X) :=
  (mutexLock me s).bind fun s =>
    if s.pool.shutdown = true then
      (mutexUnlock me s).map fun s => (-0x7d1a4672, s)
    else
      (addWait me w.wakeups s).bind fun s =>
        (addSection me w.malloc func arg forcetoHead s).bind fun
          | (some ret, s) => some (ret, s)
          | (none, s) =>
              (ucThreadpoolActivtyTry me w { s with pool := w.meanwhile s.pool }).map fun r =>
                (0, r.2)

def ucThreadpoolAddVoidTask (me : Nat) (w : AddWorld F X) (func : Option F) (arg : Option X)
    (s : LockedPool F X) : Option (Int × LockedPool F X) :=
  ucThreadpoolAddToVoidTask me w func arg false s

def ucThreadpoolInsertVoidTaskAtHead (me : Nat) (w : AddWorld F X) (func : Option F)
    (arg : Option X) (s : LockedPool F X) : Option (Int × LockedPool F X) :=
  ucThreadpoolAddToVoidTask me w func arg true s

/-! ## The lock -/

section Lock

variable {me : Nat} {pool next : UcThreadpool F X}

theorem mutexLock_free : mutexLock me { pool := pool, owner := none } =
    some { pool := pool, owner := some me } := rfl

theorem mutexUnlock_own : mutexUnlock me { pool := pool, owner := some me } =
    some { pool := pool, owner := none } := if_pos rfl

theorem condWait_own : condWait me next { pool := pool, owner := some me } =
    some { pool := next, owner := some me } := by
  rw [condWait, mutexUnlock_own]
  rfl

/-- A lock that someone has not given back stops every thread. -/
theorem mutexLock_isSome_iff {s : LockedPool F X} :
    (∀ t, (mutexLock t s).isSome) ↔ s.owner = none := by
  unfold mutexLock
  constructor
  · intro h
    by_contra hne
    -- the owner does not get it either: the lock is not recursive
    have h0 := h 0
    rw [if_neg hne] at h0
    cases h0
  · intro h t
    rw [if_pos h]
    rfl

end Lock

/-! ## The wait loop -/

/-- The wakeups are those of the loop: the queue is full until the last of them. -/
def Settles : UcThreadpool F X → List (UcThreadpool F X) → Prop
  | pool, [] => queueFull pool = false
  | pool, next :: wakeups => queueFull pool = true ∧ Settles next wakeups

/-- The pool that the loop ends with. -/
def foundPool : UcThreadpool F X → List (UcThreadpool F X) → UcThreadpool F X
  | pool, [] => pool
  | _, next :: wakeups => foundPool next wakeups

theorem addWait_settles (me : Nat) : ∀ {wakeups : List (UcThreadpool F X)}
    {pool : UcThreadpool F X}, Settles pool wakeups →
      addWait me wakeups { pool := pool, owner := some me } =
        some { pool := foundPool pool wakeups, owner := some me }
  | [], pool, h => by
      have hroom : ¬ queueFull pool = true := by simp [show queueFull pool = false from h]
      rw [addWait, if_neg hroom]
      rfl
  | next :: wakeups, pool, h => by
      rw [addWait, if_pos h.1, condWait_own]
      exact addWait_settles me h.2

/-! ## The section -/

section Section

variable (me : Nat) {pool : UcThreadpool F X} {lists : PoolList → List TaskPtr}
  {malloc : Option TaskPtr}

/-- No node to recycle and none from `malloc`: the section ends before it has done anything. -/
theorem addSection_fails (hN : Nodes pool lists) (hfree : lists PoolList.free = [])
    (func : Option F) (arg : Option X) (forcetoHead : Bool) :
    addSection me none func arg forcetoHead { pool := pool, owner := some me } =
      some (some (-0x18aa3f60), { pool := pool, owner := some me }) := by
  have hempty : listEmpty pool.links (Loc.head PoolList.free) = true :=
    (listEmpty_iff hN.rings).2 hfree
  simp [addSection, ucThreadpoolAddToVoidTaskDo, takeNode, hempty]

/-- Otherwise the task is queued and the lock given back. -/
theorem addSection_queues (hN : Nodes pool lists)
    (hfresh : ∀ n, malloc = some n → pool.links.live (Loc.item n) = false)
    (hnode : ¬ (malloc = none ∧ lists PoolList.free = [])) (func : Option F) (arg : Option X)
    (forcetoHead : Bool) :
    ∃ pool', addSection me malloc func arg forcetoHead { pool := pool, owner := some me } =
      some (none, { pool := pool', owner := none }) := by
  rcases ucThreadpoolAddToVoidTaskDo_spec hN hfresh func arg forcetoHead with
    ⟨_, hnone, hfree⟩ | ⟨node, pool', _, hadd, _⟩
  · exact absurd ⟨hnone, hfree⟩ hnode
  · refine ⟨pool', ?_⟩
    simp only [addSection, hadd, Option.bind_some, mutexUnlock_own, Option.map_some]

/-- The section is what `System.addLoop` does behind the loop test; `locked` there is a lock that
was not given back. -/
theorem addLoop_eq_section {sys : System F X} {c : Nat} {call : Call F X} {wake : Option Waiter}
    (hopen : sys.locked = false) (hroom : queueFull sys.pool = false) :
    (sys.addLoop c call malloc wake).map (fun sys' => (sys'.pool, sys'.locked)) =
      (addSection me malloc call.func call.arg call.forcetoHead
        { pool := sys.pool, owner := some me }).map fun r => (r.2.pool, r.2.owner.isSome) := by
  have hroom' : ¬ queueFull sys.pool = true := by simp [hroom]
  rw [System.addLoop, if_neg hroom', addSection]
  rcases ucThreadpoolAddToVoidTaskDo malloc call.func call.arg call.forcetoHead sys.pool with
    _ | ⟨_ | node, pool⟩
  · rfl
  · rfl
  · have hlocked : ∀ t : System F X, (t.wakeUp wake).locked = t.locked := by
      intro t
      rcases wake with _ | _ | _ <;> rfl
    simp only [Option.map_some, Option.bind_some, mutexUnlock_own, System.wakeUp_pool, hlocked]
    simp [System.noteQueued, System.setCall, hopen]

end Section

theorem ucThreadpoolActivtyTry_free (me : Nat) (w : AddWorld F X) (pool : UcThreadpool F X) :
    ∃ ret pool', ucThreadpoolActivtyTry me w { pool := pool, owner := none } =
      some (ret, { pool := pool', owner := none }) := by
  rw [ucThreadpoolActivtyTry, mutexLock_free]
  simp only [Option.bind_some, mutexUnlock_own, Option.map_some]
  exact ⟨_, _, rfl⟩

/-! ## What the caller leaves behind -/

/-- The pool as the call last finds it before it decides how to end. -/
def callFound (w : AddWorld F X) (s : LockedPool F X) : UcThreadpool F X :=
  if s.pool.shutdown = true then s.pool else foundPool s.pool w.wakeups

/-- Every thread can take the lock again, and a call that failed has changed nothing. -/
structure AddUsable (found : UcThreadpool F X) (ret : Int) (s : LockedPool F X) : Prop where
  unlocked : ∀ t, (mutexLock t s).isSome
  unchanged : ret ≠ 0 → s.pool = found

/-- A call that finds the lock free and waits until there is room returns; it leaves the pool
usable except when `malloc` fails on an empty free list. -/
theorem ucThreadpoolAdd_usable_iff {s : LockedPool F X} {w : AddWorld F X}
    {lists : PoolList → List TaskPtr} (hlock : s.owner = none)
    (hsettles : s.pool.shutdown = false → Settles s.pool w.wakeups)
    (hN : Nodes (callFound w s) lists)
    (hfresh : ∀ n, w.malloc = some n → (callFound w s).links.live (Loc.item n) = false)
    (me : Nat) (func : Option F) (arg : Option X) (forcetoHead : Bool) :
    ∃ ret s', ucThreadpoolAddToVoidTask me w func arg forcetoHead s = some (ret, s') ∧
      (AddUsable (callFound w s) ret s' ↔
        s.pool.shutdown = true ∨ w.malloc ≠ none ∨ lists PoolList.free ≠ []) := by
  rcases s with ⟨pool, owner⟩
  cases hlock
  cases hshut : pool.shutdown with
  | true =>
      refine ⟨-0x7d1a4672, { pool := pool, owner := none }, ?_, ?_⟩
      · simp only [ucThreadpoolAddToVoidTask, mutexLock_free, Option.bind_some, if_pos hshut,
          mutexUnlock_own, Option.map_some]
      · refine iff_of_true ⟨mutexLock_isSome_iff.2 rfl, fun _ => ?_⟩ (.inl rfl)
        rw [callFound, if_pos hshut]
  | false =>
      have hopen : ¬ pool.shutdown = true := by simp [hshut]
      have hfound : callFound w { pool := pool, owner := none } = foundPool pool w.wakeups :=
        if_neg hopen
      rw [hfound] at hN hfresh ⊢
      have hwait := addWait_settles me (hsettles hshut)
      by_cases hnode : w.malloc = none ∧ lists PoolList.free = []
      · -- the early return: nothing has changed, but the lock is still taken
        have hsection := addSection_fails me hN hnode.2 func arg forcetoHead
        refine ⟨-0x18aa3f60, { pool := foundPool pool w.wakeups, owner := some me }, ?_, ?_⟩
        · simp only [ucThreadpoolAddToVoidTask, mutexLock_free, Option.bind_some, if_neg hopen,
            hwait, hnode.1, hsection]
        · refine iff_of_false (fun husable => ?_) ?_
          · have hnone := mutexLock_isSome_iff.1 husable.unlocked
            cases hnone
          · simp [hnode]
      · -- what the others do between the two sections does not touch the lock
        rcases addSection_queues me hN hfresh hnode func arg forcetoHead with
          ⟨pool', hsection⟩
        rcases ucThreadpoolActivtyTry_free me w (w.meanwhile pool') with ⟨ret, pool'', htry⟩
        refine ⟨0, { pool := pool'', owner := none }, ?_, ?_⟩
        · simp only [ucThreadpoolAddToVoidTask, mutexLock_free, Option.bind_some, if_neg hopen,
            hwait, hsection, htry, Option.map_some]
        · refine iff_of_true ⟨mutexLock_isSome_iff.2 rfl, fun h => absurd rfl h⟩ (.inr ?_)
          by_cases hmalloc : w.malloc = none
          · exact .inr fun hfree => hnode ⟨hmalloc, hfree⟩
          · exact .inl hmalloc

/-- The world of a caller that is alone. -/
def alone (malloc : Option TaskPtr) : AddWorld Nat Nat where
  wakeups := []
  malloc := malloc
  meanwhile := id
  pidMalloc := true
  pidCreate := true
  pid := 1

theorem nodes_of_created {start : Nat → Bool} {thrNumMin thrNumMax : UInt32}
    {pool : UcThreadpool F X}
    (hcreate : ucThreadpoolCreate start thrNumMin thrNumMax = some pool) :
    Nodes pool (fun _ => []) ∧ queueFull pool = false ∧ pool.shutdown = false ∧
      pool.links = emptyLinks := by
  rw [ucThreadpoolCreate] at hcreate
  split_ifs at hcreate
  cases hcreate
  exact ⟨⟨System.emptyLinks_rings, rfl⟩, rfl, rfl, rfl⟩

/-- The first task of a pool, with memory for its node. -/
theorem ucThreadpoolAdd_usable_first :
    ∃ (pool : UcThreadpool Nat Nat) (ret : Int) (s' : LockedPool Nat Nat),
      ucThreadpoolCreate (fun _ => true) 1 4 = some pool ∧
      ucThreadpoolAddToVoidTask 0 (alone (some ⟨4096, by decide⟩)) (some 7) none false
        { pool := pool, owner := none } = some (ret, s') ∧
      AddUsable pool ret s' := by
  have hcreate : ∃ pool : UcThreadpool Nat Nat,
      ucThreadpoolCreate (fun _ => true) 1 4 = some pool := ⟨_, rfl⟩
  rcases hcreate with ⟨pool, hcreate⟩
  rcases nodes_of_created hcreate with ⟨hN, hroom, hshut, hlinks⟩
  let s : LockedPool Nat Nat := { pool := pool, owner := none }
  let w := alone (some ⟨4096, by decide⟩)
  have hfound : callFound w s = pool := by
    have hopen : ¬ s.pool.shutdown = true := by simp [s, hshut]
    rw [callFound, if_neg hopen]
    rfl
  have hfresh : ∀ n, w.malloc = some n → (callFound w s).links.live (Loc.item n) = false := by
    intro n _
    rw [hfound, hlinks]
    rfl
  rcases ucThreadpoolAdd_usable_iff (s := s) (w := w) rfl (fun _ => hroom) (hfound.symm ▸ hN)
      hfresh 0 (some 7) none false with ⟨ret, s', hrun, husable⟩
  rw [hfound] at husable
  exact ⟨pool, ret, s', hcreate, hrun, husable.2 (.inr (.inl (by simp [w, alone])))⟩

/-- The same without memory: no thread gets the lock any more. -/
theorem ucThreadpoolAddVoidTask_keeps_lock :
    ∃ (pool : UcThreadpool Nat Nat) (s' : LockedPool Nat Nat),
      ucThreadpoolCreate (fun _ => true) 1 4 = some pool ∧
      ucThreadpoolAddVoidTask 0 (alone none) (some 7) none { pool := pool, owner := none } =
        some (-0x18aa3f60, s') ∧
      (∀ t, mutexLock t s' = none) ∧ ¬ AddUsable pool (-0x18aa3f60) s' := by
  have hcreate : ∃ pool : UcThreadpool Nat Nat,
      ucThreadpoolCreate (fun _ => true) 1 4 = some pool := ⟨_, rfl⟩
  rcases hcreate with ⟨pool, hcreate⟩
  rcases nodes_of_created hcreate with ⟨hN, hroom, hshut, _⟩
  have hopen : ¬ pool.shutdown = true := by simp [hshut]
  refine ⟨pool, { pool := pool, owner := some 0 }, hcreate, ?_, fun t => rfl, fun husable => ?_⟩
  · have hwait : addWait 0 [] { pool := pool, owner := some 0 } = _ := addWait_settles 0 hroom
    simp only [ucThreadpoolAddVoidTask, ucThreadpoolAddToVoidTask, alone, mutexLock_free,
      Option.bind_some, if_neg hopen, hwait, foundPool, addSection_fails 0 hN rfl]
  · have hfree := husable.unlocked 0
    cases hfree

end Threadpool
end UtilsC
