import UtilsC.Threadpool.Run

/-!
# Wakeups on the one condition variable of a pool

Producers wait on `cond_task` for room in the queue, workers wait on it for a task, and every
section sends one signal, which wakes a waiter of either kind.

* `lostWakeup` is a state in which nobody will run although a sleeping thread could go on.
* `wellSignalled` is a step whose signal is not wasted: when a sleeping thread can go on, it wakes
  one that can.
* `Alert` is the invariant of the runs with such steps: whenever a sleeping thread can go on, a
  woken one can.
* One wasted signal is enough to reach a lost wakeup (`ucThreadpool_lostWakeup`).
-/

namespace UtilsC
namespace Threadpool

open Lib ListHead

variable {F X : Type}

namespace System

/-! ## Threads that can go on -/

/-- The negation of the wait condition of a producer. -/
def hasRoom (ttl max : UInt64) : Bool :=
  max = 0 || ttl < max

/-- Whether a waiter leaves its wait loop when the queue has `ttl` tasks and the bound `max`. -/
def canGo (ttl max : UInt64) : Waiter → Bool
  | Waiter.call _ => hasRoom ttl max
  | Waiter.worker _ => ttl ≠ 0

def isWoken (sys : System F X) : Waiter → Bool
  | Waiter.call c => sys.callPc c = some CallPc.woken
  | Waiter.worker w => sys.workers[w]? = some WorkerPc.woken

def callAsleep (sys : System F X) : Bool :=
  sys.calls.any fun call => call.pc = CallPc.asleep

def workerAsleep (sys : System F X) : Bool :=
  sys.workers.any fun pc => pc = WorkerPc.asleep

/-- The pool is open, no signalled thread is left to run and all workers sleep; yet a producer
sleeps although the queue has room, or a worker although it is not empty. -/
def lostWakeup (sys : System F X) : Bool :=
  !sys.pool.shutdown && sys.calls.all (fun call => call.pc ≠ CallPc.woken) &&
    sys.workers.all (fun pc => pc = WorkerPc.asleep) &&
    ((sys.callAsleep && !queueFull sys.pool) ||
      (sys.workerAsleep && !listEmpty sys.pool.links (Loc.head PoolList.task)))

/-! ## Signals that are not wasted -/

/-- The signal sent with `ttl` tasks in the queue and the bound `max` wakes a thread that can go
on, when there is one. -/
def signalGood (sys : System F X) (ttl max : UInt64) (wake : Option Waiter) : Bool :=
  !((sys.callAsleep && hasRoom ttl max) || (sys.workerAsleep && ttl ≠ 0)) ||
    wake.any (canGo ttl max)

/-- No section of the step wastes its signal, and a producer that comes out of its wait gets memory
for its task. -/
def wellSignalled (sys : System F X) : Event F X → Bool
  -- a call that is refused or goes to sleep sends no signal
  | Event.enter _ _ wake =>
      sys.pool.shutdown || queueFull sys.pool ||
        sys.signalGood (sys.pool.listTaskTtl + 1) sys.pool.listTaskMax wake
  | Event.resume _ malloc wake =>
      queueFull sys.pool ||
        ((!listEmpty sys.pool.links (Loc.head PoolList.free) || malloc.isSome) &&
          sys.signalGood (sys.pool.listTaskTtl + 1) sys.pool.listTaskMax wake)
  | Event.setTaskMax max wake => sys.signalGood sys.pool.listTaskTtl max wake
  -- a worker that finds nothing sends no signal
  | Event.work _ wake =>
      listEmpty sys.pool.links (Loc.head PoolList.task) ||
        sys.signalGood (sys.pool.listTaskTtl - 1) sys.pool.listTaskMax wake
  | _ => true

/-- Whenever a sleeping thread can go on, so can a woken one. -/
def Alert (sys : System F X) : Prop :=
  ∀ waiter, sys.isAsleep waiter = true →
    canGo sys.pool.listTaskTtl sys.pool.listTaskMax waiter = true →
    ∃ waiter', sys.isWoken waiter' = true ∧
      canGo sys.pool.listTaskTtl sys.pool.listTaskMax waiter' = true

variable {sys : System F X} {lists : PoolList → List TaskPtr}

theorem hasRoom_eq (pool : UcThreadpool F X) :
    hasRoom pool.listTaskTtl pool.listTaskMax = !queueFull pool := by
  have hle : pool.listTaskMax ≤ pool.listTaskTtl ↔ ¬ pool.listTaskTtl < pool.listTaskMax :=
    UInt64.not_lt.symm
  -- a bound of 0 is no bound
  by_cases hzero : pool.listTaskMax = 0
  · simp [hasRoom, queueFull, hzero]
  · by_cases hlt : pool.listTaskTtl < pool.listTaskMax
    · simp [hasRoom, queueFull, hzero, hlt, hle]
    · simp [hasRoom, queueFull, hzero, hlt, hle]

/-- `list_task_ttl` is zero exactly when the task list is empty. -/
theorem ttl_eq_zero_iff (hI : Inv sys lists) :
    sys.pool.listTaskTtl = 0 ↔
      listEmpty sys.pool.links (Loc.head PoolList.task) = true := by
  have hzero : sys.pool.listTaskTtl = 0 ↔ (lists PoolList.task).length = 0 := by
    rw [← hI.nodes.ttl, ← UInt64.toNat_inj]
    rfl
  rw [hzero, List.length_eq_zero_iff]
  exact (listEmpty_iff hI.nodes.rings).symm

theorem callAsleep_iff : sys.callAsleep = true ↔
    ∃ c, sys.isAsleep (Waiter.call c) = true := by
  simp only [callAsleep, List.any_eq_true, decide_eq_true_eq, isAsleep, callPc]
  constructor
  · rintro ⟨call, hcall, hpc⟩
    rcases List.getElem?_of_mem hcall with ⟨c, hc⟩
    exact ⟨c, by simp [hc, hpc]⟩
  · rintro ⟨c, hc⟩
    rcases Option.map_eq_some_iff.1 (of_decide_eq_true hc) with ⟨call, hcall, hpc⟩
    exact ⟨call, List.mem_of_getElem? hcall, hpc⟩

theorem workerAsleep_iff : sys.workerAsleep = true ↔
    ∃ w, sys.isAsleep (Waiter.worker w) = true := by
  simp only [workerAsleep, List.any_eq_true, decide_eq_true_eq, isAsleep]
  constructor
  · rintro ⟨pc, hmem, hpc⟩
    rcases List.getElem?_of_mem hmem with ⟨w, hw⟩
    exact ⟨w, by simp [hw, hpc]⟩
  · rintro ⟨w, hw⟩
    exact ⟨_, List.mem_of_getElem? hw, rfl⟩

/-- What a signal that is not wasted promises, thread by thread. -/
theorem signalGood_iff {ttl max : UInt64} {wake : Option Waiter} :
    sys.signalGood ttl max wake = true ↔
      ((∃ waiter, sys.isAsleep waiter = true ∧ canGo ttl max waiter = true) →
        ∃ waiter, wake = some waiter ∧ canGo ttl max waiter = true) := by
  have hsleeper : (sys.callAsleep && hasRoom ttl max || sys.workerAsleep && ttl ≠ 0) = true ↔
      ∃ waiter, sys.isAsleep waiter = true ∧ canGo ttl max waiter = true := by
    simp only [Bool.or_eq_true, Bool.and_eq_true, callAsleep_iff, workerAsleep_iff]
    constructor
    · rintro (⟨⟨c, hc⟩, hroom⟩ | ⟨⟨w, hw⟩, httl⟩)
      · exact ⟨Waiter.call c, hc, hroom⟩
      · exact ⟨Waiter.worker w, hw, httl⟩
    · rintro ⟨waiter, hasleep, hgo⟩
      cases waiter with
      | call c => exact Or.inl ⟨⟨c, hasleep⟩, hgo⟩
      | worker w => exact Or.inr ⟨⟨w, hasleep⟩, hgo⟩
  rw [← hsleeper, signalGood]
  cases hs : (sys.callAsleep && hasRoom ttl max || sys.workerAsleep && ttl ≠ 0) with
  | false => simp
  | true =>
      cases wake with
      | none => simp
      | some waiter => simp

/-! ## Who sleeps and who is woken after a step -/

section Threads

variable {c w : Nat} {waiter : Waiter}

theorem isAsleep_setCall {pc : CallPc} : (sys.setCall c pc).isAsleep waiter = true ↔
    (waiter = Waiter.call c ∧ (sys.callPc c).isSome = true ∧ pc = CallPc.asleep) ∨
      (waiter ≠ Waiter.call c ∧ sys.isAsleep waiter = true) := by
  cases waiter with
  | call c' =>
      -- the call that is set, or another one
      by_cases hc : c' = c
      · subst hc
        cases hcall : sys.calls[c']? <;> simp [isAsleep, callPc, setCall, hcall]
      · have hne : c ≠ c' := fun h => hc h.symm
        simp [isAsleep, callPc, setCall, hc, hne]
  | worker w' =>
      have hsame : (sys.setCall c pc).isAsleep (Waiter.worker w') =
          sys.isAsleep (Waiter.worker w') := rfl
      simp [hsame]

theorem isWoken_setCall {pc : CallPc} : (sys.setCall c pc).isWoken waiter = true ↔
    (waiter = Waiter.call c ∧ (sys.callPc c).isSome = true ∧ pc = CallPc.woken) ∨
      (waiter ≠ Waiter.call c ∧ sys.isWoken waiter = true) := by
  cases waiter with
  | call c' =>
      by_cases hc : c' = c
      · subst hc
        cases hcall : sys.calls[c']? <;> simp [isWoken, callPc, setCall, hcall]
      · have hne : c ≠ c' := fun h => hc h.symm
        simp [isWoken, callPc, setCall, hc, hne]
  | worker w' =>
      have hsame : (sys.setCall c pc).isWoken (Waiter.worker w') =
          sys.isWoken (Waiter.worker w') := rfl
      simp [hsame]

theorem isAsleep_setWorker {pc : WorkerPc} : (sys.setWorker w pc).isAsleep waiter = true ↔
    (waiter = Waiter.worker w ∧ w < sys.workers.length ∧ pc = WorkerPc.asleep) ∨
      (waiter ≠ Waiter.worker w ∧ sys.isAsleep waiter = true) := by
  cases waiter with
  | call c => simp [isAsleep, callPc, setWorker]
  | worker w' =>
      by_cases hw : w' = w
      · subst hw
        by_cases hlt : w' < sys.workers.length
        · simp [isAsleep, setWorker, hlt]
        · simp [isAsleep, setWorker, hlt]
      · have hne : w ≠ w' := fun h => hw h.symm
        simp [isAsleep, setWorker, List.getElem?_set_ne hne, hw]

theorem isWoken_setWorker {pc : WorkerPc} : (sys.setWorker w pc).isWoken waiter = true ↔
    (waiter = Waiter.worker w ∧ w < sys.workers.length ∧ pc = WorkerPc.woken) ∨
      (waiter ≠ Waiter.worker w ∧ sys.isWoken waiter = true) := by
  cases waiter with
  | call c => simp [isWoken, callPc, setWorker]
  | worker w' =>
      by_cases hw : w' = w
      · subst hw
        by_cases hlt : w' < sys.workers.length
        · simp [isWoken, setWorker, hlt]
        · simp [isWoken, setWorker, hlt]
      · have hne : w ≠ w' := fun h => hw h.symm
        simp [isWoken, setWorker, List.getElem?_set_ne hne, hw]

/-- A wakeup puts nobody to sleep. -/
theorem asleep_of_wakeUp {wake : Option Waiter}
    (hasleep : (sys.wakeUp wake).isAsleep waiter = true) : sys.isAsleep waiter = true := by
  rcases wake with _ | c | w
  · exact hasleep
  · rcases isAsleep_setCall.1 hasleep with ⟨_, _, hpc⟩ | ⟨_, hold⟩
    · cases hpc
    · exact hold
  · rcases isAsleep_setWorker.1 hasleep with ⟨_, _, hpc⟩ | ⟨_, hold⟩
    · cases hpc
    · exact hold

theorem woken_wakeUp (hasleep : sys.isAsleep waiter = true) :
    (sys.wakeUp (some waiter)).isWoken waiter = true := by
  cases waiter with
  | call c =>
      have hpc : sys.callPc c = some CallPc.asleep := by simpa [isAsleep] using hasleep
      exact isWoken_setCall.2 (Or.inl ⟨rfl, by simp [hpc], rfl⟩)
  | worker w =>
      have hpc : sys.workers[w]? = some WorkerPc.asleep := by simpa [isAsleep] using hasleep
      exact isWoken_setWorker.2 (Or.inl ⟨rfl, (List.getElem?_eq_some_iff.1 hpc).1, rfl⟩)

theorem woken_of_wakeUp {wake : Option Waiter} (hwoken : sys.isWoken waiter = true) :
    (sys.wakeUp wake).isWoken waiter = true := by
  rcases wake with _ | c | w
  · exact hwoken
  · by_cases hc : waiter = Waiter.call c
    · have hpc : sys.callPc c = some CallPc.woken := by simpa [isWoken, hc] using hwoken
      exact isWoken_setCall.2 (Or.inl ⟨hc, by simp [hpc], rfl⟩)
    · exact isWoken_setCall.2 (Or.inr ⟨hc, hwoken⟩)
  · by_cases hw : waiter = Waiter.worker w
    · have hpc : sys.workers[w]? = some WorkerPc.woken := by simpa [isWoken, hw] using hwoken
      exact isWoken_setWorker.2 (Or.inl ⟨hw, (List.getElem?_eq_some_iff.1 hpc).1, rfl⟩)
    · exact isWoken_setWorker.2 (Or.inr ⟨hw, hwoken⟩)

end Threads

/-! ## Steps keep the pool alert -/

/-- A lost wakeup is a sleeping thread that can go on while no woken one can. -/
theorem not_lostWakeup_of_alert (hI : Inv sys lists) (halert : sys.Alert) :
    sys.lostWakeup = false := by
  by_contra hlost
  simp only [Bool.not_eq_false, lostWakeup, Bool.and_eq_true, List.all_eq_true,
    decide_eq_true_eq, Bool.not_eq_true', Bool.or_eq_true] at hlost
  rcases hlost with ⟨⟨⟨_, hcalls⟩, hworkers⟩, hwaits⟩
  -- the thread that sleeps for nothing is one that can go on
  have hsleeper : ∃ waiter, sys.isAsleep waiter = true ∧
      canGo sys.pool.listTaskTtl sys.pool.listTaskMax waiter = true := by
    rcases hwaits with ⟨hcall, hroom⟩ | ⟨hworker, htask⟩
    · rcases callAsleep_iff.1 hcall with ⟨c, hc⟩
      exact ⟨Waiter.call c, hc, by simp [canGo, hasRoom_eq, hroom]⟩
    · rcases workerAsleep_iff.1 hworker with ⟨w, hw⟩
      have hne : sys.pool.listTaskTtl ≠ 0 := by
        intro hzero
        rw [(ttl_eq_zero_iff hI).1 hzero] at htask
        cases htask
      exact ⟨Waiter.worker w, hw, by simp [canGo, hne]⟩
  rcases hsleeper with ⟨waiter, hasleep, hgo⟩
  rcases halert waiter hasleep hgo with ⟨waiter', hwoken, _⟩
  cases waiter' with
  | call c =>
      have hpc : sys.callPc c = some CallPc.woken := by simpa [isWoken] using hwoken
      rcases callPc_eq_some hpc with ⟨call, hcall, hcallpc⟩
      exact hcalls call (List.mem_of_getElem? hcall) hcallpc
  | worker w =>
      have hpc : sys.workers[w]? = some WorkerPc.woken := by simpa [isWoken] using hwoken
      have := hworkers _ (List.mem_of_getElem? hpc)
      cases this

/-- A step that puts nobody to sleep, lets no woken thread run and leaves the queue alone. -/
theorem Alert.frame {sys' : System F X} (halert : sys.Alert)
    (httl : sys'.pool.listTaskTtl = sys.pool.listTaskTtl)
    (hmax : sys'.pool.listTaskMax = sys.pool.listTaskMax)
    (hasleep : ∀ waiter, sys'.isAsleep waiter = true → sys.isAsleep waiter = true)
    (hwoken : ∀ waiter, sys.isWoken waiter = true → sys'.isWoken waiter = true) : sys'.Alert := by
  intro waiter hsleeps hgo
  rw [httl, hmax] at hgo ⊢
  rcases halert waiter (hasleep waiter hsleeps) hgo with ⟨waiter', hw, hgo'⟩
  exact ⟨waiter', hwoken waiter' hw, hgo'⟩

/-- A thread that cannot go on goes back to sleep. -/
theorem Alert.sleep {sys' : System F X} (halert : sys.Alert) (self : Waiter)
    (httl : sys'.pool.listTaskTtl = sys.pool.listTaskTtl)
    (hmax : sys'.pool.listTaskMax = sys.pool.listTaskMax)
    (hself : canGo sys.pool.listTaskTtl sys.pool.listTaskMax self = false)
    (hasleep : ∀ waiter, waiter ≠ self → sys'.isAsleep waiter = true →
      sys.isAsleep waiter = true)
    (hwoken : ∀ waiter, waiter ≠ self → sys.isWoken waiter = true →
      sys'.isWoken waiter = true) : sys'.Alert := by
  intro waiter hsleeps hgo
  rw [httl, hmax] at hgo ⊢
  -- neither the sleeper in question nor the woken thread is the one that goes to sleep
  have hne : ∀ waiter, canGo sys.pool.listTaskTtl sys.pool.listTaskMax waiter = true →
      waiter ≠ self := by
    intro waiter h heq
    rw [heq, hself] at h
    cases h
  rcases halert waiter (hasleep waiter (hne waiter hgo) hsleeps) hgo with ⟨waiter', hw, hgo'⟩
  exact ⟨waiter', hwoken waiter' (hne waiter' hgo') hw, hgo'⟩

/-- A section that ends with a signal.  `mid` is the system in front of the signal: a thread that
was awake has moved on, and the queue has changed. -/
theorem alert_of_signal {mid : System F X} {wake : Option Waiter}
    (hsignal : sys.signalOk wake = true)
    (hgood : sys.signalGood mid.pool.listTaskTtl mid.pool.listTaskMax wake = true)
    (hsame : ∀ waiter, mid.isAsleep waiter = true ↔ sys.isAsleep waiter = true) :
    (mid.wakeUp wake).Alert := by
  intro waiter hsleeps hgo
  rw [wakeUp_pool] at hgo ⊢
  have hold := (hsame waiter).1 (asleep_of_wakeUp hsleeps)
  rcases signalGood_iff.1 hgood ⟨waiter, hold, hgo⟩ with ⟨waiter', hwake, hgo'⟩
  subst hwake
  exact ⟨waiter', woken_wakeUp ((hsame waiter').2 hsignal), hgo'⟩

section Steps

variable {c w : Nat} {wake : Option Waiter}

/-- Moving a call that is awake to a place where it does not sleep changes no sleeper. -/
theorem asleep_setCall_iff {pc : CallPc} (hc : sys.callPc c ≠ some CallPc.asleep)
    (hpc : pc ≠ CallPc.asleep) (waiter : Waiter) :
    (sys.setCall c pc).isAsleep waiter = true ↔ sys.isAsleep waiter = true := by
  rw [isAsleep_setCall]
  constructor
  · rintro (⟨_, _, h⟩ | ⟨_, h⟩)
    · exact absurd h hpc
    · exact h
  · intro h
    refine Or.inr ⟨?_, h⟩
    rintro rfl
    exact hc (by simpa [isAsleep] using h)

theorem asleep_setWorker_iff {pc : WorkerPc} (hw : sys.workers[w]? ≠ some WorkerPc.asleep)
    (hpc : pc ≠ WorkerPc.asleep) (waiter : Waiter) :
    (sys.setWorker w pc).isAsleep waiter = true ↔ sys.isAsleep waiter = true := by
  rw [isAsleep_setWorker]
  constructor
  · rintro (⟨_, _, h⟩ | ⟨_, h⟩)
    · exact absurd h hpc
    · exact h
  · intro h
    refine Or.inr ⟨?_, h⟩
    rintro rfl
    exact hw (by simpa [isAsleep] using h)

theorem woken_setCall_of_ne {pc : CallPc} (hc : sys.callPc c ≠ some CallPc.woken)
    {waiter : Waiter} (hwoken : sys.isWoken waiter = true) :
    (sys.setCall c pc).isWoken waiter = true := by
  refine isWoken_setCall.2 (Or.inr ⟨?_, hwoken⟩)
  rintro rfl
  exact hc (by simpa [isWoken] using hwoken)

theorem woken_setWorker_of_ne {pc : WorkerPc} (hw : sys.workers[w]? ≠ some WorkerPc.woken)
    {waiter : Waiter} (hwoken : sys.isWoken waiter = true) :
    (sys.setWorker w pc).isWoken waiter = true := by
  refine isWoken_setWorker.2 (Or.inr ⟨?_, hwoken⟩)
  rintro rfl
  exact hw (by simpa [isWoken] using hwoken)

/-- From the loop test of a producer to its wait or its unlock. -/
theorem addLoop_alert {call : Call F X} {malloc : Option TaskPtr} {sys' : System F X}
    (hI : Inv sys lists) (halert : sys.Alert) (hcall : sys.calls[c]? = some call)
    (hpc : call.pc = CallPc.entry ∨ call.pc = CallPc.woken)
    (hmalloc : sys.mallocOk malloc = true) (hsignal : sys.signalOk wake = true)
    (hgood : queueFull sys.pool = false →
      sys.signalGood (sys.pool.listTaskTtl + 1) sys.pool.listTaskMax wake = true)
    (hmemory : call.pc = CallPc.woken → queueFull sys.pool = false →
      lists PoolList.free ≠ [] ∨ malloc ≠ none)
    (hadd : sys.addLoop c call malloc wake = some sys') : sys'.Alert := by
  have hcallPc : sys.callPc c = some call.pc := by simp [callPc, hcall]
  have hawake : sys.callPc c ≠ some CallPc.asleep := by
    rw [hcallPc]
    rcases hpc with h | h <;> simp [h]
  cases hfull : queueFull sys.pool with
  | true =>
      -- the producer goes to sleep
      have hsys' : sys' = sys.setCall c CallPc.asleep := by
        rw [addLoop, if_pos hfull] at hadd
        exact (Option.some.inj hadd).symm
      subst hsys'
      refine halert.sleep (Waiter.call c) rfl rfl ?_ ?_ ?_
      · simp [canGo, hasRoom_eq, hfull]
      · intro waiter hne hsleeps
        rcases isAsleep_setCall.1 hsleeps with ⟨h, _⟩ | ⟨_, h⟩
        · exact absurd h hne
        · exact h
      · intro waiter hne hwoken
        exact isWoken_setCall.2 (Or.inr ⟨hne, hwoken⟩)
  | false =>
      rcases ucThreadpoolAddToVoidTaskDo_spec hI.nodes (fresh_of_mallocOk hmalloc) call.func
        call.arg call.forcetoHead with ⟨hdo, hnone, hfree⟩ | ⟨node, pool', lists', hdo, hlink⟩
      · -- no memory: the call returns with the lock held
        have hsys' : sys' = ({ sys with locked := true }).setCall c
            (CallPc.returned (-0x18aa3f60)) := by
          simp only [addLoop, hfull, hdo] at hadd
          exact (Option.some.inj hadd).symm
        -- a woken producer has memory by the hypothesis, so this one was at its entry
        have hentry : sys.callPc c ≠ some CallPc.woken := by
          intro h
          have hwoken : call.pc = CallPc.woken := by simpa [hcallPc] using h
          rcases hmemory hwoken hfull with h' | h'
          · exact h' hfree
          · exact h' hnone
        subst hsys'
        refine halert.frame rfl rfl ?_ ?_
        · intro waiter hsleeps
          have hsame : ({ sys with locked := true } : System F X).callPc c ≠
              some CallPc.asleep := hawake
          exact (asleep_setCall_iff hsame (by simp) waiter).1 hsleeps
        · intro waiter hwoken
          have hsame : ({ sys with locked := true } : System F X).callPc c ≠
              some CallPc.woken := hentry
          exact woken_setCall_of_ne hsame hwoken
      · have hsys' : sys' = ((({ sys with pool := pool' }).setCall c
            CallPc.activate).noteQueued node c).wakeUp wake := by
          simp only [addLoop, hfull, hdo] at hadd
          exact (Option.some.inj hadd).symm
        subst hsys'
        have hframe := hlink.frame
        -- the task is linked, and the signal goes to somebody who can go on
        refine alert_of_signal hsignal ?_ ?_
        · show sys.signalGood pool'.listTaskTtl pool'.listTaskMax wake = true
          rw [hframe]
          exact hgood hfull
        · intro waiter
          have hsame : ({ sys with pool := pool' } : System F X).callPc c ≠
              some CallPc.asleep := hawake
          exact asleep_setCall_iff hsame (by simp) waiter

/-- From the loop test of a worker to its wait or its unlock. -/
theorem workLoop_alert {sys' : System F X} (hI : Inv sys lists) (halert : sys.Alert)
    (hopen : sys.pool.shutdown = false)
    (hw : sys.workers[w]? = some WorkerPc.ready ∨ sys.workers[w]? = some WorkerPc.woken)
    (hsignal : sys.signalOk wake = true)
    (hgood : listEmpty sys.pool.links (Loc.head PoolList.task) = false →
      sys.signalGood (sys.pool.listTaskTtl - 1) sys.pool.listTaskMax wake = true)
    (hwork : sys.workLoop w wake = some sys') : sys'.Alert := by
  have hawake : sys.workers[w]? ≠ some WorkerPc.asleep := by
    rcases hw with h | h <;> simp [h]
  have hnot : ¬ sys.pool.shutdown = true := by simp [hopen]
  cases hempty : listEmpty sys.pool.links (Loc.head PoolList.task) with
  | true =>
      -- the worker goes to sleep, and with an empty queue it could not have gone on
      have hsys' : sys' = sys.setWorker w WorkerPc.asleep := by
        rw [workLoop, if_neg hnot, if_pos hempty] at hwork
        exact (Option.some.inj hwork).symm
      subst hsys'
      refine halert.sleep (Waiter.worker w) rfl rfl ?_ ?_ ?_
      · simp [canGo, (ttl_eq_zero_iff hI).2 hempty]
      · intro waiter hne hsleeps
        rcases isAsleep_setWorker.1 hsleeps with ⟨h, _⟩ | ⟨_, h⟩
        · exact absurd h hne
        · exact h
      · intro waiter hne hwoken
        exact isWoken_setWorker.2 (Or.inr ⟨hne, hwoken⟩)
  | false =>
      cases hqueue : lists PoolList.task with
      | nil =>
          have hempty' := (listEmpty_iff hI.nodes.rings).2 hqueue
          rw [hempty] at hempty'
          cases hempty'
      | cons node queue =>
          rcases takeTask_spec hI.nodes hqueue with ⟨links', htake, _, _⟩
          have hsys' : sys' = ((({ sys with pool := { sys.pool with
              links := links'
              listTaskTtl := sys.pool.listTaskTtl - 1 } }).setWorker w
                (WorkerPc.holding node)).noteStarted node).wakeUp wake := by
            rw [workLoop, if_neg hnot, hempty, htake] at hwork
            exact (Option.some.inj hwork).symm
          subst hsys'
          -- one task less, and again a signal that somebody can use
          refine alert_of_signal hsignal (hgood hempty) ?_
          intro waiter
          have hsame : ({ sys with pool := { sys.pool with
              links := links'
              listTaskTtl := sys.pool.listTaskTtl - 1 } } : System F X).workers[w]? ≠
              some WorkerPc.asleep := hawake
          exact asleep_setWorker_iff hsame (by simp) waiter

/-- A step that moves one worker between places where it neither sleeps nor is woken. -/
theorem Alert.set_worker {mid : System F X} {old new : WorkerPc} (halert : sys.Alert)
    (httl : mid.pool.listTaskTtl = sys.pool.listTaskTtl)
    (hmax : mid.pool.listTaskMax = sys.pool.listTaskMax)
    (hworkers : mid.workers = sys.workers) (hcalls : mid.calls = sys.calls)
    (hw : sys.workers[w]? = some old) (hold : old ≠ WorkerPc.asleep ∧ old ≠ WorkerPc.woken)
    (hnew : new ≠ WorkerPc.asleep) : (mid.setWorker w new).Alert := by
  have hasleep : ∀ waiter, mid.isAsleep waiter = sys.isAsleep waiter := by
    intro waiter
    cases waiter <;> simp [isAsleep, callPc, hworkers, hcalls]
  have hwoken : ∀ waiter, mid.isWoken waiter = sys.isWoken waiter := by
    intro waiter
    cases waiter <;> simp [isWoken, callPc, hworkers, hcalls]
  have hpc : mid.workers[w]? = some old := by rw [hworkers, hw]
  refine halert.frame httl hmax ?_ ?_
  · intro waiter hsleeps
    rw [← hasleep]
    refine (asleep_setWorker_iff ?_ hnew waiter).1 hsleeps
    rw [hpc]
    exact fun h => hold.1 (Option.some.inj h)
  · intro waiter hrun
    rw [← hwoken] at hrun
    refine woken_setWorker_of_ne ?_ hrun
    rw [hpc]
    exact fun h => hold.2 (Option.some.inj h)

theorem asleep_append_worker {workers : List WorkerPc} {waiter : Waiter}
    (hworkers : workers = sys.workers ∨ workers = sys.workers ++ [WorkerPc.ready])
    (hasleep : ({ sys with workers := workers } : System F X).isAsleep waiter = true) :
    sys.isAsleep waiter = true := by
  rcases hworkers with h | h
  · rw [h] at hasleep
    exact hasleep
  · rw [h] at hasleep
    cases waiter with
    | call c => exact hasleep
    | worker w =>
        simp only [isAsleep, decide_eq_true_eq, List.getElem?_append] at hasleep ⊢
        split at hasleep
        · exact hasleep
        · -- a new worker does not sleep
          have hmem := List.mem_of_getElem? hasleep
          simp at hmem

theorem woken_append_worker {workers : List WorkerPc} {waiter : Waiter}
    (hworkers : workers = sys.workers ∨ workers = sys.workers ++ [WorkerPc.ready])
    (hwoken : sys.isWoken waiter = true) :
    ({ sys with workers := workers } : System F X).isWoken waiter = true := by
  rcases hworkers with h | h
  · rw [h]
    exact hwoken
  · rw [h]
    cases waiter with
    | call c => exact hwoken
    | worker w =>
        simp only [isWoken, decide_eq_true_eq] at hwoken ⊢
        rw [List.getElem?_append_left (List.getElem?_eq_some_iff.1 hwoken).1, hwoken]

/-- The step lemma: while the pool is open, a step that wastes no signal keeps it alert. -/
theorem exec_alert {e : Event F X} {sys' : System F X} (hI : Inv sys lists)
    (halert : sys.Alert) (hrunning : sys.pool.shutdown = false) (hopen : e.closing = false)
    (henabled : sys.enabled e = true) (hgood : sys.wellSignalled e = true)
    (hexec : sys.exec e = some sys') : sys'.Alert := by
  cases e with
  | call func arg forcetoHead =>
      cases hexec
      refine halert.frame rfl rfl ?_ ?_
      · intro waiter hsleeps
        cases waiter with
        | call c =>
            simp only [isAsleep, callPc, decide_eq_true_eq, List.getElem?_append] at hsleeps ⊢
            split at hsleeps
            · exact decide_eq_true hsleeps
            · rcases Option.map_eq_some_iff.1 hsleeps with ⟨call, hcall, hpc⟩
              have hmem := List.mem_of_getElem? hcall
              rw [List.mem_singleton.1 hmem] at hpc
              cases hpc
        | worker w => exact hsleeps
      · intro waiter hwoken
        cases waiter with
        | call c =>
            have hpc : sys.callPc c = some CallPc.woken := by simpa [isWoken] using hwoken
            rcases callPc_eq_some hpc with ⟨call, hcall, hcallpc⟩
            have hlt := (List.getElem?_eq_some_iff.1 hcall).1
            simp [isWoken, callPc, List.getElem?_append_left hlt, hcall, hcallpc]
        | worker w => exact hwoken
  | enter c malloc wake =>
      simp only [enabled, Bool.and_eq_true, decide_eq_true_eq] at henabled
      rcases henabled with ⟨⟨⟨_, hc⟩, hmalloc⟩, hsignal⟩
      rcases callPc_eq_some hc with ⟨call, hcall, hpc⟩
      simp only [exec, hcall, Option.bind_some, hrunning, Bool.false_eq_true, if_false] at hexec
      refine addLoop_alert hI halert hcall (Or.inl hpc) hmalloc hsignal ?_ ?_ hexec
      · intro hfull
        simpa [wellSignalled, hrunning, hfull] using hgood
      · intro hwoken
        rw [hpc] at hwoken
        cases hwoken
  | resume c malloc wake =>
      simp only [enabled, Bool.and_eq_true, decide_eq_true_eq] at henabled
      rcases henabled with ⟨⟨⟨_, hc⟩, hmalloc⟩, hsignal⟩
      rcases callPc_eq_some hc with ⟨call, hcall, hpc⟩
      simp only [exec, hcall, Option.bind_some] at hexec
      refine addLoop_alert hI halert hcall (Or.inr hpc) hmalloc hsignal ?_ ?_ hexec
      · intro hfull
        simp only [wellSignalled, hfull, Bool.false_or, Bool.and_eq_true] at hgood
        exact hgood.2
      · intro _ hfull
        simp only [wellSignalled, hfull, Bool.false_or, Bool.and_eq_true, Bool.or_eq_true,
          Bool.not_eq_true'] at hgood
        rcases hgood.1 with hfree | hsome
        · left
          intro hnil
          rw [(listEmpty_iff hI.nodes.rings).2 hnil] at hfree
          cases hfree
        · right
          intro hnone
          simp [hnone] at hsome
  | activate c malloc create =>
      simp only [enabled, Bool.and_eq_true, decide_eq_true_eq] at henabled
      have hc := henabled.2
      cases hexec
      -- another worker may have been started; the queue is as it was
      have hqueue : (ucThreadpoolActivtyTryDo malloc create sys.workers.length
            sys.pool).2.2.listTaskTtl = sys.pool.listTaskTtl ∧
          (ucThreadpoolActivtyTryDo malloc create sys.workers.length
            sys.pool).2.2.listTaskMax = sys.pool.listTaskMax := by
        simp only [ucThreadpoolActivtyTryDo]
        split_ifs <;> exact ⟨rfl, rfl⟩
      have hworkers : ∀ started : Bool,
          (if started = true then sys.workers ++ [WorkerPc.ready] else sys.workers) =
              sys.workers ∨
            (if started = true then sys.workers ++ [WorkerPc.ready] else sys.workers) =
              sys.workers ++ [WorkerPc.ready] := by
        intro started
        cases started <;> simp
      have hspawned := hworkers (ucThreadpoolActivtyTryDo malloc create sys.workers.length
        sys.pool).2.1
      refine halert.frame hqueue.1 hqueue.2 ?_ ?_
      · intro waiter hsleeps
        refine asleep_append_worker hspawned ?_
        refine (asleep_setCall_iff ?_ ?_ waiter).1 hsleeps
        · show sys.callPc c ≠ some CallPc.asleep
          simp [hc]
        · simp
      · intro waiter hwoken
        refine woken_setCall_of_ne ?_ (woken_append_worker hspawned hwoken)
        show sys.callPc c ≠ some CallPc.woken
        simp [hc]
  | setTaskMax max wake =>
      simp only [enabled, Bool.and_eq_true] at henabled
      cases hexec
      exact alert_of_signal henabled.2 hgood fun _ => Iff.rfl
  | work w wake =>
      simp only [enabled, Bool.and_eq_true, Bool.or_eq_true, decide_eq_true_eq] at henabled
      refine workLoop_alert hI halert hrunning henabled.1.2 henabled.2 ?_ hexec
      intro hempty
      simpa [wellSignalled, hempty] using hgood
  | begin w =>
      rcases begin_cases hexec with ⟨node, hw, _, ⟨func, _, rfl⟩ | ⟨_, rfl⟩⟩
      · exact halert.set_worker rfl rfl rfl rfl hw (by simp) (by simp)
      · exact halert.set_worker rfl rfl rfl rfl hw (by simp) (by simp)
  | finish w =>
      rcases finish_cases hexec with ⟨node, hw, rfl⟩
      exact halert.set_worker rfl rfl rfl rfl hw (by simp) (by simp)
  | recycle w =>
      rcases recycle_cases hexec with ⟨node, links, hw, _, _, rfl⟩
      exact halert.set_worker rfl rfl rfl rfl hw (by simp) (by simp)
  | spurious waiter =>
      cases hexec
      refine halert.frame ?_ ?_ ?_ ?_
      · rw [wakeUp_pool]
      · rw [wakeUp_pool]
      · -- one sleeper less, and one woken thread more
        exact fun _ => asleep_of_wakeUp
      · exact fun _ => woken_of_wakeUp
  | close => cases hopen
  | closeNext => cases hopen
  | closeJoin => cases hopen
  | closeFree fuel => cases hopen

end Steps

/-! ## Runs -/

/-- What every run keeps whose steps waste no signal.  Once the pool is closing, nothing but the
flag matters here. -/
structure Attentive (sys : System F X) : Prop where
  flag : sys.pool.shutdown = true ↔ sys.closer ≠ CloserPc.notCalled
  alert : sys.pool.shutdown = false → (∃ lists, Inv sys lists) ∧ sys.Alert

theorem ofPool_attentive {start : Nat → Bool} {thrNumMin thrNumMax : UInt32}
    {pool : UcThreadpool F X}
    (hcreate : ucThreadpoolCreate start thrNumMin thrNumMax = some pool) :
    (ofPool pool).Attentive where
  flag := by
    rw [ucThreadpoolCreate] at hcreate
    split_ifs at hcreate
    cases hcreate
    simp [ofPool]
  alert := by
    intro _
    refine ⟨⟨_, ofPool_inv hcreate⟩, ?_⟩
    -- the first workers are all in front of the lock, and there are no calls
    intro waiter hsleeps _
    cases waiter with
    | call c => simp [isAsleep, callPc, ofPool] at hsleeps
    | worker w =>
        have hpc : (ofPool pool).workers[w]? = some WorkerPc.asleep := of_decide_eq_true hsleeps
        rcases List.mem_map.1 (List.mem_of_getElem? hpc) with ⟨_, _, hready⟩
        cases hready

theorem Attentive.step {e : Event F X} {sys' : System F X} (hA : sys.Attentive)
    (henabled : ((machine F X).restrict wellSignalled).enabled sys e = true)
    (hexec : sys.exec e = some sys') : sys'.Attentive := by
  rcases (Bool.and_eq_true _ _).mp henabled with ⟨henabled', hgood⟩
  have hflag := exec_closing henabled' hexec hA.flag
  refine ⟨hflag, ?_⟩
  intro hrunning
  cases hopen : e.closing with
  | false =>
      have hrunning' : sys.pool.shutdown = false := by
        rw [← hrunning, (exec_sameClosing hopen hexec).2]
      rcases hA.alert hrunning' with ⟨⟨lists, hI⟩, halert⟩
      rcases exec_spec hI hopen henabled' with ⟨sys'', lists', hexec', hI'⟩
      have hsame : sys'' = sys' := Option.some.inj (hexec'.symm.trans hexec)
      exact ⟨⟨lists', hsame ▸ hI'⟩,
        exec_alert hI halert hrunning' hopen henabled' hgood hexec⟩
  | true =>
      -- a closing step leaves the pool closed
      have hclosed := closer_of_closing hopen hexec
      rw [hflag.2 hclosed] at hrunning
      cases hrunning

/-- No wakeup is lost in a pool whose signals all go to a thread that can go on, whenever a
sleeping thread can: in every state of such a run, whatever its producers, workers and calls of
`uc_threadpool_set_task_max` do. -/
theorem ucThreadpool_noLostWakeup {start : Nat → Bool} {thrNumMin thrNumMax : UInt32}
    {pool : UcThreadpool F X}
    (hcreate : ucThreadpoolCreate start thrNumMin thrNumMax = some pool)
    {events : List (Event F X)}
    (hrun : ((machine F X).restrict wellSignalled).Run (ofPool pool) events sys) :
    sys.lostWakeup = false := by
  have hA : sys.Attentive := by
    refine hrun.invariant (ofPool_attentive hcreate) ?_ (fun _ _ => trivial : ∀ e ∈ events, True)
    intro sys₁ sys₂ e hA _ henabled hexec
    exact hA.step henabled hexec
  cases hrunning : sys.pool.shutdown with
  | true => simp [lostWakeup, hrunning]
  | false =>
      rcases hA.alert hrunning with ⟨⟨lists, hI⟩, halert⟩
      exact not_lostWakeup_of_alert hI halert

/-- A pool with two workers and the bound 1.  The first task wakes worker 0; a second producer
finds the queue full.  Worker 0 dequeues the task and signals. -/
def boundedStart : List (Event Nat Nat) :=
  [Event.setTaskMax 1 none, Event.work 0 none, Event.work 1 (some (Waiter.worker 0)),
    Event.call (some 7) none false,
    Event.enter 0 (some ⟨16, by decide⟩) (some (Waiter.worker 0)),
    Event.activate 0 true true, Event.call (some 8) none false,
    Event.enter 1 (some ⟨48, by decide⟩) (some (Waiter.worker 1))]

/-- The signal of the dequeue wakes the producer, which queues its task. -/
theorem ucThreadpool_noLostWakeup_bounded :
    ∃ (pool : UcThreadpool Nat Nat) (sys : System Nat Nat),
      ucThreadpoolCreate (fun _ => true) 2 2 = some pool ∧
      ((machine Nat Nat).restrict wellSignalled).Run (ofPool pool)
        (boundedStart ++ [Event.work 0 (some (Waiter.call 1)),
          Event.resume 1 (some ⟨48, by decide⟩) (some (Waiter.worker 1))]) sys ∧
      sys.lostWakeup = false := by
  have hplay : ∃ (pool : UcThreadpool Nat Nat) (sys : System Nat Nat),
      ucThreadpoolCreate (fun _ => true) 2 2 = some pool ∧
      ((machine Nat Nat).restrict wellSignalled).play (ofPool pool)
        (boundedStart ++ [Event.work 0 (some (Waiter.call 1)),
          Event.resume 1 (some ⟨48, by decide⟩) (some (Waiter.worker 1))]) = some sys :=
    ⟨_, _, rfl, rfl⟩
  rcases hplay with ⟨pool, sys, hcreate, hplay⟩
  have hrun := Machine.run_of_play hplay
  exact ⟨pool, sys, hcreate, hrun, ucThreadpool_noLostWakeup hcreate hrun⟩

/-- The signal of the dequeue wakes the other worker, which finds the queue empty.  Both workers
sleep again, and so does the producer, with room in the queue. -/
theorem ucThreadpool_lostWakeup :
    ∃ (pool : UcThreadpool Nat Nat) (sys : System Nat Nat),
      ucThreadpoolCreate (fun _ => true) 2 2 = some pool ∧
      (machine Nat Nat).Run (ofPool pool)
        (boundedStart ++ [Event.work 0 (some (Waiter.worker 1)),
          Event.work 1 (some (Waiter.call 1)), Event.begin 0, Event.finish 0, Event.recycle 0,
          Event.work 0 (some (Waiter.call 1))]) sys ∧
      sys.lostWakeup = true := by
  have hplay : ∃ (pool : UcThreadpool Nat Nat) (sys : System Nat Nat),
      ucThreadpoolCreate (fun _ => true) 2 2 = some pool ∧
      (machine Nat Nat).play (ofPool pool)
        (boundedStart ++ [Event.work 0 (some (Waiter.worker 1)),
          Event.work 1 (some (Waiter.call 1)), Event.begin 0, Event.finish 0, Event.recycle 0,
          Event.work 0 (some (Waiter.call 1))]) = some sys ∧
      sys.lostWakeup = true :=
    ⟨_, _, rfl, rfl, rfl⟩
  rcases hplay with ⟨pool, sys, hcreate, hplay, hlost⟩
  exact ⟨pool, sys, hcreate, Machine.run_of_play hplay, hlost⟩

end System

end Threadpool
end UtilsC
