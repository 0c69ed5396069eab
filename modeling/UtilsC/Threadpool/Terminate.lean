import Mathlib.Algebra.Order.BigOperators.Group.List
import Mathlib.Algebra.Order.Ring.Nat
import UtilsC.Threadpool.Close

/-!
# Closing a pool comes to an end

`uc_threadpool_close` waits for every thread, and a thread leaves only when it is back in front of
its loop test.  Each worker and the closing thread have a bounded number of steps to go
(`stepsLeft`) once the flag is set, and unless somebody has run off with the lock one of them can
take the next one.  That a task's function returns is the step `Event.finish`.
-/

namespace UtilsC
namespace Threadpool

open Lib ListHead

variable {F X : Type}

/-- The steps that a worker of a closed pool has left. -/
def WorkerPc.stepsLeft : WorkerPc → Nat
  | WorkerPc.ready => 1
  | WorkerPc.asleep => 1
  | WorkerPc.woken => 1
  | WorkerPc.called _ => 2
  | WorkerPc.calling _ => 3
  | WorkerPc.holding _ => 4
  | WorkerPc.exited => 0

/-- The steps that the closing thread has left, with so many threads on the list. -/
def CloserPc.stepsLeft (threads : Nat) : CloserPc → Nat
  | CloserPc.notCalled => 0
  | CloserPc.joinLoop => 2 * threads + 2
  | CloserPc.join _ => 2 * threads + 3
  | CloserPc.freeLists => 1
  | CloserPc.returned => 0

/-- The steps of the workers and of the closing thread. -/
def Event.ofThread : Event F X → Bool
  | Event.work _ _ => true
  | Event.begin _ => true
  | Event.finish _ => true
  | Event.recycle _ => true
  | Event.closeNext => true
  | Event.closeJoin => true
  | Event.closeFree _ => true
  | _ => false

namespace System

variable {sys sys' : System F X}

def stepsLeft (sys : System F X) : Nat :=
  (sys.workers.map WorkerPc.stepsLeft).sum + sys.closer.stepsLeft sys.pool.listPid.length

theorem sum_map_set {workers : List WorkerPc} {old : WorkerPc} :
    ∀ {w : Nat}, workers[w]? = some old → ∀ new : WorkerPc,
      ((workers.set w new).map WorkerPc.stepsLeft).sum + old.stepsLeft =
        (workers.map WorkerPc.stepsLeft).sum + new.stepsLeft := by
  induction workers with
  | nil =>
      intro w hw
      cases hw
  | cons pc workers ih =>
      intro w hw new
      cases w with
      | zero =>
          cases hw
          simp only [List.set_cons_zero, List.map_cons, List.sum_cons]
          omega
      | succ w =>
          have hrest := ih (w := w) (by simpa using hw) new
          simp only [List.set_cons_succ, List.map_cons, List.sum_cons]
          omega

/-- A worker takes a step. -/
theorem stepsLeft_setWorker {w : Nat} {old : WorkerPc} (hw : sys.workers[w]? = some old)
    (new : WorkerPc) :
    (sys.setWorker w new).stepsLeft + old.stepsLeft = sys.stepsLeft + new.stepsLeft := by
  have hsum := sum_map_set hw new
  simp only [stepsLeft, setWorker]
  omega

theorem stepsLeft_wakeUp {wake : Option Waiter}
    (hwake : ∀ waiter, wake = some waiter → sys.isAsleep waiter = true) :
    (sys.wakeUp wake).stepsLeft = sys.stepsLeft := by
  rcases wake with _ | c | w
  · rfl
  · rfl
  · have hasleep : sys.workers[w]? = some WorkerPc.asleep := by
      simpa [isAsleep] using hwake _ rfl
    have hstep := stepsLeft_setWorker hasleep WorkerPc.woken
    exact Nat.add_right_cancel hstep

/-- In a closed pool every step of a worker or of the closing thread is one of those it had left,
and no other step adds to them. -/
theorem exec_stepsLeft {e : Event F X} (hC : sys.Closing) (hclosed : sys.pool.shutdown = true)
    (henabled : sys.enabled e = true) (horderly : sys.orderly e = true)
    (hexec : sys.exec e = some sys') :
    sys'.stepsLeft + (if e.ofThread = true then 1 else 0) ≤ sys.stepsLeft := by
  cases e with
  | call func arg forcetoHead =>
      cases hexec
      exact le_refl _
  | enter c malloc wake =>
      rcases Option.bind_eq_some_iff.1 hexec with ⟨call, _, hrest⟩
      rw [if_pos hclosed] at hrest
      cases hrest
      exact le_refl _
  | resume c malloc wake =>
      rcases Option.bind_eq_some_iff.1 hexec with ⟨call, _, hrest⟩
      cases hfull : queueFull sys.pool with
      | true =>
          rw [addLoop, if_pos hfull] at hrest
          cases hrest
          exact le_refl _
      | false =>
          simp only [orderly, hclosed, hfull, Bool.not_true, Bool.false_or, Bool.and_eq_true,
            Option.isNone_iff_eq_none] at horderly
          have hfail : ucThreadpoolAddToVoidTaskDo malloc call.func call.arg call.forcetoHead
              sys.pool = some (none, sys.pool) := by
            simp [ucThreadpoolAddToVoidTaskDo, takeNode, horderly.1, horderly.2]
          simp only [addLoop, hfull, hfail] at hrest
          cases hrest
          exact le_refl _
  | activate c malloc create =>
      simp only [enabled, Bool.and_eq_true, decide_eq_true_eq] at henabled
      exact absurd henabled.2 (hC.idle hclosed c)
  | setTaskMax max wake =>
      simp only [enabled, Bool.and_eq_true] at henabled
      cases hexec
      let mid : System F X := { sys with pool := { sys.pool with listTaskMax := max } }
      have hmid : (mid.wakeUp wake).stepsLeft = mid.stepsLeft :=
        stepsLeft_wakeUp (asleep_of_signalOk henabled.2)
      exact le_of_eq hmid
  | work w wake =>
      simp only [enabled, Bool.and_eq_true, Bool.or_eq_true, decide_eq_true_eq] at henabled
      simp only [exec, workLoop, hclosed, if_true] at hexec
      cases hexec
      rcases henabled.1.2 with hw | hw
      · exact le_of_eq (stepsLeft_setWorker hw WorkerPc.exited)
      · exact le_of_eq (stepsLeft_setWorker hw WorkerPc.exited)
  | begin w =>
      rcases begin_cases hexec with ⟨node, hw, _, ⟨func, _, rfl⟩ | ⟨_, rfl⟩⟩
      · have hstep := stepsLeft_setWorker hw (WorkerPc.calling node)
        simp only [WorkerPc.stepsLeft] at hstep
        show (sys.setWorker w (WorkerPc.calling node)).stepsLeft + 1 ≤ _
        omega
      · have hstep := stepsLeft_setWorker hw (WorkerPc.called node)
        simp only [WorkerPc.stepsLeft] at hstep
        show (sys.setWorker w (WorkerPc.called node)).stepsLeft + 1 ≤ _
        omega
  | finish w =>
      rcases finish_cases hexec with ⟨node, hw, rfl⟩
      have hstep := stepsLeft_setWorker hw (WorkerPc.called node)
      simp only [WorkerPc.stepsLeft] at hstep
      show (sys.setWorker w (WorkerPc.called node)).stepsLeft + 1 ≤ _
      omega
  | recycle w =>
      rcases recycle_cases hexec with ⟨node, links, hw, _, _, rfl⟩
      have hstep := stepsLeft_setWorker hw WorkerPc.ready
      simp only [WorkerPc.stepsLeft] at hstep
      show (sys.setWorker w WorkerPc.ready).stepsLeft + 1 ≤ _
      omega
  | spurious waiter =>
      cases hexec
      refine le_of_eq (stepsLeft_wakeUp ?_)
      intro waiter' h
      cases h
      exact henabled
  | close =>
      simp only [enabled, Bool.and_eq_true, decide_eq_true_eq] at henabled
      exact absurd henabled.2 (hC.flag.1 hclosed)
  | closeNext =>
      simp only [enabled, Bool.and_eq_true, decide_eq_true_eq] at henabled
      simp only [exec] at hexec
      split at hexec
      · rename_i pid rest hpid
        cases hexec
        simp only [stepsLeft, henabled.2, hpid, CloserPc.stepsLeft, List.length_cons,
          Event.ofThread, if_true]
        omega
      · rename_i hpid
        cases hexec
        simp [stepsLeft, henabled.2, hpid, CloserPc.stepsLeft, Event.ofThread]
  | closeJoin =>
      simp only [enabled] at henabled
      split at henabled
      · rename_i pid hcloser
        cases hexec
        simp only [stepsLeft, hcloser, CloserPc.stepsLeft, Event.ofThread, if_true]
        omega
      · cases henabled
  | closeFree fuel =>
      simp only [enabled, Bool.and_eq_true, decide_eq_true_eq] at henabled
      rcases Option.bind_eq_some_iff.1 hexec with ⟨links, _, hrest⟩
      rcases Option.map_eq_some_iff.1 hrest with ⟨links', _, hsys'⟩
      cases hsys'
      simp [stepsLeft, henabled.2, CloserPc.stepsLeft, Event.ofThread]

/-! ## There is always a next step -/

/-- A signal always has a choice. -/
theorem exists_signalOk (sys : System F X) : ∃ wake, sys.signalOk wake = true := by
  by_cases hwaiter : ∃ waiter, sys.isAsleep waiter = true
  · rcases hwaiter with ⟨waiter, hasleep⟩
    exact ⟨some waiter, hasleep⟩
  · refine ⟨none, ?_⟩
    simp only [signalOk, Bool.and_eq_true, List.all_eq_true, decide_eq_true_eq]
    refine ⟨fun call hcall hpc => hwaiter ?_, fun pc hpc hasleep => hwaiter ?_⟩
    · rcases List.mem_iff_getElem?.1 hcall with ⟨c, hc⟩
      exact ⟨Waiter.call c, by simp [isAsleep, callPc, hc, hpc]⟩
    · rcases List.mem_iff_getElem?.1 hpc with ⟨w, hw⟩
      exact ⟨Waiter.worker w, by simp [isAsleep, hw, hasleep]⟩

/-- Whoever has not left its loop can go on: it is awake, as the pool is closed. -/
theorem exists_worker_step (hunlocked : sys.locked = false)
    (hawake : ∀ pc ∈ sys.workers, pc ≠ WorkerPc.asleep) {w : Nat} {pc : WorkerPc}
    (hw : sys.workers[w]? = some pc) (hloop : pc ≠ WorkerPc.exited) :
    ∃ e : Event F X, e.ofThread = true ∧ sys.enabled e = true ∧ sys.orderly e = true ∧
      ∀ fuel, e ≠ Event.closeFree fuel := by
  rcases exists_signalOk sys with ⟨wake, hsignal⟩
  cases pc with
  | ready =>
      exact ⟨Event.work w wake, rfl, by simp [enabled, hunlocked, hw, hsignal], rfl, by simp⟩
  | woken =>
      exact ⟨Event.work w wake, rfl, by simp [enabled, hunlocked, hw, hsignal], rfl, by simp⟩
  | asleep => exact absurd rfl (hawake _ (List.mem_of_getElem? hw))
  | holding node => exact ⟨Event.begin w, rfl, by simp [enabled, hw], rfl, by simp⟩
  | calling node => exact ⟨Event.finish w, rfl, by simp [enabled, hw], rfl, by simp⟩
  | called node =>
      exact ⟨Event.recycle w, rfl, by simp [enabled, hunlocked, hw], rfl, by simp⟩
  | exited => exact absurd rfl hloop

/-- The broadcast wakes all workers, and none sleeps in a closed pool. -/
def Awake (sys : System F X) : Prop :=
  sys.pool.shutdown = true → ∀ pc ∈ sys.workers, pc ≠ WorkerPc.asleep

theorem awake_set {workers : List WorkerPc} (hawake : ∀ pc ∈ workers, pc ≠ WorkerPc.asleep)
    (w : Nat) {new : WorkerPc} (hnew : new ≠ WorkerPc.asleep) :
    ∀ pc ∈ workers.set w new, pc ≠ WorkerPc.asleep := by
  intro pc hpc
  rcases List.mem_or_eq_of_mem_set hpc with h | h
  · exact hawake pc h
  · exact h ▸ hnew

theorem awake_wakeUp (hawake : ∀ pc ∈ sys.workers, pc ≠ WorkerPc.asleep) (wake : Option Waiter) :
    ∀ pc ∈ (sys.wakeUp wake).workers, pc ≠ WorkerPc.asleep := by
  rcases wake with _ | c | w
  · exact hawake
  · exact hawake
  · exact awake_set hawake w (by decide)

/-- A step in a closed pool puts no worker to sleep. -/
theorem exec_awake {e : Event F X} (hC : sys.Closing) (hclosed : sys.pool.shutdown = true)
    (hawake : ∀ pc ∈ sys.workers, pc ≠ WorkerPc.asleep) (henabled : sys.enabled e = true)
    (horderly : sys.orderly e = true) (hexec : sys.exec e = some sys') :
    ∀ pc ∈ sys'.workers, pc ≠ WorkerPc.asleep := by
  cases e with
  | call func arg forcetoHead =>
      cases hexec
      exact hawake
  | enter c malloc wake =>
      rcases Option.bind_eq_some_iff.1 hexec with ⟨call, _, hrest⟩
      rw [if_pos hclosed] at hrest
      cases hrest
      exact hawake
  | resume c malloc wake =>
      rcases Option.bind_eq_some_iff.1 hexec with ⟨call, _, hrest⟩
      simp only [addLoop] at hrest
      split at hrest
      · cases hrest
        exact hawake
      · rcases Option.map_eq_some_iff.1 hrest with ⟨⟨node, pool⟩, _, hsys'⟩
        cases node with
        | none =>
            cases hsys'
            exact hawake
        | some node =>
            cases hsys'
            let mid : System F X := (({ sys with pool := pool }).setCall c
              CallPc.activate).noteQueued node c
            have hmid : ∀ pc ∈ mid.workers, pc ≠ WorkerPc.asleep := hawake
            exact awake_wakeUp hmid wake
  | activate c malloc create =>
      simp only [enabled, Bool.and_eq_true, decide_eq_true_eq] at henabled
      exact absurd henabled.2 (hC.idle hclosed c)
  | setTaskMax max wake =>
      cases hexec
      let mid : System F X := { sys with pool := { sys.pool with listTaskMax := max } }
      have hmid : ∀ pc ∈ mid.workers, pc ≠ WorkerPc.asleep := hawake
      exact awake_wakeUp hmid wake
  | work w wake =>
      simp only [exec, workLoop, hclosed, if_true] at hexec
      cases hexec
      exact awake_set hawake w (by decide)
  | begin w =>
      rcases begin_cases hexec with ⟨node, _, _, ⟨func, _, rfl⟩ | ⟨_, rfl⟩⟩
      · exact awake_set hawake w (by simp)
      · exact awake_set hawake w (by simp)
  | finish w =>
      rcases finish_cases hexec with ⟨node, _, rfl⟩
      exact awake_set hawake w (by simp)
  | recycle w =>
      rcases recycle_cases hexec with ⟨node, links, _, _, _, rfl⟩
      exact awake_set hawake w (by simp)
  | spurious waiter =>
      cases hexec
      exact awake_wakeUp hawake _
  | close =>
      simp only [enabled, Bool.and_eq_true, decide_eq_true_eq] at henabled
      exact absurd henabled.2 (hC.flag.1 hclosed)
  | closeNext =>
      simp only [exec] at hexec
      split at hexec <;> cases hexec <;> exact hawake
  | closeJoin =>
      cases hexec
      exact hawake
  | closeFree fuel =>
      rcases Option.bind_eq_some_iff.1 hexec with ⟨links, _, hrest⟩
      rcases Option.map_eq_some_iff.1 hrest with ⟨links', _, hsys'⟩
      cases hsys'
      exact hawake

theorem awake_step {e : Event F X} (hA : sys.Awake) (hC : sys.Closing)
    (henabled : sys.enabled e = true) (horderly : sys.orderly e = true)
    (hexec : sys.exec e = some sys') : sys'.Awake := by
  intro hclosed'
  by_cases hclosed : sys.pool.shutdown = true
  · exact exec_awake hC hclosed (hA hclosed) henabled horderly hexec
  · -- only the step that closes the pool sets the flag
    cases hopen : e.closing with
    | false =>
        rw [(exec_sameClosing hopen hexec).2] at hclosed'
        exact absurd hclosed' hclosed
    | true =>
        have hnot : sys.closer = CloserPc.notCalled := by
          by_contra hne
          exact hclosed (hC.flag.2 hne)
        cases e with
        | close =>
            cases hexec
            intro pc hpc
            rcases List.mem_map.1 hpc with ⟨old, _, rfl⟩
            by_cases hold : old = WorkerPc.asleep <;> simp [hold]
        | closeNext => simp [enabled, hnot] at henabled
        | closeJoin => simp [enabled, hnot] at henabled
        | closeFree fuel => simp [enabled, hnot] at henabled
        | _ => cases hopen

/-! ## The end of a close -/

/-- Unless a call has kept the lock, a thread of the pool has a step to take until
`uc_threadpool_close` returns. -/
theorem Life.progress {threadMax : Int} {started : Nat} {joined : List Nat}
    (hL : Life threadMax started sys joined) (hA : sys.Awake)
    (hclosed : sys.pool.shutdown = true) (hunlocked : sys.locked = false)
    (hrunning : sys.closer ≠ CloserPc.returned) :
    ∃ e : Event F X, e.ofThread = true ∧ sys.enabled e = true ∧ sys.orderly e = true ∧
      (sys.exec e).isSome = true := by
  rcases hL.executes with ⟨rounds, hexecutes⟩
  have hnext : ∃ e : Event F X, e.ofThread = true ∧ sys.enabled e = true ∧
      sys.orderly e = true ∧ ∀ fuel, e = Event.closeFree fuel → rounds < fuel := by
    cases hcloser : sys.closer with
    | notCalled => exact absurd hcloser (hL.closing.flag.1 hclosed)
    | joinLoop =>
        exact ⟨Event.closeNext, rfl, by simp [enabled, hunlocked, hcloser], rfl, by simp⟩
    | join pid =>
        have hmem : pid ∈ List.range sys.workers.length := by
          rw [← hL.threads.order, hcloser]
          simp [joining]
        have hlt := List.mem_range.1 hmem
        have hw : sys.workers[pid]? = some sys.workers[pid] := List.getElem?_eq_getElem hlt
        by_cases hleft : sys.workers[pid] = WorkerPc.exited
        · rw [hleft] at hw
          exact ⟨Event.closeJoin, rfl, by simp [enabled, hcloser, hw], rfl, by simp⟩
        · -- the thread that is waited for has a step of its own
          rcases exists_worker_step hunlocked (hA hclosed) hw hleft with
            ⟨e, hthread, henabled, horderly, hfree⟩
          exact ⟨e, hthread, henabled, horderly, fun fuel h => absurd h (hfree fuel)⟩
    | freeLists =>
        refine ⟨Event.closeFree (rounds + 1), rfl, by simp [enabled, hunlocked, hcloser], rfl, ?_⟩
        intro fuel h
        cases h
        exact Nat.lt_succ_self rounds
    | returned => exact absurd hcloser hrunning
  rcases hnext with ⟨e, hthread, henabled, horderly, hfuel⟩
  exact ⟨e, hthread, henabled, horderly, hexecutes e hfuel henabled horderly⟩

theorem run_awake {start : Nat → Bool} {thrNumMin thrNumMax : UInt32} {pool : UcThreadpool F X}
    (hcreate : ucThreadpoolCreate start thrNumMin thrNumMax = some pool)
    {events : List (Event F X)}
    (hrun : ((machine F X).restrict orderly).Run (ofPool pool) events sys) :
    sys.Closing ∧ sys.Awake := by
  have hstart : (ofPool pool).Closing ∧ (ofPool pool).Awake := by
    have hC := ofPool_closing hcreate
    exact ⟨hC, fun hclosed => absurd rfl (hC.flag.1 hclosed)⟩
  refine hrun.invariant (J := fun s => s.Closing ∧ s.Awake) hstart ?_
    (fun _ _ => trivial : ∀ e ∈ events, True)
  rintro sys₁ sys₂ e ⟨hC, hA⟩ _ henabled hexec
  rcases (Bool.and_eq_true _ _).mp henabled with ⟨henabled', horderly⟩
  exact ⟨hC.step henabled' horderly hexec, awake_step hA hC henabled' horderly hexec⟩

/-- A close comes to an end: in an orderly run the threads of a closed pool take at most `stepsLeft`
more steps, and until `uc_threadpool_close` has returned one of them can take one, unless a call
has kept the lock. -/
theorem ucThreadpoolClose_ends {start : Nat → Bool} {thrNumMin thrNumMax : UInt32}
    {pool : UcThreadpool F X}
    (hcreate : ucThreadpoolCreate start thrNumMin thrNumMax = some pool)
    {events events' : List (Event F X)}
    (hrun : ((machine F X).restrict orderly).Run (ofPool pool) events sys)
    (hclosed : sys.pool.shutdown = true)
    (hrun' : ((machine F X).restrict orderly).Run sys events' sys') :
    events'.countP Event.ofThread ≤ sys.stepsLeft ∧
      (sys'.locked = false → sys'.closer ≠ CloserPc.returned →
        ∃ e : Event F X, e.ofThread = true ∧
          ((machine F X).restrict orderly).enabled sys' e = true ∧
          (sys'.exec e).isSome = true) := by
  have hC := (run_awake hcreate hrun).1
  have hsteps : (sys'.Closing ∧ sys'.pool.shutdown = true) ∧
      events'.countP Event.ofThread + sys'.stepsLeft ≤ sys.stepsLeft := by
    refine hrun'.countP_le (J := fun s => s.Closing ∧ s.pool.shutdown = true) ⟨hC, hclosed⟩ ?_
    rintro sys₁ sys₂ e ⟨hC₁, hclosed₁⟩ henabled hexec
    rcases (Bool.and_eq_true _ _).mp henabled with ⟨henabled', horderly⟩
    have hC₂ := hC₁.step henabled' horderly hexec
    refine ⟨⟨hC₂, ?_⟩, exec_stepsLeft hC₁ hclosed₁ henabled' horderly hexec⟩
    cases hopen : e.closing with
    | false => rw [(exec_sameClosing hopen hexec).2, hclosed₁]
    | true => exact hC₂.flag.2 (closer_of_closing hopen hexec)
  refine ⟨le_trans (Nat.le_add_right _ _) hsteps.2, fun hunlocked hrunning => ?_⟩
  have hrun₂ := hrun.trans hrun'
  have hA := (run_awake hcreate hrun₂).2
  have hrecorded : ∃ joined, (((machine F X).restrict orderly).record joins).Run (ofPool pool, [])
      (events ++ events') (sys', joined) := hrun₂.record []
  rcases hrecorded with ⟨joined, hrecord⟩
  have hL := run_life hcreate hrecord
  rcases hL.progress hA hsteps.1.2 hunlocked hrunning with ⟨e, hthread, henabled, horderly, hexec⟩
  exact ⟨e, hthread, (Bool.and_eq_true _ _).mpr ⟨henabled, horderly⟩, hexec⟩

/-- Closed while the one worker is in a task: seven steps are left, and after three of them there is
a next one. -/
theorem ucThreadpoolClose_ends_one :
    ∃ (pool : UcThreadpool Nat Nat) (sys sys' : System Nat Nat),
      ucThreadpoolCreate (fun _ => true) 1 1 = some pool ∧
      ((machine Nat Nat).restrict orderly).Run (ofPool pool)
        [Event.call (some 7) none false, Event.enter 0 (some ⟨16, by decide⟩) none,
          Event.activate 0 true true, Event.work 0 none, Event.begin 0, Event.close] sys ∧
      ((machine Nat Nat).restrict orderly).Run sys
        [Event.closeNext, Event.finish 0, Event.recycle 0] sys' ∧
      sys.stepsLeft = 7 ∧
      ∃ e : Event Nat Nat, e.ofThread = true ∧
        ((machine Nat Nat).restrict orderly).enabled sys' e = true ∧
        (sys'.exec e).isSome = true := by
  have hplay : ∃ (pool : UcThreadpool Nat Nat) (sys sys' : System Nat Nat),
      ucThreadpoolCreate (fun _ => true) 1 1 = some pool ∧
      ((machine Nat Nat).restrict orderly).play (ofPool pool)
        [Event.call (some 7) none false, Event.enter 0 (some ⟨16, by decide⟩) none,
          Event.activate 0 true true, Event.work 0 none, Event.begin 0, Event.close] =
        some sys ∧
      ((machine Nat Nat).restrict orderly).play sys
        [Event.closeNext, Event.finish 0, Event.recycle 0] = some sys' ∧
      sys.pool.shutdown = true ∧ sys.stepsLeft = 7 ∧ sys'.locked = false ∧
      sys'.closer = CloserPc.join 0 :=
    ⟨_, _, _, rfl, rfl, rfl, rfl, rfl, rfl, rfl⟩
  rcases hplay with
    ⟨pool, sys, sys', hcreate, hplay, hplay', hclosed, hsteps, hunlocked, hcloser⟩
  have hrun := Machine.run_of_play hplay
  have hrun' := Machine.run_of_play hplay'
  have hends := ucThreadpoolClose_ends hcreate hrun hclosed hrun'
  exact ⟨pool, sys, sys', hcreate, hrun, hrun', hsteps, hends.2 hunlocked (by simp [hcloser])⟩

end System

end Threadpool
end UtilsC
