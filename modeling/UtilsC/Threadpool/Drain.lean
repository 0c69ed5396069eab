import UtilsC.Threadpool.Close
import UtilsC.Threadpool.Kept
import UtilsC.Threadpool.Wakeup

/-!
# Waiting for the tasks, then closing

`uc_threadpool_wait_task_done` tests under the lock whether the task list is empty, once a second.
It does not wait for the tasks that a worker has in its hands; `uc_threadpool_close` does, as it
joins the workers.

* `drainMachine` is the pool with a thread in `uc_threadpool_wait_task_done` beside it, and `alone`
  is what the header asks of the others: no task is added from the wait on.
* `ucThreadpool_drained`: the wait and the close together leave no task behind.
-/

namespace UtilsC
namespace Threadpool

open Lib ListHead

variable {F X : Type}

/-! ## A thread that waits -/

/-- Where the thread in `uc_threadpool_wait_task_done` stands. -/
inductive WaitPc
  | notCalled
  | polling
  | returned
  deriving DecidableEq

inductive DrainEvent (F X : Type)
  | pool (e : Event F X)
  | wait
  | poll

namespace System

variable {sys sys' : System F X} {lists : PoolList → List TaskPtr}

/-- The loop test of `uc_threadpool_wait_task_done`, under the lock: it returns, or it gives the
lock back and sleeps. -/
def ucThreadpoolWaitTaskDone (sys : System F X) : WaitPc :=
  if listEmpty sys.pool.links (Loc.head PoolList.task) = true then WaitPc.returned
  else WaitPc.polling

def drainMachine (F X : Type) : Machine (System F X × WaitPc) (DrainEvent F X) where
  enabled
    | (sys, _), DrainEvent.pool e => sys.enabled e
    | (_, waiter), DrainEvent.wait => waiter = WaitPc.notCalled
    | (sys, waiter), DrainEvent.poll => !sys.locked && waiter = WaitPc.polling
  exec
    | (sys, waiter), DrainEvent.pool e => (sys.exec e).map fun sys' => (sys', waiter)
    | (sys, _), DrainEvent.wait => some (sys, WaitPc.polling)
    | (sys, _), DrainEvent.poll => some (sys, sys.ucThreadpoolWaitTaskDone)

def hasReturned (call : Call F X) : Bool :=
  match call.pc with
  | CallPc.returned _ => true
  | _ => false

/-- The wait begins when all calls have returned, and nobody calls any more; the pool is closed
behind the wait. -/
def alone : System F X × WaitPc → DrainEvent F X → Bool
  | (_, waiter), DrainEvent.pool (Event.call _ _ _) => waiter = WaitPc.notCalled
  | (_, waiter), DrainEvent.pool Event.close => waiter = WaitPc.returned
  | (_, _), DrainEvent.pool _ => true
  | (sys, _), DrainEvent.wait => sys.calls.all hasReturned
  | (_, _), DrainEvent.poll => true

/-! ### When all calls have returned -/

section Returned

variable {e : Event F X} {waiter : WaitPc}

theorem callPc_returned (hcalls : ∀ call ∈ sys.calls, hasReturned call = true) {c : Nat}
    {pc : CallPc} (hc : sys.callPc c = some pc) : ∃ ret, pc = CallPc.returned ret := by
  rcases callPc_eq_some hc with ⟨call, hcall, hpc⟩
  have hret := hcalls call (List.mem_of_getElem? hcall)
  rw [hasReturned, hpc] at hret
  cases pc with
  | returned ret => exact ⟨ret, rfl⟩
  | _ => cases hret

theorem wakeUp_calls (hcalls : ∀ call ∈ sys.calls, hasReturned call = true)
    {wake : Option Waiter}
    (hwake : ∀ c, wake = some (Waiter.call c) → sys.callPc c = some CallPc.asleep) :
    (sys.wakeUp wake).calls = sys.calls := by
  rcases wake with _ | c | w
  · rfl
  · rcases callPc_returned hcalls (hwake c rfl) with ⟨ret, h⟩
    cases h
  · rfl

theorem call_asleep_of_signalOk {wake : Option Waiter} (hsignal : sys.signalOk wake = true) :
    ∀ c, wake = some (Waiter.call c) → sys.callPc c = some CallPc.asleep := by
  intro c hwake
  have hasleep := asleep_of_signalOk hsignal _ hwake
  simpa [isAsleep] using hasleep

/-- The steps that are left: those of the workers and of the closing thread. -/
theorem exec_returned (hcalls : ∀ call ∈ sys.calls, hasReturned call = true)
    (hcall : ∀ func arg forcetoHead, e ≠ Event.call func arg forcetoHead)
    (henabled : sys.enabled e = true) (hexec : sys.exec e = some sys') :
    sys'.calls = sys.calls ∧ sys.orderly e = true ∧
      (sys.pool.shutdown = false → (∃ lists, Inv sys lists) → sys.pool.listTaskTtl = 0 →
        sys'.pool.listTaskTtl = 0) := by
  cases e with
  | call func arg forcetoHead => exact absurd rfl (hcall func arg forcetoHead)
  | enter c malloc wake =>
      simp only [enabled, Bool.and_eq_true, decide_eq_true_eq] at henabled
      rcases callPc_returned hcalls henabled.1.1.2 with ⟨ret, h⟩
      cases h
  | resume c malloc wake =>
      simp only [enabled, Bool.and_eq_true, decide_eq_true_eq] at henabled
      rcases callPc_returned hcalls henabled.1.1.2 with ⟨ret, h⟩
      cases h
  | activate c malloc create =>
      simp only [enabled, Bool.and_eq_true, decide_eq_true_eq] at henabled
      rcases callPc_returned hcalls henabled.2 with ⟨ret, h⟩
      cases h
  | setTaskMax max wake =>
      simp only [enabled, Bool.and_eq_true] at henabled
      cases hexec
      refine ⟨?_, rfl, fun _ _ httl => ?_⟩
      · let mid : System F X := { sys with pool := { sys.pool with listTaskMax := max } }
        have hmid : ∀ call ∈ mid.calls, hasReturned call = true := hcalls
        exact wakeUp_calls hmid (call_asleep_of_signalOk henabled.2)
      · rw [wakeUp_pool]
        exact httl
  | work w wake =>
      simp only [enabled, Bool.and_eq_true] at henabled
      simp only [exec, workLoop] at hexec
      split at hexec
      · cases hexec
        exact ⟨rfl, rfl, fun _ _ => id⟩
      · split at hexec
        · cases hexec
          exact ⟨rfl, rfl, fun _ _ => id⟩
        · rename_i hempty
          rcases Option.map_eq_some_iff.1 hexec with ⟨⟨node, pool⟩, _, hsys'⟩
          cases hsys'
          refine ⟨?_, rfl, fun _ hinv httl => ?_⟩
          · let mid : System F X := (({ sys with pool := pool }).setWorker w
              (WorkerPc.holding node)).noteStarted node
            have hmid : ∀ call ∈ mid.calls, hasReturned call = true := hcalls
            have hasleep := call_asleep_of_signalOk henabled.2
            exact wakeUp_calls hmid hasleep
          · rcases hinv with ⟨lists, hI⟩
            exact absurd ((ttl_eq_zero_iff hI).1 httl) hempty
  | begin w =>
      rcases begin_cases hexec with ⟨node, _, _, ⟨func, _, rfl⟩ | ⟨_, rfl⟩⟩
      · exact ⟨rfl, rfl, fun _ _ => id⟩
      · exact ⟨rfl, rfl, fun _ _ => id⟩
  | finish w =>
      rcases finish_cases hexec with ⟨node, _, rfl⟩
      exact ⟨rfl, rfl, fun _ _ => id⟩
  | recycle w =>
      rcases recycle_cases hexec with ⟨node, links, _, _, _, rfl⟩
      exact ⟨rfl, rfl, fun _ _ => id⟩
  | spurious waiter =>
      cases hexec
      refine ⟨wakeUp_calls hcalls ?_, rfl, fun _ _ httl => ?_⟩
      · intro c h
        cases h
        simpa [enabled, isAsleep] using henabled
      · rw [wakeUp_pool]
        exact httl
  | close =>
      cases hexec
      refine ⟨?_, ?_, fun _ _ => id⟩
      · -- the broadcast finds no producer asleep
        refine (List.map_congr_left fun call hcall => ?_).trans (List.map_id _)
        have hret := hcalls call hcall
        have hpc : call.pc ≠ CallPc.asleep := by
          intro h
          simp [hasReturned, h] at hret
        rw [if_neg hpc]
        rfl
      · rw [orderly, List.all_eq_true]
        intro call hcall
        have hret := hcalls call hcall
        refine decide_eq_true fun h => ?_
        simp [hasReturned, h] at hret
  | closeNext =>
      simp only [exec] at hexec
      split at hexec <;> cases hexec <;> exact ⟨rfl, rfl, fun _ _ => id⟩
  | closeJoin =>
      cases hexec
      exact ⟨rfl, rfl, fun _ _ => id⟩
  | closeFree fuel =>
      rcases Option.bind_eq_some_iff.1 hexec with ⟨links, _, hrest⟩
      rcases Option.map_eq_some_iff.1 hrest with ⟨links', _, hsys'⟩
      cases hsys'
      exact ⟨rfl, rfl, fun _ _ => id⟩

end Returned

/-! ### The runs -/

/-- What the wait and its condition keep. -/
structure Draining (sys : System F X) (waiter : WaitPc) : Prop where
  executed : Executed sys
  calls : waiter ≠ WaitPc.notCalled → ∀ call ∈ sys.calls, hasReturned call = true
  empty : waiter = WaitPc.returned → sys.pool.listTaskTtl = 0
  closed_after : waiter ≠ WaitPc.returned → sys.closer = CloserPc.notCalled

namespace Draining

variable {waiter : WaitPc}

/-- Under the condition the pool's own steps are orderly. -/
theorem orderly_of_alone {e : Event F X} (hD : Draining sys waiter) (hC : sys.Closing)
    (henabled : sys.enabled e = true) (halone : alone (sys, waiter) (DrainEvent.pool e) = true)
    (hexec : sys.exec e = some sys') : sys.orderly e = true := by
  by_cases hwaiter : waiter = WaitPc.notCalled
  · -- the pool is not closed yet
    have hnot : sys.closer = CloserPc.notCalled := hD.closed_after (by simp [hwaiter])
    have hclosed : sys.pool.shutdown = false := by
      rw [← Bool.not_eq_true, hC.flag]
      simp [hnot]
    cases e with
    | close => simp [alone, hwaiter] at halone
    | resume c malloc wake => simp [orderly, hclosed]
    | _ => rfl
  · have hcalls := hD.calls hwaiter
    have hcall : ∀ func arg forcetoHead, e ≠ Event.call func arg forcetoHead := by
      rintro func arg forcetoHead rfl
      simp [alone, hwaiter] at halone
    exact (exec_returned hcalls hcall henabled hexec).2.1

/-- Behind the close nothing is begun or finished. -/
theorem executed_ended {e : Event F X} {queue : List TaskPtr} (hD : Draining sys waiter)
    (hE : Ended sys queue) (hcalls : ∀ call ∈ sys.calls, hasReturned call = true)
    (hcall : ∀ func arg forcetoHead, e ≠ Event.call func arg forcetoHead)
    (henabled : sys.enabled e = true) (hexec : sys.exec e = some sys')
    (hreturned : sys.closer = CloserPc.returned) : Executed sys' := by
  cases e with
  | call func arg forcetoHead => exact absurd rfl (hcall func arg forcetoHead)
  | enter c malloc wake =>
      simp only [enabled, Bool.and_eq_true, decide_eq_true_eq] at henabled
      rcases callPc_returned hcalls henabled.1.1.2 with ⟨ret, h⟩
      cases h
  | resume c malloc wake =>
      simp only [enabled, Bool.and_eq_true, decide_eq_true_eq] at henabled
      rcases callPc_returned hcalls henabled.1.1.2 with ⟨ret, h⟩
      cases h
  | activate c malloc create =>
      simp only [enabled, Bool.and_eq_true, decide_eq_true_eq] at henabled
      rcases callPc_returned hcalls henabled.2 with ⟨ret, h⟩
      cases h
  | setTaskMax max wake =>
      cases hexec
      exact (hD.executed.of_pool _ sys.locked sys.closer).wake_up wake
  | work w wake =>
      simp only [enabled, Bool.and_eq_true, Bool.or_eq_true, decide_eq_true_eq] at henabled
      rcases henabled.1.2 with hw | hw
      · exact absurd (hE.no_worker hw) (by decide)
      · exact absurd (hE.no_worker hw) (by decide)
  | begin w =>
      rcases begin_cases hexec with ⟨node, hw, _⟩
      exact absurd (hE.no_worker hw) (by simp)
  | finish w =>
      rcases finish_cases hexec with ⟨node, hw, _⟩
      exact absurd (hE.no_worker hw) (by simp)
  | recycle w =>
      rcases recycle_cases hexec with ⟨node, links, hw, _⟩
      exact absurd (hE.no_worker hw) (by simp)
  | spurious waiter =>
      cases hexec
      exact hD.executed.wake_up _
  | close => simp [enabled, hreturned] at henabled
  | closeNext => simp [enabled, hreturned] at henabled
  | closeJoin => simp [enabled, hreturned] at henabled
  | closeFree fuel => simp [enabled, hreturned] at henabled

theorem pool_step {e : Event F X} (hD : Draining sys waiter) {threadMax : Int} {started : Nat}
    {joined : List Nat} (hL : Life threadMax started sys joined)
    (henabled : sys.enabled e = true) (halone : alone (sys, waiter) (DrainEvent.pool e) = true)
    (hexec : sys.exec e = some sys') : Draining sys' waiter := by
  have horderly := hD.orderly_of_alone hL.closing henabled halone hexec
  refine ⟨?_, ?_, ?_, ?_⟩
  · by_cases hreturned : sys.closer = CloserPc.returned
    · rcases hL.ended hreturned with ⟨queue, hE⟩
      have hwaiter : waiter ≠ WaitPc.notCalled := by
        intro h
        have hnot := hD.closed_after (by simp [h])
        rw [hreturned] at hnot
        cases hnot
      have hcall : ∀ func arg forcetoHead, e ≠ Event.call func arg forcetoHead := by
        rintro func arg forcetoHead rfl
        simp [alone, hwaiter] at halone
      exact hD.executed_ended hE (hD.calls hwaiter) hcall henabled hexec hreturned
    · rcases hL.running hreturned with ⟨lists, hI⟩
      exact hD.executed.step hI henabled hexec
  · intro hwaiter
    have hcall : ∀ func arg forcetoHead, e ≠ Event.call func arg forcetoHead := by
      rintro func arg forcetoHead rfl
      simp [alone, hwaiter] at halone
    rw [(exec_returned (hD.calls hwaiter) hcall henabled hexec).1]
    exact hD.calls hwaiter
  · intro hwaiter
    have hne : waiter ≠ WaitPc.notCalled := by simp [hwaiter]
    have hcall : ∀ func arg forcetoHead, e ≠ Event.call func arg forcetoHead := by
      rintro func arg forcetoHead rfl
      simp [alone, hne] at halone
    cases hclosed : sys.pool.shutdown with
    | true =>
        rw [(exec_quiet hL.closing hclosed henabled horderly hexec).ttl]
        exact hD.empty hwaiter
    | false =>
        have hrunning : sys.closer ≠ CloserPc.returned := by
          intro h
          have := hL.closing.flag.2 (by simp [h])
          rw [hclosed] at this
          cases this
        exact (exec_returned (hD.calls hne) hcall henabled hexec).2.2 hclosed
          (hL.running hrunning) (hD.empty hwaiter)
  · intro hwaiter
    have hnot := hD.closed_after hwaiter
    cases hopen : e.closing with
    | false => rw [(exec_sameClosing hopen hexec).1, hnot]
    | true =>
        cases e with
        | close => simp [alone, hwaiter] at halone
        | closeNext => simp [enabled, hnot] at henabled
        | closeJoin => simp [enabled, hnot] at henabled
        | closeFree fuel => simp [enabled, hnot] at henabled
        | _ => cases hopen

/-- The test that ends the wait. -/
theorem poll_step (hD : Draining sys WaitPc.polling) {threadMax : Int} {started : Nat}
    {joined : List Nat} (hL : Life threadMax started sys joined) :
    Draining sys sys.ucThreadpoolWaitTaskDone := by
  have hnot := hD.closed_after (by simp)
  rcases hL.running (by simp [hnot]) with ⟨lists, hI⟩
  refine ⟨hD.executed, fun _ => hD.calls (by simp), fun hreturned => ?_, fun _ => hnot⟩
  rw [ucThreadpoolWaitTaskDone] at hreturned
  split at hreturned
  · rename_i hempty
    exact (ttl_eq_zero_iff hI).2 hempty
  · cases hreturned

end Draining

/-- A run with a thread that waits is an orderly run of the pool. -/
structure DrainReached (pool : UcThreadpool F X) (s : System F X × WaitPc) : Prop where
  draining : Draining s.1 s.2
  run : ∃ events joined,
    (((machine F X).restrict orderly).record joins).Run (ofPool pool, []) events (s.1, joined)

section Run

variable {start : Nat → Bool} {thrNumMin thrNumMax : UInt32} {pool : UcThreadpool F X}

theorem drain_step (hcreate : ucThreadpoolCreate start thrNumMin thrNumMax = some pool)
    {s t : System F X × WaitPc} {e : DrainEvent F X} (hR : DrainReached pool s)
    (henabled : ((drainMachine F X).restrict alone).enabled s e = true)
    (hexec : ((drainMachine F X).restrict alone).exec s e = some t) : DrainReached pool t := by
  rcases s with ⟨sys, waiter⟩
  rcases (Bool.and_eq_true _ _).mp henabled with ⟨henabled', halone⟩
  rcases hR.run with ⟨events, joined, hrun⟩
  have hL := run_life hcreate hrun
  have hD := hR.draining
  cases e with
  | pool e =>
      rcases Option.map_eq_some_iff.1 hexec with ⟨sys', hexec', rfl⟩
      have horderly := hD.orderly_of_alone hL.closing henabled' halone hexec'
      have hpool : (((machine F X).restrict orderly).record joins).exec (sys, joined) e =
          some (sys', sys.joins e joined) := by
        show (sys.exec e).map _ = _
        rw [hexec']
        rfl
      have henabledPool : (((machine F X).restrict orderly).record joins).enabled
          (sys, joined) e = true := (Bool.and_eq_true _ _).mpr ⟨henabled', horderly⟩
      exact ⟨hD.pool_step hL henabled' halone hexec', _, _,
        Machine.Run.snoc hrun henabledPool hpool⟩
  | wait =>
      cases hexec
      have hwaiter : waiter = WaitPc.notCalled := of_decide_eq_true henabled'
      refine ⟨⟨hD.executed, fun _ => ?_, fun h => (by cases h), fun _ => ?_⟩, events, joined, hrun⟩
      · simpa [alone] using halone
      · exact hD.closed_after (by simp [hwaiter])
  | poll =>
      cases hexec
      have hwaiter : waiter = WaitPc.polling :=
        of_decide_eq_true ((Bool.and_eq_true _ _).mp henabled').2
      subst hwaiter
      exact ⟨hD.poll_step hL, events, joined, hrun⟩

/-- No task is left: each that was accepted was finished once, and each of them that has a function
was entered once, with what its call gave. -/
structure Drained (sys : System F X) : Prop where
  finished_all : sys.history.enqueued.Perm sys.history.finished
  finished_once : sys.history.finished.Nodup
  executed : ∀ (c : Nat) (call : Call F X) (func : F), sys.calls[c]? = some call →
    call.pc.accepted = true → call.func = some func →
    sys.history.invoked.filter (fun i => i.call = c) = [⟨c, func, call.arg⟩]

theorem filter_eq_singleton {α : Type} {f : α → Nat} {l : List α} (hnd : (l.map f).Nodup) {a : α}
    (ha : a ∈ l) : l.filter (fun b => f b = f a) = [a] := by
  induction l with
  | nil => cases ha
  | cons b l ih =>
      rw [List.map_cons, List.nodup_cons] at hnd
      rcases List.mem_cons.1 ha with rfl | ha
      · have hnone : l.filter (fun b => f b = f a) = [] := by
          refine List.filter_eq_nil_iff.2 fun b hb => ?_
          simp only [decide_eq_true_eq]
          exact fun h => hnd.1 (h ▸ List.mem_map_of_mem hb)
        simp [hnone]
      · have hne : f b ≠ f a := fun h => hnd.1 (h ▸ List.mem_map_of_mem ha)
        simp [hne, ih hnd.2 ha]

/-- The wait, and then the close: whatever the workers do, and whatever was added before in whatever
order, all accepted tasks are done when `uc_threadpool_close` returns. -/
theorem ucThreadpool_drained
    (hcreate : ucThreadpoolCreate start thrNumMin thrNumMax = some pool)
    {events : List (DrainEvent F X)} {waiter : WaitPc}
    (hrun : ((drainMachine F X).restrict alone).Run (ofPool pool, WaitPc.notCalled) events
      (sys, waiter))
    (hreturned : sys.closer = CloserPc.returned) : Drained sys := by
  have hstart : DrainReached pool (ofPool pool, WaitPc.notCalled) := by
    exact ⟨⟨Executed.ofPool pool, fun h => absurd rfl h, fun h => (by cases h), fun _ => rfl⟩, [],
      [], Machine.Run.nil⟩
  have hR : DrainReached pool (sys, waiter) := by
    refine hrun.invariant hstart ?_ (fun _ _ => trivial : ∀ e ∈ events, True)
    intro s t e hR _ henabled hexec
    exact drain_step hcreate hR henabled hexec
  rcases hR.run with ⟨events', joined, hrun'⟩
  have hL := run_life hcreate hrun'
  have hS := hL.settled hreturned
  have hD := hR.draining
  have hwaiter : waiter = WaitPc.returned := by
    by_contra hne
    have hnot := hD.closed_after hne
    rw [hreturned] at hnot
    cases hnot
  -- nothing was left in the queue for the close to drop
  have hperm : sys.history.enqueued.Perm sys.history.finished := by
    rcases hS.accounted with ⟨dropped, hlen, hperm⟩
    rw [hD.empty hwaiter] at hlen
    rw [List.length_eq_zero_iff.1 hlen, List.append_nil] at hperm
    exact hperm
  refine ⟨hperm, hperm.nodup_iff.1 hS.accepted_once, fun c call func hcall hacc hfunc => ?_⟩
  rcases hL.ended hreturned with ⟨queue, hE⟩
  rcases hE.books with ⟨pool', lists, _, _, hI⟩
  have hfinished : c ∈ sys.history.finished :=
    hperm.mem_iff.1 ((hS.accepted_iff c).2 ⟨call, hcall, hacc⟩)
  rcases hD.executed.finished c hfinished with ⟨call', hcall', hdone⟩
  cases hcall.symm.trans hcall'
  rcases hdone with hnone | ⟨i, hi, hic⟩
  · rw [hnone] at hfunc
    cases hfunc
  · rcases hI.invoked_own i hi with ⟨call', hcall', hfunc', harg'⟩
    rw [hic, hcall] at hcall'
    cases hcall'
    have hown : i = ⟨c, func, call.arg⟩ := by
      rw [hfunc] at hfunc'
      cases i
      cases hic
      cases hfunc'
      cases harg'
      rfl
    have hone := filter_eq_singleton hI.balanced.invoked_nodup hi
    rw [hic, hown] at hone
    exact hone

/-- The wait ends with the task still running; the close waits for the worker. -/
theorem ucThreadpool_drained_running :
    ∃ (pool : UcThreadpool Nat Nat) (sys : System Nat Nat),
      ucThreadpoolCreate (fun _ => true) 1 1 = some pool ∧
      ((drainMachine Nat Nat).restrict alone).Run (ofPool pool, WaitPc.notCalled)
        [.pool (Event.call (some 7) (some 3) false),
          .pool (Event.enter 0 (some ⟨16, by decide⟩) none), .pool (Event.activate 0 true true),
          .wait, .poll, .pool (Event.work 0 none), .pool (Event.begin 0), .poll, .pool Event.close,
          .pool Event.closeNext, .pool (Event.finish 0), .pool (Event.recycle 0),
          .pool (Event.work 0 none), .pool Event.closeJoin, .pool Event.closeNext,
          .pool (Event.closeFree 2)] (sys, WaitPc.returned) ∧
      sys.history.finished = [0] ∧ Drained sys := by
  have hplay : ∃ (pool : UcThreadpool Nat Nat) (sys : System Nat Nat),
      ucThreadpoolCreate (fun _ => true) 1 1 = some pool ∧
      ((drainMachine Nat Nat).restrict alone).play (ofPool pool, WaitPc.notCalled)
        [.pool (Event.call (some 7) (some 3) false),
          .pool (Event.enter 0 (some ⟨16, by decide⟩) none), .pool (Event.activate 0 true true),
          .wait, .poll, .pool (Event.work 0 none), .pool (Event.begin 0), .poll, .pool Event.close,
          .pool Event.closeNext, .pool (Event.finish 0), .pool (Event.recycle 0),
          .pool (Event.work 0 none), .pool Event.closeJoin, .pool Event.closeNext,
          .pool (Event.closeFree 2)] = some (sys, WaitPc.returned) ∧
      sys.closer = CloserPc.returned ∧ sys.history.finished = [0] :=
    ⟨_, _, rfl, rfl, rfl, rfl⟩
  rcases hplay with ⟨pool, sys, hcreate, hplay, hreturned, hfinished⟩
  have hrun := Machine.run_of_play hplay
  exact ⟨pool, sys, hcreate, hrun, hfinished, ucThreadpool_drained hcreate hrun hreturned⟩

end Run

end System

end Threadpool
end UtilsC
