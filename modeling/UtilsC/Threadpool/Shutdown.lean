import UtilsC.Threadpool.Run

/-!
# Additions while a pool is closed

`uc_threadpool_add_to_void_task_do` tests `shutdown` when it is entered and not again when it comes
out of its wait.

* `orderly` leaves out the steps in which that matters: a producer that finds room after the pool
  was closed, and a pool that is closed between a call's unlock and its return.
* `Quiet` compares two states of a closed pool; orderly steps keep it (`exec_quiet`), and so do runs
  (`ucThreadpool_closed`).
* `ucThreadpool_enqueued_after_close` is a run with a producer that waits while the pool is closed.
-/

namespace UtilsC
namespace Threadpool

open Lib ListHead

variable {F X : Type}

namespace System

variable {sys : System F X}

/-- No producer that waited finds room and a node while the pool is closed; and when it is closed,
no call has queued its task and not returned yet. -/
def orderly (sys : System F X) : Event F X → Bool
  | Event.resume _ malloc _ =>
      !sys.pool.shutdown || queueFull sys.pool ||
        (listEmpty sys.pool.links (Loc.head PoolList.free) && malloc.isNone)
  | Event.close => sys.calls.all fun call => call.pc ≠ CallPc.activate
  | _ => true

/-- From one state of a closed pool to a later one: no task was queued and no call has returned 0
in between. -/
structure Quiet (sys sys' : System F X) : Prop where
  enqueued : sys'.history.enqueued = sys.history.enqueued
  ttl : sys'.pool.listTaskTtl = sys.pool.listTaskTtl
  returned : ∀ c, sys'.callPc c = some (CallPc.returned 0) →
    sys.callPc c = some (CallPc.returned 0)
  activate : ∀ c, sys'.callPc c = some CallPc.activate → sys.callPc c = some CallPc.activate

theorem Quiet.refl (sys : System F X) : Quiet sys sys :=
  ⟨rfl, rfl, fun _ => id, fun _ => id⟩

theorem Quiet.trans {sys₁ sys₂ sys₃ : System F X} (h : Quiet sys₁ sys₂) (h' : Quiet sys₂ sys₃) :
    Quiet sys₁ sys₃ where
  enqueued := h'.enqueued.trans h.enqueued
  ttl := h'.ttl.trans h.ttl
  returned := fun c hc => h.returned c (h'.returned c hc)
  activate := fun c hc => h.activate c (h'.activate c hc)

/-! ## One step -/

theorem callPc_setCall {c c' : Nat} {pc pc' : CallPc}
    (h : (sys.setCall c pc).callPc c' = some pc') : pc' = pc ∨ sys.callPc c' = some pc' := by
  by_cases hc : c = c'
  · subst hc
    cases hcall : sys.calls[c]? with
    | none => simp [callPc, setCall, hcall] at h
    | some call =>
        left
        simpa [callPc, setCall, hcall, eq_comm] using h
  · right
    simpa [callPc, setCall, hc] using h

/-- A call that moves on without queueing its task and without returning 0. -/
theorem Quiet.set_call {sys' : System F X} (h : Quiet sys sys') (c : Nat) {pc : CallPc}
    (hret : pc ≠ CallPc.returned 0) (hact : pc ≠ CallPc.activate) :
    Quiet sys (sys'.setCall c pc) where
  enqueued := h.enqueued
  ttl := h.ttl
  returned := by
    intro c' hc'
    rcases callPc_setCall hc' with hpc | hold
    · exact absurd hpc.symm hret
    · exact h.returned c' hold
  activate := by
    intro c' hc'
    rcases callPc_setCall hc' with hpc | hold
    · exact absurd hpc.symm hact
    · exact h.activate c' hold

theorem Quiet.wake_up {sys' : System F X} (h : Quiet sys sys') (wake : Option Waiter) :
    Quiet sys (sys'.wakeUp wake) := by
  rcases wake with _ | c | w
  · exact h
  · exact h.set_call c (by simp) (by simp)
  · exact ⟨h.enqueued, h.ttl, h.returned, h.activate⟩

/-- Changes that concern neither the calls nor the queue. -/
theorem Quiet.of_calls {sys' : System F X} (hcalls : sys'.calls = sys.calls)
    (henqueued : sys'.history.enqueued = sys.history.enqueued)
    (httl : sys'.pool.listTaskTtl = sys.pool.listTaskTtl) : Quiet sys sys' := by
  have hpc : ∀ c, sys'.callPc c = sys.callPc c := by
    intro c
    rw [callPc, callPc, hcalls]
  exact ⟨henqueued, httl, fun c h => by rwa [hpc] at h, fun c h => by rwa [hpc] at h⟩

/-- What a closed pool keeps: the flag tells where the closing thread stands, and no call is between
its unlock and its return. -/
structure Closing (sys : System F X) : Prop where
  flag : sys.pool.shutdown = true ↔ sys.closer ≠ CloserPc.notCalled
  idle : sys.pool.shutdown = true → ∀ c, sys.callPc c ≠ some CallPc.activate

/-- The step lemma for a closed pool. -/
theorem exec_quiet {e : Event F X} {sys' : System F X} (hC : sys.Closing)
    (hclosed : sys.pool.shutdown = true) (henabled : sys.enabled e = true)
    (horderly : sys.orderly e = true) (hexec : sys.exec e = some sys') : Quiet sys sys' := by
  cases e with
  | call func arg forcetoHead =>
      cases hexec
      have hnew : ∀ c pc, pc ≠ CallPc.entry →
          ({ sys with calls := sys.calls ++ [⟨func, arg, forcetoHead, CallPc.entry⟩] } :
            System F X).callPc c = some pc → sys.callPc c = some pc := by
        intro c pc hpc h
        rcases Option.map_eq_some_iff.1 h with ⟨call, hcall, hcallpc⟩
        rw [List.getElem?_append] at hcall
        split at hcall
        · simp [callPc, hcall, hcallpc]
        · have hmem := List.mem_of_getElem? hcall
          rw [List.mem_singleton.1 hmem] at hcallpc
          exact absurd hcallpc.symm hpc
      exact ⟨rfl, rfl, fun c => hnew c _ (by simp), fun c => hnew c _ (by simp)⟩
  -- the test at the entry refuses the call
  | enter c malloc wake =>
      rcases Option.bind_eq_some_iff.1 hexec with ⟨call, _, hrest⟩
      rw [if_pos hclosed] at hrest
      cases hrest
      exact (Quiet.refl sys).set_call c (by simp) (by simp)
  | resume c malloc wake =>
      rcases Option.bind_eq_some_iff.1 hexec with ⟨call, _, hrest⟩
      cases hfull : queueFull sys.pool with
      | true =>
          -- no room: the producer sleeps again
          rw [addLoop, if_pos hfull] at hrest
          cases hrest
          exact (Quiet.refl sys).set_call c (by simp) (by simp)
      | false =>
          -- room, but no memory: the call fails
          simp only [orderly, hclosed, hfull, Bool.not_true, Bool.false_or, Bool.and_eq_true,
            Option.isNone_iff_eq_none] at horderly
          have hfail : ucThreadpoolAddToVoidTaskDo malloc call.func call.arg call.forcetoHead
              sys.pool = some (none, sys.pool) := by
            simp [ucThreadpoolAddToVoidTaskDo, takeNode, horderly.1, horderly.2]
          simp only [addLoop, hfull, hfail] at hrest
          cases hrest
          have hlocked : Quiet sys { sys with locked := true } := Quiet.of_calls rfl rfl rfl
          exact hlocked.set_call c (by simp) (by simp)
  | activate c malloc create =>
      simp only [enabled, Bool.and_eq_true, decide_eq_true_eq] at henabled
      -- no call stands here in a closed pool
      exact absurd henabled.2 (hC.idle hclosed c)
  | setTaskMax max wake =>
      cases hexec
      have hmax : Quiet sys { sys with pool := { sys.pool with listTaskMax := max } } :=
        Quiet.of_calls rfl rfl rfl
      exact hmax.wake_up wake
  | work w wake =>
      -- every worker that has the lock leaves its loop
      simp only [exec, workLoop, hclosed, if_true] at hexec
      cases hexec
      exact Quiet.of_calls rfl rfl rfl
  | begin w =>
      rcases begin_cases hexec with ⟨node, _, _, ⟨func, _, rfl⟩ | ⟨_, rfl⟩⟩
      · exact Quiet.of_calls rfl rfl rfl
      · exact Quiet.of_calls rfl rfl rfl
  | finish w =>
      rcases finish_cases hexec with ⟨node, _, rfl⟩
      exact Quiet.of_calls rfl rfl rfl
  | recycle w =>
      rcases recycle_cases hexec with ⟨node, links, _, _, _, rfl⟩
      exact Quiet.of_calls rfl rfl rfl
  | spurious waiter =>
      cases hexec
      exact (Quiet.refl sys).wake_up _
  | close =>
      simp only [enabled, Bool.and_eq_true, decide_eq_true_eq] at henabled
      exact absurd henabled.2 (hC.flag.1 hclosed)
  | closeNext =>
      simp only [exec] at hexec
      split at hexec <;> cases hexec <;> exact Quiet.of_calls rfl rfl rfl
  | closeJoin =>
      cases hexec
      exact Quiet.of_calls rfl rfl rfl
  | closeFree fuel =>
      rcases Option.bind_eq_some_iff.1 hexec with ⟨links, _, hrest⟩
      rcases Option.map_eq_some_iff.1 hrest with ⟨links', _, hsys'⟩
      cases hsys'
      exact Quiet.of_calls rfl rfl rfl

theorem Closing.step {e : Event F X} {sys' : System F X} (hC : sys.Closing)
    (henabled : sys.enabled e = true) (horderly : sys.orderly e = true)
    (hexec : sys.exec e = some sys') : sys'.Closing := by
  have hflag := exec_closing henabled hexec hC.flag
  refine ⟨hflag, ?_⟩
  intro hclosed' c hc
  by_cases hclosed : sys.pool.shutdown = true
  · have hquiet := exec_quiet hC hclosed henabled horderly hexec
    exact hC.idle hclosed c (hquiet.activate c hc)
  · -- only the step that closes the pool sets the flag
    cases hopen : e.closing with
    | false =>
        have hsame := (exec_sameClosing hopen hexec).2
        exact hclosed (by rw [← hsame, hclosed'])
    | true =>
        have hnot : sys.closer = CloserPc.notCalled := by
          by_contra hne
          exact hclosed (hC.flag.2 hne)
        cases e with
        | close =>
            cases hexec
            simp only [orderly, List.all_eq_true, decide_eq_true_eq] at horderly
            rcases Option.map_eq_some_iff.1 hc with ⟨call, hcall, hpc⟩
            have hmem := List.mem_of_getElem? hcall
            rcases List.mem_map.1 hmem with ⟨call', hcall', heq⟩
            have hold := horderly call' hcall'
            -- the broadcast moves sleepers only
            split at heq
            · rw [← heq] at hpc
              cases hpc
            · rw [heq] at hold
              exact hold hpc
        | closeNext => simp [enabled, hnot] at henabled
        | closeJoin => simp [enabled, hnot] at henabled
        | closeFree fuel => simp [enabled, hnot] at henabled
        | _ => cases hopen

/-! ## Runs -/

theorem ofPool_closing {start : Nat → Bool} {thrNumMin thrNumMax : UInt32}
    {pool : UcThreadpool F X}
    (hcreate : ucThreadpoolCreate start thrNumMin thrNumMax = some pool) :
    (ofPool pool).Closing where
  flag := by
    rw [ucThreadpoolCreate] at hcreate
    split_ifs at hcreate
    cases hcreate
    simp [ofPool]
  idle := by simp [ofPool, callPc]

theorem run_closing {start : System F X} (hC : start.Closing) {events : List (Event F X)}
    (hrun : ((machine F X).restrict orderly).Run start events sys) : sys.Closing := by
  refine hrun.invariant hC ?_ (fun _ _ => trivial : ∀ e ∈ events, True)
  intro sys₁ sys₂ e hC _ henabled hexec
  rcases (Bool.and_eq_true _ _).mp henabled with ⟨henabled', horderly⟩
  exact hC.step henabled' horderly hexec

/-- Once the pool is closed, no call of an orderly run queues a task or returns 0: not in `sys`, and
not in any later state `sys'`. -/
theorem ucThreadpool_closed {start : Nat → Bool} {thrNumMin thrNumMax : UInt32}
    {pool : UcThreadpool F X} {sys' : System F X}
    (hcreate : ucThreadpoolCreate start thrNumMin thrNumMax = some pool)
    {events events' : List (Event F X)}
    (hrun : ((machine F X).restrict orderly).Run (ofPool pool) events sys)
    (hclosed : sys.pool.shutdown = true)
    (hrun' : ((machine F X).restrict orderly).Run sys events' sys') :
    sys'.history.enqueued = sys.history.enqueued ∧
      sys'.pool.listTaskTtl = sys.pool.listTaskTtl ∧
      ∀ c, sys'.callPc c = some (CallPc.returned 0) →
        sys.callPc c = some (CallPc.returned 0) := by
  have hC := run_closing (ofPool_closing hcreate) hrun
  have hlater : (sys'.Closing ∧ sys'.pool.shutdown = true) ∧ Quiet sys sys' := by
    refine hrun'.invariant
      (J := fun s => (s.Closing ∧ s.pool.shutdown = true) ∧ Quiet sys s)
      ⟨⟨hC, hclosed⟩, Quiet.refl sys⟩ ?_ (fun _ _ => trivial : ∀ e ∈ events', True)
    rintro sys₁ sys₂ e ⟨⟨hC₁, hclosed₁⟩, hquiet⟩ _ henabled hexec
    rcases (Bool.and_eq_true _ _).mp henabled with ⟨henabled', horderly⟩
    have hstep := exec_quiet hC₁ hclosed₁ henabled' horderly hexec
    have hC₂ := hC₁.step henabled' horderly hexec
    refine ⟨⟨hC₂, ?_⟩, hquiet.trans hstep⟩
    -- the flag is never taken back
    cases hopen : e.closing with
    | false => rw [(exec_sameClosing hopen hexec).2, hclosed₁]
    | true => exact hC₂.flag.2 (closer_of_closing hopen hexec)
  exact ⟨hlater.2.enqueued, hlater.2.ttl, hlater.2.returned⟩

/-- A pool that is closed with a task in its queue: nothing happens to it. -/
theorem ucThreadpool_closed_queued :
    ∃ (pool : UcThreadpool Nat Nat) (sys sys' : System Nat Nat),
      ucThreadpoolCreate (fun _ => true) 1 1 = some pool ∧
      ((machine Nat Nat).restrict orderly).Run (ofPool pool)
        [Event.call (some 7) none false, Event.enter 0 (some ⟨16, by decide⟩) none,
          Event.activate 0 true true, Event.call (some 8) none false, Event.close] sys ∧
      sys.pool.shutdown = true ∧
      ((machine Nat Nat).restrict orderly).Run sys
        [Event.enter 1 (some ⟨48, by decide⟩) none, Event.work 0 none] sys' ∧
      sys'.history.enqueued = sys.history.enqueued := by
  have hplay : ∃ (pool : UcThreadpool Nat Nat) (sys sys' : System Nat Nat),
      ucThreadpoolCreate (fun _ => true) 1 1 = some pool ∧
      ((machine Nat Nat).restrict orderly).play (ofPool pool)
        [Event.call (some 7) none false, Event.enter 0 (some ⟨16, by decide⟩) none,
          Event.activate 0 true true, Event.call (some 8) none false, Event.close] = some sys ∧
      sys.pool.shutdown = true ∧
      ((machine Nat Nat).restrict orderly).play sys
        [Event.enter 1 (some ⟨48, by decide⟩) none, Event.work 0 none] = some sys' :=
    ⟨_, _, _, rfl, rfl, rfl, rfl⟩
  rcases hplay with ⟨pool, sys, sys', hcreate, hplay, hclosed, hplay'⟩
  have hrun := Machine.run_of_play hplay
  have hrun' := Machine.run_of_play hplay'
  exact ⟨pool, sys, sys', hcreate, hrun, hclosed, hrun',
    (ucThreadpool_closed hcreate hrun hclosed hrun').1⟩

/-- A producer waits for room in a queue with the bound 1.  The worker dequeues and its signal wakes
the producer; the pool is closed before the producer has the lock.  It queues its task all the same,
and returns 0. -/
theorem ucThreadpool_enqueued_after_close :
    ∃ (pool : UcThreadpool Nat Nat) (sys sys' : System Nat Nat),
      ucThreadpoolCreate (fun _ => true) 1 1 = some pool ∧
      (machine Nat Nat).Run (ofPool pool)
        [Event.setTaskMax 1 none, Event.call (some 7) none false,
          Event.enter 0 (some ⟨16, by decide⟩) none, Event.activate 0 true true,
          Event.call (some 8) none false, Event.enter 1 (some ⟨48, by decide⟩) none,
          Event.work 0 (some (Waiter.call 1)), Event.close] sys ∧
      sys.pool.shutdown = true ∧
      (machine Nat Nat).Run sys
        [Event.resume 1 (some ⟨48, by decide⟩) none, Event.activate 1 true true] sys' ∧
      sys.history.enqueued = [0] ∧ sys'.history.enqueued = [0, 1] ∧
      sys.pool.listTaskTtl = 0 ∧ sys'.pool.listTaskTtl = 1 ∧
      sys.callPc 1 = some CallPc.woken ∧ sys'.callPc 1 = some (CallPc.returned 0) := by
  have hplay : ∃ (pool : UcThreadpool Nat Nat) (sys sys' : System Nat Nat),
      ucThreadpoolCreate (fun _ => true) 1 1 = some pool ∧
      (machine Nat Nat).play (ofPool pool)
        [Event.setTaskMax 1 none, Event.call (some 7) none false,
          Event.enter 0 (some ⟨16, by decide⟩) none, Event.activate 0 true true,
          Event.call (some 8) none false, Event.enter 1 (some ⟨48, by decide⟩) none,
          Event.work 0 (some (Waiter.call 1)), Event.close] = some sys ∧
      (machine Nat Nat).play sys
        [Event.resume 1 (some ⟨48, by decide⟩) none, Event.activate 1 true true] = some sys' ∧
      sys.pool.shutdown = true ∧
      sys.history.enqueued = [0] ∧ sys'.history.enqueued = [0, 1] ∧
      sys.pool.listTaskTtl = 0 ∧ sys'.pool.listTaskTtl = 1 ∧
      sys.callPc 1 = some CallPc.woken ∧ sys'.callPc 1 = some (CallPc.returned 0) :=
    ⟨_, _, _, rfl, rfl, rfl, rfl, rfl, rfl, rfl, rfl, rfl, rfl⟩
  rcases hplay with ⟨pool, sys, sys', hcreate, hplay, hplay', hclosed, hstate⟩
  exact ⟨pool, sys, sys', hcreate, Machine.run_of_play hplay, hclosed,
    Machine.run_of_play hplay', hstate⟩

end System

end Threadpool
end UtilsC
