import UtilsC.Threadpool.Run

/-!
# What a pool keeps

The accounts of `Conserve`, read off for a pool in any state it can be in before it is closed.

* `Executed`: a task is finished behind its function's return, or it has no function.
* `Kept`: every accepted task is queued, running or finished, and every node in one place.
-/

namespace UtilsC
namespace Threadpool

open Lib ListHead

variable {F X : Type}

namespace System

variable {sys sys' : System F X} {lists : PoolList → List TaskPtr}

/-! ## Finished tasks were executed -/

/-- A task whose function is running was entered; a finished one was, unless it has no function. -/
structure Executed (sys : System F X) : Prop where
  calling : ∀ node, WorkerPc.calling node ∈ sys.workers →
    ∃ i ∈ sys.history.invoked, i.call = sys.history.owner node
  finished : ∀ c ∈ sys.history.finished, ∃ call, sys.calls[c]? = some call ∧
    (call.func = none ∨ ∃ i ∈ sys.history.invoked, i.call = c)

namespace Executed

theorem ofPool (pool : UcThreadpool F X) : Executed (ofPool pool) where
  calling := by simp [System.ofPool]
  finished := by simp [System.ofPool]

/-- A step that neither begins nor finishes a task. -/
theorem frame (hE : Executed sys) (hinvoked : sys'.history.invoked = sys.history.invoked)
    (hfinished : sys'.history.finished = sys.history.finished)
    (hcalls : Conserved.SameCalls sys.calls sys'.calls)
    (hcalling : ∀ node, WorkerPc.calling node ∈ sys'.workers →
      WorkerPc.calling node ∈ sys.workers ∧
        sys'.history.owner node = sys.history.owner node) : Executed sys' where
  calling := by
    intro node hnode
    rcases hcalling node hnode with ⟨hold, howner⟩
    rw [hinvoked, howner]
    exact hE.calling node hold
  finished := by
    intro c hc
    rw [hfinished] at hc
    rw [hinvoked]
    rcases hE.finished c hc with ⟨call, hcall, hdone⟩
    rcases hcalls c call hcall with ⟨pc, hcall'⟩
    exact ⟨_, hcall', hdone⟩

theorem sameCalls_refl (calls : List (Call F X)) : Conserved.SameCalls calls calls :=
  fun _ call h => ⟨call.pc, h⟩

theorem calling_set {workers : List WorkerPc} {w : Nat} {new : WorkerPc} {node : TaskPtr}
    (hnew : new ≠ WorkerPc.calling node) (hmem : WorkerPc.calling node ∈ workers.set w new) :
    WorkerPc.calling node ∈ workers := by
  rcases List.mem_or_eq_of_mem_set hmem with h | h
  · exact h
  · exact absurd h.symm hnew

theorem set_call (hE : Executed sys) (c : Nat) (pc : CallPc) : Executed (sys.setCall c pc) :=
  hE.frame rfl rfl (Conserved.sameCalls_modify _ c pc) fun _ h => ⟨h, rfl⟩

theorem set_worker (hE : Executed sys) (w : Nat) {new : WorkerPc}
    (hnew : ∀ node, new ≠ WorkerPc.calling node) : Executed (sys.setWorker w new) :=
  hE.frame rfl rfl (sameCalls_refl _) fun node h => ⟨calling_set (hnew node) h, rfl⟩

theorem wake_up (hE : Executed sys) (wake : Option Waiter) : Executed (sys.wakeUp wake) := by
  rcases wake with _ | c | w
  · exact hE
  · exact hE.set_call c _
  · exact hE.set_worker w (by simp)

theorem of_pool (hE : Executed sys) (pool : UcThreadpool F X) (locked : Bool)
    (closer : CloserPc) :
    Executed { sys with pool := pool, locked := locked, closer := closer } :=
  ⟨hE.calling, hE.finished⟩

/-- Adding a task: its node was in no worker's hands. -/
theorem add_loop (hE : Executed sys) (hI : Inv sys lists) {c : Nat} {call : Call F X}
    {malloc : Option TaskPtr} {wake : Option Waiter} (hmalloc : sys.mallocOk malloc = true)
    (hadd : sys.addLoop c call malloc wake = some sys') : Executed sys' := by
  cases hfull : queueFull sys.pool with
  | true =>
      rw [addLoop, if_pos hfull] at hadd
      cases hadd
      exact hE.set_call c _
  | false =>
      rcases ucThreadpoolAddToVoidTaskDo_spec hI.nodes (fresh_of_mallocOk hmalloc) call.func
        call.arg call.forcetoHead with ⟨hdo, _, _⟩ | ⟨node, pool', lists', hdo, hlink⟩
      · simp only [addLoop, hfull, hdo] at hadd
        cases hadd
        exact (hE.of_pool sys.pool true sys.closer).set_call c _
      · simp only [addLoop, hfull, hdo] at hadd
        cases hadd
        refine wake_up ?_ wake
        refine hE.frame rfl rfl (Conserved.sameCalls_modify _ c _) fun n hn => ⟨hn, ?_⟩
        have hhand : n ∈ (sys.workers : Multiset WorkerPc).filterMap WorkerPc.hand :=
          (Multiset.mem_filterMap _ _).2 ⟨_, Multiset.mem_coe.2 hn, rfl⟩
        have hne : n ≠ node := fun h => (Conserved.fresh_node hI hlink.source).1 (h ▸ hhand)
        exact Function.update_of_ne hne _ _

/-- The step lemma, for a pool that still has its nodes. -/
theorem step {e : Event F X} (hE : Executed sys) (hI : Inv sys lists)
    (henabled : sys.enabled e = true) (hexec : sys.exec e = some sys') : Executed sys' := by
  cases e with
  | call func arg forcetoHead =>
      cases hexec
      exact hE.frame rfl rfl (Conserved.sameCalls_append _ _) fun _ h => ⟨h, rfl⟩
  | enter c malloc wake =>
      simp only [enabled, Bool.and_eq_true] at henabled
      rcases Option.bind_eq_some_iff.1 hexec with ⟨call, _, hrest⟩
      split at hrest
      · cases hrest
        exact hE.set_call c _
      · exact hE.add_loop hI henabled.1.2 hrest
  | resume c malloc wake =>
      simp only [enabled, Bool.and_eq_true] at henabled
      rcases Option.bind_eq_some_iff.1 hexec with ⟨call, _, hrest⟩
      exact hE.add_loop hI henabled.1.2 hrest
  | activate c malloc create =>
      cases hexec
      refine hE.frame rfl rfl (Conserved.sameCalls_modify _ c _) fun node hnode => ⟨?_, rfl⟩
      -- a new thread executes nothing yet
      simp only [setCall] at hnode
      split at hnode
      · rcases List.mem_append.1 hnode with h | h
        · exact h
        · simp at h
      · exact hnode
  | setTaskMax max wake =>
      cases hexec
      exact (hE.of_pool _ sys.locked sys.closer).wake_up wake
  | work w wake =>
      simp only [exec, workLoop] at hexec
      split at hexec
      · cases hexec
        exact (hE.of_pool _ sys.locked sys.closer).set_worker w (by simp)
      · split at hexec
        · cases hexec
          exact hE.set_worker w (by simp)
        · rcases Option.map_eq_some_iff.1 hexec with ⟨⟨node, pool⟩, _, hsys'⟩
          cases hsys'
          refine wake_up ?_ wake
          refine hE.frame rfl rfl (sameCalls_refl _) fun n hn => ⟨calling_set (by simp) hn, rfl⟩
  | begin w =>
      rcases begin_cases hexec with ⟨node, hw, _, ⟨func, _, rfl⟩ | ⟨hfunc, rfl⟩⟩
      · refine ⟨fun n hn => ?_, fun c hc => ?_⟩
        · rcases List.mem_or_eq_of_mem_set hn with h | h
          · rcases hE.calling n h with ⟨i, hi, hcall⟩
            exact ⟨i, List.mem_append_left _ hi, hcall⟩
          · cases h
            exact ⟨_, List.mem_append_right _ (List.mem_singleton_self _), rfl⟩
        · rcases hE.finished c hc with ⟨call, hcall, hnone | ⟨i, hi, hic⟩⟩
          · exact ⟨call, hcall, Or.inl hnone⟩
          · exact ⟨call, hcall, Or.inr ⟨i, List.mem_append_left _ hi, hic⟩⟩
      · refine ⟨fun n hn => hE.calling n (calling_set (by simp) hn), fun c hc => ?_⟩
        rcases List.mem_append.1 hc with h | h
        · exact hE.finished c h
        · -- the node holds what its call gave, and that was no function
          have hheld : node ∈ (sys.workers : Multiset WorkerPc).filterMap WorkerPc.held :=
            (Multiset.mem_filterMap _ _).2 ⟨_, Multiset.mem_coe.2 (List.mem_of_getElem? hw), rfl⟩
          rcases hI.content node (Or.inr hheld) with ⟨call, hcall, htask⟩
          rw [htask] at hfunc
          rw [List.mem_singleton.1 h]
          exact ⟨call, hcall, Or.inl hfunc⟩
  | finish w =>
      rcases finish_cases hexec with ⟨node, hw, rfl⟩
      refine ⟨fun n hn => hE.calling n (calling_set (by simp) hn), fun c hc => ?_⟩
      rcases List.mem_append.1 hc with h | h
      · exact hE.finished c h
      · rcases hE.calling node (List.mem_of_getElem? hw) with ⟨i, hi, hic⟩
        rcases hI.invoked_own i hi with ⟨call, hcall, _⟩
        rw [List.mem_singleton.1 h]
        exact ⟨call, hic ▸ hcall, Or.inr ⟨i, hi, hic⟩⟩
  | recycle w =>
      rcases recycle_cases hexec with ⟨node, links, _, _, _, rfl⟩
      exact (hE.of_pool _ sys.locked sys.closer).set_worker w (by simp)
  | spurious waiter =>
      cases hexec
      exact hE.wake_up _
  | close =>
      cases hexec
      refine hE.frame rfl rfl ?_ fun node hnode => ⟨?_, rfl⟩
      · intro c call hc
        refine ⟨if call.pc = CallPc.asleep then CallPc.woken else call.pc, ?_⟩
        by_cases hpc : call.pc = CallPc.asleep <;> simp [wakeAll, hc, hpc]
      · rcases List.mem_map.1 hnode with ⟨pc, hpc, heq⟩
        split at heq
        · cases heq
        · exact heq ▸ hpc
  | closeNext =>
      simp only [exec] at hexec
      split at hexec <;> cases hexec <;> exact hE.of_pool _ sys.locked _
  | closeJoin =>
      cases hexec
      exact hE.of_pool sys.pool sys.locked _
  | closeFree fuel =>
      rcases Option.bind_eq_some_iff.1 hexec with ⟨links, _, hrest⟩
      rcases Option.map_eq_some_iff.1 hrest with ⟨links', _, hsys'⟩
      cases hsys'
      exact hE.of_pool _ sys.locked _

end Executed

/-! ## What a pool keeps -/

/-- The calls whose tasks wait in the queue, first to be dequeued first. -/
def queuedCalls (sys : System F X) (lists : PoolList → List TaskPtr) : List Nat :=
  (lists PoolList.task).map sys.history.owner

/-- The calls whose tasks a worker has dequeued and not finished. -/
def runningCalls (sys : System F X) : Multiset Nat :=
  ((sys.workers : Multiset WorkerPc).filterMap WorkerPc.held).map sys.history.owner +
    ((sys.workers : Multiset WorkerPc).filterMap WorkerPc.executing).map sys.history.owner

/-- The nodes in the hands of workers. -/
def hands (sys : System F X) : Multiset TaskPtr :=
  (sys.workers : Multiset WorkerPc).filterMap WorkerPc.hand

/-- The state of a pool between two sections, with `lists` its two lists of nodes.  A task goes by
the call that added it; it is started when a worker dequeues it. -/
structure Kept (sys : System F X) (lists : PoolList → List TaskPtr) : Prop where
  rings : RingFamily sys.pool.links lists
  ttl : sys.pool.listTaskTtl.toNat = (lists PoolList.task).length
  /-- An accepted task is queued, running or finished, and only one of these. -/
  one_state : ∀ c, Accepted sys.calls c →
    (sys.queuedCalls lists).count c + sys.runningCalls.count c + sys.history.finished.count c = 1
  no_other : ∀ c, ¬ Accepted sys.calls c →
    (sys.queuedCalls lists).count c + sys.runningCalls.count c + sys.history.finished.count c = 0
  started_once : sys.history.started.Nodup
  invoked_once : (sys.history.invoked.map Invocation.call).Nodup
  /-- A function is entered as its call gave it, with the argument its call gave. -/
  invoked_own : ∀ i ∈ sys.history.invoked,
    ∃ call, sys.calls[i.call]? = some call ∧ call.func = some i.func ∧ call.arg = i.arg
  /-- A task is finished behind its function's return, or it has no function. -/
  finished : ∀ c ∈ sys.history.finished, ∃ call, sys.calls[c]? = some call ∧
    (call.func = none ∨ ∃ i ∈ sys.history.invoked, i.call = c)
  /-- A node of the heap is in the task list, in the free list or in one worker's hands. -/
  one_place : ∀ n, (lists PoolList.task).count n + (lists PoolList.free).count n +
    sys.hands.count n = if sys.pool.links.live (Loc.item n) = true then 1 else 0
  in_order : (∀ call ∈ sys.calls, call.forcetoHead = false) →
    sys.history.enqueued = sys.history.started ++ sys.queuedCalls lists
  /-- No section of a producer or a worker touches bad memory. -/
  executes : ∀ e : Event F X, e.closing = false → sys.enabled e = true →
    (sys.exec e).isSome = true

theorem Inv.one_place (hI : Inv sys lists) (n : TaskPtr) :
    (lists PoolList.task).count n + (lists PoolList.free).count n + sys.hands.count n =
      if sys.pool.links.live (Loc.item n) = true then 1 else 0 := by
  have hdisj := hI.nodes.rings.disjoint PoolList.task PoolList.free n
  have htask := List.nodup_iff_count_le_one.1 (hI.nodes.rings.nodup PoolList.task) n
  have hfree := List.nodup_iff_count_le_one.1 (hI.nodes.rings.nodup PoolList.free) n
  have hhands := Multiset.nodup_iff_count_le_one.1 hI.hands_nodup n
  have hunlinked := hI.hands_unlinked n
  have hlive := hI.live_iff n
  have hlists : (∃ list, n ∈ lists list) ↔
      n ∈ lists PoolList.task ∨ n ∈ lists PoolList.free := by
    constructor
    · rintro ⟨list, h⟩
      cases list with
      | task => exact Or.inl h
      | free => exact Or.inr h
    · rintro (h | h)
      · exact ⟨_, h⟩
      · exact ⟨_, h⟩
  rw [hlists, ← List.count_pos_iff, ← List.count_pos_iff, ← Multiset.count_pos] at hlive
  -- the three counts exclude each other in pairs, and one is positive just when the node is live
  have hone : ¬ (0 < (lists PoolList.task).count n ∧ 0 < (lists PoolList.free).count n) := by
    rintro ⟨h, h'⟩
    cases hdisj (List.count_pos_iff.1 h) (List.count_pos_iff.1 h')
  have hout : 0 < ((sys.workers : Multiset WorkerPc).filterMap WorkerPc.hand).count n →
      (lists PoolList.task).count n = 0 ∧ (lists PoolList.free).count n = 0 := by
    intro h
    have hout := hunlinked (Multiset.count_pos.1 h)
    exact ⟨List.count_eq_zero.2 (hout _), List.count_eq_zero.2 (hout _)⟩
  show _ + _ + ((sys.workers : Multiset WorkerPc).filterMap WorkerPc.hand).count n = _
  split_ifs with h
  · have := hlive.1 h
    omega
  · have := hlive.not.1 h
    omega

theorem Inv.kept (hI : Inv sys lists) (hE : Executed sys) : Kept sys lists := by
  have hplaces : ∀ c, (sys.queuedCalls lists).count c + sys.runningCalls.count c +
      sys.history.finished.count c = if c ∈ sys.history.enqueued then 1 else 0 := by
    intro c
    exact hI.balanced.count_places c
  exact
    { rings := hI.nodes.rings
      ttl := hI.nodes.ttl
      one_state := fun c hc => by rw [hplaces, if_pos ((hI.accepted_iff c).2 hc)]
      no_other := fun c hc => by rw [hplaces, if_neg ((hI.accepted_iff c).not.2 hc)]
      started_once := hI.balanced.started_nodup
      invoked_once := hI.balanced.invoked_nodup
      invoked_own := hI.invoked_own
      finished := hE.finished
      one_place := hI.one_place
      in_order := hI.in_order
      executes := fun e hopen henabled => by
        rcases exec_spec hI hopen henabled with ⟨sys', lists', hexec, _⟩
        simp [hexec] }

/-- From its creation until it is closed, a pool keeps its tasks and its nodes, whatever its
producers and workers do and in whatever order. -/
theorem ucThreadpool_kept {start : Nat → Bool} {thrNumMin thrNumMax : UInt32}
    (hreach : Reachable start thrNumMin thrNumMax sys) : ∃ lists, Kept sys lists := by
  rcases hreach with ⟨hcreate, hopen, hrun⟩
  have hinv : ∃ lists, Inv sys lists ∧ Executed sys := by
    refine hrun.invariant (J := fun sys => ∃ lists, Inv sys lists ∧ Executed sys)
      ⟨_, ofPool_inv hcreate, Executed.ofPool _⟩ ?_ hopen
    rintro sys₁ sys₂ e ⟨lists, hI, hE⟩ hclosing henabled hexec
    rcases exec_spec hI hclosing henabled with ⟨sys', lists', hexec', hI'⟩
    have hsame : sys' = sys₂ := Option.some.inj (hexec'.symm.trans hexec)
    exact ⟨lists', hsame ▸ hI', hE.step hI henabled hexec⟩
  rcases hinv with ⟨lists, hI, hE⟩
  exact ⟨lists, hI.kept hE⟩

/-- Two tasks of a pool with one worker: the first is running, the second queued in a node of its
own. -/
theorem ucThreadpool_kept_two :
    ∃ (sys : System Nat Nat) (lists : PoolList → List TaskPtr), sys.history.enqueued = [0, 1] ∧
      sys.history.started = [0] ∧ sys.runningCalls = {0} ∧ Kept sys lists := by
  let node₁ : TaskPtr := ⟨16, by decide⟩
  let node₂ : TaskPtr := ⟨48, by decide⟩
  let events : List (Event Nat Nat) :=
    [Event.work 0 none, Event.call (some 7) (some 1) false, Event.call (some 8) none false,
      Event.enter 0 (some node₁) (some (Waiter.worker 0)), Event.enter 1 (some node₂) none,
      Event.activate 0 true true, Event.work 0 none, Event.begin 0]
  have hplay : ∃ (pool : UcThreadpool Nat Nat) (sys : System Nat Nat),
      ucThreadpoolCreate (fun _ => true) 1 1 = some pool ∧
      (machine Nat Nat).play (ofPool pool) events = some sys ∧
      sys.history.enqueued = [0, 1] ∧ sys.history.started = [0] ∧ sys.runningCalls = {0} :=
    ⟨_, _, rfl, rfl, rfl, rfl, rfl⟩
  rcases hplay with ⟨pool, sys, hcreate, hplay, henqueued, hstarted, hrunning⟩
  have hreach : Reachable (fun _ => true) 1 1 sys :=
    ⟨hcreate, by decide, Machine.run_of_play hplay⟩
  rcases ucThreadpool_kept hreach with ⟨lists, hkept⟩
  exact ⟨sys, lists, henqueued, hstarted, hrunning, hkept⟩

end System

end Threadpool
end UtilsC
