import UtilsC.Threadpool.Shutdown
import UtilsC.Threadpool.Threads

/-!
# Closing a pool

The whole life of a pool whose close is orderly (`System.orderly`): from its creation until
`uc_threadpool_close` has returned, and after.

* `freeTasks_spec`: the loops that free the lists.
* `Ended` is the pool behind those loops.  The books of its tasks are those of the last moment in
  which it had nodes.
* `Life` holds in every state (`Life.step`); `ucThreadpoolClose_settled` reads off what a close
  leaves behind.
-/

namespace UtilsC
namespace Threadpool

open Lib ListHead

variable {F X : Type}

/-! ## Freeing a list -/

/-- A list in order is freed node by node, by as many rounds as it has nodes and one more. -/
theorem freeTasks_spec {list : PoolList} {nodes : List TaskPtr} :
    ∀ {fuel : Nat} {links : LinkHeap PoolList TaskPtr} {lists : PoolList → List TaskPtr},
      RingFamily links lists → lists list = nodes →
      (freeTasks list fuel links = none ∧ fuel ≤ nodes.length) ∨
        ∃ links', freeTasks list fuel links = some links' ∧ nodes.length < fuel ∧
          RingFamily links' (Function.update lists list []) ∧
          ∀ n, links'.live (Loc.item n) = true ↔
            links.live (Loc.item n) = true ∧ n ∉ nodes := by
  induction nodes with
  | nil =>
      intro fuel links lists hF hlist
      cases fuel with
      | zero => exact Or.inl ⟨rfl, le_refl _⟩
      | succ fuel =>
          have hnext : links.next (Loc.head list) = Loc.head list := by
            rw [hF.next_head_eq, hlist]
            rfl
          have hsame : Function.update lists list [] = lists := by
            rw [← hlist]
            exact Function.update_eq_self list lists
          refine Or.inr ⟨links, by simp [freeTasks, hnext], Nat.succ_pos _, ?_, by simp⟩
          rw [hsame]
          exact hF
  | cons node rest ih =>
      intro fuel links lists hF hlist
      cases fuel with
      | zero => exact Or.inl ⟨rfl, Nat.zero_le _⟩
      | succ fuel =>
          have hmem : node ∈ lists list := by simp [hlist]
          have hnext : links.next (Loc.head list) = Loc.item node := by
            rw [hF.next_head_eq, hlist]
            rfl
          rcases listDel_linked hF hmem with ⟨links₁, hdel, hlive₁, hF₁⟩
          -- the node is freed when no list has it any more
          have hF₂ := hF₁.free (a := node) hF.not_mem_erase
          have hround : freeTasks list (fuel + 1) links =
              freeTasks list fuel (links₁.free node) := by
            simp [freeTasks, hnext, hdel]
          have hrest : (lists list).erase node = rest := by simp [hlist]
          rcases ih hF₂ hrest with ⟨hnone, hle⟩ | ⟨links', hrun, hlt, hF', hlive'⟩
          · exact Or.inl ⟨hround.trans hnone, Nat.succ_le_succ hle⟩
          · refine Or.inr ⟨links', hround.trans hrun, Nat.succ_lt_succ hlt, ?_, fun n => ?_⟩
            · have hsame : Function.update (fun t => (lists t).erase node) list [] =
                  Function.update lists list [] := by
                funext t
                by_cases ht : t = list
                · subst ht
                  simp only [Function.update_self]
                · simp only [Function.update_of_ne ht]
                  exact List.erase_of_not_mem fun hin => ht (hF.disjoint t list node hin hmem)
              rw [← hsame]
              exact hF'
            · rw [hlive' n, LinkHeap.free, hlive₁]
              by_cases hn : n = node
              · simp [hn]
              · simp [hn]

namespace System

variable {sys sys' : System F X} {lists : PoolList → List TaskPtr}

/-! ## The steps of `uc_threadpool_close` before it frees anything -/

theorem books_wakeAll (pc : WorkerPc) :
    (if pc = WorkerPc.asleep then WorkerPc.woken else pc).hand = pc.hand ∧
      (if pc = WorkerPc.asleep then WorkerPc.woken else pc).held = pc.held ∧
      (if pc = WorkerPc.asleep then WorkerPc.woken else pc).executing = pc.executing := by
  cases pc <;> simp [WorkerPc.hand, WorkerPc.held, WorkerPc.executing]

/-- The broadcast moves neither a node nor a task. -/
theorem Inv.wake_all (hI : Inv sys lists) : Inv sys.wakeAll lists := by
  have hhands : Conserved sys.pool sys.calls sys.wakeAll.workers sys.history lists := by
    refine Conserved.of_hands hI ?_ ?_ ?_
    · simp only [wakeAll, ← Multiset.map_coe, Multiset.filterMap_map]
      exact congrFun (congrArg Multiset.filterMap (funext fun pc => (books_wakeAll pc).1)) _
    · simp only [wakeAll, ← Multiset.map_coe, Multiset.filterMap_map]
      exact congrFun (congrArg Multiset.filterMap (funext fun pc => (books_wakeAll pc).2.1)) _
    · simp only [wakeAll, ← Multiset.map_coe, Multiset.filterMap_map]
      exact congrFun (congrArg Multiset.filterMap (funext fun pc => (books_wakeAll pc).2.2)) _
  refine hhands.of_calls ?_ ?_
  · intro c call hc
    refine ⟨if call.pc = CallPc.asleep then CallPc.woken else call.pc, ?_⟩
    by_cases hpc : call.pc = CallPc.asleep <;> simp [wakeAll, hc, hpc]
  · intro c
    simp only [Accepted, wakeAll, List.getElem?_map, Option.map_eq_some_iff]
    constructor
    · rintro ⟨_, ⟨call, hc, rfl⟩, hacc⟩
      refine ⟨call, hc, ?_⟩
      by_cases hpc : call.pc = CallPc.asleep
      · simp [hpc, CallPc.accepted] at hacc
      · simpa [hpc] using hacc
    · rintro ⟨call, hc, hacc⟩
      refine ⟨_, ⟨call, hc, rfl⟩, ?_⟩
      by_cases hpc : call.pc = CallPc.asleep
      · simp [hpc, CallPc.accepted] at hacc
      · simpa [hpc] using hacc

/-- Up to the loops that free the lists, every enabled step executes and keeps the accounts. -/
theorem exec_closing_spec {e : Event F X} (hI : Inv sys lists) (hclosing : e.closing = true)
    (hfree : ∀ fuel, e ≠ Event.closeFree fuel) :
    ∃ sys', sys.exec e = some sys' ∧ Inv sys' lists := by
  cases e with
  | close =>
      have hI' : Inv { sys with pool := { sys.pool with shutdown := true } } lists :=
        Conserved.of_pool hI rfl rfl rfl
      exact ⟨_, rfl, hI'.wake_all⟩
  | closeNext =>
      cases hpid : sys.pool.listPid with
      | nil =>
          have hexec : sys.exec Event.closeNext =
              some { sys with closer := CloserPc.freeLists } := by
            simp only [exec, hpid]
          exact ⟨_, hexec, hI⟩
      | cons pid rest =>
          have hexec : sys.exec Event.closeNext =
              some
                { sys with
                  pool := { sys.pool with listPid := rest }
                  closer := CloserPc.join pid } := by
            simp only [exec, hpid]
          exact ⟨_, hexec, Conserved.of_pool hI rfl rfl rfl⟩
  | closeJoin => exact ⟨_, rfl, hI⟩
  | closeFree fuel => exact absurd rfl (hfree fuel)
  | _ => cases hclosing

/-- Where those steps leave the closing thread: it goes on to the loops when no thread is left. -/
theorem closer_after {e : Event F X} (hclosing : e.closing = true)
    (hfree : ∀ fuel, e ≠ Event.closeFree fuel) (hexec : sys.exec e = some sys') :
    sys'.closer ≠ CloserPc.returned ∧
      (sys'.closer = CloserPc.freeLists → sys'.pool.listPid = []) := by
  cases e with
  | close =>
      cases hexec
      exact ⟨by simp, fun h => by cases h⟩
  | closeNext =>
      simp only [exec] at hexec
      split at hexec
      · cases hexec
        exact ⟨by simp, fun h => by cases h⟩
      · rename_i hpid
        cases hexec
        exact ⟨by simp, fun _ => hpid⟩
  | closeJoin =>
      cases hexec
      exact ⟨by simp, fun h => by cases h⟩
  | closeFree fuel => exact absurd rfl (hfree fuel)
  | _ => cases hclosing

/-! ## Behind the loops -/

/-- The pool after its lists were freed, with `queue` the nodes that were still in its task list. -/
structure Ended (sys : System F X) (queue : List TaskPtr) : Prop where
  rings : RingFamily sys.pool.links fun _ => []
  no_node : ∀ n, sys.pool.links.live (Loc.item n) = false
  left : ∀ pc ∈ sys.workers, pc = WorkerPc.exited
  books : ∃ pool lists, pool.listTaskTtl = sys.pool.listTaskTtl ∧
    lists PoolList.task = queue ∧ Conserved pool sys.calls sys.workers sys.history lists

theorem hands_of_left (hleft : ∀ pc ∈ sys.workers, pc = WorkerPc.exited)
    (f : WorkerPc → Option TaskPtr) (hf : f WorkerPc.exited = none) :
    (sys.workers : Multiset WorkerPc).filterMap f = 0 := by
  refine Multiset.eq_zero_of_forall_notMem fun n hn => ?_
  rcases (Multiset.mem_filterMap _ _).1 hn with ⟨pc, hpc, hnode⟩
  rw [hleft pc (Multiset.mem_coe.1 hpc), hf] at hnode
  cases hnode

/-- Freeing both lists frees every node, once all threads have left. -/
theorem closeFree_spec (hI : Inv sys lists) (hleft : ∀ pc ∈ sys.workers, pc = WorkerPc.exited)
    (fuel : Nat) :
    (sys.exec (Event.closeFree fuel) = none ∧
        (fuel ≤ (lists PoolList.free).length ∨ fuel ≤ (lists PoolList.task).length)) ∨
      ∃ sys', sys.exec (Event.closeFree fuel) = some sys' ∧ Ended sys' (lists PoolList.task) := by
  have hother : PoolList.task ≠ PoolList.free := by decide
  rcases freeTasks_spec hI.nodes.rings rfl with ⟨hnone, hle⟩ | ⟨links₁, hrun₁, _, hF₁, hlive₁⟩
  · exact Or.inl ⟨by simp [exec, hnone], Or.inl hle⟩
  · have htask : Function.update lists PoolList.free [] PoolList.task = lists PoolList.task :=
      Function.update_of_ne hother _ _
    rcases freeTasks_spec hF₁ htask with ⟨hnone, hle⟩ | ⟨links₂, hrun₂, _, hF₂, hlive₂⟩
    · exact Or.inl ⟨by simp [exec, hrun₁, hnone], Or.inr hle⟩
    · have hexec : sys.exec (Event.closeFree fuel) =
          some
            { sys with
              pool := { sys.pool with links := links₂ }
              closer := CloserPc.returned } := by
        simp only [exec, hrun₁, Option.bind_some, hrun₂, Option.map_some]
      refine Or.inr ⟨_, hexec, ?_, fun n => ?_, hleft, sys.pool, lists, rfl, rfl, hI⟩
      · have hempty : Function.update (Function.update lists PoolList.free []) PoolList.task [] =
            fun _ => [] := by
          funext list
          cases list with
          | task => exact Function.update_self _ _ _
          | free =>
              rw [Function.update_of_ne hother.symm]
              exact Function.update_self _ _ _
        rw [← hempty]
        exact hF₂
      · show links₂.live (Loc.item n) = false
        rw [← Bool.not_eq_true, hlive₂ n, hlive₁ n, hI.live_iff n,
          hands_of_left hleft WorkerPc.hand rfl]
        rintro ⟨⟨⟨list, hn⟩ | hn, hfree⟩, htask⟩
        · cases list with
          | task => exact htask hn
          | free => exact hfree hn
        · exact Multiset.notMem_zero n hn

/-! ### Calls that come too late -/

namespace Ended

variable {queue : List TaskPtr}

theorem no_worker (hE : Ended sys queue) {w : Nat} {pc : WorkerPc}
    (hw : sys.workers[w]? = some pc) : pc = WorkerPc.exited :=
  hE.left pc (List.mem_of_getElem? hw)

/-- A call goes on without queueing its task. -/
theorem set_call (hE : Ended sys queue) {c : Nat} {call : Call F X} {pc : CallPc}
    (hcall : sys.calls[c]? = some call) (hpc : pc.accepted = call.pc.accepted) :
    Ended (sys.setCall c pc) queue := by
  rcases hE.books with ⟨pool, lists, httl, hqueue, hI⟩
  exact ⟨hE.rings, hE.no_node, hE.left, pool, lists, httl, hqueue, hI.set_call hcall hpc⟩

theorem wake_up (hE : Ended sys queue) {wake : Option Waiter}
    (hwake : ∀ waiter, wake = some waiter → sys.isAsleep waiter = true) :
    Ended (sys.wakeUp wake) queue := by
  rcases wake with _ | c | w
  · exact hE
  · have hpc : sys.callPc c = some CallPc.asleep := by simpa [isAsleep] using hwake _ rfl
    rcases callPc_eq_some hpc with ⟨call, hcall, hcallpc⟩
    exact hE.set_call hcall (by rw [hcallpc]; rfl)
  · have hpc : sys.workers[w]? = some WorkerPc.asleep := by simpa [isAsleep] using hwake _ rfl
    exact absurd (hE.no_worker hpc) (by decide)

/-- A closed pool whose memory is gone stays as it is. -/
theorem step {e : Event F X} (hE : Ended sys queue) (hC : sys.Closing)
    (hreturned : sys.closer = CloserPc.returned) (henabled : sys.enabled e = true)
    (horderly : sys.orderly e = true) (hexec : sys.exec e = some sys') :
    Ended sys' queue := by
  have hclosed : sys.pool.shutdown = true := hC.flag.2 (by simp [hreturned])
  cases e with
  | call func arg forcetoHead =>
      cases hexec
      rcases hE.books with ⟨pool, lists, httl, hqueue, hI⟩
      exact ⟨hE.rings, hE.no_node, hE.left, pool, lists, httl, hqueue,
        hI.add_call func arg forcetoHead⟩
  | enter c malloc wake =>
      simp only [enabled, Bool.and_eq_true, decide_eq_true_eq] at henabled
      rcases callPc_eq_some henabled.1.1.2 with ⟨call, hcall, hpc⟩
      simp only [exec, hcall, Option.bind_some, hclosed, if_true] at hexec
      cases hexec
      exact hE.set_call hcall (by rw [hpc]; rfl)
  | resume c malloc wake =>
      simp only [enabled, Bool.and_eq_true, decide_eq_true_eq] at henabled
      rcases callPc_eq_some henabled.1.1.2 with ⟨call, hcall, hpc⟩
      simp only [exec, hcall, Option.bind_some] at hexec
      cases hfull : queueFull sys.pool with
      | true =>
          rw [addLoop, if_pos hfull] at hexec
          cases hexec
          exact hE.set_call hcall (by rw [hpc]; rfl)
      | false =>
          -- there is room in a queue without nodes, but no memory
          simp only [orderly, hclosed, hfull, Bool.not_true, Bool.false_or, Bool.and_eq_true,
            Option.isNone_iff_eq_none] at horderly
          have hfail : ucThreadpoolAddToVoidTaskDo malloc call.func call.arg call.forcetoHead
              sys.pool = some (none, sys.pool) := by
            simp [ucThreadpoolAddToVoidTaskDo, takeNode, horderly.1, horderly.2]
          simp only [addLoop, hfull, hfail] at hexec
          cases hexec
          have hlocked : Ended { sys with locked := true } queue :=
            ⟨hE.rings, hE.no_node, hE.left, hE.books⟩
          exact hlocked.set_call hcall (by rw [hpc]; rfl)
  | activate c malloc create =>
      simp only [enabled, Bool.and_eq_true, decide_eq_true_eq] at henabled
      exact absurd henabled.2 (hC.idle hclosed c)
  | setTaskMax max wake =>
      simp only [enabled, Bool.and_eq_true] at henabled
      cases hexec
      have hset : Ended { sys with pool := { sys.pool with listTaskMax := max } } queue :=
        ⟨hE.rings, hE.no_node, hE.left, hE.books⟩
      exact hset.wake_up (asleep_of_signalOk henabled.2)
  | work w wake =>
      simp only [enabled, Bool.and_eq_true, Bool.or_eq_true, decide_eq_true_eq] at henabled
      rcases henabled.1.2 with hw | hw
      · exact absurd (hE.no_worker hw) (by decide)
      · exact absurd (hE.no_worker hw) (by decide)
  | begin w =>
      rcases begin_cases hexec with ⟨node, hw, _⟩
      exact absurd (hE.no_worker hw) (by simp)
  | finish w =>
      rcases finish_cases hexec with ⟨node, hw, _⟩
      exact absurd (hE.no_worker hw) (by simp)
  | recycle w =>
      rcases recycle_cases hexec with ⟨node, links, hw, _⟩
      exact absurd (hE.no_worker hw) (by simp)
  | spurious waiter =>
      cases hexec
      refine hE.wake_up ?_
      intro waiter' h
      cases h
      exact henabled
  | close => simp [enabled, hreturned] at henabled
  | closeNext => simp [enabled, hreturned] at henabled
  | closeJoin => simp [enabled, hreturned] at henabled
  | closeFree fuel => simp [enabled, hreturned] at henabled

theorem executes {e : Event F X} (hE : Ended sys queue) (hC : sys.Closing)
    (hreturned : sys.closer = CloserPc.returned) (henabled : sys.enabled e = true)
    (horderly : sys.orderly e = true) : (sys.exec e).isSome = true := by
  have hclosed : sys.pool.shutdown = true := hC.flag.2 (by simp [hreturned])
  cases e with
  | call func arg forcetoHead => rfl
  | enter c malloc wake =>
      simp only [enabled, Bool.and_eq_true, decide_eq_true_eq] at henabled
      rcases callPc_eq_some henabled.1.1.2 with ⟨call, hcall, _⟩
      simp [exec, hcall, hclosed]
  | resume c malloc wake =>
      simp only [enabled, Bool.and_eq_true, decide_eq_true_eq] at henabled
      rcases callPc_eq_some henabled.1.1.2 with ⟨call, hcall, _⟩
      cases hfull : queueFull sys.pool with
      | true => simp [exec, hcall, addLoop, hfull]
      | false =>
          simp only [orderly, hclosed, hfull, Bool.not_true, Bool.false_or, Bool.and_eq_true,
            Option.isNone_iff_eq_none] at horderly
          simp [exec, hcall, addLoop, hfull, ucThreadpoolAddToVoidTaskDo, takeNode, horderly.1,
            horderly.2]
  | activate c malloc create => rfl
  | setTaskMax max wake => rfl
  | work w wake => simp [exec, workLoop, hclosed]
  | begin w =>
      simp only [enabled] at henabled
      split at henabled
      · rename_i node hw
        exact absurd (hE.no_worker hw) (by simp)
      · cases henabled
  | finish w =>
      simp only [enabled] at henabled
      split at henabled
      · rename_i node hw
        exact absurd (hE.no_worker hw) (by simp)
      · cases henabled
  | recycle w =>
      simp only [enabled, Bool.and_eq_true] at henabled
      have hcalled := henabled.2
      split at hcalled
      · rename_i node hw
        exact absurd (hE.no_worker hw) (by simp)
      · cases hcalled
  | spurious waiter => rfl
  | close => rfl
  | closeNext => simp [enabled, hreturned] at henabled
  | closeJoin => rfl
  | closeFree fuel => simp [enabled, hreturned] at henabled

end Ended

/-! ## The whole life -/

/-- What holds of a pool in every state of an orderly run. -/
structure Life (threadMax : Int) (started : Nat) (sys : System F X) (joined : List Nat) : Prop where
  threads : Threads threadMax started sys joined
  closing : sys.Closing
  /-- No thread is left to join, and none is added any more. -/
  listed : sys.closer = CloserPc.freeLists ∨ sys.closer = CloserPc.returned →
    sys.pool.listPid = []
  running : sys.closer ≠ CloserPc.returned → ∃ lists, Inv sys lists
  ended : sys.closer = CloserPc.returned → ∃ queue, Ended sys queue

namespace Life

variable {threadMax : Int} {started : Nat} {joined : List Nat}

/-- When all threads were joined, all have left. -/
theorem all_joined (hL : Life threadMax started sys joined)
    (hcloser : sys.closer = CloserPc.freeLists ∨ sys.closer = CloserPc.returned) :
    joined = List.range sys.workers.length ∧ ∀ pc ∈ sys.workers, pc = WorkerPc.exited := by
  have hjoined : joined = List.range sys.workers.length := by
    have horder := hL.threads.order
    rw [hL.listed hcloser] at horder
    rcases hcloser with h | h <;> simpa [joining, h] using horder
  refine ⟨hjoined, fun pc hpc => ?_⟩
  rcases List.mem_iff_getElem?.1 hpc with ⟨w, hw⟩
  have hmem : w ∈ joined := by
    rw [hjoined]
    exact List.mem_range.2 (List.getElem?_eq_some_iff.1 hw).1
  have hgone := hL.threads.gone w hmem
  rw [hw] at hgone
  exact Option.some.inj hgone

/-- No step starts a thread once the pool is closed. -/
theorem listPid_nil {e : Event F X} (hC : sys.Closing) (hclosed : sys.pool.shutdown = true)
    (hopen : e.closing = false) (henabled : sys.enabled e = true)
    (hexec : sys.exec e = some sys') (hpid : sys.pool.listPid = []) :
    sys'.pool.listPid = [] := by
  cases exec_threads hopen henabled hexec with
  | same _ hpool => rw [hpool.pid, hpid]
  | started hcall _ _ _ _ _ =>
      rcases hcall with ⟨c, hc⟩
      exact absurd hc (hC.idle hclosed c)
  | left _ _ _ hpid' _ _ => rw [hpid', hpid]

theorem step {e : Event F X} (hL : Life threadMax started sys joined)
    (henabled : sys.enabled e = true) (horderly : sys.orderly e = true)
    (hexec : sys.exec e = some sys') :
    Life threadMax started sys' (sys.joins e joined) := by
  have hthreads := hL.threads.step henabled hexec
  have hclosing := hL.closing.step henabled horderly hexec
  cases hopen : e.closing with
  | false =>
      have hcloser := (exec_sameClosing hopen hexec).1
      refine ⟨hthreads, hclosing, ?_, ?_, ?_⟩
      · intro h
        rw [hcloser] at h
        have hclosed : sys.pool.shutdown = true := by
          refine hL.closing.flag.2 ?_
          rcases h with h | h <;> simp [h]
        exact listPid_nil hL.closing hclosed hopen henabled hexec (hL.listed h)
      · intro h
        rw [hcloser] at h
        rcases hL.running h with ⟨lists, hI⟩
        rcases exec_spec hI hopen henabled with ⟨sys₁, lists', hexec', hI'⟩
        cases hexec.symm.trans hexec'
        exact ⟨lists', hI'⟩
      · intro h
        rw [hcloser] at h
        rcases hL.ended h with ⟨queue, hE⟩
        exact ⟨queue, hE.step hL.closing h henabled horderly hexec⟩
  | true =>
      -- the pool still has its nodes: `uc_threadpool_close` takes no step after its return
      have hrunning : sys.closer ≠ CloserPc.returned := by
        intro h
        cases e with
        | close => simp [enabled, h] at henabled
        | closeNext => simp [enabled, h] at henabled
        | closeJoin => simp [enabled, h] at henabled
        | closeFree fuel => simp [enabled, h] at henabled
        | _ => cases hopen
      rcases hL.running hrunning with ⟨lists, hI⟩
      by_cases hfree : ∃ fuel, e = Event.closeFree fuel
      · rcases hfree with ⟨fuel, rfl⟩
        simp only [enabled, Bool.and_eq_true, decide_eq_true_eq] at henabled
        have hleft := (hL.all_joined (Or.inl henabled.2)).2
        have hpid := hL.listed (Or.inl henabled.2)
        rcases closeFree_spec hI hleft fuel with ⟨hnone, _⟩ | ⟨sys₁, hexec', hE⟩
        · cases hexec.symm.trans hnone
        · cases hexec.symm.trans hexec'
          rcases Option.bind_eq_some_iff.1 hexec with ⟨links, _, hrest⟩
          rcases Option.map_eq_some_iff.1 hrest with ⟨links', _, hsys'⟩
          cases hsys'
          exact ⟨hthreads, hclosing, fun _ => hpid, fun h => absurd rfl h, fun _ => ⟨_, hE⟩⟩
      · have hfree' : ∀ fuel, e ≠ Event.closeFree fuel := fun fuel h => hfree ⟨fuel, h⟩
        rcases exec_closing_spec hI hopen hfree' with ⟨sys₁, hexec', hI'⟩
        cases hexec.symm.trans hexec'
        have hcloser := closer_after hopen hfree' hexec
        refine ⟨hthreads, hclosing, ?_, fun _ => ⟨lists, hI'⟩, fun h => absurd h hcloser.1⟩
        rintro (h | h)
        · exact hcloser.2 h
        · exact absurd h hcloser.1

/-- Every step of an orderly run executes.  The loops that free the lists need as many rounds as
there are nodes. -/
theorem executes (hL : Life threadMax started sys joined) :
    ∃ rounds, ∀ e : Event F X, (∀ fuel, e = Event.closeFree fuel → rounds < fuel) →
      sys.enabled e = true → sys.orderly e = true → (sys.exec e).isSome = true := by
  by_cases hreturned : sys.closer = CloserPc.returned
  · rcases hL.ended hreturned with ⟨queue, hE⟩
    exact ⟨0, fun e _ henabled horderly => hE.executes hL.closing hreturned henabled horderly⟩
  · rcases hL.running hreturned with ⟨lists, hI⟩
    refine ⟨(lists PoolList.free).length + (lists PoolList.task).length, ?_⟩
    intro e hfuel henabled _
    cases hopen : e.closing with
    | false =>
        rcases exec_spec hI hopen henabled with ⟨sys', lists', hexec, _⟩
        rw [hexec]
        rfl
    | true =>
        by_cases hfree : ∃ fuel, e = Event.closeFree fuel
        · rcases hfree with ⟨fuel, rfl⟩
          have hlt := hfuel fuel rfl
          simp only [enabled, Bool.and_eq_true, decide_eq_true_eq] at henabled
          have hleft := (hL.all_joined (Or.inl henabled.2)).2
          rcases closeFree_spec hI hleft fuel with ⟨_, hle⟩ | ⟨sys', hexec, _⟩
          · omega
          · rw [hexec]
            rfl
        · have hfree' : ∀ fuel, e ≠ Event.closeFree fuel := fun fuel h => hfree ⟨fuel, h⟩
          rcases exec_closing_spec hI hopen hfree' with ⟨sys', hexec, _⟩
          rw [hexec]
          rfl

end Life

/-! ## From creation to the return of `uc_threadpool_close` -/

section Run

variable {start : Nat → Bool} {thrNumMin thrNumMax : UInt32} {pool : UcThreadpool F X}

theorem run_life (hcreate : ucThreadpoolCreate start thrNumMin thrNumMax = some pool)
    {events : List (Event F X)} {joined : List Nat}
    (hrun : (((machine F X).restrict orderly).record joins).Run (ofPool pool, []) events
      (sys, joined)) :
    Life (toInt32 thrNumMax) (startWorkers start thrNumMin.toNat 0) sys joined := by
  have hstart : Life (toInt32 thrNumMax) (startWorkers start thrNumMin.toNat 0) (ofPool pool)
      [] :=
    { threads := ofPool_threads hcreate
      closing := ofPool_closing hcreate
      listed := fun h => by rcases h with h | h <;> cases h
      running := fun _ => ⟨_, ofPool_inv hcreate⟩
      ended := fun h => by cases h }
  refine hrun.invariant (J := fun s => Life (toInt32 thrNumMax)
    (startWorkers start thrNumMin.toNat 0) s.1 s.2) hstart ?_
    (fun _ _ => trivial : ∀ e ∈ events, True)
  intro s t e hL _ henabled hexec
  rcases Machine.exec_record hexec with ⟨hexec', hjoined⟩
  rcases (Bool.and_eq_true _ _).mp henabled with ⟨henabled', horderly⟩
  rw [hjoined]
  exact hL.step henabled' horderly hexec'

/-- What a close leaves behind. -/
structure Settled (sys : System F X) (joined : List Nat) : Prop where
  /-- Every thread that was ever started has left and was joined, once. -/
  joined_all : joined = List.range sys.workers.length
  left : ∀ pc ∈ sys.workers, pc = WorkerPc.exited
  alive : sys.pool.threadAlive = 0
  /-- No node is left, whichever list or thread had it. -/
  no_node : ∀ n, sys.pool.links.live (Loc.item n) = false
  /-- The tasks that were accepted were finished, once each, but for those still queued. -/
  accepted_iff : ∀ c, c ∈ sys.history.enqueued ↔ Accepted sys.calls c
  accepted_once : sys.history.enqueued.Nodup
  accounted : ∃ dropped : List Nat, dropped.length = sys.pool.listTaskTtl.toNat ∧
    sys.history.enqueued.Perm (sys.history.finished ++ dropped)
  /-- No task was left in the middle. -/
  invoked_finished : (sys.history.invoked.map Invocation.call : Multiset Nat) ≤
    sys.history.finished

theorem Life.settled {threadMax : Int} {started : Nat} {joined : List Nat}
    (hL : Life threadMax started sys joined) (hreturned : sys.closer = CloserPc.returned) :
    Settled sys joined := by
  rcases hL.ended hreturned with ⟨queue, hE⟩
  rcases hE.books with ⟨pool', lists, httl, hqueue, hI⟩
  have hleft := hE.left
  have hheld := hands_of_left hleft WorkerPc.held rfl
  have hexecuting := hands_of_left hleft WorkerPc.executing rfl
  have hcount : sys.exits.count false = 0 := by
    refine List.count_eq_zero.2 fun hmem => ?_
    rcases List.mem_map.1 hmem with ⟨pc, hpc, hflag⟩
    simp [hleft pc hpc] at hflag
  have hbalanced := hI.balanced
  refine
    { joined_all := (hL.all_joined (Or.inr hreturned)).1
      left := hleft
      alive := by rw [hL.threads.alive, hcount]; rfl
      no_node := hE.no_node
      accepted_iff := hI.accepted_iff
      accepted_once := hbalanced.nodup
      accounted := ⟨(lists PoolList.task).map sys.history.owner, ?_, ?_⟩
      invoked_finished := ?_ }
  · rw [List.length_map, ← hI.nodes.ttl, httl]
  · have hconserved := hbalanced.conserved
    have hstarted := hbalanced.started_eq
    simp only [books, hheld, hexecuting, Multiset.map_zero, Multiset.zero_add]
      at hconserved hstarted
    rw [hstarted, Multiset.coe_add, Multiset.coe_eq_coe] at hconserved
    exact hconserved.symm.trans List.perm_append_comm
  · have hle := hbalanced.invoked_le
    simpa only [books, hexecuting, Multiset.map_zero, Multiset.zero_add] using hle

/-- In every orderly run of a created pool every step executes; and when `uc_threadpool_close` has
returned, the pool is settled, whatever its threads did before and whatever calls come later. -/
theorem ucThreadpoolClose_settled
    (hcreate : ucThreadpoolCreate start thrNumMin thrNumMax = some pool)
    {events : List (Event F X)} {joined : List Nat}
    (hrun : (((machine F X).restrict orderly).record joins).Run (ofPool pool, []) events
      (sys, joined)) :
    (∃ rounds, ∀ e : Event F X, (∀ fuel, e = Event.closeFree fuel → rounds < fuel) →
      ((machine F X).restrict orderly).enabled sys e = true → (sys.exec e).isSome = true) ∧
    (sys.closer = CloserPc.returned → Settled sys joined) := by
  have hL := run_life hcreate hrun
  rcases hL.executes with ⟨rounds, hexecutes⟩
  refine ⟨⟨rounds, fun e hfuel henabled => ?_⟩, hL.settled⟩
  rcases (Bool.and_eq_true _ _).mp henabled with ⟨henabled', horderly⟩
  exact hexecutes e hfuel henabled' horderly

/-- The one worker is in the middle of a task and another one waits when the pool is closed: the
first task is finished, the second is dropped. -/
theorem ucThreadpoolClose_settled_dropped :
    ∃ (pool : UcThreadpool Nat Nat) (sys : System Nat Nat) (joined : List Nat),
      ucThreadpoolCreate (fun _ => true) 1 1 = some pool ∧
      (((machine Nat Nat).restrict orderly).record joins).Run (ofPool pool, [])
        [Event.call (some 7) none false, Event.enter 0 (some ⟨16, by decide⟩) none,
          Event.activate 0 true true, Event.work 0 none, Event.begin 0,
          Event.call (some 8) none false, Event.enter 1 (some ⟨48, by decide⟩) none,
          Event.activate 1 true true, Event.close, Event.closeNext, Event.finish 0,
          Event.recycle 0, Event.work 0 none, Event.closeJoin, Event.closeNext,
          Event.closeFree 2] (sys, joined) ∧
      sys.history.enqueued = [0, 1] ∧ sys.history.finished = [0] ∧
      sys.pool.listTaskTtl = 1 ∧ Settled sys joined := by
  have hplay : ∃ (pool : UcThreadpool Nat Nat) (sys : System Nat Nat) (joined : List Nat),
      ucThreadpoolCreate (fun _ => true) 1 1 = some pool ∧
      (((machine Nat Nat).restrict orderly).record joins).play (ofPool pool, [])
        [Event.call (some 7) none false, Event.enter 0 (some ⟨16, by decide⟩) none,
          Event.activate 0 true true, Event.work 0 none, Event.begin 0,
          Event.call (some 8) none false, Event.enter 1 (some ⟨48, by decide⟩) none,
          Event.activate 1 true true, Event.close, Event.closeNext, Event.finish 0,
          Event.recycle 0, Event.work 0 none, Event.closeJoin, Event.closeNext,
          Event.closeFree 2] = some (sys, joined) ∧
      sys.closer = CloserPc.returned ∧ sys.history.enqueued = [0, 1] ∧
      sys.history.finished = [0] ∧ sys.pool.listTaskTtl = 1 :=
    ⟨_, _, _, rfl, rfl, rfl, rfl, rfl, rfl⟩
  rcases hplay with
    ⟨pool, sys, joined, hcreate, hplay, hreturned, henqueued, hfinished, httl⟩
  have hrun := Machine.run_of_play hplay
  exact ⟨pool, sys, joined, hcreate, hrun, henqueued, hfinished, httl,
    (ucThreadpoolClose_settled hcreate hrun).2 hreturned⟩

end Run

end System

end Threadpool
end UtilsC
