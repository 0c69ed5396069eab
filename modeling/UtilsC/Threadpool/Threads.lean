import UtilsC.Threadpool.Run

/-!
# The threads of a pool over its whole life

`thread_alive` and `list_pid` are written at four places: a thread is started when the pool is
created or from an addition, it leaves in its own loop, and the closing thread takes it off the list
and joins it.

* `ThreadStep` is what a section does to the threads (`exec_threads`).
* `joins` records the threads that were joined, in order.
* `Threads` is the account of them: `ucThreadpool_threads` keeps it over every run, those of
  `uc_threadpool_close` included.
-/

namespace UtilsC
namespace Threadpool

open Lib ListHead

variable {F X : Type}

namespace System

variable {sys sys' : System F X}

/-- Which threads have left `uc_threadpool_thread_work`, in the order in which they were started. -/
def exits (sys : System F X) : List Bool :=
  sys.workers.map fun pc => decide (pc = WorkerPc.exited)

/-- No thread was started, and none has left. -/
structure SameThreads (pool pool' : UcThreadpool F X) : Prop where
  pid : pool'.listPid = pool.listPid
  alive : pool'.threadAlive = pool.threadAlive
  max : pool'.threadMax = pool.threadMax

theorem SameThreads.refl (pool : UcThreadpool F X) : SameThreads pool pool :=
  ⟨rfl, rfl, rfl⟩

/-- What a section does to the threads: nothing, one more, or one less. -/
inductive ThreadStep (sys sys' : System F X) : Prop
  | same (hexits : sys'.exits = sys.exits) (hpool : SameThreads sys.pool sys'.pool)
  | started (hcall : ∃ c, sys.callPc c = some CallPc.activate)
      (hroom : sys.pool.threadAlive < sys.pool.threadMax)
      (hexits : sys'.exits = sys.exits ++ [false])
      (hpid : sys'.pool.listPid = sys.pool.listPid ++ [sys.exits.length])
      (halive : sys'.pool.threadAlive = sys.pool.threadAlive + 1)
      (hmax : sys'.pool.threadMax = sys.pool.threadMax)
  | left (w : Nat) (hw : sys.exits[w]? = some false) (hexits : sys'.exits = sys.exits.set w true)
      (hpid : sys'.pool.listPid = sys.pool.listPid)
      (halive : sys'.pool.threadAlive = sys.pool.threadAlive - 1)
      (hmax : sys'.pool.threadMax = sys.pool.threadMax)

/-! ## One section -/

theorem exits_of_workers {w : Nat} {pc : WorkerPc} (hw : sys.workers[w]? = some pc) :
    sys.exits[w]? = some (decide (pc = WorkerPc.exited)) := by
  simp [exits, hw]

theorem workers_of_exits {w : Nat} (hw : sys.exits[w]? = some true) :
    sys.workers[w]? = some WorkerPc.exited := by
  simp only [exits, List.getElem?_map, Option.map_eq_some_iff, decide_eq_true_eq] at hw
  rcases hw with ⟨pc, hpc, rfl⟩
  exact hpc

theorem exits_setWorker (sys : System F X) (w : Nat) (pc : WorkerPc) :
    (sys.setWorker w pc).exits = sys.exits.set w (decide (pc = WorkerPc.exited)) := by
  simp [exits, setWorker, List.map_set]

/-- A worker that stays in its loop. -/
theorem exits_stay {w : Nat} {old new : WorkerPc} (hw : sys.workers[w]? = some old)
    (hold : old ≠ WorkerPc.exited) (hnew : new ≠ WorkerPc.exited) :
    (sys.setWorker w new).exits = sys.exits := by
  have hflag := exits_of_workers hw
  rw [exits_setWorker, decide_eq_false hnew]
  rw [decide_eq_false hold] at hflag
  refine List.ext_getElem? fun w' => ?_
  by_cases hww : w = w'
  · subst hww
    have hlt : w < sys.exits.length := (List.getElem?_eq_some_iff.1 hflag).1
    rw [List.getElem?_set_self hlt, hflag]
  · rw [List.getElem?_set_ne hww]

theorem exits_wakeUp {wake : Option Waiter}
    (hwake : ∀ waiter, wake = some waiter → sys.isAsleep waiter = true) :
    (sys.wakeUp wake).exits = sys.exits := by
  rcases wake with _ | c | w
  · rfl
  · rfl
  · have hasleep : sys.workers[w]? = some WorkerPc.asleep := by
      simpa [isAsleep] using hwake _ rfl
    exact exits_stay hasleep (by decide) (by decide)

theorem exits_wakeAll (sys : System F X) : sys.wakeAll.exits = sys.exits := by
  simp only [exits, wakeAll, List.map_map]
  refine List.map_congr_left fun pc _ => ?_
  by_cases hpc : pc = WorkerPc.asleep <;> simp [hpc]

/-- A section that only moves nodes and wakes a thread. -/
theorem ThreadStep.wake_up (hstep : ThreadStep sys sys') {wake : Option Waiter}
    (hwake : ∀ waiter, wake = some waiter → sys'.isAsleep waiter = true) :
    ThreadStep sys (sys'.wakeUp wake) := by
  have hexits' := exits_wakeUp hwake
  have hpool : (sys'.wakeUp wake).pool = sys'.pool := wakeUp_pool wake
  cases hstep with
  | same hexits hsame => exact .same (hexits'.trans hexits) (hpool ▸ hsame)
  | started hcall hroom hexits hpid halive hmax =>
      exact .started hcall hroom (hexits'.trans hexits) (hpool ▸ hpid) (hpool ▸ halive)
        (hpool ▸ hmax)
  | left w hw hexits hpid halive hmax =>
      exact .left w hw (hexits'.trans hexits) (hpool ▸ hpid) (hpool ▸ halive) (hpool ▸ hmax)

theorem takeTask_sameThreads {pool pool' : UcThreadpool F X} {node : TaskPtr}
    (htake : takeTask pool = some (node, pool')) : SameThreads pool pool' := by
  simp only [takeTask] at htake
  split at htake
  · rcases Option.map_eq_some_iff.1 htake with ⟨links', _, h⟩
    cases h
    exact ⟨rfl, rfl, rfl⟩
  · cases htake

theorem ucThreadpoolAddToVoidTaskDo_sameThreads {malloc r : Option TaskPtr} {func : Option F}
    {arg : Option X} {forcetoHead : Bool} {pool pool' : UcThreadpool F X}
    (hadd : ucThreadpoolAddToVoidTaskDo malloc func arg forcetoHead pool = some (r, pool')) :
    SameThreads pool pool' := by
  rcases Option.bind_eq_some_iff.1 hadd with ⟨⟨node, links⟩, _, hlink⟩
  cases node with
  | none =>
      cases hlink
      exact .refl pool
  | some node =>
      rcases Option.map_eq_some_iff.1 hlink with ⟨links', _, h⟩
      cases h
      exact ⟨rfl, rfl, rfl⟩

theorem addLoop_threads {c : Nat} {call : Call F X} {malloc : Option TaskPtr}
    {wake : Option Waiter} (hcall : sys.callPc c ≠ some CallPc.asleep)
    (hsignal : sys.signalOk wake = true) (hadd : sys.addLoop c call malloc wake = some sys') :
    ThreadStep sys sys' := by
  simp only [addLoop] at hadd
  split at hadd
  · cases hadd
    exact .same rfl (.refl _)
  · rcases Option.map_eq_some_iff.1 hadd with ⟨⟨node, pool⟩, hdo, hsys'⟩
    have hpool := ucThreadpoolAddToVoidTaskDo_sameThreads hdo
    cases node with
    | none =>
        cases hsys'
        exact .same rfl hpool
    | some node =>
        cases hsys'
        have hqueued : ThreadStep sys ((({ sys with pool := pool }).setCall c
            CallPc.activate).noteQueued node c) := .same rfl hpool
        refine hqueued.wake_up fun waiter hwake => ?_
        have hasleep : ({ sys with pool := pool } : System F X).isAsleep waiter = true :=
          asleep_of_signalOk hsignal waiter hwake
        exact asleep_setCall hcall hasleep

theorem workLoop_threads {w : Nat} {wake : Option Waiter}
    (hw : sys.workers[w]? = some WorkerPc.ready ∨ sys.workers[w]? = some WorkerPc.woken)
    (hsignal : sys.signalOk wake = true) (hwork : sys.workLoop w wake = some sys') :
    ThreadStep sys sys' := by
  have hidle : ∃ old, sys.workers[w]? = some old ∧ old ≠ WorkerPc.exited ∧
      old ≠ WorkerPc.asleep := by
    rcases hw with h | h
    · exact ⟨_, h, by decide, by decide⟩
    · exact ⟨_, h, by decide, by decide⟩
  rcases hidle with ⟨old, hold, hloop, hawake⟩
  simp only [workLoop] at hwork
  split at hwork
  · -- the one way out of the loop
    cases hwork
    have hflag := exits_of_workers hold
    rw [decide_eq_false hloop] at hflag
    refine .left w hflag ?_ rfl rfl rfl
    rw [exits_setWorker]
    rfl
  · split at hwork
    · cases hwork
      exact .same (exits_stay hold hloop (by decide)) (.refl _)
    · rcases Option.map_eq_some_iff.1 hwork with ⟨⟨node, pool⟩, htake, hsys'⟩
      have hpool := takeTask_sameThreads htake
      cases hsys'
      have hdequeued : ThreadStep sys ((({ sys with pool := pool }).setWorker w
          (WorkerPc.holding node)).noteStarted node) :=
        .same (exits_stay hold hloop (by simp)) hpool
      refine hdequeued.wake_up fun waiter hwake => ?_
      have hasleep : ({ sys with pool := pool } : System F X).isAsleep waiter = true :=
        asleep_of_signalOk hsignal waiter hwake
      refine asleep_setWorker ?_ hasleep
      exact fun h => hawake (Option.some.inj (hold.symm.trans h))

/-- What the sections of producers and workers do to the threads. -/
theorem exec_threads {e : Event F X} (hopen : e.closing = false)
    (henabled : sys.enabled e = true) (hexec : sys.exec e = some sys') : ThreadStep sys sys' := by
  cases e with
  | call func arg forcetoHead =>
      cases hexec
      exact .same rfl (.refl _)
  | enter c malloc wake =>
      simp only [enabled, Bool.and_eq_true, decide_eq_true_eq] at henabled
      rcases Option.bind_eq_some_iff.1 hexec with ⟨call, _, hrest⟩
      split at hrest
      · cases hrest
        exact .same rfl (.refl _)
      · exact addLoop_threads (by simp [henabled.1.1.2]) henabled.2 hrest
  | resume c malloc wake =>
      simp only [enabled, Bool.and_eq_true, decide_eq_true_eq] at henabled
      rcases Option.bind_eq_some_iff.1 hexec with ⟨call, _, hrest⟩
      exact addLoop_threads (by simp [henabled.1.1.2]) henabled.2 hrest
  | activate c malloc create =>
      simp only [enabled, Bool.and_eq_true, decide_eq_true_eq] at henabled
      have hcall := henabled.2
      cases hexec
      by_cases hmax : sys.pool.threadMax ≤ sys.pool.threadAlive
      · simp only [ucThreadpoolActivtyTryDo, hmax, if_true]
        exact .same rfl (.refl _)
      · by_cases hbusy : (sys.pool.listTaskTtl.toNat : Int) < sys.pool.threadAlive % 2 ^ 64
        · simp only [ucThreadpoolActivtyTryDo, hmax, hbusy, if_true, if_false]
          exact .same rfl (.refl _)
        · cases malloc with
          | false =>
              simp only [ucThreadpoolActivtyTryDo, hmax, hbusy, if_true, if_false]
              exact .same rfl (.refl _)
          | true =>
              cases create with
              | false =>
                  simp only [ucThreadpoolActivtyTryDo, hmax, hbusy, if_true, if_false]
                  exact .same rfl (.refl _)
              | true =>
                  simp only [ucThreadpoolActivtyTryDo, hmax, hbusy, if_false]
                  refine .started ⟨c, hcall⟩ (lt_of_not_ge hmax) ?_ ?_ rfl rfl
                  · simp [exits, setCall]
                  · simp [exits, setCall]
  | setTaskMax max wake =>
      simp only [enabled, Bool.and_eq_true] at henabled
      cases hexec
      have hset : ThreadStep sys { sys with pool := { sys.pool with listTaskMax := max } } :=
        .same rfl ⟨rfl, rfl, rfl⟩
      exact hset.wake_up (asleep_of_signalOk henabled.2)
  | work w wake =>
      simp only [enabled, Bool.and_eq_true, Bool.or_eq_true, decide_eq_true_eq] at henabled
      exact workLoop_threads henabled.1.2 henabled.2 hexec
  | begin w =>
      rcases begin_cases hexec with ⟨node, hw, _, ⟨func, _, rfl⟩ | ⟨_, rfl⟩⟩
      · exact .same (exits_stay hw (by simp) (by simp)) ⟨rfl, rfl, rfl⟩
      · exact .same (exits_stay hw (by simp) (by simp)) ⟨rfl, rfl, rfl⟩
  | finish w =>
      rcases finish_cases hexec with ⟨node, hw, rfl⟩
      exact .same (exits_stay hw (by simp) (by simp)) ⟨rfl, rfl, rfl⟩
  | recycle w =>
      rcases recycle_cases hexec with ⟨node, links, hw, _, _, rfl⟩
      exact .same (exits_stay hw (by simp) (by simp)) ⟨rfl, rfl, rfl⟩
  | spurious waiter =>
      cases hexec
      refine ThreadStep.wake_up (.same rfl (.refl _)) ?_
      intro waiter' h
      cases h
      exact henabled
  | close => cases hopen
  | closeNext => cases hopen
  | closeJoin => cases hopen
  | closeFree fuel => cases hopen

/-! ## The account -/

/-- The thread that the closing thread waits for. -/
def joining : CloserPc → List Nat
  | CloserPc.join pid => [pid]
  | _ => []

/-- `pthread_join` has returned. -/
def joins (sys : System F X) : Event F X → List Nat → List Nat
  | Event.closeJoin, joined => joined ++ joining sys.closer
  | _, joined => joined

/-- The threads of a pool that was created with `started` of them, and those that were joined. -/
structure Threads (threadMax : Int) (started : Nat) (sys : System F X) (joined : List Nat) :
    Prop where
  /-- Threads are taken off the list, and joined, in the order in which they were started. -/
  order : joined ++ joining sys.closer ++ sys.pool.listPid = List.range sys.workers.length
  /-- A thread that was joined has left. -/
  gone : ∀ w ∈ joined, sys.workers[w]? = some WorkerPc.exited
  /-- `thread_alive` counts the threads that have not left. -/
  alive : sys.pool.threadAlive = (sys.exits.count false : Nat)
  max_eq : sys.pool.threadMax = threadMax
  alive_le : sys.pool.threadAlive ≤ max threadMax started
  /-- A maximum of 2^31 and more is negative as an `int`, and no thread is ever added. -/
  fixed : threadMax < 0 → sys.workers.length = started

namespace Threads

variable {threadMax : Int} {started : Nat} {joined : List Nat}

theorem exits_length (sys : System F X) : sys.exits.length = sys.workers.length :=
  List.length_map _

/-- A section of a producer or a worker keeps the account. -/
theorem section_step (hT : Threads threadMax started sys joined)
    (hcloser : sys'.closer = sys.closer) (hstep : ThreadStep sys sys') :
    Threads threadMax started sys' joined := by
  have hlen := exits_length sys
  have hlen' := exits_length sys'
  cases hstep with
  | same hexits hpool =>
      refine ⟨?_, fun w hw => ?_, ?_, hpool.max ▸ hT.max_eq, hpool.alive ▸ hT.alive_le, ?_⟩
      · rw [hcloser, hpool.pid, ← hlen', hexits, hlen]
        exact hT.order
      · refine workers_of_exits ?_
        rw [hexits, exits_of_workers (hT.gone w hw)]
        rfl
      · rw [hpool.alive, hexits]
        exact hT.alive
      · rw [← hlen', hexits, hlen]
        exact hT.fixed
  | started _ hroom hexits hpid halive hmax =>
      have hmaxeq := hT.max_eq
      refine ⟨?_, fun w hw => ?_, ?_, hmax ▸ hT.max_eq, ?_, fun hneg => ?_⟩
      · rw [hcloser, hpid, ← hlen', hexits, List.length_append, List.length_singleton,
          List.range_succ, hlen, ← List.append_assoc, hT.order]
      · have hold := exits_of_workers (hT.gone w hw)
        have hlt : w < sys.exits.length := (List.getElem?_eq_some_iff.1 hold).1
        refine workers_of_exits ?_
        rw [hexits, List.getElem?_append_left hlt, hold]
        rfl
      · rw [halive, hexits, List.count_append, hT.alive]
        rfl
      · rw [halive]
        exact le_max_of_le_left (by omega)
      · -- `threadAlive` is not negative
        have halive' := hT.alive
        omega
  | left w hw hexits hpid halive hmax =>
      rcases List.getElem?_eq_some_iff.1 hw with ⟨hlt, hwfalse⟩
      refine ⟨?_, fun w' hw' => ?_, ?_, hmax ▸ hT.max_eq, ?_, ?_⟩
      · rw [hcloser, hpid, ← hlen', hexits, List.length_set, hlen]
        exact hT.order
      · refine workers_of_exits ?_
        by_cases hww : w = w'
        · rw [hexits, ← hww, List.getElem?_set_self hlt]
        · rw [hexits, List.getElem?_set_ne hww, exits_of_workers (hT.gone w' hw')]
          rfl
      · have hpos : 0 < sys.exits.count false :=
          List.count_pos_iff.2 (List.mem_of_getElem? hw)
        have hcount : (sys.exits.set w true).count false = sys.exits.count false - 1 := by
          rw [List.count_set hlt]
          simp [hwfalse]
        rw [halive, hexits, hcount, hT.alive]
        omega
      · rw [halive]
        exact (Int.sub_le_self _ (by decide)).trans hT.alive_le
      · rw [← hlen', hexits, List.length_set, hlen]
        exact hT.fixed

/-- Every step keeps the account, those of the closing thread too. -/
theorem step (hT : Threads threadMax started sys joined) {e : Event F X}
    (henabled : sys.enabled e = true) (hexec : sys.exec e = some sys') :
    Threads threadMax started sys' (sys.joins e joined) := by
  cases hopen : e.closing with
  | false =>
      have hstep := hT.section_step (exec_sameClosing hopen hexec).1
        (exec_threads hopen henabled hexec)
      cases e with
      | closeJoin => cases hopen
      | _ => exact hstep
  | true =>
      cases e with
      | close =>
          simp only [enabled, Bool.and_eq_true, decide_eq_true_eq] at henabled
          have horder := hT.order
          cases hexec
          rw [henabled.2] at horder
          refine ⟨?_, fun w hw => ?_, ?_, hT.max_eq, hT.alive_le, ?_⟩
          · simpa [joins, joining, wakeAll] using horder
          · simp [wakeAll, hT.gone w hw]
          · exact hT.alive.trans (by rw [← exits_wakeAll]; rfl)
          · simpa [wakeAll] using hT.fixed
      | closeNext =>
          simp only [enabled, Bool.and_eq_true, decide_eq_true_eq] at henabled
          have horder := hT.order
          rw [henabled.2] at horder
          simp only [exec] at hexec
          split at hexec
          · -- the first thread of the list is taken off it before it is joined
            rename_i pid rest hpid
            cases hexec
            refine ⟨?_, hT.gone, hT.alive, hT.max_eq, hT.alive_le, hT.fixed⟩
            rw [hpid] at horder
            simpa [joins, joining] using horder
          · cases hexec
            exact ⟨horder, hT.gone, hT.alive, hT.max_eq, hT.alive_le, hT.fixed⟩
      | closeJoin =>
          simp only [enabled] at henabled
          split at henabled
          · rename_i pid hcloser
            have horder := hT.order
            simp only [decide_eq_true_eq] at henabled
            cases hexec
            refine ⟨?_, fun w hw => ?_, hT.alive, hT.max_eq, hT.alive_le, hT.fixed⟩
            · simpa [joins, joining, hcloser] using horder
            · simp only [joins, hcloser, joining, List.mem_append, List.mem_singleton] at hw
              rcases hw with hw | rfl
              · exact hT.gone w hw
              · exact henabled
          · cases henabled
      | closeFree fuel =>
          simp only [enabled, Bool.and_eq_true, decide_eq_true_eq] at henabled
          have horder := hT.order
          rw [henabled.2] at horder
          rcases Option.bind_eq_some_iff.1 hexec with ⟨links, _, hrest⟩
          rcases Option.map_eq_some_iff.1 hrest with ⟨links', _, hsys'⟩
          cases hsys'
          exact ⟨horder, hT.gone, hT.alive, hT.max_eq, hT.alive_le, hT.fixed⟩
      | _ => cases hopen

end Threads

/-! ## From creation on -/

theorem ofPool_threads {start : Nat → Bool} {thrNumMin thrNumMax : UInt32}
    {pool : UcThreadpool F X}
    (hcreate : ucThreadpoolCreate start thrNumMin thrNumMax = some pool) :
    Threads (toInt32 thrNumMax) (startWorkers start thrNumMin.toNat 0) (ofPool pool) [] := by
  rw [ucThreadpoolCreate] at hcreate
  split_ifs at hcreate
  cases hcreate
  refine ⟨?_, by simp, ?_, rfl, le_max_right _ _, fun _ => ?_⟩
  · simp [joining, ofPool]
  · simp [exits, ofPool]
  · simp [ofPool]

/-- Over its whole life, closing included, a pool keeps account of its threads, whatever producers,
workers and the closing thread do, in whatever order, and whichever allocations fail. -/
theorem ucThreadpool_threads {start : Nat → Bool} {thrNumMin thrNumMax : UInt32}
    {pool : UcThreadpool F X}
    (hcreate : ucThreadpoolCreate start thrNumMin thrNumMax = some pool)
    {events : List (Event F X)} {joined : List Nat}
    (hrun : ((machine F X).record joins).Run (ofPool pool, []) events (sys, joined)) :
    Threads (toInt32 thrNumMax) (startWorkers start thrNumMin.toNat 0) sys joined := by
  refine hrun.invariant (J := fun s => Threads (toInt32 thrNumMax)
    (startWorkers start thrNumMin.toNat 0) s.1 s.2) (ofPool_threads hcreate) ?_
    (fun _ _ => trivial : ∀ e ∈ events, True)
  intro s t e hT _ henabled hexec
  rcases Machine.exec_record hexec with ⟨hexec', hjoined⟩
  rw [hjoined]
  exact hT.step henabled hexec'

/-- One worker from the start and one that an addition starts: both leave, both are joined. -/
theorem ucThreadpool_threads_two :
    ∃ (pool : UcThreadpool Nat Nat) (sys : System Nat Nat) (joined : List Nat),
      ucThreadpoolCreate (fun _ => true) 1 2 = some pool ∧
      ((machine Nat Nat).record joins).Run (ofPool pool, [])
        [Event.call (some 7) none false, Event.enter 0 (some ⟨16, by decide⟩) none,
          Event.activate 0 true true, Event.close, Event.work 1 none, Event.closeNext,
          Event.work 0 none, Event.closeJoin, Event.closeNext, Event.closeJoin]
        (sys, joined) ∧
      sys.pool.threadAlive = 0 ∧ joined = [0, 1] ∧
      Threads (toInt32 2) (startWorkers (fun _ => true) 1 0) sys joined := by
  have hplay : ∃ (pool : UcThreadpool Nat Nat) (sys : System Nat Nat) (joined : List Nat),
      ucThreadpoolCreate (fun _ => true) 1 2 = some pool ∧
      ((machine Nat Nat).record joins).play (ofPool pool, [])
        [Event.call (some 7) none false, Event.enter 0 (some ⟨16, by decide⟩) none,
          Event.activate 0 true true, Event.close, Event.work 1 none, Event.closeNext,
          Event.work 0 none, Event.closeJoin, Event.closeNext, Event.closeJoin] =
        some (sys, joined) ∧
      sys.pool.threadAlive = 0 ∧ joined = [0, 1] :=
    ⟨_, _, _, rfl, rfl, rfl, rfl⟩
  rcases hplay with ⟨pool, sys, joined, hcreate, hplay, halive, hjoined⟩
  have hrun := Machine.run_of_play hplay
  exact ⟨pool, sys, joined, hcreate, hrun, halive, hjoined, ucThreadpool_threads hcreate hrun⟩

end System

end Threadpool
end UtilsC
