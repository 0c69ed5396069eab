import UtilsC.Threadpool.Conserve

/-!
# Runs of a pool

`exec_spec` takes the accounts of `Conserve` through every section of producers and workers.
-/

namespace UtilsC
namespace Threadpool

open Lib ListHead

variable {F X : Type}

namespace System

variable {sys : System F X} {lists : PoolList → List TaskPtr}

/-- The accounts of a system. -/
def Inv (sys : System F X) (lists : PoolList → List TaskPtr) : Prop :=
  Conserved sys.pool sys.calls sys.workers sys.history lists

/-- Taking one worker out of the multiset of all, and putting it back elsewhere in its loop. -/
theorem workers_split {workers : List WorkerPc} {w : Nat} {pc : WorkerPc}
    (hw : workers[w]? = some pc) :
    ∃ rest : Multiset WorkerPc, (workers : Multiset WorkerPc) = pc ::ₘ rest ∧
      ∀ new, ((workers.set w new : List WorkerPc) : Multiset WorkerPc) = new ::ₘ rest := by
  rcases List.getElem?_eq_some_iff.1 hw with ⟨hlt, hpc⟩
  refine ⟨(workers.take w ++ workers.drop (w + 1) : List WorkerPc), ?_, ?_⟩
  · have hsplit : workers = workers.take w ++ pc :: workers.drop (w + 1) := by
      rw [← hpc, List.cons_getElem_drop_succ, List.take_append_drop]
    rw [Multiset.cons_coe, Multiset.coe_eq_coe]
    exact (List.Perm.of_eq hsplit).trans List.perm_middle
  · intro new
    rw [Multiset.cons_coe, Multiset.coe_eq_coe, List.set_eq_take_append_cons_drop, if_pos hlt]
    exact List.perm_middle

theorem callPc_eq_some {c : Nat} {pc : CallPc} (hc : sys.callPc c = some pc) :
    ∃ call, sys.calls[c]? = some call ∧ call.pc = pc := by
  rcases Option.map_eq_some_iff.1 hc with ⟨call, hcall, hpc⟩
  exact ⟨call, hcall, hpc⟩

/-! ## Threads that sleep -/

theorem Inv.set_call {c : Nat} {call : Call F X} {pc : CallPc} (hI : Inv sys lists)
    (hcall : sys.calls[c]? = some call) (hpc : pc.accepted = call.pc.accepted) :
    Inv (sys.setCall c pc) lists :=
  Conserved.set_call hI hcall hpc

theorem Inv.set_idle {w : Nat} {old new : WorkerPc} (hI : Inv sys lists)
    (hw : sys.workers[w]? = some old) (hold : old.hand = none) (hnew : new.hand = none) :
    Inv (sys.setWorker w new) lists := by
  rcases workers_split hw with ⟨rest, hworkers, hset⟩
  have hI' : Conserved sys.pool sys.calls (old ::ₘ rest) sys.history lists := hworkers ▸ hI
  have hnewI := hI'.set_idle hold hnew
  rw [← hset new] at hnewI
  exact hnewI

theorem Inv.wake_up {wake : Option Waiter} (hI : Inv sys lists)
    (hwake : ∀ waiter, wake = some waiter → sys.isAsleep waiter = true) :
    Inv (sys.wakeUp wake) lists := by
  cases wake with
  | none => exact hI
  | some waiter =>
      have hasleep := hwake waiter rfl
      cases waiter with
      | call c =>
          have hpc : sys.callPc c = some CallPc.asleep := by simpa [isAsleep] using hasleep
          rcases callPc_eq_some hpc with ⟨call, hcall, hcallpc⟩
          exact hI.set_call hcall (by rw [hcallpc]; rfl)
      | worker w =>
          have hpc : sys.workers[w]? = some WorkerPc.asleep := by simpa [isAsleep] using hasleep
          exact hI.set_idle hpc rfl rfl

theorem asleep_of_signalOk {wake : Option Waiter} (hsignal : sys.signalOk wake = true) :
    ∀ waiter, wake = some waiter → sys.isAsleep waiter = true := by
  intro waiter hwake
  subst hwake
  exact hsignal

/-- A step of a thread that is awake leaves every sleeper asleep. -/
theorem asleep_setCall {c : Nat} {pc : CallPc} {waiter : Waiter}
    (hc : sys.callPc c ≠ some CallPc.asleep) (hwaiter : sys.isAsleep waiter = true) :
    (sys.setCall c pc).isAsleep waiter = true := by
  cases waiter with
  | call c' =>
      have hpc : sys.callPc c' = some CallPc.asleep := by simpa [isAsleep] using hwaiter
      have hne : c ≠ c' := fun h => hc (h ▸ hpc)
      have hsame : (sys.setCall c pc).callPc c' = sys.callPc c' := by
        simp [callPc, setCall, hne]
      simp [isAsleep, hsame, hpc]
  | worker w => exact hwaiter

theorem asleep_setWorker {w : Nat} {pc : WorkerPc} {waiter : Waiter}
    (hw : sys.workers[w]? ≠ some WorkerPc.asleep) (hwaiter : sys.isAsleep waiter = true) :
    (sys.setWorker w pc).isAsleep waiter = true := by
  cases waiter with
  | call c => exact hwaiter
  | worker w' =>
      have hpc : sys.workers[w']? = some WorkerPc.asleep := by simpa [isAsleep] using hwaiter
      have hne : w ≠ w' := fun h => hw (h ▸ hpc)
      simp [isAsleep, setWorker, List.getElem?_set_ne hne, hpc]

/-! ## The sections -/

section Steps

variable {c w : Nat} {malloc : Option TaskPtr} {wake : Option Waiter}

theorem fresh_of_mallocOk (hmalloc : sys.mallocOk malloc = true) :
    ∀ n, malloc = some n → sys.pool.links.live (Loc.item n) = false := by
  intro n hn
  subst hn
  simpa [mallocOk] using hmalloc

theorem addLoop_spec {call : Call F X} (hI : Inv sys lists) (hcall : sys.calls[c]? = some call)
    (hpc : call.pc = CallPc.entry ∨ call.pc = CallPc.woken) (hmalloc : sys.mallocOk malloc = true)
    (hsignal : sys.signalOk wake = true) :
    ∃ sys' lists', sys.addLoop c call malloc wake = some sys' ∧ Inv sys' lists' := by
  have haccepted : call.pc.accepted = false := by
    rcases hpc with h | h <;> rw [h] <;> rfl
  have hawake : sys.callPc c ≠ some CallPc.asleep := by
    rcases hpc with h | h <;> simp [callPc, hcall, h]
  by_cases hfull : queueFull sys.pool = true
  · -- the queue is full: the producer goes to sleep on `condAdd`
    exact ⟨_, lists, by rw [addLoop, if_pos hfull], hI.set_call hcall (by rw [haccepted]; rfl)⟩
  · rcases ucThreadpoolAddToVoidTaskDo_spec hI.nodes (fresh_of_mallocOk hmalloc) call.func
      call.arg call.forcetoHead with ⟨hadd, _, _⟩ | ⟨node, pool', lists', hadd, hlink⟩
    · -- `malloc` failed: the call returns its error and no node moves
      refine ⟨_, lists, by simp only [addLoop, hfull, hadd]; rfl, ?_⟩
      exact Conserved.set_call hI hcall (by rw [haccepted]; rfl)
    · -- the node is queued and one sleeping worker is signalled
      refine ⟨_, lists', by simp only [addLoop, hfull, hadd]; rfl, ?_⟩
      have hqueued : Inv ((({ sys with pool := pool' }).setCall c
          CallPc.activate).noteQueued node c) lists' :=
        Conserved.enqueue hI hlink hcall haccepted
      refine hqueued.wake_up ?_
      intro waiter hwake
      have hasleep := asleep_of_signalOk hsignal waiter hwake
      have hasleep' : ({ sys with pool := pool' } : System F X).isAsleep waiter = true := hasleep
      exact asleep_setCall hawake hasleep'

theorem workLoop_spec (hI : Inv sys lists)
    (hw : sys.workers[w]? = some WorkerPc.ready ∨ sys.workers[w]? = some WorkerPc.woken)
    (hsignal : sys.signalOk wake = true) :
    ∃ sys' lists', sys.workLoop w wake = some sys' ∧ Inv sys' lists' := by
  have hidle : ∃ old, sys.workers[w]? = some old ∧ old.hand = none ∧ old ≠ WorkerPc.asleep := by
    rcases hw with h | h
    · exact ⟨_, h, rfl, by decide⟩
    · exact ⟨_, h, rfl, by decide⟩
  rcases hidle with ⟨old, hold, hhand, hawake⟩
  by_cases hshutdown : sys.pool.shutdown = true
  · -- the pool is closing: the worker leaves its loop
    have hI' : Inv { sys with
        pool := { sys.pool with threadAlive := sys.pool.threadAlive - 1 } } lists :=
      Conserved.of_pool hI rfl rfl rfl
    exact ⟨_, lists, by rw [workLoop, if_pos hshutdown], hI'.set_idle hold hhand rfl⟩
  · by_cases hempty : listEmpty sys.pool.links (Loc.head PoolList.task) = true
    · exact ⟨_, lists, by rw [workLoop, if_neg hshutdown, if_pos hempty],
        hI.set_idle hold hhand rfl⟩
    · -- the test the loop made rules the empty queue out; otherwise its head is taken
      cases hqueue : lists PoolList.task with
      | nil => exact absurd ((listEmpty_iff hI.nodes.rings).2 hqueue) hempty
      | cons node queue =>
          rcases takeTask_spec hI.nodes hqueue with ⟨links', htake, hlive, hnodes⟩
          rcases workers_split hold with ⟨rest, hworkers, hset⟩
          have hI' : Conserved sys.pool sys.calls (old ::ₘ rest) sys.history lists :=
            hworkers ▸ hI
          have hdequeued := hI'.dequeue hhand hqueue hnodes hlive rfl
          rw [← hset (WorkerPc.holding node)] at hdequeued
          have hwork : sys.workLoop w wake =
              some (((({ sys with pool := { sys.pool with
                links := links'
                listTaskTtl := sys.pool.listTaskTtl - 1 } }).setWorker w
                  (WorkerPc.holding node)).noteStarted node).wakeUp wake) := by
            rw [workLoop, if_neg hshutdown, if_neg hempty, htake]
            rfl
          refine ⟨_, fun list => (lists list).erase node, hwork, ?_⟩
          refine Inv.wake_up hdequeued ?_
          intro waiter hwake
          have hasleep := asleep_of_signalOk hsignal waiter hwake
          have hasleep' : ({ sys with pool := { sys.pool with
              links := links'
              listTaskTtl := sys.pool.listTaskTtl - 1 } } : System F X).isAsleep waiter = true :=
            hasleep
          refine asleep_setWorker ?_ hasleep'
          rw [hold]
          exact fun h => hawake (Option.some.inj h)

/-- A node in a worker's hands is live and in no list. -/
theorem Inv.hand (hI : Inv sys lists) {pc : WorkerPc} {node : TaskPtr}
    (hw : sys.workers[w]? = some pc) (hhand : pc.hand = some node) :
    sys.pool.links.live (Loc.item node) = true ∧ Unlinked lists node := by
  have hmem : node ∈ (sys.workers : Multiset WorkerPc).filterMap WorkerPc.hand :=
    (Multiset.mem_filterMap _ _).2 ⟨pc, Multiset.mem_coe.2 (List.mem_of_getElem? hw), hhand⟩
  exact ⟨(hI.live_iff node).2 (Or.inr hmem), hI.hands_unlinked node hmem⟩

theorem beginTask_spec {node : TaskPtr} (hI : Inv sys lists)
    (hw : sys.workers[w]? = some (WorkerPc.holding node)) :
    ∃ sys', sys.beginTask w node = some sys' ∧ Inv sys' lists := by
  have hlive := (hI.hand hw rfl).1
  rcases workers_split hw with ⟨rest, hworkers, hset⟩
  have hI' : Conserved sys.pool sys.calls (WorkerPc.holding node ::ₘ rest) sys.history lists :=
    hworkers ▸ hI
  -- a task without a function is dropped by the worker that took it
  cases hfunc : (sys.pool.task node).func with
  | some func =>
      have hinvoked := hI'.invoke hfunc
      rw [← hset (WorkerPc.calling node)] at hinvoked
      have hbegin : sys.beginTask w node = some ((sys.setWorker w
          (WorkerPc.calling node)).noteInvoked node func (sys.pool.task node).arg) := by
        simp only [beginTask, hlive, if_true, hfunc]
      exact ⟨_, hbegin, hinvoked⟩
  | none =>
      have hskipped := hI'.skip
      rw [← hset (WorkerPc.called node)] at hskipped
      have hbegin : sys.beginTask w node =
          some ((sys.setWorker w (WorkerPc.called node)).noteFinished node) := by
        simp only [beginTask, hlive, if_true, hfunc]
      exact ⟨_, hbegin, hskipped⟩

theorem finish_spec {node : TaskPtr} (hI : Inv sys lists)
    (hw : sys.workers[w]? = some (WorkerPc.calling node)) :
    Inv ((sys.setWorker w (WorkerPc.called node)).noteFinished node) lists := by
  rcases workers_split hw with ⟨rest, hworkers, hset⟩
  have hI' : Conserved sys.pool sys.calls (WorkerPc.calling node ::ₘ rest) sys.history lists :=
    hworkers ▸ hI
  have hfinished := hI'.complete
  rw [← hset (WorkerPc.called node)] at hfinished
  exact hfinished

theorem recycle_spec {node : TaskPtr} (hI : Inv sys lists)
    (hw : sys.workers[w]? = some (WorkerPc.called node)) :
    ∃ pool', recycleTask node sys.pool = some pool' ∧
      ∃ lists', Inv (({ sys with pool := pool' }).setWorker w WorkerPc.ready) lists' := by
  rcases hI.hand hw rfl with ⟨hlive, hunlinked⟩
  rcases recycleTask_spec hI.nodes hunlinked hlive with ⟨pool', hrecycle, hlive', hnodes, hframe⟩
  rcases workers_split hw with ⟨rest, hworkers, hset⟩
  have hI' : Conserved sys.pool sys.calls (WorkerPc.called node ::ₘ rest) sys.history lists :=
    hworkers ▸ hI
  -- `memset` clears the recycled node alone
  have htask : ∀ n, n ≠ node → pool'.task n = sys.pool.task n := by
    intro n hn
    rw [hframe]
    exact Function.update_of_ne hn _ _
  have hready := hI'.recycle hnodes hlive' htask
  rw [← hset WorkerPc.ready] at hready
  exact ⟨pool', hrecycle, _, hready⟩

theorem activate_spec (hI : Inv sys lists) (malloc create : Bool)
    (hc : sys.callPc c = some CallPc.activate) :
    ∃ sys', sys.exec (Event.activate c malloc create) = some sys' ∧ Inv sys' lists := by
  rcases callPc_eq_some hc with ⟨call, hcall, hpc⟩
  refine ⟨_, rfl, ?_⟩
  have hreturn : (CallPc.returned 0).accepted = call.pc.accepted := by
    rw [hpc]
    rfl
  -- with or without a new thread: no node moves
  have hpool : Conserved (ucThreadpoolActivtyTryDo malloc create sys.workers.length sys.pool).2.2
      sys.calls sys.workers sys.history lists := by
    refine Conserved.of_pool hI ?_ ?_ ?_ <;>
    · simp only [ucThreadpoolActivtyTryDo]
      split_ifs <;> rfl
  cases hspawn : (ucThreadpoolActivtyTryDo malloc create sys.workers.length sys.pool).2.1 with
  | false => exact hpool.set_call hcall hreturn
  | true =>
      have hworker := hpool.add_worker WorkerPc.ready rfl
      have hworkers : WorkerPc.ready ::ₘ (sys.workers : Multiset WorkerPc) =
          ((sys.workers ++ [WorkerPc.ready] : List WorkerPc) : Multiset WorkerPc) :=
        (WorkQueue.coe_append_singleton _ _).symm
      rw [hworkers] at hworker
      exact hworker.set_call hcall hreturn

/-- Every enabled section executes and keeps the accounts. -/
theorem exec_spec {e : Event F X} (hI : Inv sys lists) (hopen : e.closing = false)
    (henabled : sys.enabled e = true) :
    ∃ sys' lists', sys.exec e = some sys' ∧ Inv sys' lists' := by
  cases e with
  | call func arg forcetoHead => exact ⟨_, lists, rfl, Conserved.add_call hI func arg forcetoHead⟩
  | enter c malloc wake =>
      simp only [enabled, Bool.and_eq_true, decide_eq_true_eq] at henabled
      rcases henabled with ⟨⟨⟨_, hc⟩, hmalloc⟩, hsignal⟩
      rcases callPc_eq_some hc with ⟨call, hcall, hpc⟩
      by_cases hshutdown : sys.pool.shutdown = true
      · have hreturn : sys.exec (Event.enter c malloc wake) =
            some (sys.setCall c (CallPc.returned (-0x7d1a4672))) := by
          simp only [exec, hcall, Option.bind_some, hshutdown, if_true]
        refine ⟨_, lists, hreturn, hI.set_call hcall ?_⟩
        rw [hpc]
        rfl
      · have hadd := addLoop_spec hI hcall (Or.inl hpc) hmalloc hsignal
        simpa only [exec, hcall, Option.bind_some, if_neg hshutdown] using hadd
  | resume c malloc wake =>
      simp only [enabled, Bool.and_eq_true, decide_eq_true_eq] at henabled
      rcases henabled with ⟨⟨⟨_, hc⟩, hmalloc⟩, hsignal⟩
      rcases callPc_eq_some hc with ⟨call, hcall, hpc⟩
      have hadd := addLoop_spec hI hcall (Or.inr hpc) hmalloc hsignal
      simpa only [exec, hcall, Option.bind_some] using hadd
  | activate c malloc create =>
      simp only [enabled, Bool.and_eq_true, decide_eq_true_eq] at henabled
      rcases activate_spec hI malloc create henabled.2 with
        ⟨sys', hexec, hI'⟩
      exact ⟨sys', lists, hexec, hI'⟩
  | setTaskMax max wake =>
      simp only [enabled, Bool.and_eq_true] at henabled
      have hI' : Inv { sys with pool := { sys.pool with listTaskMax := max } } lists :=
        Conserved.of_pool hI rfl rfl rfl
      exact ⟨_, lists, rfl, hI'.wake_up (asleep_of_signalOk henabled.2)⟩
  | work w wake =>
      simp only [enabled, Bool.and_eq_true, Bool.or_eq_true, decide_eq_true_eq] at henabled
      exact workLoop_spec hI henabled.1.2 henabled.2
  | begin w =>
      simp only [enabled] at henabled
      split at henabled
      · rename_i node hw
        rcases beginTask_spec hI hw with ⟨sys', hbegin, hI'⟩
        exact ⟨sys', lists, by simp only [exec, hw, hbegin], hI'⟩
      · cases henabled
  | finish w =>
      simp only [enabled] at henabled
      split at henabled
      · rename_i node hw
        exact ⟨_, lists, by simp only [exec, hw], finish_spec hI hw⟩
      · cases henabled
  | recycle w =>
      simp only [enabled, Bool.and_eq_true] at henabled
      have hcalled := henabled.2
      split at hcalled
      · rename_i node hw
        rcases recycle_spec hI hw with ⟨pool', hrecycle, lists', hI'⟩
        exact ⟨_, lists', by simp only [exec, hw, hrecycle, Option.map_some], hI'⟩
      · cases hcalled
  | spurious waiter =>
      refine ⟨_, lists, rfl, hI.wake_up ?_⟩
      intro waiter' h
      cases h
      exact henabled
  | close => cases hopen
  | closeNext => cases hopen
  | closeJoin => cases hopen
  | closeFree fuel => cases hopen

end Steps

/-! ## What the steps of a task do -/

section Task

variable {w : Nat} {sys' : System F X}

/-- A task begins: its function is called, or it has none and is over at once. -/
theorem begin_cases (hexec : sys.exec (Event.begin w) = some sys') :
    ∃ node, sys.workers[w]? = some (WorkerPc.holding node) ∧
      sys.pool.links.live (Loc.item node) = true ∧
      ((∃ func, (sys.pool.task node).func = some func ∧
          sys' = (sys.setWorker w (WorkerPc.calling node)).noteInvoked node func
            (sys.pool.task node).arg) ∨
        ((sys.pool.task node).func = none ∧
          sys' = (sys.setWorker w (WorkerPc.called node)).noteFinished node)) := by
  simp only [exec] at hexec
  split at hexec
  · rename_i node hw
    simp only [beginTask] at hexec
    split at hexec
    · rename_i hlive
      refine ⟨node, hw, hlive, ?_⟩
      split at hexec
      · rename_i func hfunc
        exact Or.inl ⟨func, hfunc, (Option.some.inj hexec).symm⟩
      · rename_i hfunc
        exact Or.inr ⟨hfunc, (Option.some.inj hexec).symm⟩
    · cases hexec
  · cases hexec

theorem finish_cases (hexec : sys.exec (Event.finish w) = some sys') :
    ∃ node, sys.workers[w]? = some (WorkerPc.calling node) ∧
      sys' = (sys.setWorker w (WorkerPc.called node)).noteFinished node := by
  simp only [exec] at hexec
  split at hexec
  · rename_i node hw
    exact ⟨node, hw, (Option.some.inj hexec).symm⟩
  · cases hexec

/-- A task is over: its node goes to the free list, without its argument. -/
theorem recycle_cases (hexec : sys.exec (Event.recycle w) = some sys') :
    ∃ node links, sys.workers[w]? = some (WorkerPc.called node) ∧
      sys.pool.links.live (Loc.item node) = true ∧
      listAddTail sys.pool.links (Loc.item node) (Loc.head PoolList.free) = some links ∧
      sys' =
        ({ sys with
          pool :=
            { sys.pool with
              links := links
              task := Function.update sys.pool.task node
                { sys.pool.task node with arg := none } } }).setWorker w WorkerPc.ready := by
  simp only [exec] at hexec
  split at hexec
  · rename_i node hw
    rcases Option.map_eq_some_iff.1 hexec with ⟨pool, hrecycle, hsys'⟩
    simp only [recycleTask] at hrecycle
    split at hrecycle
    · rename_i hlive
      rcases Option.map_eq_some_iff.1 hrecycle with ⟨links, hlinks, hpool⟩
      cases hpool
      exact ⟨node, links, hw, hlive, hlinks, hsys'.symm⟩
    · cases hrecycle
  · cases hexec

end Task

/-! ## The closing flag -/

theorem wakeUp_pool (wake : Option Waiter) : (sys.wakeUp wake).pool = sys.pool := by
  rcases wake with _ | _ | _ <;> rfl

theorem wakeUp_closer (wake : Option Waiter) : (sys.wakeUp wake).closer = sys.closer := by
  rcases wake with _ | _ | _ <;> rfl

/-- Neither where the closing thread stands nor the flag it sets has changed. -/
def SameClosing (sys sys' : System F X) : Prop :=
  sys'.closer = sys.closer ∧ sys'.pool.shutdown = sys.pool.shutdown

theorem sameClosing_wakeUp (sys : System F X) (wake : Option Waiter) :
    SameClosing sys (sys.wakeUp wake) :=
  ⟨wakeUp_closer wake, by rw [wakeUp_pool]⟩

theorem takeTask_shutdown {pool pool' : UcThreadpool F X} {node : TaskPtr}
    (htake : takeTask pool = some (node, pool')) : pool'.shutdown = pool.shutdown := by
  simp only [takeTask] at htake
  split at htake
  · rcases Option.map_eq_some_iff.1 htake with ⟨links', _, h⟩
    cases h
    rfl
  · cases htake

theorem ucThreadpoolAddToVoidTaskDo_shutdown {malloc r : Option TaskPtr} {func : Option F}
    {arg : Option X} {forcetoHead : Bool} {pool pool' : UcThreadpool F X}
    (hadd : ucThreadpoolAddToVoidTaskDo malloc func arg forcetoHead pool = some (r, pool')) :
    pool'.shutdown = pool.shutdown := by
  rcases Option.bind_eq_some_iff.1 hadd with ⟨⟨node, links⟩, _, hlink⟩
  cases node with
  | none =>
      cases hlink
      rfl
  | some node =>
      rcases Option.map_eq_some_iff.1 hlink with ⟨links', _, h⟩
      cases h
      rfl

theorem addLoop_sameClosing {c : Nat} {call : Call F X} {malloc : Option TaskPtr}
    {wake : Option Waiter} {sys' : System F X}
    (hadd : sys.addLoop c call malloc wake = some sys') : SameClosing sys sys' := by
  simp only [addLoop] at hadd
  split at hadd
  · cases hadd
    exact ⟨rfl, rfl⟩
  · rcases Option.map_eq_some_iff.1 hadd with ⟨⟨node, pool⟩, hdo, hsys'⟩
    have hpool := ucThreadpoolAddToVoidTaskDo_shutdown hdo
    cases node with
    | none =>
        cases hsys'
        exact ⟨rfl, hpool⟩
    | some node =>
        cases hsys'
        have hwake := sameClosing_wakeUp ((({ sys with pool := pool }).setCall c
          CallPc.activate).noteQueued node c) wake
        exact ⟨hwake.1, hwake.2.trans hpool⟩

theorem workLoop_sameClosing {w : Nat} {wake : Option Waiter} {sys' : System F X}
    (hwork : sys.workLoop w wake = some sys') : SameClosing sys sys' := by
  simp only [workLoop] at hwork
  split at hwork
  · cases hwork
    exact ⟨rfl, rfl⟩
  · split at hwork
    · cases hwork
      exact ⟨rfl, rfl⟩
    · rcases Option.map_eq_some_iff.1 hwork with ⟨⟨node, pool⟩, htake, hsys'⟩
      have hpool := takeTask_shutdown htake
      cases hsys'
      have hwake := sameClosing_wakeUp ((({ sys with pool := pool }).setWorker w
        (WorkerPc.holding node)).noteStarted node) wake
      exact ⟨hwake.1, hwake.2.trans hpool⟩

/-- No section of a producer or a worker closes the pool or opens it again. -/
theorem exec_sameClosing {e : Event F X} {sys' : System F X} (hopen : e.closing = false)
    (hexec : sys.exec e = some sys') : SameClosing sys sys' := by
  cases e with
  | call func arg forcetoHead =>
      cases hexec
      exact ⟨rfl, rfl⟩
  | enter c malloc wake =>
      -- a call that finds the pool closed returns; any other goes on to the loop
      rcases Option.bind_eq_some_iff.1 hexec with ⟨call, _, hrest⟩
      split at hrest
      · cases hrest
        exact ⟨rfl, rfl⟩
      · exact addLoop_sameClosing hrest
  | resume c malloc wake =>
      rcases Option.bind_eq_some_iff.1 hexec with ⟨call, _, hrest⟩
      exact addLoop_sameClosing hrest
  | activate c malloc create =>
      cases hexec
      refine ⟨rfl, ?_⟩
      show (ucThreadpoolActivtyTryDo malloc create sys.workers.length sys.pool).2.2.shutdown = _
      simp only [ucThreadpoolActivtyTryDo]
      split_ifs <;> rfl
  | setTaskMax max wake =>
      cases hexec
      exact sameClosing_wakeUp { sys with pool := { sys.pool with listTaskMax := max } } wake
  | work w wake => exact workLoop_sameClosing hexec
  | begin w =>
      rcases begin_cases hexec with ⟨node, _, _, ⟨func, _, rfl⟩ | ⟨_, rfl⟩⟩
      · exact ⟨rfl, rfl⟩
      · exact ⟨rfl, rfl⟩
  | finish w =>
      rcases finish_cases hexec with ⟨node, _, rfl⟩
      exact ⟨rfl, rfl⟩
  | recycle w =>
      rcases recycle_cases hexec with ⟨node, links, _, _, _, rfl⟩
      exact ⟨rfl, rfl⟩
  | spurious waiter =>
      cases hexec
      exact sameClosing_wakeUp _ _
  | close => cases hopen
  | closeNext => cases hopen
  | closeJoin => cases hopen
  | closeFree fuel => cases hopen

/-- A step of `uc_threadpool_close` leaves the closing thread somewhere in its function. -/
theorem closer_of_closing {e : Event F X} {sys' : System F X} (hclosing : e.closing = true)
    (hexec : sys.exec e = some sys') : sys'.closer ≠ CloserPc.notCalled := by
  cases e with
  | close =>
      cases hexec
      simp
  | closeNext =>
      simp only [exec] at hexec
      split at hexec <;> cases hexec <;> simp
  | closeJoin =>
      cases hexec
      simp
  | closeFree fuel =>
      rcases Option.bind_eq_some_iff.1 hexec with ⟨links, _, hrest⟩
      rcases Option.map_eq_some_iff.1 hrest with ⟨links', _, hsys'⟩
      cases hsys'
      simp
  | _ => cases hclosing

/-- Only `uc_threadpool_close` sets the flag, as its first step, and nothing clears it. -/
theorem exec_closing {e : Event F X} {sys' : System F X} (henabled : sys.enabled e = true)
    (hexec : sys.exec e = some sys')
    (hflag : sys.pool.shutdown = true ↔ sys.closer ≠ CloserPc.notCalled) :
    sys'.pool.shutdown = true ↔ sys'.closer ≠ CloserPc.notCalled := by
  cases hopen : e.closing with
  | false =>
      have hsame := exec_sameClosing hopen hexec
      rw [hsame.1, hsame.2]
      exact hflag
  | true =>
      cases e with
      | close =>
          cases hexec
          simp [wakeAll]
      | closeNext =>
          simp only [enabled, Bool.and_eq_true, decide_eq_true_eq] at henabled
          -- past its first step the closing thread has set the flag
          have hset : sys.pool.shutdown = true := hflag.2 (by simp [henabled.2])
          simp only [exec] at hexec
          split at hexec <;> cases hexec <;> simp [hset]
      | closeJoin =>
          cases hexec
          have hset : sys.pool.shutdown = true := by
            refine hflag.2 ?_
            intro hnot
            simp [enabled, hnot] at henabled
          simp [hset]
      | closeFree fuel =>
          simp only [enabled, Bool.and_eq_true, decide_eq_true_eq] at henabled
          have hset : sys.pool.shutdown = true := hflag.2 (by simp [henabled.2])
          rcases Option.bind_eq_some_iff.1 hexec with ⟨links, _, hrest⟩
          rcases Option.map_eq_some_iff.1 hrest with ⟨links', _, hsys'⟩
          cases hsys'
          simp [hset]
      | _ => cases hopen

/-! ## From creation on -/

theorem emptyLinks_rings : RingFamily emptyLinks (fun _ => ([] : List TaskPtr)) where
  ring := fun _ => List.isChain_cons_cons.2 ⟨⟨rfl, rfl⟩, List.isChain_singleton _⟩
  nodup := fun _ => List.nodup_nil
  disjoint := fun _ _ _ ha => absurd ha List.not_mem_nil
  live_head := fun _ => rfl
  live_item := fun _ _ ha => absurd ha List.not_mem_nil

theorem ofPool_inv {start : Nat → Bool} {thrNumMin thrNumMax : UInt32} {pool : UcThreadpool F X}
    (hcreate : ucThreadpoolCreate start thrNumMin thrNumMax = some pool) :
    Inv (ofPool pool) fun _ => [] := by
  have hbase : Conserved pool [] 0 (ofPool pool).history (fun _ => []) := by
    rw [ucThreadpoolCreate] at hcreate
    split_ifs at hcreate
    cases hcreate
    exact
      { nodes := ⟨emptyLinks_rings, rfl⟩
        hands_nodup := Multiset.nodup_zero
        hands_unlinked := fun n hn => absurd hn (Multiset.notMem_zero n)
        live_iff := by simp [emptyLinks]
        balanced := ⟨rfl, rfl, List.nodup_nil, le_refl _⟩
        in_order := fun _ => rfl
        accepted_iff := by simp [ofPool, Accepted]
        content := by simp
        invoked_own := by simp [ofPool] }
  -- the first workers enter one by one, each with empty hands
  have hworkers : ∀ pids : List Nat, Conserved pool []
      ((pids.map fun _ => WorkerPc.ready : List WorkerPc) : Multiset WorkerPc)
      (ofPool pool).history (fun _ => []) := by
    intro pids
    induction pids with
    | nil => exact hbase
    | cons pid pids ih => exact ih.add_worker WorkerPc.ready rfl
  exact hworkers pool.listPid

end System

end Threadpool
end UtilsC
