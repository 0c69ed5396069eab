import Mathlib.Data.Multiset.Filter
import UtilsC.Lib.WorkQueue
import UtilsC.Threadpool.System

/-!
# Where the tasks and the nodes of a pool are

Every section of a running pool keeps two accounts.

* The nodes: a live node is in the task list, in the free list or in the hands of one worker, and
  in one of them only (`Conserved.hands_nodup`, `hands_unlinked`, `live_iff`).
* The tasks: read through `owner`, the queue and the workers' hands are a `WorkQueue`, and each
  section is one entry in its books or none.

`exec_spec` is the step lemma: an enabled section executes, and keeps both.
-/

namespace UtilsC
namespace Threadpool

open Lib ListHead

variable {F X : Type}

/-- The node in a worker's hands. -/
def WorkerPc.hand : WorkerPc → Option TaskPtr
  | WorkerPc.holding node => some node
  | WorkerPc.calling node => some node
  | WorkerPc.called node => some node
  | _ => none

/-- The node whose task the worker is about to begin. -/
def WorkerPc.held : WorkerPc → Option TaskPtr
  | WorkerPc.holding node => some node
  | _ => none

def WorkerPc.executing : WorkerPc → Option TaskPtr
  | WorkerPc.calling node => some node
  | _ => none

/-- The call has queued its task. -/
def CallPc.accepted : CallPc → Bool
  | CallPc.activate => true
  | CallPc.returned ret => ret = 0
  | _ => false

def Accepted (calls : List (Call F X)) (c : Nat) : Prop :=
  ∃ call, calls[c]? = some call ∧ call.pc.accepted = true

/-- The books of the pool: its tasks under the calls that added them. -/
def books (workers : Multiset WorkerPc) (history : History F X)
    (lists : PoolList → List TaskPtr) : WorkQueue Nat where
  accepted := history.enqueued
  queued := (lists PoolList.task).map history.owner
  held := (workers.filterMap WorkerPc.held).map history.owner
  executing := (workers.filterMap WorkerPc.executing).map history.owner
  done := history.finished
  started := history.started
  invoked := history.invoked.map Invocation.call

structure Conserved (pool : UcThreadpool F X) (calls : List (Call F X))
    (workers : Multiset WorkerPc) (history : History F X) (lists : PoolList → List TaskPtr) :
    Prop where
  nodes : Nodes pool lists
  hands_nodup : (workers.filterMap WorkerPc.hand).Nodup
  hands_unlinked : ∀ n ∈ workers.filterMap WorkerPc.hand, Unlinked lists n
  live_iff : ∀ n, pool.links.live (Loc.item n) = true ↔
    (∃ list, n ∈ lists list) ∨ n ∈ workers.filterMap WorkerPc.hand
  balanced : (books workers history lists).Balanced
  in_order : (∀ call ∈ calls, call.forcetoHead = false) → (books workers history lists).InOrder
  accepted_iff : ∀ c, c ∈ history.enqueued ↔ Accepted calls c
  content : ∀ n, n ∈ lists PoolList.task ∨ n ∈ workers.filterMap WorkerPc.held →
    ∃ call, calls[history.owner n]? = some call ∧ pool.task n = ⟨call.func, call.arg⟩
  invoked_own : ∀ i ∈ history.invoked,
    ∃ call, calls[i.call]? = some call ∧ call.func = some i.func ∧ call.arg = i.arg

namespace Conserved

variable {pool pool' : UcThreadpool F X} {calls calls' : List (Call F X)}
  {workers rest : Multiset WorkerPc} {history : History F X}
  {lists lists' : PoolList → List TaskPtr} {node : TaskPtr} {old new : WorkerPc}

/-! ## Calls -/

/-- Calls go on without changing their arguments. -/
def SameCalls (calls calls' : List (Call F X)) : Prop :=
  ∀ (c : Nat) (call : Call F X), calls[c]? = some call →
    ∃ pc : CallPc, calls'[c]? = some { call with pc := pc }

theorem SameCalls.no_head (hsame : SameCalls calls calls')
    (hhead : ∀ call ∈ calls', call.forcetoHead = false) :
    ∀ call ∈ calls, call.forcetoHead = false := by
  intro call hcall
  rcases List.mem_iff_getElem?.1 hcall with ⟨c, hc⟩
  rcases hsame c call hc with ⟨pc, hc'⟩
  exact hhead { call with pc := pc } (List.mem_of_getElem? hc')

theorem SameCalls.lookup (hsame : SameCalls calls calls') {c : Nat} {P : Option F → Option X → Prop}
    (hcall : ∃ call, calls[c]? = some call ∧ P call.func call.arg) :
    ∃ call, calls'[c]? = some call ∧ P call.func call.arg := by
  rcases hcall with ⟨call, hc, hP⟩
  rcases hsame c call hc with ⟨pc, hc'⟩
  exact ⟨_, hc', hP⟩

theorem sameCalls_append (calls : List (Call F X)) (call : Call F X) :
    SameCalls calls (calls ++ [call]) := by
  intro c other hc
  have hlt : c < calls.length := (List.getElem?_eq_some_iff.1 hc).1
  exact ⟨other.pc, by rw [List.getElem?_append_left hlt]; exact hc⟩

theorem sameCalls_modify (calls : List (Call F X)) (c : Nat) (pc : CallPc) :
    SameCalls calls (calls.modify c fun call => { call with pc := pc }) := by
  intro c' call hc
  by_cases hcc : c = c'
  · subst hcc
    exact ⟨pc, by simp [hc]⟩
  · exact ⟨call.pc, by simp [hc, hcc]⟩

/-- Any change of the calls that no task is accepted by. -/
theorem of_calls (hI : Conserved pool calls workers history lists)
    (hsame : SameCalls calls calls') (haccepted : ∀ c, Accepted calls' c ↔ Accepted calls c) :
    Conserved pool calls' workers history lists :=
  { hI with
    in_order := fun hhead => hI.in_order (hsame.no_head hhead)
    accepted_iff := fun c => (hI.accepted_iff c).trans (haccepted c).symm
    content := fun n hn => hsame.lookup (P := fun func arg => pool.task n = ⟨func, arg⟩)
      (hI.content n hn)
    invoked_own := fun i hi => hsame.lookup
      (P := fun func arg => func = some i.func ∧ arg = i.arg) (hI.invoked_own i hi) }

theorem accepted_modify {c : Nat} {pc : CallPc} (c' : Nat)
    (hc : calls[c]?.isSome = true) :
    Accepted (calls.modify c fun call => { call with pc := pc }) c' ↔
      (c' = c ∧ pc.accepted = true) ∨ (c' ≠ c ∧ Accepted calls c') := by
  rcases Option.isSome_iff_exists.1 hc with ⟨call, hcall⟩
  by_cases hcc : c' = c
  · subst hcc
    simp [Accepted, hcall]
  · have hcc' : c ≠ c' := fun h => hcc h.symm
    simp [Accepted, hcc, hcc']

/-- A call that has queued nothing goes on to a place where it still has queued nothing. -/
theorem set_call (hI : Conserved pool calls workers history lists) {c : Nat} {call : Call F X}
    {pc : CallPc} (hcall : calls[c]? = some call) (hpc : pc.accepted = call.pc.accepted) :
    Conserved pool (calls.modify c fun call => { call with pc := pc }) workers history lists := by
  refine hI.of_calls (sameCalls_modify calls c pc) ?_
  intro c'
  rw [accepted_modify c' (by simp [hcall])]
  by_cases hcc : c' = c
  · subst hcc
    simp [Accepted, hcall, hpc]
  · simp [hcc]

theorem add_call (hI : Conserved pool calls workers history lists) (func : Option F)
    (arg : Option X) (forcetoHead : Bool) :
    Conserved pool (calls ++ [⟨func, arg, forcetoHead, CallPc.entry⟩]) workers history lists := by
  refine hI.of_calls (sameCalls_append calls _) ?_
  intro c
  by_cases hlt : c < calls.length
  · simp [Accepted, List.getElem?_append_left hlt]
  · have hle : calls.length ≤ c := Nat.le_of_not_lt hlt
    have hnone : calls[c]? = none := List.getElem?_eq_none hle
    constructor
    · rintro ⟨call, hc, hacc⟩
      have hmem : call = ⟨func, arg, forcetoHead, CallPc.entry⟩ := by
        rw [List.getElem?_append_right hle] at hc
        exact List.mem_singleton.1 (List.mem_of_getElem? hc)
      rw [hmem] at hacc
      cases hacc
    · rintro ⟨call, hc, _⟩
      rw [hnone] at hc
      cases hc

/-! ## Workers -/

theorem held_hand {pc : WorkerPc} {n : TaskPtr} (h : pc.held = some n) : pc.hand = some n := by
  cases pc <;> simp_all [WorkerPc.held, WorkerPc.hand]

theorem executing_hand {pc : WorkerPc} {n : TaskPtr} (h : pc.executing = some n) :
    pc.hand = some n := by
  cases pc <;> simp_all [WorkerPc.executing, WorkerPc.hand]

theorem held_none {pc : WorkerPc} (h : pc.hand = none) : pc.held = none := by
  cases pc <;> simp_all [WorkerPc.held, WorkerPc.hand]

theorem executing_none {pc : WorkerPc} (h : pc.hand = none) : pc.executing = none := by
  cases pc <;> simp_all [WorkerPc.executing, WorkerPc.hand]

theorem mem_hands_of_held {n : TaskPtr} (hn : n ∈ workers.filterMap WorkerPc.held) :
    n ∈ workers.filterMap WorkerPc.hand := by
  rcases (Multiset.mem_filterMap _ _).1 hn with ⟨pc, hpc, hheld⟩
  exact (Multiset.mem_filterMap _ _).2 ⟨pc, hpc, held_hand hheld⟩

theorem mem_hands_of_executing {n : TaskPtr} (hn : n ∈ workers.filterMap WorkerPc.executing) :
    n ∈ workers.filterMap WorkerPc.hand := by
  rcases (Multiset.mem_filterMap _ _).1 hn with ⟨pc, hpc, hexec⟩
  exact (Multiset.mem_filterMap _ _).2 ⟨pc, hpc, executing_hand hexec⟩

/-- Only what the workers have in their hands matters. -/
theorem of_hands (hI : Conserved pool calls workers history lists) {workers' : Multiset WorkerPc}
    (hhand : workers'.filterMap WorkerPc.hand = workers.filterMap WorkerPc.hand)
    (hheld : workers'.filterMap WorkerPc.held = workers.filterMap WorkerPc.held)
    (hexec : workers'.filterMap WorkerPc.executing = workers.filterMap WorkerPc.executing) :
    Conserved pool calls workers' history lists := by
  have hbooks : books workers' history lists = books workers history lists := by
    simp only [books, hheld, hexec]
  exact
    { nodes := hI.nodes
      hands_nodup := hhand ▸ hI.hands_nodup
      hands_unlinked := hhand ▸ hI.hands_unlinked
      live_iff := hhand ▸ hI.live_iff
      balanced := hbooks ▸ hI.balanced
      in_order := hbooks ▸ hI.in_order
      accepted_iff := hI.accepted_iff
      content := hheld ▸ hI.content
      invoked_own := hI.invoked_own }

theorem add_worker (hI : Conserved pool calls workers history lists) (pc : WorkerPc)
    (hpc : pc.hand = none) : Conserved pool calls (pc ::ₘ workers) history lists :=
  hI.of_hands (Multiset.filterMap_cons_none _ _ hpc)
    (Multiset.filterMap_cons_none _ _ (held_none hpc))
    (Multiset.filterMap_cons_none _ _ (executing_none hpc))

theorem drop_worker (hI : Conserved pool calls (old ::ₘ rest) history lists)
    (hold : old.hand = none) : Conserved pool calls rest history lists :=
  hI.of_hands (Multiset.filterMap_cons_none _ _ hold).symm
    (Multiset.filterMap_cons_none _ _ (held_none hold)).symm
    (Multiset.filterMap_cons_none _ _ (executing_none hold)).symm

/-- A worker with empty hands goes on with empty hands. -/
theorem set_idle (hI : Conserved pool calls (old ::ₘ rest) history lists) (hold : old.hand = none)
    (hnew : new.hand = none) : Conserved pool calls (new ::ₘ rest) history lists :=
  (hI.drop_worker hold).add_worker new hnew

/-- Fields of the pool that hold no nodes. -/
theorem of_pool (hI : Conserved pool calls workers history lists)
    (hlinks : pool'.links = pool.links) (htask : pool'.task = pool.task)
    (httl : pool'.listTaskTtl = pool.listTaskTtl) :
    Conserved pool' calls workers history lists :=
  { hI with
    nodes := ⟨hlinks ▸ hI.nodes.rings, httl ▸ hI.nodes.ttl⟩
    live_iff := hlinks ▸ hI.live_iff
    content := htask ▸ hI.content }

/-! ## Enqueuing -/

section Enqueue

variable {c : Nat} {call : Call F X}

/-- The node of a new task is in no worker's hands and holds no queued task. -/
theorem fresh_node (hI : Conserved pool calls workers history lists)
    (hsource : node ∈ lists PoolList.free ∨ pool.links.live (Loc.item node) = false) :
    node ∉ workers.filterMap WorkerPc.hand ∧ node ∉ lists PoolList.task := by
  rcases hsource with hfree | hdead
  · refine ⟨fun hhand => hI.hands_unlinked node hhand _ hfree, fun htask => ?_⟩
    cases hI.nodes.rings.disjoint _ _ node hfree htask
  · have hnot := (hI.live_iff node).not.1 (by simp [hdead])
    exact ⟨fun hhand => hnot (Or.inr hhand), fun htask => hnot (Or.inl ⟨_, htask⟩)⟩

theorem map_update_owner {owner : TaskPtr → Nat} {s : Multiset TaskPtr} (hnode : node ∉ s) :
    s.map (Function.update owner node c) = s.map owner := by
  refine Multiset.map_congr rfl ?_
  intro n hn
  exact Function.update_of_ne (fun h : n = node => hnode (h ▸ hn)) _ _

theorem mem_task_iff (hlink : TaskLinked call.func call.arg call.forcetoHead node pool lists pool'
    lists') (n : TaskPtr) :
    n ∈ lists' PoolList.task ↔ n = node ∨ n ∈ lists PoolList.task := by
  rw [hlink.task_list]
  cases call.forcetoHead with
  | true => simp
  | false =>
      simp only [Bool.false_eq_true, if_false, List.mem_append, List.mem_singleton]
      exact or_comm

theorem mem_free_iff (hI : Conserved pool calls workers history lists)
    (hlink : TaskLinked call.func call.arg call.forcetoHead node pool lists pool' lists')
    (n : TaskPtr) : n ∈ lists' PoolList.free ↔ n ≠ node ∧ n ∈ lists PoolList.free := by
  rw [hlink.free_list]
  exact (hI.nodes.rings.nodup _).mem_erase_iff

theorem enqueue_books (hI : Conserved pool calls workers history lists)
    (hlink : TaskLinked call.func call.arg call.forcetoHead node pool lists pool' lists') :
    books workers
        { history with
          owner := Function.update history.owner node c
          enqueued := history.enqueued ++ [c] } lists' =
      (books workers history lists).accept call.forcetoHead c := by
  have hfresh := hI.fresh_node hlink.source
  have hheld : node ∉ workers.filterMap WorkerPc.held :=
    fun h => hfresh.1 (mem_hands_of_held h)
  have hexec : node ∉ workers.filterMap WorkerPc.executing :=
    fun h => hfresh.1 (mem_hands_of_executing h)
  have hqueued : (lists PoolList.task).map (Function.update history.owner node c) =
      (lists PoolList.task).map history.owner := by
    refine List.map_congr_left ?_
    intro n hn
    exact Function.update_of_ne (fun h : n = node => hfresh.2 (h ▸ hn)) _ _
  simp only [books, WorkQueue.accept, map_update_owner hheld, map_update_owner hexec,
    hlink.task_list]
  cases call.forcetoHead <;> simp [hqueued]

/-- The section that queues a task. -/
theorem enqueue (hI : Conserved pool calls workers history lists)
    (hlink : TaskLinked call.func call.arg call.forcetoHead node pool lists pool' lists')
    (hcall : calls[c]? = some call) (hpc : call.pc.accepted = false) :
    Conserved pool' (calls.modify c fun call => { call with pc := CallPc.activate }) workers
      { history with
        owner := Function.update history.owner node c
        enqueued := history.enqueued ++ [c] } lists' := by
  have hsame := sameCalls_modify calls c CallPc.activate
  have hfresh := hI.fresh_node hlink.source
  have hnew : c ∉ history.enqueued := by
    intro hmem
    rcases (hI.accepted_iff c).1 hmem with ⟨call', hc, hacc⟩
    rw [hcall] at hc
    cases hc
    rw [hpc] at hacc
    cases hacc
  have hstep : WorkQueue.Step call.forcetoHead (books workers history lists)
      ((books workers history lists).accept call.forcetoHead c) := WorkQueue.Step.accept _ hnew
  have hmem : ∀ n, (∃ list, n ∈ lists' list) ↔ n = node ∨ ∃ list, n ∈ lists list := by
    intro n
    constructor
    · rintro ⟨list, hn⟩
      cases list with
      | task =>
          rcases (mem_task_iff hlink n).1 hn with h | h
          · exact Or.inl h
          · exact Or.inr ⟨_, h⟩
      | free => exact Or.inr ⟨_, ((hI.mem_free_iff hlink n).1 hn).2⟩
    · intro h
      by_cases hn : n = node
      · exact ⟨PoolList.task, (mem_task_iff hlink n).2 (Or.inl hn)⟩
      · rcases h with h | ⟨list, h⟩
        · exact absurd h hn
        · cases list with
          | task => exact ⟨PoolList.task, (mem_task_iff hlink n).2 (Or.inr h)⟩
          | free => exact ⟨PoolList.free, (hI.mem_free_iff hlink n).2 ⟨hn, h⟩⟩
  refine
    { nodes := hlink.nodes
      hands_nodup := hI.hands_nodup
      hands_unlinked := ?_
      live_iff := ?_
      balanced := ?_
      in_order := ?_
      accepted_iff := ?_
      content := ?_
      invoked_own := ?_ }
  · intro n hn list hlist
    rcases (hmem n).1 ⟨list, hlist⟩ with h | ⟨list', h⟩
    · exact hfresh.1 (h ▸ hn)
    · exact hI.hands_unlinked n hn list' h
  · intro n
    rw [hlink.live_iff n, hI.live_iff n, hmem n, or_right_comm, or_comm (a := n = node)]
  · rw [hI.enqueue_books hlink]
    exact hstep.balanced hI.balanced
  · intro hhead
    have hcalls := hsame.no_head hhead
    have hback : call.forcetoHead = false := hcalls call (List.mem_of_getElem? hcall)
    rw [hI.enqueue_books hlink, hback]
    rw [hback] at hstep
    exact hstep.in_order (hI.in_order hcalls)
  · intro c'
    rw [accepted_modify c' (by simp [hcall]), List.mem_append, hI.accepted_iff c',
      List.mem_singleton]
    by_cases hcc : c' = c
    · simp [hcc, CallPc.accepted]
    · simp [hcc]
  · intro n hn
    have hframe : pool'.task = Function.update pool.task node ⟨call.func, call.arg⟩ := by
      rw [hlink.frame]
    rw [hframe]
    by_cases hnode : n = node
    · subst hnode
      simp only [Function.update_self]
      exact hsame.lookup (P := fun func arg =>
        (⟨call.func, call.arg⟩ : UcThreadpoolTask F X) = ⟨func, arg⟩) ⟨call, hcall, rfl⟩
    · simp only [Function.update_of_ne hnode]
      have hn' : n ∈ lists PoolList.task ∨ n ∈ workers.filterMap WorkerPc.held := by
        rcases hn with h | h
        · exact Or.inl (((mem_task_iff hlink n).1 h).resolve_left hnode)
        · exact Or.inr h
      exact hsame.lookup (P := fun func arg => pool.task n = ⟨func, arg⟩) (hI.content n hn')
  · intro i hi
    exact hsame.lookup (P := fun func arg => func = some i.func ∧ arg = i.arg)
      (hI.invoked_own i hi)

end Enqueue

/-! ## The sections of a worker -/

theorem hands_cons {n : TaskPtr} (hhand : new.hand = some n) :
    (new ::ₘ rest).filterMap WorkerPc.hand = n ::ₘ rest.filterMap WorkerPc.hand :=
  Multiset.filterMap_cons_some _ _ _ hhand

/-- The dequeue section, of a worker with empty hands. -/
theorem dequeue (hI : Conserved pool calls (old ::ₘ rest) history lists) (hold : old.hand = none)
    {queue : List TaskPtr} (hfirst : lists PoolList.task = node :: queue)
    (hnodes : Nodes pool' fun list => (lists list).erase node)
    (hlive : pool'.links.live = pool.links.live) (htask : pool'.task = pool.task) :
    Conserved pool' calls (WorkerPc.holding node ::ₘ rest)
      { history with started := history.started ++ [history.owner node] }
      (fun list => (lists list).erase node) := by
  have hI' := hI.drop_worker hold
  have hmem : node ∈ lists PoolList.task := by simp [hfirst]
  have hqueue : (lists PoolList.task).erase node = queue := by simp [hfirst]
  have hempty : node ∉ rest.filterMap WorkerPc.hand :=
    fun h => hI'.hands_unlinked node h _ hmem
  have hhand : (WorkerPc.holding node ::ₘ rest).filterMap WorkerPc.hand =
      node ::ₘ rest.filterMap WorkerPc.hand := hands_cons rfl
  have hheld : (WorkerPc.holding node ::ₘ rest).filterMap WorkerPc.held =
      node ::ₘ rest.filterMap WorkerPc.held := Multiset.filterMap_cons_some _ _ _ rfl
  have hexec : (WorkerPc.holding node ::ₘ rest).filterMap WorkerPc.executing =
      rest.filterMap WorkerPc.executing := Multiset.filterMap_cons_none _ _ rfl
  have hbooks : books (WorkerPc.holding node ::ₘ rest)
      { history with started := history.started ++ [history.owner node] }
      (fun list => (lists list).erase node) =
      (books rest history lists).start (history.owner node) (queue.map history.owner) := by
    simp only [books, WorkQueue.start, hheld, hexec, hqueue, Multiset.map_cons]
  have hstep : WorkQueue.Step false (books rest history lists)
      ((books rest history lists).start (history.owner node) (queue.map history.owner)) :=
    WorkQueue.Step.start (by simp [books, hfirst])
  refine
    { nodes := hnodes
      hands_nodup := ?_
      hands_unlinked := ?_
      live_iff := ?_
      balanced := ?_
      in_order := ?_
      accepted_iff := hI'.accepted_iff
      content := ?_
      invoked_own := hI'.invoked_own }
  · rw [hhand]
    exact Multiset.nodup_cons.2 ⟨hempty, hI'.hands_nodup⟩
  · intro n hn list hlist
    rw [hhand] at hn
    rcases Multiset.mem_cons.1 hn with h | h
    · subst h
      exact hI'.nodes.rings.not_mem_erase list hlist
    · exact hI'.hands_unlinked n h list (List.mem_of_mem_erase hlist)
  · intro n
    rw [hlive, hI'.live_iff n, hhand, Multiset.mem_cons]
    constructor
    · rintro (⟨list, h⟩ | h)
      · by_cases hn : n = node
        · exact Or.inr (Or.inl hn)
        · exact Or.inl ⟨list, (List.mem_erase_of_ne hn).2 h⟩
      · exact Or.inr (Or.inr h)
    · rintro (⟨list, h⟩ | h | h)
      · exact Or.inl ⟨list, List.mem_of_mem_erase h⟩
      · exact Or.inl ⟨_, h ▸ hmem⟩
      · exact Or.inr h
  · rw [hbooks]
    exact hstep.balanced hI'.balanced
  · intro hhead
    rw [hbooks]
    exact hstep.in_order (hI'.in_order hhead)
  · intro n hn
    rw [htask]
    refine hI'.content n ?_
    rw [hheld, Multiset.mem_cons] at hn
    rcases hn with h | h | h
    · exact Or.inl (List.mem_of_mem_erase h)
    · exact Or.inl (h ▸ hmem)
    · exact Or.inr h

/-- A worker that keeps its node but is one entry further in the books. -/
theorem same_hand (hI : Conserved pool calls (old ::ₘ rest) history lists)
    {history' : History F X} (hhand : old.hand = some node) (hhand' : new.hand = some node)
    (hnew : new.held = none) (howner : history'.owner = history.owner)
    (henqueued : history'.enqueued = history.enqueued)
    (hstep : WorkQueue.Step false (books (old ::ₘ rest) history lists)
      (books (new ::ₘ rest) history' lists))
    (hinvoked : ∀ i ∈ history'.invoked,
      ∃ call, calls[i.call]? = some call ∧ call.func = some i.func ∧ call.arg = i.arg) :
    Conserved pool calls (new ::ₘ rest) history' lists := by
  have hhands : (new ::ₘ rest).filterMap WorkerPc.hand =
      (old ::ₘ rest).filterMap WorkerPc.hand := by
    rw [hands_cons hhand, hands_cons hhand']
  refine
    { nodes := hI.nodes
      hands_nodup := hhands ▸ hI.hands_nodup
      hands_unlinked := hhands ▸ hI.hands_unlinked
      live_iff := hhands ▸ hI.live_iff
      balanced := hstep.balanced hI.balanced
      in_order := fun hhead => hstep.in_order (hI.in_order hhead)
      accepted_iff := henqueued ▸ hI.accepted_iff
      content := ?_
      invoked_own := hinvoked }
  intro n hn
  rw [howner]
  refine hI.content n ?_
  rcases hn with h | h
  · exact Or.inl h
  · rw [Multiset.filterMap_cons_none _ _ hnew] at h
    rcases (Multiset.mem_filterMap _ _).1 h with ⟨pc, hpc, hheld⟩
    exact Or.inr ((Multiset.mem_filterMap _ _).2 ⟨pc, Multiset.mem_cons_of_mem hpc, hheld⟩)

theorem held_books (node : TaskPtr) (rest : Multiset WorkerPc) (history : History F X)
    (lists : PoolList → List TaskPtr) :
    (books (WorkerPc.holding node ::ₘ rest) history lists).held =
      history.owner node ::ₘ (rest.filterMap WorkerPc.held).map history.owner := by
  simp only [books, Multiset.filterMap_cons_some WorkerPc.held _ _ (rfl : (WorkerPc.holding
    node).held = some node), Multiset.map_cons]

/-- The task's function is entered, with what the node holds. -/
theorem invoke (hI : Conserved pool calls (WorkerPc.holding node ::ₘ rest) history lists)
    {func : F} (hfunc : (pool.task node).func = some func) :
    Conserved pool calls (WorkerPc.calling node ::ₘ rest)
      { history with
        invoked := history.invoked ++ [⟨history.owner node, func, (pool.task node).arg⟩] }
      lists := by
  have hstep : WorkQueue.Step false (books (WorkerPc.holding node ::ₘ rest) history lists)
      (books (WorkerPc.calling node ::ₘ rest)
        { history with
          invoked := history.invoked ++ [⟨history.owner node, func, (pool.task node).arg⟩] }
        lists) := by
    have hinvoke := WorkQueue.Step.invoke (held_books node rest history lists)
    have hentry : (books (WorkerPc.holding node ::ₘ rest) history lists).invoke
        (history.owner node) ((rest.filterMap WorkerPc.held).map history.owner) =
        books (WorkerPc.calling node ::ₘ rest)
          { history with
            invoked := history.invoked ++ [⟨history.owner node, func, (pool.task node).arg⟩] }
          lists := by
      simp [books, WorkQueue.invoke, Multiset.filterMap_cons, WorkerPc.held, WorkerPc.executing]
    exact hentry ▸ hinvoke
  refine hI.same_hand rfl rfl rfl rfl rfl hstep ?_
  intro i hi
  rcases List.mem_append.1 hi with h | h
  · exact hI.invoked_own i h
  · have hmem : node ∈ (WorkerPc.holding node ::ₘ rest).filterMap WorkerPc.held := by
      simp [WorkerPc.held]
    rcases hI.content node (Or.inr hmem) with ⟨call, hc, htask⟩
    rw [List.mem_singleton.1 h]
    refine ⟨call, hc, ?_, ?_⟩
    · rw [← hfunc, htask]
    · rw [htask]

/-- A task without a function. -/
theorem skip (hI : Conserved pool calls (WorkerPc.holding node ::ₘ rest) history lists) :
    Conserved pool calls (WorkerPc.called node ::ₘ rest)
      { history with finished := history.finished ++ [history.owner node] } lists := by
  have hskip := WorkQueue.Step.skip (held_books node rest history lists)
  have hentry : (books (WorkerPc.holding node ::ₘ rest) history lists).skip
      (history.owner node) ((rest.filterMap WorkerPc.held).map history.owner) =
      books (WorkerPc.called node ::ₘ rest)
        { history with finished := history.finished ++ [history.owner node] } lists := by
    simp [books, WorkQueue.skip, Multiset.filterMap_cons, WorkerPc.held, WorkerPc.executing]
  exact hI.same_hand rfl rfl rfl rfl rfl (hentry ▸ hskip) hI.invoked_own

/-- The task's function returns. -/
theorem complete (hI : Conserved pool calls (WorkerPc.calling node ::ₘ rest) history lists) :
    Conserved pool calls (WorkerPc.called node ::ₘ rest)
      { history with finished := history.finished ++ [history.owner node] } lists := by
  have hexec : (books (WorkerPc.calling node ::ₘ rest) history lists).executing =
      history.owner node ::ₘ (rest.filterMap WorkerPc.executing).map history.owner := by
    simp [books, Multiset.filterMap_cons, WorkerPc.executing]
  have hcomplete := WorkQueue.Step.complete hexec
  have hentry : (books (WorkerPc.calling node ::ₘ rest) history lists).complete
      (history.owner node) ((rest.filterMap WorkerPc.executing).map history.owner) =
      books (WorkerPc.called node ::ₘ rest)
        { history with finished := history.finished ++ [history.owner node] } lists := by
    simp [books, WorkQueue.complete, Multiset.filterMap_cons, WorkerPc.held, WorkerPc.executing]
  exact hI.same_hand rfl rfl rfl rfl rfl (hentry ▸ hcomplete) hI.invoked_own

/-- The section that puts the node on the free list. -/
theorem recycle (hI : Conserved pool calls (WorkerPc.called node ::ₘ rest) history lists)
    (hnodes : Nodes pool' (Function.update lists PoolList.free (lists PoolList.free ++ [node])))
    (hlive : pool'.links.live = pool.links.live)
    (htask : ∀ n, n ≠ node → pool'.task n = pool.task n) :
    Conserved pool' calls (WorkerPc.ready ::ₘ rest) history
      (Function.update lists PoolList.free (lists PoolList.free ++ [node])) := by
  have hhands : (WorkerPc.called node ::ₘ rest).filterMap WorkerPc.hand =
      node ::ₘ rest.filterMap WorkerPc.hand := hands_cons rfl
  have hnd := hI.hands_nodup
  rw [hhands, Multiset.nodup_cons] at hnd
  have hunlinked : Unlinked lists node := by
    refine hI.hands_unlinked node ?_
    rw [hhands]
    exact Multiset.mem_cons_self node _
  have hempty : (WorkerPc.ready ::ₘ rest).filterMap WorkerPc.hand =
      rest.filterMap WorkerPc.hand := Multiset.filterMap_cons_none _ _ rfl
  have hother : PoolList.task ≠ PoolList.free := by decide
  have htasklist : Function.update lists PoolList.free (lists PoolList.free ++ [node])
      PoolList.task = lists PoolList.task := Function.update_of_ne hother _ _
  have hfreelist : Function.update lists PoolList.free (lists PoolList.free ++ [node])
      PoolList.free = lists PoolList.free ++ [node] := Function.update_self _ _ _
  have hbooks : books (WorkerPc.ready ::ₘ rest) history
      (Function.update lists PoolList.free (lists PoolList.free ++ [node])) =
      books (WorkerPc.called node ::ₘ rest) history lists := by
    simp [books, Multiset.filterMap_cons, WorkerPc.held, WorkerPc.executing]
  refine
    { nodes := hnodes
      hands_nodup := hempty ▸ hnd.2
      hands_unlinked := ?_
      live_iff := ?_
      balanced := hbooks ▸ hI.balanced
      in_order := hbooks ▸ hI.in_order
      accepted_iff := hI.accepted_iff
      content := ?_
      invoked_own := hI.invoked_own }
  · intro n hn list hlist
    rw [hempty] at hn
    have hmem : n ∈ (WorkerPc.called node ::ₘ rest).filterMap WorkerPc.hand :=
      hhands ▸ Multiset.mem_cons_of_mem hn
    have hout : Unlinked lists n := hI.hands_unlinked n hmem
    cases list with
    | task => exact hout PoolList.task (htasklist ▸ hlist)
    | free =>
        rw [hfreelist] at hlist
        rcases List.mem_append.1 hlist with h | h
        · exact hout PoolList.free h
        · exact hnd.1 (List.mem_singleton.1 h ▸ hn)
  · intro n
    rw [hlive, hI.live_iff n, hempty, hhands, Multiset.mem_cons]
    constructor
    · rintro (⟨list, h⟩ | h | h)
      · cases list with
        | task => exact Or.inl ⟨PoolList.task, htasklist ▸ h⟩
        | free => exact Or.inl ⟨PoolList.free, hfreelist ▸ List.mem_append_left _ h⟩
      · exact Or.inl ⟨PoolList.free, hfreelist ▸ List.mem_append_right _ (by simp [h])⟩
      · exact Or.inr h
    · rintro (⟨list, h⟩ | h)
      · cases list with
        | task => exact Or.inl ⟨PoolList.task, htasklist ▸ h⟩
        | free =>
            rw [hfreelist] at h
            rcases List.mem_append.1 h with h | h
            · exact Or.inl ⟨PoolList.free, h⟩
            · exact Or.inr (Or.inl (List.mem_singleton.1 h))
      · exact Or.inr (Or.inr h)
  · intro n hn
    rw [htasklist] at hn
    have hn' : n ∈ lists PoolList.task ∨ n ∈ rest.filterMap WorkerPc.held := by
      simpa [Multiset.filterMap_cons, WorkerPc.held] using hn
    -- the recycled node is neither queued nor held by another worker
    have hne : n ≠ node := by
      intro h
      rcases hn' with h' | h'
      · exact hunlinked _ (h ▸ h')
      · exact hnd.1 (h ▸ mem_hands_of_held h')
    rw [htask n hne]
    refine hI.content n ?_
    simpa [Multiset.filterMap_cons, WorkerPc.held] using hn'

end Conserved

end Threadpool
end UtilsC
