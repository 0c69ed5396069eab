import Mathlib.Algebra.Group.Int.Defs
import Mathlib.Algebra.Group.Nat.Defs
import Mathlib.Data.List.Perm.Subperm
import UtilsC.List.ListHead

/-!
# The pool — its memory and its locked sections

`UcThreadpool` is the C struct together with the task nodes it points to.  The two lists of task
nodes are threaded through `links`; `listPid` is the list of the started threads, whose nodes are
used by nobody but the thread that closes the pool.

Each function below is what the source does between a lock and the next unlock or wait.  It answers
`none` when it would touch a node that is not in live memory, or take the head of a list for a node.
-/

namespace UtilsC
namespace Threadpool

open Lib ListHead

variable {F X : Type}

/-- `list_task_head` and `list_free_head`. -/
inductive PoolList
  | task
  | free
  deriving DecidableEq

/-- What `malloc` returns when it does not return `NULL`. -/
structure TaskPtr where
  addr : UInt64
  ne_null : addr ≠ 0
  deriving DecidableEq

/-- `uc_threadpool_task_t` without its links.  `func` and `arg` are `none` for `NULL`. -/
structure UcThreadpoolTask (F X : Type) where
  func : Option F
  arg : Option X

structure UcThreadpool (F X : Type) where
  links : LinkHeap PoolList TaskPtr
  task : TaskPtr → UcThreadpoolTask F X
  listTaskTtl : UInt64
  listTaskMax : UInt64
  threadMin : Int
  threadMax : Int
  threadAlive : Int
  listPid : List Nat
  shutdown : Bool

/-! ## Creating -/

/-- The conversion of a 32-bit number to `int`. -/
def toInt32 (n : UInt32) : Int :=
  if n.toNat < 2 ^ 31 then n.toNat else (n.toNat : Int) - 2 ^ 32

/-- The loop that starts the workers, from round `i` on.  It ends at the first round in which
`malloc` or `pthread_create` fails; `start` says in which they succeed. -/
def startWorkers (start : Nat → Bool) : Nat → Nat → Nat
  | 0, i => i
  | rounds + 1, i => if start i = true then startWorkers start rounds (i + 1) else i

/-- The heads point to themselves and no node is allocated. -/
def emptyLinks : LinkHeap PoolList TaskPtr where
  live
    | Loc.head _ => true
    | Loc.item _ => false
  next := id
  prev := id

/-- `uc_threadpool_create`, when the pool's own memory, lock and condition could be had. -/
def ucThreadpoolCreate (start : Nat → Bool) (thrNumMin thrNumMax : UInt32) :
    Option (UcThreadpool F X) :=
  if thrNumMax = 0 ∨ thrNumMax < thrNumMin then
    none
  else
    let started := startWorkers start thrNumMin.toNat 0
    some
      { links := emptyLinks
        task := fun _ => ⟨none, none⟩
        listTaskTtl := 0
        listTaskMax := 0
        threadMin := toInt32 thrNumMin
        threadMax := toInt32 thrNumMax
        threadAlive := started
        listPid := List.range started
        shutdown := false }

/-! ## Adding a task -/

/-- The condition of the wait loop in `uc_threadpool_add_to_void_task_do`. -/
def queueFull (pool : UcThreadpool F X) : Bool :=
  pool.listTaskMax ≠ 0 && pool.listTaskMax ≤ pool.listTaskTtl

/-- The node of a new task, from the free list or else from `malloc`.  `some (none, _)` is a failed
`malloc`. -/
def takeNode (malloc : Option TaskPtr) (links : LinkHeap PoolList TaskPtr) :
    Option (Option TaskPtr × LinkHeap PoolList TaskPtr) :=
  if listEmpty links (Loc.head PoolList.free) = true then
    match malloc with
    | some node => some (some node, links.alloc node)
    | none => some (none, links)
  else
    match links.next (Loc.head PoolList.free) with
    | Loc.item node =>
        (listDel links (Loc.item node)).map fun links' => (some node, links')
    | Loc.head _ => none

/-- Link a node into the task list, at its front when `forcetoHead` is set. -/
def linkTask (forcetoHead : Bool) (node : TaskPtr) (links : LinkHeap PoolList TaskPtr) :
    Option (LinkHeap PoolList TaskPtr) :=
  if forcetoHead = true then
    listAdd links (Loc.item node) (Loc.head PoolList.task)
  else
    listAddTail links (Loc.item node) (Loc.head PoolList.task)

/-- `uc_threadpool_add_to_void_task_do` behind its wait loop, up to the unlock.  The node that was
queued, or `none` when the function returns -0x18aa3f60 with the lock held. -/
def ucThreadpoolAddToVoidTaskDo (malloc : Option TaskPtr) (func : Option F) (arg : Option X)
    (forcetoHead : Bool) (pool : UcThreadpool F X) :
    Option (Option TaskPtr × UcThreadpool F X) :=
  (takeNode malloc pool.links).bind fun
    | (none, _) => some (none, pool)
    | (some node, links) =>
        (linkTask forcetoHead node links).map fun links' =>
          (some node,
            { pool with
              links := links'
              task := Function.update pool.task node ⟨func, arg⟩
              listTaskTtl := pool.listTaskTtl + 1 })

/-! ## A worker -/

/-- The dequeue section of `uc_threadpool_thread_work`. -/
def takeTask (pool : UcThreadpool F X) : Option (TaskPtr × UcThreadpool F X) :=
  match pool.links.next (Loc.head PoolList.task) with
  | Loc.item node =>
      (listDel pool.links (Loc.item node)).map fun links' =>
        (node, { pool with links := links', listTaskTtl := pool.listTaskTtl - 1 })
  | Loc.head _ => none

/-- The section that puts a node on the free list. -/
def recycleTask (node : TaskPtr) (pool : UcThreadpool F X) : Option (UcThreadpool F X) :=
  if pool.links.live (Loc.item node) = true then
    (listAddTail pool.links (Loc.item node) (Loc.head PoolList.free)).map fun links' =>
      { pool with
        links := links'
        task := Function.update pool.task node { pool.task node with arg := none } }
  else
    none

/-- `uc_threadpool_activty_try_do`: what it returns, and whether it started thread `pid`.  The
comparison of `thread_alive` with `list_task_ttl` is one of 64-bit unsigned numbers. -/
def ucThreadpoolActivtyTryDo (malloc create : Bool) (pid : Nat) (pool : UcThreadpool F X) :
    Int × Bool × UcThreadpool F X :=
  if pool.threadMax ≤ pool.threadAlive then
    (0, false, pool)
  else if (pool.listTaskTtl.toNat : Int) < pool.threadAlive % 2 ^ 64 then
    (0, false, pool)
  else if malloc = false then
    (-0x77094f73, false, pool)
  else if create = false then
    (-0x3c5a31ed, false, pool)
  else
    (0, true,
      { pool with
        threadAlive := pool.threadAlive + 1
        listPid := pool.listPid ++ [pid] })

/-! ## Closing -/

/-- Unlink and free the first node of a list until the list is empty.  The fuel bounds the number
of rounds. -/
def freeTasks (list : PoolList) : Nat → LinkHeap PoolList TaskPtr →
    Option (LinkHeap PoolList TaskPtr)
  | 0, _ => none
  | fuel + 1, links =>
      match links.next (Loc.head list) with
      | Loc.item node =>
          (listDel links (Loc.item node)).bind fun links' =>
            freeTasks list fuel (links'.free node)
      | Loc.head s => if s = list then some links else none

/-! ## The sections on well-formed lists

`Nodes pool lists` is the shape of the pool's memory: the two lists are well formed, and
`list_task_ttl` counts the queued nodes. -/

structure Nodes (pool : UcThreadpool F X) (lists : PoolList → List TaskPtr) : Prop where
  rings : RingFamily pool.links lists
  ttl : pool.listTaskTtl.toNat = (lists PoolList.task).length

/-- The node lies in neither list. -/
def Unlinked (lists : PoolList → List TaskPtr) (node : TaskPtr) : Prop :=
  ∀ list, node ∉ lists list

section Sections

variable {pool : UcThreadpool F X} {lists : PoolList → List TaskPtr}

/-- There are fewer nodes than addresses. -/
theorem nodup_length_lt {nodes : List TaskPtr} (hnd : nodes.Nodup) : nodes.length < 2 ^ 64 := by
  have hinj : Function.Injective fun p : TaskPtr => p.addr.toNat := by
    intro p q hpq
    cases p
    cases q
    cases UInt64.toNat_inj.1 hpq
    rfl
  -- the null address is one more that no node has
  have hnd' : (0 :: nodes.map fun p => p.addr.toNat).Nodup := by
    refine List.nodup_cons.2 ⟨?_, (List.nodup_map_iff hinj).2 hnd⟩
    intro hmem
    rcases List.mem_map.1 hmem with ⟨p, _, hp⟩
    exact p.ne_null (UInt64.toNat_inj.1 hp)
  have hsub : (0 :: nodes.map fun p => p.addr.toNat) ⊆ List.range (2 ^ 64) := by
    intro n hn
    rcases List.mem_cons.1 hn with hzero | hmem
    · rw [hzero]
      exact List.mem_range.2 (Nat.two_pow_pos 64)
    · rcases List.mem_map.1 hmem with ⟨p, _, hp⟩
      rw [← hp]
      exact List.mem_range.2 (UInt64.toNat_lt p.addr)
  have hle := (List.subperm_of_subset hnd' hsub).length_le
  rw [List.length_cons, List.length_map, List.length_range] at hle
  exact hle

/-- Counting up as a list of nodes grows never wraps. -/
theorem ttl_succ {ttl : UInt64} {nodes nodes' : List TaskPtr} (httl : ttl.toNat = nodes.length)
    (hnd : nodes'.Nodup) (hlen : nodes'.length = nodes.length + 1) :
    (ttl + 1).toNat = nodes'.length := by
  have hlt := nodup_length_lt hnd
  rw [UInt64.toNat_add, UInt64.toNat_one, httl, ← hlen]
  exact Nat.mod_eq_of_lt hlt

theorem ttl_pred {ttl : UInt64} {node : TaskPtr} {rest : List TaskPtr}
    (httl : ttl.toNat = (node :: rest).length) : (ttl - 1).toNat = rest.length := by
  have hle : (1 : UInt64) ≤ ttl := by
    rw [UInt64.le_iff_toNat_le, httl]
    simp
  rw [UInt64.toNat_sub_of_le ttl 1 hle, httl]
  simp

/-! ### Adding -/

/-- What adding a task does: the node comes from the free list or is new memory, it goes into the
task list, and it holds the task. -/
structure TaskLinked (func : Option F) (arg : Option X) (forcetoHead : Bool) (node : TaskPtr)
    (pool : UcThreadpool F X) (lists : PoolList → List TaskPtr) (pool' : UcThreadpool F X)
    (lists' : PoolList → List TaskPtr) : Prop where
  nodes : Nodes pool' lists'
  source : node ∈ lists PoolList.free ∨ pool.links.live (Loc.item node) = false
  task_list : lists' PoolList.task =
    if forcetoHead = true then node :: lists PoolList.task else lists PoolList.task ++ [node]
  free_list : lists' PoolList.free = (lists PoolList.free).erase node
  live_iff : ∀ n, pool'.links.live (Loc.item n) = true ↔
    pool.links.live (Loc.item n) = true ∨ n = node
  frame : pool' =
    { pool with
      links := pool'.links
      task := Function.update pool.task node ⟨func, arg⟩
      listTaskTtl := pool.listTaskTtl + 1 }

/-- The two ways a node is found, and the one way it is not. -/
theorem takeNode_spec {links : LinkHeap PoolList TaskPtr} (hF : RingFamily links lists)
    {malloc : Option TaskPtr} (hfresh : ∀ n, malloc = some n → links.live (Loc.item n) = false) :
    (takeNode malloc links = some (none, links) ∧ malloc = none ∧ lists PoolList.free = []) ∨
      ∃ node links', takeNode malloc links = some (some node, links') ∧
        RingFamily links' (fun list => (lists list).erase node) ∧
        (node ∈ lists PoolList.free ∨ links.live (Loc.item node) = false) ∧
        node ∉ lists PoolList.task ∧
        (∀ n, links'.live (Loc.item n) = true ↔ links.live (Loc.item n) = true ∨ n = node) := by
  by_cases hempty : listEmpty links (Loc.head PoolList.free) = true
  · have hfree : lists PoolList.free = [] := (listEmpty_iff hF).1 hempty
    cases malloc with
    | none => exact Or.inl ⟨by simp [takeNode, hempty], rfl, hfree⟩
    | some node =>
        have hdead := hfresh node rfl
        have hunlinked : Unlinked lists node := by
          intro list hmem
          rw [hF.live_item list node hmem] at hdead
          cases hdead
        have hsame : (fun list => (lists list).erase node) = lists := by
          funext list
          exact List.erase_of_not_mem (hunlinked list)
        refine Or.inr ⟨node, links.alloc node, by simp [takeNode, hempty], ?_, Or.inr hdead,
          hunlinked _, ?_⟩
        · rw [hsame]
          exact hF.alloc node
        · intro n
          by_cases hn : n = node
          · simp [LinkHeap.alloc, hn]
          · simp [LinkHeap.alloc, hn]
  · cases hfree : lists PoolList.free with
    | nil => exact absurd ((listEmpty_iff hF).2 hfree) hempty
    -- the node recycled first is used again
    | cons node rest =>
        have hmem : node ∈ lists PoolList.free := by simp [hfree]
        have hnext : links.next (Loc.head PoolList.free) = Loc.item node := by
          rw [hF.next_head_eq, hfree]
          rfl
        rcases listDel_linked hF hmem with ⟨links', hdel, hlive, hF'⟩
        have hother : node ∉ lists PoolList.task := by
          intro htask
          cases hF.disjoint _ _ node hmem htask
        refine Or.inr ⟨node, links', ?_, hF', Or.inl (by simp), hother, ?_⟩
        · simp [takeNode, hempty, hnext, hdel]
        · intro n
          rw [hlive]
          constructor
          · intro h
            exact Or.inl h
          · rintro (h | rfl)
            · exact h
            · exact hF.live_item _ _ hmem

theorem linkTask_spec {links : LinkHeap PoolList TaskPtr} {lists : PoolList → List TaskPtr}
    (hF : RingFamily links lists) {node : TaskPtr} (hnode : Unlinked lists node)
    (hlive : links.live (Loc.item node) = true) (forcetoHead : Bool) :
    ∃ links', linkTask forcetoHead node links = some links' ∧ links'.live = links.live ∧
      RingFamily links' (Function.update lists PoolList.task
        (if forcetoHead = true then node :: lists PoolList.task
          else lists PoolList.task ++ [node])) := by
  cases forcetoHead with
  | true => exact listAdd_unlinked hF hnode hlive PoolList.task
  | false => exact listAddTail_unlinked hF hnode hlive PoolList.task

/-- Adding never touches bad memory: it links a node, or `malloc` failed on an empty free list and
nothing has changed. -/
theorem ucThreadpoolAddToVoidTaskDo_spec (hN : Nodes pool lists) {malloc : Option TaskPtr}
    (hfresh : ∀ n, malloc = some n → pool.links.live (Loc.item n) = false) (func : Option F)
    (arg : Option X) (forcetoHead : Bool) :
    (ucThreadpoolAddToVoidTaskDo malloc func arg forcetoHead pool = some (none, pool) ∧
        malloc = none ∧ lists PoolList.free = []) ∨
      ∃ node pool' lists',
        ucThreadpoolAddToVoidTaskDo malloc func arg forcetoHead pool = some (some node, pool') ∧
        TaskLinked func arg forcetoHead node pool lists pool' lists' := by
  rcases takeNode_spec hN.rings hfresh with ⟨htake, hnone, hfree⟩ |
    ⟨node, links₁, htake, hF₁, hsource, hother, hlive₁⟩
  · exact Or.inl ⟨by simp [ucThreadpoolAddToVoidTaskDo, htake], hnone, hfree⟩
  · have hunlinked : Unlinked (fun list => (lists list).erase node) node :=
      fun list => hN.rings.not_mem_erase list
    have hnode : links₁.live (Loc.item node) = true := (hlive₁ node).2 (Or.inr rfl)
    rcases linkTask_spec hF₁ hunlinked hnode forcetoHead with ⟨links₂, hlink, hlive₂, hF₂⟩
    -- the node came out of the free list, so the task list lost nothing
    rw [List.erase_of_not_mem hother] at hF₂
    let lists' := Function.update (fun list => (lists list).erase node) PoolList.task
      (if forcetoHead = true then node :: lists PoolList.task else lists PoolList.task ++ [node])
    have htask : lists' PoolList.task =
        if forcetoHead = true then node :: lists PoolList.task
          else lists PoolList.task ++ [node] := Function.update_self _ _ _
    have hlen : (lists' PoolList.task).length = (lists PoolList.task).length + 1 := by
      rw [htask]
      cases forcetoHead <;> simp
    have hadd : ucThreadpoolAddToVoidTaskDo malloc func arg forcetoHead pool =
        some (some node,
          { pool with
            links := links₂
            task := Function.update pool.task node ⟨func, arg⟩
            listTaskTtl := pool.listTaskTtl + 1 }) := by
      simp only [ucThreadpoolAddToVoidTaskDo, htake, Option.bind_some, hlink, Option.map_some]
    refine Or.inr ⟨node, _, lists', hadd, ?_⟩
    exact
      { nodes := ⟨hF₂, ttl_succ hN.ttl (hF₂.nodup PoolList.task) hlen⟩
        source := hsource
        task_list := htask
        free_list := rfl
        live_iff := fun n => by
          rw [hlive₂]
          exact hlive₁ n
        frame := rfl }

/-! ### Dequeuing and recycling -/

theorem takeTask_spec (hN : Nodes pool lists) {node : TaskPtr} {rest : List TaskPtr}
    (hfirst : lists PoolList.task = node :: rest) :
    ∃ links', takeTask pool =
        some (node, { pool with links := links', listTaskTtl := pool.listTaskTtl - 1 }) ∧
      links'.live = pool.links.live ∧
      Nodes { pool with links := links', listTaskTtl := pool.listTaskTtl - 1 }
        (fun list => (lists list).erase node) := by
  have hmem : node ∈ lists PoolList.task := by simp [hfirst]
  have hnext : pool.links.next (Loc.head PoolList.task) = Loc.item node := by
    rw [hN.rings.next_head_eq, hfirst]
    rfl
  rcases listDel_linked hN.rings hmem with ⟨links', hdel, hlive, hF'⟩
  refine ⟨links', by simp [takeTask, hnext, hdel], hlive, hF', ?_⟩
  have httl := hN.ttl
  rw [hfirst] at httl
  simpa [hfirst] using ttl_pred httl

theorem recycleTask_spec (hN : Nodes pool lists) {node : TaskPtr} (hnode : Unlinked lists node)
    (hlive : pool.links.live (Loc.item node) = true) :
    ∃ pool', recycleTask node pool = some pool' ∧ pool'.links.live = pool.links.live ∧
      Nodes pool' (Function.update lists PoolList.free (lists PoolList.free ++ [node])) ∧
      pool' =
        { pool with
          links := pool'.links
          task := Function.update pool.task node { pool.task node with arg := none } } := by
  rcases listAddTail_unlinked hN.rings hnode hlive PoolList.free with ⟨links', hadd, hlive', hF'⟩
  have hother : PoolList.task ≠ PoolList.free := by decide
  have httl : pool.listTaskTtl.toNat = (Function.update lists PoolList.free
      (lists PoolList.free ++ [node]) PoolList.task).length := by
    rw [Function.update_of_ne hother]
    exact hN.ttl
  have hrecycle : recycleTask node pool =
      some
        { pool with
          links := links'
          task := Function.update pool.task node { pool.task node with arg := none } } := by
    simp only [recycleTask, hlive, if_true, hadd, Option.map_some]
  exact ⟨_, hrecycle, hlive', ⟨hF', httl⟩, rfl⟩

end Sections

end Threadpool
end UtilsC
