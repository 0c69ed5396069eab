import UtilsC.Threadpool.Pool

/-!
# Creating a pool, and the clean-up when that fails

`uc_threadpool_create` works on zeroed memory and initialises the three list heads at different
points; when a step fails it hands what there is to `uc_threadpool_close`, which empties all three
lists.

* The address 0 is `NULL`: it is never live memory, and all links of a zeroed head hold it.
* `CreateEnd.fault` is a loop that takes `NULL`, or another head, for a node of its list.
* `ucThreadpoolCreate_cleanedUp_iff`: the clean-up is harmless only when there is no pool to close.
-/

namespace UtilsC
namespace Threadpool

open Lib ListHead

inductive PoolHead
  | task
  | free
  | pid
  deriving DecidableEq

/-- The links of a pool and of the nodes on its lists, by address. -/
abbrev PoolLinks : Type :=
  LinkHeap PoolHead UInt64

/-- What `calloc` returns: no head points to itself, and no node is there. -/
def zeroedLinks : PoolLinks where
  live
    | Loc.head _ => true
    | Loc.item _ => false
  next _ := Loc.item 0
  prev _ := Loc.item 0

/-! ## Closing -/

/-- The loops of `uc_threadpool_close`: unlink the first node and free it, until the list is empty.
The fuel bounds the number of rounds. -/
def drainList (list : PoolHead) : Nat → PoolLinks → Option (Except PoolHead PoolLinks)
  | 0, _ => none
  | fuel + 1, links =>
      if listEmpty links (Loc.head list) = true then
        some (.ok links)
      else
        match links.next (Loc.head list) with
        | Loc.head _ => some (.error list)
        | Loc.item node =>
            match listDel links (Loc.item node) with
            | none => some (.error list)
            | some links' => drainList list fuel (links'.free node)

/-- Several loops, one after another. -/
def drainLists (fuel : Nat) : List PoolHead → PoolLinks → Option (Except PoolHead PoolLinks)
  | [], links => some (.ok links)
  | list :: lists, links =>
      match drainList list fuel links with
      | some (.ok links') => drainLists fuel lists links'
      | other => other

/-- `uc_threadpool_close`: what it returns, or the list at whose head it goes astray. -/
def ucThreadpoolClose (fuel : Nat) : Option PoolLinks → Option (Except PoolHead Int)
  | none => some (.ok (-0x61729e08))
  | some links =>
      (drainLists fuel [.pid, .free, .task] links).map fun r => r.map fun _ => 0

/-! ## Creating -/

/-- Which steps succeed: the memory of the pool, its lock, its condition, and the workers. -/
structure CreateSteps where
  calloc : Bool
  mutexInit : Bool
  condInit : Bool
  start : Nat → Bool

/-- The steps between the allocation and the workers: whether all succeed, and the heads then. -/
def ucThreadpoolInit (steps : CreateSteps) (thrNumMin thrNumMax : UInt32) (links : PoolLinks) :
    Bool × PoolLinks :=
  if steps.mutexInit = false then
    (false, links)
  else if steps.condInit = false then
    (false, links)
  else
    let links := listInit links (Loc.head .task)
    let links := listInit links (Loc.head .free)
    -- the head of the workers is initialised behind this test only
    if thrNumMax = 0 ∨ thrNumMax < thrNumMin then
      (false, links)
    else
      (true, listInit links (Loc.head .pid))

inductive CreateEnd
  | null
  | pool (threadAlive : Nat)
  | fault (list : PoolHead)
  deriving DecidableEq

/-- Behind the clean-up `NULL` is returned. -/
def CreateEnd.ofClose : Except PoolHead Int → CreateEnd
  | .ok _ => null
  | .error list => fault list

def ucThreadpoolCreateRun (fuel : Nat) (steps : CreateSteps) (thrNumMin thrNumMax : UInt32) :
    Option CreateEnd :=
  if steps.calloc = false then
    (ucThreadpoolClose fuel none).map .ofClose
  else
    match ucThreadpoolInit steps thrNumMin thrNumMax zeroedLinks with
    | (true, _) => some (.pool (startWorkers steps.start thrNumMin.toNat 0))
    | (false, links) => (ucThreadpoolClose fuel (some links)).map .ofClose

/-! ## The loops -/

section Drain

variable {links : PoolLinks} {list : PoolHead} {fuel : Nat}

/-- A zeroed head does not look empty, and its first node is `NULL`. -/
theorem drainList_zeroed (hnext : links.next (Loc.head list) = Loc.item 0)
    (hnull : links.live (Loc.item 0) = false) :
    drainList list (fuel + 1) links = some (.error list) := by
  have hfilled : listEmpty links (Loc.head list) = false := by simp [listEmpty, hnext]
  have hdel : listDel links (Loc.item 0) = none := by simp [listDel, hnull]
  simp [drainList, hfilled, hnext, hdel]

/-- A list in order is emptied; the other lists stay. -/
theorem drainList_rings {lists : PoolHead → List UInt64} (hF : RingFamily links lists)
    (hfuel : (lists list).length < fuel) :
    ∃ links' lists', drainList list fuel links = some (.ok links') ∧ RingFamily links' lists' ∧
      ∀ t, t ≠ list → lists' t = lists t := by
  induction fuel generalizing links lists with
  | zero => exact absurd hfuel (Nat.not_lt_zero _)
  | succ fuel ih =>
      cases hlist : lists list with
      | nil =>
          have hempty : listEmpty links (Loc.head list) = true := (listEmpty_iff hF).2 hlist
          exact ⟨links, lists, by rw [drainList, if_pos hempty], hF, fun _ _ => rfl⟩
      | cons node rest =>
          have hmem : node ∈ lists list := by simp [hlist]
          have hfilled : ¬ listEmpty links (Loc.head list) = true := by
            intro hempty
            rw [(listEmpty_iff hF).1 hempty] at hlist
            cases hlist
          have hnext : links.next (Loc.head list) = Loc.item node := by
            rw [hF.next_head_eq, hlist]
            rfl
          rcases listDel_linked hF hmem with ⟨links₁, hdel, _, hF₁⟩
          -- the node is freed behind its unlinking, when no list has it any more
          have hF₂ := hF₁.free (a := node) hF.not_mem_erase
          have hlen : ((lists list).erase node).length < fuel := by
            rw [hlist, List.erase_cons_head]
            rw [hlist, List.length_cons] at hfuel
            exact Nat.lt_of_succ_lt_succ hfuel
          rcases ih hF₂ hlen with ⟨links', lists', hrun, hF', hother⟩
          refine ⟨links', lists', ?_, hF', fun t ht => ?_⟩
          · simp only [drainList, if_neg hfilled, hnext, hdel, hrun]
          · rw [hother t ht, List.erase_of_not_mem]
            exact fun hin => ht (hF.disjoint t list node hin hmem)

/-- `uc_threadpool_close` ends, on three heads that are initialised, whatever nodes they have. -/
theorem ucThreadpoolClose_rings {lists : PoolHead → List UInt64} (hF : RingFamily links lists)
    (hfuel : ∀ list, (lists list).length < fuel) :
    ucThreadpoolClose fuel (some links) = some (.ok 0) := by
  rcases drainList_rings hF (hfuel .pid) with ⟨links₁, lists₁, hrun₁, hF₁, hother₁⟩
  have hfree : (lists₁ .free).length < fuel := by
    rw [hother₁ .free (by decide)]
    exact hfuel .free
  rcases drainList_rings hF₁ hfree with ⟨links₂, lists₂, hrun₂, hF₂, hother₂⟩
  have htask : (lists₂ .task).length < fuel := by
    rw [hother₂ .task (by decide), hother₁ .task (by decide)]
    exact hfuel .task
  rcases drainList_rings hF₂ htask with ⟨links₃, lists₃, hrun₃, _, _⟩
  simp [ucThreadpoolClose, drainLists, hrun₁, hrun₂, hrun₃, Except.map]

end Drain

/-! ## The steps of the creation -/

section Init

variable {steps : CreateSteps} {thrNumMin thrNumMax : UInt32}

/-- The steps before the workers are through exactly when none fails and the numbers are valid. -/
theorem ucThreadpoolInit_fst (links : PoolLinks) :
    (ucThreadpoolInit steps thrNumMin thrNumMax links).1 = true ↔
      steps.mutexInit = true ∧ steps.condInit = true ∧
        ¬ (thrNumMax = 0 ∨ thrNumMax < thrNumMin) := by
  unfold ucThreadpoolInit
  cases steps.mutexInit with
  | false => simp
  | true =>
      cases steps.condInit with
      | false => simp
      | true =>
          by_cases hnum : thrNumMax = 0 ∨ thrNumMax < thrNumMin
          · simp [hnum]
          · simp [hnum]

/-- No step that fails leaves the head of the workers initialised. -/
theorem ucThreadpoolInit_pid {links : PoolLinks}
    (h : (ucThreadpoolInit steps thrNumMin thrNumMax links).1 = false) :
    (ucThreadpoolInit steps thrNumMin thrNumMax links).2.next (Loc.head .pid) =
        links.next (Loc.head .pid) ∧
      (ucThreadpoolInit steps thrNumMin thrNumMax links).2.live = links.live := by
  unfold ucThreadpoolInit at h ⊢
  split_ifs at h ⊢ with hmutex hcond hnum
  · exact ⟨rfl, rfl⟩
  · exact ⟨rfl, rfl⟩
  · have htask : (Loc.head PoolHead.pid : Loc PoolHead UInt64) ≠ Loc.head .task := by decide
    have hfree : (Loc.head PoolHead.pid : Loc PoolHead UInt64) ≠ Loc.head .free := by decide
    simp only [listInit, Function.update_of_ne hfree, Function.update_of_ne htask, and_self]

/-- When all succeed, the three lists are in order and empty. -/
theorem ucThreadpoolInit_rings
    (h : (ucThreadpoolInit steps thrNumMin thrNumMax zeroedLinks).1 = true) :
    RingFamily (ucThreadpoolInit steps thrNumMin thrNumMax zeroedLinks).2 fun _ => [] := by
  rcases (ucThreadpoolInit_fst zeroedLinks).1 h with ⟨hmutex, hcond, hnum⟩
  have hheads : ∀ list, (ucThreadpoolInit steps thrNumMin thrNumMax zeroedLinks).2.next
        (Loc.head list) = Loc.head list ∧
      (ucThreadpoolInit steps thrNumMin thrNumMax zeroedLinks).2.prev (Loc.head list) =
        Loc.head list ∧
      (ucThreadpoolInit steps thrNumMin thrNumMax zeroedLinks).2.live (Loc.head list) = true := by
    intro list
    simp only [ucThreadpoolInit, hmutex, hcond, if_neg hnum, Bool.true_eq_false, if_false]
    cases list <;> simp [listInit, zeroedLinks]
  refine ⟨fun list => ?_, fun _ => List.nodup_nil, ?_, fun list => (hheads list).2.2, ?_⟩
  · rw [Lib.Ring, cycle]
    exact List.isChain_pair.2 ⟨(hheads list).1, (hheads list).2.1⟩
  · intro list list' node hmem
    cases hmem
  · intro list node hmem
    cases hmem

/-- The two ways on from the allocation. -/
theorem ucThreadpoolCreateRun_eq (hcalloc : steps.calloc = true) (fuel : Nat) :
    ucThreadpoolCreateRun fuel steps thrNumMin thrNumMax =
      if (ucThreadpoolInit steps thrNumMin thrNumMax zeroedLinks).1 = true then
        some (.pool (startWorkers steps.start thrNumMin.toNat 0))
      else
        (ucThreadpoolClose fuel
          (some (ucThreadpoolInit steps thrNumMin thrNumMax zeroedLinks).2)).map .ofClose := by
  have hnot : ¬ steps.calloc = false := by simp [hcalloc]
  rw [ucThreadpoolCreateRun, if_neg hnot]
  rcases ucThreadpoolInit steps thrNumMin thrNumMax zeroedLinks with ⟨_ | _, links⟩
  · rfl
  · rfl

theorem ofClose_ne_pool {threadAlive : Nat} {r : Option (Except PoolHead Int)} :
    r.map CreateEnd.ofClose ≠ some (.pool threadAlive) := by
  rcases r with _ | (_ | _) <;> simp [CreateEnd.ofClose]

/-- Without a failure the result is that of `ucThreadpoolCreate`. -/
theorem ucThreadpoolCreateRun_pool {F X : Type} {fuel threadAlive : Nat}
    (h : ucThreadpoolCreateRun fuel steps thrNumMin thrNumMax = some (.pool threadAlive)) :
    ∃ pool : UcThreadpool F X, ucThreadpoolCreate steps.start thrNumMin thrNumMax = some pool ∧
      pool.threadAlive = threadAlive ∧ pool.listPid.length = threadAlive := by
  cases hcalloc : steps.calloc with
  | false =>
      rw [ucThreadpoolCreateRun, if_pos hcalloc] at h
      exact absurd h ofClose_ne_pool
  | true =>
      rw [ucThreadpoolCreateRun_eq hcalloc] at h
      split_ifs at h with hinit
      · have hnum := ((ucThreadpoolInit_fst zeroedLinks).1 hinit).2.2
        cases h
        rw [ucThreadpoolCreate, if_neg hnum]
        exact ⟨_, rfl, rfl, List.length_range⟩
      · exact absurd h ofClose_ne_pool

/-! ## When the clean-up is harmless -/

/-- The failures after which `uc_threadpool_create` closes what it has. -/
def CreateSteps.Fails (steps : CreateSteps) (thrNumMin thrNumMax : UInt32) : Prop :=
  steps.calloc = false ∨ steps.mutexInit = false ∨ steps.condInit = false ∨
    thrNumMax = 0 ∨ thrNumMax < thrNumMin

/-- The clean-up goes along heads that are initialised, and ends, and `NULL` is returned. -/
def CleanedUp (steps : CreateSteps) (thrNumMin thrNumMax : UInt32) : Prop :=
  ∃ fuel, ucThreadpoolCreateRun fuel steps thrNumMin thrNumMax = some .null

theorem ucThreadpoolInit_of_fails (hcalloc : steps.calloc = true)
    (hfails : steps.Fails thrNumMin thrNumMax) :
    (ucThreadpoolInit steps thrNumMin thrNumMax zeroedLinks).1 = false := by
  rw [← Bool.not_eq_true, ucThreadpoolInit_fst]
  rintro ⟨hmutex, hcond, hnum⟩
  rcases hfails with h | h | h | h
  · rw [hcalloc] at h
    cases h
  · rw [hmutex] at h
    cases h
  · rw [hcond] at h
    cases h
  · exact hnum h

/-- Whichever step behind the allocation fails, `uc_threadpool_close` goes astray at the zeroed
head of the workers, in its first loop. -/
theorem ucThreadpoolCreateRun_fault (hcalloc : steps.calloc = true)
    (hfails : steps.Fails thrNumMin thrNumMax) (fuel : Nat) :
    ucThreadpoolCreateRun (fuel + 1) steps thrNumMin thrNumMax = some (.fault .pid) := by
  have hfst := ucThreadpoolInit_of_fails hcalloc hfails
  rcases ucThreadpoolInit_pid hfst with ⟨hnext, hlive⟩
  have hdrain : drainList .pid (fuel + 1) _ = some (.error .pid) :=
    drainList_zeroed hnext (by rw [hlive]; rfl)
  have hnot : ¬ (ucThreadpoolInit steps thrNumMin thrNumMax zeroedLinks).1 = true := by simp [hfst]
  rw [ucThreadpoolCreateRun_eq hcalloc, if_neg hnot, ucThreadpoolClose, drainLists, hdrain]
  rfl

theorem not_cleanedUp (hcalloc : steps.calloc = true) (hfails : steps.Fails thrNumMin thrNumMax) :
    ¬ CleanedUp steps thrNumMin thrNumMax := by
  rintro ⟨fuel, hrun⟩
  cases fuel with
  -- without fuel there is no end, and with fuel a bad one
  | zero =>
      have hfst := ucThreadpoolInit_of_fails hcalloc hfails
      have hnot : ¬ (ucThreadpoolInit steps thrNumMin thrNumMax zeroedLinks).1 = true := by
        simp [hfst]
      rw [ucThreadpoolCreateRun_eq hcalloc, if_neg hnot] at hrun
      cases hrun
  | succ fuel =>
      rw [ucThreadpoolCreateRun_fault hcalloc hfails fuel] at hrun
      cases hrun

end Init

/-- After a failure the clean-up is harmless exactly when the pool could not be allocated.  Without
one there is no clean-up, whether all workers start or not: the pool is that of
`ucThreadpoolCreate`, and `uc_threadpool_close` would end on its heads. -/
theorem ucThreadpoolCreate_cleanedUp_iff {F X : Type} (steps : CreateSteps)
    (thrNumMin thrNumMax : UInt32) :
    (steps.Fails thrNumMin thrNumMax →
      (CleanedUp steps thrNumMin thrNumMax ↔ steps.calloc = false)) ∧
    (¬ steps.Fails thrNumMin thrNumMax →
      (∀ fuel, ucThreadpoolCreateRun fuel steps thrNumMin thrNumMax =
        some (.pool (startWorkers steps.start thrNumMin.toNat 0))) ∧
      (∃ pool : UcThreadpool F X, ucThreadpoolCreate steps.start thrNumMin thrNumMax = some pool ∧
        pool.threadAlive = startWorkers steps.start thrNumMin.toNat 0 ∧
        pool.listPid.length = startWorkers steps.start thrNumMin.toNat 0) ∧
      ∀ fuel, ucThreadpoolClose (fuel + 1)
        (some (ucThreadpoolInit steps thrNumMin thrNumMax zeroedLinks).2) = some (.ok 0)) := by
  constructor
  · intro hfails
    constructor
    · intro hclean
      rw [← Bool.not_eq_true]
      exact fun hcalloc => not_cleanedUp hcalloc hfails hclean
    · intro hcalloc
      exact ⟨0, by rw [ucThreadpoolCreateRun, if_pos hcalloc]; rfl⟩
  · intro hno
    simp only [CreateSteps.Fails, not_or, Bool.not_eq_false] at hno
    rcases hno with ⟨hcalloc, hmutex, hcond, hmax, hnum⟩
    have hinit := (ucThreadpoolInit_fst zeroedLinks).2
      ⟨hmutex, hcond, not_or.2 ⟨hmax, hnum⟩⟩
    have hrun : ∀ fuel, ucThreadpoolCreateRun fuel steps thrNumMin thrNumMax =
        some (.pool (startWorkers steps.start thrNumMin.toNat 0)) := by
      intro fuel
      rw [ucThreadpoolCreateRun_eq hcalloc, if_pos hinit]
    refine ⟨hrun, ucThreadpoolCreateRun_pool (hrun 0), fun fuel => ?_⟩
    exact ucThreadpoolClose_rings (ucThreadpoolInit_rings hinit) fun _ => Nat.succ_pos fuel

theorem ucThreadpoolCreate_cleanedUp_unallocated :
    CleanedUp { calloc := false, mutexInit := true, condInit := true, start := fun _ => true } 2 1 ∧
      ucThreadpoolCreateRun 0
        { calloc := true, mutexInit := true, condInit := true, start := (· < 1) } 2 2 =
          some (.pool 1) :=
  ⟨((ucThreadpoolCreate_cleanedUp_iff (F := Nat) (X := Nat) _ _ _).1 (.inl rfl)).2 rfl,
    ((ucThreadpoolCreate_cleanedUp_iff (F := Nat) (X := Nat) _ _ _).2
      (by simp [CreateSteps.Fails])).1 0⟩

/-- Two workers at least and one at most: the first node of the zeroed list is taken. -/
theorem ucThreadpoolCreate_follows_null :
    let steps : CreateSteps :=
      { calloc := true, mutexInit := true, condInit := true, start := fun _ => true }
    ucThreadpoolCreateRun 1 steps 2 1 = some (.fault .pid) ∧ ¬ CleanedUp steps 2 1 := by
  intro steps
  have hfails : steps.Fails 2 1 := by simp [CreateSteps.Fails]
  exact ⟨ucThreadpoolCreateRun_fault rfl hfails 0, not_cleanedUp rfl hfails⟩

end Threadpool
end UtilsC
