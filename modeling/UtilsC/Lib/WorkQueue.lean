import Mathlib.Data.Multiset.Basic
import Mathlib.Data.Multiset.AddSub
import Mathlib.Data.Multiset.UnionInter

/-!
# Work queues — jobs on their way from a queue through a worker to completion

The books of a work queue, with no nodes, threads or locks: which jobs were ever accepted, which
are waiting, which a worker has taken but not begun, which are executing and which are done.

* `WorkQueue.Step` is one entry in the books; its index says whether a job went to the front.
* `WorkQueue.Balanced`: every accepted job is in one place, exactly once.
* `Step.balanced`, `Step.in_order` and `Balanced.invoked_nodup` are what a user of the books needs.
-/

namespace UtilsC
namespace Lib

structure WorkQueue (J : Type) where
  accepted : List J
  queued : List J
  held : Multiset J
  executing : Multiset J
  done : List J
  started : List J
  invoked : List J

namespace WorkQueue

variable {J : Type}

def running (q : WorkQueue J) : Multiset J :=
  q.held + q.executing

def accept (q : WorkQueue J) (front : Bool) (j : J) : WorkQueue J :=
  { q with
    accepted := q.accepted ++ [j]
    queued := if front then j :: q.queued else q.queued ++ [j] }

def start (q : WorkQueue J) (j : J) (rest : List J) : WorkQueue J :=
  { q with
    queued := rest
    held := j ::ₘ q.held
    started := q.started ++ [j] }

def invoke (q : WorkQueue J) (j : J) (rest : Multiset J) : WorkQueue J :=
  { q with
    held := rest
    executing := j ::ₘ q.executing
    invoked := q.invoked ++ [j] }

/-- A job with nothing to execute is done at once. -/
def skip (q : WorkQueue J) (j : J) (rest : Multiset J) : WorkQueue J :=
  { q with
    held := rest
    done := q.done ++ [j] }

def complete (q : WorkQueue J) (j : J) (rest : Multiset J) : WorkQueue J :=
  { q with
    executing := rest
    done := q.done ++ [j] }

inductive Step : Bool → WorkQueue J → WorkQueue J → Prop
  | accept {q : WorkQueue J} {j : J} (front : Bool) (hnew : j ∉ q.accepted) :
      Step front q (q.accept front j)
  | start {q : WorkQueue J} {j : J} {rest : List J} (hfirst : q.queued = j :: rest) :
      Step false q (q.start j rest)
  | invoke {q : WorkQueue J} {j : J} {rest : Multiset J} (hheld : q.held = j ::ₘ rest) :
      Step false q (q.invoke j rest)
  | skip {q : WorkQueue J} {j : J} {rest : Multiset J} (hheld : q.held = j ::ₘ rest) :
      Step false q (q.skip j rest)
  | complete {q : WorkQueue J} {j : J} {rest : Multiset J} (hexec : q.executing = j ::ₘ rest) :
      Step false q (q.complete j rest)

/-- Every accepted job is waiting or was started, once only, and a started job is running or done;
a job was invoked at most as often as it is executing or done. -/
structure Balanced (q : WorkQueue J) : Prop where
  conserved : (q.queued : Multiset J) + q.started = q.accepted
  started_eq : (q.started : Multiset J) = q.held + q.executing + q.done
  nodup : q.accepted.Nodup
  invoked_le : (q.invoked : Multiset J) ≤ q.executing + q.done

def InOrder (q : WorkQueue J) : Prop :=
  q.accepted = q.started ++ q.queued

theorem coe_append_singleton (l : List J) (j : J) :
    ((l ++ [j] : List J) : Multiset J) = j ::ₘ (l : Multiset J) :=
  Multiset.coe_eq_coe.2 (List.perm_append_singleton j l)

/-- An entry adds a job to the queue, starts one of the queue, or leaves both lists alone. -/
theorem Step.conserved {front : Bool} {q q' : WorkQueue J} (hstep : Step front q q')
    (hq : (q.queued : Multiset J) + q.started = q.accepted) :
    (q'.queued : Multiset J) + q'.started = q'.accepted := by
  cases hstep with
  | @accept _ j _ hnew =>
      have hqueued : ((q.accept front j).queued : Multiset J) = j ::ₘ (q.queued : Multiset J) := by
        cases front with
        | true => rfl
        | false => exact coe_append_singleton q.queued j
      rw [hqueued]
      simp only [WorkQueue.accept, coe_append_singleton, ← hq, Multiset.cons_add]
  | start hfirst =>
      rw [hfirst] at hq
      simp only [WorkQueue.start, coe_append_singleton, ← hq, ← Multiset.cons_coe,
        Multiset.cons_add, Multiset.add_cons]
  | invoke _ => exact hq
  | skip _ => exact hq
  | complete _ => exact hq

theorem Step.started_eq {front : Bool} {q q' : WorkQueue J} (hstep : Step front q q')
    (hq : (q.started : Multiset J) = q.held + q.executing + q.done) :
    (q'.started : Multiset J) = q'.held + q'.executing + q'.done := by
  cases hstep with
  | accept _ _ => exact hq
  | start _ =>
      simp only [WorkQueue.start, coe_append_singleton, hq, Multiset.cons_add]
  | invoke hheld =>
      rw [hheld] at hq
      simp only [WorkQueue.invoke, hq, Multiset.cons_add, Multiset.add_cons]
  | skip hheld =>
      rw [hheld] at hq
      simp only [WorkQueue.skip, coe_append_singleton, hq, Multiset.cons_add, Multiset.add_cons]
  | complete hexec =>
      rw [hexec] at hq
      simp only [WorkQueue.complete, coe_append_singleton, hq, Multiset.cons_add,
        Multiset.add_cons]

theorem Step.invoked_le {front : Bool} {q q' : WorkQueue J} (hstep : Step front q q')
    (hq : (q.invoked : Multiset J) ≤ q.executing + q.done) :
    (q'.invoked : Multiset J) ≤ q'.executing + q'.done := by
  cases hstep with
  | accept _ _ => exact hq
  | start _ => exact hq
  | @invoke _ j _ _ =>
      simp only [WorkQueue.invoke, coe_append_singleton, Multiset.cons_add]
      exact Multiset.cons_le_cons j hq
  | @skip _ j _ _ =>
      simp only [WorkQueue.skip, coe_append_singleton, Multiset.add_cons]
      exact hq.trans (Multiset.le_cons_self _ j)
  | @complete _ j rest hexec =>
      -- the job is counted among the executing ones before and among the done ones after
      simp only [WorkQueue.complete, coe_append_singleton]
      rw [Multiset.add_cons, ← Multiset.cons_add, ← hexec]
      exact hq

theorem Step.nodup {front : Bool} {q q' : WorkQueue J} (hstep : Step front q q')
    (hq : q.accepted.Nodup) : q'.accepted.Nodup := by
  cases hstep with
  | accept _ hnew => exact List.nodup_append.2 ⟨hq, by simp, by
      intro a ha b hb hab
      have hbj : b = _ := List.mem_singleton.1 hb
      exact hnew (hbj ▸ hab ▸ ha)⟩
  | start _ => exact hq
  | invoke _ => exact hq
  | skip _ => exact hq
  | complete _ => exact hq

theorem Step.balanced {front : Bool} {q q' : WorkQueue J} (hstep : Step front q q')
    (hq : q.Balanced) : q'.Balanced where
  conserved := hstep.conserved hq.conserved
  started_eq := hstep.started_eq hq.started_eq
  nodup := hstep.nodup hq.nodup
  invoked_le := hstep.invoked_le hq.invoked_le

/-- As long as no job goes to the front, jobs are started in the order of their acceptance. -/
theorem Step.in_order {q q' : WorkQueue J} (hstep : Step false q q') (hq : q.InOrder) :
    q'.InOrder := by
  cases hstep with
  | accept _ _ =>
      show q.accepted ++ _ = q.started ++ (q.queued ++ _)
      rw [← List.append_assoc, ← show q.accepted = q.started ++ q.queued from hq]
  | start hfirst =>
      show q.accepted = (q.started ++ _) ++ _
      have hqueue : q.accepted = q.started ++ q.queued := hq
      rw [hqueue, hfirst, List.append_assoc]
      rfl
  | invoke _ => exact hq
  | skip _ => exact hq
  | complete _ => exact hq

namespace Balanced

variable {q : WorkQueue J}

theorem started_nodup (hq : q.Balanced) : q.started.Nodup := by
  have hall : ((q.queued : Multiset J) + q.started).Nodup := by
    rw [hq.conserved]
    exact Multiset.coe_nodup.2 hq.nodup
  exact Multiset.coe_nodup.1 (Multiset.nodup_add.1 hall).2.1

theorem invoked_nodup (hq : q.Balanced) : q.invoked.Nodup := by
  have hle : (q.invoked : Multiset J) ≤ q.started := by
    rw [hq.started_eq, Multiset.add_assoc]
    exact hq.invoked_le.trans (Multiset.le_add_left _ _)
  exact Multiset.coe_nodup.1 (Multiset.nodup_of_le hle (Multiset.coe_nodup.2 hq.started_nodup))

/-- The number of places a job is in. -/
theorem count_places [DecidableEq J] (hq : q.Balanced) (j : J) :
    q.queued.count j + q.running.count j + q.done.count j =
      if j ∈ q.accepted then 1 else 0 := by
  have hcount := congrArg (Multiset.count j) hq.conserved
  have hstarted := congrArg (Multiset.count j) hq.started_eq
  simp only [Multiset.count_add, Multiset.coe_count] at hcount hstarted
  have hone : q.accepted.count j = if j ∈ q.accepted then 1 else 0 := by
    split_ifs with hj
    · exact List.count_eq_one_of_mem hq.nodup hj
    · exact List.count_eq_zero.2 hj
  simp only [running, Multiset.count_add]
  omega

end Balanced

end WorkQueue
end Lib
end UtilsC
