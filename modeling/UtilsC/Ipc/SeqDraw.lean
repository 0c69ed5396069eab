import UtilsC.Ipc.Seq

/-!
# Calls of `uc_ipc_client_next_seq_id`

The threads of a client, or of a server, that send draw their ids from one counter.  Here the
function runs statement by statement, and the threads take turns at every statement; the mutex lets
one of them in at a time.

* `SeqLock.machine` is the counter under its callers, without a reconnect.
* `SeqLock.Follows` compares it with the calls made one after another.
* `nextSeqId_distinct`: as many calls as there are ids draw each id at most once.
-/

namespace UtilsC
namespace Ipc

open Lib

/-- Where the holder of the mutex is: behind `pthread_mutex_lock`, behind the read of the counter,
behind the increment, behind the test for the reserved range. -/
inductive SeqPc
  | locked
  | read (next : UInt64)
  | added (next : UInt64)
  | kept (next : UInt64)

/-- The counter, the thread in the section, and the ids returned so far with their callers. -/
structure SeqLock where
  seqId : UInt64
  holder : Option (Nat × SeqPc)
  returned : List (Nat × UInt64)

/-- `lock` is a return from `pthread_mutex_lock`, `run` the next statement of the holder. -/
inductive SeqLockEvent
  | lock (thread : Nat)
  | run (thread : Nat)

namespace SeqLock

/-- No call has been made yet. -/
def start (seqId : UInt64) : SeqLock :=
  { seqId := seqId, holder := none, returned := [] }

def enabled (s : SeqLock) : SeqLockEvent → Bool
  | .lock _ => s.holder.isNone
  | .run thread => (s.holder.map Prod.fst) == some thread

/-- The statement behind the position of the holder. -/
def execSection (s : SeqLock) (thread : Nat) : SeqPc → SeqLock
  | .locked => { s with holder := some (thread, .read s.seqId) }
  | .read next => { s with seqId := s.seqId + 1, holder := some (thread, .added next) }
  | .added next => { s with seqId := clampSeqId s.seqId, holder := some (thread, .kept next) }
  | .kept next => { s with holder := none, returned := s.returned ++ [(thread, next)] }

def exec (s : SeqLock) : SeqLockEvent → Option SeqLock
  | .lock thread => some { s with holder := some (thread, .locked) }
  | .run _ => s.holder.map fun h => s.execSection h.1 h.2

def machine : Machine SeqLock SeqLockEvent :=
  { enabled := enabled, exec := exec }

/-- The ids returned so far. -/
def ids (s : SeqLock) : List UInt64 :=
  s.returned.map Prod.snd

/-! ## One call after another -/

/-- What the counter and the position of the holder say after `n` returned calls. -/
def At (seqId : UInt64) (n : Nat) (counter : UInt64) : Option (Nat × SeqPc) → Prop
  | none => counter = seqIdAfter seqId n
  | some (_, .locked) => counter = seqIdAfter seqId n
  | some (_, .read next) => counter = next ∧ next = seqIdAfter seqId n
  | some (_, .added next) => counter = next + 1 ∧ next = seqIdAfter seqId n
  | some (_, .kept next) => counter = seqIdAfter seqId (n + 1) ∧ next = seqIdAfter seqId n

/-- The ids are those of calls made one after another. -/
structure Follows (seqId : UInt64) (s : SeqLock) : Prop where
  counter : At seqId s.returned.length s.seqId s.holder
  history : s.ids = (List.range s.returned.length).map (seqIdAfter seqId)

theorem follows_start (seqId : UInt64) : (start seqId).Follows seqId where
  counter := rfl
  history := rfl

/-- One statement. -/
theorem Follows.step {seqId : UInt64} {s s' : SeqLock} {e : SeqLockEvent} (hf : s.Follows seqId)
    (henabled : s.enabled e = true) (hexec : s.exec e = some s') : s'.Follows seqId := by
  rcases s with ⟨counter, holder, returned⟩
  have hcounter := hf.counter
  cases e with
  | lock thread =>
      have hfree : holder = none := by simpa [enabled] using henabled
      subst hfree
      cases hexec
      exact ⟨hcounter, hf.history⟩
  | run thread =>
      rcases Option.map_eq_some_iff.1 hexec with ⟨⟨owner, pc⟩, hholder, hs'⟩
      have hheld : holder = some (owner, pc) := hholder
      subst hheld
      subst hs'
      cases pc with
      | locked => exact ⟨⟨rfl, hcounter⟩, hf.history⟩
      | read next =>
          have hread : counter = next := hcounter.1
          exact ⟨⟨congrArg (· + 1) hread, hcounter.2⟩, hf.history⟩
      | added next =>
          have hadd : counter = next + 1 := hcounter.1
          have hnext : next = seqIdAfter seqId returned.length := hcounter.2
          refine ⟨⟨?_, hnext⟩, hf.history⟩
          -- increment and test together are one step of the counter
          show clampSeqId counter = seqIdAfter seqId (returned.length + 1)
          rw [seqIdAfter_succ, ← hnext, hadd, nextSeqId]
      | kept next =>
          have hnext : next = seqIdAfter seqId returned.length := hcounter.2
          have hlen : (returned ++ [(owner, next)]).length = returned.length + 1 :=
            List.length_append
          refine ⟨?_, ?_⟩
          · show counter = seqIdAfter seqId (returned ++ [(owner, next)]).length
            rw [hlen]
            exact hcounter.1
          · have hold : returned.map Prod.snd =
                (List.range returned.length).map (seqIdAfter seqId) := hf.history
            show (returned ++ [(owner, next)]).map Prod.snd =
              (List.range (returned ++ [(owner, next)]).length).map (seqIdAfter seqId)
            rw [hlen, List.range_succ, List.map_append, List.map_append, hold, hnext]
            rfl

/-- A whole run. -/
theorem Follows.run {seqId : UInt64} {events : List SeqLockEvent} {s : SeqLock}
    (hrun : machine.Run (start seqId) events s) : s.Follows seqId :=
  have hall : ∀ e ∈ events, True := fun _ _ => trivial
  hrun.invariant (follows_start seqId) (fun hf _ henabled hexec => hf.step henabled hexec) hall

/-- The statements of one call. -/
def callEvents (thread : Nat) : List SeqLockEvent :=
  .lock thread :: List.replicate 4 (.run thread)

/-- A call that nobody holds up is the function as a whole. -/
theorem run_call {s : SeqLock} (hfree : s.holder = none) (thread : Nat) :
    machine.Run s (callEvents thread)
      { seqId := (nextSeqId s.seqId).2
        holder := none
        returned := s.returned ++ [(thread, (nextSeqId s.seqId).1)] } := by
  refine Machine.run_of_play ?_
  rcases s with ⟨counter, holder, returned⟩
  cases hfree
  simp [Machine.play, machine, callEvents, enabled, exec, execSection, nextSeqId]

/-- The threads can draw in any order. -/
theorem exists_run_order (order : List Nat) :
    ∀ {s : SeqLock}, s.holder = none → ∃ events t, machine.Run s events t ∧
      t.returned.map Prod.fst = s.returned.map Prod.fst ++ order := by
  induction order with
  | nil =>
      intro s _
      exact ⟨[], s, Machine.Run.nil, (List.append_nil _).symm⟩
  | cons thread order ih =>
      intro s hfree
      let next : SeqLock :=
        { seqId := (nextSeqId s.seqId).2
          holder := none
          returned := s.returned ++ [(thread, (nextSeqId s.seqId).1)] }
      have hcall : machine.Run s (callEvents thread) next := run_call hfree thread
      rcases ih (s := next) rfl with ⟨events, t, hrun, hthreads⟩
      refine ⟨callEvents thread ++ events, t, hcall.trans hrun, ?_⟩
      rw [hthreads]
      simp [next]

end SeqLock

/-! ## The ids are distinct -/

/-- `hdl->seq_mtx` of a client with the calls of `uc_ipc_client_next_seq_id`. -/
def ucIpcClientSeqMtx : Machine SeqLock SeqLockEvent :=
  SeqLock.machine

/-- `hdl->seq_mutex` of a server with the calls of `uc_ipc_server_next_seq_id`. -/
def ucIpcServerSeqMutex : Machine SeqLock SeqLockEvent :=
  SeqLock.machine

/-- `k` calls from the counter `seqId` return different ids out of the reserved range. -/
structure DrawsDistinct (calls : Machine SeqLock SeqLockEvent) (seqId : UInt64) (k : Nat) :
    Prop where
  /-- the threads call in any order -/
  order : ∀ threads : List Nat, threads.length = k → ∃ events s,
    calls.Run (SeqLock.start seqId) events s ∧ s.returned.map Prod.fst = threads
  nodup : ∀ events s, calls.Run (SeqLock.start seqId) events s → s.returned.length = k →
    s.ids.Nodup
  min : ∀ events s, calls.Run (SeqLock.start seqId) events s → s.returned.length = k →
    ∀ id ∈ s.ids, ucIpcSeqIdMin ≤ id

theorem seqIdAfter_ge {seqId : UInt64} (hmin : ucIpcSeqIdMin ≤ seqId) (n : Nat) :
    ucIpcSeqIdMin ≤ seqIdAfter seqId n := by
  cases n with
  | zero => exact hmin
  | succ n =>
      rw [seqIdAfter_succ]
      exact clampSeqId_ge _

theorem drawsDistinct {seqId : UInt64} (hmin : ucIpcSeqIdMin ≤ seqId) {k : Nat}
    (hk : k ≤ seqIdCount) : DrawsDistinct SeqLock.machine seqId k where
  order := by
    intro threads _
    rcases SeqLock.exists_run_order threads (s := SeqLock.start seqId) rfl with
      ⟨events, s, hrun, hthreads⟩
    exact ⟨events, s, hrun, hthreads⟩
  nodup := by
    intro events s hrun hcount
    rw [(SeqLock.Follows.run hrun).history, hcount, List.Nodup, List.pairwise_map]
    refine List.Pairwise.imp_of_mem ?_ List.nodup_range
    intro i j hi hj hne heq
    have hi' : i < seqIdCount := lt_of_lt_of_le (List.mem_range.1 hi) hk
    have hj' : j < seqIdCount := lt_of_lt_of_le (List.mem_range.1 hj) hk
    exact hne (seqIdAfter_inj hmin hi' hj' heq)
  min := by
    intro events s hrun _ id hid
    rw [(SeqLock.Follows.run hrun).history] at hid
    rcases List.mem_map.1 hid with ⟨n, _, rfl⟩
    exact seqIdAfter_ge hmin n

/-- From every counter out of the reserved range, as many calls as there are ids out of it return
each id at most once, over the wrap of the counter too, whichever threads make them. -/
theorem nextSeqId_distinct {seqId : UInt64} (hmin : ucIpcSeqIdMin ≤ seqId) {k : Nat}
    (hk : k ≤ 2 ^ 64 - ucIpcSeqIdMin.toNat) :
    DrawsDistinct ucIpcClientSeqMtx seqId k ∧ DrawsDistinct ucIpcServerSeqMutex seqId k :=
  ⟨drawsDistinct hmin hk, drawsDistinct hmin hk⟩

/-- Three calls of two threads over the wrap of the counter. -/
theorem nextSeqId_distinct_wrap :
    ∃ events s, ucIpcClientSeqMtx.Run (SeqLock.start 0xffffffffffffffff) events s ∧
      s.returned = [(1, 0xffffffffffffffff), (2, 10000), (1, 10001)] ∧ s.ids.Nodup := by
  have hplay : ∃ s, ucIpcClientSeqMtx.play (SeqLock.start 0xffffffffffffffff)
      (SeqLock.callEvents 1 ++ SeqLock.callEvents 2 ++ SeqLock.callEvents 1) = some s ∧
      s.returned = [(1, 0xffffffffffffffff), (2, 10000), (1, 10001)] := ⟨_, rfl, rfl⟩
  rcases hplay with ⟨s, hplay, hreturned⟩
  have hrun := Machine.run_of_play hplay
  have hmin : ucIpcSeqIdMin ≤ 0xffffffffffffffff := by decide
  have hdistinct := (nextSeqId_distinct hmin (k := 3) (by decide)).1
  exact ⟨_, s, hrun, hreturned, hdistinct.nodup _ s hrun (congrArg List.length hreturned)⟩

end Ipc
end UtilsC
