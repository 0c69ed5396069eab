import UtilsC.Lib.Machine
import UtilsC.Random.Urandom
import Mathlib.Data.List.Induction

/-!
# Sequence ids

Every message carries a sequence id drawn from a 64-bit counter.  The ids below
`UC_IPC_SEQ_ID_MIN` are reserved; the counter is kept above them by a test behind every change.

* `ucIpcClientNextSeqId` and `ucIpcServerNextSeqId` draw an id.
* `SeqClient.machine` is the client's counter under its senders, its heartbeats and its
  reconnects, with every section under `seq_mtx` as one step.
* A reconnect lets `uc_urandom` write straight into the counter; `Exposed` is a run in which an id
  is drawn right after that has failed and left a reserved number.
-/

namespace UtilsC
namespace Ipc

open Lib UtilsC.Random

/-- `UC_IPC_SEQ_ID_MIN`. -/
def ucIpcSeqIdMin : UInt64 := 10000

/-- `if (seq_id < UC_IPC_SEQ_ID_MIN) seq_id = UC_IPC_SEQ_ID_MIN`. -/
def clampSeqId (seqId : UInt64) : UInt64 :=
  if seqId < ucIpcSeqIdMin then ucIpcSeqIdMin else seqId

/-- The id drawn, and the counter afterwards. -/
def nextSeqId (seqId : UInt64) : UInt64 × UInt64 :=
  (seqId, clampSeqId (seqId + 1))

/-- `uc_ipc_client_next_seq_id`. -/
def ucIpcClientNextSeqId (seqId : UInt64) : UInt64 × UInt64 :=
  nextSeqId seqId

/-- `uc_ipc_server_next_seq_id`. -/
def ucIpcServerNextSeqId (seqId : UInt64) : UInt64 × UInt64 :=
  nextSeqId seqId

/-- The counter as `uc_urandom` leaves it, with the status. -/
def reseed (opened : Bool) (answers : List ReadAnswer) : Option (Int × UInt64) :=
  (ucUrandom opened answers 8).map fun r => (r.1, UInt64.ofNat (leNat r.2))

theorem clampSeqId_ge (seqId : UInt64) : ucIpcSeqIdMin ≤ clampSeqId seqId := by
  rw [clampSeqId]
  split
  · exact UInt64.le_refl _
  · rename_i h
    exact UInt64.not_lt.1 h

/-! ## Ids drawn one after another -/

/-- The counter after a number of ids have been drawn. -/
def seqIdAfter (seqId : UInt64) (n : Nat) : UInt64 :=
  (fun id => (nextSeqId id).2)^[n] seqId

theorem seqIdAfter_succ (seqId : UInt64) (n : Nat) :
    seqIdAfter seqId (n + 1) = (nextSeqId (seqIdAfter seqId n)).2 :=
  Function.iterate_succ_apply' _ _ _

/-- How many ids there are. -/
def seqIdCount : Nat := 2 ^ 64 - 10000

/-- The counter runs through the ids in a circle. -/
theorem seqIdAfter_toNat {seqId : UInt64} (hmin : ucIpcSeqIdMin ≤ seqId) (n : Nat) :
    (seqIdAfter seqId n).toNat = 10000 + (seqId.toNat - 10000 + n) % seqIdCount := by
  have hmin' : 10000 ≤ seqId.toNat := UInt64.le_iff_toNat_le.1 hmin
  have hlt := seqId.toNat_lt
  have hcount : seqIdCount = 18446744073709541616 := rfl
  -- each step of the circle is one draw
  induction n with
  | zero =>
      show seqId.toNat = _
      rw [hcount]
      omega
  | succ n ih =>
      rw [seqIdAfter_succ]
      generalize seqIdAfter seqId n = id at ih ⊢
      have hsum : (id + 1).toNat = (id.toNat + 1) % 2 ^ 64 := UInt64.toNat_add id 1
      show (clampSeqId (id + 1)).toNat = _
      rw [hcount] at ih ⊢
      rw [clampSeqId]
      split
      · rename_i hwrap
        -- the sum has wrapped around, and the counter starts again at the least id
        have hwrap' : (id + 1).toNat < 10000 := UInt64.lt_iff_toNat_lt.1 hwrap
        show 10000 = _
        omega
      · rename_i hkeep
        -- the circle goes on
        have hkeep' : ¬ (id + 1).toNat < 10000 := fun h => hkeep (UInt64.lt_iff_toNat_lt.2 h)
        omega

/-- Fewer draws than there are ids draw each id at most once. -/
theorem seqIdAfter_inj {seqId : UInt64} (hmin : ucIpcSeqIdMin ≤ seqId) {m n : Nat}
    (hm : m < seqIdCount) (hn : n < seqIdCount) (h : seqIdAfter seqId m = seqIdAfter seqId n) :
    m = n := by
  have hnat := congrArg UInt64.toNat h
  rw [seqIdAfter_toNat hmin, seqIdAfter_toNat hmin] at hnat
  have hcount : seqIdCount = 18446744073709541616 := rfl
  rw [hcount] at hm hn hnat
  omega

/-! ## The counter of a client -/

/-- `returned` are the ids drawn so far, in order; the code keeps no such list. -/
structure SeqClient where
  seqId : UInt64
  reconnecting : Bool
  returned : List UInt64

/-- `next` is a call of `uc_ipc_client_next_seq_id` by any thread, `reconnect` the receive thread
entering `uc_ipc_client_reconnect`, `reseed` one round of its loop around `uc_urandom`. -/
inductive SeqEvent
  | next
  | reconnect
  | reseed (opened : Bool) (answers : List ReadAnswer)

namespace SeqClient

/-- `uc_ipc_init_client` as far as the counter goes: it gives up when `uc_urandom` fails. -/
def ucIpcInitClient (opened : Bool) (answers : List ReadAnswer) : Option SeqClient :=
  (reseed opened answers).bind fun r =>
    if r.1 ≠ 0 then
      none
    else
      some { seqId := clampSeqId r.2, reconnecting := false, returned := [] }

def enabled (s : SeqClient) : SeqEvent → Bool
  | .next => true
  | .reconnect => !s.reconnecting
  | .reseed opened answers => s.reconnecting && (reseed opened answers).isSome

def exec (s : SeqClient) : SeqEvent → Option SeqClient
  | .next =>
      let r := ucIpcClientNextSeqId s.seqId
      some { s with seqId := r.2, returned := s.returned ++ [r.1] }
  | .reconnect => some { s with reconnecting := true }
  | .reseed opened answers =>
      (reseed opened answers).map fun r =>
        if r.1 ≠ 0 then
          -- the lock is released with the counter as it is
          { s with seqId := r.2 }
        else
          { s with seqId := clampSeqId r.2, reconnecting := false }

def machine : Machine SeqClient SeqEvent :=
  { enabled := enabled, exec := exec }

end SeqClient

/-! ## When an id is reserved -/

/-- A round of the reconnect loop that fails and leaves a reserved number in the counter. -/
def LeavesReserved : SeqEvent → Prop
  | .reseed opened answers =>
      ∃ ret left, reseed opened answers = some (ret, left) ∧ ret ≠ 0 ∧ left < ucIpcSeqIdMin
  | _ => False

/-- Some id is drawn right behind such a round. -/
def Exposed (events : List SeqEvent) : Prop :=
  ∃ pre e post, events = pre ++ e :: .next :: post ∧ LeavesReserved e

theorem not_exposed_of_forall {events : List SeqEvent} (h : ∀ e ∈ events, ¬ LeavesReserved e) :
    ¬ Exposed events := by
  rintro ⟨pre, e, post, heq, hleaves⟩
  exact h e (by simp [heq]) hleaves

/-- The counter holds a reserved number only behind such a round. -/
structure SeqClient.Follows (events : List SeqEvent) (s : SeqClient) : Prop where
  calm : s.reconnecting = false → ucIpcSeqIdMin ≤ s.seqId
  reserved : s.seqId < ucIpcSeqIdMin ↔ ∃ pre e, events = pre ++ [e] ∧ LeavesReserved e
  returned : (∀ id ∈ s.returned, ucIpcSeqIdMin ≤ id) ↔ ¬ Exposed events

theorem exposed_append_singleton {events : List SeqEvent} {e : SeqEvent} :
    Exposed (events ++ [e]) ↔
      Exposed events ∨ (e = .next ∧ ∃ pre e', events = pre ++ [e'] ∧ LeavesReserved e') := by
  constructor
  · rintro ⟨pre, e', post, heq, hleaves⟩
    -- the last event is the draw in question, or it comes behind it
    cases post using List.reverseRecOn with
    | nil =>
        have hsplit : events ++ [e] = (pre ++ [e']) ++ [.next] := by simpa using heq
        rcases List.append_inj' hsplit rfl with ⟨hpre, hlast⟩
        exact Or.inr ⟨(List.cons.inj hlast).1, pre, e', hpre, hleaves⟩
    | append_singleton post last =>
        have hsplit : events ++ [e] = (pre ++ e' :: .next :: post) ++ [last] := by simpa using heq
        rcases List.append_inj' hsplit rfl with ⟨hpre, _⟩
        exact Or.inl ⟨pre, e', post, hpre, hleaves⟩
  · rintro (⟨pre, e', post, heq, hleaves⟩ | ⟨he, pre, e', heq, hleaves⟩)
    · exact ⟨pre, e', post ++ [e], by simp [heq], hleaves⟩
    · exact ⟨pre, e', [], by simp [heq, he], hleaves⟩

theorem last_append_singleton {events : List SeqEvent} {e : SeqEvent} :
    (∃ pre e', events ++ [e] = pre ++ [e'] ∧ LeavesReserved e') ↔ LeavesReserved e := by
  constructor
  · rintro ⟨pre, e', heq, hleaves⟩
    rcases List.append_inj' heq rfl with ⟨_, hlast⟩
    exact (List.cons.inj hlast).1 ▸ hleaves
  · intro hleaves
    exact ⟨events, e, rfl, hleaves⟩

/-- One step of the counter. -/
theorem SeqClient.Follows.step {events : List SeqEvent} {s s' : SeqClient} {e : SeqEvent}
    (hf : s.Follows events) (henabled : s.enabled e = true) (hexec : s.exec e = some s') :
    s'.Follows (events ++ [e]) := by
  have hclamp : ∀ v, ¬ clampSeqId v < ucIpcSeqIdMin := fun v => UInt64.not_lt.2 (clampSeqId_ge v)
  cases e with
  | next =>
      cases hexec
      refine ⟨fun _ => clampSeqId_ge _, ?_, ?_⟩
      · rw [last_append_singleton]
        exact iff_of_false (hclamp _) id
      · -- the id drawn is the counter as the last section left it
        rw [exposed_append_singleton, not_or, ← hf.returned]
        have hdrawn : ucIpcSeqIdMin ≤ s.seqId ↔
            ¬ ∃ pre e', events = pre ++ [e'] ∧ LeavesReserved e' := by
          rw [← hf.reserved, UInt64.not_lt]
        simp only [ucIpcClientNextSeqId, nextSeqId, List.mem_append, List.mem_singleton, true_and]
        rw [← hdrawn]
        constructor
        · intro h
          exact ⟨fun id hid => h id (Or.inl hid), h _ (Or.inr rfl)⟩
        · rintro ⟨hold, hnew⟩ id (hid | rfl)
          · exact hold id hid
          · exact hnew
  | reconnect =>
      have hidle : s.reconnecting = false := by simpa [SeqClient.enabled] using henabled
      cases hexec
      -- a reconnect starts with an id that may be drawn, and does not touch it yet
      refine ⟨fun h => absurd h (by simp), ?_, ?_⟩
      · rw [last_append_singleton]
        exact iff_of_false (UInt64.not_lt.2 (hf.calm hidle)) id
      · rw [exposed_append_singleton]
        simpa using hf.returned
  | reseed opened answers =>
      rcases Option.map_eq_some_iff.1 hexec with ⟨⟨ret, left⟩, hreseed, hs'⟩
      have hexposed : ¬ Exposed (events ++ [.reseed opened answers]) ↔ ¬ Exposed events := by
        rw [exposed_append_singleton]
        simp
      have hreturned : s'.returned = s.returned := by
        rw [← hs']
        split <;> rfl
      have hrunning : s.reconnecting = true := by
        have h := henabled
        simp only [SeqClient.enabled, Bool.and_eq_true] at h
        exact h.1
      refine ⟨?_, ?_, by rw [hexposed, hreturned, hf.returned]⟩
      · intro hdone
        rw [← hs'] at hdone ⊢
        split at hdone
        · rw [hrunning] at hdone
          cases hdone
        · rename_i hret
          rw [if_neg hret]
          exact clampSeqId_ge _
      rw [last_append_singleton]
      -- a round that fails leaves what was read of the seed, one that succeeds clamps it
      by_cases hret : ret ≠ 0
      · rw [if_pos hret] at hs'
        rw [← hs']
        constructor
        · intro hlt
          exact ⟨ret, left, hreseed, hret, hlt⟩
        · rintro ⟨ret', left', hreseed', _, hlt⟩
          have hsame : (ret, left) = (ret', left') := Option.some.inj (hreseed.symm.trans hreseed')
          cases hsame
          exact hlt
      · rw [if_neg hret] at hs'
        rw [← hs']
        refine iff_of_false (hclamp _) ?_
        rintro ⟨ret', left', hreseed', hret', _⟩
        have hsame : (ret, left) = (ret', left') := Option.some.inj (hreseed.symm.trans hreseed')
        cases hsame
        exact hret hret'

/-- Every id that a client draws is out of the reserved range exactly in the runs in which no call
of `uc_ipc_client_next_seq_id` takes the lock right behind a round of the reconnect loop in which
`uc_urandom` failed and left a reserved number. -/
theorem ucIpcClientNextSeqId_min_iff {opened : Bool} {answers : List ReadAnswer}
    {start s : SeqClient} (hinit : SeqClient.ucIpcInitClient opened answers = some start)
    {events : List SeqEvent} (hrun : SeqClient.machine.Run start events s) :
    (∀ id ∈ s.returned, ucIpcSeqIdMin ≤ id) ↔ ¬ Exposed events := by
  have hstart : start.Follows [] := by
    rcases Option.bind_eq_some_iff.1 hinit with ⟨⟨ret, left⟩, _, hrest⟩
    split at hrest
    · cases hrest
    · cases hrest
      refine ⟨fun _ => clampSeqId_ge _, ?_, ?_⟩
      · refine iff_of_false (UInt64.not_lt.2 (clampSeqId_ge _)) ?_
        rintro ⟨pre, e, heq, _⟩
        simp at heq
      · refine iff_of_true (by simp) ?_
        rintro ⟨pre, e, post, heq, _⟩
        simp at heq
  have hfollows : s.Follows events := by
    -- the induction is on the run, event by event
    clear hinit
    induction hrun with
    | nil => exact hstart
    | snoc _ henabled hexec ih => exact ih.step henabled hexec
  exact hfollows.returned

/-- The seed 2^32, read in two pieces. -/
def seedBytes : List ReadAnswer :=
  [.data [0, 0, 0], .eintr, .data [0, 1, 0, 0, 0]]

/-- A reconnect whose first round fails, but leaves a number out of the reserved range. -/
theorem ucIpcClientNextSeqId_min_partial :
    ∃ start s : SeqClient, SeqClient.ucIpcInitClient true seedBytes = some start ∧
      SeqClient.machine.Run start [.next, .reconnect, .reseed true [.data [0, 0, 7], .error], .next,
        .reseed true seedBytes, .next] s ∧
      ∀ id ∈ s.returned, ucIpcSeqIdMin ≤ id := by
  have hplay : ∃ start s : SeqClient, SeqClient.ucIpcInitClient true seedBytes = some start ∧
      SeqClient.machine.play start [.next, .reconnect, .reseed true [.data [0, 0, 7], .error],
        .next, .reseed true seedBytes, .next] = some s := ⟨_, _, rfl, rfl⟩
  rcases hplay with ⟨start, s, hinit, hplay⟩
  have hrun := Machine.run_of_play hplay
  refine ⟨start, s, hinit, hrun, (ucIpcClientNextSeqId_min_iff hinit hrun).2 ?_⟩
  refine not_exposed_of_forall ?_
  have hshort : reseed true [.data [0, 0, 7], .error] = some (-0x5d4a2a08, 0x70000) := rfl
  have hfull : reseed true seedBytes = some (0, 0x100000000) := rfl
  intro e he hleaves
  simp only [List.mem_cons, List.not_mem_nil, or_false] at he
  rcases he with rfl | rfl | rfl | rfl | rfl | rfl
  · exact hleaves
  · exact hleaves
  · rcases hleaves with ⟨ret, left, hreseed, _, hlt⟩
    rw [hshort] at hreseed
    cases hreseed
    exact absurd hlt (by decide)
  · exact hleaves
  · rcases hleaves with ⟨ret, left, hreseed, hret, _⟩
    rw [hfull] at hreseed
    cases hreseed
    exact hret rfl
  · exact hleaves

/-- `/dev/urandom` cannot be opened once during a reconnect: the next sender draws the id 0. -/
theorem ucIpcClientNextSeqId_reserved :
    ∃ start s : SeqClient, SeqClient.ucIpcInitClient true seedBytes = some start ∧
      SeqClient.machine.Run start [.reconnect, .reseed false [], .next] s ∧ s.returned = [0] := by
  have hplay : ∃ start s : SeqClient, SeqClient.ucIpcInitClient true seedBytes = some start ∧
      SeqClient.machine.play start [.reconnect, .reseed false [], .next] = some s ∧
      s.returned = [0] := ⟨_, _, rfl, rfl, rfl⟩
  rcases hplay with ⟨start, s, hinit, hplay, hreturned⟩
  exact ⟨start, s, hinit, Machine.run_of_play hplay, hreturned⟩

end Ipc
end UtilsC
