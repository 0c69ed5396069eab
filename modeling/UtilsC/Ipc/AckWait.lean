import UtilsC.Ipc.Client

/-!
# Waiting for a reply

All waiting calls share the condition variable `ack_cond`, and the receive thread signals it once
for each reply it stores.

* `Overslept` is a call that sleeps although its reply is in its entry; nobody will wake it.
* `picksSleeper` leaves out the signals that pick another sleeper than the one the stored reply is
  for.  Without them no call oversleeps.
-/

namespace UtilsC
namespace Ipc
namespace Client

open Lib Hash

variable (s : Client)

/-- Call `c` sleeps on the node that the table holds for the id. -/
def sleepsOn (c : Nat) (id : UInt64) : Bool :=
  match (s.calls[c]?).map ClientCall.pc with
  -- a sleeper on a node that was deleted since does not count
  | some (.asleep id' node) => id' = id && s.ackNode id = node
  | _ => false

/-- Call `c` sleeps with its reply stored. -/
def Overslept (c : Nat) : Prop :=
  ∃ id msg, s.sleepsOn c id = true ∧ s.ackHash.get id = some (some msg)

/-- When a reply is stored, each call asleep on its entry is the one that the signal picks. -/
def picksSleeper : ClientEvent → Bool
  | .receive (.frame f) signalled =>
      !isReply (.frame f) || (s.ackHash.get f.head.ackId).isNone ||
        (List.range s.calls.length).all fun c =>
          !s.sleepsOn c f.head.ackId || signalled = some c
  | _ => true

theorem sleepsOn_iff {c : Nat} {id : UInt64} :
    s.sleepsOn c id = true ↔
      ∃ call, s.calls[c]? = some call ∧ call.pc = .asleep id (s.ackNode id) := by
  constructor
  · intro h
    simp only [sleepsOn] at h
    split at h
    · rename_i id' node hpc
      rcases Option.map_eq_some_iff.1 hpc with ⟨call, hcall, hcallPc⟩
      rcases (Bool.and_eq_true _ _).mp h with ⟨hid, hnode⟩
      refine ⟨call, hcall, ?_⟩
      rw [hcallPc, of_decide_eq_true hid, of_decide_eq_true hnode]
    · cases h
  · rintro ⟨call, hcall, hpc⟩
    simp [sleepsOn, hcall, hpc]

variable {s}

/-- A call that sleeps behind the setting of one program counter. -/
theorem sleepsOn_setPc {c c' : Nat} {pc : CallPc} {id : UInt64}
    (h : (s.setPc c pc).sleepsOn c' id = true) :
    (c = c' ∧ pc = .asleep id (s.ackNode id)) ∨ s.sleepsOn c' id = true := by
  rcases (sleepsOn_iff _).1 h with ⟨call, hcall, hpc⟩
  rw [setPc_calls] at hcall
  rcases Option.map_eq_some_iff.1 hcall with ⟨old, hold, hnew⟩
  -- it is the call whose program counter was set, or it slept before
  by_cases hc : c = c'
  · rw [if_pos hc] at hnew
    rw [← hnew] at hpc
    exact Or.inl ⟨hc, hpc⟩
  · rw [if_neg hc] at hnew
    rw [← hnew] at hpc
    exact Or.inr ((sleepsOn_iff s).2 ⟨old, hold, hpc⟩)

theorem signalPc_asleep {signalled : Option Nat} {c : Nat} {pc : CallPc} {id : UInt64} {node : Nat}
    (h : signalPc signalled c pc = .asleep id node) :
    signalled ≠ some c ∧ pc = .asleep id node := by
  unfold signalPc at h
  split at h
  · cases pc <;> cases h
  · rename_i hne
    exact ⟨hne, h⟩

/-- A call that still sleeps behind a signal slept before it, and was not the one picked. -/
theorem sleepsOn_signal {signalled : Option Nat} {c : Nat} {id : UInt64}
    (h : (s.signal signalled).sleepsOn c id = true) :
    signalled ≠ some c ∧ s.sleepsOn c id = true := by
  rcases (sleepsOn_iff _).1 h with ⟨call, hcall, hpc⟩
  rw [signal_calls] at hcall
  rcases Option.map_eq_some_iff.1 hcall with ⟨old, hold, hnew⟩
  rw [← hnew, signal_ackNode] at hpc
  rcases signalPc_asleep hpc with ⟨hne, hpc⟩
  exact ⟨hne, (sleepsOn_iff s).2 ⟨old, hold, hpc⟩⟩

theorem sleepsOn_store {id id' : UInt64} {msg : ClientMsg} {c : Nat}
    (h : (s.store id msg).sleepsOn c id' = true) : s.sleepsOn c id' = true := by
  rcases (sleepsOn_iff _).1 h with ⟨call, hcall, hpc⟩
  rw [store_calls] at hcall
  rcases Option.map_eq_some_iff.1 hcall with ⟨old, hold, hnew⟩
  have hsame : old.pc = call.pc := by
    rw [← hnew]
    split <;> rfl
  exact (sleepsOn_iff s).2 ⟨old, hold, hsame.trans hpc⟩

/-- A call goes to sleep on an empty entry only. -/
theorem CallStep.asleep_empty {c : Nat} {call : ClientCall} {e : ClientEvent} {t : Client}
    {pc : CallPc} (hstep : s.CallStep c call e t pc) {id : UInt64} {node : Nat}
    (hpc : pc = .asleep id node) : s.ackHash.get id = some none := by
  cases hstep with
  | sleep hget hnode hloop =>
      cases hpc
      exact hget
  | @send id' outcome _ =>
      -- behind a send no call is asleep
      cases hkind : call.kind <;> cases outcome <;> simp [hkind, afterSend, ucIpcClientSend] at hpc
  | noEntry _ _ => cases hkind : call.kind <;> simp [hkind, waitAckFailPc] at hpc
  | fail _ _ => cases hkind : call.kind <;> simp [hkind, waitAckFailPc] at hpc
  | _ => cases hpc

/-- A call's own step leaves the other sleepers where they are. -/
theorem CallStep.sleepsOn {c : Nat} {call : ClientCall} {e : ClientEvent} {t : Client}
    {pc : CallPc} (hstep : s.CallStep c call e t pc) {c' : Nat} {id : UInt64}
    (hnode : t.ackNode id = s.ackNode id) (h : t.sleepsOn c' id = true) :
    s.sleepsOn c' id = true := by
  rcases (sleepsOn_iff t).1 h with ⟨old, hold, hpc⟩
  rw [hstep.calls_eq] at hold
  rw [hnode] at hpc
  exact (sleepsOn_iff s).2 ⟨old, hold, hpc⟩

/-- The step lemma.  Only the store of a reply can make a call oversleep. -/
theorem not_overslept_step {e : ClientEvent} {s' : Client} (hJ : ∀ c, ¬ s.Overslept c)
    (hpicks : s.picksSleeper e = true) (hstep : s.Step e s') : ∀ c, ¬ s'.Overslept c := by
  rintro c' ⟨id, msg, hsleeps, hget⟩
  cases hstep with
  | call =>
      rcases (sleepsOn_iff _).1 hsleeps with ⟨call, hcall, hpc⟩
      rcases snoc_call hcall with hold | ⟨_, rfl⟩
      · exact hJ c' ⟨id, msg, (sleepsOn_iff s).2 ⟨call, hold, hpc⟩, hget⟩
      · -- the new call is at its entry
        cases hpc
  | reseed => exact hJ c' ⟨id, msg, hsleeps, hget⟩
  | @caller c call e t pc hcall hstep =>
      -- the reply was there before, and no call falls asleep on a reply
      rcases hstep.get_stored hget with ⟨hold, hnode⟩
      rcases sleepsOn_setPc hsleeps with ⟨_, hpc⟩ | hslept
      · rw [hstep.asleep_empty hpc] at hold
        cases hold
      · exact hJ c' ⟨id, msg, hstep.sleepsOn hnode hslept, hold⟩
  | @receive arrival signalled s' hrcv =>
      cases hrcv with
      | quiet => exact hJ c' ⟨id, msg, hsleeps, hget⟩
      | late _ =>
          -- the signal for a late reply only wakes
          rw [signal_ackHash] at hget
          exact hJ c' ⟨id, msg, (sleepsOn_signal hsleeps).2, hget⟩
      | @store f msg' hreply hmsg hbound =>
          rcases sleepsOn_signal hsleeps with ⟨hne, hslept⟩
          have hslept' : s.sleepsOn c' id = true := sleepsOn_store hslept
          have hother := store_get { s with blocks := s.blocks + 1 } f.head.ackId id msg' hbound
          rw [signal_ackHash, hother] at hget
          split at hget
          · -- the sleeper is one whose reply was just stored: the signal has picked it
            rename_i hid
            rcases (sleepsOn_iff s).1 hslept' with ⟨call, hcall, _⟩
            have hc' : c' < s.calls.length := (List.getElem?_eq_some_iff.1 hcall).1
            have hbound' : (s.ackHash.get f.head.ackId).isNone = false := by
              simpa [Option.isSome_iff_ne_none] using hbound
            simp only [picksSleeper, hreply, hbound', Bool.not_true, Bool.false_or,
              List.all_eq_true, List.mem_range] at hpicks
            have hpick := hpicks c' hc'
            rw [← hid, hslept'] at hpick
            exact hne (by simpa using hpick)
          · exact hJ c' ⟨id, msg, hslept', hget⟩

/-- In every run in which each signal for a stored reply picks the call that sleeps on its entry,
no call sleeps with its reply stored. -/
theorem ucIpcClientWaitAck_noLostWakeup {seqId : UInt64} {events : List ClientEvent} {s : Client}
    (hrun : (machine.restrict picksSleeper).Run (ofInit seqId) events s) (c : Nat) :
    ¬ s.Overslept c := by
  have hnone : ∀ c, ¬ s.Overslept c := by
    refine hrun.invariant (J := fun s => ∀ c, ¬ s.Overslept c) ?_ ?_
      (fun _ _ => trivial : ∀ e ∈ events, True)
    · -- the table is empty at first
      rintro c ⟨id, msg, _, hget⟩
      simp [ofInit] at hget
    · intro s₁ s₂ e hJ _ henabled hexec
      rcases (Bool.and_eq_true _ _).mp henabled with ⟨henabled', hpicks⟩
      exact not_overslept_step hJ hpicks (step_of_exec henabled' hexec)
  exact hnone c

/-- Two synchronous calls that both sleep; the ids are 10000 and 10001. -/
def twoSleepers : List ClientEvent :=
  [.call .syncSend Payload.empty 0, .draw 0, .insert 0 (some (nodeAt 16)), .send 0 .written,
    .wait 0, .call .syncSend Payload.empty 0, .draw 1, .insert 1 (some (nodeAt 32)),
    .send 1 .written, .wait 1]

/-- The reply to the call with this id arrives, and the signal picks a call. -/
def replyTo (id : UInt64) (signalled : Nat) : ClientEvent :=
  .receive (.frame (Frame.build ucIpcMsgTypeSyncAck 20000 id Payload.empty)) (some signalled)

/-- Both replies arrive and each signal picks the call that it is for. -/
theorem ucIpcClientWaitAck_noLostWakeup_both :
    ∃ s : Client, (machine.restrict picksSleeper).Run (ofInit 0)
        (twoSleepers ++ [replyTo 10001 1, replyTo 10000 0, .resume 0]) s ∧
      ∀ c, ¬ s.Overslept c := by
  have hplay : ((machine.restrict picksSleeper).play (ofInit 0)
      (twoSleepers ++ [replyTo 10001 1, replyTo 10000 0, .resume 0])).any
        (fun _ => true) = true := by
    decide +kernel
  rcases Machine.exists_run_of_play hplay with ⟨s, hrun, _⟩
  exact ⟨s, hrun, ucIpcClientWaitAck_noLostWakeup hrun⟩

/-- The first reply arrives and the signal picks the second call, which finds its own entry empty
and sleeps again.  Both calls sleep, the first with its reply stored. -/
theorem ucIpcClientWaitAck_overslept :
    ∃ s : Client, machine.Run (ofInit 0) (twoSleepers ++ [replyTo 10000 1, .resume 1]) s ∧
      s.Overslept 0 ∧ s.calls.all isAsleep = true := by
  have hplay : (machine.play (ofInit 0) (twoSleepers ++ [replyTo 10000 1, .resume 1])).any
      (fun s => s.sleepsOn 0 10000 && (s.ackHash.get 10000).join.isSome && s.calls.all isAsleep) =
        true := by
    decide +kernel
  rcases Machine.exists_run_of_play hplay with ⟨s, hrun, htest⟩
  rcases (Bool.and_eq_true _ _).mp htest with ⟨htest, hall⟩
  rcases (Bool.and_eq_true _ _).mp htest with ⟨hsleeps, hstored⟩
  rcases Option.isSome_iff_exists.1 hstored with ⟨msg, hmsg⟩
  exact ⟨s, hrun, ⟨10000, msg, hsleeps, Option.join_eq_some_iff.1 hmsg⟩, hall⟩

end Client
end Ipc
end UtilsC
