import UtilsC.Lib.Placement
import UtilsC.Ipc.Client

/-!
# What becomes of a received message

The receive loop allocates a block for each message.  It frees the block, or stores it in the entry
of a waiting call, which takes it out again.

* `Accounted`: every block allocated so far was freed, is in one entry, or was taken out by one
  call; `blockPlacement` is the placement behind it.
* `keepsMessages` leaves out the rounds that lose a message: a reconnect behind the allocation, and
  a reply stored over another one.
* `ucIpcClientLoopRcv_accounted_iff`: these and no others break `Accounted`, and nothing mends it.
-/

namespace UtilsC
namespace Ipc

open Lib Hash

/-- The message that a call has handed to its caller. -/
def CallPc.handed : CallPc → Option ClientMsg
  | .returned _ msg => msg
  | _ => none

/-- Where the block of a message may be. -/
inductive MsgPlace
  /-- at this position among the blocks freed -/
  | freed (i : Nat)
  /-- in the entry of this id in `ack_hash` -/
  | entry (id : UInt64)
  /-- with the caller of this call, which has taken it out of its entry -/
  | caller (c : Nat)
  deriving DecidableEq

namespace Client

variable (s : Client)

def msgAt : MsgPlace → Option ClientMsg
  | .freed i => s.freed[i]?
  | .entry id => (s.ackHash.get id).join
  | .caller c => (s.calls[c]?).bind fun call => call.pc.handed

/-- Every block allocated so far is in exactly one place. -/
def Accounted : Prop :=
  ∀ b < s.blocks, ∃! place, (s.msgAt place).map ClientMsg.block = some b

/-- No payload is cut off, no heartbeat or reply has an `ack_id` below the least one, and no reply
is stored over another one. -/
def keepsMessages : ClientEvent → Bool
  | .receive (.cut head) _ => head.seqId < ucIpcSeqIdMin
  | .receive (.frame f) _ =>
      if f.head.seqId < ucIpcSeqIdMin then
        true
      else if f.head.msgType = ucIpcMsgTypeHeartbeat then
        !(f.head.ackId < ucIpcSeqIdMin)
      else if isAck f.head.msgType = true then
        !(f.head.ackId < ucIpcSeqIdMin) && (s.ackHash.get f.head.ackId).join.isNone
      else
        true
  | _ => true

def blockPlacement : Placement MsgPlace where
  count := s.blocks
  holds place := (s.msgAt place).map ClientMsg.block

theorem accounted_iff : s.Accounted ↔ s.blockPlacement.Complete :=
  Iff.rfl

theorem blockPlacement_eq {t : Client} {l : Placement MsgPlace} (hcount : t.blocks = l.count)
    (hholds : ∀ place, (t.msgAt place).map ClientMsg.block = l.holds place) :
    t.blockPlacement = l := by
  have hfun : t.blockPlacement.holds = l.holds := funext hholds
  cases l
  cases hcount
  cases hfun
  rfl

variable {s}

/-! ## Where the messages are behind a step -/

section Transfers

variable {t : Client}

theorem transfer_stay (hblocks : t.blocks = s.blocks)
    (hmsg : ∀ place, t.msgAt place = s.msgAt place) :
    Placement.Transfer true s.blockPlacement t.blockPlacement := by
  have heq : t.blockPlacement = s.blockPlacement :=
    blockPlacement_eq hblocks fun place => congrArg (Option.map ClientMsg.block) (hmsg place)
  rw [heq]
  exact .stay

theorem transfer_move {p q : MsgPlace} (hblocks : t.blocks = s.blocks) (hfree : s.msgAt q = none)
    (hmsg : ∀ place, t.msgAt place =
      if place = q then s.msgAt p else if place = p then none else s.msgAt place) :
    Placement.Transfer true s.blockPlacement t.blockPlacement := by
  have heq : t.blockPlacement = s.blockPlacement.move p q := by
    refine blockPlacement_eq hblocks fun place => ?_
    rw [hmsg]
    by_cases hq : place = q
    · rw [if_pos hq, hq, Placement.move_target]
      rfl
    · rw [if_neg hq]
      by_cases hp : place = p
      · rw [if_pos hp, hp, Placement.move_source (hp ▸ hq)]
        rfl
      · rw [if_neg hp, Placement.move_other hq hp]
        rfl
  rw [heq]
  exact .move (congrArg (Option.map ClientMsg.block) hfree)

/-- The new message is put in a place, which held another one or none. -/
theorem transfer_put {q : MsgPlace} {msg : ClientMsg} (hblock : msg.block = s.blocks)
    (hblocks : t.blocks = s.blocks + 1)
    (hmsg : ∀ place, t.msgAt place = if place = q then some msg else s.msgAt place) :
    Placement.Transfer (s.msgAt q).isNone s.blockPlacement t.blockPlacement := by
  have heq : t.blockPlacement = s.blockPlacement.put q := by
    refine blockPlacement_eq hblocks fun place => ?_
    rw [hmsg]
    by_cases hq : place = q
    · rw [if_pos hq, hq, Placement.put_target]
      exact congrArg some hblock
    · rw [if_neg hq, Placement.put_other hq]
      rfl
  rw [heq]
  cases hheld : s.msgAt q with
  | none => exact .put (congrArg (Option.map ClientMsg.block) hheld)
  | some old => exact .cover (congrArg (Option.map ClientMsg.block) hheld)

/-- The new message is in no place. -/
theorem transfer_lose : Placement.Transfer false s.blockPlacement
    ({ s with blocks := s.blocks + 1 } : Client).blockPlacement :=
  .lose

end Transfers

theorem getElem?_append_toList {α : Type} (l : List α) (o : Option α) (i : Nat) :
    (l ++ o.toList)[i]? = if i = l.length then o else l[i]? := by
  by_cases hi : i = l.length
  · cases o <;> simp [hi]
  · rw [if_neg hi, List.getElem?_append]
    cases o with
    | none => simp
    | some v =>
        have hlen : ∀ j, j ≠ 0 → ([v] : List α)[j]? = none := by simp
        split
        · rfl
        · rw [Option.toList_some, hlen _ (by omega), List.getElem?_eq_none (by omega)]

/-! ## The steps of a call -/

section Moves

variable {t : Client} {c : Nat} {call : ClientCall} {pc : CallPc}

/-- A call that has not returned holds no message. -/
theorem CallStep.handed_eq {e : ClientEvent} (h : s.CallStep c call e t pc) :
    call.pc.handed = none := by
  have hloop : ∀ {e : ClientEvent} {id : UInt64} {node : Nat}, s.InLoop c call e id node →
      call.pc.handed = none := by
    rintro e id node (⟨_, hpc, _⟩ | ⟨_, hpc, _⟩)
    · rw [hpc]
      rfl
    · rw [hpc]
      rfl
  cases h with
  | send hpc => rcases hpc with ⟨hpc, _⟩ | ⟨hpc, _⟩ <;> rw [hpc] <;> rfl
  | deleteSeq hpc _ => rcases hpc with hpc | hpc <;> rw [hpc] <;> rfl
  | sleep _ _ hpc =>
      rcases hpc with hpc | ⟨_, hpc⟩
      · exact hloop hpc
      · rw [hpc]
        rfl
  | take _ hpc _ => exact hloop hpc
  | takeAsync _ hpc _ => exact hloop hpc
  | draw hpc => rw [hpc]; rfl
  | insert hpc _ _ => rw [hpc]; rfl
  | insertFail hpc _ => rw [hpc]; rfl
  | noEntry hpc _ => rw [hpc]; rfl
  | fail hpc _ => rw [hpc]; rfl
  | wake hpc => rw [hpc]; rfl

theorem CallStep.keepsMessages {e : ClientEvent} (h : s.CallStep c call e t pc) :
    s.keepsMessages e = true := by
  cases h with
  | sleep _ _ hpc => rcases hpc with (⟨rfl, _⟩ | ⟨rfl, _⟩) | ⟨rfl, _⟩ <;> rfl
  | take _ hpc _ => rcases hpc with ⟨rfl, _⟩ | ⟨rfl, _⟩ <;> rfl
  | takeAsync _ hpc _ => rcases hpc with ⟨rfl, _⟩ | ⟨rfl, _⟩ <;> rfl
  | _ => rfl

/-- What the callers hold behind a step of one call. -/
theorem msgAt_setPc (hcalls : t.calls = s.calls) (hcall : s.calls[c]? = some call) (c' : Nat) :
    (t.setPc c pc).msgAt (.caller c') = if c' = c then pc.handed else s.msgAt (.caller c') := by
  by_cases hc : c' = c
  · rw [if_pos hc, hc, msgAt, setPc_call_self (hcalls ▸ hcall)]
    rfl
  · rw [if_neg hc, msgAt, setPc_call_ne hc, hcalls]
    rfl

theorem msgAt_caller (hcall : s.calls[c]? = some call) :
    s.msgAt (.caller c) = call.pc.handed := by
  rw [msgAt, hcall]
  rfl

variable (hcall : s.calls[c]? = some call) (hhanded : call.pc.handed = none)
  (hcalls : t.calls = s.calls) (hblocks : t.blocks = s.blocks)
include hcall hhanded hcalls

/-- A call that holds nothing still holds nothing. -/
theorem msgAt_setPc_none (hpc : pc.handed = none) (c' : Nat) :
    (t.setPc c pc).msgAt (.caller c') = s.msgAt (.caller c') := by
  rw [msgAt_setPc hcalls hcall]
  split
  · rename_i hc
    rw [hpc, hc, msgAt_caller hcall, hhanded]
  · rfl

include hblocks

/-- A step that leaves the messages where they are. -/
theorem transfer_setPc (hpc : pc.handed = none) (hfreed : t.freed = s.freed)
    (hget : ∀ id, (t.ackHash.get id).join = (s.ackHash.get id).join) :
    Placement.Transfer true s.blockPlacement (t.setPc c pc).blockPlacement := by
  refine transfer_stay hblocks fun place => ?_
  cases place with
  | freed i => exact congrArg (·[i]?) hfreed
  | entry id => exact hget id
  | caller c' => exact msgAt_setPc_none hcall hhanded hcalls hpc c'

/-- A step that frees what is in an entry. -/
theorem transfer_free {id : UInt64} (hpc : pc.handed = none)
    (hfreed : t.freed = s.freed ++ (s.ackHash.get id).join.toList)
    (hget : ∀ id', (t.ackHash.get id').join = if id' = id then none else (s.ackHash.get id').join) :
    Placement.Transfer true s.blockPlacement (t.setPc c pc).blockPlacement := by
  refine transfer_move (p := .entry id) (q := .freed s.freed.length) hblocks (by simp [msgAt]) ?_
  intro place
  cases place with
  | freed i =>
      -- an entry with NULL adds nothing to the list, and the move then moves nothing
      show t.freed[i]? = _
      rw [hfreed, getElem?_append_toList]
      simp [msgAt]
  | entry id' =>
      show (t.ackHash.get id').join = _
      rw [hget]
      simp [msgAt]
  | caller c' =>
      rw [msgAt_setPc_none hcall hhanded hcalls hpc]
      simp

/-- A step with which a call takes what is in an entry. -/
theorem transfer_take {id : UInt64} (hpc : pc.handed = (s.ackHash.get id).join)
    (hfreed : t.freed = s.freed)
    (hget : ∀ id', (t.ackHash.get id').join = if id' = id then none else (s.ackHash.get id').join) :
    Placement.Transfer true s.blockPlacement (t.setPc c pc).blockPlacement := by
  refine transfer_move (p := .entry id) (q := .caller c) hblocks
    ((msgAt_caller hcall).trans hhanded) ?_
  intro place
  cases place with
  | freed i =>
      show t.freed[i]? = _
      rw [hfreed]
      simp [msgAt]
  | entry id' =>
      show (t.ackHash.get id').join = _
      rw [hget]
      simp [msgAt]
  | caller c' =>
      rw [msgAt_setPc hcalls hcall, hpc]
      simp [msgAt]

end Moves

theorem withoutEntry_join (id id' : UInt64) : ((s.withoutEntry id).ackHash.get id').join =
    if id' = id then none else (s.ackHash.get id').join := by
  rw [withoutEntry_get]
  split <;> rfl

theorem afterSend_handed (kind : CallKind) (id : UInt64) (ret : Int) :
    (afterSend kind id ret).handed = none := by
  cases kind with
  | heartbeat => rfl
  | _ =>
      simp only [afterSend]
      split <;> rfl

theorem waitAckFailPc_handed (kind : CallKind) (id : UInt64) (ret : Int) :
    (waitAckFailPc kind id ret).handed = none := by
  cases kind <;> rfl

/-- A step of a call loses no message. -/
theorem transfer_callStep {c : Nat} {call : ClientCall} {e : ClientEvent} {t : Client}
    {pc : CallPc} (hcall : s.calls[c]? = some call) (hstep : s.CallStep c call e t pc) :
    Placement.Transfer true s.blockPlacement (t.setPc c pc).blockPlacement := by
  have hhanded := hstep.handed_eq
  have hcalls := hstep.calls_eq
  cases hstep with
  | draw _ => exact transfer_setPc hcall hhanded hcalls rfl rfl rfl fun _ => rfl
  | @insert id malloc _ _ hret =>
      -- an entry that is there already loses its message to `free`
      refine transfer_free hcall hhanded hcalls rfl rfl (insertSeq_freed s id malloc) fun id' => ?_
      rw [insertSeq_ok s _ _ _ hret]
      split <;> rfl
  | @insertFail id malloc _ hret =>
      refine transfer_setPc hcall hhanded hcalls rfl rfl ?_ fun id' => ?_
      · rw [insertSeq_freed, (insertSeq_fail s id id malloc hret).2]
        exact List.append_nil _
      · rw [(insertSeq_fail s id id' malloc hret).1]
  | @send id outcome hpc =>
      have hpc' := afterSend_handed call.kind id
        (s.ucIpcClientSend outcome id call.kind.msgType call.buf).1
      cases outcome <;> exact transfer_setPc hcall hhanded hcalls rfl hpc' rfl fun _ => rfl
  | @deleteSeq id ret _ _ =>
      refine transfer_free hcall hhanded hcalls rfl rfl (deleteSeq_freed s id) fun id' => ?_
      rw [deleteSeq_get]
      split <;> rfl
  | noEntry _ _ =>
      exact transfer_setPc hcall hhanded hcalls rfl (waitAckFailPc_handed _ _ _) rfl fun _ => rfl
  | sleep _ _ _ => exact transfer_setPc hcall hhanded hcalls rfl rfl rfl fun _ => rfl
  | fail _ _ =>
      exact transfer_setPc hcall hhanded hcalls rfl (waitAckFailPc_handed _ _ _) rfl fun _ => rfl
  | @take _ id _ msg hget _ _ =>
      have hpc : some msg = (s.ackHash.get id).join := by
        rw [hget]
        rfl
      exact transfer_take hcall hhanded hcalls rfl hpc rfl (withoutEntry_join id)
  | @takeAsync _ id _ msg hget _ _ =>
      -- `uc_ipc_client_async_send` frees the reply it has taken
      have hfreed : s.freed ++ [msg] = s.freed ++ (s.ackHash.get id).join.toList := by
        rw [hget]
        rfl
      exact transfer_free hcall hhanded hcalls rfl rfl hfreed (withoutEntry_join id)
  | wake _ => exact transfer_setPc hcall hhanded hcalls rfl rfl rfl fun _ => rfl

/-! ## A round of the receive loop -/

theorem wakeUp_handed (pc : CallPc) : pc.wakeUp.handed = pc.handed := by
  cases pc <;> rfl

theorem msgAt_signal (signalled : Option Nat) (place : MsgPlace) :
    (s.signal signalled).msgAt place = s.msgAt place := by
  cases place with
  | freed i => rw [msgAt, signal_freed, msgAt]
  | entry id => rw [msgAt, signal_ackHash, msgAt]
  | caller c =>
      rw [msgAt, signal_calls, msgAt]
      cases s.calls[c]? with
      | none => rfl
      | some call =>
          show (signalPc signalled c call.pc).handed = call.pc.handed
          rw [signalPc]
          split
          · exact wakeUp_handed call.pc
          · rfl

/-- The new message is freed. -/
theorem transfer_received_free {t : Client} {msg : ClientMsg} (hblock : msg.block = s.blocks)
    (hblocks : t.blocks = s.blocks + 1) (hmsg : ∀ place, t.msgAt place = s.msgAt place)
    (hfreed : t.freed = s.freed) :
    Placement.Transfer true s.blockPlacement (t.free [msg]).blockPlacement := by
  have hfree : (s.msgAt (.freed s.freed.length)).isNone = true := by simp [msgAt]
  rw [← hfree]
  refine transfer_put hblock hblocks fun place => ?_
  cases place with
  | freed i =>
      -- the end of the list of freed blocks is a place that held nothing
      show (t.freed ++ (some msg).toList)[i]? = _
      rw [getElem?_append_toList, hfreed]
      simp [msgAt]
  | entry id => exact (hmsg (.entry id)).trans (by simp)
  | caller c => exact (hmsg (.caller c)).trans (by simp)

/-- The new message is stored in an entry. -/
theorem transfer_store {id : UInt64} {msg : ClientMsg} (hblock : msg.block = s.blocks)
    (hbound : s.ackHash.get id ≠ none) (signalled : Option Nat) :
    Placement.Transfer (s.ackHash.get id).join.isNone s.blockPlacement
      ((({ s with blocks := s.blocks + 1 } : Client).store id msg).signal signalled).blockPlacement
      := by
  refine transfer_put (q := .entry id) hblock (signal_blocks _ _) fun place => ?_
  rw [msgAt_signal]
  cases place with
  | freed i => simp [msgAt]
  | entry id' =>
      have hget := store_get { s with blocks := s.blocks + 1 } id id' msg hbound
      rw [msgAt, hget]
      by_cases hid : id' = id
      · simp [hid]
      · simp [hid, msgAt]
  | caller c =>
      -- a call notes what is stored in its entry, but does not hold it yet
      rw [msgAt, store_calls, if_neg (by simp), msgAt]
      cases s.calls[c]? with
      | none => rfl
      | some call =>
          show CallPc.handed (ite _ _ _ : ClientCall).pc = call.pc.handed
          split <;> rfl

/-- One round of `uc_ipc_client_loop_rcv`. -/
theorem transfer_loopRcv (arrival : Arrival) (signalled : Option Nat) :
    Placement.Transfer (s.keepsMessages (.receive arrival signalled)) s.blockPlacement
      (s.ucIpcClientLoopRcv arrival signalled).blockPlacement := by
  cases arrival with
  | lost => exact .stay
  | cut head =>
      simp only [keepsMessages, ucIpcClientLoopRcv]
      by_cases hseq : head.seqId < ucIpcSeqIdMin
      · rw [if_pos hseq, decide_eq_true hseq]
        exact .stay
      · -- the second read has failed, and the block stays behind
        rw [if_neg hseq, decide_eq_false hseq]
        exact transfer_lose
  | frame f =>
      simp only [keepsMessages, ucIpcClientLoopRcv]
      by_cases hseq : f.head.seqId < ucIpcSeqIdMin
      · rw [if_pos hseq, if_pos hseq]
        exact .stay
      rw [if_neg hseq, if_neg hseq]
      by_cases hbeat : f.head.msgType = ucIpcMsgTypeHeartbeat
      · rw [if_pos hbeat, if_pos hbeat]
        by_cases hnull : f.head.ackId < ucIpcSeqIdMin
        · rw [if_pos hnull, decide_eq_true hnull]
          exact transfer_lose
        · rw [if_neg hnull, decide_eq_false hnull]
          exact transfer_received_free rfl rfl (fun _ => rfl) rfl
      rw [if_neg hbeat, if_neg hbeat]
      by_cases hack : isAck f.head.msgType = true
      · rw [if_pos hack, if_pos hack]
        by_cases hnull : f.head.ackId < ucIpcSeqIdMin
        · rw [if_pos hnull, decide_eq_true hnull]
          exact transfer_lose
        rw [if_neg hnull, decide_eq_false hnull, Bool.not_false, Bool.true_and]
        simp only [ackSection, U64Table.findVal_eq_get]
        split
        · rename_i hget
          have hfree : (s.ackHash.get f.head.ackId).join.isNone = true := by
            have hget' : s.ackHash.get f.head.ackId = none := hget
            rw [hget']
            rfl
          rw [hfree]
          exact transfer_received_free rfl (signal_blocks _ _) (msgAt_signal _) (signal_freed _ _)
        · rename_i v hget
          exact transfer_store rfl (fun hnone => by cases hget.symm.trans hnone) signalled
      · rw [if_neg hack, if_neg hack]
        exact transfer_received_free rfl rfl (fun _ => rfl) rfl

/-! ## Runs -/

/-- One step of the client. -/
theorem transfer_step {e : ClientEvent} {s' : Client} (henabled : machine.enabled s e = true)
    (hexec : machine.exec s e = some s') :
    Placement.Transfer (s.keepsMessages e) s.blockPlacement s'.blockPlacement := by
  have hstep := step_of_exec henabled hexec
  cases hstep with
  | call =>
      refine transfer_stay rfl fun place => ?_
      cases place with
      | freed i => rfl
      | entry id => rfl
      | caller c =>
          -- a call that enters holds no message
          rw [msgAt, msgAt, List.getElem?_append]
          split
          · rfl
          · rename_i hlen
            rw [List.getElem?_eq_none (not_lt.1 hlen), List.getElem?_singleton]
            split <;> rfl
  | @receive arrival signalled _ _ =>
      cases hexec
      exact transfer_loopRcv arrival signalled
  | reseed => exact .stay
  | caller hcall hstep =>
      rw [hstep.keepsMessages]
      exact transfer_callStep hcall hstep

theorem ofInit_msgAt (seqId : UInt64) (place : MsgPlace) : (ofInit seqId).msgAt place = none := by
  cases place <;> simp [msgAt, ofInit]

theorem ofInit_single (seqId : UInt64) : (ofInit seqId).blockPlacement.Single := by
  constructor <;> simp [blockPlacement, ofInit_msgAt]

theorem ofInit_accounted (seqId : UInt64) : (ofInit seqId).Accounted :=
  fun _ hb => absurd hb (Nat.not_lt_zero _)

/-- At the end of a run every block is accounted for exactly when no round of the run has cut a
payload off, has met a heartbeat or a reply with a bad `ack_id`, or has stored a reply over another
one. -/
theorem ucIpcClientLoopRcv_accounted_iff {seqId : UInt64} {events : List ClientEvent} {s : Client}
    (hrun : machine.Run (ofInit seqId) events s) :
    s.Accounted ↔ (machine.restrict keepsMessages).Run (ofInit seqId) events s :=
  (accounted_iff s).trans
    (Placement.run_complete_iff transfer_step hrun (ofInit_single seqId) (ofInit_accounted seqId))

/-- A call of the given kind that has written its request. -/
def waitingCall (kind : CallKind) : List ClientEvent :=
  [.call kind Payload.empty 0, .draw 0, .insert 0 (some (nodeAt 16)), .send 0 .written]

/-- A reply to the first id. -/
def firstReply : ClientEvent :=
  .receive (.frame (Frame.build ucIpcMsgTypeSyncAck 20000 10000 Payload.empty)) none

/-- A caller takes its reply, and a second one comes too late. -/
theorem ucIpcClientLoopRcv_accounted_taken :
    ∃ s, machine.Run (ofInit 0) (waitingCall .syncSend ++ [firstReply, .wait 0, firstReply]) s ∧
      s.blocks = 2 ∧ s.Accounted := by
  have hplay : ((machine.restrict keepsMessages).play (ofInit 0)
      (waitingCall .syncSend ++ [firstReply, .wait 0, firstReply])).any
        (fun s => decide (s.blocks = 2)) = true := by
    decide +kernel
  rcases Machine.exists_run_of_play hplay with ⟨s, hrun, hblocks⟩
  have hrun' := hrun.of_restrict
  exact ⟨s, hrun', of_decide_eq_true hblocks,
    (ucIpcClientLoopRcv_accounted_iff hrun').2 hrun⟩

/-- A round that loses a message at the end of a run. -/
theorem exists_not_accounted {seqId : UInt64} {events : List ClientEvent} {e : ClientEvent}
    (hplay : (machine.play (ofInit seqId) events).any (fun s => machine.enabled s e &&
      (!s.keepsMessages e && (machine.exec s e).isSome)) = true) :
    ∃ s, machine.Run (ofInit seqId) (events ++ [e]) s ∧ ¬ s.Accounted := by
  rcases Machine.exists_run_of_play hplay with ⟨s, hrun, htest⟩
  rcases (Bool.and_eq_true _ _).mp htest with ⟨henabled, htest⟩
  rcases (Bool.and_eq_true _ _).mp htest with ⟨hloses, hsome⟩
  rcases Option.isSome_iff_exists.1 hsome with ⟨s', hexec⟩
  refine ⟨s', Machine.Run.snoc hrun henabled hexec, fun hacc => ?_⟩
  have hsingle := Placement.run_single transfer_step hrun (ofInit_single seqId)
  rw [((transfer_step henabled hexec).complete_iff hsingle).1 hacc |>.2] at hloses
  cases hloses

/-- The block is lost when the payload does not come, when a heartbeat or a reply acknowledges no
id, and when a second reply finds the first one in its entry. -/
theorem ucIpcClientLoopRcv_lost :
    (∃ s, machine.Run (ofInit 0)
        [.receive (.cut { msgType := ucIpcMsgTypeVoid, ttl := 8, seqId := 20000, ackId := 0 }) none]
        s ∧ ¬ s.Accounted) ∧
      (∃ s, machine.Run (ofInit 0)
        [.receive (.frame (Frame.build ucIpcMsgTypeHeartbeat 20000 0 Payload.empty)) none] s ∧
        ¬ s.Accounted) ∧
      (∃ s, machine.Run (ofInit 0)
        [.receive (.frame (Frame.build ucIpcMsgTypeSyncAck 20000 0 Payload.empty)) none] s ∧
        ¬ s.Accounted) ∧
      ∃ s, machine.Run (ofInit 0) (waitingCall .syncSend ++ [firstReply] ++ [firstReply]) s ∧
        ¬ s.Accounted := by
  refine ⟨@exists_not_accounted 0 [] _ ?_, @exists_not_accounted 0 [] _ ?_,
    @exists_not_accounted 0 [] _ ?_, exists_not_accounted ?_⟩
  all_goals decide +kernel

end Client
end Ipc
end UtilsC
