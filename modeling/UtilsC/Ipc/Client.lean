import UtilsC.Lib.Machine
import UtilsC.Hash.U64Table
import UtilsC.Ipc.Proto
import UtilsC.Ipc.Seq

/-!
# The client

The senders of `uc_ipc_client.c` and its receive thread, with the sections under `seq_mtx`,
`ack_mtx` and `io_mtx` as atomic steps.

* A call of `uc_ipc_client_try_send`, `uc_ipc_client_async_send` or `uc_ipc_client_sync_send`, and
  one round of the heartbeat loop, is a `ClientCall`; `CallPc` is where it stands.
* `ackHash` is the table of pending acknowledgements.  An entry holds `NULL` until the receive
  thread stores the reply in it.
* `pthread_cond_signal` wakes one sleeper, whichever the event names; a wait may also return
  without a signal, at its deadline or with an error.
* Messages are known by the number of the block that holds them.
-/

namespace UtilsC
namespace Ipc

open Lib Hash

/-- A message in the block that the receive thread allocated for it. -/
structure ClientMsg where
  block : Nat
  frame : Frame
  deriving DecidableEq

inductive CallKind
  | trySend
  | asyncSend
  | syncSend
  /-- one round of `uc_ipc_client_heartbeat_loop_send` -/
  | heartbeat
  deriving DecidableEq

namespace CallKind

/-- The calls that insert an entry and wait for its reply. -/
def acked : CallKind → Bool
  | asyncSend => true
  | syncSend => true
  | _ => false

def msgType : CallKind → UInt32
  | trySend => ucIpcMsgTypeVoid
  | asyncSend => ucIpcMsgTypeAsyncSend
  | syncSend => ucIpcMsgTypeSyncSend
  | heartbeat => ucIpcMsgTypeHeartbeat

end CallKind

/-- What `pthread_cond_wait` or `pthread_cond_timedwait` returned. -/
inductive WaitRet
  | ok
  | timedOut
  | error
  deriving DecidableEq

inductive CallPc
  | entry
  /-- an id is drawn -/
  | drawn (id : UInt64)
  /-- the entry of the id is in the table; in front of `uc_ipc_client_send` -/
  | inserted (id : UInt64)
  /-- `uc_ipc_client_send` has failed; in front of `uc_ipc_client_delete_seq` -/
  | unsent (id : UInt64)
  /-- in front of the section of `uc_ipc_client_wait_ack` -/
  | sent (id : UInt64)
  /-- in a wait on `ack_cond`, with the node at this address -/
  | asleep (id : UInt64) (node : Nat)
  /-- the wait has returned; in front of `ack_mtx` -/
  | woken (id : UInt64) (node : Nat) (ret : WaitRet)
  /-- `uc_ipc_client_wait_ack` has failed; in front of `uc_ipc_client_delete_seq` -/
  | unacked (id : UInt64)
  /-- with the message handed to the caller, if any -/
  | returned (ret : Int) (msg : Option ClientMsg)
  deriving DecidableEq

/-- The id whose entry the call has inserted and not yet given up. -/
def CallPc.insertedId : CallPc → Option UInt64
  | .inserted id => some id
  | .unsent id => some id
  | .sent id => some id
  | .asleep id _ => some id
  | .woken id _ _ => some id
  | .unacked id => some id
  | _ => none

/-- What a signal does to a sleeper. -/
def CallPc.wakeUp : CallPc → CallPc
  | .asleep id node => .woken id node .ok
  | pc => pc

/-- `stored` are the messages stored in the call's entry so far; the code keeps no such list. -/
structure ClientCall where
  kind : CallKind
  buf : Payload
  waitMillisecond : Int32
  pc : CallPc
  stored : List ClientMsg

/-- How `uc_ipc_client_send` goes: one of its two allocations fails, or `uc_io_write` fails (which
it only logs), or the frame is written. -/
inductive SendOutcome
  | noPacket
  | noMsg
  | lost
  | written
  deriving DecidableEq

/-- What one round of the receive loop gets: no complete header or no memory, a header without its
payload, or a complete frame. -/
inductive Arrival
  | lost
  | cut (head : ProtoHeader)
  | frame (f : Frame)

inductive ClientEvent
  | call (kind : CallKind) (buf : Payload) (waitMillisecond : Int32)
  | draw (c : Nat)
  | insert (c : Nat) (malloc : Option NodeBlock)
  | send (c : Nat) (outcome : SendOutcome)
  | deleteSeq (c : Nat)
  | wait (c : Nat)
  /-- a wait returns without a signal -/
  | wake (c : Nat) (ret : WaitRet)
  | resume (c : Nat)
  | receive (arrival : Arrival) (signalled : Option Nat)
  /-- a reconnect leaves a number in the counter -/
  | reseed (seqId : UInt64)

/-- `outbox` are the frames written to the socket, `blocks` counts the blocks allocated for
messages and `freed` the messages freed; `ackNode` is the address of the node inserted last under
an id. -/
structure Client where
  seqId : UInt64
  ackHash : U64Table ClientMsg
  ackNode : UInt64 → Nat
  calls : List ClientCall
  outbox : List Frame
  blocks : Nat
  freed : List ClientMsg

namespace Client

variable (s : Client)

def setPc (c : Nat) (pc : CallPc) : Client :=
  { s with calls := s.calls.modify c fun call => { call with pc := pc } }

def free (msgs : List ClientMsg) : Client :=
  { s with freed := s.freed ++ msgs }

/-! ## The functions of the client -/

/-- `uc_ipc_client_insert_seq`: the status, and the client afterwards. -/
def ucIpcClientInsertSeq (malloc : Option NodeBlock) (id : UInt64) : Int × Client :=
  let r := s.ackHash.insert malloc id none
  let node :=
    -- only an insert that finds no entry links a new node
    match s.ackHash.get id, malloc with
    | none, some block => block.addr
    | _, _ => s.ackNode id
  (r.1, ({ s with ackHash := r.2.1, ackNode := Function.update s.ackNode id node }).free r.2.2)

/-- `uc_ipc_client_delete_seq`. -/
def ucIpcClientDeleteSeq (id : UInt64) : Client :=
  let r := s.ackHash.delete id
  ({ s with ackHash := r.2.1 }).free r.2.2

/-- `uc_ipc_client_send` and the `uc_ipc_client_write` it calls. -/
def ucIpcClientSend (outcome : SendOutcome) (id : UInt64) (msgType : UInt32) (buf : Payload) :
    Int × Client :=
  match outcome with
  | .noPacket => (-0x1f9385ca, s)
  | .noMsg => (-0x3cbe5a0f, s)
  -- `uc_ipc_client_write` does not report its error, so the send succeeds
  | .lost => (0, s)
  | .written =>
      (0, { s with outbox := s.outbox ++ [Frame.build msgType id ucIpcAckIdNull buf] })

/-- What a call does with a failure of `uc_ipc_client_wait_ack`. -/
def waitAckFail (c : Nat) (kind : CallKind) (id : UInt64) (ret : Int) : Client :=
  match kind with
  | .asyncSend => s.setPc c (.unacked id)
  | _ => s.setPc c (.returned ret none)

/-- The end of the section of `uc_ipc_client_wait_ack`: take the reply out of the entry and delete
the entry.  `uc_ipc_client_async_send` frees the reply, `uc_ipc_client_sync_send` hands it on. -/
def waitAckTake (c : Nat) (kind : CallKind) (id : UInt64) : Client :=
  -- the value is NULL before the entry is deleted, so that the delete frees no message
  let upd := s.ackHash.update id none
  let del := upd.2.delete id
  let s' := ({ s with ackHash := del.2.1 }).free del.2.2
  match upd.1 with
  | none => s'.waitAckFail c kind id 0x428f2521
  | some msg =>
      match kind with
      | .asyncSend => (s'.free [msg]).setPc c (.returned 0 none)
      | _ => s'.setPc c (.returned 0 (some msg))

/-- The loop of `uc_ipc_client_wait_ack` from the point where the last wait has returned `ret`; a
read through the pointer to a node that is gone is `none`. -/
def waitAckLoop (c : Nat) (kind : CallKind) (id : UInt64) (node : Nat) (ret : WaitRet) :
    Option Client :=
  if ret = .timedOut then
    some (s.waitAckFail c kind id (-0x4f885afb))
  else
    match s.ackHash.findVal id with
    -- the node that the loop reads is not in the table any more
    | none => none
    | some none => some (s.setPc c (.asleep id node))
    | some (some _) =>
        if ret = .ok then
          some (s.waitAckTake c kind id)
        else
          -- a reply is there, but the status of the last wait is still an error
          some (s.waitAckFail c kind id (-0x4f885afb))

/-- The section of `uc_ipc_client_wait_ack` up to its first wait. -/
def ucIpcClientWaitAck (c : Nat) (kind : CallKind) (id : UInt64) : Option Client :=
  match s.ackHash.findVal id with
  | none => some (s.waitAckFail c kind id (-0x790396ad))
  | some _ => s.waitAckLoop c kind id (s.ackNode id) .ok

/-- Store a message in the entry of an id. -/
def store (id : UInt64) (msg : ClientMsg) : Client :=
  { s with
    ackHash := (s.ackHash.update id (some msg)).2
    calls := s.calls.map fun call =>
      if call.pc.insertedId = some id then { call with stored := call.stored ++ [msg] } else call }

/-- `pthread_cond_signal`. -/
def signal : Option Nat → Client
  | none => s
  | some c =>
      { s with calls := s.calls.modify c fun call => { call with pc := call.pc.wakeUp } }

/-- The section of the receive loop that a reply leads to. -/
def ackSection (msg : ClientMsg) (signalled : Option Nat) : Client :=
  match s.ackHash.findVal msg.frame.head.ackId with
  -- the reply comes too late: its call has gone
  | none => (s.signal signalled).free [msg]
  | some _ => (s.store msg.frame.head.ackId msg).signal signalled

def isAck (msgType : UInt32) : Bool :=
  msgType == ucIpcMsgTypeAsyncAck || msgType == ucIpcMsgTypeSyncAck

/-- The arrival takes the receive thread into the section under `ack_mtx`. -/
def isReply : Arrival → Bool
  | .frame f =>
      !(f.head.seqId < ucIpcSeqIdMin) && isAck f.head.msgType && !(f.head.ackId < ucIpcSeqIdMin)
  | _ => false

/-- One round of `uc_ipc_client_loop_rcv`.  The rounds that end in a reconnect change nothing here,
but keep the block of a message that was allocated. -/
def ucIpcClientLoopRcv (arrival : Arrival) (signalled : Option Nat) : Client :=
  match arrival with
  | .lost => s
  | .cut head => if head.seqId < ucIpcSeqIdMin then s else { s with blocks := s.blocks + 1 }
  | .frame f =>
      if f.head.seqId < ucIpcSeqIdMin then
        s
      else
        let msg : ClientMsg := { block := s.blocks, frame := f }
        let s' : Client := { s with blocks := s.blocks + 1 }
        if f.head.msgType = ucIpcMsgTypeHeartbeat then
          -- in both rounds with a bad `ack_id` the message is not freed before the reconnect
          if f.head.ackId < ucIpcSeqIdMin then s' else s'.free [msg]
        else if isAck f.head.msgType = true then
          if f.head.ackId < ucIpcSeqIdMin then s' else s'.ackSection msg signalled
        else
          s'.free [msg]

/-! ## Steps -/

/-- Where a call stands behind `uc_ipc_client_send`. -/
def afterSend (kind : CallKind) (id : UInt64) (ret : Int) : CallPc :=
  match kind with
  | .trySend => if ret ≠ 0 then .returned (-0x146071f6) none else .returned ret none
  | .heartbeat => .returned ret none
  | _ => if ret ≠ 0 then .unsent id else .sent id

/-- What a call returns when `uc_ipc_client_insert_seq` fails. -/
def insertFail : CallKind → Int
  | .asyncSend => -0x3d5ee086
  | _ => -0x7b4123c4

/-- What a call returns when `uc_ipc_client_send` fails. -/
def sendFail : CallKind → Int
  | .asyncSend => -0x274ceea5
  | _ => -0x5f879be6

def execCall (c : Nat) (call : ClientCall) : ClientEvent → Option Client
  | .draw _ =>
      let r := ucIpcClientNextSeqId s.seqId
      some (({ s with seqId := r.2 }).setPc c (.drawn r.1))
  | .insert _ malloc =>
      match call.pc with
      | .drawn id =>
          let r := s.ucIpcClientInsertSeq malloc id
          if r.1 ≠ 0 then
            some (r.2.setPc c (.returned (insertFail call.kind) none))
          else
            some (r.2.setPc c (.inserted id))
      | _ => none
  | .send _ outcome =>
      match call.pc with
      | .drawn id | .inserted id =>
          let r := s.ucIpcClientSend outcome id call.kind.msgType call.buf
          some (r.2.setPc c (afterSend call.kind id r.1))
      | _ => none
  | .deleteSeq _ =>
      match call.pc with
      | .unsent id =>
          some ((s.ucIpcClientDeleteSeq id).setPc c (.returned (sendFail call.kind) none))
      | .unacked id =>
          some ((s.ucIpcClientDeleteSeq id).setPc c (.returned (-0x213492c0) none))
      | _ => none
  | .wait _ =>
      match call.pc with
      | .sent id => s.ucIpcClientWaitAck c call.kind id
      | _ => none
  | .wake _ ret =>
      match call.pc with
      | .asleep id node => some (s.setPc c (.woken id node ret))
      | _ => none
  | .resume _ =>
      match call.pc with
      -- but for a timeout `node` is read again behind the wait, without a look into the table
      | .woken id node ret =>
          -- the node may have been deleted, and another one inserted under the id
          if ret = .timedOut ∨ s.ackNode id = node then s.waitAckLoop c call.kind id node ret
          else none
      | _ => none
  | _ => none

def exec (e : ClientEvent) : Option Client :=
  match e with
  | .call kind buf wait =>
      some
        { s with
          calls := s.calls ++
            [{ kind := kind, buf := buf, waitMillisecond := wait, pc := .entry, stored := [] }] }
  | .receive arrival signalled => some (s.ucIpcClientLoopRcv arrival signalled)
  | .reseed seqId => some { s with seqId := seqId }
  | .draw c | .insert c _ | .send c _ | .deleteSeq c | .wait c | .wake c _ | .resume c =>
      (s.calls[c]?).bind fun call => s.execCall c call e

/-- The step a call may take next. -/
def enabledCall (call : ClientCall) : ClientEvent → Bool
  | .draw _ => call.pc = .entry
  | .insert _ _ =>
      match call.pc with
      | .drawn _ => call.kind.acked
      | _ => false
  | .send _ _ =>
      match call.pc with
      | .drawn _ => !call.kind.acked
      | .inserted _ => call.kind.acked
      | _ => false
  | .deleteSeq _ =>
      match call.pc with
      | .unsent _ | .unacked _ => true
      | _ => false
  | .wait _ =>
      match call.pc with
      | .sent _ => true
      | _ => false
  | .wake _ ret =>
      match call.pc with
      | .asleep _ _ => ret ≠ .timedOut || call.waitMillisecond ≠ 0
      | _ => false
  | .resume _ =>
      match call.pc with
      | .woken _ _ _ => true
      | _ => false
  | _ => false

def isAsleep (call : ClientCall) : Bool :=
  match call.pc with
  | .asleep _ _ => true
  | _ => false

/-- A signal wakes one of the sleepers; it is lost only when there is none. -/
def signalOk : Option Nat → Bool
  | some c => (s.calls[c]?).any isAsleep
  | none => !s.calls.any isAsleep

def enabled (e : ClientEvent) : Bool :=
  match e with
  | .call _ _ _ => true
  | .receive arrival signalled => if isReply arrival then s.signalOk signalled else signalled = none
  | .reseed _ => true
  | .draw c | .insert c _ | .send c _ | .deleteSeq c | .wait c | .wake c _ | .resume c =>
      (s.calls[c]?).any fun call => enabledCall call e

def machine : Machine Client ClientEvent :=
  { enabled := enabled, exec := exec }

/-- `UC_IPC_CLIENT_SEQ_HASH_SIZE`. -/
def ucIpcClientSeqHashSize : Int := 16 * 1024

/-- A client as `uc_ipc_init_client` returns it. -/
def ofInit (seqId : UInt64) : Client where
  seqId := clampSeqId seqId
  ackHash := U64Table.create ucIpcClientSeqHashSize (by decide)
  ackNode := fun _ => 0
  calls := []
  outbox := []
  blocks := 0
  freed := []

/-! ## What the helpers change -/

section Fields

variable (c c' : Nat) (pc : CallPc) (msgs : List ClientMsg) (signalled : Option Nat)

@[simp] theorem setPc_ackHash : (s.setPc c pc).ackHash = s.ackHash := rfl
@[simp] theorem setPc_ackNode : (s.setPc c pc).ackNode = s.ackNode := rfl
@[simp] theorem setPc_freed : (s.setPc c pc).freed = s.freed := rfl
@[simp] theorem setPc_seqId : (s.setPc c pc).seqId = s.seqId := rfl
@[simp] theorem setPc_outbox : (s.setPc c pc).outbox = s.outbox := rfl
@[simp] theorem free_ackHash : (s.free msgs).ackHash = s.ackHash := rfl
@[simp] theorem free_ackNode : (s.free msgs).ackNode = s.ackNode := rfl
@[simp] theorem free_calls : (s.free msgs).calls = s.calls := rfl
@[simp] theorem free_freed : (s.free msgs).freed = s.freed ++ msgs := rfl
@[simp] theorem free_seqId : (s.free msgs).seqId = s.seqId := rfl
@[simp] theorem free_outbox : (s.free msgs).outbox = s.outbox := rfl

@[simp] theorem signal_ackHash : (s.signal signalled).ackHash = s.ackHash := by
  cases signalled <;> rfl

@[simp] theorem signal_ackNode : (s.signal signalled).ackNode = s.ackNode := by
  cases signalled <;> rfl

@[simp] theorem signal_freed : (s.signal signalled).freed = s.freed := by
  cases signalled <;> rfl

@[simp] theorem signal_seqId : (s.signal signalled).seqId = s.seqId := by
  cases signalled <;> rfl

theorem signal_blocks : (s.signal signalled).blocks = s.blocks := by
  cases signalled <;> rfl

@[simp] theorem signal_outbox : (s.signal signalled).outbox = s.outbox := by
  cases signalled <;> rfl

/-- A call after the program counter of one call was set. -/
theorem setPc_calls :
    (s.setPc c pc).calls[c']? =
      (s.calls[c']?).map fun call => if c = c' then { call with pc := pc } else call := by
  show (s.calls.modify c _)[c']? = _
  rw [List.getElem?_modify]
  cases s.calls[c']? with
  | none => rfl
  | some call => by_cases h : c = c' <;> simp [h]

variable {s c c' pc}

/-- A call behind the setting of one program counter. -/
theorem setPc_call {c c' : Nat} {pc : CallPc} {call' : ClientCall}
    (h : (s.setPc c pc).calls[c']? = some call') :
    (c' = c ∧ ∃ call, s.calls[c]? = some call ∧ call' = { call with pc := pc }) ∨
      (c' ≠ c ∧ s.calls[c']? = some call') := by
  rw [setPc_calls] at h
  rcases Option.map_eq_some_iff.1 h with ⟨call, hcall, hnew⟩
  by_cases hc : c = c'
  · rw [if_pos hc] at hnew
    exact Or.inl ⟨hc.symm, call, hc ▸ hcall, hnew.symm⟩
  · rw [if_neg hc] at hnew
    exact Or.inr ⟨fun h => hc h.symm, hnew ▸ hcall⟩

theorem setPc_call_self {c : Nat} {pc : CallPc} {call : ClientCall} (h : s.calls[c]? = some call) :
    (s.setPc c pc).calls[c]? = some { call with pc := pc } := by
  rw [setPc_calls, h]
  simp

theorem setPc_call_ne {c c' : Nat} {pc : CallPc} (hne : c' ≠ c) :
    (s.setPc c pc).calls[c']? = s.calls[c']? := by
  rw [setPc_calls]
  have hne' : ¬ c = c' := fun h => hne h.symm
  simp [hne']

/-- A call of a client that one more call has entered. -/
theorem snoc_call {new call : ClientCall} (h : (s.calls ++ [new])[c]? = some call) :
    s.calls[c]? = some call ∨ (c = s.calls.length ∧ call = new) := by
  rw [List.getElem?_append] at h
  split at h
  · exact Or.inl h
  · rw [List.getElem?_singleton] at h
    split at h
    · cases h
      exact Or.inr ⟨by omega, rfl⟩
    · cases h

variable (s c c' pc)

/-- The program counter of a call that a signal may have woken. -/
def signalPc (signalled : Option Nat) (c : Nat) (pc : CallPc) : CallPc :=
  if signalled = some c then pc.wakeUp else pc

theorem signal_calls :
    (s.signal signalled).calls[c']? =
      (s.calls[c']?).map fun call => { call with pc := signalPc signalled c' call.pc } := by
  cases signalled with
  | none => simp [signal, signalPc]
  | some c =>
      show (s.calls.modify c _)[c']? = _
      rw [List.getElem?_modify]
      cases s.calls[c']? with
      | none => rfl
      | some call =>
          by_cases h : c = c'
          · simp [h, signalPc]
          · simp [h, signalPc]

@[simp] theorem signalPc_insertedId :
    (signalPc signalled c pc).insertedId = pc.insertedId := by
  unfold signalPc
  split
  · cases pc <;> rfl
  · rfl

end Fields

/-! ## What the table operations change -/

section Table

variable (id id' : UInt64) (malloc : Option NodeBlock)

theorem insertSeq_status :
    (s.ucIpcClientInsertSeq malloc id).1 =
      if s.ackHash.get id ≠ none ∨ malloc.isSome then errOk else -0x6488e857 :=
  U64Table.insert_status s.ackHash id none malloc

theorem insertSeq_get :
    (s.ucIpcClientInsertSeq malloc id).2.ackHash.get id' =
      if (s.ackHash.get id ≠ none ∨ malloc.isSome) ∧ id' = id then
        some none
      else
        s.ackHash.get id' := by
  have hget := U64Table.get_insert s.ackHash id id' none malloc
  show (s.ackHash.insert malloc id none).2.1.get id' = _
  rw [hget]
  by_cases hc : s.ackHash.get id ≠ none ∨ malloc.isSome
  · simp [hc]
  · simp [hc]

/-- The status is 0 exactly when the id has an entry with `NULL` afterwards. -/
theorem insertSeq_ok (hret : (s.ucIpcClientInsertSeq malloc id).1 = 0) :
    (s.ucIpcClientInsertSeq malloc id).2.ackHash.get id' =
      if id' = id then some none else s.ackHash.get id' := by
  have hc : s.ackHash.get id ≠ none ∨ malloc.isSome := by
    rw [insertSeq_status] at hret
    by_contra hc
    rw [if_neg hc] at hret
    cases hret
  rw [insertSeq_get]
  by_cases hid : id' = id
  · rw [if_pos ⟨hc, hid⟩, if_pos hid]
  · rw [if_neg (fun h => hid h.2), if_neg hid]

theorem insertSeq_fail (hret : (s.ucIpcClientInsertSeq malloc id).1 ≠ 0) :
    (s.ucIpcClientInsertSeq malloc id).2.ackHash.get id' = s.ackHash.get id' ∧
      s.ackHash.get id = none := by
  have hc : ¬ (s.ackHash.get id ≠ none ∨ malloc.isSome) := by
    intro hc
    rw [insertSeq_status, if_pos hc] at hret
    exact hret rfl
  refine ⟨?_, ?_⟩
  · rw [insertSeq_get, if_neg (fun h => hc h.1)]
  · by_contra hne
    exact hc (Or.inl hne)

theorem insertSeq_freed :
    (s.ucIpcClientInsertSeq malloc id).2.freed = s.freed ++ (s.ackHash.get id).join.toList := by
  have hfreed := U64Table.insert_freed s.ackHash id none malloc
  show s.freed ++ (s.ackHash.insert malloc id none).2.2 = _
  rw [hfreed]
  cases s.ackHash.get id <;> rfl

theorem insertSeq_ackNode (hne : id' ≠ id) :
    (s.ucIpcClientInsertSeq malloc id).2.ackNode id' = s.ackNode id' :=
  Function.update_of_ne hne _ _

@[simp] theorem insertSeq_calls : (s.ucIpcClientInsertSeq malloc id).2.calls = s.calls := rfl
@[simp] theorem insertSeq_seqId : (s.ucIpcClientInsertSeq malloc id).2.seqId = s.seqId := rfl
@[simp] theorem insertSeq_outbox : (s.ucIpcClientInsertSeq malloc id).2.outbox = s.outbox := rfl

theorem deleteSeq_get :
    (s.ucIpcClientDeleteSeq id).ackHash.get id' = if id' = id then none else s.ackHash.get id' :=
  U64Table.get_delete s.ackHash id id'

theorem deleteSeq_freed :
    (s.ucIpcClientDeleteSeq id).freed = s.freed ++ ((s.ackHash.get id).join).toList := by
  have hfreed := U64Table.delete_freed s.ackHash id
  show s.freed ++ (s.ackHash.delete id).2.2 = _
  rw [hfreed]
  cases s.ackHash.get id <;> rfl

@[simp] theorem deleteSeq_calls : (s.ucIpcClientDeleteSeq id).calls = s.calls := rfl
@[simp] theorem deleteSeq_ackNode : (s.ucIpcClientDeleteSeq id).ackNode = s.ackNode := rfl
@[simp] theorem deleteSeq_seqId : (s.ucIpcClientDeleteSeq id).seqId = s.seqId := rfl
@[simp] theorem deleteSeq_outbox : (s.ucIpcClientDeleteSeq id).outbox = s.outbox := rfl

theorem store_get (msg : ClientMsg) (hbound : s.ackHash.get id ≠ none) :
    (s.store id msg).ackHash.get id' =
      if id' = id then some (some msg) else s.ackHash.get id' := by
  have hget := U64Table.get_update s.ackHash id id' (some msg)
  show (s.ackHash.update id (some msg)).2.get id' = _
  rw [hget]
  by_cases hid : id' = id
  · rw [if_pos ⟨hbound, hid⟩, if_pos hid]
  · rw [if_neg (fun h => hid h.2), if_neg hid]

@[simp] theorem store_ackNode (msg : ClientMsg) : (s.store id msg).ackNode = s.ackNode := rfl
@[simp] theorem store_freed (msg : ClientMsg) : (s.store id msg).freed = s.freed := rfl

theorem store_calls (msg : ClientMsg) (c : Nat) :
    (s.store id msg).calls[c]? =
      (s.calls[c]?).map fun call =>
        if call.pc.insertedId = some id then
          { call with stored := call.stored ++ [msg] }
        else
          call :=
  List.getElem?_map

end Table

/-! ## What the end of a wait changes -/

section Take

variable (c : Nat) (kind : CallKind) (id : UInt64)

/-- The table without the entry whose message was taken out. -/
def withoutEntry : Client :=
  { s with ackHash := ((s.ackHash.update id none).2.delete id).2.1 }

theorem withoutEntry_get (id' : UInt64) :
    (s.withoutEntry id).ackHash.get id' = if id' = id then none else s.ackHash.get id' := by
  show ((s.ackHash.update id none).2.delete id).2.1.get id' = _
  rw [U64Table.get_delete, U64Table.get_update]
  by_cases hid : id' = id
  · simp [hid]
  · simp [hid]

/-- A call that finds a reply in its entry takes it and returns 0. -/
theorem waitAckTake_eq {msg : ClientMsg} (hget : s.ackHash.get id = some (some msg)) :
    s.waitAckTake c kind id =
      if kind = .asyncSend then
        ((s.withoutEntry id).free [msg]).setPc c (.returned 0 none)
      else
        (s.withoutEntry id).setPc c (.returned 0 (some msg)) := by
  -- the update hands the message out, and the delete finds NULL in its place
  have hupd : (s.ackHash.update id none).1 = some msg := by
    rw [U64Table.update_old, hget]
    rfl
  have hnull : (s.ackHash.update id none).2.get id = some none := by
    rw [U64Table.get_update, if_pos ⟨by simp [hget], rfl⟩]
  have hfreed : ((s.ackHash.update id none).2.delete id).2.2 = [] := by
    rw [U64Table.delete_freed, hnull]
    rfl
  have hclean : ({ s with
      ackHash := ((s.ackHash.update id none).2.delete id).2.1 } : Client).free [] =
        s.withoutEntry id := by
    simp [free, withoutEntry]
  rw [waitAckTake]
  simp only [hupd, hfreed, hclean]
  cases kind <;> rfl

/-- How a round of the waiting loop ends: the call fails, or it sleeps on an empty entry, or it
takes its reply. -/
theorem waitAckLoop_cases {node : Nat} {ret : WaitRet} {s' : Client}
    (h : s.waitAckLoop c kind id node ret = some s') :
    (s' = s.waitAckFail c kind id (-0x4f885afb) ∧
        (ret = .timedOut ∨ (ret = .error ∧ ∃ msg, s.ackHash.get id = some (some msg)))) ∨
      (s' = s.setPc c (.asleep id node) ∧ ret ≠ .timedOut ∧ s.ackHash.get id = some none) ∨
      (s' = s.waitAckTake c kind id ∧ ret = .ok ∧ ∃ msg, s.ackHash.get id = some (some msg)) := by
  rw [waitAckLoop, U64Table.findVal_eq_get] at h
  split at h
  · rename_i htimed
    exact Or.inl ⟨(Option.some.inj h).symm, Or.inl htimed⟩
  · rename_i htimed
    -- what the entry holds decides whether the loop goes on
    split at h
    · cases h
    · rename_i hget
      exact Or.inr (Or.inl ⟨(Option.some.inj h).symm, htimed, hget⟩)
    · rename_i msg hget
      split at h
      · rename_i hok
        exact Or.inr (Or.inr ⟨(Option.some.inj h).symm, hok, msg, hget⟩)
      · rename_i hok
        refine Or.inl ⟨(Option.some.inj h).symm, Or.inr ⟨?_, msg, hget⟩⟩
        cases ret with
        | ok => exact absurd rfl hok
        | timedOut => exact absurd rfl htimed
        | error => rfl

/-- Where a call stands behind a failure of `uc_ipc_client_wait_ack`. -/
def waitAckFailPc (ret : Int) : CallPc :=
  match kind with
  | .asyncSend => .unacked id
  | _ => .returned ret none

theorem waitAckFail_eq (ret : Int) :
    s.waitAckFail c kind id ret = s.setPc c (waitAckFailPc kind id ret) := by
  cases kind <;> rfl

end Take

/-! ## What a step can do -/

/-- The call is at the test of the waiting loop, with the node at this address. -/
def InLoop (c : Nat) (call : ClientCall) (e : ClientEvent) (id : UInt64) (node : Nat) : Prop :=
  (e = .wait c ∧ call.pc = .sent id ∧ s.ackNode id = node) ∨
    (e = .resume c ∧ call.pc = .woken id node .ok ∧ s.ackNode id = node)

variable {s} in
theorem InLoop.insertedId {c : Nat} {call : ClientCall} {e : ClientEvent} {id : UInt64} {node : Nat}
    (h : s.InLoop c call e id node) : call.pc.insertedId = some id := by
  rcases h with ⟨_, hpc, _⟩ | ⟨_, hpc, _⟩
  · rw [hpc]
    rfl
  · rw [hpc]
    rfl

/-- The steps of call `c`: what becomes of the client, and where the call stands afterwards. -/
inductive CallStep (c : Nat) (call : ClientCall) : ClientEvent → Client → CallPc → Prop
  | draw (hpc : call.pc = .entry) :
      CallStep c call (.draw c) { s with seqId := (nextSeqId s.seqId).2 } (.drawn s.seqId)
  | insert {id : UInt64} {malloc : Option NodeBlock} (hpc : call.pc = .drawn id)
      (hkind : call.kind.acked = true) (hret : (s.ucIpcClientInsertSeq malloc id).1 = 0) :
      CallStep c call (.insert c malloc) (s.ucIpcClientInsertSeq malloc id).2 (.inserted id)
  | insertFail {id : UInt64} {malloc : Option NodeBlock} (hpc : call.pc = .drawn id)
      (hret : (s.ucIpcClientInsertSeq malloc id).1 ≠ 0) :
      CallStep c call (.insert c malloc) (s.ucIpcClientInsertSeq malloc id).2
        (.returned (Client.insertFail call.kind) none)
  | send {id : UInt64} {outcome : SendOutcome}
      (hpc : (call.pc = .drawn id ∧ call.kind.acked = false) ∨
        (call.pc = .inserted id ∧ call.kind.acked = true)) :
      CallStep c call (.send c outcome)
        (s.ucIpcClientSend outcome id call.kind.msgType call.buf).2
        (afterSend call.kind id (s.ucIpcClientSend outcome id call.kind.msgType call.buf).1)
  | deleteSeq {id : UInt64} {ret : Int} (hpc : call.pc = .unsent id ∨ call.pc = .unacked id)
      (hret : ret ≠ 0) :
      CallStep c call (.deleteSeq c) (s.ucIpcClientDeleteSeq id) (.returned ret none)
  | noEntry {id : UInt64} (hpc : call.pc = .sent id) (hget : s.ackHash.get id = none) :
      CallStep c call (.wait c) s (waitAckFailPc call.kind id (-0x790396ad))
  | sleep {e : ClientEvent} {id : UInt64} {node : Nat} (hget : s.ackHash.get id = some none)
      (hnode : s.ackNode id = node)
      (hpc : s.InLoop c call e id node ∨ (e = .resume c ∧ call.pc = .woken id node .error)) :
      CallStep c call e s (.asleep id node)
  | fail {id : UInt64} {node : Nat} {ret : WaitRet} (hpc : call.pc = .woken id node ret)
      (hwhy : ret = .timedOut ∨ (ret = .error ∧ ∃ msg, s.ackHash.get id = some (some msg))) :
      CallStep c call (.resume c) s (waitAckFailPc call.kind id (-0x4f885afb))
  | take {e : ClientEvent} {id : UInt64} {node : Nat} {msg : ClientMsg}
      (hget : s.ackHash.get id = some (some msg)) (hpc : s.InLoop c call e id node)
      (hkind : call.kind ≠ .asyncSend) :
      CallStep c call e (s.withoutEntry id) (.returned 0 (some msg))
  | takeAsync {e : ClientEvent} {id : UInt64} {node : Nat} {msg : ClientMsg}
      (hget : s.ackHash.get id = some (some msg)) (hpc : s.InLoop c call e id node)
      (hkind : call.kind = .asyncSend) :
      CallStep c call e ((s.withoutEntry id).free [msg]) (.returned 0 none)
  | wake {id : UInt64} {node : Nat} {ret : WaitRet} (hpc : call.pc = .asleep id node) :
      CallStep c call (.wake c ret) s (.woken id node ret)

variable {s} in
theorem CallStep.calls_eq {c : Nat} {call : ClientCall} {e : ClientEvent} {t : Client} {pc : CallPc}
    (h : s.CallStep c call e t pc) : t.calls = s.calls := by
  cases h with
  | @send id outcome hpc => cases outcome <;> rfl
  | _ => rfl

variable {s} in
/-- A call does not put messages into the table: an id with a stored reply had it before the step,
with the same node. -/
theorem CallStep.get_stored {c : Nat} {call : ClientCall} {e : ClientEvent} {t : Client}
    {pc : CallPc} (hstep : s.CallStep c call e t pc) {id : UInt64} {msg : ClientMsg}
    (hget : t.ackHash.get id = some (some msg)) :
    s.ackHash.get id = some (some msg) ∧ t.ackNode id = s.ackNode id := by
  -- a delete leaves the values of the other ids
  have hdeleted : ∀ {id' : UInt64} {v : Option (Option ClientMsg)},
      (if id = id' then none else v) = some (some msg) → v = some (some msg) := by
    intro id' v h
    split at h
    · cases h
    · exact h
  cases hstep with
  | insert hpc hkind hret =>
      rw [insertSeq_ok s _ _ _ hret] at hget
      split at hget
      · cases hget
      · rename_i hne
        exact ⟨hget, insertSeq_ackNode s _ _ _ hne⟩
  | @insertFail id' malloc hpc hret =>
      rcases insertSeq_fail s id' id malloc hret with ⟨hsame, hnone⟩
      rw [hsame] at hget
      have hne : id ≠ id' := by
        rintro rfl
        rw [hnone] at hget
        cases hget
      exact ⟨hget, insertSeq_ackNode s _ _ _ hne⟩
  | @send id' outcome hpc => cases outcome <;> exact ⟨hget, rfl⟩
  | deleteSeq hpc hret =>
      rw [deleteSeq_get] at hget
      exact ⟨hdeleted hget, rfl⟩
  | take hget' hpc hkind =>
      rw [withoutEntry_get] at hget
      exact ⟨hdeleted hget, rfl⟩
  | takeAsync hget' hpc hkind =>
      rw [free_ackHash, withoutEntry_get] at hget
      exact ⟨hdeleted hget, rfl⟩
  | _ => exact ⟨hget, rfl⟩

/-- What a round of the receive loop does. -/
inductive RcvStep (signalled : Option Nat) : Arrival → Client → Prop
  | quiet {arrival : Arrival} {blocks : Nat} {msgs : List ClientMsg} :
      RcvStep signalled arrival { s with blocks := blocks, freed := s.freed ++ msgs }
  | late {f : Frame} {blocks : Nat} {msgs : List ClientMsg}
      (hget : s.ackHash.get f.head.ackId = none) :
      RcvStep signalled (.frame f)
        (({ s with blocks := blocks, freed := s.freed ++ msgs } : Client).signal signalled)
  | store {f : Frame} {msg : ClientMsg} (hreply : isReply (.frame f) = true)
      (hmsg : msg = { block := s.blocks, frame := f })
      (hget : s.ackHash.get f.head.ackId ≠ none) :
      RcvStep signalled (.frame f)
        ((({ s with blocks := s.blocks + 1 } : Client).store f.head.ackId msg).signal signalled)

variable {s}

theorem rcvStep (arrival : Arrival) (signalled : Option Nat) :
    s.RcvStep signalled arrival (s.ucIpcClientLoopRcv arrival signalled) := by
  -- the rounds that end in a reconnect are quiet ones that free nothing
  have hkeep : ∀ blocks : Nat,
      s.RcvStep signalled arrival { s with blocks := blocks } := by
    intro blocks
    have hquiet : s.RcvStep signalled arrival { s with blocks := blocks, freed := s.freed ++ [] } :=
      RcvStep.quiet
    rwa [List.append_nil] at hquiet
  cases arrival with
  | lost => exact hkeep s.blocks
  | cut head =>
      simp only [ucIpcClientLoopRcv]
      split
      · exact hkeep s.blocks
      · exact hkeep (s.blocks + 1)
  | frame f =>
      simp only [ucIpcClientLoopRcv]
      by_cases hseq : f.head.seqId < ucIpcSeqIdMin
      · rw [if_pos hseq]
        exact hkeep s.blocks
      rw [if_neg hseq]
      by_cases hbeat : f.head.msgType = ucIpcMsgTypeHeartbeat
      · rw [if_pos hbeat]
        split
        · exact hkeep (s.blocks + 1)
        · exact RcvStep.quiet
      rw [if_neg hbeat]
      by_cases hack : isAck f.head.msgType = true
      · rw [if_pos hack]
        by_cases hnull : f.head.ackId < ucIpcSeqIdMin
        · rw [if_pos hnull]
          exact hkeep (s.blocks + 1)
        rw [if_neg hnull]
        simp only [ackSection, U64Table.findVal_eq_get]
        split
        · rename_i hget
          -- no call has an entry under this id
          have hlate : s.RcvStep signalled (.frame f)
              (({ s with
                blocks := s.blocks + 1
                freed := s.freed ++ [{ block := s.blocks, frame := f }] } : Client).signal
                  signalled) :=
            RcvStep.late hget
          cases signalled with
          | none => exact hlate
          | some c => exact hlate
        · rename_i v hget
          refine RcvStep.store ?_ rfl (by simp [hget])
          simp [isReply, hseq, hack, hnull]
      · rw [if_neg hack]
        exact RcvStep.quiet

/-- One round of the waiting loop, from either of the points that lead to its test. -/
theorem callStep_loop {c : Nat} {call : ClientCall} {e : ClientEvent} {id : UInt64} {node : Nat}
    {ret : WaitRet} {s' : Client} (hnode : ret = .timedOut ∨ s.ackNode id = node)
    (hpc : (e = .wait c ∧ call.pc = .sent id ∧ ret = .ok) ∨
      (e = .resume c ∧ call.pc = .woken id node ret))
    (h : s.waitAckLoop c call.kind id node ret = some s') :
    ∃ t pc, s.CallStep c call e t pc ∧ s' = t.setPc c pc := by
  -- the first test and a test behind a good wait are the same test
  have hloop : ret = .ok → s.InLoop c call e id node := by
    intro hok
    have hnode' := hnode.resolve_left (by simp [hok])
    rcases hpc with ⟨he, hpc, _⟩ | ⟨he, hpc⟩
    · exact Or.inl ⟨he, hpc, hnode'⟩
    · exact Or.inr ⟨he, hok ▸ hpc, hnode'⟩
  rcases waitAckLoop_cases s c call.kind id h with
    ⟨hs', hwhy⟩ | ⟨hs', hret, hget⟩ | ⟨hs', hok, msg, hget⟩
  · rw [waitAckFail_eq] at hs'
    -- nothing has failed before the first wait
    rcases hpc with ⟨_, _, hok⟩ | ⟨he, hpc⟩
    · rw [hok] at hwhy
      rcases hwhy with h | ⟨h, _⟩ <;> cases h
    · rw [he]
      exact ⟨s, _, CallStep.fail hpc hwhy, hs'⟩
  · refine ⟨s, _, CallStep.sleep hget (hnode.resolve_left hret) ?_, hs'⟩
    cases ret with
    | ok => exact Or.inl (hloop rfl)
    | timedOut => exact absurd rfl hret
    | error =>
        rcases hpc with ⟨_, _, hok⟩ | hpc
        · cases hok
        · exact Or.inr hpc
  · rw [waitAckTake_eq s c call.kind id hget] at hs'
    by_cases hkind : call.kind = .asyncSend
    · rw [if_pos hkind] at hs'
      exact ⟨_, _, CallStep.takeAsync hget (hloop hok) hkind, hs'⟩
    · rw [if_neg hkind] at hs'
      exact ⟨_, _, CallStep.take hget (hloop hok) hkind, hs'⟩

theorem callStep_of_execCall {c : Nat} {call : ClientCall} {e : ClientEvent} {s' : Client}
    (hevent : e = .draw c ∨ (∃ malloc, e = .insert c malloc) ∨ (∃ outcome, e = .send c outcome) ∨
      e = .deleteSeq c ∨ e = .wait c ∨ (∃ ret, e = .wake c ret) ∨ e = .resume c)
    (henabled : enabledCall call e = true) (hexec : s.execCall c call e = some s') :
    ∃ t pc, s.CallStep c call e t pc ∧ s' = t.setPc c pc := by
  rcases hevent with rfl | ⟨malloc, rfl⟩ | ⟨outcome, rfl⟩ | rfl | rfl | ⟨ret, rfl⟩ | rfl
  · have hpc : call.pc = .entry := by simpa [enabledCall] using henabled
    exact ⟨_, _, CallStep.draw hpc, (Option.some.inj hexec).symm⟩
  · -- `uc_ipc_client_insert_seq` decides whether the call goes on to send
    simp only [enabledCall] at henabled
    simp only [execCall] at hexec
    split at hexec
    · rename_i id hpc
      rw [hpc] at henabled
      split at hexec
      · rename_i hret
        exact ⟨_, _, CallStep.insertFail hpc hret, (Option.some.inj hexec).symm⟩
      · rename_i hret
        exact ⟨_, _, CallStep.insert hpc henabled (not_not.1 hret), (Option.some.inj hexec).symm⟩
    · cases hexec
  · simp only [enabledCall] at henabled
    simp only [execCall] at hexec
    split at hexec
    · rename_i id hpc
      rw [hpc] at henabled
      have hkind : call.kind.acked = false := by simpa using henabled
      exact ⟨_, _, CallStep.send (Or.inl ⟨hpc, hkind⟩), (Option.some.inj hexec).symm⟩
    · rename_i id hpc
      rw [hpc] at henabled
      exact ⟨_, _, CallStep.send (Or.inr ⟨hpc, henabled⟩), (Option.some.inj hexec).symm⟩
    · cases hexec
  · simp only [execCall] at hexec
    split at hexec
    · rename_i id hpc
      refine ⟨_, _, CallStep.deleteSeq (Or.inl hpc) ?_, (Option.some.inj hexec).symm⟩
      cases call.kind <;> decide
    · rename_i id hpc
      exact ⟨_, _, CallStep.deleteSeq (Or.inr hpc) (by decide), (Option.some.inj hexec).symm⟩
    · cases hexec
  · simp only [execCall] at hexec
    split at hexec
    · rename_i id hpc
      -- without an entry the call fails at once
      simp only [ucIpcClientWaitAck, U64Table.findVal_eq_get] at hexec
      split at hexec
      · rename_i hget
        rw [waitAckFail_eq] at hexec
        exact ⟨_, _, CallStep.noEntry hpc hget, (Option.some.inj hexec).symm⟩
      · exact callStep_loop (Or.inr rfl) (Or.inl ⟨rfl, hpc, rfl⟩) hexec
    · cases hexec
  · simp only [execCall] at hexec
    split at hexec
    · rename_i id node hpc
      exact ⟨_, _, CallStep.wake hpc, (Option.some.inj hexec).symm⟩
    · cases hexec
  · simp only [execCall] at hexec
    split at hexec
    · rename_i id node ret hpc
      split at hexec
      · rename_i hnode
        exact callStep_loop hnode (Or.inr ⟨rfl, hpc⟩) hexec
      · cases hexec
    · cases hexec

variable (s)

/-- The steps of the client. -/
inductive Step : ClientEvent → Client → Prop
  | call {kind : CallKind} {buf : Payload} {wait : Int32} :
      Step (.call kind buf wait)
        { s with
          calls := s.calls ++
            [{ kind := kind, buf := buf, waitMillisecond := wait, pc := .entry, stored := [] }] }
  | receive {arrival : Arrival} {signalled : Option Nat} {s' : Client}
      (hrcv : s.RcvStep signalled arrival s') : Step (.receive arrival signalled) s'
  | reseed {seqId : UInt64} : Step (.reseed seqId) { s with seqId := seqId }
  | caller {c : Nat} {call : ClientCall} {e : ClientEvent} {t : Client} {pc : CallPc}
      (hcall : s.calls[c]? = some call) (hstep : s.CallStep c call e t pc) : Step e (t.setPc c pc)

variable {s}

/-- Everything an enabled event can do. -/
theorem step_of_exec {e : ClientEvent} {s' : Client} (henabled : s.enabled e = true)
    (hexec : s.exec e = some s') : s.Step e s' := by
  -- the events that belong to a call all go through `execCall`
  have hcaller : ∀ c, (e = .draw c ∨ (∃ malloc, e = .insert c malloc) ∨
      (∃ outcome, e = .send c outcome) ∨ e = .deleteSeq c ∨ e = .wait c ∨
      (∃ ret, e = .wake c ret) ∨ e = .resume c) →
      (s.calls[c]?).any (fun call => enabledCall call e) = true →
      ((s.calls[c]?).bind fun call => s.execCall c call e) = some s' → s.Step e s' := by
    intro c hevent hany hbind
    rcases Option.bind_eq_some_iff.1 hbind with ⟨call, hcall, hexec⟩
    rw [hcall] at hany
    rcases callStep_of_execCall hevent hany hexec with ⟨t, pc, hstep, hs'⟩
    rw [hs']
    exact Step.caller hcall hstep
  cases e with
  | call kind buf wait =>
      cases hexec
      exact Step.call
  | receive arrival signalled =>
      cases hexec
      exact Step.receive (rcvStep arrival signalled)
  | reseed seqId =>
      cases hexec
      exact Step.reseed
  | draw c => exact hcaller c (by simp) henabled hexec
  | insert c malloc => exact hcaller c (by simp) henabled hexec
  | send c outcome => exact hcaller c (by simp) henabled hexec
  | deleteSeq c => exact hcaller c (by simp) henabled hexec
  | wait c => exact hcaller c (by simp) henabled hexec
  | wake c ret => exact hcaller c (by simp) henabled hexec
  | resume c => exact hcaller c (by simp) henabled hexec

end Client

end Ipc
end UtilsC
