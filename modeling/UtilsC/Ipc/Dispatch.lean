import UtilsC.Lib.Machine
import UtilsC.Ipc.Proto

/-!
# From the reader to the callback

The receive thread decides by its type what becomes of a message it has read, and hands some of the
messages to the callback thread: it writes their addresses into a pipe.  The callback thread decides
by the type once more.

* `ucIpcServerHandleClientMsg` and `ucIpcServerLoopCallback` are the two decisions, as the acts that
  follow; `ipcDebugIo` says whether `IPC_DEBUG_IO` is defined (`uc_ipc_common.h` defines it).
* `Dispatch.machine` lets the two threads carry out their acts in any order, over a heap of
  messages.  A write into the pipe succeeds.
* `Dispatch.Faithful` is the invariant: what was handed to the user's callback, followed by what is
  on its way there, is what the completed frames ask for.
-/

namespace UtilsC
namespace Ipc

open Lib

/-- `uc_ipc_pipe_data_t`; what the callback returns is kept by the acts that use it. -/
structure PipeMsg where
  cliUuid : UInt64
  frame : Frame

/-- What a thread of the server does with a message. -/
inductive ServerAct
  /-- a call of `uc_ipc_server_send_msg` -/
  | sendMsg (cliUuid ackId : UInt64) (msgType : UInt32) (buf : Payload)
  /-- the address of the message is written into the pipe -/
  | pipe
  /-- the user's callback is called -/
  | invoke
  /-- `uc_ipc_server_free_pipe_msg` -/
  | free
  deriving DecidableEq

/-- `uc_ipc_server_handle_client_msg`, with `uc_ipc_server_heartbeat_cb` and
`uc_ipc_server_send_ack`. -/
def ucIpcServerHandleClientMsg (ipcDebugIo : Bool) (msg : PipeMsg) : List ServerAct :=
  let head := msg.frame.head
  if head.msgType = ucIpcMsgTypeHeartbeat then
    [.sendMsg msg.cliUuid head.seqId ucIpcMsgTypeHeartbeat msg.frame.buf, .free]
  else if head.msgType = ucIpcMsgTypeVoid then
    -- counted and given back where the counters are compiled in
    if ipcDebugIo then [.free] else [.pipe]
  else if head.msgType = ucIpcMsgTypeAsyncSend then
    [.sendMsg msg.cliUuid head.seqId ucIpcMsgTypeAsyncAck Payload.empty, .pipe]
  else if head.msgType = ucIpcMsgTypeSyncSend then
    [.pipe]
  else
    -- the warning printed behind it reads the type out of the freed block
    [.free]

/-- One round of `uc_ipc_server_loop_callback`; `ret` is what the callback returns. -/
def ucIpcServerLoopCallback (msg : PipeMsg) (ret : Payload) : List ServerAct :=
  let head := msg.frame.head
  if head.msgType = ucIpcMsgTypeVoid ∨ head.msgType = ucIpcMsgTypeAsyncSend then
    [.invoke, .free]
  else if head.msgType = ucIpcMsgTypeSyncSend then
    [.invoke, .sendMsg msg.cliUuid head.seqId ucIpcMsgTypeSyncAck ret, .free]
  -- the receive thread hands on no other type
  else
    [.free]

/-- The arguments of a call of the user's callback. -/
structure Invocation where
  msgType : UInt32
  addr : Payload
  len : UInt64
  deriving DecidableEq

def invocation (msg : PipeMsg) : Invocation where
  msgType := msg.frame.head.msgType
  addr := msg.frame.buf
  len := msg.frame.head.ttl

/-- The types of messages that are for the callback. -/
def forCallback (ipcDebugIo : Bool) (msgType : UInt32) : Bool :=
  msgType == ucIpcMsgTypeAsyncSend || msgType == ucIpcMsgTypeSyncSend ||
    (msgType == ucIpcMsgTypeVoid && !ipcDebugIo)

/-- The calls that a sequence of completed messages asks for. -/
def callsFor (ipcDebugIo : Bool) (msgs : List PipeMsg) : List Invocation :=
  (msgs.filter fun msg => forCallback ipcDebugIo msg.frame.head.msgType).map invocation

/-! ## The two decisions -/

section Decisions

variable (ipcDebugIo : Bool) (msg : PipeMsg) (ret : Payload)

/-- The types of the messages that a server may get. -/
theorem msgType_cases (t : UInt32) :
    t = ucIpcMsgTypeHeartbeat ∨ t = ucIpcMsgTypeVoid ∨ t = ucIpcMsgTypeAsyncSend ∨
      t = ucIpcMsgTypeSyncSend ∨ (t ≠ ucIpcMsgTypeHeartbeat ∧ t ≠ ucIpcMsgTypeVoid ∧
        t ≠ ucIpcMsgTypeAsyncSend ∧ t ≠ ucIpcMsgTypeSyncSend) := by
  tauto

theorem handle_heartbeat (h : msg.frame.head.msgType = ucIpcMsgTypeHeartbeat) :
    ucIpcServerHandleClientMsg ipcDebugIo msg =
      [.sendMsg msg.cliUuid msg.frame.head.seqId ucIpcMsgTypeHeartbeat msg.frame.buf, .free] := by
  simp [ucIpcServerHandleClientMsg, h]

theorem handle_void (h : msg.frame.head.msgType = ucIpcMsgTypeVoid) :
    ucIpcServerHandleClientMsg ipcDebugIo msg = if ipcDebugIo then [.free] else [.pipe] := by
  have hne : ucIpcMsgTypeVoid ≠ ucIpcMsgTypeHeartbeat := by decide
  simp [ucIpcServerHandleClientMsg, h, hne]

theorem handle_asyncSend (h : msg.frame.head.msgType = ucIpcMsgTypeAsyncSend) :
    ucIpcServerHandleClientMsg ipcDebugIo msg =
      [.sendMsg msg.cliUuid msg.frame.head.seqId ucIpcMsgTypeAsyncAck Payload.empty, .pipe] := by
  have hne : ucIpcMsgTypeAsyncSend ≠ ucIpcMsgTypeHeartbeat := by decide
  have hne' : ucIpcMsgTypeAsyncSend ≠ ucIpcMsgTypeVoid := by decide
  simp [ucIpcServerHandleClientMsg, h, hne, hne']

theorem handle_syncSend (h : msg.frame.head.msgType = ucIpcMsgTypeSyncSend) :
    ucIpcServerHandleClientMsg ipcDebugIo msg = [.pipe] := by
  have hne : ucIpcMsgTypeSyncSend ≠ ucIpcMsgTypeHeartbeat := by decide
  have hne' : ucIpcMsgTypeSyncSend ≠ ucIpcMsgTypeVoid := by decide
  have hne'' : ucIpcMsgTypeSyncSend ≠ ucIpcMsgTypeAsyncSend := by decide
  simp [ucIpcServerHandleClientMsg, h, hne, hne', hne'']

theorem forCallback_void : forCallback ipcDebugIo ucIpcMsgTypeVoid = !ipcDebugIo := by
  cases ipcDebugIo <;> decide

theorem forCallback_other {t : UInt32} (hvoid : t ≠ ucIpcMsgTypeVoid)
    (hasync : t ≠ ucIpcMsgTypeAsyncSend) (hsync : t ≠ ucIpcMsgTypeSyncSend) :
    forCallback ipcDebugIo t = false := by
  simp [forCallback, hvoid, hasync, hsync]

/-- The receive thread hands on, once, exactly the messages that are for the callback. -/
theorem handle_count_pipe :
    (ucIpcServerHandleClientMsg ipcDebugIo msg).count .pipe =
      if forCallback ipcDebugIo msg.frame.head.msgType then 1 else 0 := by
  rcases msgType_cases msg.frame.head.msgType with h | h | h | h | ⟨hbeat, hvoid, hasync, hsync⟩
  · rw [handle_heartbeat ipcDebugIo msg h, h]
    have hbeat := forCallback_other ipcDebugIo (t := ucIpcMsgTypeHeartbeat) (by decide) (by decide)
      (by decide)
    simp [hbeat]
  · rw [handle_void ipcDebugIo msg h, h, forCallback_void]
    cases ipcDebugIo <;> simp
  · rw [handle_asyncSend ipcDebugIo msg h, h]
    simp [forCallback]
  · rw [handle_syncSend ipcDebugIo msg h, h]
    simp [forCallback]
  · rw [forCallback_other ipcDebugIo hvoid hasync hsync]
    simp [ucIpcServerHandleClientMsg, hbeat, hvoid, hasync, hsync]

/-- The two decisions agree: the callback is called, once, for each message that was handed on. -/
theorem callback_count_invoke
    (hpipe : ServerAct.pipe ∈ ucIpcServerHandleClientMsg ipcDebugIo msg) :
    (ucIpcServerLoopCallback msg ret).count .invoke = 1 := by
  rcases msgType_cases msg.frame.head.msgType with h | h | h | h | ⟨hbeat, hvoid, hasync, hsync⟩
  · rw [handle_heartbeat ipcDebugIo msg h] at hpipe
    simp at hpipe
  · simp [ucIpcServerLoopCallback, h]
  · simp [ucIpcServerLoopCallback, h]
  · have hne : ucIpcMsgTypeSyncSend ≠ ucIpcMsgTypeVoid := by decide
    have hne' : ucIpcMsgTypeSyncSend ≠ ucIpcMsgTypeAsyncSend := by decide
    simp [ucIpcServerLoopCallback, h, hne, hne']
  · simp [ucIpcServerHandleClientMsg, hbeat, hvoid, hasync, hsync] at hpipe

end Decisions

/-! ## The two threads -/

/-- A thread with a message: its address, and what is left to do with it. -/
structure Work where
  msg : Nat
  acts : List ServerAct

/-- `completed` are the messages read completely, in order, and `invoked` the calls of the user's
callback; the code keeps no such lists. -/
structure Dispatch where
  heap : Nat → Option PipeMsg
  blocks : Nat
  pipe : List Nat
  rcv : Work
  cb : Work
  completed : List PipeMsg
  invoked : List Invocation

inductive DispatchEvent
  /-- the reader has completed a message of a client -/
  | complete (cliUuid : UInt64) (frame : Frame)
  | rcvAct
  /-- the callback thread takes an address out of the pipe -/
  | take (ret : Payload)
  | cbAct

/-- The threads' own steps, as against the arrival of a message. -/
def DispatchEvent.internal : DispatchEvent → Prop
  | .complete _ _ => False
  | _ => True

namespace Dispatch

variable (ipcDebugIo : Bool) (s : Dispatch)

/-- Carry out an act on the message at an address, which has to be live. -/
def runAct (p : Nat) : ServerAct → Option Dispatch
  | .sendMsg _ _ _ _ => (s.heap p).map fun _ => s
  | .pipe => (s.heap p).map fun _ => { s with pipe := s.pipe ++ [p] }
  | .invoke => (s.heap p).map fun msg => { s with invoked := s.invoked ++ [invocation msg] }
  | .free => (s.heap p).map fun _ => { s with heap := Function.update s.heap p none }

def exec : DispatchEvent → Option Dispatch
  | .complete cliUuid frame =>
      -- blocks are numbered, so that an address stands for one message in the whole run
      let msg : PipeMsg := { cliUuid := cliUuid, frame := frame }
      some
        { s with
          heap := Function.update s.heap s.blocks (some msg)
          blocks := s.blocks + 1
          rcv := { msg := s.blocks, acts := ucIpcServerHandleClientMsg ipcDebugIo msg }
          completed := s.completed ++ [msg] }
  | .rcvAct =>
      match s.rcv.acts with
      | [] => none
      | act :: acts =>
          (s.runAct s.rcv.msg act).map fun s' =>
            { s' with rcv := { msg := s.rcv.msg, acts := acts } }
  | .take ret =>
      match s.pipe with
      | [] => none
      | p :: pipe =>
          (s.heap p).map fun msg =>
            { s with pipe := pipe, cb := { msg := p, acts := ucIpcServerLoopCallback msg ret } }
  | .cbAct =>
      match s.cb.acts with
      | [] => none
      | act :: acts =>
          (s.runAct s.cb.msg act).map fun s' => { s' with cb := { msg := s.cb.msg, acts := acts } }

/-- A thread takes the next message when it is done with the last. -/
def enabled : DispatchEvent → Bool
  | .complete _ _ => s.rcv.acts.isEmpty
  | .rcvAct => !s.rcv.acts.isEmpty
  | .take _ => s.cb.acts.isEmpty && !s.pipe.isEmpty
  | .cbAct => !s.cb.acts.isEmpty

def machine : Machine Dispatch DispatchEvent :=
  { enabled := enabled, exec := exec ipcDebugIo }

def ofInit : Dispatch where
  heap := fun _ => none
  blocks := 0
  pipe := []
  rcv := { msg := 0, acts := [] }
  cb := { msg := 0, acts := [] }
  completed := []
  invoked := []

/-! ## The invariant -/

/-- The last act of a thread gives the message up, and no act before it does. -/
def GivesUp : List ServerAct → Prop
  | [] => False
  | .free :: acts => acts = []
  | .pipe :: acts => acts = []
  | .sendMsg _ _ _ _ :: acts => GivesUp acts
  | .invoke :: acts => GivesUp acts

theorem givesUp_ne_nil {acts : List ServerAct} (h : GivesUp acts) : acts ≠ [] := by
  rintro rfl
  exact h

/-- The address a thread works on. -/
def holds (work : Work) : List Nat :=
  if work.acts = [] then [] else [work.msg]

/-- The addresses that are in use, from the callback thread back to the receive thread. -/
def holders : List Nat :=
  holds s.cb ++ (s.pipe ++ holds s.rcv)

/-- The call that a message stands for. -/
def callOf (heap : Nat → Option PipeMsg) (p : Nat) : List Invocation :=
  ((heap p).map invocation).toList

/-- The calls that a thread still has to bring about. -/
def due (heap : Nat → Option PipeMsg) (act : ServerAct) (work : Work) : List Invocation :=
  (List.replicate (work.acts.count act) work.msg).flatMap (callOf heap)

/-- The calls that are on their way, in order. -/
def onTheWay (heap : Nat → Option PipeMsg) (cb : Work) (pipe : List Nat) (rcv : Work) :
    List Invocation :=
  due heap .invoke cb ++ (pipe.flatMap (callOf heap) ++ due heap .pipe rcv)

structure Faithful : Prop where
  order : s.invoked ++ onTheWay s.heap s.cb s.pipe s.rcv = callsFor ipcDebugIo s.completed
  live : ∀ p ∈ s.holders, (s.heap p).isSome
  nodup : s.holders.Nodup
  bounded : ∀ p, (s.heap p).isSome → p < s.blocks
  rcvActs : s.rcv.acts = [] ∨ (GivesUp s.rcv.acts ∧ .invoke ∉ s.rcv.acts)
  cbActs : s.cb.acts = [] ∨ (GivesUp s.cb.acts ∧ .pipe ∉ s.cb.acts)
  agreed : ∀ p ∈ s.pipe, ∀ msg, s.heap p = some msg →
    .pipe ∈ ucIpcServerHandleClientMsg ipcDebugIo msg
  agrees : .pipe ∈ s.rcv.acts → ∀ msg, s.heap s.rcv.msg = some msg →
    .pipe ∈ ucIpcServerHandleClientMsg ipcDebugIo msg

theorem ofInit_faithful : ofInit.Faithful ipcDebugIo := by
  constructor <;> simp [ofInit, holders, holds, onTheWay, due, callsFor]

section Programs

variable (msg : PipeMsg) (ret : Payload)

theorem handle_givesUp : GivesUp (ucIpcServerHandleClientMsg ipcDebugIo msg) ∧
    .invoke ∉ ucIpcServerHandleClientMsg ipcDebugIo msg := by
  simp only [ucIpcServerHandleClientMsg]
  split
  · simp [GivesUp]
  · split
    · split <;> simp [GivesUp]
    · split
      · simp [GivesUp]
      · split <;> simp [GivesUp]

theorem callback_givesUp : GivesUp (ucIpcServerLoopCallback msg ret) ∧
    .pipe ∉ ucIpcServerLoopCallback msg ret := by
  simp only [ucIpcServerLoopCallback]
  split
  · simp [GivesUp]
  · split <;> simp [GivesUp]

end Programs

variable {ipcDebugIo} {s}

theorem holds_of_ne_nil {work : Work} (h : work.acts ≠ []) : holds work = [work.msg] :=
  if_neg h

theorem mem_holders_cb (h : s.cb.acts ≠ []) : s.cb.msg ∈ s.holders := by
  simp [holders, holds_of_ne_nil h]

theorem mem_holders_rcv (h : s.rcv.acts ≠ []) : s.rcv.msg ∈ s.holders := by
  simp [holders, holds_of_ne_nil h]

theorem mem_holders_pipe {p : Nat} (h : p ∈ s.pipe) : p ∈ s.holders := by
  simp [holders, h]

/-- Messages that no thread holds do not count. -/
theorem flatMap_callOf_congr {heap heap' : Nat → Option PipeMsg} {ps : List Nat}
    (h : ∀ p ∈ ps, heap' p = heap p) : ps.flatMap (callOf heap') = ps.flatMap (callOf heap) := by
  refine List.flatMap_congr ?_
  intro p hp
  rw [callOf, callOf, h p hp]

theorem due_congr {heap heap' : Nat → Option PipeMsg} {act : ServerAct} {work : Work}
    (h : ∀ p ∈ holds work, heap' p = heap p) : due heap' act work = due heap act work := by
  refine flatMap_callOf_congr ?_
  intro p hp
  rcases List.mem_replicate.1 hp with ⟨hcount, rfl⟩
  have hbusy : work.acts ≠ [] := List.ne_nil_of_mem
    (List.count_pos_iff.1 (Nat.pos_of_ne_zero hcount))
  exact h _ (by simp [holds_of_ne_nil hbusy])

theorem onTheWay_congr {heap heap' : Nat → Option PipeMsg} {cb rcv : Work} {pipe : List Nat}
    (h : ∀ p ∈ holds cb ++ (pipe ++ holds rcv), heap' p = heap p) :
    onTheWay heap' cb pipe rcv = onTheWay heap cb pipe rcv := by
  have hcb : due heap' .invoke cb = due heap .invoke cb :=
    due_congr fun p hp => h p (List.mem_append_left _ hp)
  have hpipe : pipe.flatMap (callOf heap') = pipe.flatMap (callOf heap) :=
    flatMap_callOf_congr fun p hp => h p (List.mem_append_right _ (List.mem_append_left _ hp))
  have hrcv : due heap' .pipe rcv = due heap .pipe rcv :=
    due_congr fun p hp => h p (List.mem_append_right _ (List.mem_append_right _ hp))
  rw [onTheWay, onTheWay, hcb, hpipe, hrcv]

/-- Giving a block back makes no other block appear. -/
theorem isSome_of_freed {heap : Nat → Option PipeMsg} {p q : Nat}
    (h : (Function.update heap q none p).isSome) : (heap p).isSome := by
  by_cases heq : p = q
  · subst heq
    rw [Function.update_self] at h
    cases h
  · rwa [Function.update_of_ne heq] at h

theorem callOf_eq {heap : Nat → Option PipeMsg} {p : Nat} {msg : PipeMsg}
    (h : heap p = some msg) : callOf heap p = [invocation msg] := by
  rw [callOf, h]
  rfl

/-! ## Steps -/

/-- What is left to do before both threads wait. -/
def weight (s : Dispatch) : Nat :=
  5 * s.rcv.acts.length + (4 * s.pipe.length + s.cb.acts.length)

/-- What has to be said about a step of one of the threads. -/
theorem Faithful.internal (hF : s.Faithful ipcDebugIo) {t : Dispatch}
    (hcompleted : t.completed = s.completed) (hblocks : t.blocks = s.blocks)
    (hheap : ∀ p ∈ t.holders, t.heap p = s.heap p)
    (hsome : ∀ p, (t.heap p).isSome → (s.heap p).isSome)
    (hholders : t.holders.Sublist s.holders)
    (horder : t.invoked ++ onTheWay s.heap t.cb t.pipe t.rcv =
      s.invoked ++ onTheWay s.heap s.cb s.pipe s.rcv)
    (hrcv : t.rcv.acts = [] ∨ (GivesUp t.rcv.acts ∧ .invoke ∉ t.rcv.acts))
    (hcb : t.cb.acts = [] ∨ (GivesUp t.cb.acts ∧ .pipe ∉ t.cb.acts))
    (hagreed : ∀ p ∈ t.pipe, p ∈ s.pipe ∨ (p = s.rcv.msg ∧ .pipe ∈ s.rcv.acts))
    (hagrees : .pipe ∈ t.rcv.acts → .pipe ∈ s.rcv.acts ∧ t.rcv.msg = s.rcv.msg) :
    t.Faithful ipcDebugIo := by
  have hback : ∀ p ∈ t.holders, ∀ msg, t.heap p = some msg → s.heap p = some msg :=
    fun p hp msg hmsg => (hheap p hp).symm.trans hmsg
  refine ⟨?_, ?_, hF.nodup.sublist hholders, ?_, hrcv, hcb, ?_, ?_⟩
  · rw [onTheWay_congr hheap, horder, hcompleted]
    exact hF.order
  · intro p hp
    rw [hheap p hp]
    exact hF.live p (hholders.mem hp)
  · intro p hp
    rw [hblocks]
    exact hF.bounded p (hsome p hp)
  · intro p hp msg hmsg
    have hmsg' := hback p (mem_holders_pipe hp) msg hmsg
    rcases hagreed p hp with hold | ⟨rfl, hpipe⟩
    · exact hF.agreed p hold msg hmsg'
    · exact hF.agrees hpipe msg hmsg'
  · intro hpipe msg hmsg
    have hmsg' := hback _ (mem_holders_rcv (List.ne_nil_of_mem hpipe)) msg hmsg
    rcases hagrees hpipe with ⟨hpipe', hsame⟩
    exact hF.agrees hpipe' msg (hsame ▸ hmsg')

/-- The receive thread does something with its message. -/
theorem Faithful.rcvAct (hF : s.Faithful ipcDebugIo) (hbusy : s.rcv.acts ≠ []) :
    ∃ s', s.exec ipcDebugIo .rcvAct = some s' ∧ s'.Faithful ipcDebugIo ∧
      s'.completed = s.completed ∧ s'.weight < s.weight := by
  rcases Option.isSome_iff_exists.1 (hF.live _ (mem_holders_rcv hbusy)) with ⟨msg, hmsg⟩
  have hprog := hF.rcvActs.resolve_left hbusy
  have hholders : s.holders = holds s.cb ++ (s.pipe ++ [s.rcv.msg]) := by
    rw [holders, holds_of_ne_nil hbusy]
  cases hacts : s.rcv.acts with
  | nil => exact absurd hacts hbusy
  | cons act acts =>
      rw [hacts] at hprog
      cases act with
      | sendMsg cliUuid ackId msgType buf =>
          -- an answer leaves the message with the thread
          have hnext : acts ≠ [] := givesUp_ne_nil hprog.1
          have hsame : holds s.cb ++ (s.pipe ++ holds ⟨s.rcv.msg, acts⟩) = s.holders := by
            rw [hholders, @holds_of_ne_nil ⟨s.rcv.msg, acts⟩ hnext]
          refine ⟨{ s with rcv := { msg := s.rcv.msg, acts := acts } }, ?_, ?_, rfl, ?_⟩
          · simp [exec, hacts, runAct, hmsg]
          · refine hF.internal rfl rfl (fun _ _ => rfl) (fun _ h => h) ?_ ?_ (Or.inr ?_) hF.cbActs
              (fun _ hp => Or.inl hp) ?_
            · rw [← hsame]
              exact List.Sublist.refl _
            · simp [onTheWay, due, hacts]
            · exact ⟨hprog.1, fun h => hprog.2 (List.mem_cons_of_mem _ h)⟩
            · intro hpipe
              exact ⟨by rw [hacts]; exact List.mem_cons_of_mem _ hpipe, rfl⟩
          · simp only [weight, hacts, List.length_cons]
            omega
      | pipe =>
          -- the address goes behind the others, and the call it stands for with it
          have hnil : acts = [] := hprog.1
          subst hnil
          refine ⟨{ s with pipe := s.pipe ++ [s.rcv.msg], rcv := { msg := s.rcv.msg, acts := [] } },
            ?_, ?_, rfl, ?_⟩
          · simp [exec, hacts, runAct, hmsg]
          · refine hF.internal rfl rfl (fun _ _ => rfl) (fun _ h => h) ?_ ?_ (Or.inl rfl) hF.cbActs
              ?_ (fun h => by cases h)
            · rw [hholders]
              simp [holders, holds]
            · simp [onTheWay, due, hacts]
            · intro p hp
              rcases List.mem_append.1 hp with hold | hnew
              · exact Or.inl hold
              · exact Or.inr ⟨List.mem_singleton.1 hnew, by simp [hacts]⟩
          · simp only [weight, hacts, List.length_append, List.length_cons, List.length_nil]
            omega
      | invoke => exact absurd List.mem_cons_self hprog.2
      | free =>
          -- no call is lost: only messages that were not handed on are freed here
          have hnil : acts = [] := hprog.1
          subst hnil
          have hlast : ∀ p ∈ holds s.cb ++ s.pipe, p ≠ s.rcv.msg := by
            have hnodup := hF.nodup
            rw [hholders, ← List.append_assoc] at hnodup
            rintro p hp rfl
            exact (List.nodup_append.1 hnodup).2.2 _ hp _ (List.mem_singleton_self _) rfl
          refine ⟨{ s with
            heap := Function.update s.heap s.rcv.msg none
            rcv := { msg := s.rcv.msg, acts := [] } }, ?_, ?_, rfl, ?_⟩
          · simp [exec, hacts, runAct, hmsg]
          · refine hF.internal rfl rfl ?_ ?_ ?_ ?_ (Or.inl rfl) hF.cbActs (fun _ hp => Or.inl hp)
              (fun h => by cases h)
            · intro p hp
              refine Function.update_of_ne (hlast p ?_) _ _
              simpa [holders, holds] using hp
            · intro p hp
              exact isSome_of_freed hp
            · rw [hholders]
              simp [holders, holds]
            · simp [onTheWay, due, hacts]
          · simp only [weight, hacts, List.length_cons, List.length_nil]
            omega

/-- The callback thread does something with its message. -/
theorem Faithful.cbAct (hF : s.Faithful ipcDebugIo) (hbusy : s.cb.acts ≠ []) :
    ∃ s', s.exec ipcDebugIo .cbAct = some s' ∧ s'.Faithful ipcDebugIo ∧
      s'.completed = s.completed ∧ s'.weight < s.weight := by
  rcases Option.isSome_iff_exists.1 (hF.live _ (mem_holders_cb hbusy)) with ⟨msg, hmsg⟩
  have hprog := hF.cbActs.resolve_left hbusy
  have hholders : s.holders = s.cb.msg :: (s.pipe ++ holds s.rcv) := by
    rw [holders, holds_of_ne_nil hbusy]
    rfl
  cases hacts : s.cb.acts with
  | nil => exact absurd hacts hbusy
  | cons act acts =>
      rw [hacts] at hprog
      -- while acts are left the message stays in the thread's hands
      have hkept : acts ≠ [] → holds ⟨s.cb.msg, acts⟩ ++ (s.pipe ++ holds s.rcv) = s.holders := by
        intro hnext
        rw [hholders, @holds_of_ne_nil ⟨s.cb.msg, acts⟩ hnext]
        rfl
      cases act with
      | sendMsg cliUuid ackId msgType buf =>
          have hnext : acts ≠ [] := givesUp_ne_nil hprog.1
          refine ⟨{ s with cb := { msg := s.cb.msg, acts := acts } }, ?_, ?_, rfl, ?_⟩
          · simp [exec, hacts, runAct, hmsg]
          · refine hF.internal rfl rfl (fun _ _ => rfl) (fun _ h => h) ?_ ?_ hF.rcvActs (Or.inr ?_)
              (fun _ hp => Or.inl hp) (fun hpipe => ⟨hpipe, rfl⟩)
            · rw [← hkept hnext]
              exact List.Sublist.refl _
            · simp [onTheWay, due, hacts]
            · exact ⟨hprog.1, fun h => hprog.2 (List.mem_cons_of_mem _ h)⟩
          · simp only [weight, hacts, List.length_cons]
            omega
      | pipe => exact absurd List.mem_cons_self hprog.2
      | invoke =>
          have hnext : acts ≠ [] := givesUp_ne_nil hprog.1
          refine ⟨{ s with
            invoked := s.invoked ++ [invocation msg]
            cb := { msg := s.cb.msg, acts := acts } }, ?_, ?_, rfl, ?_⟩
          · simp [exec, hacts, runAct, hmsg]
          · refine hF.internal rfl rfl (fun _ _ => rfl) (fun _ h => h) ?_ ?_ hF.rcvActs (Or.inr ?_)
              (fun _ hp => Or.inl hp) (fun hpipe => ⟨hpipe, rfl⟩)
            · rw [← hkept hnext]
              exact List.Sublist.refl _
            · -- the call moves from what is due to what has been done
              simp [onTheWay, due, hacts, List.replicate_succ, callOf_eq hmsg]
            · exact ⟨hprog.1, fun h => hprog.2 (List.mem_cons_of_mem _ h)⟩
          · simp only [weight, hacts, List.length_cons]
            omega
      | free =>
          -- the call has been made; the pipe holds other addresses, so their messages stay
          have hnil : acts = [] := hprog.1
          subst hnil
          have hlast : ∀ p ∈ s.pipe ++ holds s.rcv, p ≠ s.cb.msg := by
            have hnodup := hF.nodup
            rw [hholders] at hnodup
            rintro p hp rfl
            exact (List.nodup_cons.1 hnodup).1 hp
          refine ⟨{ s with
            heap := Function.update s.heap s.cb.msg none
            cb := { msg := s.cb.msg, acts := [] } }, ?_, ?_, rfl, ?_⟩
          · simp [exec, hacts, runAct, hmsg]
          · refine hF.internal rfl rfl ?_ ?_ ?_ ?_ hF.rcvActs (Or.inl rfl) (fun _ hp => Or.inl hp)
              (fun hpipe => ⟨hpipe, rfl⟩)
            · intro p hp
              exact Function.update_of_ne (hlast p hp) _ _
            · intro p hp
              exact isSome_of_freed hp
            · rw [hholders]
              exact List.sublist_cons_self _ _
            · simp [onTheWay, due, hacts]
          · simp only [weight, hacts, List.length_cons, List.length_nil]
            omega

theorem callback_length_le (msg : PipeMsg) (ret : Payload) :
    (ucIpcServerLoopCallback msg ret).length ≤ 3 := by
  simp only [ucIpcServerLoopCallback]
  split
  · simp
  · split <;> simp

/-- The callback thread takes the next message. -/
theorem Faithful.take (hF : s.Faithful ipcDebugIo) (hidle : s.cb.acts = []) {p : Nat}
    {pipe : List Nat} (hpipe : s.pipe = p :: pipe) (ret : Payload) :
    ∃ s', s.exec ipcDebugIo (.take ret) = some s' ∧ s'.Faithful ipcDebugIo ∧
      s'.completed = s.completed ∧ s'.weight < s.weight := by
  have hmem : p ∈ s.pipe := by
    rw [hpipe]
    exact List.mem_cons_self
  rcases Option.isSome_iff_exists.1 (hF.live p (mem_holders_pipe hmem)) with ⟨msg, hmsg⟩
  have hprog := callback_givesUp msg ret
  have honce := callback_count_invoke ipcDebugIo msg ret (hF.agreed p hmem msg hmsg)
  have hholders : s.holders = p :: (pipe ++ holds s.rcv) := by
    simp [holders, holds, hidle, hpipe]
  refine ⟨{ s with pipe := pipe, cb := { msg := p, acts := ucIpcServerLoopCallback msg ret } },
    ?_, ?_, rfl, ?_⟩
  · simp [exec, hpipe, hmsg]
  · refine hF.internal rfl rfl (fun _ _ => rfl) (fun _ h => h) ?_ ?_ hF.rcvActs (Or.inr hprog) ?_
      (fun h => ⟨h, rfl⟩)
    · rw [hholders, holders, holds_of_ne_nil (givesUp_ne_nil hprog.1)]
      exact List.Sublist.refl _
    · -- the one call that was in the pipe is now due
      simp [onTheWay, due, hidle, hpipe, honce]
    · intro q hq
      refine Or.inl ?_
      rw [hpipe]
      exact List.mem_cons_of_mem _ hq
  · have hshort := callback_length_le msg ret
    simp only [weight, hidle, hpipe, List.length_cons, List.length_nil]
    omega

theorem callsFor_append (msgs : List PipeMsg) (msg : PipeMsg) :
    callsFor ipcDebugIo (msgs ++ [msg]) = callsFor ipcDebugIo msgs ++
      if forCallback ipcDebugIo msg.frame.head.msgType then [invocation msg] else [] := by
  rw [callsFor, List.filter_append, List.map_append, ← callsFor]
  cases h : forCallback ipcDebugIo msg.frame.head.msgType <;> simp [h]

/-- A message has been read: it comes behind all the others. -/
theorem Faithful.complete (hF : s.Faithful ipcDebugIo) (hidle : s.rcv.acts = []) {t : Dispatch}
    {cliUuid : UInt64} {frame : Frame}
    (hexec : s.exec ipcDebugIo (.complete cliUuid frame) = some t) : t.Faithful ipcDebugIo := by
  cases Option.some.inj hexec
  let msg : PipeMsg := { cliUuid := cliUuid, frame := frame }
  -- the new address is above all that are held, so what is on its way does not change
  have hprog := handle_givesUp ipcDebugIo msg
  have hcount := handle_count_pipe ipcDebugIo msg
  have hholders : s.holders = holds s.cb ++ s.pipe := by
    simp [holders, holds, hidle]
  have hold : ∀ p ∈ holds s.cb ++ s.pipe, p < s.blocks := by
    intro p hp
    rw [← hholders] at hp
    exact hF.bounded p (hF.live p hp)
  have hsame : ∀ p ∈ holds s.cb ++ s.pipe,
      Function.update s.heap s.blocks (some msg) p = s.heap p :=
    fun p hp => Function.update_of_ne (Nat.ne_of_lt (hold p hp)) _ _
  have hnew : Function.update s.heap s.blocks (some msg) s.blocks = some msg :=
    Function.update_self _ _ _
  have hholds : holds ⟨s.blocks, ucIpcServerHandleClientMsg ipcDebugIo msg⟩ = [s.blocks] :=
    holds_of_ne_nil (givesUp_ne_nil hprog.1)
  refine ⟨?_, ?_, ?_, ?_, Or.inr hprog, hF.cbActs, ?_, ?_⟩
  · have hcb : due (Function.update s.heap s.blocks (some msg)) .invoke s.cb =
        due s.heap .invoke s.cb := due_congr fun p hp => hsame p (List.mem_append_left _ hp)
    have hpipe : s.pipe.flatMap (callOf (Function.update s.heap s.blocks (some msg))) =
        s.pipe.flatMap (callOf s.heap) :=
      flatMap_callOf_congr fun p hp => hsame p (List.mem_append_right _ hp)
    -- what the message asks for is due behind everything that was on its way
    have hdue : due (Function.update s.heap s.blocks (some msg)) .pipe
        ⟨s.blocks, ucIpcServerHandleClientMsg ipcDebugIo msg⟩ =
          if forCallback ipcDebugIo msg.frame.head.msgType then [invocation msg] else [] := by
      simp only [due, hcount]
      split <;> simp [callOf_eq hnew]
    have horder := hF.order
    simp only [onTheWay, due, hidle, List.count_nil, List.replicate_zero, List.flatMap_nil,
      List.append_nil] at horder
    show s.invoked ++ onTheWay _ s.cb s.pipe _ = callsFor ipcDebugIo (s.completed ++ [msg])
    rw [callsFor_append, ← horder, onTheWay, hcb, hpipe, hdue, due]
    simp only [List.append_assoc]
  · intro p hp
    have hmem : p ∈ (holds s.cb ++ s.pipe) ++ [s.blocks] := by
      rw [List.append_assoc, ← hholds]
      exact hp
    show (Function.update s.heap s.blocks (some msg) p).isSome
    rcases List.mem_append.1 hmem with hin | hlast
    · rw [hsame p hin]
      refine hF.live p ?_
      rw [hholders]
      exact hin
    · rw [List.mem_singleton.1 hlast, hnew]
      rfl
  · show (holds s.cb ++ (s.pipe ++ holds _)).Nodup
    rw [hholds, ← List.append_assoc]
    refine List.nodup_append.2 ⟨?_, List.pairwise_singleton _ _, ?_⟩
    · rw [← hholders]
      exact hF.nodup
    · rintro p hp q hq rfl
      exact absurd (hold p hp) (by simp [List.mem_singleton.1 hq])
  · intro p hp
    show p < s.blocks + 1
    by_cases h : p = s.blocks
    · omega
    · have hp' : (Function.update s.heap s.blocks (some msg) p).isSome := hp
      rw [Function.update_of_ne h] at hp'
      have hlt := hF.bounded p hp'
      omega
  · intro p hp m hm
    refine hF.agreed p hp m ?_
    rw [← hsame p (List.mem_append_right _ hp)]
    exact hm
  · intro hpipe m hm
    have hm' : m = msg := (Option.some.inj (hnew.symm.trans hm)).symm
    rw [hm']
    exact hpipe

/-! ## Runs -/

theorem Faithful.step (hF : s.Faithful ipcDebugIo) {t : Dispatch} {e : DispatchEvent}
    (henabled : (machine ipcDebugIo).enabled s e = true)
    (hexec : (machine ipcDebugIo).exec s e = some t) :
    t.Faithful ipcDebugIo ∧ (e.internal → t.completed = s.completed ∧ t.weight < s.weight) := by
  -- an internal step leads to one state only
  have hinternal : (∃ s', s.exec ipcDebugIo e = some s' ∧ s'.Faithful ipcDebugIo ∧
      s'.completed = s.completed ∧ s'.weight < s.weight) →
        t.Faithful ipcDebugIo ∧ (e.internal → t.completed = s.completed ∧ t.weight < s.weight) := by
    rintro ⟨s', hexec', hF', hcompleted, hweight⟩
    cases Option.some.inj (hexec'.symm.trans hexec)
    exact ⟨hF', fun _ => ⟨hcompleted, hweight⟩⟩
  cases e with
  | complete cliUuid frame =>
      have hidle : s.rcv.acts = [] := List.isEmpty_iff.1 henabled
      exact ⟨hF.complete hidle hexec, False.elim⟩
  | rcvAct =>
      refine hinternal (hF.rcvAct ?_)
      rintro hnil
      simp [machine, enabled, hnil] at henabled
  | take ret =>
      have hboth := (Bool.and_eq_true _ _).mp henabled
      have hidle : s.cb.acts = [] := List.isEmpty_iff.1 hboth.1
      cases hpipe : s.pipe with
      | nil =>
          rw [hpipe] at hboth
          cases hboth.2
      | cons p pipe => exact hinternal (hF.take hidle hpipe ret)
  | cbAct =>
      refine hinternal (hF.cbAct ?_)
      rintro hnil
      simp [machine, enabled, hnil] at henabled

theorem Faithful.run (hF : s.Faithful ipcDebugIo) {events : List DispatchEvent} {t : Dispatch}
    (hrun : (machine ipcDebugIo).Run s events t) : t.Faithful ipcDebugIo := by
  have hstep : ∀ {t u : Dispatch} {e : DispatchEvent}, t.Faithful ipcDebugIo → True →
      (machine ipcDebugIo).enabled t e = true → (machine ipcDebugIo).exec t e = some u →
        u.Faithful ipcDebugIo :=
    fun hF' _ henabled hexec => (hF'.step henabled hexec).1
  exact Machine.Run.invariant hF hstep hrun fun _ _ => trivial

/-- Both threads wait. -/
def Idle (s : Dispatch) : Prop :=
  s.rcv.acts = [] ∧ s.pipe = [] ∧ s.cb.acts = []

instance : DecidablePred Idle := fun s =>
  decidable_of_iff (s.rcv.acts.isEmpty = true ∧ s.pipe.isEmpty = true ∧ s.cb.acts.isEmpty = true)
    (by simp [Idle])

/-- A thread that does not wait can go on. -/
theorem Faithful.progress (hF : s.Faithful ipcDebugIo) (hbusy : ¬ s.Idle) :
    ∃ (e : DispatchEvent) (t : Dispatch), e.internal ∧
      (machine ipcDebugIo).enabled s e = true ∧ (machine ipcDebugIo).exec s e = some t := by
  by_cases hrcv : s.rcv.acts = []
  · by_cases hcb : s.cb.acts = []
    · cases hpipe : s.pipe with
      | nil => exact absurd ⟨hrcv, hpipe, hcb⟩ hbusy
      | cons p pipe =>
          rcases hF.take hcb hpipe Payload.empty with ⟨t, hexec, -⟩
          exact ⟨.take Payload.empty, t, trivial, by simp [machine, enabled, hcb, hpipe], hexec⟩
    · rcases hF.cbAct hcb with ⟨t, hexec, -⟩
      exact ⟨.cbAct, t, trivial, by simp [machine, enabled, hcb], hexec⟩
  · rcases hF.rcvAct hrcv with ⟨t, hexec, -⟩
    exact ⟨.rcvAct, t, trivial, by simp [machine, enabled, hrcv], hexec⟩

/-- Left to themselves the threads come to rest; the induction is on the weight. -/
theorem Faithful.drain (hF : s.Faithful ipcDebugIo) :
    ∃ (more : List DispatchEvent) (t : Dispatch), (∀ e ∈ more, e.internal) ∧
      (machine ipcDebugIo).Run s more t ∧ t.Idle := by
  induction hw : s.weight using Nat.strong_induction_on generalizing s with
  | _ n ih =>
      by_cases hidle : s.Idle
      · exact ⟨[], s, by simp, Machine.Run.nil, hidle⟩
      · rcases hF.progress hidle with ⟨e, mid, hinternal, henabled, hexec⟩
        have hstep := hF.step henabled hexec
        -- each step of a thread makes the weight smaller
        have hless := (hstep.2 hinternal).2
        rcases ih mid.weight (by omega) hstep.1 rfl with ⟨more, t, hmore, hrun, ht⟩
        have hfirst : (machine ipcDebugIo).Run s [e] mid :=
          Machine.Run.snoc Machine.Run.nil henabled hexec
        refine ⟨[e] ++ more, t, ?_, hfirst.trans hrun, ht⟩
        intro e' he'
        rcases List.mem_append.1 he' with hone | hrest
        · rw [List.mem_singleton.1 hone]
          exact hinternal
        · exact hmore e' hrest

/-- The messages that are read in a run. -/
def messages : List DispatchEvent → List PipeMsg
  | [] => []
  | .complete cliUuid frame :: events => { cliUuid := cliUuid, frame := frame } :: messages events
  | _ :: events => messages events

theorem messages_append (events events' : List DispatchEvent) :
    messages (events ++ events') = messages events ++ messages events' := by
  induction events with
  | nil => rfl
  | cons e events ih => cases e <;> simp [messages, ih]

theorem messages_internal {events : List DispatchEvent} (h : ∀ e ∈ events, e.internal) :
    messages events = [] := by
  induction events with
  | nil => rfl
  | cons e events ih =>
      have hrest := ih fun e' he' => h e' (List.mem_cons_of_mem _ he')
      have hfirst := h e List.mem_cons_self
      cases e with
      | complete cliUuid frame => exact absurd hfirst not_false
      | rcvAct => exact hrest
      | take ret => exact hrest
      | cbAct => exact hrest

theorem Faithful.completed_run (hF : s.Faithful ipcDebugIo) {events : List DispatchEvent}
    {t : Dispatch} (hrun : (machine ipcDebugIo).Run s events t) :
    t.completed = s.completed ++ messages events := by
  induction hrun with
  | nil => simp [messages]
  | @snoc es mid u e hrun henabled hexec ih =>
      rw [messages_append, ← List.append_assoc, ← ih]
      have hmid := hF.run hrun
      cases e with
      | complete cliUuid frame =>
          cases Option.some.inj hexec
          rfl
      | rcvAct => simpa [messages] using ((hmid.step henabled hexec).2 trivial).1
      | take ret => simpa [messages] using ((hmid.step henabled hexec).2 trivial).1
      | cbAct => simpa [messages] using ((hmid.step henabled hexec).2 trivial).1

theorem Faithful.invoked_of_idle (hF : s.Faithful ipcDebugIo) (hidle : s.Idle) :
    s.invoked = callsFor ipcDebugIo s.completed := by
  rcases hidle with ⟨hrcv, hpipe, hcb⟩
  have horder := hF.order
  simpa [onTheWay, due, hrcv, hpipe, hcb] using horder

/-! ## Exactly once -/

/-- The types that are announced to the user's callback. -/
def wantsCallback (msgType : UInt32) : Bool :=
  msgType == ucIpcMsgTypeVoid || msgType == ucIpcMsgTypeAsyncSend || msgType == ucIpcMsgTypeSyncSend

/-- One call for each message of these types, with its type, payload and length, in order. -/
def wantedCalls (msgs : List PipeMsg) : List Invocation :=
  (msgs.filter fun msg => wantsCallback msg.frame.head.msgType).map invocation

/-- Each of the messages read so far is handed to the callback once and in order: the calls made
are the first ones of the calls wanted, and once the threads wait they are all of them. -/
structure ExactlyOnce (ipcDebugIo : Bool) (msgs : List PipeMsg) (s : Dispatch) : Prop where
  soFar : s.invoked <+: wantedCalls msgs
  finishes : ∃ (more : List DispatchEvent) (t : Dispatch), (∀ e ∈ more, e.internal) ∧
    (machine ipcDebugIo).Run s more t ∧ t.Idle
  finally_all : ∀ {more : List DispatchEvent} {t : Dispatch}, (∀ e ∈ more, e.internal) →
    (machine ipcDebugIo).Run s more t → t.Idle → t.invoked = wantedCalls msgs

/-- A message is passed over when it is of type void and `IPC_DEBUG_IO` is defined. -/
theorem forCallback_eq (t : UInt32) :
    forCallback ipcDebugIo t =
      (!(ipcDebugIo && t == ucIpcMsgTypeVoid) && wantsCallback t) := by
  by_cases hvoid : t = ucIpcMsgTypeVoid
  · subst hvoid
    cases ipcDebugIo <;> decide
  · have hfalse : (t == ucIpcMsgTypeVoid) = false := beq_eq_false_iff_ne.2 hvoid
    simp [forCallback, wantsCallback, hfalse]

theorem callsFor_eq_wantedCalls_iff (msgs : List PipeMsg) :
    callsFor ipcDebugIo msgs = wantedCalls msgs ↔
      (ipcDebugIo = true → ∀ msg ∈ msgs, msg.frame.head.msgType ≠ ucIpcMsgTypeVoid) := by
  have hfilter : callsFor ipcDebugIo msgs =
      ((msgs.filter fun msg => wantsCallback msg.frame.head.msgType).filter fun msg =>
        !(ipcDebugIo && msg.frame.head.msgType == ucIpcMsgTypeVoid)).map invocation := by
    rw [callsFor, List.filter_filter]
    simp only [forCallback_eq]
  rw [hfilter, wantedCalls]
  constructor
  · intro heq hdebug msg hmsg hvoid
    -- a void message is filtered out of one list only, so the lists differ in length
    have hlength := congrArg List.length heq
    rw [List.length_map, List.length_map] at hlength
    have hall := List.length_filter_eq_length_iff.1 hlength msg
      (List.mem_filter.2 ⟨hmsg, by rw [hvoid]; decide⟩)
    simp [hdebug, hvoid] at hall
  · intro h
    congr 1
    refine List.filter_eq_self.2 ?_
    intro msg hmsg
    cases hdebug : ipcDebugIo with
    | false => rfl
    | true => simp [h hdebug msg (List.mem_filter.1 hmsg).1]

/-- In every run, each message that has been read reaches the callback exactly once, unless
`IPC_DEBUG_IO` is defined and a message of type void has been read. -/
theorem ucIpcServer_exactlyOnce_iff (ipcDebugIo : Bool) {events : List DispatchEvent}
    {s : Dispatch} (hrun : (machine ipcDebugIo).Run ofInit events s) :
    s.ExactlyOnce ipcDebugIo (messages events) ↔
      (ipcDebugIo = true →
        ∀ msg ∈ messages events, msg.frame.head.msgType ≠ ucIpcMsgTypeVoid) := by
  have hF := (ofInit_faithful ipcDebugIo).run hrun
  have hcompleted : s.completed = messages events := (ofInit_faithful ipcDebugIo).completed_run hrun
  have hfinally : ∀ {more : List DispatchEvent} {t : Dispatch}, (∀ e ∈ more, e.internal) →
      (machine ipcDebugIo).Run s more t → t.Idle →
        t.invoked = callsFor ipcDebugIo (messages events) := by
    intro more t hmore hrun' hidle
    have hlast := hF.completed_run hrun'
    rw [messages_internal hmore, List.append_nil, hcompleted] at hlast
    rw [(hF.run hrun').invoked_of_idle hidle, hlast]
  rw [← callsFor_eq_wantedCalls_iff]
  constructor
  · intro h
    rcases h.finishes with ⟨more, t, hmore, hrun', hidle⟩
    rw [← hfinally hmore hrun' hidle]
    exact h.finally_all hmore hrun' hidle
  · intro h
    refine ⟨?_, hF.drain, ?_⟩
    · rw [← h, ← hcompleted, ← hF.order]
      exact List.prefix_append _ _
    · intro more t hmore hrun' hidle
      rw [← h]
      exact hfinally hmore hrun' hidle

/-- Messages of two clients, the second of which is answered before it reaches the callback. -/
def mixedEvents : List DispatchEvent :=
  let body : Payload := ⟨[7, 8], by decide⟩
  [.complete 1 (Frame.build ucIpcMsgTypeSyncSend 10000 0 body), .rcvAct,
    .complete 2 (Frame.build ucIpcMsgTypeAsyncSend 10001 0 Payload.empty), .take body, .rcvAct,
    .cbAct, .cbAct, .rcvAct, .complete 1 (Frame.build ucIpcMsgTypeHeartbeat 10002 0 body)]

theorem ucIpcServer_exactlyOnce_mixed : ∃ s : Dispatch,
    (machine true).Run ofInit mixedEvents s ∧ s.ExactlyOnce true (messages mixedEvents) := by
  have hplay : ((machine true).play ofInit mixedEvents).any (fun _ => true) = true := by
    decide +kernel
  rcases Machine.exists_run_of_play hplay with ⟨s, hrun, -⟩
  exact ⟨s, hrun, (ucIpcServer_exactlyOnce_iff true hrun).2 fun _ => by decide +kernel⟩

/-- A message that `uc_ipc_client_try_send` has sent is counted and given back. -/
theorem ucIpcServer_void_dropped : ¬ ∀ (events : List DispatchEvent) (s : Dispatch),
    (machine true).Run ofInit events s → s.ExactlyOnce true (messages events) := by
  intro h
  have hplay : ((machine true).play ofInit
      [.complete 1 (Frame.build ucIpcMsgTypeVoid 10000 0 Payload.empty), .rcvAct]).any
        (fun s => decide (s.Idle ∧ s.invoked = [])) = true := by
    decide +kernel
  rcases Machine.exists_run_of_play hplay with ⟨s, hrun, htest⟩
  have hlast := of_decide_eq_true htest
  have hall := (h _ s hrun).finally_all (fun e he => by cases he) Machine.Run.nil hlast.1
  rw [hlast.2] at hall
  exact absurd hall (by decide +kernel)

end Dispatch

end Ipc
end UtilsC
