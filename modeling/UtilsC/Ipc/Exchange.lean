import UtilsC.Ipc.Handed
import UtilsC.Ipc.Dispatch

/-!
# Client and server over one connection

The callers of a client, its receive thread, and the two threads of the server, with a byte stream
in each direction and the pipe between the server's threads.

* `Exchange.machine` puts the parties together.  Frames are taken out of a stream in the order in
  which they were written; a request is known by its place in the stream.  A write into the pipe
  succeeds.
* `Exchange.Served` is the invariant of the server: each thread is at work on a request that has
  been read, and each reply carries the id of its request.
* `Exchange.Linked` ties it to the ids that the client has drawn and to the frames it has sent.
-/

namespace UtilsC
namespace Ipc

open Lib Hash

/-! ## The parties together -/

/-- A thread of the server with a message: the place of the request in the stream, what is left to
do, and the id drawn for the reply that is about to be written. -/
structure ServerThread where
  request : Nat
  acts : List ServerAct
  seqId : Option UInt64

/-- A frame in the stream to the client, with the request it was sent for. -/
structure Reply where
  frame : Frame
  request : Nat

/-- `read` and `received` count the frames that have been taken out of the streams.  `draws` are the
ids drawn and the calls that drew them, `sentBy` the calls that sent the frames of the client's
stream, and `returned` what the callback has returned for which request; the code keeps none of
these. -/
structure Exchange where
  client : Client
  read : Nat
  rcv : ServerThread
  pipe : List Nat
  cb : ServerThread
  /-- what the callback returns this time -/
  ret : Payload
  serverSeqId : UInt64
  replies : List Reply
  received : Nat
  draws : List (Nat × UInt64)
  sentBy : List Nat
  returned : List (Nat × Payload)

/-- `ok` says whether `uc_ipc_server_handle_client_msg` gets memory for the message, and whether
`uc_ipc_server_send_msg` succeeds. -/
inductive ExchangeEvent
  /-- a step of one of the client's callers -/
  | client (e : ClientEvent)
  /-- the client's receive thread takes the next reply out of the stream -/
  | receive (signalled : Option Nat)
  /-- the server's receive thread has read the next frame -/
  | read (ok : Bool)
  | rcvAct (ok : Bool)
  | take (ret : Payload)
  | cbAct (ok : Bool)

namespace Exchange

variable (ipcDebugIo : Bool) (cliUuid : UInt64) (s : Exchange)

/-- The message that a request becomes on the side of the server. -/
def message (request : Nat) : Option PipeMsg :=
  (s.client.outbox[request]?).map fun frame => { cliUuid := cliUuid, frame := frame }

/-- A thread of the server does the next thing with its message.  `uc_ipc_server_send_msg` draws an
id in one section and writes the reply in another. -/
def act (thread : ServerThread) (ok : Bool) : Option (Exchange × ServerThread) :=
  match thread.acts with
  | [] => none
  | .sendMsg _ ackId msgType buf :: acts =>
      match thread.seqId with
      | none =>
          let r := ucIpcServerNextSeqId s.serverSeqId
          some ({ s with serverSeqId := r.2 }, { thread with seqId := some r.1 })
      | some seqId =>
          let reply : Reply :=
            { frame := Frame.build msgType seqId ackId buf, request := thread.request }
          -- a send that fails is not tried again; its id is used up
          let replies := if ok then s.replies ++ [reply] else s.replies
          some ({ s with replies := replies }, { thread with acts := acts, seqId := none })
  | .pipe :: acts =>
      some ({ s with pipe := s.pipe ++ [thread.request] }, { thread with acts := acts })
  | .invoke :: acts =>
      some
        ({ s with returned := s.returned ++ [(thread.request, s.ret)] },
          { thread with acts := acts })
  | .free :: acts => some (s, { thread with acts := acts })

def exec : ExchangeEvent → Option Exchange
  | .client e =>
      (s.client.exec e).map fun client =>
        { s with
          client := client
          draws := s.draws ++ e.draws s.client
          sentBy := s.sentBy ++ e.senders }
  | .receive signalled =>
      (s.replies[s.received]?).bind fun reply =>
        (s.client.exec (.receive (.frame reply.frame) signalled)).map fun client =>
          { s with client := client, received := s.received + 1 }
  | .read ok =>
      (s.message cliUuid s.read).map fun msg =>
        -- without memory for the message the request is dropped
        let acts := if ok then ucIpcServerHandleClientMsg ipcDebugIo msg else []
        { s with
          read := s.read + 1
          rcv := { request := s.read, acts := acts, seqId := none } }
  | .rcvAct ok => (s.act s.rcv ok).map fun r => { r.1 with rcv := r.2 }
  | .take ret =>
      match s.pipe with
      | [] => none
      | request :: pipe =>
          (s.message cliUuid request).map fun msg =>
            { s with
              pipe := pipe
              cb := { request := request, acts := ucIpcServerLoopCallback msg ret, seqId := none }
              ret := ret }
  | .cbAct ok => (s.act s.cb ok).map fun r => { r.1 with cb := r.2 }

/-- What a caller of the client can do; replies come out of the stream, and there is no
reconnect. -/
def isCaller : ClientEvent → Bool
  | .receive _ _ => false
  | .reseed _ => false
  | _ => true

def enabled : ExchangeEvent → Bool
  | .client e => isCaller e && s.client.enabled e
  | .receive signalled =>
      (s.replies[s.received]?).any fun reply =>
        s.client.enabled (.receive (.frame reply.frame) signalled)
  | .read _ => s.rcv.acts.isEmpty && s.read < s.client.outbox.length
  | .rcvAct _ => !s.rcv.acts.isEmpty
  | .take _ => s.cb.acts.isEmpty && !s.pipe.isEmpty
  | .cbAct _ => !s.cb.acts.isEmpty

def machine : Machine Exchange ExchangeEvent :=
  { enabled := enabled, exec := exec ipcDebugIo cliUuid }

/-- A client and a server that have just been connected. -/
def ofInit (seqId serverSeqId : UInt64) : Exchange where
  client := Client.ofInit seqId
  read := 0
  rcv := { request := 0, acts := [], seqId := none }
  pipe := []
  cb := { request := 0, acts := [], seqId := none }
  ret := Payload.empty
  serverSeqId := serverSeqId
  replies := []
  received := 0
  draws := []
  sentBy := []
  returned := []

/-! ## The server's side -/

/-- The server has read request `request`, which is the frame `f`. -/
def HasRead (request : Nat) (f : Frame) : Prop :=
  s.client.outbox[request]? = some f ∧ request < s.read

/-- The reply carries the id of the request, and what the callback has returned for it if the caller
is to get that. -/
def Answers (f : Frame) (r : Reply) : Prop :=
  r.frame.head.ackId = f.head.seqId ∧
    (r.frame.head.msgType = ucIpcMsgTypeHeartbeat ∨
      (r.frame.head.msgType = ucIpcMsgTypeAsyncAck ∧ f.head.msgType = ucIpcMsgTypeAsyncSend) ∨
      (r.frame.head.msgType = ucIpcMsgTypeSyncAck ∧ f.head.msgType = ucIpcMsgTypeSyncSend ∧
        (r.request, r.frame.buf) ∈ s.returned))

/-- The threads of the server are at work on requests that have been read, in the order of their
programs. -/
structure Served : Prop where
  replied : ∀ r ∈ s.replies, ∃ f, s.HasRead r.request f ∧ s.Answers f r
  rcv : s.rcv.acts ≠ [] → ∃ f, s.HasRead s.rcv.request f ∧
    s.rcv.acts <:+ ucIpcServerHandleClientMsg ipcDebugIo { cliUuid := cliUuid, frame := f }
  pipe : ∀ request ∈ s.pipe, ∃ f, s.HasRead request f
  cb : s.cb.acts ≠ [] → ∃ f, s.HasRead s.cb.request f ∧
    (s.cb.acts = ucIpcServerLoopCallback { cliUuid := cliUuid, frame := f } s.ret ∨
      (s.cb.acts <:+ ucIpcServerLoopCallback { cliUuid := cliUuid, frame := f } s.ret ∧
        (s.cb.request, s.ret) ∈ s.returned))

theorem ofInit_served (seqId serverSeqId : UInt64) :
    (ofInit seqId serverSeqId).Served ipcDebugIo cliUuid where
  replied := by simp [ofInit]
  rcv := by simp [ofInit]
  pipe := by simp [ofInit]
  cb := by simp [ofInit]

section Programs

variable {ipcDebugIo} {msg : PipeMsg} {ret : Payload} {uuid ackId : UInt64} {msgType : UInt32}
variable {buf : Payload}

/-- The replies that the receive thread sends. -/
theorem sendMsg_mem_handle
    (h : .sendMsg uuid ackId msgType buf ∈ ucIpcServerHandleClientMsg ipcDebugIo msg) :
    ackId = msg.frame.head.seqId ∧ (msgType = ucIpcMsgTypeHeartbeat ∨
      (msgType = ucIpcMsgTypeAsyncAck ∧ msg.frame.head.msgType = ucIpcMsgTypeAsyncSend)) := by
  rcases msgType_cases msg.frame.head.msgType with ht | ht | ht | ht | ⟨hbeat, hvoid, hasync, hsync⟩
  · rw [handle_heartbeat ipcDebugIo msg ht] at h
    simp only [List.mem_cons, ServerAct.sendMsg.injEq, reduceCtorEq, List.not_mem_nil,
      or_false] at h
    exact ⟨h.2.1, Or.inl h.2.2.1⟩
  · rw [handle_void ipcDebugIo msg ht] at h
    cases ipcDebugIo <;> simp at h
  · rw [handle_asyncSend ipcDebugIo msg ht] at h
    simp only [List.mem_cons, ServerAct.sendMsg.injEq, reduceCtorEq, List.not_mem_nil,
      or_false] at h
    exact ⟨h.2.1, Or.inr ⟨h.2.2.1, ht⟩⟩
  · rw [handle_syncSend ipcDebugIo msg ht] at h
    simp at h
  · simp [ucIpcServerHandleClientMsg, hbeat, hvoid, hasync, hsync] at h

/-- The reply that the callback thread sends. -/
theorem sendMsg_mem_callback
    (h : .sendMsg uuid ackId msgType buf ∈ ucIpcServerLoopCallback msg ret) :
    ackId = msg.frame.head.seqId ∧ msgType = ucIpcMsgTypeSyncAck ∧
      msg.frame.head.msgType = ucIpcMsgTypeSyncSend ∧ buf = ret := by
  simp only [ucIpcServerLoopCallback] at h
  split at h
  · simp at h
  · split at h
    · rename_i ht
      simp only [List.mem_cons, ServerAct.sendMsg.injEq, reduceCtorEq, List.not_mem_nil,
        or_false, false_or] at h
      exact ⟨h.2.1, h.2.2.1, ht, h.2.2.2⟩
    · simp at h

/-- The callback is called before anything else is done. -/
theorem callback_head {acts : List ServerAct} :
    ucIpcServerLoopCallback msg ret ≠ .sendMsg uuid ackId msgType buf :: acts := by
  simp only [ucIpcServerLoopCallback]
  split
  · simp
  · split <;> simp

end Programs

variable {ipcDebugIo} {cliUuid} {s}

theorem HasRead.mono {t : Exchange} {request : Nat} {f : Frame} (h : s.HasRead request f)
    (houtbox : s.client.outbox <+: t.client.outbox) (hread : s.read ≤ t.read) :
    t.HasRead request f := by
  -- a request keeps its place, as the stream only grows
  rcases houtbox with ⟨more, hmore⟩
  refine ⟨?_, h.2.trans_le hread⟩
  have hlt : request < s.client.outbox.length := (List.getElem?_eq_some_iff.1 h.1).1
  rw [← hmore, List.getElem?_append_left hlt]
  exact h.1

theorem Answers.mono {t : Exchange} {f : Frame} {r : Reply} (h : s.Answers f r)
    (hreturned : ∀ x ∈ s.returned, x ∈ t.returned) : t.Answers f r := by
  refine ⟨h.1, ?_⟩
  rcases h.2 with hbeat | hasync | ⟨htype, hreq, hret⟩
  · exact Or.inl hbeat
  · exact Or.inr (Or.inl hasync)
  · exact Or.inr (Or.inr ⟨htype, hreq, hreturned _ hret⟩)

/-- What a thread of the server can do. -/
inductive ActStep (s : Exchange) (thread : ServerThread) : Exchange → ServerThread → Prop
  | draw {seqId seqId' : UInt64} :
      ActStep s thread { s with serverSeqId := seqId } { thread with seqId := some seqId' }
  | sendMsg {uuid ackId seqId : UInt64} {msgType : UInt32} {buf : Payload}
      {acts : List ServerAct} (hacts : thread.acts = .sendMsg uuid ackId msgType buf :: acts) :
      ActStep s thread
        { s with
          replies := s.replies ++
            [{ frame := Frame.build msgType seqId ackId buf, request := thread.request }] }
        { thread with acts := acts, seqId := none }
  | unsent {uuid ackId : UInt64} {msgType : UInt32} {buf : Payload} {acts : List ServerAct}
      (hacts : thread.acts = .sendMsg uuid ackId msgType buf :: acts) :
      ActStep s thread s { thread with acts := acts, seqId := none }
  | pipe {acts : List ServerAct} (hacts : thread.acts = .pipe :: acts) :
      ActStep s thread { s with pipe := s.pipe ++ [thread.request] } { thread with acts := acts }
  | invoke {acts : List ServerAct} (hacts : thread.acts = .invoke :: acts) :
      ActStep s thread { s with returned := s.returned ++ [(thread.request, s.ret)] }
        { thread with acts := acts }
  | free {acts : List ServerAct} (hacts : thread.acts = .free :: acts) :
      ActStep s thread s { thread with acts := acts }

theorem actStep {thread thread' : ServerThread} {ok : Bool} {t : Exchange}
    (h : s.act thread ok = some (t, thread')) : s.ActStep thread t thread' := by
  unfold act at h
  split at h
  · cases h
  · rename_i hacts
    split at h
    · cases h
      exact ActStep.draw
    · cases h
      cases ok with
      | true => exact ActStep.sendMsg hacts
      | false => exact ActStep.unsent hacts
  · rename_i hacts
    cases h
    exact ActStep.pipe hacts
  · rename_i hacts
    cases h
    exact ActStep.invoke hacts
  · rename_i hacts
    cases h
    exact ActStep.free hacts

/-- The client's side goes on; its stream only grows. -/
theorem Served.of_client (hS : s.Served ipcDebugIo cliUuid) {t : Exchange}
    (houtbox : s.client.outbox <+: t.client.outbox) (hread : t.read = s.read)
    (hrcv : t.rcv = s.rcv) (hpipe : t.pipe = s.pipe) (hcb : t.cb = s.cb) (hret : t.ret = s.ret)
    (hreplies : t.replies = s.replies) (hreturned : t.returned = s.returned) :
    t.Served ipcDebugIo cliUuid := by
  have hmono : ∀ {request : Nat} {f : Frame}, s.HasRead request f → t.HasRead request f :=
    fun h => h.mono houtbox hread.ge
  refine ⟨?_, ?_, ?_, ?_⟩
  · rw [hreplies]
    intro r hr
    rcases hS.replied r hr with ⟨f, hf, hanswers⟩
    exact ⟨f, hmono hf, hanswers.mono fun x hx => hreturned ▸ hx⟩
  · rw [hrcv]
    intro hbusy
    rcases hS.rcv hbusy with ⟨f, hf, hacts⟩
    exact ⟨f, hmono hf, hacts⟩
  · rw [hpipe]
    intro request hrequest
    rcases hS.pipe request hrequest with ⟨f, hf⟩
    exact ⟨f, hmono hf⟩
  · rw [hcb, hret, hreturned]
    intro hbusy
    rcases hS.cb hbusy with ⟨f, hf, hacts⟩
    exact ⟨f, hmono hf, hacts⟩

theorem message_eq {request : Nat} {msg : PipeMsg} (h : s.message cliUuid request = some msg) :
    ∃ f, s.client.outbox[request]? = some f ∧ msg = { cliUuid := cliUuid, frame := f } := by
  rcases Option.map_eq_some_iff.1 h with ⟨f, hf, rfl⟩
  exact ⟨f, hf, rfl⟩

/-- The next frame has been read. -/
theorem Served.read (hS : s.Served ipcDebugIo cliUuid) {msg : PipeMsg}
    (hmsg : s.message cliUuid s.read = some msg) (ok : Bool) :
    Served ipcDebugIo cliUuid
      { s with
        read := s.read + 1
        rcv := { request := s.read
                 acts := if ok then ucIpcServerHandleClientMsg ipcDebugIo msg else []
                 seqId := none } } := by
  rcases message_eq hmsg with ⟨f, hf, rfl⟩
  refine ⟨?_, ?_, ?_, ?_⟩
  · intro r hr
    rcases hS.replied r hr with ⟨f', hf', hanswers⟩
    exact ⟨f', hf'.mono List.prefix_rfl (Nat.le_succ _), hanswers.mono fun _ h => h⟩
  · intro hbusy
    refine ⟨f, ⟨hf, Nat.lt_succ_self _⟩, ?_⟩
    cases ok with
    | true => exact List.suffix_rfl
    | false => exact absurd rfl hbusy
  · intro request hrequest
    rcases hS.pipe request hrequest with ⟨f', hf'⟩
    exact ⟨f', hf'.mono List.prefix_rfl (Nat.le_succ _)⟩
  · intro hbusy
    rcases hS.cb hbusy with ⟨f', hf', hacts⟩
    exact ⟨f', hf'.mono List.prefix_rfl (Nat.le_succ _), hacts⟩

/-- The callback thread has taken a request out of the pipe. -/
theorem Served.take (hS : s.Served ipcDebugIo cliUuid) {request : Nat} {pipe : List Nat}
    (hpipe : s.pipe = request :: pipe) {msg : PipeMsg}
    (hmsg : s.message cliUuid request = some msg) (ret : Payload) :
    Served ipcDebugIo cliUuid
      { s with
        pipe := pipe
        cb := { request := request, acts := ucIpcServerLoopCallback msg ret, seqId := none }
        ret := ret } := by
  rcases message_eq hmsg with ⟨f, hf, rfl⟩
  refine ⟨hS.replied, hS.rcv, ?_, ?_⟩
  · intro request' hrequest'
    refine hS.pipe request' ?_
    rw [hpipe]
    exact List.mem_cons_of_mem _ hrequest'
  · intro _
    -- what is in the pipe has been read, so this is the frame that was read then
    have hmem : request ∈ s.pipe := by
      rw [hpipe]
      exact List.mem_cons_self
    rcases hS.pipe request hmem with ⟨f', hf'⟩
    have hsame : f' = f := Option.some.inj (hf'.1.symm.trans hf)
    rw [hsame] at hf'
    exact ⟨f, hf', Or.inl rfl⟩

theorem suffix_of_cons {α : Type} {a : α} {l prog : List α} (h : a :: l <:+ prog) :
    a ∈ prog ∧ l <:+ prog :=
  ⟨h.subset List.mem_cons_self, (List.suffix_cons a l).trans h⟩

/-- The receive thread goes on with its message. -/
theorem Served.rcvAct (hS : s.Served ipcDebugIo cliUuid) (hbusy : s.rcv.acts ≠ []) {t : Exchange}
    {thread : ServerThread} (hstep : s.ActStep s.rcv t thread) :
    Served ipcDebugIo cliUuid { t with rcv := thread } := by
  rcases hS.rcv hbusy with ⟨f, hf, hprog⟩
  cases hstep with
  -- the act stays the next one until its reply is written
  | draw => exact ⟨hS.replied, fun _ => ⟨f, hf, hprog⟩, hS.pipe, hS.cb⟩
  | @sendMsg uuid ackId seqId msgType buf acts hacts =>
      rw [hacts] at hprog
      have hmem := suffix_of_cons hprog
      have hreply := sendMsg_mem_handle hmem.1
      refine ⟨?_, fun _ => ⟨f, hf, hmem.2⟩, hS.pipe, hS.cb⟩
      intro r hr
      rcases List.mem_append.1 hr with hold | hnew
      · exact hS.replied r hold
      · rw [List.mem_singleton.1 hnew]
        refine ⟨f, hf, hreply.1, ?_⟩
        rcases hreply.2 with hbeat | hasync
        · exact Or.inl hbeat
        · exact Or.inr (Or.inl hasync)
  | unsent hacts =>
      rw [hacts] at hprog
      exact ⟨hS.replied, fun _ => ⟨f, hf, (suffix_of_cons hprog).2⟩, hS.pipe, hS.cb⟩
  | pipe hacts =>
      rw [hacts] at hprog
      refine ⟨hS.replied, fun _ => ⟨f, hf, (suffix_of_cons hprog).2⟩, ?_, hS.cb⟩
      intro request hrequest
      rcases List.mem_append.1 hrequest with hold | hnew
      · exact hS.pipe request hold
      · rw [List.mem_singleton.1 hnew]
        exact ⟨f, hf⟩
  -- the receive thread never calls the callback
  | invoke hacts =>
      rw [hacts] at hprog
      exact absurd (suffix_of_cons hprog).1 (Dispatch.handle_givesUp _ _).2
  | free hacts =>
      rw [hacts] at hprog
      exact ⟨hS.replied, fun _ => ⟨f, hf, (suffix_of_cons hprog).2⟩, hS.pipe, hS.cb⟩

/-- The callback thread goes on with its message.  It has called the callback before it comes to the
reply. -/
theorem Served.cbAct (hS : s.Served ipcDebugIo cliUuid) (hbusy : s.cb.acts ≠ []) {t : Exchange}
    {thread : ServerThread} (hstep : s.ActStep s.cb t thread) :
    Served ipcDebugIo cliUuid { t with cb := thread } := by
  rcases hS.cb hbusy with ⟨f, hf, hwhere⟩
  have hprog : s.cb.acts <:+ ucIpcServerLoopCallback { cliUuid := cliUuid, frame := f } s.ret := by
    rcases hwhere with hstart | ⟨hlater, -⟩
    · exact hstart ▸ List.suffix_rfl
    · exact hlater
  cases hstep with
  | draw => exact ⟨hS.replied, hS.rcv, hS.pipe, fun _ => ⟨f, hf, hwhere⟩⟩
  | @sendMsg uuid ackId seqId msgType buf acts hacts =>
      rw [hacts] at hwhere hprog
      have hmem := suffix_of_cons hprog
      rcases sendMsg_mem_callback hmem.1 with ⟨hid, htype, hsync, hret⟩
      rcases hwhere with hstart | ⟨-, hreturned⟩
      · -- the reply is not the first act, so the callback has returned by now
        exact absurd hstart.symm callback_head
      · refine ⟨?_, hS.rcv, hS.pipe, fun _ => ⟨f, hf, Or.inr ⟨hmem.2, hreturned⟩⟩⟩
        intro r hr
        rcases List.mem_append.1 hr with hold | hnew
        · exact hS.replied r hold
        · rw [List.mem_singleton.1 hnew]
          refine ⟨f, hf, hid, Or.inr (Or.inr ⟨htype, hsync, ?_⟩)⟩
          rw [← hret] at hreturned
          exact hreturned
  | unsent hacts =>
      rw [hacts] at hwhere hprog
      rcases hwhere with hstart | ⟨-, hreturned⟩
      · exact absurd hstart.symm callback_head
      · exact ⟨hS.replied, hS.rcv, hS.pipe,
          fun _ => ⟨f, hf, Or.inr ⟨(suffix_of_cons hprog).2, hreturned⟩⟩⟩
  | pipe hacts =>
      rw [hacts] at hprog
      exact absurd (suffix_of_cons hprog).1 (Dispatch.callback_givesUp _ _).2
  | invoke hacts =>
      rw [hacts] at hprog
      -- from here on what is sent is what the callback has returned
      refine ⟨?_, hS.rcv, hS.pipe, fun _ => ⟨f, hf, Or.inr ⟨(suffix_of_cons hprog).2, ?_⟩⟩⟩
      · intro r hr
        rcases hS.replied r hr with ⟨f', hf', hanswers⟩
        exact ⟨f', hf', hanswers.mono fun x hx => List.mem_append_left _ hx⟩
      · exact List.mem_append_right _ (List.mem_singleton_self _)
  | @free acts hacts =>
      rw [hacts] at hwhere hprog
      refine ⟨hS.replied, hS.rcv, hS.pipe, ?_⟩
      intro hnext
      rcases hwhere with hstart | ⟨-, hreturned⟩
      · -- nothing comes behind it
        have hlast := (Dispatch.callback_givesUp { cliUuid := cliUuid, frame := f } s.ret).1
        rw [← hstart] at hlast
        exact absurd hlast hnext
      · exact ⟨f, hf, Or.inr ⟨(suffix_of_cons hprog).2, hreturned⟩⟩

/-! ## Both sides -/

/-- A reply for a waiting caller is in the stream. -/
def Answered (s : Exchange) (f : Frame) : Prop :=
  Client.isAck f.head.msgType = true ∧ ∃ r ∈ s.replies, r.frame = f

/-- The request is the frame that call `c` has sent. -/
def RequestOf (s : Exchange) (c : Nat) (call : ClientCall) (request : Nat) (id : UInt64) : Prop :=
  s.sentBy[request]? = some c ∧
    s.client.outbox[request]? =
      some (Frame.build call.kind.msgType id ucIpcAckIdNull call.buf)

/-- Every id is drawn from the counter, every frame carries the id that its sender has drawn, and
the two sides are as `Client.Traced` and `Served` say. -/
structure Linked (ipcDebugIo : Bool) (cliUuid start : UInt64) (s : Exchange) : Prop where
  served : s.Served ipcDebugIo cliUuid
  traced : s.client.Traced s.draws s.Answered
  counter : s.client.seqId = seqIdAfter start s.draws.length
  ids : ∀ {i c : Nat} {id : UInt64}, s.draws[i]? = some (c, id) → id = seqIdAfter start i
  senders : s.sentBy.length = s.client.outbox.length
  sent : ∀ {request : Nat} {f : Frame}, s.client.outbox[request]? = some f →
    ∃ c call, s.client.calls[c]? = some call ∧ (c, f.head.seqId) ∈ s.draws ∧
      s.RequestOf c call request f.head.seqId

theorem ofInit_linked (ipcDebugIo : Bool) (cliUuid seqId serverSeqId : UInt64) :
    (ofInit seqId serverSeqId).Linked ipcDebugIo cliUuid (clampSeqId seqId) where
  served := ofInit_served ipcDebugIo cliUuid seqId serverSeqId
  traced := by
    refine ⟨?_, ?_⟩
    · intro c call hcall
      simp [ofInit, Client.ofInit] at hcall
    · intro id msg hget
      simp [ofInit, Client.ofInit] at hget
  counter := rfl
  ids := by simp [ofInit]
  senders := rfl
  sent := by simp [ofInit, Client.ofInit]

variable {start : UInt64}

/-- A step of the client, whatever it is about. -/
theorem Linked.client (hL : s.Linked ipcDebugIo cliUuid start) {e : ClientEvent} {client : Client}
    (hstep : s.client.Step e client) (hseed : ∀ seqId, e ≠ .reseed seqId)
    (hreceive : ∀ f signalled, e = .receive (.frame f) signalled →
      Client.isReply (.frame f) = true → s.Answered f) (received : Nat) :
    Linked ipcDebugIo cliUuid start
      { s with
        client := client
        received := received
        draws := s.draws ++ e.draws s.client
        sentBy := s.sentBy ++ e.senders } := by
  have houtbox := hstep.outbox
  refine ⟨?_, hL.traced.step hstep hreceive, ?_, ?_, ?_, ?_⟩
  · refine hL.served.of_client ?_ rfl rfl rfl rfl rfl rfl rfl
    rcases houtbox with ⟨-, hsame⟩ | ⟨c, call, id, -, -, -, hmore⟩
    · exact hsame ▸ List.prefix_rfl
    · exact hmore ▸ List.prefix_append _ _
  · -- without a reconnect the counter moves only when an id is drawn
    rcases hstep.seqId hseed with ⟨hdraws, hsame⟩ | ⟨c, hdraws, hnext⟩
    · simp only [hdraws, List.append_nil]
      exact hsame.trans hL.counter
    · simp only [hdraws, List.length_append, List.length_singleton]
      rw [hnext, hL.counter, seqIdAfter_succ]
  · intro i c id hdraw
    rcases hstep.seqId hseed with ⟨hdraws, -⟩ | ⟨c', hdraws, -⟩
    · simp only [hdraws, List.append_nil] at hdraw
      exact hL.ids hdraw
    · simp only [hdraws] at hdraw
      rw [List.getElem?_append] at hdraw
      split at hdraw
      · exact hL.ids hdraw
      · -- the new draw is the one that the counter stands at
        rw [List.getElem?_singleton] at hdraw
        split at hdraw
        · cases hdraw
          have hi : i = s.draws.length := by omega
          rw [hi]
          exact hL.counter
        · cases hdraw
  · rcases houtbox with ⟨hsenders, hsame⟩ | ⟨c, call, id, hsenders, -, -, hmore⟩
    · simp only [hsenders, List.append_nil, hsame]
      exact hL.senders
    · simp only [hsenders, hmore, List.length_append, List.length_singleton, hL.senders]
  · intro request f hf
    -- a frame that was there before keeps its sender
    have hold : s.client.outbox[request]? = some f →
        ∃ c call, client.calls[c]? = some call ∧ (c, f.head.seqId) ∈ s.draws ++ e.draws s.client ∧
          (s.sentBy ++ e.senders)[request]? = some c ∧
            some f = some (Frame.build call.kind.msgType f.head.seqId ucIpcAckIdNull call.buf) := by
      intro hf'
      rcases hL.sent hf' with ⟨c, call, hcall, hdrawn, hsentBy, hframe⟩
      rcases hstep.call_kept hcall with ⟨call', hcall', hkind, hbuf⟩
      have hlt : request < s.sentBy.length := (List.getElem?_eq_some_iff.1 hsentBy).1
      refine ⟨c, call', hcall', List.mem_append_left _ hdrawn, ?_, ?_⟩
      · rw [List.getElem?_append_left hlt]
        exact hsentBy
      · rw [hkind, hbuf, ← hf']
        exact hframe
    rcases houtbox with ⟨-, hsame⟩ | ⟨c, call, id, hsenders, hcall, hid, hmore⟩
    · have hf' : s.client.outbox[request]? = some f := by
        rw [← hsame]
        exact hf
      rcases hold hf' with ⟨c, call, hcall, hdrawn, hsentBy, hframe⟩
      exact ⟨c, call, hcall, hdrawn, hsentBy, hf.trans hframe⟩
    · have hf' := hf
      simp only [hmore] at hf'
      rw [List.getElem?_append] at hf'
      split at hf'
      · rcases hold hf' with ⟨c, call, hcall, hdrawn, hsentBy, hframe⟩
        exact ⟨c, call, hcall, hdrawn, hsentBy, hf.trans hframe⟩
      · rw [List.getElem?_singleton] at hf'
        split at hf'
        · -- the frame that is sent in this step
          cases hf'
          have hlast : request = s.sentBy.length := by
            rw [hL.senders]
            omega
          rcases hstep.call_kept hcall with ⟨call', hcall', hkind, hbuf⟩
          refine ⟨c, call', hcall', List.mem_append_left _ ((hL.traced.calls hcall).drawn id hid),
            ?_, ?_⟩
          · simp [hsenders, hlast]
          · rw [hf, hkind, hbuf]
            rfl
        · cases hf'

/-- A step of the server leaves the client alone; there may be more replies than before. -/
theorem Linked.server (hL : s.Linked ipcDebugIo cliUuid start) {t : Exchange}
    (hserved : t.Served ipcDebugIo cliUuid) (hclient : t.client = s.client)
    (hdraws : t.draws = s.draws) (hsentBy : t.sentBy = s.sentBy)
    (hreplies : ∀ r ∈ s.replies, r ∈ t.replies) : t.Linked ipcDebugIo cliUuid start := by
  have hanswered : ∀ f, s.Answered f → t.Answered f := by
    rintro f ⟨hack, r, hr, hframe⟩
    exact ⟨hack, r, hreplies r hr, hframe⟩
  have htraced := hL.traced.mono [] hanswered
  rw [List.append_nil] at htraced
  refine ⟨hserved, ?_, ?_, ?_, ?_, ?_⟩
  · rw [hclient, hdraws]
    exact htraced
  · rw [hclient, hdraws]
    exact hL.counter
  · rw [hdraws]
    exact hL.ids
  · rw [hsentBy, hclient]
    exact hL.senders
  · intro request f hf
    rw [hclient] at hf
    rcases hL.sent hf with ⟨c, call, hcall, hdrawn, hrequest⟩
    refine ⟨c, call, hclient ▸ hcall, hdraws ▸ hdrawn, ?_⟩
    rw [RequestOf, hsentBy, hclient]
    exact hrequest

theorem ActStep.kept {thread thread' : ServerThread} {t : Exchange}
    (h : s.ActStep thread t thread') :
    t.client = s.client ∧ t.draws = s.draws ∧ t.sentBy = s.sentBy ∧
      ∀ r ∈ s.replies, r ∈ t.replies := by
  cases h with
  | sendMsg hacts => exact ⟨rfl, rfl, rfl, fun r hr => List.mem_append_left _ hr⟩
  | _ => exact ⟨rfl, rfl, rfl, fun r hr => hr⟩

/-- Everything an enabled event can do. -/
inductive Step (ipcDebugIo : Bool) (cliUuid : UInt64) (s : Exchange) :
    ExchangeEvent → Exchange → Prop
  | client {e : ClientEvent} {client : Client} (hcaller : isCaller e = true)
      (hstep : s.client.Step e client) :
      Step ipcDebugIo cliUuid s (.client e)
        { s with
          client := client
          draws := s.draws ++ e.draws s.client
          sentBy := s.sentBy ++ e.senders }
  | receive {signalled : Option Nat} {reply : Reply} {client : Client} (hreply : reply ∈ s.replies)
      (hstep : s.client.Step (.receive (.frame reply.frame) signalled) client) :
      Step ipcDebugIo cliUuid s (.receive signalled)
        { s with client := client, received := s.received + 1 }
  | read {ok : Bool} {msg : PipeMsg} (hmsg : s.message cliUuid s.read = some msg) :
      Step ipcDebugIo cliUuid s (.read ok)
        { s with
          read := s.read + 1
          rcv := { request := s.read
                   acts := if ok then ucIpcServerHandleClientMsg ipcDebugIo msg else []
                   seqId := none } }
  | rcvAct {ok : Bool} {t : Exchange} {thread : ServerThread} (hbusy : s.rcv.acts ≠ [])
      (hstep : s.ActStep s.rcv t thread) :
      Step ipcDebugIo cliUuid s (.rcvAct ok) { t with rcv := thread }
  | take {ret : Payload} {request : Nat} {pipe : List Nat} {msg : PipeMsg}
      (hpipe : s.pipe = request :: pipe) (hmsg : s.message cliUuid request = some msg) :
      Step ipcDebugIo cliUuid s (.take ret)
        { s with
          pipe := pipe
          cb := { request := request, acts := ucIpcServerLoopCallback msg ret, seqId := none }
          ret := ret }
  | cbAct {ok : Bool} {t : Exchange} {thread : ServerThread} (hbusy : s.cb.acts ≠ [])
      (hstep : s.ActStep s.cb t thread) :
      Step ipcDebugIo cliUuid s (.cbAct ok) { t with cb := thread }

theorem step_of_exec {e : ExchangeEvent} {t : Exchange}
    (henabled : (machine ipcDebugIo cliUuid).enabled s e = true)
    (hexec : (machine ipcDebugIo cliUuid).exec s e = some t) : Step ipcDebugIo cliUuid s e t := by
  cases e with
  | client e =>
      rcases (Bool.and_eq_true _ _).mp henabled with ⟨hcaller, henabled'⟩
      rcases Option.map_eq_some_iff.1 hexec with ⟨client, hexec', rfl⟩
      exact Step.client hcaller (Client.step_of_exec henabled' hexec')
  | receive signalled =>
      rcases (Option.any_eq_true _ _).1 henabled with ⟨reply, hreply, henabled'⟩
      rcases Option.bind_eq_some_iff.1 hexec with ⟨reply', hreply', hexec'⟩
      cases hreply.symm.trans hreply'
      rcases Option.map_eq_some_iff.1 hexec' with ⟨client, hexec'', rfl⟩
      exact Step.receive (List.mem_of_getElem? hreply) (Client.step_of_exec henabled' hexec'')
  | read ok =>
      rcases Option.map_eq_some_iff.1 hexec with ⟨msg, hmsg, rfl⟩
      exact Step.read hmsg
  | rcvAct ok =>
      rcases Option.map_eq_some_iff.1 hexec with ⟨⟨mid, thread⟩, hact, rfl⟩
      refine Step.rcvAct ?_ (actStep hact)
      rintro hnil
      simp [machine, enabled, hnil] at henabled
  | take ret =>
      cases hpipe : s.pipe with
      | nil => simp [machine, exec, hpipe] at hexec
      | cons request pipe =>
          simp only [machine, exec, hpipe] at hexec
          rcases Option.map_eq_some_iff.1 hexec with ⟨msg, hmsg, rfl⟩
          exact Step.take hpipe hmsg
  | cbAct ok =>
      rcases Option.map_eq_some_iff.1 hexec with ⟨⟨mid, thread⟩, hact, rfl⟩
      refine Step.cbAct ?_ (actStep hact)
      rintro hnil
      simp [machine, enabled, hnil] at henabled

/-- The step lemma. -/
theorem Linked.step (hL : s.Linked ipcDebugIo cliUuid start) {e : ExchangeEvent} {t : Exchange}
    (hstep : Step ipcDebugIo cliUuid s e t) : t.Linked ipcDebugIo cliUuid start := by
  cases hstep with
  | client hcaller hstep =>
      -- neither a reconnect nor an arrival is a step of a caller
      refine hL.client hstep ?_ ?_ s.received
      · rintro seqId rfl
        cases hcaller
      · rintro f signalled rfl
        cases hcaller
  | @receive signalled reply client hreply hstep =>
      have hL' := hL.client hstep (fun _ h => by cases h) ?_ (s.received + 1)
      · simpa [ClientEvent.draws, ClientEvent.senders] using hL'
      · intro f signalled' heq hisReply
        cases heq
        -- a reply that reaches the section under `ack_mtx` is an acknowledgement
        refine ⟨?_, reply, hreply, rfl⟩
        simp only [Client.isReply, Bool.and_eq_true] at hisReply
        exact hisReply.1.2
  | read hmsg => exact hL.server (hL.served.read hmsg _) rfl rfl rfl fun r hr => hr
  | rcvAct hbusy hstep =>
      rcases hstep.kept with ⟨hclient, hdraws, hsentBy, hreplies⟩
      exact hL.server (hL.served.rcvAct hbusy hstep) hclient hdraws hsentBy hreplies
  | take hpipe hmsg => exact hL.server (hL.served.take hpipe hmsg _) rfl rfl rfl fun r hr => hr
  | cbAct hbusy hstep =>
      rcases hstep.kept with ⟨hclient, hdraws, hsentBy, hreplies⟩
      exact hL.server (hL.served.cbAct hbusy hstep) hclient hdraws hsentBy hreplies

end Exchange
end Ipc
end UtilsC
