import UtilsC.Ipc.EndToEnd

/-!
# What the server does with the requests of a client

A request is its place in the client's stream.  `ServiceLog` records which requests got memory, and
every reply that a thread of the server has tried to send, with whether it got into the stream.  As
in `Exchange`, a write into the pipe succeeds.

* `ackOwed` is what the receive thread owes a request by its type; the callback thread owes a
  synchronous one what the callback returns.
* `Due` is the account: what was done, followed by what a thread or the pipe still has before it, is
  what the requests ask for, in their order.
* `ucIpcServer_serves` reads off that every request is served once and in order.
-/

namespace UtilsC
namespace Ipc

open Lib Hash

/-- A reply without the id that was drawn for it. -/
structure Sent where
  request : Nat
  ackId : UInt64
  msgType : UInt32
  buf : Payload
  deriving DecidableEq

/-- A call of `uc_ipc_server_send_msg` for a request, and whether it succeeds. -/
structure Attempt where
  sent : Sent
  ok : Bool

def Sent.isSyncAck (sent : Sent) : Bool :=
  sent.msgType == ucIpcMsgTypeSyncAck

def Sent.key (sent : Sent) : Nat × UInt64 :=
  (sent.request, sent.ackId)

def Reply.sent (r : Reply) : Sent where
  request := r.request
  ackId := r.frame.head.ackId
  msgType := r.frame.head.msgType
  buf := r.frame.buf

/-- `kept` are the requests that got memory; `attempts` is in the order of the calls. -/
structure ServiceLog where
  kept : List Nat
  attempts : List Attempt

namespace Exchange

variable (ipcDebugIo : Bool) (cliUuid : UInt64) (s : Exchange)

/-! ## The record -/

/-- The call of `uc_ipc_server_send_msg` that a thread's next step completes. -/
def attempted (thread : ServerThread) (ok : Bool) : List Attempt :=
  match thread.acts, thread.seqId with
  | .sendMsg _ ackId msgType buf :: _, some _ =>
      [{ sent :=
          { request := thread.request, ackId := ackId, msgType := msgType, buf := buf }
         ok := ok }]
  | _, _ => []

def serviceNote : ExchangeEvent → ServiceLog → ServiceLog
  | .read ok, log => if ok then { log with kept := log.kept ++ [s.read] } else log
  | .rcvAct ok, log => { log with attempts := log.attempts ++ attempted s.rcv ok }
  | .cbAct ok, log => { log with attempts := log.attempts ++ attempted s.cb ok }
  | _, log => log

/-! ## What the requests ask for -/

section Requests

variable (outbox : List Frame)

/-- The type of a request; 0 is none. -/
def typeAt (request : Nat) : UInt32 :=
  (outbox[request]?).elim 0 fun f => f.head.msgType

/-- A request with the id that its reply has to carry. -/
def keyAt (request : Nat) : Nat × UInt64 :=
  (request, (outbox[request]?).elim 0 fun f => f.head.seqId)

/-- The reply of the receive thread: the pong of a heartbeat, with its payload, and the
acknowledgement of an asynchronous message. -/
def ackOwed (request : Nat) : Option Sent :=
  (outbox[request]?).bind fun f =>
    if f.head.msgType = ucIpcMsgTypeHeartbeat then
      some
        { request := request
          ackId := f.head.seqId
          msgType := ucIpcMsgTypeHeartbeat
          buf := f.buf }
    else if f.head.msgType = ucIpcMsgTypeAsyncSend then
      some
        { request := request
          ackId := f.head.seqId
          msgType := ucIpcMsgTypeAsyncAck
          buf := Payload.empty }
    else none

def isSync (request : Nat) : Bool :=
  typeAt outbox request == ucIpcMsgTypeSyncSend

/-- The keys of the synchronous ones among some requests. -/
def syncKeys (requests : List Nat) : List (Nat × UInt64) :=
  (requests.filter (isSync outbox)).map (keyAt outbox)

/-- The request is for the user's callback. -/
def isCall (request : Nat) : Bool :=
  forCallback ipcDebugIo (typeAt outbox request)

end Requests

/-- The replies among the acts of a thread. -/
def sends (request : Nat) (acts : List ServerAct) : List Sent :=
  acts.filterMap fun
    | .sendMsg _ ackId msgType buf =>
        some { request := request, ackId := ackId, msgType := msgType, buf := buf }
    | _ => none

/-- A request once for each time that a thread has an act before it. -/
def times (act : ServerAct) (thread : ServerThread) : List Nat :=
  List.replicate (thread.acts.count act) thread.request

/-- The replies of the two threads. -/
def acks (log : ServiceLog) : List Sent :=
  (log.attempts.map Attempt.sent).filter fun sent => !sent.isSyncAck

def syncAcks (log : ServiceLog) : List Sent :=
  (log.attempts.map Attempt.sent).filter Sent.isSyncAck

/-- The account of the server. -/
structure Due (log : ServiceLog) : Prop where
  bounded : s.read ≤ s.client.outbox.length
  kept : log.kept.Sublist (List.range s.read)
  called : s.returned.map Prod.fst ++ (times .invoke s.cb ++ (s.pipe ++ times .pipe s.rcv)) =
    log.kept.filter (isCall ipcDebugIo s.client.outbox)
  acked : acks log ++ sends s.rcv.request s.rcv.acts =
    log.kept.filterMap (ackOwed s.client.outbox)
  answered : (syncAcks log).map Sent.key ++ ((sends s.cb.request s.cb.acts).map Sent.key ++
      syncKeys s.client.outbox (s.pipe ++ times .pipe s.rcv)) =
    syncKeys s.client.outbox log.kept
  stream : s.replies.map Reply.sent = (log.attempts.filter Attempt.ok).map Attempt.sent
  returned : ∀ sent ∈ syncAcks log, (sent.request, sent.buf) ∈ s.returned

variable {ipcDebugIo} {cliUuid} {s} {log : ServiceLog}

theorem ofInit_due (seqId serverSeqId : UInt64) :
    (ofInit seqId serverSeqId).Due ipcDebugIo { kept := [], attempts := [] } := by
  constructor <;> simp [ofInit, Client.ofInit, times, acks, syncAcks, sends]

/-! ## The decisions, as what is owed -/

section Decisions

variable {outbox : List Frame}

theorem ackOwed_eq {request : Nat} {f : Frame} (hf : outbox[request]? = some f) :
    (ackOwed outbox request).toList =
      sends request (ucIpcServerHandleClientMsg ipcDebugIo { cliUuid := cliUuid, frame := f }) := by
  let msg : PipeMsg := { cliUuid := cliUuid, frame := f }
  rcases msgType_cases f.head.msgType with h | h | h | h | ⟨hbeat, hvoid, hasync, hsync⟩
  · rw [handle_heartbeat ipcDebugIo msg h]
    simp [ackOwed, hf, h, sends, msg]
  · have hne : ucIpcMsgTypeVoid ≠ ucIpcMsgTypeHeartbeat := by decide
    have hne' : ucIpcMsgTypeVoid ≠ ucIpcMsgTypeAsyncSend := by decide
    rw [handle_void ipcDebugIo msg h]
    cases ipcDebugIo <;> simp [ackOwed, hf, h, hne, hne', sends]
  · have hne : ucIpcMsgTypeAsyncSend ≠ ucIpcMsgTypeHeartbeat := by decide
    rw [handle_asyncSend ipcDebugIo msg h]
    simp [ackOwed, hf, h, hne, sends, msg]
  · have hne : ucIpcMsgTypeSyncSend ≠ ucIpcMsgTypeHeartbeat := by decide
    have hne' : ucIpcMsgTypeSyncSend ≠ ucIpcMsgTypeAsyncSend := by decide
    rw [handle_syncSend ipcDebugIo msg h]
    simp [ackOwed, hf, h, hne, hne', sends]
  · simp [ackOwed, hf, hbeat, hasync, ucIpcServerHandleClientMsg, hvoid, hsync, sends]

/-- The callback thread answers the synchronous messages only. -/
theorem sends_callback {request : Nat} {f : Frame} (hf : outbox[request]? = some f)
    (ret : Payload) :
    (sends request (ucIpcServerLoopCallback { cliUuid := cliUuid, frame := f } ret)).map Sent.key =
      syncKeys outbox [request] := by
  have htype : typeAt outbox request = f.head.msgType := by simp [typeAt, hf]
  have hkey : keyAt outbox request = (request, f.head.seqId) := by simp [keyAt, hf]
  by_cases hsync : f.head.msgType = ucIpcMsgTypeSyncSend
  · have hne : ucIpcMsgTypeSyncSend ≠ ucIpcMsgTypeVoid := by decide
    have hne' : ucIpcMsgTypeSyncSend ≠ ucIpcMsgTypeAsyncSend := by decide
    simp [ucIpcServerLoopCallback, hsync, hne, hne', sends, syncKeys, isSync, htype, hkey,
      Sent.key]
  · have hnot : isSync outbox request = false := by simp [isSync, htype, hsync]
    by_cases hcall : f.head.msgType = ucIpcMsgTypeVoid ∨ f.head.msgType = ucIpcMsgTypeAsyncSend
    · simp [ucIpcServerLoopCallback, hcall, sends, syncKeys, hnot]
    · simp [ucIpcServerLoopCallback, hcall, hsync, sends, syncKeys, hnot]

theorem times_handle {request : Nat} {f : Frame} (hf : outbox[request]? = some f)
    (seqId : Option UInt64) :
    times .pipe
        { request := request
          acts := ucIpcServerHandleClientMsg ipcDebugIo { cliUuid := cliUuid, frame := f }
          seqId := seqId } =
      [request].filter (isCall ipcDebugIo outbox) := by
  have htype : typeAt outbox request = f.head.msgType := by simp [typeAt, hf]
  rw [times, handle_count_pipe]
  cases hcall : forCallback ipcDebugIo f.head.msgType with
  | true => simp [isCall, htype, hcall]
  | false => simp [isCall, htype, hcall]

/-- A message that the receive thread has handed on is one for which the callback is called. -/
theorem times_callback {request : Nat} {f : Frame} (hf : outbox[request]? = some f)
    (hcall : isCall ipcDebugIo outbox request = true) (ret : Payload) (seqId : Option UInt64) :
    times .invoke
        { request := request
          acts := ucIpcServerLoopCallback { cliUuid := cliUuid, frame := f } ret
          seqId := seqId } = [request] := by
  have htype : typeAt outbox request = f.head.msgType := by simp [typeAt, hf]
  have hpipe : ServerAct.pipe ∈
      ucIpcServerHandleClientMsg ipcDebugIo { cliUuid := cliUuid, frame := f } := by
    rw [isCall, htype] at hcall
    refine List.count_pos_iff.1 ?_
    rw [handle_count_pipe, hcall]
    simp
  rw [times, callback_count_invoke ipcDebugIo _ ret hpipe]
  rfl

theorem isCall_of_isSync {request : Nat} (h : isSync outbox request = true) :
    isCall ipcDebugIo outbox request = true := by
  have htype : typeAt outbox request = ucIpcMsgTypeSyncSend := by simpa [isSync] using h
  rw [isCall, htype]
  simp [forCallback]

theorem syncKeys_append (l l' : List Nat) :
    syncKeys outbox (l ++ l') = syncKeys outbox l ++ syncKeys outbox l' := by
  simp [syncKeys]

/-- A synchronous message is for the callback. -/
theorem syncKeys_isCall (l : List Nat) :
    syncKeys outbox (l.filter (isCall ipcDebugIo outbox)) = syncKeys outbox l := by
  rw [syncKeys, List.filter_filter]
  refine congrArg (List.map (keyAt outbox)) (List.filter_congr fun request _ => ?_)
  cases hsync : isSync outbox request with
  | false => rfl
  | true => rw [isCall_of_isSync hsync, Bool.and_true]

end Decisions

/-! ## Where the requests are -/

namespace Due

theorem lt_of_kept (hD : s.Due ipcDebugIo log) {request : Nat} (h : request ∈ log.kept) :
    request < s.client.outbox.length :=
  (List.mem_range.1 (hD.kept.subset h)).trans_le hD.bounded

/-- What is in the pipe, or on its way there, was kept and is for the callback. -/
theorem mem_pipe (hD : s.Due ipcDebugIo log) {request : Nat}
    (h : request ∈ s.pipe ++ times .pipe s.rcv) :
    request ∈ log.kept ∧ isCall ipcDebugIo s.client.outbox request = true := by
  have hmem : request ∈ log.kept.filter (isCall ipcDebugIo s.client.outbox) := by
    rw [← hD.called]
    exact List.mem_append_right _ (List.mem_append_right _ h)
  exact List.mem_filter.1 hmem

/-- The client's side goes on: the requests that were read keep their places. -/
theorem of_client (hD : s.Due ipcDebugIo log) {t : Exchange}
    (houtbox : s.client.outbox <+: t.client.outbox) (hread : t.read = s.read)
    (hrcv : t.rcv = s.rcv) (hpipe : t.pipe = s.pipe) (hcb : t.cb = s.cb)
    (hreplies : t.replies = s.replies) (hreturned : t.returned = s.returned) :
    t.Due ipcDebugIo log := by
  have hsame : ∀ request ∈ log.kept, t.client.outbox[request]? = s.client.outbox[request]? := by
    intro request hmem
    rcases houtbox with ⟨more, hmore⟩
    rw [← hmore, List.getElem?_append_left (hD.lt_of_kept hmem)]
  have htype : ∀ request ∈ log.kept,
      typeAt t.client.outbox request = typeAt s.client.outbox request := by
    intro request hmem
    rw [typeAt, typeAt, hsame request hmem]
  have hcall : log.kept.filter (isCall ipcDebugIo t.client.outbox) =
      log.kept.filter (isCall ipcDebugIo s.client.outbox) :=
    List.filter_congr fun request hmem => by rw [isCall, isCall, htype request hmem]
  have hkeys : ∀ l : List Nat, (∀ request ∈ l, request ∈ log.kept) →
      syncKeys t.client.outbox l = syncKeys s.client.outbox l := by
    intro l hl
    have hsync : l.filter (isSync t.client.outbox) = l.filter (isSync s.client.outbox) :=
      List.filter_congr fun request hmem => by rw [isSync, isSync, htype request (hl request hmem)]
    rw [syncKeys, hsync]
    refine List.map_congr_left fun request hmem => ?_
    rw [keyAt, keyAt, hsame request (hl request (List.mem_of_mem_filter hmem))]
  refine ⟨?_, ?_, ?_, ?_, ?_, ?_, ?_⟩
  · rw [hread]
    exact hD.bounded.trans houtbox.length_le
  · rw [hread]
    exact hD.kept
  · rw [hreturned, hcb, hpipe, hrcv, hcall]
    exact hD.called
  · rw [hrcv, hD.acked]
    exact (List.filterMap_congr fun request hmem => by
      rw [ackOwed, ackOwed, hsame request hmem]).symm
  · rw [hcb, hpipe, hrcv, hkeys _ fun request hmem => (hD.mem_pipe hmem).1,
      hkeys _ fun _ h => h]
    exact hD.answered
  · rw [hreplies]
    exact hD.stream
  · rw [hreturned]
    exact hD.returned

/-- The next frame is read, and the request is dropped for want of memory. -/
theorem drop (hD : s.Due ipcDebugIo log) (hidle : s.rcv.acts = [])
    (hlt : s.read < s.client.outbox.length) :
    Due ipcDebugIo
      { s with read := s.read + 1, rcv := { request := s.read, acts := [], seqId := none } }
      log := by
  have hcalled := hD.called
  have hacked := hD.acked
  have hanswered := hD.answered
  refine ⟨hlt, ?_, ?_, ?_, ?_, hD.stream, hD.returned⟩
  · exact hD.kept.trans (List.range_sublist.2 (Nat.le_succ _))
  · simpa [times, hidle] using hcalled
  · simpa [sends, hidle] using hacked
  · simpa [times, hidle] using hanswered

/-- The next frame is read. -/
theorem read (hD : s.Due ipcDebugIo log) (hidle : s.rcv.acts = []) {f : Frame}
    (hf : s.client.outbox[s.read]? = some f) :
    Due ipcDebugIo
      { s with
        read := s.read + 1
        rcv :=
          { request := s.read
            acts := ucIpcServerHandleClientMsg ipcDebugIo { cliUuid := cliUuid, frame := f }
            seqId := none } }
      { log with kept := log.kept ++ [s.read] } := by
  have hlt : s.read < s.client.outbox.length := (List.getElem?_eq_some_iff.1 hf).1
  have hpipe : times .pipe
      { request := s.read
        acts := ucIpcServerHandleClientMsg ipcDebugIo { cliUuid := cliUuid, frame := f }
        seqId := none } = [s.read].filter (isCall ipcDebugIo s.client.outbox) :=
    times_handle hf none
  have hnone : times .pipe s.rcv = [] := by simp [times, hidle]
  have hcalled := hD.called
  have hacked := hD.acked
  have hanswered := hD.answered
  simp only [hnone, hidle, List.append_nil] at hcalled hacked hanswered
  refine ⟨hlt, ?_, ?_, ?_, ?_, hD.stream, hD.returned⟩
  · rw [List.range_succ]
    exact hD.kept.append_right _
  · rw [hpipe, List.filter_append, ← hcalled]
    simp [times]
  · rw [← ackOwed_eq hf, List.filterMap_append, ← hacked]
    cases hack : ackOwed s.client.outbox s.read <;> simp [hack, acks, sends]
  · rw [hpipe, syncKeys_append, syncKeys_isCall, syncKeys_append, ← hanswered]
    simp [syncAcks]

/-- The callback thread takes the next request out of the pipe. -/
theorem take (hD : s.Due ipcDebugIo log) (hidle : s.cb.acts = []) {request : Nat}
    {pipe : List Nat} (hpipe : s.pipe = request :: pipe) {f : Frame}
    (hf : s.client.outbox[request]? = some f) (ret : Payload) :
    Due ipcDebugIo
      { s with
        pipe := pipe
        cb :=
          { request := request
            acts := ucIpcServerLoopCallback { cliUuid := cliUuid, frame := f } ret
            seqId := none }
        ret := ret } log := by
  have hmem : request ∈ s.pipe ++ times .pipe s.rcv := by simp [hpipe]
  have hinvoke : times .invoke
      { request := request
        acts := ucIpcServerLoopCallback { cliUuid := cliUuid, frame := f } ret
        seqId := none } = [request] :=
    times_callback hf (hD.mem_pipe hmem).2 ret none
  have hsend : (sends request
      (ucIpcServerLoopCallback { cliUuid := cliUuid, frame := f } ret)).map Sent.key =
        syncKeys s.client.outbox [request] :=
    sends_callback hf ret
  have hnone : times .invoke s.cb = [] := by simp [times, hidle]
  have hcalled := hD.called
  have hanswered := hD.answered
  rw [hnone, hpipe] at hcalled
  rw [hidle, hpipe] at hanswered
  refine ⟨hD.bounded, hD.kept, ?_, hD.acked, ?_, hD.stream, hD.returned⟩
  · rw [hinvoke, ← hcalled]
    simp
  · rw [hsend, ← hanswered, ← syncKeys_append]
    simp [sends]

end Due

/-! ## A thread goes on -/

/-- What a thread does with its message in one step, and the call of `uc_ipc_server_send_msg` that
this completes. -/
inductive ActCase (s : Exchange) (thread : ServerThread) (ok : Bool) :
    Exchange → ServerThread → List Attempt → Prop
  | draw {seqId seqId' : UInt64} :
      ActCase s thread ok { s with serverSeqId := seqId } { thread with seqId := some seqId' } []
  | sendMsg {uuid ackId seqId : UInt64} {msgType : UInt32} {buf : Payload}
      {acts : List ServerAct} (hacts : thread.acts = .sendMsg uuid ackId msgType buf :: acts) :
      ActCase s thread ok
        { s with
          replies := if ok then
            s.replies ++
              [{ frame := Frame.build msgType seqId ackId buf, request := thread.request }]
            else s.replies }
        { thread with acts := acts, seqId := none }
        [{ sent :=
            { request := thread.request, ackId := ackId, msgType := msgType, buf := buf }
           ok := ok }]
  | pipe {acts : List ServerAct} (hacts : thread.acts = .pipe :: acts) :
      ActCase s thread ok { s with pipe := s.pipe ++ [thread.request] }
        { thread with acts := acts } []
  | invoke {acts : List ServerAct} (hacts : thread.acts = .invoke :: acts) :
      ActCase s thread ok { s with returned := s.returned ++ [(thread.request, s.ret)] }
        { thread with acts := acts } []
  | free {acts : List ServerAct} (hacts : thread.acts = .free :: acts) :
      ActCase s thread ok s { thread with acts := acts } []

theorem actCase {thread thread' : ServerThread} {ok : Bool} {t : Exchange}
    (h : s.act thread ok = some (t, thread')) :
    s.ActCase thread ok t thread' (attempted thread ok) := by
  unfold act at h
  split at h
  · cases h
  · rename_i uuid ackId msgType buf acts hacts
    split at h
    · rename_i hseq
      cases h
      have hnone : attempted thread ok = [] := by simp [attempted, hacts, hseq]
      rw [hnone]
      exact ActCase.draw
    · rename_i seqId hseq
      cases h
      have hsome : attempted thread ok =
          [{ sent :=
              { request := thread.request, ackId := ackId, msgType := msgType, buf := buf }
             ok := ok }] := by
        simp [attempted, hacts, hseq]
      rw [hsome]
      exact ActCase.sendMsg hacts
  · rename_i hacts
    cases h
    have hnone : attempted thread ok = [] := by simp [attempted, hacts]
    rw [hnone]
    exact ActCase.pipe hacts
  · rename_i hacts
    cases h
    have hnone : attempted thread ok = [] := by simp [attempted, hacts]
    rw [hnone]
    exact ActCase.invoke hacts
  · rename_i hacts
    cases h
    have hnone : attempted thread ok = [] := by simp [attempted, hacts]
    rw [hnone]
    exact ActCase.free hacts

namespace Due

/-- The record of one more reply. -/
theorem stream_snoc (hD : s.Due ipcDebugIo log) {sent : Sent} {ok : Bool} {reply : Reply}
    (hreply : reply.sent = sent) :
    (if ok then s.replies ++ [reply] else s.replies).map Reply.sent =
      ((log.attempts ++ [({ sent := sent, ok := ok } : Attempt)]).filter Attempt.ok).map
        Attempt.sent := by
  cases ok with
  | false => simpa using hD.stream
  | true => simp [hD.stream, hreply]

/-- The receive thread goes on with its message. -/
theorem rcvAct (hD : s.Due ipcDebugIo log) (hS : s.Served ipcDebugIo cliUuid)
    (hbusy : s.rcv.acts ≠ []) {ok : Bool} {t : Exchange} {thread : ServerThread}
    {attempts : List Attempt} (hcase : s.ActCase s.rcv ok t thread attempts) :
    Due ipcDebugIo { t with rcv := thread }
      { log with attempts := log.attempts ++ attempts } := by
  rcases hS.rcv hbusy with ⟨f, hf, hprog⟩
  have hcalled := hD.called
  have hacked := hD.acked
  have hanswered := hD.answered
  cases hcase with
  | draw =>
      rw [List.append_nil]
      exact ⟨hD.bounded, hD.kept, hcalled, hacked, hanswered, hD.stream, hD.returned⟩
  | @sendMsg uuid ackId seqId msgType buf acts hacts =>
      rw [hacts] at hprog
      have hreply := sendMsg_mem_handle (suffix_of_cons hprog).1
      -- neither a pong nor an acknowledgement of an asynchronous message is one of a synchronous
      have hack : (msgType == ucIpcMsgTypeSyncAck) = false := by
        rcases hreply.2 with h | ⟨h, _⟩
        · rw [h]
          decide
        · rw [h]
          decide
      have htimes : times .pipe { s.rcv with acts := acts, seqId := none } =
          times .pipe s.rcv := by
        simp [times, hacts]
      refine ⟨hD.bounded, hD.kept, ?_, ?_, ?_, hD.stream_snoc rfl, ?_⟩
      · rw [htimes]
        exact hcalled
      · rw [← hacked, hacts]
        simp [acks, sends, Sent.isSyncAck, hack]
      · rw [htimes, ← hanswered]
        simp [syncAcks, Sent.isSyncAck, hack]
      · simpa [syncAcks, Sent.isSyncAck, hack] using hD.returned
  | @pipe acts hacts =>
      rw [List.append_nil]
      have htimes : times .pipe s.rcv =
          s.rcv.request :: times .pipe { s.rcv with acts := acts } := by
        simp [times, hacts, List.replicate_succ]
      refine ⟨hD.bounded, hD.kept, ?_, ?_, ?_, hD.stream, hD.returned⟩
      · rw [← hcalled, htimes]
        simp
      · rw [← hacked, hacts]
        simp [sends]
      · rw [← hanswered, htimes]
        simp
  -- the receive thread never calls the callback
  | invoke hacts =>
      rw [hacts] at hprog
      exact absurd (suffix_of_cons hprog).1 (Dispatch.handle_givesUp _ _).2
  | @free acts hacts =>
      rw [List.append_nil]
      have htimes : times .pipe { s.rcv with acts := acts } = times .pipe s.rcv := by
        simp [times, hacts]
      refine ⟨hD.bounded, hD.kept, ?_, ?_, ?_, hD.stream, hD.returned⟩
      · rw [htimes]
        exact hcalled
      · rw [← hacked, hacts]
        simp [sends]
      · rw [htimes]
        exact hanswered

/-- The callback thread goes on with its message. -/
theorem cbAct (hD : s.Due ipcDebugIo log) (hS : s.Served ipcDebugIo cliUuid)
    (hbusy : s.cb.acts ≠ []) {ok : Bool} {t : Exchange} {thread : ServerThread}
    {attempts : List Attempt} (hcase : s.ActCase s.cb ok t thread attempts) :
    Due ipcDebugIo { t with cb := thread }
      { log with attempts := log.attempts ++ attempts } := by
  rcases hS.cb hbusy with ⟨f, hf, hwhere⟩
  have hprog : s.cb.acts <:+ ucIpcServerLoopCallback { cliUuid := cliUuid, frame := f } s.ret := by
    rcases hwhere with hstart | ⟨hlater, -⟩
    · exact hstart ▸ List.suffix_rfl
    · exact hlater
  have hcalled := hD.called
  have hacked := hD.acked
  have hanswered := hD.answered
  cases hcase with
  | draw =>
      rw [List.append_nil]
      exact ⟨hD.bounded, hD.kept, hcalled, hacked, hanswered, hD.stream, hD.returned⟩
  | @sendMsg uuid ackId seqId msgType buf acts hacts =>
      rw [hacts] at hprog hwhere
      rcases sendMsg_mem_callback (suffix_of_cons hprog).1 with ⟨_, htype, _, hret⟩
      have hack : (msgType == ucIpcMsgTypeSyncAck) = true := by
        rw [htype]
        decide
      have htimes : times .invoke { s.cb with acts := acts, seqId := none } =
          times .invoke s.cb := by
        simp [times, hacts]
      have hreturned : (s.cb.request, buf) ∈ s.returned := by
        rcases hwhere with hstart | ⟨-, hreturned⟩
        · exact absurd hstart.symm callback_head
        · exact hret ▸ hreturned
      refine ⟨hD.bounded, hD.kept, ?_, ?_, ?_, hD.stream_snoc rfl, ?_⟩
      · rw [htimes]
        exact hcalled
      · rw [← hacked]
        simp [acks, Sent.isSyncAck, hack]
      · rw [← hanswered, hacts]
        simp [syncAcks, sends, Sent.isSyncAck, hack, Sent.key]
      · intro sent hsent
        simp only [syncAcks, List.map_append, List.filter_append, List.mem_append] at hsent
        rcases hsent with hold | hnew
        · exact hD.returned sent hold
        · rw [List.mem_singleton.1 (List.mem_of_mem_filter hnew)]
          exact hreturned
  | pipe hacts =>
      rw [hacts] at hprog
      exact absurd (suffix_of_cons hprog).1 (Dispatch.callback_givesUp _ _).2
  | @invoke acts hacts =>
      rw [List.append_nil]
      have htimes : times .invoke s.cb =
          s.cb.request :: times .invoke { s.cb with acts := acts } := by
        simp [times, hacts, List.replicate_succ]
      refine ⟨hD.bounded, hD.kept, ?_, hacked, ?_, hD.stream, ?_⟩
      · rw [← hcalled, htimes]
        simp
      · rw [← hanswered, hacts]
        simp [sends]
      · intro sent hsent
        exact List.mem_append_left _ (hD.returned sent hsent)
  | @free acts hacts =>
      rw [List.append_nil]
      have htimes : times .invoke { s.cb with acts := acts } = times .invoke s.cb := by
        simp [times, hacts]
      refine ⟨hD.bounded, hD.kept, ?_, hacked, ?_, hD.stream, hD.returned⟩
      · rw [htimes]
        exact hcalled
      · rw [← hanswered, hacts]
        simp [sends]

end Due

/-! ## Runs -/

theorem Due.step (hD : s.Due ipcDebugIo log) (hS : s.Served ipcDebugIo cliUuid)
    {e : ExchangeEvent} {t : Exchange} (henabled : (machine ipcDebugIo cliUuid).enabled s e = true)
    (hexec : (machine ipcDebugIo cliUuid).exec s e = some t) :
    t.Due ipcDebugIo (s.serviceNote e log) := by
  -- the stream of the client only grows
  have hclient : ∀ {ce : ClientEvent} {client : Client}, s.client.Step ce client →
      s.client.outbox <+: client.outbox := by
    intro ce client hstep
    rcases hstep.outbox with ⟨-, hsame⟩ | ⟨c, call, id, -, -, -, hmore⟩
    · exact hsame ▸ List.prefix_rfl
    · exact hmore ▸ List.prefix_append _ _
  cases e with
  | client e =>
      rcases (Bool.and_eq_true _ _).mp henabled with ⟨_, henabled'⟩
      rcases Option.map_eq_some_iff.1 hexec with ⟨client, hexec', rfl⟩
      exact hD.of_client (hclient (Client.step_of_exec henabled' hexec')) rfl rfl rfl rfl rfl rfl
  | receive signalled =>
      rcases (Option.any_eq_true _ _).1 henabled with ⟨reply, hreply, henabled'⟩
      rcases Option.bind_eq_some_iff.1 hexec with ⟨reply', hreply', hexec'⟩
      cases hreply.symm.trans hreply'
      rcases Option.map_eq_some_iff.1 hexec' with ⟨client, hexec'', rfl⟩
      exact hD.of_client (hclient (Client.step_of_exec henabled' hexec'')) rfl rfl rfl rfl rfl rfl
  | read ok =>
      rcases (Bool.and_eq_true _ _).mp henabled with ⟨hidle, hlt⟩
      rcases Option.map_eq_some_iff.1 hexec with ⟨msg, hmsg, rfl⟩
      rcases message_eq hmsg with ⟨f, hf, rfl⟩
      cases ok with
      | false => exact hD.drop (List.isEmpty_iff.1 hidle) (of_decide_eq_true hlt)
      | true => exact hD.read (List.isEmpty_iff.1 hidle) hf
  | rcvAct ok =>
      rcases Option.map_eq_some_iff.1 hexec with ⟨⟨mid, thread⟩, hact, rfl⟩
      have hbusy : s.rcv.acts ≠ [] := by
        intro hnil
        simp [machine, enabled, hnil] at henabled
      exact hD.rcvAct hS hbusy (actCase hact)
  | take ret =>
      rcases (Bool.and_eq_true _ _).mp henabled with ⟨hidle, _⟩
      cases hpipe : s.pipe with
      | nil => simp [machine, exec, hpipe] at hexec
      | cons request pipe =>
          simp only [machine, exec, hpipe] at hexec
          rcases Option.map_eq_some_iff.1 hexec with ⟨msg, hmsg, rfl⟩
          rcases message_eq hmsg with ⟨f, hf, rfl⟩
          exact hD.take (List.isEmpty_iff.1 hidle) hpipe hf ret
  | cbAct ok =>
      rcases Option.map_eq_some_iff.1 hexec with ⟨⟨mid, thread⟩, hact, rfl⟩
      have hbusy : s.cb.acts ≠ [] := by
        intro hnil
        simp [machine, enabled, hnil] at henabled
      exact hD.cbAct hS hbusy (actCase hact)

/-- Both threads wait for a message, and the pipe is empty. -/
def Idle (s : Exchange) : Prop :=
  s.rcv.acts = [] ∧ s.cb.acts = [] ∧ s.pipe = []

/-- Every request that got memory is served once, in the order in which the client has sent them. -/
structure Serves (ipcDebugIo : Bool) (s : Exchange) (log : ServiceLog) : Prop where
  kept : log.kept.Sublist (List.range s.read)
  /-- The callback is called for its requests. -/
  called : s.returned.map Prod.fst <+: log.kept.filter (isCall ipcDebugIo s.client.outbox)
  /-- The receive thread sends its acknowledgements and its pongs. -/
  acked : acks log <+: log.kept.filterMap (ackOwed s.client.outbox)
  /-- The callback thread answers the synchronous requests, with what the callback has returned. -/
  answered : (syncAcks log).map Sent.key <+: syncKeys s.client.outbox log.kept
  returned : ∀ sent ∈ syncAcks log, (sent.request, sent.buf) ∈ s.returned
  /-- The stream to the client has the replies whose sending succeeded, and no others. -/
  stream : s.replies.map Reply.sent = (log.attempts.filter Attempt.ok).map Attempt.sent
  /-- In the end nothing is left out. -/
  idle : s.Idle →
    s.returned.map Prod.fst = log.kept.filter (isCall ipcDebugIo s.client.outbox) ∧
      acks log = log.kept.filterMap (ackOwed s.client.outbox) ∧
      (syncAcks log).map Sent.key = syncKeys s.client.outbox log.kept

theorem Due.serves (hD : s.Due ipcDebugIo log) : s.Serves ipcDebugIo log where
  kept := hD.kept
  called := hD.called ▸ List.prefix_append _ _
  acked := hD.acked ▸ List.prefix_append _ _
  answered := hD.answered ▸ List.prefix_append _ _
  returned := hD.returned
  stream := hD.stream
  idle := by
    rintro ⟨hrcv, hcb, hpipe⟩
    have hcalled := hD.called
    have hacked := hD.acked
    have hanswered := hD.answered
    refine ⟨?_, ?_, ?_⟩
    · simpa [times, hrcv, hcb, hpipe] using hcalled
    · simpa [sends, hrcv] using hacked
    · simpa [times, sends, syncKeys, hrcv, hcb, hpipe] using hanswered

/-- In every run of a client and a server, whichever allocations and sends fail. -/
theorem ucIpcServer_serves {seqId serverSeqId : UInt64} {events : List ExchangeEvent}
    (hrun : ((machine ipcDebugIo cliUuid).record serviceNote).Run
      (ofInit seqId serverSeqId, { kept := [], attempts := [] }) events (s, log)) :
    s.Serves ipcDebugIo log := by
  have hinv : s.Linked ipcDebugIo cliUuid (clampSeqId seqId) ∧ s.Due ipcDebugIo log := by
    refine hrun.invariant
      (J := fun x => x.1.Linked ipcDebugIo cliUuid (clampSeqId seqId) ∧ x.1.Due ipcDebugIo x.2)
      ⟨ofInit_linked ipcDebugIo cliUuid seqId serverSeqId, ofInit_due seqId serverSeqId⟩ ?_
      (fun _ _ => trivial : ∀ e ∈ events, True)
    rintro x y e ⟨hL, hD⟩ _ henabled hexec
    rcases Machine.exec_record hexec with ⟨hexec', hlog⟩
    refine ⟨hL.step (step_of_exec henabled hexec'), ?_⟩
    rw [hlog]
    exact hD.step hL.served henabled hexec'
  exact hinv.2.serves

/-- A heartbeat, a synchronous call, an asynchronous one for which there is no memory and one more
synchronous call, whose reply gets lost. -/
def fourRequests : List ExchangeEvent :=
  [.client (.call .heartbeat (.ofByte 7) 1000), .client (.call .syncSend (.ofByte 1) 1000),
    .client (.call .asyncSend (.ofByte 2) 1000), .client (.call .syncSend (.ofByte 3) 1000),
    .client (.draw 0), .client (.send 0 .written), .client (.draw 1),
    .client (.insert 1 (some (nodeAt 16))), .client (.send 1 .written), .client (.draw 2),
    .client (.insert 2 (some (nodeAt 32))), .client (.send 2 .written), .client (.draw 3),
    .client (.insert 3 (some (nodeAt 48))), .client (.send 3 .written),
    .read true, .rcvAct true, .rcvAct true, .rcvAct true, .read true, .rcvAct true,
    .take (.ofByte 11), .read false, .read true, .cbAct true, .cbAct true, .rcvAct true,
    .cbAct true, .cbAct true, .take (.ofByte 13), .cbAct true, .cbAct true, .cbAct false,
    .cbAct true]

theorem ucIpcServer_serves_four : ∃ (s : Exchange) (log : ServiceLog),
    ((machine true 1).record serviceNote).Run
        (ofInit 10000 10000, { kept := [], attempts := [] }) fourRequests (s, log) ∧
      log.kept = [0, 1, 3] ∧ s.returned.map Prod.fst = [1, 3] ∧
      log.attempts.map Attempt.ok = [true, true, false] ∧ s.Serves true log := by
  have hplay : (((machine true 1).record serviceNote).play
      (ofInit 10000 10000, { kept := [], attempts := [] }) fourRequests).any (fun x =>
        decide (x.2.kept = [0, 1, 3] ∧ x.1.returned.map Prod.fst = [1, 3] ∧
          x.2.attempts.map Attempt.ok = [true, true, false])) = true := by
    decide +kernel
  rcases Machine.exists_run_of_play hplay with ⟨⟨s, log⟩, hrun, htest⟩
  rcases of_decide_eq_true htest with ⟨hkept, hreturned, hok⟩
  exact ⟨s, log, hrun, hkept, hreturned, hok, ucIpcServer_serves hrun⟩

end Exchange
end Ipc
end UtilsC
