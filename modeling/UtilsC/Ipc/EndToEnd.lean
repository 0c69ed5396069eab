import UtilsC.Ipc.Exchange

/-!
# Replies match requests

* `Exchange.Matched` is what the callers of the client get.
* As long as no id is drawn twice it holds in every state.
* The counter has 64 bits: a call that draws the id of an earlier one can be handed the late reply
  to that one.
-/

namespace UtilsC
namespace Ipc

open Lib Hash

namespace Exchange

variable {ipcDebugIo : Bool} {cliUuid : UInt64} {s : Exchange}

/-! ## Runs -/

theorem linked_of_run {seqId serverSeqId : UInt64} {events : List ExchangeEvent}
    (hrun : (machine ipcDebugIo cliUuid).Run (ofInit seqId serverSeqId) events s) :
    s.Linked ipcDebugIo cliUuid (clampSeqId seqId) := by
  induction hrun with
  | nil => exact ofInit_linked ipcDebugIo cliUuid seqId serverSeqId
  | snoc _ henabled hexec ih => exact ih.step (step_of_exec henabled hexec)

/-- An id is drawn. -/
def isDraw : ExchangeEvent → Bool
  | .client (.draw _) => true
  | _ => false

theorem Step.draws_length {e : ExchangeEvent} {t : Exchange}
    (hstep : Step ipcDebugIo cliUuid s e t) :
    t.draws.length = s.draws.length + if isDraw e then 1 else 0 := by
  cases hstep with
  | @client e client hcaller hstep => cases e <;> simp [ClientEvent.draws, isDraw]
  | rcvAct hbusy hstep => exact congrArg List.length hstep.kept.2.1
  | cbAct hbusy hstep => exact congrArg List.length hstep.kept.2.1
  | _ => rfl

theorem draws_length {seqId serverSeqId : UInt64} {events : List ExchangeEvent}
    (hrun : (machine ipcDebugIo cliUuid).Run (ofInit seqId serverSeqId) events s) :
    s.draws.length = events.countP isDraw := by
  induction hrun with
  | nil => rfl
  | snoc _ henabled hexec ih =>
      rw [(step_of_exec henabled hexec).draws_length, ih, List.countP_append, List.countP_singleton]

/-- As long as no id has been drawn twice, an id belongs to one call. -/
theorem Linked.unique {seqId : UInt64} (hL : s.Linked ipcDebugIo cliUuid (clampSeqId seqId))
    (hfew : s.draws.length ≤ seqIdCount) {c c' : Nat} {id : UInt64} (h : (c, id) ∈ s.draws)
    (h' : (c', id) ∈ s.draws) : c = c' := by
  -- the draws are numbered, and the number of a draw gives its id
  rcases List.mem_iff_getElem?.1 h with ⟨i, hi⟩
  rcases List.mem_iff_getElem?.1 h' with ⟨j, hj⟩
  have hilt : i < s.draws.length := (List.getElem?_eq_some_iff.1 hi).1
  have hjlt : j < s.draws.length := (List.getElem?_eq_some_iff.1 hj).1
  have hsame : i = j := seqIdAfter_inj (clampSeqId_ge seqId) (hilt.trans_le hfew)
    (hjlt.trans_le hfew) ((hL.ids hi).symm.trans (hL.ids hj))
  subst hsame
  exact (Prod.mk.inj (Option.some.inj (hi.symm.trans hj))).1

/-- What the callers get.  A synchronous call that returns 0 has what the callback has returned for
the frame that this call has sent; when an asynchronous call returns 0, the server has read the
frame that this call has sent; and whatever is stored for a call is a reply to its own frame. -/
structure Matched (s : Exchange) : Prop where
  sync : ∀ {c : Nat} {call : ClientCall} {handed : Option ClientMsg},
    s.client.calls[c]? = some call → call.kind = .syncSend → call.pc = .returned 0 handed →
      ∃ msg request id, handed = some msg ∧ s.RequestOf c call request id ∧
        (request, msg.frame.buf) ∈ s.returned
  async : ∀ {c : Nat} {call : ClientCall} {handed : Option ClientMsg},
    s.client.calls[c]? = some call → call.kind = .asyncSend → call.pc = .returned 0 handed →
      ∃ request id, s.RequestOf c call request id ∧ request < s.read
  stored : ∀ {c : Nat} {call : ClientCall} {msg : ClientMsg},
    s.client.calls[c]? = some call → msg ∈ call.stored →
      ∃ r ∈ s.replies, r.frame = msg.frame ∧ ∃ id, s.RequestOf c call r.request id

/-- A reply with the id that a call has drawn answers the frame that the call has sent. -/
theorem Linked.replyTo {seqId : UInt64} (hL : s.Linked ipcDebugIo cliUuid (clampSeqId seqId))
    (hfew : s.draws.length ≤ seqIdCount) {c : Nat} {call : ClientCall}
    (hcall : s.client.calls[c]? = some call) {r : Reply} (hr : r ∈ s.replies)
    (hdrawn : (c, r.frame.head.ackId) ∈ s.draws) :
    ∃ f, s.HasRead r.request f ∧ s.Answers f r ∧
      s.RequestOf c call r.request f.head.seqId := by
  rcases hL.served.replied r hr with ⟨f, hread, hanswers⟩
  rcases hL.sent hread.1 with ⟨c', call', hcall', hdrawn', hrequest⟩
  rw [hanswers.1] at hdrawn
  -- the sender of the frame has drawn its id, and so has the call: they are the same
  have hsame : c' = c := hL.unique hfew hdrawn' hdrawn
  subst hsame
  cases hcall.symm.trans hcall'
  exact ⟨f, hread, hanswers, hrequest⟩

/-- In every run that draws at most as many ids as there are, replies match requests. -/
theorem ucIpcClientSyncSend_matched {seqId serverSeqId : UInt64} {events : List ExchangeEvent}
    (hrun : (machine ipcDebugIo cliUuid).Run (ofInit seqId serverSeqId) events s)
    (hfew : events.countP isDraw ≤ seqIdCount) : s.Matched := by
  have hL := linked_of_run hrun
  rw [← draws_length hrun] at hfew
  refine ⟨?_, ?_, ?_⟩
  · intro c call handed hcall hkind hpc
    rcases (hL.traced.calls hcall).sync hkind handed hpc with
      ⟨msg, hhanded, hdrawn, hack, r, hr, hframe⟩
    rw [← hframe] at hdrawn
    rcases hL.replyTo hfew hcall hr hdrawn with ⟨f, hread, hanswers, hrequest⟩
    refine ⟨msg, r.request, f.head.seqId, hhanded, hrequest, ?_⟩
    -- the request is of the type that is answered with what the callback returns
    have htype : f.head.msgType = ucIpcMsgTypeSyncSend := by
      have hf := Option.some.inj (hread.1.symm.trans hrequest.2)
      rw [hf, hkind]
      rfl
    rw [← hframe]
    -- a heartbeat is no acknowledgement, and an asynchronous one answers the other type
    rcases hanswers.2 with hbeat | ⟨-, hasync⟩ | ⟨-, -, hreturned⟩
    · rw [← hframe, hbeat] at hack
      exact absurd hack (by decide)
    · rw [htype] at hasync
      exact absurd hasync (by decide)
    · exact hreturned
  · intro c call handed hcall hkind hpc
    rcases (hL.traced.calls hcall).async hkind handed hpc with ⟨f, hdrawn, -, r, hr, hframe⟩
    rw [← hframe] at hdrawn
    rcases hL.replyTo hfew hcall hr hdrawn with ⟨f', hread, -, hrequest⟩
    exact ⟨r.request, _, hrequest, hread.2⟩
  · intro c call msg hcall hmsg
    rcases (hL.traced.calls hcall).stored msg hmsg with ⟨hdrawn, -, r, hr, hframe⟩
    rw [← hframe] at hdrawn
    rcases hL.replyTo hfew hcall hr hdrawn with ⟨f, -, -, hrequest⟩
    exact ⟨r, hr, hframe, _, hrequest⟩

/-- Two synchronous calls; the second is the first to send its frame, and the callback returns a
byte that tells the two apart. -/
def twoCalls : List ExchangeEvent :=
  [.client (.call .syncSend ⟨[1], by decide⟩ 1000), .client (.call .syncSend ⟨[2], by decide⟩ 1000),
    .client (.draw 0), .client (.draw 1), .client (.insert 1 (some (nodeAt 16))),
    .client (.send 1 .written), .client (.insert 0 (some (nodeAt 32))), .client (.send 0 .written),
    .client (.wait 0), .client (.wait 1), .read true, .rcvAct true, .take ⟨[12], by decide⟩,
    .read true, .cbAct true, .cbAct true, .rcvAct true, .cbAct true, .cbAct true,
    .take ⟨[11], by decide⟩, .cbAct true, .cbAct true, .cbAct true, .cbAct true, .receive (some 0),
    .client (.resume 0), .receive (some 0), .client (.resume 0), .client (.wake 1 .ok),
    .client (.resume 1)]

/-- What a call that has returned 0 hands to its caller. -/
def handedBuf : CallPc → Option (List UInt8)
  | .returned ret handed => if ret = 0 then handed.map fun msg => msg.frame.buf.bytes else none
  | _ => none

theorem ucIpcClientSyncSend_matched_two : ∃ s : Exchange,
    (machine true 1).Run (ofInit 10000 10000) twoCalls s ∧
      (s.client.calls.map fun call => handedBuf call.pc) = [some [11], some [12]] ∧ s.Matched := by
  have hplay : ((machine true 1).play (ofInit 10000 10000) twoCalls).any (fun s =>
      decide ((s.client.calls.map fun call => handedBuf call.pc) = [some [11], some [12]])) =
        true := by
    decide +kernel
  rcases Machine.exists_run_of_play hplay with ⟨s, hrun, htest⟩
  exact ⟨s, hrun, of_decide_eq_true htest, ucIpcClientSyncSend_matched hrun (by decide)⟩

end Exchange

/-! ## When the ids come round again -/

namespace Client

/-- Call `c` is a synchronous call at this point. -/
def SyncAt (s : Client) (c : Nat) (pc : CallPc) : Prop :=
  ∃ call, s.calls[c]? = some call ∧ call.kind = .syncSend ∧ call.pc = pc

variable {s : Client} {c : Nat}

theorem SyncAt.setPc {pc : CallPc} (h : s.SyncAt c pc) {t : Client} (hcalls : t.calls = s.calls)
    (pc' : CallPc) : (t.setPc c pc').SyncAt c pc' := by
  rcases h with ⟨call, hcall, hkind, -⟩
  exact ⟨_, setPc_call_self (hcalls ▸ hcall), hkind, rfl⟩

theorem SyncAt.draw (h : s.SyncAt c .entry) :
    ∃ t, s.enabled (.draw c) = true ∧ s.exec (.draw c) = some t ∧ t.SyncAt c (.drawn s.seqId) ∧
      t.ackHash = s.ackHash := by
  rcases h with ⟨call, hcall, hkind, hpc⟩
  refine ⟨({ s with seqId := (nextSeqId s.seqId).2 } : Client).setPc c (.drawn s.seqId), ?_, ?_,
    SyncAt.setPc ⟨call, hcall, hkind, hpc⟩ rfl _, rfl⟩
  · simp [enabled, hcall, enabledCall, hpc]
  · simp [exec, hcall, execCall, ucIpcClientNextSeqId, nextSeqId]

/-- An id that has an entry is inserted again, without a message. -/
theorem SyncAt.insert {id : UInt64} (h : s.SyncAt c (.drawn id)) (hget : s.ackHash.get id ≠ none) :
    ∃ t, s.enabled (.insert c none) = true ∧ s.exec (.insert c none) = some t ∧
      t.SyncAt c (.inserted id) ∧ t.ackHash.get id = some none := by
  rcases h with ⟨call, hcall, hkind, hpc⟩
  -- the node is there already, so that no memory is needed
  have hstatus : (s.ucIpcClientInsertSeq none id).1 = 0 := by
    rw [insertSeq_status, if_pos (Or.inl hget)]
    rfl
  refine ⟨(s.ucIpcClientInsertSeq none id).2.setPc c (.inserted id), ?_, ?_,
    SyncAt.setPc ⟨call, hcall, hkind, hpc⟩ rfl _, ?_⟩
  · simp [enabled, hcall, enabledCall, hpc, hkind, CallKind.acked]
  · simp [exec, hcall, execCall, hpc, hstatus]
  · rw [setPc_ackHash, insertSeq_ok _ _ _ _ hstatus, if_pos rfl]

theorem SyncAt.send {id : UInt64} (h : s.SyncAt c (.inserted id)) :
    ∃ t, s.enabled (.send c .written) = true ∧ s.exec (.send c .written) = some t ∧
      t.SyncAt c (.sent id) ∧ t.ackHash = s.ackHash := by
  rcases h with ⟨call, hcall, hkind, hpc⟩
  refine ⟨(s.ucIpcClientSend .written id call.kind.msgType call.buf).2.setPc c (.sent id), ?_, ?_,
    SyncAt.setPc ⟨call, hcall, hkind, hpc⟩ rfl _, rfl⟩
  · simp [enabled, hcall, enabledCall, hpc, hkind, CallKind.acked]
  · simp [exec, hcall, execCall, hpc, hkind, afterSend, ucIpcClientSend]

theorem SyncAt.wait {id : UInt64} (h : s.SyncAt c (.sent id))
    (hget : s.ackHash.get id = some none) :
    ∃ t, s.enabled (.wait c) = true ∧ s.exec (.wait c) = some t ∧
      t.SyncAt c (.asleep id (t.ackNode id)) ∧ t.ackHash = s.ackHash := by
  rcases h with ⟨call, hcall, hkind, hpc⟩
  refine ⟨s.setPc c (.asleep id (s.ackNode id)), ?_, ?_,
    SyncAt.setPc ⟨call, hcall, hkind, hpc⟩ rfl _, rfl⟩
  · simp [enabled, hcall, enabledCall, hpc]
  · simp [exec, hcall, execCall, hpc, ucIpcClientWaitAck, waitAckLoop, hget]

theorem loopRcv_store {f : Frame} (hreply : isReply (.frame f) = true)
    (hget : s.ackHash.get f.head.ackId ≠ none) (signalled : Option Nat) :
    s.ucIpcClientLoopRcv (.frame f) signalled =
      (({ s with blocks := s.blocks + 1 } : Client).store f.head.ackId
        { block := s.blocks, frame := f }).signal signalled := by
  simp only [isReply, Bool.and_eq_true, Bool.not_eq_true', decide_eq_false_iff_not] at hreply
  rcases hreply with ⟨⟨hseq, hack⟩, hnull⟩
  -- an acknowledgement passes all the tests that lead to a reconnect
  have hbeat : f.head.msgType ≠ ucIpcMsgTypeHeartbeat := by
    intro heq
    rw [heq] at hack
    exact absurd hack (by decide)
  simp only [ucIpcClientLoopRcv, if_neg hseq, if_neg hbeat, if_pos hack, if_neg hnull, ackSection,
    U64Table.findVal_eq_get]
  cases hv : s.ackHash.get f.head.ackId with
  | none => exact absurd hv hget
  | some v => rfl

/-- A reply to the id is stored, and its signal wakes the call. -/
theorem SyncAt.receive {id : UInt64} (h : s.SyncAt c (.asleep id (s.ackNode id))) {f : Frame}
    (hreply : isReply (.frame f) = true) (hack : f.head.ackId = id)
    (hget : s.ackHash.get id ≠ none) :
    ∃ t msg, s.enabled (.receive (.frame f) (some c)) = true ∧
      s.exec (.receive (.frame f) (some c)) = some t ∧
        t.SyncAt c (.woken id (t.ackNode id) .ok) ∧ t.ackHash.get id = some (some msg) := by
  rcases h with ⟨call, hcall, hkind, hpc⟩
  rw [← hack] at hget
  let s' : Client := { s with blocks := s.blocks + 1 }
  let msg : ClientMsg := { block := s.blocks, frame := f }
  refine ⟨(s'.store f.head.ackId msg).signal (some c), msg, ?_, ?_, ?_, ?_⟩
  · simp [enabled, hreply, signalOk, hcall, isAsleep, hpc]
  · exact congrArg some (loopRcv_store hreply hget (some c))
  · have hcall' : s'.calls[c]? = some call := hcall
    refine ⟨_, (signal_calls _ _ _).trans (congrArg (Option.map _)
      ((store_calls _ _ _ _).trans (congrArg (Option.map _) hcall'))), ?_, ?_⟩
    · dsimp only
      split <;> exact hkind
    · dsimp only
      have hpc' : signalPc (some c) c call.pc = .woken id (s.ackNode id) .ok := by
        rw [hpc, signalPc, if_pos rfl]
        rfl
      rw [signal_ackNode, store_ackNode]
      split <;> exact hpc'
  · have hget' : s'.ackHash.get f.head.ackId ≠ none := hget
    rw [signal_ackHash, store_get _ _ _ _ hget', if_pos hack.symm]

/-- The call takes what it finds in its entry. -/
theorem SyncAt.resume {id : UInt64} (h : s.SyncAt c (.woken id (s.ackNode id) .ok))
    {msg : ClientMsg} (hget : s.ackHash.get id = some (some msg)) :
    ∃ t, s.enabled (.resume c) = true ∧ s.exec (.resume c) = some t ∧
      t.SyncAt c (.returned 0 (some msg)) := by
  rcases h with ⟨call, hcall, hkind, hpc⟩
  refine ⟨(s.withoutEntry id).setPc c (.returned 0 (some msg)), ?_, ?_,
    SyncAt.setPc ⟨call, hcall, hkind, hpc⟩ rfl _⟩
  · simp [enabled, hcall, enabledCall, hpc]
  · have htake := waitAckTake_eq s c .syncSend id hget
    simp [exec, hcall, execCall, hpc, waitAckLoop, hget, hkind, htake]

end Client

namespace Exchange

variable {ipcDebugIo : Bool} {cliUuid : UInt64} {s : Exchange}

/-- What a run of draws leaves as it was. -/
structure Spared (s t : Exchange) : Prop where
  ackHash : t.client.ackHash = s.client.ackHash
  calls : ∀ {c : Nat} {call : ClientCall}, s.client.calls[c]? = some call →
    t.client.calls[c]? = some call
  replies : t.replies = s.replies
  received : t.received = s.received
  sentBy : t.sentBy = s.sentBy
  returned : t.returned = s.returned

theorem Spared.trans {t u : Exchange} (h : s.Spared t) (h' : t.Spared u) : s.Spared u :=
  ⟨h'.ackHash.trans h.ackHash, fun hc => h'.calls (h.calls hc), h'.replies.trans h.replies,
    h'.received.trans h.received, h'.sentBy.trans h.sentBy, h'.returned.trans h.returned⟩

/-- A step of a caller. -/
theorem run_caller {e : ClientEvent} {client : Client} (hcaller : isCaller e = true)
    (henabled : s.client.enabled e = true) (hexec : s.client.exec e = some client) :
    (machine ipcDebugIo cliUuid).Run s [.client e]
      { s with
        client := client
        draws := s.draws ++ e.draws s.client
        sentBy := s.sentBy ++ e.senders } := by
  refine Machine.Run.snoc Machine.Run.nil ?_ ?_
  · exact (Bool.and_eq_true _ _).mpr ⟨hcaller, henabled⟩
  · show (s.client.exec e).map _ = _
    rw [hexec]
    rfl

/-- The client gets the next reply. -/
theorem run_receive {reply : Reply} {signalled : Option Nat} {client : Client}
    (hreply : s.replies[s.received]? = some reply)
    (henabled : s.client.enabled (.receive (.frame reply.frame) signalled) = true)
    (hexec : s.client.exec (.receive (.frame reply.frame) signalled) = some client) :
    (machine ipcDebugIo cliUuid).Run s [.receive signalled]
      { s with client := client, received := s.received + 1 } := by
  refine Machine.Run.snoc Machine.Run.nil ?_ ?_
  · show (s.replies[s.received]?).any _ = true
    rw [hreply]
    exact henabled
  · show (s.replies[s.received]?).bind _ = _
    rw [hreply, Option.bind_some, hexec]
    rfl

/-- A call of `uc_ipc_client_try_send` that gets no memory draws an id and that is all. -/
theorem run_trySend (s : Exchange) : ∃ events t, (machine ipcDebugIo cliUuid).Run s events t ∧
    t.client.seqId = (nextSeqId s.client.seqId).2 ∧ s.Spared t := by
  let c := s.client.calls.length
  let call : ClientCall :=
    { kind := .trySend, buf := Payload.empty, waitMillisecond := 0, pc := .entry, stored := [] }
  let k₁ : Client := { s.client with calls := s.client.calls ++ [call] }
  let k₂ : Client :=
    ({ k₁ with seqId := (nextSeqId k₁.seqId).2 } : Client).setPc c (.drawn k₁.seqId)
  let k₃ : Client := k₂.setPc c (.returned (-0x146071f6) none)
  have hcall₁ : k₁.calls[c]? = some call := List.getElem?_concat_length
  have hcall₂ : k₂.calls[c]? = some { call with pc := .drawn k₁.seqId } :=
    Client.setPc_call_self hcall₁
  have hdraw : k₁.enabled (.draw c) = true ∧ k₁.exec (.draw c) = some k₂ := by
    refine ⟨?_, ?_⟩
    · simp [Client.enabled, hcall₁, Client.enabledCall, call]
    · simp [Client.exec, hcall₁, Client.execCall, ucIpcClientNextSeqId, nextSeqId, k₂]
  have hsend : k₂.enabled (.send c .noPacket) = true ∧ k₂.exec (.send c .noPacket) = some k₃ := by
    refine ⟨?_, ?_⟩
    · simp [Client.enabled, hcall₂, Client.enabledCall, call, CallKind.acked]
    · simp [Client.exec, hcall₂, Client.execCall, Client.ucIpcClientSend, Client.afterSend, call,
        k₃]
  have hentry : s.client.exec (.call .trySend Payload.empty 0) = some k₁ := rfl
  -- the call enters, draws its id and fails for want of memory
  have hrun₁ := @run_caller ipcDebugIo cliUuid s _ _ rfl rfl hentry
  have hrun₂ := hrun₁.trans (run_caller rfl hdraw.1 hdraw.2)
  have hrun₃ := hrun₂.trans (run_caller rfl hsend.1 hsend.2)
  refine ⟨_, _, hrun₃, rfl, rfl, ?_, rfl, rfl, ?_, rfl⟩
  · intro c' call' hcall'
    have hlt : c' < c := (List.getElem?_eq_some_iff.1 hcall').1
    have hne : c' ≠ c := Nat.ne_of_lt hlt
    show k₃.calls[c']? = some call'
    rw [Client.setPc_call_ne hne, Client.setPc_call_ne hne]
    exact (List.getElem?_append_left hlt).trans hcall'
  · simp [ClientEvent.senders]

/-- Any number of ids can be drawn. -/
theorem run_draws (n : Nat) : ∃ events t, (machine ipcDebugIo cliUuid).Run s events t ∧
    t.client.seqId = seqIdAfter s.client.seqId n ∧ s.Spared t := by
  -- one call of `uc_ipc_client_try_send` for each id
  induction n with
  | zero =>
      exact ⟨[], s, Machine.Run.nil, rfl, rfl, id, rfl, rfl, rfl, rfl⟩
  | succ n ih =>
      rcases ih with ⟨events, t, hrun, hseqId, hspared⟩
      rcases @run_trySend ipcDebugIo cliUuid t with ⟨events', u, hrun', hseqId', hspared'⟩
      refine ⟨events ++ events', u, hrun.trans hrun', ?_, hspared.trans hspared'⟩
      rw [hseqId', hseqId, seqIdAfter_succ]

/-- A call that draws an id again, for which a late reply is still to come, gets that reply. -/
theorem run_reused {c : Nat} (h : s.client.SyncAt c .entry)
    (hget : s.client.ackHash.get s.client.seqId ≠ none) {reply : Reply}
    (hreply : s.replies[s.received]? = some reply)
    (hisReply : Client.isReply (.frame reply.frame) = true)
    (hack : reply.frame.head.ackId = s.client.seqId) :
    ∃ events t msg, (machine ipcDebugIo cliUuid).Run s events t ∧
      t.client.SyncAt c (.returned 0 (some msg)) ∧ t.sentBy = s.sentBy ++ [c] ∧
        t.returned = s.returned := by
  -- the call goes all the way through `uc_ipc_client_sync_send`
  rcases h.draw with ⟨k₁, henabled₁, hexec₁, hat₁, hsame₁⟩
  rw [← hsame₁] at hget
  rcases hat₁.insert hget with ⟨k₂, henabled₂, hexec₂, hat₂, hget₂⟩
  rcases hat₂.send with ⟨k₃, henabled₃, hexec₃, hat₃, hsame₃⟩
  rw [← hsame₃] at hget₂
  rcases hat₃.wait hget₂ with ⟨k₄, henabled₄, hexec₄, hat₄, hsame₄⟩
  rw [← hsame₄] at hget₂
  have hbound : k₄.ackHash.get s.client.seqId ≠ none := by
    rw [hget₂]
    exact Option.some_ne_none none
  rcases hat₄.receive hisReply hack hbound with ⟨k₅, msg, henabled₅, hexec₅, hat₅, hget₅⟩
  rcases hat₅.resume hget₅ with ⟨k₆, henabled₆, hexec₆, hat₆⟩
  -- the same steps as steps of both sides; the late reply is the next one in the stream
  have hrun₁ := @run_caller ipcDebugIo cliUuid s _ _ rfl henabled₁ hexec₁
  have hrun₂ := hrun₁.trans (run_caller rfl henabled₂ hexec₂)
  have hrun₃ := hrun₂.trans (run_caller rfl henabled₃ hexec₃)
  have hrun₄ := hrun₃.trans (run_caller rfl henabled₄ hexec₄)
  have hrun₅ := hrun₄.trans (run_receive hreply henabled₅ hexec₅)
  have hrun₆ := hrun₅.trans (run_caller rfl henabled₆ hexec₆)
  refine ⟨_, _, msg, hrun₆, hat₆, ?_, rfl⟩
  simp [ClientEvent.senders]

/-- Two calls enter; the first sends its frame and times out, and the server's reply is still in the
stream. -/
def lateReply : List ExchangeEvent :=
  [.client (.call .syncSend ⟨[1], by decide⟩ 1000), .client (.call .syncSend ⟨[2], by decide⟩ 1000),
    .client (.draw 0), .client (.insert 0 (some (nodeAt 16))), .client (.send 0 .written),
    .client (.wait 0), .client (.wake 0 .timedOut), .client (.resume 0), .read true, .rcvAct true,
    .take ⟨[11], by decide⟩, .cbAct true, .cbAct true, .cbAct true, .cbAct true]

/-- Where this leads to. -/
def lateReplyTest (s : Exchange) : Bool :=
  s.client.seqId = 10001 && s.client.ackHash.get 10000 = some none && s.sentBy = [0] &&
    s.returned.map Prod.fst = [0] && s.received = 0 &&
    (s.client.calls[1]?).any (fun call => call.kind = .syncSend && call.pc = .entry) &&
    (s.replies[0]?).any fun r =>
      Client.isReply (.frame r.frame) && r.frame.head.ackId = 10000

/-- When the ids have come round, the second call draws the id of the first and gets its reply. -/
theorem ucIpcClientSyncSend_mismatched :
    ¬ ∀ (events : List ExchangeEvent) (s : Exchange),
      (machine true 1).Run (ofInit 10000 10000) events s → s.Matched := by
  intro hmatched
  have hplay : ((machine true 1).play (ofInit 10000 10000) lateReply).any lateReplyTest = true := by
    decide +kernel
  rcases Machine.exists_run_of_play hplay with ⟨s, hrun, htest⟩
  simp only [lateReplyTest, Bool.and_eq_true, decide_eq_true_eq] at htest
  rcases htest with ⟨⟨⟨⟨⟨⟨hseqId, hget⟩, hsentBy⟩, hreturned⟩, hreceived⟩, hcall⟩, hreply⟩
  rcases (Option.any_eq_true _ _).1 hcall with ⟨call, hcall, hat⟩
  rcases (Option.any_eq_true _ _).1 hreply with ⟨reply, hreply, hisReply⟩
  simp only [Bool.and_eq_true, decide_eq_true_eq] at hat hisReply
  rcases @run_draws true 1 s (seqIdCount - 1) with ⟨events, t, hrun', hseqId', hspared⟩
  -- behind all the other ids the counter is at the first one again
  have hround : t.client.seqId = 10000 := by
    refine UInt64.toNat_inj.1 ?_
    rw [hseqId', hseqId, seqIdAfter_toNat (by decide)]
    decide
  have hentry : t.client.SyncAt 1 .entry := ⟨call, hspared.calls hcall, hat⟩
  have hbound : t.client.ackHash.get t.client.seqId ≠ none := by
    rw [hround, hspared.ackHash, hget]
    exact Option.some_ne_none none
  have hnext : t.replies[t.received]? = some reply := by
    rw [hspared.replies, hspared.received, hreceived]
    exact hreply
  rcases run_reused hentry hbound hnext hisReply.1 (hisReply.2.trans hround.symm) with
    ⟨events', u, msg, hrun'', ⟨call', hcall', hkind, hpc⟩, hsentBy', hreturned'⟩
  -- the callback has only been called for the frame of the first call
  rcases (hmatched _ u ((hrun.trans hrun').trans hrun'')).sync hcall' hkind hpc with
    ⟨msg', request, id, -, hrequest, hret⟩
  rw [hreturned', hspared.returned] at hret
  have hzero : request = 0 := by
    have hmem : request ∈ s.returned.map Prod.fst := List.mem_map.2 ⟨_, hret, rfl⟩
    rw [hreturned] at hmem
    exact List.mem_singleton.1 hmem
  have hsender := hrequest.1
  rw [hsentBy', hspared.sentBy, hsentBy, hzero] at hsender
  cases hsender

end Exchange
end Ipc
end UtilsC
