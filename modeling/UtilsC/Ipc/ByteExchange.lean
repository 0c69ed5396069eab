import UtilsC.Ipc.Exchange
import UtilsC.Ipc.ClientReader

/-!
# Client and server over byte streams

The same parties as in `Exchange`, on the streams as the kernel has them.  A sender holds its lock
(`io_mtx` in the client, `cli_fd_mutex` in the server) for as many calls of `write()` as its frame
takes; the receivers put the messages together from what `read()` gives, whenever it comes.

* `ByteExchange.machine` are the parties up to the client's first reconnect.  What a receiver goes
  by are the bytes it has read.
* `ByteExchange.Agrees` says how far the streams and the receivers have come with the frames.
* `byteExchange_refines`: what the callers and the threads of the server see is a run of
  `Exchange.machine`.
-/

namespace UtilsC
namespace Ipc

open Lib Hash

/-! ## What is about to be written -/

/-- The call that an event is a step of. -/
def ClientEvent.caller : ClientEvent → Option Nat
  | .draw c => some c
  | .insert c _ => some c
  | .send c _ => some c
  | .deleteSeq c => some c
  | .wait c => some c
  | .wake c _ => some c
  | .resume c => some c
  | _ => none

/-- The event needs the stream. -/
def ClientEvent.writes : ClientEvent → Bool
  | .send _ .written => true
  | .send _ .lost => true
  | _ => false

/-- The packet of a call that has come to `uc_ipc_client_send`. -/
def ClientCall.protoPkt (call : ClientCall) : Option Frame :=
  match call.pc with
  | .drawn id =>
      if call.kind.acked then none
      else some (Frame.build call.kind.msgType id ucIpcAckIdNull call.buf)
  | .inserted id =>
      if call.kind.acked then some (Frame.build call.kind.msgType id ucIpcAckIdNull call.buf)
      else none
  | _ => none

/-- The bytes are the packet that `uc_ipc_client_send` fills for the call, in whichever block. -/
def ClientCall.Fills (call : ClientCall) (pkt : List UInt8) : Prop :=
  ∃ id, (call.pc = .drawn id ∨ call.pc = .inserted id) ∧
    ∀ (malloc : Malloc) (block : List UInt8) (view : Nat → UInt8),
      readMem view call.buf.bytes.length = call.buf.bytes →
        malloc.get (headSize + UInt64.ofNat call.buf.bytes.length) = some block →
          ucIpcClientSendPkt malloc true id call.kind.msgType (some view)
            (UInt64.ofNat call.buf.bytes.length) = .filled pkt

/-- The packet of a thread that has come to `uc_ipc_server_send_msg` and has drawn an id. -/
def ServerThread.data (thread : ServerThread) : Option Frame :=
  match thread.acts, thread.seqId with
  | .sendMsg _ ackId msgType buf :: _, some seqId => some (Frame.build msgType seqId ackId buf)
  | _, _ => none

/-- The message that the server's threads hand on. -/
def PipeMsg.ofData (cliUuid : UInt64) (data : PipeData) : Option PipeMsg :=
  let bytes := data.buf.getD []
  if h : data.ipcHead.ttl.toNat = bytes.length ∧ protoHeaderSize + bytes.length < 2 ^ 63 then
    some
      { cliUuid := cliUuid
        frame := { head := data.ipcHead, buf := ⟨bytes, h.2⟩, ttl_eq := h.1 } }
  else
    none

/-- A socket that blocks. -/
def RcvRound.blocks (round : RcvRound) : Bool :=
  (round.head ++ round.body).all fun
    | .eagain => false
    | _ => true

theorem RcvRound.blocks_iff {round : RcvRound} : round.blocks = true ↔ round.Blocks := by
  have heach : ∀ l : List IoReadResult,
      (l.all fun
        | .eagain => false
        | _ => true) = true ↔ .eagain ∉ l := by
    intro l
    rw [List.all_eq_true]
    refine ⟨fun hall hmem => Bool.noConfusion (hall _ hmem), fun hnot e he => ?_⟩
    cases e with
    | eagain => exact absurd he hnot
    | _ => rfl
  rw [RcvRound.blocks, heach, List.mem_append, not_or]
  rfl

/-! ## The parties -/

/-- `upRead` and `downRead` count the bytes read from the two streams; `cli` is what the server
keeps of the connection, until it closes it, and `head` the variable of the client's receive loop.
The writers of the stream to the client are the receive thread, `true`, and the callback thread.
`msgs` are the messages of the requests, in order, without the blocks that could not be had. -/
structure ByteExchange where
  ex : Exchange
  up : SharedStream Nat UInt8
  upRead : Nat
  cli : Option CliProto
  msgs : List (Option PipeMsg)
  down : SharedStream Bool UInt8
  downRead : Nat
  head : List UInt8

inductive ByteEvent
  /-- a step of a caller of the client, but for the writing of its frame -/
  | client (e : ClientEvent)
  | sendLock (c : Nat)
  | sendWrite (c : Nat) (r : WriteResult)
  | sendUnlock (c : Nat)
  /-- the server's receive thread turns to the connection -/
  | readClient (call : ReadCall)
  /-- a step of a thread of the server, but for the writing of its reply -/
  | act (rcv ok : Bool)
  | replyLock (rcv : Bool)
  | replyWrite (rcv : Bool) (r : WriteResult)
  | replyUnlock (rcv : Bool)
  | take (ret : Payload)
  /-- the client's receive thread gets a message -/
  | loopRcv (round : RcvRound) (signalled : Option Nat)

namespace Exchange

/-- The receive thread of the server, or its callback thread. -/
def thread (s : Exchange) : Bool → ServerThread
  | true => s.rcv
  | false => s.cb

def actEvent (rcv ok : Bool) : ExchangeEvent :=
  match rcv with
  | true => .rcvAct ok
  | false => .cbAct ok

end Exchange

namespace ByteExchange

variable (ipcDebugIo : Bool) (cliUuid : UInt64) (s : ByteExchange)

/-- The exchange goes on. -/
def step (e : ExchangeEvent) : Option ByteExchange :=
  ((Exchange.machine ipcDebugIo cliUuid).exec s.ex e).map fun ex => { s with ex := ex }

/-- One call of `write()` in `uc_io_write`.  With the last piece of its frame the caller's
`uc_ipc_client_send` has done what it is for. -/
def sendWrite (c : Nat) : WriteResult → Option ByteExchange
  | .wrote count =>
      (s.up.write count).bind fun up =>
        let t : ByteExchange := { s with up := up }
        if up.ttl = up.buf.length then t.step ipcDebugIo cliUuid (.client (.send c .written))
        else some t
  -- a socket takes something, or there is an error
  | .zero => none
  | .eintr => some s
  | .eagain => some s
  | .error =>
      step ipcDebugIo cliUuid { s with up := s.up.fail } (.client (.send c .lost))

def replyWrite (rcv : Bool) : WriteResult → Option ByteExchange
  | .wrote count =>
      (s.down.write count).bind fun down =>
        let t : ByteExchange := { s with down := down }
        if down.ttl = down.buf.length then t.step ipcDebugIo cliUuid (Exchange.actEvent rcv true)
        else some t
  | .zero => none
  | .eintr => some s
  | .eagain => some s
  | .error => step ipcDebugIo cliUuid { s with down := s.down.fail } (Exchange.actEvent rcv false)

/-- The server has read a message; without memory for it the request is dropped. -/
def handle (cli : CliProto) (msg : Option PipeMsg) : ByteExchange :=
  let acts := msg.elim [] (ucIpcServerHandleClientMsg ipcDebugIo)
  { s with
    cli := some cli
    msgs := s.msgs ++ [msg]
    ex :=
      { s.ex with
        read := s.ex.read + 1
        rcv := { request := s.ex.read, acts := acts, seqId := none } } }

/-- A turn of `uc_ipc_server_loop_rcv`. -/
def readClient (call : ReadCall) : Option ByteExchange :=
  let s' : ByteExchange := { s with upRead := s.upRead + call.bytes.length }
  s.cli.bind fun cli =>
    (cli.ucIpcServerReadClient call.reads).bind fun r =>
      match r with
      | (_, none) => some { s' with cli := none }
      | (ret, some cli') =>
          if 0 < ret then
            match cli'.handOver call.malloc with
            | (_, none, cli'') => some (s'.handle ipcDebugIo cli'' none)
            | (_, some data, cli'') =>
                (PipeMsg.ofData cliUuid data).map fun msg => s'.handle ipcDebugIo cli'' (some msg)
          else
            some { s' with cli := some cli' }

def exec : ByteEvent → Option ByteExchange
  | .client e => s.step ipcDebugIo cliUuid (.client e)
  | .sendLock c =>
      (s.ex.client.calls[c]?).bind fun call =>
        call.protoPkt.bind fun f =>
          (s.up.lock c f.encode).map fun up => { s with up := up }
  | .sendWrite c r => s.sendWrite ipcDebugIo cliUuid c r
  | .sendUnlock _ => s.up.unlock.map fun up => { s with up := up }
  | .readClient call => s.readClient ipcDebugIo cliUuid call
  | .act rcv ok => s.step ipcDebugIo cliUuid (Exchange.actEvent rcv ok)
  | .replyLock rcv =>
      (s.ex.thread rcv).data.bind fun f =>
        (s.down.lock rcv f.encode).map fun down => { s with down := down }
  | .replyWrite rcv r => s.replyWrite ipcDebugIo cliUuid rcv r
  | .replyUnlock _ => s.down.unlock.map fun down => { s with down := down }
  | .take ret =>
      match s.ex.pipe with
      | [] => none
      | request :: pipe =>
          (s.msgs[request]?).join.map fun msg =>
            { s with
              ex :=
                { s.ex with
                  pipe := pipe
                  cb :=
                    { request := request, acts := ucIpcServerLoopCallback msg ret, seqId := none }
                  ret := ret } }
  | .loopRcv round signalled =>
      (ucIpcClientLoopRcvRound s.head round).bind fun r =>
        match r.1.arrival, r.1.reconnect with
        | .frame f, none =>
            (s.ex.client.exec (.receive (.frame f) signalled)).map fun client =>
              { s with
                ex := { s.ex with client := client, received := s.ex.received + 1 }
                downRead := s.downRead + round.bytes.length
                head := r.2 }
        -- the rounds that end in a reconnect end the exchange
        | _, _ => none

/-- The next bytes of a stream. -/
def isNext (stream : List UInt8) (read : Nat) (bytes : List UInt8) : Bool :=
  bytes.isPrefixOf (stream.drop read)

/-- A thread that holds its lock is in `uc_io_write` until it gives it back. -/
def enabled : ByteEvent → Bool
  | .client e =>
      Exchange.isCaller e && s.ex.client.enabled e && !e.writes &&
        (e.caller.isNone || s.up.holder ≠ e.caller)
  | .sendLock _ => true
  | .sendWrite c _ => s.up.holder = some c && s.up.ttl < s.up.buf.length
  | .sendUnlock c => s.up.holder = some c
  | .readClient call =>
      s.ex.rcv.acts.isEmpty && s.down.holder ≠ some true && isNext s.up.stream s.upRead call.bytes
  | .act rcv ok =>
      !(s.ex.thread rcv).acts.isEmpty && s.down.holder ≠ some rcv &&
        -- a send may fail before its first write, but it takes the lock to succeed
        ((s.ex.thread rcv).data.isNone || !ok)
  | .replyLock _ => true
  | .replyWrite rcv _ => s.down.holder = some rcv && s.down.ttl < s.down.buf.length
  | .replyUnlock rcv => s.down.holder = some rcv
  | .take _ => s.ex.cb.acts.isEmpty && s.down.holder ≠ some false && !s.ex.pipe.isEmpty
  | .loopRcv round signalled =>
      round.blocks && isNext s.down.stream s.downRead round.bytes &&
        (ucIpcClientLoopRcvRound s.head round).any fun r =>
          s.ex.client.enabled (.receive r.1.arrival signalled)

def machine : Machine ByteExchange ByteEvent :=
  { enabled := enabled, exec := exec ipcDebugIo cliUuid }

/-- A client and the server that has accepted it. -/
def ofConnect (seqId serverSeqId : UInt64) (head : List UInt8) : ByteExchange where
  ex := Exchange.ofInit seqId serverSeqId
  up := SharedStream.ofOpen
  upRead := 0
  cli := some ucIpcServerResetCliProto
  msgs := []
  down := SharedStream.ofOpen
  downRead := 0
  head := head

end ByteExchange

/-! ## What a step leaves of a packet -/

section Packets

variable {call : ClientCall} {f : Frame}

theorem ClientCall.protoPkt_pc (h : call.protoPkt = some f) :
    ∃ id, ((call.pc = .drawn id ∧ call.kind.acked = false) ∨
      (call.pc = .inserted id ∧ call.kind.acked = true)) ∧
        f = Frame.build call.kind.msgType id ucIpcAckIdNull call.buf := by
  unfold ClientCall.protoPkt at h
  split at h
  · rename_i id hpc
    split at h
    · cases h
    · rename_i hkind
      exact ⟨id, Or.inl ⟨hpc, Bool.not_eq_true _ ▸ hkind⟩, (Option.some.inj h).symm⟩
  · rename_i id hpc
    split at h
    · rename_i hkind
      exact ⟨id, Or.inr ⟨hpc, hkind⟩, (Option.some.inj h).symm⟩
    · cases h
  · cases h

theorem ClientCall.fills_of_protoPkt (h : call.protoPkt = some f) : call.Fills f.encode := by
  rcases ClientCall.protoPkt_pc h with ⟨id, hpc, rfl⟩
  refine ⟨id, hpc.imp And.left And.left, fun malloc block view hview hblock => ?_⟩
  exact ucIpcClientSendPkt_filled call.buf hview hblock

/-- A call with a packet may send it. -/
theorem ClientCall.protoPkt_enabled (h : call.protoPkt = some f) (c : Nat) (outcome : SendOutcome) :
    Client.enabledCall call (.send c outcome) = true := by
  rcases ClientCall.protoPkt_pc h with ⟨id, ⟨hpc, hkind⟩ | ⟨hpc, hkind⟩, -⟩
  · simp [Client.enabledCall, hpc, hkind]
  · simp [Client.enabledCall, hpc, hkind]

namespace Client

variable {s t : Client} {c : Nat}

theorem exec_send_outbox (hcall : s.calls[c]? = some call) (hpkt : call.protoPkt = some f)
    {outcome : SendOutcome} (hexec : s.exec (.send c outcome) = some t) :
    t.outbox = s.outbox ++ (if outcome = .written then [f] else []) := by
  rcases ClientCall.protoPkt_pc hpkt with ⟨id, hpc, rfl⟩
  have hsent : (s.ucIpcClientSend outcome id call.kind.msgType call.buf).2.outbox =
      s.outbox ++ (if outcome = .written then
        [Frame.build call.kind.msgType id ucIpcAckIdNull call.buf] else []) := by
    cases outcome <;> simp [ucIpcClientSend]
  simp only [exec, hcall, Option.bind_some, execCall] at hexec
  rcases hpc with ⟨hpc, -⟩ | ⟨hpc, -⟩
  · rw [hpc] at hexec
    cases hexec
    exact hsent
  · rw [hpc] at hexec
    cases hexec
    exact hsent

theorem CallStep.caller {e : ClientEvent} {pc : CallPc} (h : s.CallStep c call e t pc) :
    e.caller = some c := by
  have hloop : ∀ {id : UInt64} {node : Nat}, s.InLoop c call e id node → e.caller = some c := by
    rintro id node (⟨rfl, -, -⟩ | ⟨rfl, -, -⟩)
    · rfl
    · rfl
  cases h with
  | sleep hget hnode hpc =>
      rcases hpc with hpc | ⟨rfl, -⟩
      · exact hloop hpc
      · rfl
  | take hget hpc hkind => exact hloop hpc
  | takeAsync hget hpc hkind => exact hloop hpc
  | _ => rfl

/-- The steps of the others leave a packet as it is. -/
theorem Step.protoPkt_kept {e : ClientEvent} (h : s.Step e t) (hother : e.caller ≠ some c)
    (hcall : s.calls[c]? = some call) (hpkt : call.protoPkt = some f) :
    ∃ call', t.calls[c]? = some call' ∧ call'.protoPkt = some f := by
  -- a call that is about to send does not sleep
  have hsignal : ∀ (u : Client) (signalled : Option Nat) (call : ClientCall),
      u.calls[c]? = some call → call.protoPkt = some f →
        ∃ call', (u.signal signalled).calls[c]? = some call' ∧ call'.protoPkt = some f := by
    intro u signalled call hcall hpkt
    have hawake : signalPc signalled c call.pc = call.pc := by
      rcases ClientCall.protoPkt_pc hpkt with ⟨id, ⟨hpc, -⟩ | ⟨hpc, -⟩, -⟩
      · rw [hpc, signalPc]
        split <;> rfl
      · rw [hpc, signalPc]
        split <;> rfl
    refine ⟨call, ?_, hpkt⟩
    rw [signal_calls, hcall, Option.map_some, hawake]
  cases h with
  | call =>
      have hlt : c < s.calls.length := (List.getElem?_eq_some_iff.1 hcall).1
      exact ⟨call, (List.getElem?_append_left hlt).trans hcall, hpkt⟩
  | reseed => exact ⟨call, hcall, hpkt⟩
  | receive hrcv =>
      cases hrcv with
      | quiet => exact ⟨call, hcall, hpkt⟩
      | late hget => exact hsignal _ _ call hcall hpkt
      | @store f' msg hreply hmsg hget =>
          let stored : ClientCall :=
            if call.pc.insertedId = some f'.head.ackId then
              { call with stored := call.stored ++ [msg] }
            else call
          refine hsignal _ _ stored ?_ ?_
          · rw [store_calls]
            have hcall' : ({ s with blocks := s.blocks + 1 } : Client).calls[c]? = some call :=
              hcall
            rw [hcall', Option.map_some]
          · dsimp only [stored]
            split <;> exact hpkt
  | @caller c' call' e u pc hcall' hstep =>
      have hne : c ≠ c' := fun heq => hother (heq ▸ hstep.caller)
      refine ⟨call, ?_, hpkt⟩
      rw [setPc_call_ne hne, hstep.calls_eq]
      exact hcall

end Client

end Packets

namespace Exchange

variable {ipcDebugIo : Bool} {cliUuid : UInt64} {s t : Exchange}

/-- What a step of a thread leaves as it was, and what it does to the stream. -/
structure ActFrame (s : Exchange) (rcv ok : Bool) (t : Exchange) : Prop where
  client : t.client = s.client
  read : t.read = s.read
  received : t.received = s.received
  other : t.thread (!rcv) = s.thread (!rcv)
  silent : (s.thread rcv).data = none ∨ ok = false → t.replies = s.replies
  sent : ∀ {f : Frame}, (s.thread rcv).data = some f → ok = true →
    t.replies.map Reply.frame = s.replies.map Reply.frame ++ [f]

theorem act_frame {thread thread' : ServerThread} {ok : Bool}
    (h : s.act thread ok = some (t, thread')) :
    (t.client = s.client ∧ t.read = s.read ∧ t.received = s.received ∧ t.rcv = s.rcv ∧
      t.cb = s.cb) ∧
    (thread.data = none ∨ ok = false → t.replies = s.replies) ∧
    ∀ {f : Frame}, thread.data = some f → ok = true →
      t.replies.map Reply.frame = s.replies.map Reply.frame ++ [f] := by
  unfold act at h
  split at h
  · cases h
  · rename_i uuid ackId msgType buf acts hacts
    split at h
    · rename_i hseq
      cases h
      refine ⟨⟨rfl, rfl, rfl, rfl, rfl⟩, fun _ => rfl, fun hdata => ?_⟩
      simp [ServerThread.data, hacts, hseq] at hdata
    · rename_i seqId hseq
      cases h
      have hdata : thread.data = some (Frame.build msgType seqId ackId buf) := by
        simp [ServerThread.data, hacts, hseq]
      refine ⟨⟨rfl, rfl, rfl, rfl, rfl⟩, ?_, ?_⟩
      · rintro (hnone | hfails)
        · rw [hdata] at hnone
          cases hnone
        · simp [hfails]
      · intro f hf hok
        rw [hdata] at hf
        cases hf
        simp [hok]
  · rename_i hacts
    cases h
    refine ⟨⟨rfl, rfl, rfl, rfl, rfl⟩, fun _ => rfl, fun hdata => ?_⟩
    simp [ServerThread.data, hacts] at hdata
  · rename_i hacts
    cases h
    refine ⟨⟨rfl, rfl, rfl, rfl, rfl⟩, fun _ => rfl, fun hdata => ?_⟩
    simp [ServerThread.data, hacts] at hdata
  · rename_i hacts
    cases h
    refine ⟨⟨rfl, rfl, rfl, rfl, rfl⟩, fun _ => rfl, fun hdata => ?_⟩
    simp [ServerThread.data, hacts] at hdata

theorem exec_actEvent {rcv ok : Bool}
    (h : (machine ipcDebugIo cliUuid).exec s (actEvent rcv ok) = some t) :
    s.ActFrame rcv ok t := by
  cases rcv with
  | true =>
      rcases Option.map_eq_some_iff.1 h with ⟨⟨u, thread⟩, hact, rfl⟩
      rcases act_frame hact with ⟨⟨hclient, hread, hreceived, -, hcb⟩, hsilent, hsent⟩
      exact ⟨hclient, hread, hreceived, hcb, hsilent, hsent⟩
  | false =>
      rcases Option.map_eq_some_iff.1 h with ⟨⟨u, thread⟩, hact, rfl⟩
      rcases act_frame hact with ⟨⟨hclient, hread, hreceived, hrcv, -⟩, hsilent, hsent⟩
      exact ⟨hclient, hread, hreceived, hrcv, hsilent, hsent⟩

theorem enabled_actEvent {rcv : Bool} (ok : Bool) (h : (s.thread rcv).acts ≠ []) :
    (machine ipcDebugIo cliUuid).enabled s (actEvent rcv ok) = true := by
  cases rcv with
  | true =>
      have hbusy : s.rcv.acts ≠ [] := h
      simp [machine, enabled, actEvent, hbusy]
  | false =>
      have hbusy : s.cb.acts ≠ [] := h
      simp [machine, enabled, actEvent, hbusy]

end Exchange

namespace ByteExchange

variable (ipcDebugIo : Bool) (cliUuid : UInt64)

/-! ## How far the streams have come -/

/-- The stream to the server carries the frames of the client, and the server has found as many of
them as it has read. -/
structure UpAgrees (s : ByteExchange) : Prop where
  carries : s.up.Carries Whole (s.ex.client.outbox.map Frame.encode)
  idle : s.up.holder = none → s.up.ttl = s.up.buf.length
  sending : ∀ {c : Nat}, s.up.holder = some c → s.up.ttl < s.up.buf.length →
    ∃ call f, s.ex.client.calls[c]? = some call ∧ call.protoPkt = some f ∧ s.up.buf = f.encode
  upRead_le : s.upRead ≤ s.up.stream.length
  found : ∃ (words : List (List UInt8)) (p : List UInt8), (∀ w ∈ words, Whole w) ∧
    words.flatten ++ p = s.up.stream.take s.upRead ∧ words.length = s.ex.read ∧
      ∀ cli, s.cli = some cli → cli.Holds p
  msgs_length : s.msgs.length = s.ex.read
  msgs : ∀ {request : Nat} {msg : PipeMsg}, s.msgs[request]? = some (some msg) →
    s.ex.message cliUuid request = some msg

/-- The same of the stream to the client; its receive thread reads whole messages. -/
structure DownAgrees (s : ByteExchange) : Prop where
  carries : s.down.Carries Whole (s.ex.replies.map fun r => r.frame.encode)
  idle : s.down.holder = none → s.down.ttl = s.down.buf.length
  replying : ∀ {rcv : Bool}, s.down.holder = some rcv → s.down.ttl < s.down.buf.length →
    ∃ f, (s.ex.thread rcv).data = some f ∧ s.down.buf = f.encode
  downRead_le : s.downRead ≤ s.down.stream.length
  found : ∃ words : List (List UInt8), (∀ w ∈ words, Whole w) ∧
    words.flatten = s.down.stream.take s.downRead ∧ words.length = s.ex.received
  head : s.head.length = protoHeaderSize

structure Agrees (s : ByteExchange) : Prop where
  up : s.UpAgrees cliUuid
  down : s.DownAgrees

/-- The step keeps the agreement, and the frames see a step of the exchange or none. -/
def Follows (s t : ByteExchange) : Prop :=
  t.Agrees cliUuid ∧ (t.ex = s.ex ∨ ∃ e,
    (Exchange.machine ipcDebugIo cliUuid).enabled s.ex e = true ∧
      (Exchange.machine ipcDebugIo cliUuid).exec s.ex e = some t.ex)

variable {ipcDebugIo} {cliUuid} {s t : ByteExchange}

theorem ofConnect_agrees (seqId serverSeqId : UInt64) {head : List UInt8}
    (hhead : head.length = protoHeaderSize) :
    (ofConnect seqId serverSeqId head).Agrees cliUuid where
  up :=
    { carries := SharedStream.ofOpen_carries
      idle := fun _ => rfl
      sending := fun h _ => by cases h
      upRead_le := Nat.le_refl 0
      found := by
        refine ⟨[], [], by simp, rfl, rfl, ?_⟩
        rintro cli heq
        cases heq
        exact CliProto.reset_holds
      msgs_length := rfl
      msgs := fun h => by cases h }
  down :=
    { carries := SharedStream.ofOpen_carries
      idle := fun _ => rfl
      replying := fun h _ => by cases h
      downRead_le := Nat.le_refl 0
      found := ⟨[], by simp, rfl, rfl⟩
      head := hhead }

/-- Only the writer and the reader of a stream can upset the agreement. -/
theorem UpAgrees.of_same (h : s.UpAgrees cliUuid) (hup : t.up = s.up)
    (hupRead : t.upRead = s.upRead) (hcli : t.cli = s.cli) (hmsgs : t.msgs = s.msgs)
    (houtbox : t.ex.client.outbox = s.ex.client.outbox) (hread : t.ex.read = s.ex.read)
    (hsending : ∀ {c : Nat} {call : ClientCall} {f : Frame}, s.up.holder = some c →
      s.ex.client.calls[c]? = some call → call.protoPkt = some f →
        ∃ call', t.ex.client.calls[c]? = some call' ∧ call'.protoPkt = some f) :
    t.UpAgrees cliUuid where
  carries := by
    rw [hup, houtbox]
    exact h.carries
  idle := by
    rw [hup]
    exact h.idle
  sending := by
    rw [hup]
    intro c hholder hlt
    rcases h.sending hholder hlt with ⟨call, f, hcall, hpkt, hbuf⟩
    rcases hsending hholder hcall hpkt with ⟨call', hcall', hpkt'⟩
    exact ⟨call', f, hcall', hpkt', hbuf⟩
  upRead_le := by
    rw [hup, hupRead]
    exact h.upRead_le
  found := by
    rw [hup, hupRead, hread, hcli]
    exact h.found
  msgs_length := by
    rw [hmsgs, hread]
    exact h.msgs_length
  msgs := by
    rw [hmsgs]
    intro request msg hmsg
    rw [Exchange.message, houtbox]
    exact h.msgs hmsg

theorem DownAgrees.of_same (h : s.DownAgrees) (hdown : t.down = s.down)
    (hdownRead : t.downRead = s.downRead) (hhead : t.head = s.head)
    (hreplies : t.ex.replies = s.ex.replies) (hreceived : t.ex.received = s.ex.received)
    (hthread : ∀ {rcv : Bool}, s.down.holder = some rcv →
      t.ex.thread rcv = s.ex.thread rcv) : t.DownAgrees where
  carries := by
    rw [hdown, hreplies]
    exact h.carries
  idle := by
    rw [hdown]
    exact h.idle
  replying := by
    rw [hdown]
    intro rcv hholder hlt
    rw [hthread hholder]
    exact h.replying hholder hlt
  downRead_le := by
    rw [hdown, hdownRead]
    exact h.downRead_le
  found := by
    rw [hdown, hdownRead, hreceived]
    exact h.found
  head := by
    rw [hhead]
    exact h.head

/-- The stream goes on behind what the server has read. -/
theorem UpAgrees.of_grow (h : s.UpAgrees cliUuid)
    (hcarries : t.up.Carries Whole (t.ex.client.outbox.map Frame.encode))
    (hidle : t.up.holder = none → t.up.ttl = t.up.buf.length)
    (hsending : ∀ {c : Nat}, t.up.holder = some c → t.up.ttl < t.up.buf.length →
      ∃ call f, t.ex.client.calls[c]? = some call ∧ call.protoPkt = some f ∧
        t.up.buf = f.encode)
    (hstream : s.up.stream <+: t.up.stream) (hupRead : t.upRead = s.upRead)
    (hcli : t.cli = s.cli) (hmsgs : t.msgs = s.msgs)
    (houtbox : s.ex.client.outbox <+: t.ex.client.outbox) (hread : t.ex.read = s.ex.read) :
    t.UpAgrees cliUuid where
  carries := hcarries
  idle := hidle
  sending := hsending
  upRead_le := by
    rw [hupRead]
    exact h.upRead_le.trans hstream.length_le
  found := by
    rw [hupRead, hread, hcli, take_eq_of_prefix hstream h.upRead_le]
    exact h.found
  msgs_length := by
    rw [hmsgs, hread]
    exact h.msgs_length
  msgs := by
    rw [hmsgs]
    intro request msg hmsg
    rcases Option.map_eq_some_iff.1 (h.msgs hmsg) with ⟨f, hf, rfl⟩
    rcases houtbox with ⟨more, hmore⟩
    have hlt : request < s.ex.client.outbox.length := (List.getElem?_eq_some_iff.1 hf).1
    rw [Exchange.message, ← hmore, List.getElem?_append_left hlt, hf]
    rfl

theorem DownAgrees.of_grow (h : s.DownAgrees)
    (hcarries : t.down.Carries Whole (t.ex.replies.map fun r => r.frame.encode))
    (hidle : t.down.holder = none → t.down.ttl = t.down.buf.length)
    (hreplying : ∀ {rcv : Bool}, t.down.holder = some rcv → t.down.ttl < t.down.buf.length →
      ∃ f, (t.ex.thread rcv).data = some f ∧ t.down.buf = f.encode)
    (hstream : s.down.stream <+: t.down.stream) (hdownRead : t.downRead = s.downRead)
    (hhead : t.head = s.head) (hreceived : t.ex.received = s.ex.received) : t.DownAgrees where
  carries := hcarries
  idle := hidle
  replying := hreplying
  downRead_le := by
    rw [hdownRead]
    exact h.downRead_le.trans hstream.length_le
  found := by
    rw [hdownRead, hreceived, take_eq_of_prefix hstream h.downRead_le]
    exact h.found
  head := by
    rw [hhead]
    exact h.head

/-! ## Callers -/

theorem step_eq {e : ExchangeEvent} (h : s.step ipcDebugIo cliUuid e = some t) :
    (Exchange.machine ipcDebugIo cliUuid).exec s.ex e = some t.ex ∧ t = { s with ex := t.ex } := by
  rcases Option.map_eq_some_iff.1 h with ⟨ex, hexec, rfl⟩
  exact ⟨hexec, rfl⟩

/-- What a step of a caller leaves of the exchange. -/
theorem exec_client {ex ex' : Exchange} {e : ClientEvent}
    (h : (Exchange.machine ipcDebugIo cliUuid).exec ex (.client e) = some ex') :
    ex.client.exec e = some ex'.client ∧ ex'.read = ex.read ∧ ex'.received = ex.received ∧
      ex'.replies = ex.replies ∧ ∀ rcv, ex'.thread rcv = ex.thread rcv := by
  rcases Option.map_eq_some_iff.1 h with ⟨client, hexec, rfl⟩
  refine ⟨hexec, rfl, rfl, rfl, fun rcv => ?_⟩
  cases rcv <;> rfl

theorem follows_client (hA : s.Agrees cliUuid) {e : ClientEvent}
    (henabled : s.enabled (.client e) = true)
    (hexec : s.exec ipcDebugIo cliUuid (.client e) = some t) : s.Follows ipcDebugIo cliUuid t := by
  simp only [enabled, Bool.and_eq_true, Bool.or_eq_true, Bool.not_eq_true',
    decide_eq_true_eq] at henabled
  rcases henabled with ⟨⟨⟨hcaller, hclient⟩, hwrites⟩, hholder⟩
  rcases step_eq hexec with ⟨hex, ht⟩
  rcases exec_client hex with ⟨hexec', hread, hreceived, hreplies, hthread⟩
  have hstep := Client.step_of_exec hclient hexec'
  have houtbox : t.ex.client.outbox = s.ex.client.outbox := by
    rcases hstep.outbox with ⟨-, hsame⟩ | ⟨c, call, id, hsenders, -, -, -⟩
    · exact hsame
    · -- only a send that writes its frame has a sender
      cases e with
      | send c' outcome => cases outcome <;> simp [ClientEvent.senders, ClientEvent.writes] at *
      | _ => cases hsenders
  have hsame : (Exchange.machine ipcDebugIo cliUuid).enabled s.ex (.client e) = true :=
    (Bool.and_eq_true _ _).mpr ⟨hcaller, hclient⟩
  refine ⟨⟨hA.up.of_same (by rw [ht]) (by rw [ht]) (by rw [ht]) (by rw [ht]) houtbox hread ?_,
    hA.down.of_same (by rw [ht]) (by rw [ht]) (by rw [ht]) hreplies hreceived
      fun _ => hthread _⟩, Or.inr ⟨_, hsame, hex⟩⟩
  intro c call f hc hcall hpkt
  refine hstep.protoPkt_kept ?_ hcall hpkt
  intro heq
  rcases hholder with hnone | hne
  · rw [heq] at hnone
    cases hnone
  · exact hne (hc.trans heq.symm)

theorem follows_sendLock (hA : s.Agrees cliUuid) {c : Nat}
    (hexec : s.exec ipcDebugIo cliUuid (.sendLock c) = some t) :
    s.Follows ipcDebugIo cliUuid t := by
  rcases Option.bind_eq_some_iff.1 hexec with ⟨call, hcall, hexec'⟩
  rcases Option.bind_eq_some_iff.1 hexec' with ⟨f, hpkt, hexec''⟩
  rcases Option.map_eq_some_iff.1 hexec'' with ⟨up, hlock, rfl⟩
  rcases SharedStream.lock_eq hlock with ⟨hfree, hholder, hbuf, hstream⟩
  have hcarries := hA.up.carries.lock whole_prefixFree (hA.up.idle hfree) f.whole hlock
  refine ⟨⟨hA.up.of_grow hcarries ?_ ?_ ?_ rfl rfl rfl List.prefix_rfl rfl,
    hA.down.of_same rfl rfl rfl rfl rfl fun _ => rfl⟩, Or.inl rfl⟩
  · intro hnone
    cases hholder.symm.trans hnone
  · intro c' hholder' _
    cases hholder.symm.trans hholder'
    exact ⟨call, f, hcall, hpkt, hbuf⟩
  · show s.up.stream <+: up.stream
    rw [hstream]

theorem follows_sendWrite (hA : s.Agrees cliUuid) {c : Nat} {r : WriteResult}
    (henabled : s.enabled (.sendWrite c r) = true)
    (hexec : s.exec ipcDebugIo cliUuid (.sendWrite c r) = some t) :
    s.Follows ipcDebugIo cliUuid t := by
  simp only [enabled, Bool.and_eq_true, decide_eq_true_eq] at henabled
  rcases henabled with ⟨hholder, hlt⟩
  rcases hA.up.sending hholder hlt with ⟨call, f, hcall, hpkt, hbuf⟩
  -- the caller may go on with its send, however that ends
  have hsend : ∀ outcome, (Exchange.machine ipcDebugIo cliUuid).enabled s.ex
      (.client (.send c outcome)) = true := by
    intro outcome
    refine (Bool.and_eq_true _ _).mpr ⟨rfl, ?_⟩
    show (s.ex.client.calls[c]?).any _ = true
    rw [hcall]
    exact call.protoPkt_enabled hpkt c outcome
  cases r with
  | wrote count =>
      rcases Option.bind_eq_some_iff.1 hexec with ⟨up, hwrite, hexec'⟩
      rcases SharedStream.write_eq hwrite with ⟨hholder', hbuf', hstream, hle⟩
      dsimp only at hexec'
      split at hexec'
      · rename_i hlast
        rcases step_eq hexec' with ⟨hex, ht⟩
        rcases exec_client hex with ⟨hexec'', hread, hreceived, hreplies, hthread⟩
        have houtbox := Client.exec_send_outbox hcall hpkt hexec''
        rw [if_pos rfl] at houtbox
        have hcarries := hA.up.carries.write_last hwrite hlast
        rw [hbuf] at hcarries
        refine ⟨⟨hA.up.of_grow ?_ (fun _ => ?_) ?_ ?_ (by rw [ht]) (by rw [ht]) (by rw [ht]) ?_
          hread, hA.down.of_same (by rw [ht]) (by rw [ht]) (by rw [ht]) hreplies hreceived
            fun _ => hthread _⟩, Or.inr ⟨_, hsend .written, hex⟩⟩
        · rw [ht, houtbox, List.map_append]
          exact hcarries
        · rw [ht]
          exact hlast
        · rw [ht]
          exact fun _ hpart => absurd hlast (Nat.ne_of_lt hpart)
        · rw [ht]
          exact hstream
        · rw [houtbox]
          exact List.prefix_append _ _
      · rename_i hnot
        cases hexec'
        have hpart : up.ttl < up.buf.length := Nat.lt_of_le_of_ne hle hnot
        refine ⟨⟨hA.up.of_grow (hA.up.carries.write_part hwrite hpart) ?_ ?_ hstream rfl rfl rfl
          List.prefix_rfl rfl, hA.down.of_same rfl rfl rfl rfl rfl fun _ => rfl⟩, Or.inl rfl⟩
        · intro hnone
          cases hholder.symm.trans (hholder'.symm.trans hnone)
        · intro c' hc' _
          cases hholder.symm.trans (hholder'.symm.trans hc')
          exact ⟨call, f, hcall, hpkt, hbuf'.trans hbuf⟩
  | zero => cases hexec
  | eintr =>
      cases hexec
      exact ⟨hA, Or.inl rfl⟩
  | eagain =>
      cases hexec
      exact ⟨hA, Or.inl rfl⟩
  | error =>
      rcases step_eq hexec with ⟨hex, ht⟩
      rcases exec_client hex with ⟨hexec'', hread, hreceived, hreplies, hthread⟩
      have houtbox := Client.exec_send_outbox hcall hpkt hexec''
      rw [if_neg (by decide), List.append_nil] at houtbox
      have hend : t.up.ttl = t.up.buf.length := by
        rw [ht]
        rfl
      refine ⟨⟨hA.up.of_grow ?_ (fun _ => hend) (fun _ hpart => absurd hend (Nat.ne_of_lt hpart)) ?_
        (by rw [ht]) (by rw [ht]) (by rw [ht]) ?_ hread,
          hA.down.of_same (by rw [ht]) (by rw [ht]) (by rw [ht]) hreplies hreceived
            fun _ => hthread _⟩, Or.inr ⟨_, hsend .lost, hex⟩⟩
      · rw [ht, houtbox]
        exact hA.up.carries.fail whole_prefixFree
      · rw [ht]
        exact List.prefix_rfl
      · rw [houtbox]

theorem follows_sendUnlock (hA : s.Agrees cliUuid) (c : Nat)
    (hexec : s.exec ipcDebugIo cliUuid (.sendUnlock c) = some t) :
    s.Follows ipcDebugIo cliUuid t := by
  rcases Option.map_eq_some_iff.1 hexec with ⟨up, hunlock, rfl⟩
  rcases SharedStream.unlock_eq hunlock with ⟨-, hstream, hend⟩
  refine ⟨⟨hA.up.of_grow (hA.up.carries.unlock hunlock) (fun _ => hend)
    (fun _ hpart => absurd hend (Nat.ne_of_lt hpart)) ?_ rfl rfl rfl List.prefix_rfl rfl,
      hA.down.of_same rfl rfl rfl rfl rfl fun _ => rfl⟩, Or.inl rfl⟩
  show s.up.stream <+: up.stream
  rw [hstream]

/-! ## The threads of the server -/

/-- A step of a thread leaves the other side of the connection and the other thread. -/
theorem follows_step {rcv ok : Bool} (hA : s.Agrees cliUuid) {down : SharedStream Bool UInt8}
    (hex : (Exchange.machine ipcDebugIo cliUuid).exec s.ex (Exchange.actEvent rcv ok) = some t.ex)
    (hbusy : (s.ex.thread rcv).acts ≠ []) (ht : t = { s with down := down, ex := t.ex })
    (hdown : t.DownAgrees) : s.Follows ipcDebugIo cliUuid t := by
  have hframe := Exchange.exec_actEvent hex
  refine ⟨⟨hA.up.of_same (by rw [ht]) (by rw [ht]) (by rw [ht]) (by rw [ht]) ?_ hframe.read ?_,
    hdown⟩, Or.inr ⟨_, Exchange.enabled_actEvent ok hbusy, hex⟩⟩
  · rw [hframe.client]
  · intro c call f _ hcall hpkt
    rw [hframe.client]
    exact ⟨call, hcall, hpkt⟩

theorem follows_act (hA : s.Agrees cliUuid) {rcv ok : Bool}
    (henabled : s.enabled (.act rcv ok) = true)
    (hexec : s.exec ipcDebugIo cliUuid (.act rcv ok) = some t) :
    s.Follows ipcDebugIo cliUuid t := by
  simp only [enabled, Bool.and_eq_true, Bool.or_eq_true, Bool.not_eq_true', decide_eq_true_eq,
    List.isEmpty_eq_false_iff, Option.isNone_iff_eq_none] at henabled
  rcases henabled with ⟨⟨hbusy, hholder⟩, hsilent⟩
  rcases step_eq hexec with ⟨hex, ht⟩
  have hframe := Exchange.exec_actEvent hex
  refine follows_step hA hex hbusy ht (hA.down.of_same (by rw [ht]) (by rw [ht]) (by rw [ht])
    (hframe.silent hsilent) hframe.received ?_)
  intro rcv' hrcv'
  -- the holder of the lock is the other thread
  have hother : rcv' = !rcv := Bool.eq_not_iff.2 fun heq => hholder (heq ▸ hrcv')
  rw [hother]
  exact hframe.other

theorem follows_replyLock (hA : s.Agrees cliUuid) {rcv : Bool}
    (hexec : s.exec ipcDebugIo cliUuid (.replyLock rcv) = some t) :
    s.Follows ipcDebugIo cliUuid t := by
  rcases Option.bind_eq_some_iff.1 hexec with ⟨f, hdata, hexec'⟩
  rcases Option.map_eq_some_iff.1 hexec' with ⟨down, hlock, rfl⟩
  rcases SharedStream.lock_eq hlock with ⟨hfree, hholder, hbuf, hstream⟩
  have hcarries := hA.down.carries.lock whole_prefixFree (hA.down.idle hfree) f.whole hlock
  refine ⟨⟨hA.up.of_same rfl rfl rfl rfl rfl rfl fun _ hcall hpkt => ⟨_, hcall, hpkt⟩,
    hA.down.of_grow hcarries ?_ ?_ ?_ rfl rfl rfl⟩, Or.inl rfl⟩
  · intro hnone
    cases hholder.symm.trans hnone
  · intro rcv' hholder' _
    cases hholder.symm.trans hholder'
    exact ⟨f, hdata, hbuf⟩
  · show s.down.stream <+: down.stream
    rw [hstream]

/-- A thread with a packet has not finished. -/
theorem data_busy {thread : ServerThread} {f : Frame} (h : thread.data = some f) :
    thread.acts ≠ [] := by
  intro hnil
  simp [ServerThread.data, hnil] at h

theorem follows_replyWrite (hA : s.Agrees cliUuid) {rcv : Bool} {r : WriteResult}
    (henabled : s.enabled (.replyWrite rcv r) = true)
    (hexec : s.exec ipcDebugIo cliUuid (.replyWrite rcv r) = some t) :
    s.Follows ipcDebugIo cliUuid t := by
  simp only [enabled, Bool.and_eq_true, decide_eq_true_eq] at henabled
  rcases henabled with ⟨hholder, hlt⟩
  rcases hA.down.replying hholder hlt with ⟨f, hdata, hbuf⟩
  have hbusy := data_busy hdata
  cases r with
  | wrote count =>
      rcases Option.bind_eq_some_iff.1 hexec with ⟨down, hwrite, hexec'⟩
      rcases SharedStream.write_eq hwrite with ⟨hholder', hbuf', hstream, hle⟩
      dsimp only at hexec'
      split at hexec'
      · rename_i hlast
        rcases step_eq hexec' with ⟨hex, ht⟩
        have hframe := Exchange.exec_actEvent hex
        have hcarries := hA.down.carries.write_last hwrite hlast
        have hreplies : t.ex.replies.map (fun r => r.frame.encode) =
            s.ex.replies.map (fun r => r.frame.encode) ++ [f.encode] := by
          have hsent := congrArg (List.map Frame.encode) (hframe.sent hdata rfl)
          rw [List.map_append, List.map_map, List.map_map] at hsent
          exact hsent
        rw [hbuf, ← hreplies] at hcarries
        refine follows_step hA hex hbusy ht (hA.down.of_grow ?_ (fun _ => ?_) ?_ ?_ (by rw [ht])
          (by rw [ht]) hframe.received)
        · rw [ht]
          exact hcarries
        · rw [ht]
          exact hlast
        · rw [ht]
          exact fun _ hpart => absurd hlast (Nat.ne_of_lt hpart)
        · rw [ht]
          exact hstream
      · rename_i hnot
        cases hexec'
        have hpart : down.ttl < down.buf.length := Nat.lt_of_le_of_ne hle hnot
        refine ⟨⟨hA.up.of_same rfl rfl rfl rfl rfl rfl fun _ hcall hpkt => ⟨_, hcall, hpkt⟩,
          hA.down.of_grow (hA.down.carries.write_part hwrite hpart) ?_ ?_ hstream rfl rfl rfl⟩,
            Or.inl rfl⟩
        · intro hnone
          cases hholder.symm.trans (hholder'.symm.trans hnone)
        · intro rcv' hrcv' _
          cases hholder.symm.trans (hholder'.symm.trans hrcv')
          exact ⟨f, hdata, hbuf'.trans hbuf⟩
  | zero => cases hexec
  | eintr =>
      cases hexec
      exact ⟨hA, Or.inl rfl⟩
  | eagain =>
      cases hexec
      exact ⟨hA, Or.inl rfl⟩
  | error =>
      rcases step_eq hexec with ⟨hex, ht⟩
      have hframe := Exchange.exec_actEvent hex
      have hreplies := hframe.silent (Or.inr rfl)
      have hend : t.down.ttl = t.down.buf.length := by
        rw [ht]
        rfl
      refine follows_step hA hex hbusy ht (hA.down.of_grow ?_ (fun _ => hend)
        (fun _ hpart => absurd hend (Nat.ne_of_lt hpart)) ?_ (by rw [ht]) (by rw [ht])
          hframe.received)
      · rw [hreplies, ht]
        exact hA.down.carries.fail whole_prefixFree
      · rw [ht]
        exact List.prefix_rfl

theorem follows_replyUnlock (hA : s.Agrees cliUuid) (rcv : Bool)
    (hexec : s.exec ipcDebugIo cliUuid (.replyUnlock rcv) = some t) :
    s.Follows ipcDebugIo cliUuid t := by
  rcases Option.map_eq_some_iff.1 hexec with ⟨down, hunlock, rfl⟩
  rcases SharedStream.unlock_eq hunlock with ⟨-, hstream, hend⟩
  refine ⟨⟨hA.up.of_same rfl rfl rfl rfl rfl rfl fun _ hcall hpkt => ⟨_, hcall, hpkt⟩,
    hA.down.of_grow (hA.down.carries.unlock hunlock) (fun _ => hend)
      (fun _ hpart => absurd hend (Nat.ne_of_lt hpart)) ?_ rfl rfl rfl⟩, Or.inl rfl⟩
  show s.down.stream <+: down.stream
  rw [hstream]

/-! ## The receivers -/

/-- The bytes of a turn come behind those that have been read. -/
theorem take_next {stream bytes : List UInt8} {read : Nat}
    (h : isNext stream read bytes = true) (hle : read ≤ stream.length) :
    stream.take (read + bytes.length) = stream.take read ++ bytes ∧
      read + bytes.length ≤ stream.length := by
  have hbegins : bytes <+: stream.drop read := List.isPrefixOf_iff_prefix.1 h
  refine ⟨?_, ?_⟩
  · rw [List.take_add, ← List.prefix_iff_eq_take.1 hbegins]
  · have hlen := hbegins.length_le
    rw [List.length_drop] at hlen
    omega

/-- The word behind the first ones is the one of the next frame. -/
theorem next_of_prefix {α β : Type} {g : α → β} {l : List α} {words : List β} {w : β}
    (h : words ++ [w] <+: l.map g) : ∃ x, l[words.length]? = some x ∧ g x = w := by
  have hget : (l.map g)[words.length]? = some w := by
    rcases h with ⟨more, hmore⟩
    rw [← hmore, List.append_assoc, List.getElem?_append_right (Nat.le_refl _), Nat.sub_self]
    rfl
  rw [List.getElem?_map] at hget
  exact Option.map_eq_some_iff.1 hget

theorem ofData_ofFrame (f : Frame) :
    PipeMsg.ofData cliUuid (PipeData.ofFrame f) = some { cliUuid := cliUuid, frame := f } := by
  have hbytes : (PipeData.ofFrame f).buf.getD [] = f.buf.bytes := by
    unfold PipeData.ofFrame
    split
    · rename_i hempty
      exact hempty.symm
    · rfl
  have hfits := f.buf.fits
  cases f with
  | mk head buf ttl_eq =>
      unfold PipeMsg.ofData
      simp only [hbytes]
      rw [dif_pos ⟨ttl_eq, hfits⟩]
      rfl

/-- The state of the server behind a message. -/
theorem follows_handle (hA : s.Agrees cliUuid) (hidle : s.ex.rcv.acts = [])
    (hholder : s.down.holder ≠ some true) {bytes : List UInt8} {words : List (List UInt8)}
    {w : List UInt8} (hnext : isNext s.up.stream s.upRead bytes = true)
    (hwords : ∀ v ∈ words, Whole v) (hw : Whole w) (hlength : words.length = s.ex.read)
    (hread : words.flatten ++ w = s.up.stream.take s.upRead ++ bytes) {cli : CliProto}
    (hcli : cli.Holds []) {msg : Option PipeMsg}
    (hmsg : ∀ m, msg = some m → PipeMsg.ofData cliUuid (PipeData.ofWord w) = some m)
    (ht : t = handle ipcDebugIo { s with upRead := s.upRead + bytes.length } cli msg) :
    s.Follows ipcDebugIo cliUuid t := by
  rcases take_next hnext hA.up.upRead_le with ⟨htake, hle⟩
  have hall : ∀ v ∈ words ++ [w], Whole v := by
    intro v hv
    rcases List.mem_append.1 hv with hold | hnew
    · exact hwords v hold
    · rw [List.mem_singleton.1 hnew]
      exact hw
  have hflatten : (words ++ [w]).flatten ++ [] = s.up.stream.take (s.upRead + bytes.length) := by
    rw [htake, ← hread]
    simp
  -- what has been read is the next frame of the client
  have hfound : words ++ [w] <+: s.ex.client.outbox.map Frame.encode :=
    hA.up.carries.found whole_prefixFree hall (hflatten ▸ List.take_prefix _ _)
  rcases next_of_prefix hfound with ⟨f, hf, hfw⟩
  rw [hlength] at hf
  have hmessage : s.ex.message cliUuid s.ex.read = some { cliUuid := cliUuid, frame := f } := by
    rw [Exchange.message, hf]
    rfl
  have hmsg' : ∀ m, msg = some m → m = { cliUuid := cliUuid, frame := f } := by
    intro m hm
    have hof := hmsg m hm
    rw [← hfw, PipeData.ofWord_encode, ofData_ofFrame] at hof
    exact (Option.some.inj hof).symm
  subst ht
  refine ⟨⟨⟨hA.up.carries, hA.up.idle, hA.up.sending, hle, ?_, ?_, ?_⟩,
    hA.down.of_same rfl rfl rfl rfl rfl ?_⟩, Or.inr ⟨.read msg.isSome, ?_, ?_⟩⟩
  · refine ⟨words ++ [w], [], hall, hflatten, ?_, ?_⟩
    · rw [List.length_append, hlength]
      rfl
    · rintro cli' heq
      cases heq
      exact hcli
  · show (s.msgs ++ [msg]).length = s.ex.read + 1
    rw [List.length_append, hA.up.msgs_length]
    rfl
  · intro request m hget
    have hget' : (s.msgs ++ [msg])[request]? = some (some m) := hget
    rw [List.getElem?_append] at hget'
    split at hget'
    · exact hA.up.msgs hget'
    · rename_i hge
      rw [List.getElem?_singleton] at hget'
      split at hget'
      · rename_i hzero
        cases hget'
        have hrequest : request = s.ex.read := by
          rw [← hA.up.msgs_length]
          omega
        rw [hmsg' m rfl, hrequest]
        exact hmessage
      · cases hget'
  · intro rcv hrcv
    cases rcv with
    | true => exact absurd hrcv hholder
    | false => rfl
  · have hlt : s.ex.read < s.ex.client.outbox.length := (List.getElem?_eq_some_iff.1 hf).1
    simp [Exchange.machine, Exchange.enabled, hidle, hlt]
  · show (s.ex.message cliUuid s.ex.read).map _ = _
    rw [hmessage]
    cases msg with
    | none => rfl
    | some m =>
        rw [hmsg' m rfl]
        rfl

/-- A turn that completes no message. -/
theorem follows_readPart (hA : s.Agrees cliUuid) {bytes p : List UInt8}
    {words : List (List UInt8)} {cli : Option CliProto}
    (hnext : isNext s.up.stream s.upRead bytes = true) (hwords : ∀ w ∈ words, Whole w)
    (hlength : words.length = s.ex.read)
    (hread : words.flatten ++ p = s.up.stream.take s.upRead)
    (hcli : ∀ cli', cli = some cli' → cli'.Holds (p ++ bytes))
    (ht : t = { s with upRead := s.upRead + bytes.length, cli := cli }) :
    s.Follows ipcDebugIo cliUuid t := by
  rcases take_next hnext hA.up.upRead_le with ⟨htake, hle⟩
  subst ht
  refine ⟨⟨⟨hA.up.carries, hA.up.idle, hA.up.sending, hle, ?_, hA.up.msgs_length, hA.up.msgs⟩,
    hA.down.of_same rfl rfl rfl rfl rfl fun _ => rfl⟩, Or.inl rfl⟩
  refine ⟨words, p ++ bytes, hwords, ?_, hlength, hcli⟩
  show words.flatten ++ (p ++ bytes) = s.up.stream.take (s.upRead + bytes.length)
  rw [htake, ← hread, List.append_assoc]

theorem follows_readClient (hA : s.Agrees cliUuid) {call : ReadCall}
    (henabled : s.enabled (.readClient call) = true)
    (hexec : s.exec ipcDebugIo cliUuid (.readClient call) = some t) :
    s.Follows ipcDebugIo cliUuid t := by
  simp only [enabled, Bool.and_eq_true, decide_eq_true_eq, List.isEmpty_iff] at henabled
  rcases henabled with ⟨⟨hidle, hholder⟩, hnext⟩
  rcases Option.bind_eq_some_iff.1 hexec with ⟨cli, hcli, hexec'⟩
  rcases Option.bind_eq_some_iff.1 hexec' with ⟨⟨ret, out⟩, hcall, hexec''⟩
  rcases hA.up.found with ⟨words, p, hwords, hread, hlength, hholds⟩
  rcases (hholds cli hcli).readClient hcall with
    ⟨cli', rfl, ⟨rfl, hholds'⟩ | ⟨rfl, hdone⟩⟩ | ⟨rfl, -⟩
  · refine follows_readPart hA hnext hwords hlength hread ?_ (Option.some.inj hexec'').symm
    rintro cli'' heq
    cases heq
    exact hholds'
  · have hwhole : words.flatten ++ (p ++ call.bytes) = s.up.stream.take s.upRead ++ call.bytes := by
      rw [← List.append_assoc, hread]
    cases hmalloc : call.malloc with
    | true =>
        simp only [hmalloc, hdone.handOver] at hexec''
        rcases Option.map_eq_some_iff.1 hexec'' with ⟨msg, hmsg, ht⟩
        exact follows_handle hA hidle hholder hnext hwords hdone.whole hlength hwhole
          CliProto.reset_holds (fun m hm => by cases hm; exact hmsg) ht.symm
    | false =>
        have hdrop : cli'.handOver false = (-0x19171e01, none, ucIpcServerResetCliProto) := by
          simp [CliProto.handOver, hdone.bufDone]
        simp only [hmalloc, hdrop] at hexec''
        exact follows_handle hA hidle hholder hnext hwords hdone.whole hlength hwhole
          CliProto.reset_holds (fun m hm => by cases hm) (Option.some.inj hexec'').symm
  · exact follows_readPart hA hnext hwords hlength hread (fun _ h => by cases h)
      (Option.some.inj hexec'').symm

theorem follows_take (hA : s.Agrees cliUuid) {ret : Payload}
    (henabled : s.enabled (.take ret) = true)
    (hexec : s.exec ipcDebugIo cliUuid (.take ret) = some t) : s.Follows ipcDebugIo cliUuid t := by
  simp only [enabled, Bool.and_eq_true, decide_eq_true_eq] at henabled
  rcases henabled with ⟨⟨hidle, hholder⟩, hnonempty⟩
  cases hpipe : s.ex.pipe with
  | nil => simp [exec, hpipe] at hexec
  | cons request pipe =>
      simp only [exec, hpipe] at hexec
      rcases Option.map_eq_some_iff.1 hexec with ⟨msg, hmsg, rfl⟩
      have hmessage := hA.up.msgs (Option.join_eq_some_iff.1 hmsg)
      refine ⟨⟨hA.up.of_same rfl rfl rfl rfl rfl rfl fun _ hcall hpkt => ⟨_, hcall, hpkt⟩,
        hA.down.of_same rfl rfl rfl rfl rfl ?_⟩, Or.inr ⟨.take ret, ?_, ?_⟩⟩
      · intro rcv hrcv
        cases rcv with
        | true => rfl
        | false => exact absurd hrcv hholder
      · exact (Bool.and_eq_true _ _).mpr ⟨hidle, hnonempty⟩
      · simp only [Exchange.machine, Exchange.exec, hpipe]
        rw [hmessage]
        rfl

theorem follows_loopRcv (hA : s.Agrees cliUuid) {round : RcvRound} {signalled : Option Nat}
    (henabled : s.enabled (.loopRcv round signalled) = true)
    (hexec : s.exec ipcDebugIo cliUuid (.loopRcv round signalled) = some t) :
    s.Follows ipcDebugIo cliUuid t := by
  simp only [enabled, Bool.and_eq_true] at henabled
  rcases henabled with ⟨⟨hblocks, hnext⟩, hany⟩
  rcases Option.bind_eq_some_iff.1 hexec with ⟨⟨outcome, head⟩, hround, hexec'⟩
  rw [hround] at hany
  rcases ucIpcClientLoopRcvRound_spec hA.down.head (RcvRound.blocks_iff.1 hblocks) hround with
    ⟨hhead, hspec⟩
  rcases take_next hnext hA.down.downRead_le with ⟨htake, hle⟩
  rcases hA.down.found with ⟨words, hwords, hread, hlength⟩
  cases hspec with
  | lost harrival hreason hwhy =>
      dsimp only at hexec'
      split at hexec'
      · rename_i f harr hrec
        exact absurd harr (harrival f)
      · cases hexec'
  | @frame f hbytes hseq =>
      dsimp only at hexec'
      split at hexec'
      · rename_i f' harr hrec
        cases harr
        rcases Option.map_eq_some_iff.1 hexec' with ⟨client, hclient, rfl⟩
        have hall : ∀ v ∈ words ++ [f.encode], Whole v := by
          intro v hv
          rcases List.mem_append.1 hv with hold | hnew
          · exact hwords v hold
          · rw [List.mem_singleton.1 hnew]
            exact f.whole
        have hflatten : (words ++ [f.encode]).flatten =
            s.down.stream.take (s.downRead + round.bytes.length) := by
          rw [htake, ← hread, hbytes]
          simp
        have hbegins : (words ++ [f.encode]).flatten ++ [] <+: s.down.stream := by
          rw [List.append_nil, hflatten]
          exact List.take_prefix _ _
        -- the message is the next reply of the server
        rcases next_of_prefix (hA.down.carries.found whole_prefixFree hall hbegins) with
          ⟨reply, hreply, heq⟩
        rw [hlength] at hreply
        have hframe : reply.frame = f := Frame.encode_injective heq
        have henabled' : s.ex.client.enabled (.receive (.frame f) signalled) = true := hany
        have hstep := Client.step_of_exec henabled' hclient
        refine ⟨⟨hA.up.of_same rfl rfl rfl rfl ?_ rfl ?_,
          ⟨hA.down.carries, hA.down.idle, ?_, hle, ?_, hhead⟩⟩, Or.inr ⟨.receive signalled, ?_, ?_⟩⟩
        · rcases hstep.outbox with ⟨-, hsame⟩ | ⟨c, call, id, hsenders, -, -, -⟩
          · exact hsame
          · cases hsenders
        · intro c call g _ hcall hpkt
          exact hstep.protoPkt_kept (fun h => by cases h) hcall hpkt
        · intro rcv hrcv hlt
          rcases hA.down.replying hrcv hlt with ⟨g, hdata, hbuf⟩
          refine ⟨g, ?_, hbuf⟩
          cases rcv <;> exact hdata
        · refine ⟨words ++ [f.encode], hall, hflatten, ?_⟩
          rw [List.length_append, hlength]
          rfl
        · show (s.ex.replies[s.ex.received]?).any _ = true
          rw [hreply, Option.any_some, hframe]
          exact henabled'
        · show (s.ex.replies[s.ex.received]?).bind _ = _
          rw [hreply, Option.bind_some, hframe, hclient]
          rfl
      · cases hexec'

theorem simulates : (machine ipcDebugIo cliUuid).Simulates (Exchange.machine ipcDebugIo cliUuid)
    ByteExchange.ex (Agrees cliUuid) := by
  intro s e t hA henabled hexec
  cases e with
  | client e => exact follows_client hA henabled hexec
  | sendLock c => exact follows_sendLock hA hexec
  | sendWrite c r => exact follows_sendWrite hA henabled hexec
  | sendUnlock c => exact follows_sendUnlock hA c hexec
  | readClient call => exact follows_readClient hA henabled hexec
  | act rcv ok => exact follows_act hA henabled hexec
  | replyLock rcv => exact follows_replyLock hA hexec
  | replyWrite rcv r => exact follows_replyWrite hA henabled hexec
  | replyUnlock rcv => exact follows_replyUnlock hA rcv hexec
  | take ret => exact follows_take hA henabled hexec
  | loopRcv round signalled => exact follows_loopRcv hA henabled hexec

/-! ## Runs -/

/-- Each stream is the frames that were sent on it, one behind the other, with at most a beginning
of one more; what a call is writing is the packet that `uc_ipc_client_send` has filled for it; and
what has been read to the end has been received. -/
structure Carried (s : ByteExchange) : Prop where
  up : ∃ part, s.up.stream = (s.ex.client.outbox.map Frame.encode).flatten ++ part ∧
    CutShort Whole part
  down : ∃ part, s.down.stream = (s.ex.replies.map fun r => r.frame.encode).flatten ++ part ∧
    CutShort Whole part
  sending : ∀ {c : Nat}, s.up.holder = some c → s.up.ttl < s.up.buf.length →
    ∃ call, s.ex.client.calls[c]? = some call ∧ call.Fills s.up.buf
  read : s.up.broken = false → s.up.holder = none → s.cli ≠ none →
    s.upRead = s.up.stream.length → s.ex.read = s.ex.client.outbox.length
  received : s.down.broken = false → s.down.holder = none →
    s.downRead = s.down.stream.length → s.ex.received = s.ex.replies.length

theorem Agrees.carried (hA : s.Agrees cliUuid) : s.Carried where
  up := hA.up.carries.parts whole_prefixFree
  down := hA.down.carries.parts whole_prefixFree
  sending := by
    intro c hholder hleft
    rcases hA.up.sending hholder hleft with ⟨call, f, hcall, hpkt, hbuf⟩
    rw [hbuf]
    exact ⟨call, hcall, ClientCall.fills_of_protoPkt hpkt⟩
  read := by
    intro hopen hfree hcli hall
    rcases Option.ne_none_iff_exists'.1 hcli with ⟨cli, hcli'⟩
    rcases hA.up.found with ⟨words, p, hwords, hread, hlength, hholds⟩
    rw [hall, List.take_length] at hread
    have hsame := hA.up.carries.found_all whole_prefixFree hopen (hA.up.idle hfree) hwords
      (hholds cli hcli').cutShort hread
    rw [← hlength, hsame.1, List.length_map]
  received := by
    intro hopen hfree hall
    rcases hA.down.found with ⟨words, hwords, hread, hlength⟩
    rw [hall, List.take_length, ← List.append_nil words.flatten] at hread
    have hsame := hA.down.carries.found_all whole_prefixFree hopen (hA.down.idle hfree) hwords
      whole_prefixFree.cutShort_nil hread
    rw [← hlength, hsame.1, List.length_map]

/-- However the frames are cut up on the way, by the writes of several threads and by the reads of
the receivers: the calls of the client and the threads of the server come to where a run of the
exchange of whole frames brings them. -/
theorem byteExchange_refines {seqId serverSeqId : UInt64} {head : List UInt8}
    (hhead : head.length = protoHeaderSize) {events : List ByteEvent}
    (hrun : (machine ipcDebugIo cliUuid).Run (ofConnect seqId serverSeqId head) events s) :
    s.Carried ∧ ∃ events', (Exchange.machine ipcDebugIo cliUuid).Run
      (Exchange.ofInit seqId serverSeqId) events' s.ex := by
  rcases simulates.run (ofConnect_agrees seqId serverSeqId hhead) hrun with ⟨hA, hexchange⟩
  exact ⟨hA.carried, hexchange⟩

/-- Two calls; the first holds the lock while the second gets ready, and the server gets its frame
in three pieces.  The reply is written in two pieces. -/
def cutExchange : List ByteEvent :=
  let request := (Frame.build ucIpcMsgTypeSyncSend 10000 ucIpcAckIdNull (.ofByte 1)).encode
  let reply := (Frame.build ucIpcMsgTypeSyncAck 10000 10000 (.ofByte 11)).encode
  [.client (.call .syncSend (.ofByte 1) 1000), .client (.call .trySend (.ofByte 2) 1000),
    .client (.draw 0), .client (.insert 0 (some (nodeAt 16))), .sendLock 0,
    .sendWrite 0 (.wrote 12), .client (.draw 1), .sendWrite 0 .eagain,
    .readClient ⟨[.data (request.take 12) (some [])], true⟩, .sendWrite 0 (.wrote 17),
    .readClient ⟨[.data ((request.drop 12).take 16) (some [0]), .eagain], true⟩, .sendUnlock 0,
    .sendLock 1, .client (.wait 0), .sendWrite 1 (.wrote 20),
    .readClient ⟨[.eintr, .data [1] (some [])], true⟩, .act true true, .take (.ofByte 11),
    .act false true, .act false true, .replyLock false, .replyWrite false (.wrote 28),
    .sendWrite 1 .error, .replyWrite false (.wrote 1),
    .loopRcv ⟨[.data (reply.take 3), .data ((reply.drop 3).take 25)],
      some (List.replicate 29 0), [.data [11]]⟩ (some 0),
    .replyUnlock false, .client (.resume 0)]

theorem byteExchange_refines_cut : ∃ s : ByteExchange,
    (machine true 1).Run (ofConnect 10000 10000 (List.replicate 28 0)) cutExchange s ∧
      s.up.stream.length = 49 ∧ s.ex.client.outbox.length = 1 ∧ s.ex.received = 1 ∧
      s.Carried ∧ ∃ events',
        (Exchange.machine true 1).Run (Exchange.ofInit 10000 10000) events' s.ex := by
  have hplay : ((machine true 1).play (ofConnect 10000 10000 (List.replicate 28 0))
      cutExchange).any (fun s => decide (s.up.stream.length = 49 ∧
        s.ex.client.outbox.length = 1 ∧ s.ex.received = 1)) = true := by
    decide +kernel
  rcases Machine.exists_run_of_play hplay with ⟨s, hrun, htest⟩
  rcases of_decide_eq_true htest with ⟨hstream, houtbox, hreceived⟩
  exact ⟨s, hrun, hstream, houtbox, hreceived, byteExchange_refines (by decide) hrun⟩

end ByteExchange
end Ipc
end UtilsC
