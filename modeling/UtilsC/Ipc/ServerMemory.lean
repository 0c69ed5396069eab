import Mathlib.Tactic.Abel
import UtilsC.Lib.BlockHeap
import UtilsC.Lib.Machine
import UtilsC.Ipc.Registry

/-!
# The memory of the server

The payload of a message is allocated for the connection that reads it, goes over to the message
when it is complete, and with the message through the pipe to the callback thread, where it is
freed.  What the heartbeat copies and what the callback returns hangs on the message as well.

* `ServerMemory.machine` are the two threads with every allocation, every free and every use of a
  block; a use of a block that was freed is a step without a result.
* `cli_info_hash` has the structures of the clients under their uuids.  An insert under a uuid that
  is there already frees the structure of another client, whose connection stays open.
* `ServerMemory.owned` are the blocks of the connections, of the messages in the hands of a thread
  and of those in the pipe.
* `ucIpcServer_memory`: every block is owned once or was freed once, and the only steps that touch a
  freed block are those that `reportsFreed` names.

What the tables allocate for themselves, and the block that holds a descriptor, are not followed.
-/

namespace UtilsC
namespace Ipc

open Lib Hash

/-- `uc_ipc_pipe_data_t`. -/
structure MsgBlock where
  self : Nat
  msgType : UInt32
  buf : Option Nat
  returnAddr : Option Nat

/-- A structure `uc_ipc_cli_t` that the epoll set points to; `gone` says that it has been freed,
which no function of the source can see. -/
structure CliTag where
  self : Nat
  uuid : UInt64
  gone : Bool

/-- The structure with the payload that is being read. -/
structure CliBlock extends CliTag where
  buf : Option Nat

def MsgBlock.blocks (msg : MsgBlock) : List Nat :=
  msg.buf.toList ++ (msg.returnAddr.toList ++ [msg.self])

/-- The types that `uc_ipc_server_loop_callback` calls the callback for. -/
def MsgBlock.calls (msg : MsgBlock) : Bool :=
  msg.msgType = ucIpcMsgTypeVoid || msg.msgType = ucIpcMsgTypeAsyncSend ||
    msg.msgType = ucIpcMsgTypeSyncSend

theorem MsgBlock.self_mem_blocks (msg : MsgBlock) : msg.self ∈ msg.blocks := by
  simp [blocks]

def CliBlock.blocks (cli : CliBlock) : List Nat :=
  if cli.gone then [] else cli.buf.toList ++ [cli.self]

/-- Where a thread is with a message. -/
inductive MsgPc
  | idle
  /-- the message of this connection is complete; in front of `uc_ipc_server_handle_client_msg` -/
  | complete (k : Nat)
  /-- the message has been taken over; in front of the tests of its type -/
  | dispatch (k : Nat) (msg : MsgBlock)
  /-- in front of the callback -/
  | call (msg : MsgBlock)
  /-- in front of `uc_ipc_server_send_msg`; `piped` says that the write into the pipe is next -/
  | send (msg : MsgBlock) (piped : Bool)
  | pipe (msg : MsgBlock)
  /-- in front of `uc_ipc_server_free_pipe_msg` -/
  | free (msg : MsgBlock) (warn : Bool)
  /-- in front of the warning about the type of a message that has been freed -/
  | warn (msg : MsgBlock)

def MsgPc.msg : MsgPc → Option MsgBlock
  | .dispatch _ msg => some msg
  | .call msg => some msg
  | .send msg _ => some msg
  | .pipe msg => some msg
  | .free msg _ => some msg
  | _ => none

def MsgPc.blocks (pc : MsgPc) : List Nat :=
  match pc.msg with
  | none => []
  | some msg => msg.blocks

def MsgPc.conn : MsgPc → Option Nat
  | .complete k => some k
  | .dispatch k _ => some k
  | _ => none

/-- Up to the callback a message has no block to send back. -/
def MsgPc.Bare : MsgPc → Prop
  | .dispatch _ msg => msg.returnAddr = none
  | .call msg => msg.returnAddr = none
  | .send msg piped => piped = true → msg.returnAddr = none
  | .pipe msg => msg.returnAddr = none
  | _ => True

/-- `clis` are the connections in the order of their accepts, without those that were closed;
`lost` are the structures and payloads that nothing points at any more. -/
structure ServerMemory where
  heap : BlockHeap
  cliInfoHash : U64Table Nat
  clis : List (Option CliBlock)
  lost : List Nat
  rcv : MsgPc
  pipe : List MsgBlock
  cb : MsgPc

/-- `mem` says whether there is memory. -/
inductive MemoryEvent
  | accept (uuid : UInt64) (node : Option NodeBlock)
  /-- the new client does not get into the epoll set, or there is no memory for its descriptor -/
  | refuse
  /-- a header with a payload behind it is complete -/
  | header (k : Nat) (mem : Bool)
  /-- a piece of a message arrives, not the last one -/
  | piece (k : Nat)
  | last (k : Nat)
  /-- the connection is at its end, or a read fails -/
  | close (k : Nat)
  | handle (msgType : UInt32) (mem : Bool)
  | dispatch (mem : Bool)
  | send (rcv mem : Bool)
  | write (ok : Bool)
  | free (rcv : Bool)
  | warn
  | take
  /-- the callback returns, with a block of its own or without -/
  | call (ret : Bool)

namespace ServerMemory

variable (ipcDebugIo : Bool) (s : ServerMemory)

def pc : Bool → MsgPc
  | true => s.rcv
  | false => s.cb

def setPc (rcv : Bool) (pc : MsgPc) : ServerMemory :=
  match rcv with
  | true => { s with rcv := pc }
  | false => { s with cb := pc }

def cli (k : Nat) : Option CliBlock :=
  (s.clis[k]?).join

def cliBlocks : Option CliBlock → List Nat
  | none => []
  | some cli => cli.blocks

/-! ## Steps -/

/-- The blocks are used. -/
def touch (bs : List Nat) : Option ServerMemory :=
  if bs.all s.heap.live then some s else none

/-- The blocks are freed. -/
def release (bs : List Nat) : Option ServerMemory :=
  (BlockHeap.freeAll bs s.heap).map fun heap => { s with heap := heap }

/-- `uc_ipc_server_reset_cli_proto`. -/
def resetCliProto (k : Nat) (cli : CliBlock) : Option ServerMemory :=
  (s.release cli.buf.toList).map fun s =>
    { s with clis := s.clis.set k (some { cli with buf := none }) }

/-- The connection whose structure is in the block. -/
def owner (b : Nat) : Nat :=
  s.clis.findIdx fun slot => slot.any fun cli => cli.self == b

/-- The structure in the block has been freed: with it goes the only pointer to the payload. -/
def strike (b : Nat) : ServerMemory :=
  match s.cli (s.owner b) with
  | none => s
  | some cli =>
      { s with
        clis := s.clis.set (s.owner b) (some { cli with buf := none, gone := true })
        lost := s.lost ++ cli.buf.toList }

/-- The values that `cli_info_hash` frees. -/
def unlist (bs : List Nat) : Option ServerMemory :=
  (s.release bs).map fun s => bs.foldl strike s

/-- The connection leaves the epoll set. -/
def forget (k : Nat) : ServerMemory :=
  { s with clis := s.clis.set k none, lost := s.lost ++ cliBlocks (s.cli k) }

/-- The end of `uc_ipc_server_accept_client`: a failed insertion is only printed. -/
def accept (uuid : UInt64) (node : Option NodeBlock) : Option ServerMemory :=
  let r := s.cliInfoHash.insert node uuid (some s.heap.count)
  let cli : CliBlock := { self := s.heap.count, uuid := uuid, gone := false, buf := none }
  { s with
    heap := s.heap.alloc
    cliInfoHash := r.2.1
    clis := s.clis ++ [some cli] }.unlist r.2.2

/-- `uc_ipc_server_close_cli`: the payload is freed, then what the table has under the uuid. -/
def closeCli (k : Nat) (cli : CliBlock) : Option ServerMemory :=
  (s.touch [cli.self]).bind fun s =>
    (s.resetCliProto k cli).bind fun s =>
      let r := s.cliInfoHash.delete cli.uuid
      ({ s with cliInfoHash := r.2.1 }.unlist r.2.2).map fun t : ServerMemory => t.forget k

/-- The end of `uc_ipc_server_read_client` when a header is complete. -/
def header (k : Nat) (cli : CliBlock) (mem : Bool) : Option ServerMemory :=
  (s.touch [cli.self]).bind fun s =>
    if mem then
      some
        { s with
          heap := s.heap.alloc
          clis := s.clis.set k (some { cli with buf := some s.heap.count }) }
    else
      -- the length of the message is printed behind the close
      (s.closeCli k cli).bind fun s => s.touch [cli.self]

/-- `uc_ipc_server_handle_client_msg` up to where it has taken the message over. -/
def handle (k : Nat) (cli : CliBlock) (msgType : UInt32) (mem : Bool) : Option ServerMemory :=
  (s.touch [cli.self]).bind fun s =>
    if mem then
      let msg : MsgBlock :=
        { self := s.heap.count, msgType := msgType, buf := cli.buf, returnAddr := none }
      some
        { s with
          heap := s.heap.alloc
          clis := s.clis.set k (some { cli with buf := none })
          rcv := .dispatch k msg }
    else
      (s.resetCliProto k cli).map fun s => { s with rcv := .idle }

/-- The tests of the type, and the copy that the heartbeat sends back. -/
def dispatch (k : Nat) (msg : MsgBlock) (mem : Bool) : Option ServerMemory :=
  (s.touch [msg.self]).bind fun s =>
    if msg.msgType = ucIpcMsgTypeHeartbeat then
      match msg.buf with
      | none => some { s with rcv := .send msg false }
      | some buf =>
          if mem then
            (s.touch [buf]).map fun s =>
              { s with
                heap := s.heap.alloc
                rcv := .send { msg with returnAddr := some s.heap.count } false }
          else
            -- without memory for the copy there is no pong
            some { s with rcv := .free msg false }
    else if msg.msgType = ucIpcMsgTypeVoid then
      some { s with rcv := if ipcDebugIo then .free msg false else .pipe msg }
    else if msg.msgType = ucIpcMsgTypeAsyncSend then
      -- `cli->uuid` is read again for the acknowledgement
      (s.cli k).bind fun cli => (s.touch [cli.self]).map fun s => { s with rcv := .send msg true }
    else if msg.msgType = ucIpcMsgTypeSyncSend then
      some { s with rcv := .pipe msg }
    else
      some { s with rcv := .free msg true }

/-- `uc_ipc_server_send_msg`: the packet is freed on every way out. -/
def send (rcv : Bool) (msg : MsgBlock) (piped mem : Bool) : Option ServerMemory :=
  (s.touch (msg.self :: msg.returnAddr.toList)).bind fun s =>
    let next := if piped then MsgPc.pipe msg else MsgPc.free msg false
    if mem then
      (s.heap.alloc.free s.heap.count).map fun heap => { s with heap := heap }.setPc rcv next
    else
      some (s.setPc rcv next)

/-- The call of the callback in `uc_ipc_server_loop_callback`. -/
def call (msg : MsgBlock) (ret : Bool) : Option ServerMemory :=
  (s.touch (msg.self :: msg.buf.toList)).map fun s =>
    let next (msg : MsgBlock) : MsgPc :=
      if msg.msgType = ucIpcMsgTypeSyncSend then .send msg false else .free msg false
    if ret then
      { s with
        heap := s.heap.alloc
        cb := next { msg with returnAddr := some s.heap.count } }
    else
      { s with cb := next msg }

def exec : MemoryEvent → Option ServerMemory
  | .accept uuid node => s.accept uuid node
  | .refuse =>
      (s.heap.alloc.free s.heap.count).map fun heap => { s with heap := heap }
  | .header k mem => (s.cli k).bind fun cli => s.header k cli mem
  | .piece k => (s.cli k).bind fun cli => s.touch (cli.self :: cli.buf.toList)
  | .last k =>
      (s.cli k).bind fun cli =>
        (s.touch (cli.self :: cli.buf.toList)).map fun s => { s with rcv := .complete k }
  | .close k => (s.cli k).bind fun cli => s.closeCli k cli
  | .handle msgType mem =>
      match s.rcv with
      | .complete k => (s.cli k).bind fun cli => s.handle k cli msgType mem
      | _ => none
  | .dispatch mem =>
      match s.rcv with
      | .dispatch k msg => s.dispatch ipcDebugIo k msg mem
      | _ => none
  | .send rcv mem =>
      match s.pc rcv with
      | .send msg piped => s.send rcv msg piped mem
      | _ => none
  | .write ok =>
      match s.rcv with
      | .pipe msg =>
          if ok then some { s with pipe := s.pipe ++ [msg], rcv := .idle }
          else some { s with rcv := .free msg false }
      | _ => none
  | .free rcv =>
      match s.pc rcv with
      | .free msg warn =>
          (s.touch [msg.self]).bind fun s =>
            (s.release msg.blocks).map fun s => s.setPc rcv (if warn then .warn msg else .idle)
      | _ => none
  | .warn =>
      match s.rcv with
      | .warn msg => (s.touch [msg.self]).map fun s => { s with rcv := .idle }
      | _ => none
  | .take =>
      match s.pipe with
      | [] => none
      | msg :: pipe =>
          (s.touch [msg.self]).map fun s =>
            { s with
              pipe := pipe
              cb := if msg.calls then .call msg else .free msg false }
  | .call ret =>
      match s.cb with
      | .call msg => s.call msg ret
      | _ => none

/-- The receive thread is in front of the next event of a connection. -/
def reading : Bool :=
  match s.rcv with
  | .idle => true
  | _ => false

def enabled : MemoryEvent → Bool
  | .accept _ _ => s.reading
  | .refuse => s.reading
  | .header k _ => s.reading && (s.cli k).any fun cli => cli.buf.isNone
  | .piece k => s.reading && (s.cli k).isSome
  | .last k => s.reading && (s.cli k).isSome
  | .close k => s.reading && (s.cli k).isSome
  | .handle _ _ =>
      match s.rcv with
      | .complete _ => true
      | _ => false
  | .dispatch _ =>
      match s.rcv with
      | .dispatch _ _ => true
      | _ => false
  | .send rcv _ =>
      match s.pc rcv with
      | .send _ _ => true
      | _ => false
  | .write _ =>
      match s.rcv with
      | .pipe _ => true
      | _ => false
  | .free rcv =>
      match s.pc rcv with
      | .free _ _ => true
      | _ => false
  | .warn =>
      match s.rcv with
      | .warn _ => true
      | _ => false
  | .take =>
      match s.cb with
      | .idle => !s.pipe.isEmpty
      | _ => false
  | .call _ =>
      match s.cb with
      | .call _ => true
      | _ => false

def machine : Machine ServerMemory MemoryEvent :=
  { enabled := enabled, exec := exec ipcDebugIo }

/-- The server before its first client. -/
def ofInit : ServerMemory where
  heap := BlockHeap.empty
  cliInfoHash :=
    U64Table.create Server.ucIpcServerClientMapSize Server.ucIpcServerClientMapSize_ne_zero
  clis := []
  lost := []
  rcv := .idle
  pipe := []
  cb := .idle

/-! ## Owners -/

def owned : Multiset Nat :=
  (s.clis.flatMap cliBlocks : List Nat) + ((s.lost : Multiset Nat) +
    ((s.rcv.blocks : Multiset Nat) +
      ((s.pipe.flatMap MsgBlock.blocks : List Nat) + (s.cb.blocks : Multiset Nat))))

/-- `cli_info_hash` has the structure under its uuid. -/
def listed (cli : CliBlock) : Bool :=
  s.cliInfoHash.findVal cli.uuid == some (some cli.self)

/-- The steps that use a block after it was freed: those of a connection whose structure is gone,
the warning about an unknown type, which is printed from the message, and the one about a payload
without memory, which is printed from the client that has just been closed. -/
def reportsFreed : MemoryEvent → Bool
  | .header k mem => (s.cli k).any fun cli => cli.gone || (!mem && s.listed cli)
  | .piece k => (s.cli k).any fun cli => cli.gone
  | .last k => (s.cli k).any fun cli => cli.gone
  | .close k => (s.cli k).any fun cli => cli.gone
  | .warn => true
  | _ => false

/-- The uuid of a new client is not that of another one. -/
def apart : MemoryEvent → Bool
  | .accept uuid _ => s.clis.all fun slot => slot.all fun cli => cli.uuid != uuid
  | _ => true

/-- The structures of the connections. -/
def tags : List (Option CliTag) :=
  s.clis.map (Option.map CliBlock.toCliTag)

/-- What is known of the structures: the table has some of those that are not gone, each under its
own uuid. -/
structure Clients (heap : BlockHeap) (table : U64Table Nat) (tags : List (Option CliTag)) :
    Prop where
  distinct : ∀ {k k' : Nat} {tag tag' : CliTag}, tags[k]? = some (some tag) →
    tags[k']? = some (some tag') → tag.self = tag'.self → k = k'
  gone : ∀ {k : Nat} {tag : CliTag}, tags[k]? = some (some tag) → tag.gone = true →
    tag.self ∈ heap.freed
  listed : ∀ {uuid v}, table.get uuid = some v → ∃ (k : Nat) (tag : CliTag),
    tags[k]? = some (some tag) ∧ tag.gone = false ∧ tag.uuid = uuid ∧ v = some tag.self

/-- Every structure is there, and no two have one uuid. -/
structure Apart (tags : List (Option CliTag)) : Prop where
  intact : ∀ {k : Nat} {tag : CliTag}, tags[k]? = some (some tag) → tag.gone = false
  uuids : ∀ {k k' : Nat} {tag tag' : CliTag}, tags[k]? = some (some tag) →
    tags[k']? = some (some tag') → tag.uuid = tag'.uuid → k = k'

structure Sound : Prop where
  balanced : s.heap.Balanced s.owned
  clients : Clients s.heap s.cliInfoHash s.tags
  /-- the connection of a message is open while the message is with the receive thread -/
  opened : ∀ k, s.rcv.conn = some k → ∃ cli, s.cli k = some cli ∧ cli.gone = false
  warned : ∀ msg, s.rcv = .warn msg → msg.self ∈ s.heap.freed
  bare : ∀ rcv, (s.pc rcv).Bare
  piped : ∀ msg ∈ s.pipe, msg.returnAddr = none

variable {ipcDebugIo s} {k : Nat} {cli : CliBlock} {msg : MsgBlock} {bs : List Nat}

theorem ofInit_sound : ofInit.Sound where
  balanced := BlockHeap.empty_balanced
  clients := by
    refine ⟨?_, ?_, ?_⟩
    · intro k k' tag tag' hk
      simp [tags, ofInit] at hk
    · intro k tag hk
      simp [tags, ofInit] at hk
    · intro uuid v hv
      simp [ofInit] at hv
  opened := by
    intro k hconn
    cases hconn
  warned := by
    intro msg hrcv
    cases hrcv
  bare := by
    intro rcv
    cases rcv <;> exact trivial
  piped := by simp [ofInit]

/-! ### The structures of the connections -/

theorem cli_eq_some_iff : s.cli k = some cli ↔ s.clis[k]? = some (some cli) :=
  Option.join_eq_some_iff

theorem tags_of_cli (hcli : s.cli k = some cli) : s.tags[k]? = some (some cli.toCliTag) := by
  rw [tags, List.getElem?_map, cli_eq_some_iff.1 hcli]
  rfl

theorem cli_of_tags {tag : CliTag} (htag : s.tags[k]? = some (some tag)) :
    ∃ cli, s.cli k = some cli ∧ cli.toCliTag = tag := by
  rw [tags, List.getElem?_map] at htag
  rcases Option.map_eq_some_iff.1 htag with ⟨slot, hslot, hmap⟩
  rcases Option.map_eq_some_iff.1 hmap with ⟨cli, rfl, rfl⟩
  exact ⟨cli, cli_eq_some_iff.2 hslot, rfl⟩

/-- The payload is no part of the tags. -/
theorem tags_set_buf (hcli : s.cli k = some cli) (buf : Option Nat) :
    (s.clis.set k (some { cli with buf := buf })).map (Option.map CliBlock.toCliTag) = s.tags := by
  have htag := tags_of_cli hcli
  rcases List.getElem?_eq_some_iff.1 htag with ⟨hk, hget⟩
  have hself := List.set_getElem_self hk
  rw [hget] at hself
  rw [List.map_set]
  exact hself

@[simp] theorem tags_setPc (rcv : Bool) (pc : MsgPc) : (s.setPc rcv pc).tags = s.tags := by
  cases rcv <;> rfl

section Tags

variable {tags : List (Option CliTag)} {tag tag' : CliTag} {k' : Nat}

/-- A connection behind the accept of `tag` is that of `tag` or was there before. -/
theorem snoc_cases (hget : (tags ++ [some tag])[k']? = some (some tag')) :
    tags[k']? = some (some tag') ∨ (k' = tags.length ∧ tag' = tag) := by
  rcases Nat.lt_or_ge k' tags.length with hlt | hge
  · rw [List.getElem?_append_left hlt] at hget
    exact Or.inl hget
  · rw [List.getElem?_append_right hge] at hget
    rcases List.getElem?_eq_some_iff.1 hget with ⟨hk, hnew⟩
    have hzero : k' - tags.length = 0 := Nat.lt_one_iff.1 hk
    simp only [hzero, List.getElem_cons_zero] at hnew
    exact Or.inr ⟨by omega, (Option.some.inj hnew).symm⟩

theorem set_cases {slot : Option CliTag} (hget : (tags.set k slot)[k']? = some (some tag')) :
    (k' ≠ k ∧ tags[k']? = some (some tag')) ∨ (k' = k ∧ slot = some tag') := by
  by_cases hk : k' = k
  · have hlt : k < tags.length := by
      have hlen := (List.getElem?_eq_some_iff.1 hget).1
      rwa [List.length_set, hk] at hlen
    rw [hk, List.getElem?_set_self hlt] at hget
    exact Or.inr ⟨hk, Option.some.inj hget⟩
  · rw [List.getElem?_set_ne (Ne.symm hk)] at hget
    exact Or.inl ⟨hk, hget⟩

end Tags

namespace Clients

variable {heap heap' : BlockHeap} {table : U64Table Nat} {tags : List (Option CliTag)}
  {tag : CliTag}

theorem mono (hC : Clients heap table tags) (hfreed : ∀ b ∈ heap.freed, b ∈ heap'.freed) :
    Clients heap' table tags where
  distinct := hC.distinct
  gone htag hgone := hfreed _ (hC.gone htag hgone)
  listed := hC.listed

/-- A place that the table knows nothing of is cleared, or its structure is freed. -/
theorem set (hC : Clients heap table tags) (htag : tags[k]? = some (some tag))
    (hout : table.get tag.uuid ≠ some (some tag.self)) {slot : Option CliTag}
    (hslot : ∀ tag', slot = some tag' → tag'.self = tag.self ∧ tag'.self ∈ heap.freed) :
    Clients heap table (tags.set k slot) := by
  have hsame : ∀ {k' : Nat} {tag' : CliTag}, (tags.set k slot)[k']? = some (some tag') →
      ∃ tag₀ : CliTag, tags[k']? = some (some tag₀) ∧ tag₀.self = tag'.self := by
    intro k' tag' hget
    rcases set_cases hget with ⟨_, hget'⟩ | ⟨rfl, hslot'⟩
    · exact ⟨tag', hget', rfl⟩
    · exact ⟨tag, htag, (hslot tag' hslot').1.symm⟩
  refine ⟨?_, ?_, ?_⟩
  · intro k₁ k₂ tag₁ tag₂ h₁ h₂ hself
    rcases hsame h₁ with ⟨tag₁', h₁', hself₁⟩
    rcases hsame h₂ with ⟨tag₂', h₂', hself₂⟩
    exact hC.distinct h₁' h₂' (hself₁.trans (hself.trans hself₂.symm))
  · intro k' tag' hget hgone
    rcases set_cases hget with ⟨_, hget'⟩ | ⟨_, hslot'⟩
    · exact hC.gone hget' hgone
    · exact (hslot tag' hslot').2
  · intro uuid v hget
    rcases hC.listed hget with ⟨k', tag', htag', hgone, huuid, hv⟩
    have hk : k' ≠ k := by
      rintro rfl
      cases htag.symm.trans htag'
      rw [huuid, ← hv] at hout
      exact hout hget
    exact ⟨k', tag', by rw [List.getElem?_set_ne (Ne.symm hk), htag'], hgone, huuid, hv⟩

/-- The entry of a uuid is removed. -/
theorem delete (hC : Clients heap table tags) (uuid : UInt64) :
    Clients heap (table.delete uuid).2.1 tags where
  distinct := hC.distinct
  gone := hC.gone
  listed := by
    intro uuid' v hget
    rw [U64Table.get_delete] at hget
    split_ifs at hget
    exact hC.listed hget

/-- A new structure, and the insertion of it. -/
theorem insert (hC : Clients heap table tags) (node : Option NodeBlock) {self : Nat} (uuid : UInt64)
    (hnew : ∀ (k : Nat) (tag : CliTag), tags[k]? = some (some tag) → tag.self ≠ self) :
    Clients heap (table.insert node uuid (some self)).2.1
      (tags ++ [some { self := self, uuid := uuid, gone := false }]) := by
  refine ⟨?_, ?_, ?_⟩
  · intro k₁ k₂ tag₁ tag₂ h₁ h₂ hself
    rcases snoc_cases h₁ with h₁' | ⟨hk₁, rfl⟩
    · rcases snoc_cases h₂ with h₂' | ⟨_, rfl⟩
      · exact hC.distinct h₁' h₂' hself
      · exact absurd hself (hnew _ _ h₁')
    · rcases snoc_cases h₂ with h₂' | ⟨hk₂, _⟩
      · exact absurd hself.symm (hnew _ _ h₂')
      · rw [hk₁, hk₂]
  · intro k' tag' h hgone
    rcases snoc_cases h with h' | ⟨_, rfl⟩
    · exact hC.gone h' hgone
    · cases hgone
  · intro uuid' v h
    rw [U64Table.get_insert] at h
    split_ifs at h with hins huuid
    · cases h
      exact ⟨tags.length, _, List.getElem?_concat_length, rfl, huuid.symm, rfl⟩
    all_goals
      rcases hC.listed h with ⟨k', tag', htag', hgone, huuid', hv⟩
      have hlt := (List.getElem?_eq_some_iff.1 htag').1
      exact ⟨k', tag', by rw [List.getElem?_append_left hlt, htag'], hgone, huuid', hv⟩

end Clients

namespace Apart

variable {tags : List (Option CliTag)} {tag : CliTag}

theorem snoc (hA : Apart tags) (hgone : tag.gone = false)
    (hnew : ∀ (k : Nat) (tag' : CliTag), tags[k]? = some (some tag') → tag'.uuid ≠ tag.uuid) :
    Apart (tags ++ [some tag]) := by
  refine ⟨?_, ?_⟩
  · intro k' tag' hget
    rcases snoc_cases hget with hget' | ⟨_, rfl⟩
    · exact hA.intact hget'
    · exact hgone
  · intro k₁ k₂ tag₁ tag₂ h₁ h₂ huuid
    rcases snoc_cases h₁ with h₁' | ⟨hk₁, rfl⟩
    · rcases snoc_cases h₂ with h₂' | ⟨_, rfl⟩
      · exact hA.uuids h₁' h₂' huuid
      · exact absurd huuid (hnew _ _ h₁')
    · rcases snoc_cases h₂ with h₂' | ⟨hk₂, _⟩
      · exact absurd huuid.symm (hnew _ _ h₂')
      · rw [hk₁, hk₂]

theorem set_none (hA : Apart tags) (k : Nat) : Apart (tags.set k none) := by
  have hold : ∀ {k' : Nat} {tag' : CliTag}, (tags.set k none)[k']? = some (some tag') →
      tags[k']? = some (some tag') := by
    intro k' tag' hget
    rcases set_cases hget with ⟨_, hget'⟩ | ⟨_, hslot⟩
    · exact hget'
    · cases hslot
  exact ⟨fun hget => hA.intact (hold hget), fun h₁ h₂ => hA.uuids (hold h₁) (hold h₂)⟩

end Apart

/-! ### Blocks and their places -/

theorem blocks_of_intact (hgone : cli.gone = false) :
    cli.blocks = cli.buf.toList ++ [cli.self] := by
  rw [CliBlock.blocks, hgone]
  rfl

theorem mem_owned_of_cli (hcli : s.cli k = some cli) {b : Nat} (hmem : b ∈ cli.blocks) :
    b ∈ s.owned := by
  have hk := List.mem_of_getElem? (cli_eq_some_iff.1 hcli)
  have hflat : b ∈ s.clis.flatMap cliBlocks := List.mem_flatMap.2 ⟨some cli, hk, hmem⟩
  exact Multiset.mem_add.2 (Or.inl (Multiset.mem_coe.2 hflat))

theorem mem_owned_of_pc {rcv : Bool} {b : Nat} (hmem : b ∈ (s.pc rcv).blocks) : b ∈ s.owned := by
  cases rcv with
  | false => simp [owned, show b ∈ s.cb.blocks from hmem]
  | true => simp [owned, show b ∈ s.rcv.blocks from hmem]

theorem owned_setPc (rcv : Bool) (pc : MsgPc) :
    (s.setPc rcv pc).owned + ((s.pc rcv).blocks : Multiset Nat) =
      s.owned + (pc.blocks : Multiset Nat) := by
  cases rcv <;> simp only [owned, setPc, ServerMemory.pc] <;> abel

/-- A thread moves on with the blocks that it has. -/
theorem owned_moves (rcv : Bool) (pc : MsgPc) (hpc : pc.blocks = (s.pc rcv).blocks) :
    (s.setPc rcv pc).owned = s.owned := by
  have hset := owned_setPc (s := s) rcv pc
  rw [hpc] at hset
  exact add_right_cancel hset

/-- A thread drops all but the blocks of its next position. -/
theorem owned_drops (rcv : Bool) (pc : MsgPc) (hpc : (s.pc rcv).blocks = bs ++ pc.blocks) :
    s.owned = (bs : Multiset Nat) + (s.setPc rcv pc).owned := by
  have hset := owned_setPc (s := s) rcv pc
  rw [hpc, ← Multiset.coe_add, ← add_assoc] at hset
  rw [← add_right_cancel hset, add_comm]

/-- A thread takes blocks over. -/
theorem owned_takes (rcv : Bool) {pc : MsgPc} (hpc : pc.blocks.Perm (bs ++ (s.pc rcv).blocks)) :
    (s.setPc rcv pc).owned = (bs : Multiset Nat) + s.owned := by
  have hset := owned_setPc (s := s) rcv pc
  rw [Multiset.coe_eq_coe.2 hpc, ← Multiset.coe_add, ← add_assoc] at hset
  rw [add_right_cancel hset, add_comm]

theorem owned_setCli {x y : Option CliBlock} (hx : s.clis[k]? = some x) {u v : Multiset Nat}
    (huv : (cliBlocks y : Multiset Nat) + u = (cliBlocks x : Multiset Nat) + v) :
    { s with clis := s.clis.set k y }.owned + u = s.owned + v := by
  have hset := coe_flatMap_set (f := cliBlocks) hx huv
  simp only [owned]
  rw [add_right_comm, hset, add_right_comm]

theorem touch_eq (hS : s.Sound) (hbs : ∀ b ∈ bs, b ∈ s.owned) : s.touch bs = some s := by
  refine if_pos (List.all_eq_true.2 fun b hmem => ?_)
  exact hS.balanced.live (hbs b hmem)

theorem release_eq {rest : Multiset Nat} (hB : s.heap.Balanced ((bs : Multiset Nat) + rest)) :
    ∃ heap : BlockHeap, s.release bs = some { s with heap := heap } ∧
      heap.freed = s.heap.freed ++ bs ∧ heap.Balanced rest := by
  rcases hB.freeAll with ⟨heap, hfrees, hB'⟩
  refine ⟨heap, ?_, BlockHeap.freeAll_freed hfrees, hB'⟩
  rw [release, hfrees, Option.map_some]

theorem freed_mono {heap heap' : BlockHeap} (hfreed : heap'.freed = heap.freed ++ bs) :
    ∀ b ∈ heap.freed, b ∈ heap'.freed := by
  intro b hmem
  rw [hfreed]
  exact List.mem_append_left bs hmem

/-- Between two events the receive thread changes the connections. -/
theorem Sound.of_idle (hS : s.Sound) (hidle : s.rcv = .idle) {heap : BlockHeap}
    {table : U64Table Nat} {clis : List (Option CliBlock)} {lost : List Nat}
    (hB : heap.Balanced
      { s with heap := heap, cliInfoHash := table, clis := clis, lost := lost }.owned)
    (hC : Clients heap table (clis.map (Option.map CliBlock.toCliTag))) :
    { s with heap := heap, cliInfoHash := table, clis := clis, lost := lost }.Sound where
  balanced := hB
  clients := hC
  opened := by
    intro k hconn
    simp [hidle, MsgPc.conn] at hconn
  warned := by
    intro msg hwarn
    simp [hidle] at hwarn
  bare := hS.bare
  piped := hS.piped

/-- The payload of a connection changes. -/
theorem Sound.setBuf (hS : s.Sound) (hcli : s.cli k = some cli) {heap : BlockHeap}
    (buf : Option Nat)
    (hB : heap.Balanced
      { s with heap := heap, clis := s.clis.set k (some { cli with buf := buf }) }.owned)
    (hfreed : ∀ b ∈ s.heap.freed, b ∈ heap.freed) :
    { s with heap := heap, clis := s.clis.set k (some { cli with buf := buf }) }.Sound where
  balanced := hB
  clients := by
    show Clients heap s.cliInfoHash (List.map _ _)
    rw [tags_set_buf hcli buf]
    exact hS.clients.mono hfreed
  opened := by
    intro k' hconn
    rcases hS.opened k' hconn with ⟨cli', hcli', hgone⟩
    by_cases hk : k' = k
    · rw [hk] at hcli' ⊢
      cases hcli.symm.trans hcli'
      have hlt := (List.getElem?_eq_some_iff.1 (cli_eq_some_iff.1 hcli)).1
      exact ⟨_, cli_eq_some_iff.2 (List.getElem?_set_self hlt), hgone⟩
    · refine ⟨cli', cli_eq_some_iff.2 ?_, hgone⟩
      rw [List.getElem?_set_ne (Ne.symm hk)]
      exact cli_eq_some_iff.1 hcli'
  warned msg hwarn := hfreed _ (hS.warned msg hwarn)
  bare := hS.bare
  piped := hS.piped

/-- A thread moves on without a connection; the heap may have changed. -/
theorem Sound.setPc (hS : s.Sound) (rcv : Bool) {pc : MsgPc} {heap : BlockHeap}
    (hB : heap.Balanced (s.setPc rcv pc).owned) (hfreed : ∀ b ∈ s.heap.freed, b ∈ heap.freed)
    (hconn : pc.conn = none) (hwarn : ∀ msg, pc = .warn msg → msg.self ∈ heap.freed)
    (hbare : pc.Bare) : ({ s with heap := heap }.setPc rcv pc).Sound := by
  have hC := hS.clients.mono hfreed
  cases rcv with
  | false =>
      refine ⟨hB, hC, hS.opened, fun msg hrcv => hfreed _ (hS.warned msg hrcv), ?_, hS.piped⟩
      intro rcv
      cases rcv with
      | false => exact hbare
      | true => exact hS.bare true
  | true =>
      refine ⟨hB, hC, ?_, hwarn, ?_, hS.piped⟩
      · intro k hk
        have hk' : pc.conn = some k := hk
        rw [hconn] at hk'
        cases hk'
      · intro rcv
        cases rcv with
        | false => exact hS.bare false
        | true => exact hbare

theorem rcv_of_reading (hreading : s.reading = true) : s.rcv = .idle := by
  unfold reading at hreading
  split at hreading
  · assumption
  · cases hreading

/-! ### Steps of a thread -/

theorem blocks_of_msg {pc : MsgPc} (hmsg : pc.msg = some msg) : pc.blocks = msg.blocks := by
  rw [MsgPc.blocks, hmsg]

/-- A thread uses its message, and what hangs on it. -/
theorem touch_msg (hS : s.Sound) (rcv : Bool) (hblocks : (s.pc rcv).blocks = msg.blocks)
    (hbs : ∀ b ∈ bs, b ∈ msg.blocks) : s.touch bs = some s := by
  refine touch_eq hS fun b hmem => ?_
  have hpc : b ∈ (s.pc rcv).blocks := by
    rw [hblocks]
    exact hbs b hmem
  exact mem_owned_of_pc hpc

theorem touch_msg_self (hS : s.Sound) (rcv : Bool) (hblocks : (s.pc rcv).blocks = msg.blocks) :
    s.touch [msg.self] = some s := by
  refine touch_msg hS rcv hblocks fun b hmem => ?_
  rw [List.mem_singleton.1 hmem]
  exact msg.self_mem_blocks

/-- A thread moves on with the message that it has. -/
theorem Sound.moves (hS : s.Sound) (rcv : Bool) {pc : MsgPc} (hpc : pc.blocks = (s.pc rcv).blocks)
    (hconn : pc.conn = none) (hwarn : ∀ msg, pc ≠ .warn msg) (hbare : pc.Bare) :
    (s.setPc rcv pc).Sound := by
  refine Sound.setPc hS rcv ?_ (fun b hb => hb) hconn (fun msg hmsg => absurd hmsg (hwarn msg))
    hbare
  rw [owned_moves rcv pc hpc]
  exact hS.balanced

/-- A message gets its block to send back. -/
theorem Sound.replies (hS : s.Sound) (rcv : Bool) {pc : MsgPc}
    (hold : (s.pc rcv).blocks = msg.blocks) (hnone : msg.returnAddr = none)
    (hpc : pc.blocks = { msg with returnAddr := some s.heap.count }.blocks)
    (hconn : pc.conn = none) (hwarn : ∀ msg, pc ≠ .warn msg) (hbare : pc.Bare) :
    ({ s with heap := s.heap.alloc }.setPc rcv pc).Sound := by
  have hblocks : pc.blocks.Perm ([s.heap.count] ++ (s.pc rcv).blocks) := by
    rw [hpc, hold]
    simp only [MsgBlock.blocks, hnone, Option.toList_some, Option.toList_none, List.nil_append,
      List.singleton_append]
    exact List.perm_middle
  refine Sound.setPc hS rcv ?_ (fun b hb => hb) hconn (fun msg hmsg => absurd hmsg (hwarn msg))
    hbare
  rw [owned_takes rcv hblocks]
  exact hS.balanced.alloc

/-! ### Steps of a connection -/

theorem touch_cli (hS : s.Sound) (hcli : s.cli k = some cli) (hgone : cli.gone = false)
    (hbs : ∀ b ∈ bs, b ∈ cli.buf.toList ++ [cli.self]) : s.touch bs = some s := by
  refine touch_eq hS fun b hmem => mem_owned_of_cli hcli ?_
  rw [blocks_of_intact hgone]
  exact hbs b hmem

theorem touch_gone (hS : s.Sound) (hcli : s.cli k = some cli) (hgone : cli.gone = true)
    (bs : List Nat) : s.touch (cli.self :: bs) = none := by
  have hlive := s.heap.live_eq_false (hS.clients.gone (tags_of_cli hcli) hgone)
  simp [touch, hlive]

theorem touch_self (hS : s.Sound) (hcli : s.cli k = some cli) (hgone : cli.gone = false) :
    s.touch [cli.self] = some s :=
  touch_cli hS hcli hgone fun b hmem => by simp [List.mem_singleton.1 hmem]

theorem touch_payload (hS : s.Sound) (hcli : s.cli k = some cli) (hgone : cli.gone = false) :
    s.touch (cli.self :: cli.buf.toList) = some s := by
  refine touch_cli hS hcli hgone fun b hmem => ?_
  rcases List.mem_cons.1 hmem with rfl | hmem
  · simp
  · exact List.mem_append_left _ hmem

/-- The payload is no longer with its connection. -/
theorem owned_handed (hcli : s.cli k = some cli) (hgone : cli.gone = false) :
    s.owned = (cli.buf.toList : Multiset Nat) +
      { s with clis := s.clis.set k (some { cli with buf := none }) }.owned := by
  have hset := owned_setCli (s := s) (y := some { cli with buf := none })
    (u := cli.buf.toList) (v := 0) (cli_eq_some_iff.1 hcli) (by
      simp only [cliBlocks, CliBlock.blocks, hgone, Option.toList_none, List.nil_append,
        Bool.false_eq_true, if_false, ← Multiset.coe_add]
      abel)
  rw [← add_zero s.owned, ← hset, add_comm]

theorem owned_lost (bs : List Nat) :
    { s with lost := s.lost ++ bs }.owned = (bs : Multiset Nat) + s.owned := by
  simp only [owned, ← Multiset.coe_add]
  abel

/-- The structure leaves its connection, and its payload is with nobody. -/
theorem owned_struck (hcli : s.cli k = some cli) (hgone : cli.gone = false) :
    s.owned = (([cli.self] : List Nat) : Multiset Nat) +
      { s with
        clis := s.clis.set k (some { cli with buf := none, gone := true })
        lost := s.lost ++ cli.buf.toList }.owned := by
  have hset := owned_setCli (s := s) (y := some { cli with buf := none, gone := true })
    (u := (cli.buf.toList ++ [cli.self] : List Nat)) (v := 0) (cli_eq_some_iff.1 hcli) (by
      simp [cliBlocks, CliBlock.blocks, hgone])
  have hlost := owned_lost
    (s := { s with clis := s.clis.set k (some { cli with buf := none, gone := true }) })
    cli.buf.toList
  rw [hlost, ← add_zero s.owned, ← hset, ← Multiset.coe_add]
  abel

theorem owned_forget (hcli : s.cli k = some cli) : (s.forget k).owned = s.owned := by
  have hset := owned_setCli (s := s) (y := none) (u := cli.blocks) (v := 0)
    (cli_eq_some_iff.1 hcli) (by simp [cliBlocks])
  have hlost := owned_lost (s := { s with clis := s.clis.set k none }) cli.blocks
  rw [add_zero, add_comm] at hset
  unfold forget
  rw [hcli]
  exact hlost.trans hset

theorem owner_eq (hS : s.Sound) (hcli : s.cli k = some cli) : s.owner cli.self = k := by
  rcases List.getElem?_eq_some_iff.1 (cli_eq_some_iff.1 hcli) with ⟨hk, hget⟩
  refine (List.findIdx_eq hk).2 ⟨by simp [hget], fun j hj => ?_⟩
  cases hslot : s.clis[j] with
  | none => rfl
  | some cli' =>
      have hne : cli'.self ≠ cli.self := by
        intro hself
        have hcli' : s.cli j = some cli' :=
          cli_eq_some_iff.2 (List.getElem?_eq_some_iff.2 ⟨Nat.lt_trans hj hk, hslot⟩)
        have hjk := hS.clients.distinct (tags_of_cli hcli') (tags_of_cli hcli) hself
        exact Nat.ne_of_lt hj hjk
      simpa using hne

theorem resetCliProto_spec (hS : s.Sound) (hcli : s.cli k = some cli) (hgone : cli.gone = false) :
    ∃ heap : BlockHeap, s.resetCliProto k cli =
        some { s with heap := heap, clis := s.clis.set k (some { cli with buf := none }) } ∧
      { s with heap := heap, clis := s.clis.set k (some { cli with buf := none }) }.Sound := by
  have hB := hS.balanced
  rw [owned_handed hcli hgone] at hB
  rcases release_eq hB with ⟨heap, hrelease, hfreed, hB'⟩
  refine ⟨heap, by rw [resetCliProto, hrelease, Option.map_some], ?_⟩
  exact hS.setBuf hcli none hB' (freed_mono hfreed)

/-- The table frees the structure of a connection, which stays in the epoll set. -/
theorem unlist_spec (hS : s.Sound) (hidle : s.rcv = .idle) (hcli : s.cli k = some cli)
    (hgone : cli.gone = false) (hout : s.cliInfoHash.get cli.uuid ≠ some (some cli.self)) :
    ∃ t, s.unlist [cli.self] = some t ∧ t.Sound ∧ t.rcv = .idle ∧
      t.cliInfoHash = s.cliInfoHash ∧ t.heap.live cli.self = false ∧
      t.tags = s.tags.set k (some { cli.toCliTag with gone := true }) := by
  have hB := hS.balanced
  rw [owned_struck hcli hgone] at hB
  rcases release_eq hB with ⟨heap, hrelease, hfreed, hB'⟩
  let clis := s.clis.set k (some { cli with buf := none, gone := true })
  have hstrike : { s with heap := heap }.strike cli.self =
      { s with heap := heap, clis := clis, lost := s.lost ++ cli.buf.toList } := by
    have howner : { s with heap := heap }.owner cli.self = k := by
      show s.owner cli.self = k
      exact owner_eq hS hcli
    have hcli' : { s with heap := heap }.cli k = some cli := hcli
    rw [strike, howner, hcli']
  have hmem : cli.self ∈ heap.freed := by
    rw [hfreed]
    exact List.mem_append_right _ (List.mem_singleton_self _)
  have htags : clis.map (Option.map CliBlock.toCliTag) =
      s.tags.set k (some { cli.toCliTag with gone := true }) := List.map_set
  refine ⟨{ s with heap := heap, clis := clis, lost := s.lost ++ cli.buf.toList }, ?_, ?_, hidle,
    rfl, heap.live_eq_false hmem, htags⟩
  · rw [unlist, hrelease, Option.map_some, List.foldl_cons, List.foldl_nil, hstrike]
  · refine hS.of_idle hidle hB' ?_
    rw [htags]
    refine (hS.clients.mono (freed_mono hfreed)).set (tags_of_cli hcli) hout ?_
    intro tag' htag'
    cases htag'
    exact ⟨rfl, hmem⟩

theorem unlist_nil : s.unlist [] = some s := rfl

theorem forget_spec (hS : s.Sound) (hidle : s.rcv = .idle) {tag : CliTag}
    (htag : s.tags[k]? = some (some tag)) (hout : s.cliInfoHash.get tag.uuid = none) :
    (s.forget k).Sound ∧ (s.forget k).tags = s.tags.set k none ∧
      (tag.gone = false → s.heap.live tag.self = true) := by
  rcases cli_of_tags htag with ⟨cli, hcli, rfl⟩
  have htags : (s.clis.set k none).map (Option.map CliBlock.toCliTag) = s.tags.set k none :=
    List.map_set
  have hB := hS.balanced
  refine ⟨?_, htags, fun hgone => hB.live (mem_owned_of_cli hcli ?_)⟩
  · rw [← owned_forget hcli] at hB
    refine hS.of_idle hidle hB ?_
    rw [htags]
    exact hS.clients.set htag (by simp [hout]) (by simp)
  · simp [blocks_of_intact hgone]

/-- The table frees the structure under the uuid of a connection that leaves: its own one, or that
of another client, which stays open. -/
theorem unlist_forget (hS : s.Sound) (hidle : s.rcv = .idle) {tag : CliTag}
    (htag : s.tags[k]? = some (some tag)) (hgone : tag.gone = false)
    (hdeleted : s.cliInfoHash.get tag.uuid = none) {k' : Nat} (hcli : s.cli k' = some cli)
    (hgone' : cli.gone = false) (huuid : cli.uuid = tag.uuid) :
    ∃ t, (s.unlist [cli.self]).map (fun t : ServerMemory => t.forget k) = some t ∧ t.Sound ∧
      t.heap.live tag.self = !(cli.self == tag.self) ∧
      (Apart s.tags → t.tags = s.tags.set k none) := by
  have htag' := tags_of_cli hcli
  have hout : s.cliInfoHash.get cli.uuid ≠ some (some cli.self) := by
    rw [huuid, hdeleted]
    simp
  rcases unlist_spec hS hidle hcli hgone' hout with
    ⟨u, hunlist, hu, hidle', htable, hfreed, hmarked⟩
  have hdeleted' : u.cliInfoHash.get tag.uuid = none := by rw [htable, hdeleted]
  refine ⟨u.forget k, by rw [hunlist, Option.map_some], ?_⟩
  by_cases hk : k' = k
  · rw [hk] at htag' hmarked
    cases htag.symm.trans htag'
    have hmark : u.tags[k]? = some (some { cli.toCliTag with gone := true }) := by
      rw [hmarked]
      exact List.getElem?_set_self (List.getElem?_eq_some_iff.1 htag).1
    rcases forget_spec hu hidle' hmark hdeleted' with ⟨ht, hforget, -⟩
    refine ⟨ht, ?_, fun _ => by rw [hforget, hmarked, List.set_set]⟩
    rw [beq_self_eq_true, Bool.not_true]
    exact hfreed
  · have hother : u.tags[k]? = some (some tag) := by
      rw [hmarked, List.getElem?_set_ne hk]
      exact htag
    rcases forget_spec hu hidle' hother hdeleted' with ⟨ht, hforget, hlive⟩
    have hself : cli.self ≠ tag.self := fun hself => hk (hS.clients.distinct htag' htag hself)
    refine ⟨ht, ?_, fun hA => absurd (hA.uuids htag' htag huuid) hk⟩
    rw [beq_eq_false_iff_ne.2 hself]
    exact hlive hgone

/-- The structure is freed by the close exactly when the table has it; with uuids that are apart no
other one is. -/
theorem closeCli_spec (hS : s.Sound) (hidle : s.rcv = .idle) (hcli : s.cli k = some cli)
    (hgone : cli.gone = false) :
    ∃ t, s.closeCli k cli = some t ∧ t.Sound ∧ t.heap.live cli.self = !s.listed cli ∧
      (Apart s.tags → t.tags = s.tags.set k none) := by
  rcases resetCliProto_spec hS hcli hgone with ⟨heap, hreset, hS₁⟩
  let s₁ : ServerMemory :=
    { s with heap := heap, clis := s.clis.set k (some { cli with buf := none }) }
  let s₂ : ServerMemory := { s₁ with cliInfoHash := (s.cliInfoHash.delete cli.uuid).2.1 }
  have htags : s₂.tags = s.tags := tags_set_buf hcli none
  have hC := hS₁.clients
  have hS₂ : s₂.Sound := hS₁.of_idle hidle hS₁.balanced (hC.delete cli.uuid)
  have hdeleted : s₂.cliInfoHash.get cli.uuid = none := by
    show (s.cliInfoHash.delete cli.uuid).2.1.get cli.uuid = none
    rw [U64Table.get_delete, if_pos rfl]
  have htag : s₂.tags[k]? = some (some cli.toCliTag) := by
    rw [htags]
    exact tags_of_cli hcli
  have hclose : s.closeCli k cli =
      (s₂.unlist (s.cliInfoHash.delete cli.uuid).2.2).map fun t : ServerMemory => t.forget k := by
    rw [closeCli, touch_self hS hcli hgone, Option.bind_some, hreset, Option.bind_some]
  rw [hclose, U64Table.delete_freed, ← htags, listed, U64Table.findVal_eq_get]
  cases hget : s.cliInfoHash.get cli.uuid with
  | none =>
      rcases forget_spec hS₂ hidle htag hdeleted with ⟨ht, hforget, hlive⟩
      exact ⟨_, by rw [unlist_nil, Option.map_some], ht, hlive hgone, fun _ => hforget⟩
  | some v =>
      rcases hS.clients.listed hget with ⟨k', tag', htag', hgone', huuid, rfl⟩
      rw [← htags] at htag'
      rcases cli_of_tags htag' with ⟨cli', hcli', rfl⟩
      exact unlist_forget hS₂ hidle htag hgone hdeleted hcli' hgone' huuid

/-- With a uuid that no other client has the insertion frees nothing. -/
theorem accept_spec (hS : s.Sound) (hidle : s.rcv = .idle) (uuid : UInt64)
    (node : Option NodeBlock) :
    ∃ t, s.accept uuid node = some t ∧ t.Sound ∧
      (Apart s.tags → s.apart (.accept uuid node) = true → Apart t.tags) := by
  let new : CliTag := { self := s.heap.count, uuid := uuid, gone := false }
  let s₁ : ServerMemory :=
    { s with
      heap := s.heap.alloc
      cliInfoHash := (s.cliInfoHash.insert node uuid (some s.heap.count)).2.1
      clis := s.clis ++ [some { toCliTag := new, buf := none }] }
  have htags : s₁.tags = s.tags ++ [some new] := by
    show List.map _ (s.clis ++ _) = _
    rw [List.map_append]
    rfl
  -- a block that is somewhere already is not the new one
  have hcount : ∀ (k : Nat) (tag : CliTag), s.tags[k]? = some (some tag) →
      tag.self ≠ s.heap.count := by
    intro k tag htag
    have hlt : tag.self < s.heap.count := by
      cases hgone : tag.gone with
      | true => exact hS.balanced.mem_iff.2 (Or.inr (hS.clients.gone htag hgone))
      | false =>
          rcases cli_of_tags htag with ⟨cli, hcli, rfl⟩
          refine hS.balanced.mem_iff.2 (Or.inl (mem_owned_of_cli hcli ?_))
          simp [blocks_of_intact hgone]
    exact Nat.ne_of_lt hlt
  have hC : Clients s₁.heap s₁.cliInfoHash s₁.tags := by
    rw [htags]
    exact (hS.clients.insert node uuid hcount).mono fun b hb => hb
  have hS₁ : s₁.Sound := by
    refine hS.of_idle hidle ?_ hC
    have hplace : s₁.owned = s.heap.count ::ₘ s.owned := by
      simp only [s₁, new, owned, List.flatMap_append, List.flatMap_singleton, cliBlocks,
        CliBlock.blocks, Option.toList_none, List.nil_append, Bool.false_eq_true, if_false,
        ← Multiset.coe_add, Multiset.coe_singleton, ← Multiset.singleton_add]
      abel
    show s.heap.alloc.Balanced s₁.owned
    rw [hplace]
    exact hS.balanced.alloc
  have happend : Apart s.tags → s.apart (.accept uuid node) = true → Apart s₁.tags := by
    intro hA hapart
    rw [htags]
    refine hA.snoc rfl fun k tag htag => ?_
    rcases cli_of_tags htag with ⟨cli, hcli, rfl⟩
    have hslot := List.all_eq_true.1 hapart _ (List.mem_of_getElem? (cli_eq_some_iff.1 hcli))
    simpa using hslot
  have haccept : s.accept uuid node =
      s₁.unlist (s.cliInfoHash.insert node uuid (some s.heap.count)).2.2 := rfl
  rw [haccept, U64Table.insert_freed]
  cases hget : s.cliInfoHash.get uuid with
  | none => exact ⟨s₁, unlist_nil, hS₁, happend⟩
  | some v =>
      rcases hS.clients.listed hget with ⟨k, tag, htag, hgone, huuid, rfl⟩
      have hlt := (List.getElem?_eq_some_iff.1 htag).1
      have htag₁ : s₁.tags[k]? = some (some tag) := by
        rw [htags, List.getElem?_append_left hlt, htag]
      rcases cli_of_tags htag₁ with ⟨cli, hcli, rfl⟩
      have hout : s₁.cliInfoHash.get cli.uuid ≠ some (some cli.self) := by
        show (s.cliInfoHash.insert node uuid (some s.heap.count)).2.1.get cli.uuid ≠ _
        rw [U64Table.get_insert, if_pos (Or.inl (by simp [hget])), if_pos huuid]
        intro hself
        exact hcount k _ htag (Option.some.inj (Option.some.inj hself)).symm
      rcases unlist_spec hS₁ hidle hcli hgone hout with ⟨t, hunlist, ht, -⟩
      refine ⟨t, hunlist, ht, fun hA hapart => ?_⟩
      have hnew := happend hA hapart
      have hlast : s₁.tags[s.tags.length]? = some (some new) := by
        rw [htags]
        exact List.getElem?_concat_length
      exact absurd (hnew.uuids htag₁ hlast huuid) (Nat.ne_of_lt hlt)

theorem header_spec (hS : s.Sound) (hidle : s.rcv = .idle) (hcli : s.cli k = some cli)
    (hbuf : cli.buf = none) (mem : Bool) :
    if cli.gone || (!mem && s.listed cli) then s.header k cli mem = none
    else ∃ t, s.header k cli mem = some t ∧ t.Sound ∧ (Apart s.tags → Apart t.tags) := by
  unfold header
  cases hgone : cli.gone with
  | true =>
      rw [touch_gone hS hcli hgone]
      rfl
  | false =>
      rw [touch_self hS hcli hgone, Option.bind_some]
      cases mem with
      | true =>
          have hset := owned_setCli (s := s) (y := some { cli with buf := some s.heap.count })
            (u := 0) (v := {s.heap.count}) (cli_eq_some_iff.1 hcli) (by
              simp only [cliBlocks, CliBlock.blocks, hgone, hbuf, Option.toList_none,
                Option.toList_some, Bool.false_eq_true, if_false, ← Multiset.coe_add,
                Multiset.coe_nil, Multiset.coe_singleton]
              abel)
          have hB := hS.balanced.alloc
          rw [← Multiset.singleton_add, add_comm, ← hset, add_zero] at hB
          refine ⟨_, rfl, hS.setBuf hcli (some s.heap.count) hB fun b hb => hb, fun hA => ?_⟩
          show Apart (List.map _ _)
          rw [tags_set_buf hcli]
          exact hA
      | false =>
          rcases closeCli_spec hS hidle hcli hgone with ⟨t, hclose, ht, hlive, htags⟩
          cases hlisted : s.listed cli with
          | false =>
              refine ⟨t, by simp [hclose, touch, hlive, hlisted], ht, fun hA => ?_⟩
              rw [htags hA]
              exact hA.set_none k
          | true => simp [hclose, touch, hlive, hlisted]

theorem handle_spec (hS : s.Sound) (hcomplete : s.rcv = .complete k) (hcli : s.cli k = some cli)
    (hgone : cli.gone = false) (msgType : UInt32) (mem : Bool) :
    ∃ t, s.handle k cli msgType mem = some t ∧ t.Sound ∧ t.tags = s.tags := by
  unfold handle
  rw [touch_self hS hcli hgone, Option.bind_some]
  have hrcv : s.rcv.blocks = [] := by
    rw [hcomplete]
    rfl
  cases mem with
  | true =>
      let msg : MsgBlock :=
        { self := s.heap.count, msgType := msgType, buf := cli.buf, returnAddr := none }
      have hblocks : (MsgPc.dispatch k msg).blocks.Perm
          ((s.heap.count :: cli.buf.toList) ++ s.rcv.blocks) := by
        rw [hrcv, List.append_nil]
        exact List.perm_append_singleton _ _
      refine ⟨{ s with
          heap := s.heap.alloc
          clis := s.clis.set k (some { cli with buf := none })
          rcv := .dispatch k msg }, rfl, ?_, tags_set_buf hcli none⟩
      constructor
      case balanced =>
        have htakes := owned_takes
          (s := { s with clis := s.clis.set k (some { cli with buf := none }) }) true hblocks
        have hB := hS.balanced
        rw [owned_handed hcli hgone] at hB
        have hB' := hB.alloc
        rw [← Multiset.cons_add, Multiset.cons_coe, ← htakes] at hB'
        exact hB'
      case clients =>
        show Clients s.heap.alloc s.cliInfoHash (List.map _ _)
        rw [tags_set_buf hcli none]
        exact hS.clients.mono fun b hb => hb
      case opened =>
        intro k' hconn
        cases hconn
        have hlt := (List.getElem?_eq_some_iff.1 (cli_eq_some_iff.1 hcli)).1
        exact ⟨_, cli_eq_some_iff.2 (List.getElem?_set_self hlt), hgone⟩
      case warned =>
        intro msg hwarn
        cases hwarn
      case bare =>
        intro rcv
        cases rcv with
        | false => exact hS.bare false
        | true => rfl
      case piped => exact hS.piped
  | false =>
      rcases resetCliProto_spec hS hcli hgone with ⟨heap, hreset, hS₁⟩
      have hidle : MsgPc.idle.blocks = s.rcv.blocks := hrcv.symm
      have hmoved := Sound.moves hS₁ true hidle rfl (by simp) trivial
      exact ⟨_, by rw [hreset]; rfl, hmoved, tags_set_buf hcli none⟩

theorem refuse_spec (hS : s.Sound) (hidle : s.rcv = .idle) :
    ∃ t, s.exec ipcDebugIo .refuse = some t ∧ t.Sound ∧ t.tags = s.tags := by
  rcases hS.balanced.alloc_free with ⟨heap, hfree, hfreed, hB⟩
  refine ⟨{ s with heap := heap }, by simp [exec, hfree], ?_, rfl⟩
  exact hS.of_idle hidle hB (hS.clients.mono (freed_mono hfreed))

theorem last_spec (hS : s.Sound) (hcli : s.cli k = some cli) (hidle : s.rcv = .idle)
    (hgone : cli.gone = false) :
    ∃ t, s.exec ipcDebugIo (.last k) = some t ∧ t.Sound ∧ t.tags = s.tags := by
  refine ⟨s.setPc true (.complete k), by simp [exec, hcli, touch_payload hS hcli hgone]; rfl, ?_,
    rfl⟩
  refine ⟨?_, hS.clients, ?_, ?_, ?_, hS.piped⟩
  · rw [owned_moves true (.complete k) (show _ = s.rcv.blocks by rw [hidle]; rfl)]
    exact hS.balanced
  · intro k' hconn
    cases hconn
    exact ⟨cli, hcli, hgone⟩
  · intro msg hwarn
    cases hwarn
  · intro rcv
    cases rcv with
    | false => exact hS.bare false
    | true => exact trivial

/-! ### Steps of a message -/

variable (ipcDebugIo) in
theorem dispatch_spec (hS : s.Sound) (hdispatch : s.rcv = .dispatch k msg) (mem : Bool) :
    ∃ t, s.dispatch ipcDebugIo k msg mem = some t ∧ t.Sound ∧ t.tags = s.tags := by
  have hpc : s.pc true = .dispatch k msg := hdispatch
  have hblocks : (s.pc true).blocks = msg.blocks := blocks_of_msg (by rw [hpc]; rfl)
  have hnone : msg.returnAddr = none := by
    have hbare := hS.bare true
    rw [hpc] at hbare
    exact hbare
  rcases hS.opened k (by rw [hdispatch]; rfl) with ⟨cli, hcli, hgone⟩
  unfold dispatch
  rw [touch_msg_self hS true hblocks, Option.bind_some]
  split
  · split
    · exact ⟨_, rfl, hS.moves true hblocks.symm rfl (by simp) (by simp [MsgPc.Bare]), rfl⟩
    · rename_i buf hbuf
      split
      · have hcopy : s.touch [buf] = some s := by
          refine touch_msg hS true hblocks fun b hmem => ?_
          simp [MsgBlock.blocks, hbuf, List.mem_singleton.1 hmem]
        refine ⟨_, by rw [hcopy, Option.map_some], ?_, ?_⟩
        · exact hS.replies true hblocks hnone rfl rfl (by simp) (by simp [MsgPc.Bare])
        · rfl
      · exact ⟨_, rfl, hS.moves true hblocks.symm rfl (by simp) trivial, rfl⟩
  · split
    · refine ⟨_, rfl, ?_, rfl⟩
      cases ipcDebugIo
      · exact hS.moves true hblocks.symm rfl (by simp) hnone
      · exact hS.moves true hblocks.symm rfl (by simp) trivial
    · split
      · refine ⟨_, by rw [hcli, Option.bind_some, touch_self hS hcli hgone, Option.map_some], ?_,
          ?_⟩
        · exact hS.moves true hblocks.symm rfl (by simp) fun _ => hnone
        · rfl
      · split
        · exact ⟨_, rfl, hS.moves true hblocks.symm rfl (by simp) hnone, rfl⟩
        · exact ⟨_, rfl, hS.moves true hblocks.symm rfl (by simp) trivial, rfl⟩

theorem send_spec (hS : s.Sound) (rcv piped : Bool) (hsend : s.pc rcv = .send msg piped)
    (mem : Bool) : ∃ t, s.send rcv msg piped mem = some t ∧ t.Sound ∧ t.tags = s.tags := by
  have hblocks : (s.pc rcv).blocks = msg.blocks := blocks_of_msg (by rw [hsend]; rfl)
  have htouch : s.touch (msg.self :: msg.returnAddr.toList) = some s := by
    refine touch_msg hS rcv hblocks fun b hmem => ?_
    rcases List.mem_cons.1 hmem with rfl | hmem
    · exact msg.self_mem_blocks
    · simp [MsgBlock.blocks, Option.mem_toList.1 hmem]
  have hbare := hS.bare rcv
  rw [hsend] at hbare
  let next := if piped then MsgPc.pipe msg else MsgPc.free msg false
  have hnext : next.blocks = (s.pc rcv).blocks ∧ next.conn = none ∧ (∀ msg', next ≠ .warn msg') ∧
      next.Bare := by
    cases piped with
    | false => exact ⟨hblocks.symm, rfl, by simp [next], trivial⟩
    | true => exact ⟨hblocks.symm, rfl, by simp [next], hbare rfl⟩
  rcases hnext with ⟨hpc, hconn, hwarn, hb⟩
  unfold send
  rw [htouch, Option.bind_some]
  cases mem with
  | true =>
      rcases hS.balanced.alloc_free with ⟨heap, hfree, hfreed, hB⟩
      refine ⟨{ s with heap := heap }.setPc rcv next, by simp [hfree, next], ?_,
        tags_setPc rcv next⟩
      refine Sound.setPc hS rcv ?_ (freed_mono hfreed) hconn
        (fun msg' hmsg => absurd hmsg (hwarn msg')) hb
      rw [owned_moves rcv next hpc]
      exact hB
  | false => exact ⟨s.setPc rcv next, rfl, hS.moves rcv hpc hconn hwarn hb, tags_setPc rcv next⟩

theorem call_spec (hS : s.Sound) (hcall : s.cb = .call msg) (ret : Bool) :
    ∃ t, s.call msg ret = some t ∧ t.Sound ∧ t.tags = s.tags := by
  have hpc : s.pc false = .call msg := hcall
  have hblocks : (s.pc false).blocks = msg.blocks := blocks_of_msg (by rw [hpc]; rfl)
  have hnone : msg.returnAddr = none := by
    have hbare := hS.bare false
    rw [hpc] at hbare
    exact hbare
  have htouch : s.touch (msg.self :: msg.buf.toList) = some s := by
    refine touch_msg hS false hblocks fun b hmem => ?_
    rcases List.mem_cons.1 hmem with rfl | hmem
    · exact msg.self_mem_blocks
    · simp [MsgBlock.blocks, Option.mem_toList.1 hmem]
  unfold call
  rw [htouch, Option.map_some]
  refine ⟨_, rfl, ?_, by cases ret <;> rfl⟩
  cases ret with
  | true =>
      by_cases hsync : msg.msgType = ucIpcMsgTypeSyncSend
      · simp only [hsync, if_true]
        exact hS.replies false hblocks hnone rfl rfl (by simp) (by simp [MsgPc.Bare])
      · simp only [hsync, if_true, if_false]
        exact hS.replies false hblocks hnone rfl rfl (by simp) trivial
  | false =>
      by_cases hsync : msg.msgType = ucIpcMsgTypeSyncSend
      · simp only [hsync, if_true]
        exact hS.moves false hblocks.symm rfl (by simp) (by simp [MsgPc.Bare])
      · simp only [hsync, if_false]
        exact hS.moves false hblocks.symm rfl (by simp) trivial

theorem free_spec (hS : s.Sound) (rcv warn : Bool) (hfree : s.pc rcv = .free msg warn) :
    ∃ t, s.exec ipcDebugIo (.free rcv) = some t ∧ t.Sound ∧ t.tags = s.tags := by
  have hblocks : (s.pc rcv).blocks = msg.blocks := blocks_of_msg (by rw [hfree]; rfl)
  have htouch := touch_msg_self hS rcv hblocks
  let next := if warn then MsgPc.warn msg else MsgPc.idle
  have hnext : next.blocks = [] ∧ next.conn = none ∧ next.Bare := by
    cases warn <;> exact ⟨rfl, rfl, trivial⟩
  rcases hnext with ⟨hnil, hconn, hbare⟩
  have hB := hS.balanced
  have hdrops : (s.pc rcv).blocks = msg.blocks ++ next.blocks := by
    rw [hblocks, hnil, List.append_nil]
  rw [owned_drops rcv next hdrops] at hB
  rcases release_eq hB with ⟨heap, hrelease, hfreed, hB'⟩
  refine ⟨{ s with heap := heap }.setPc rcv next, ?_, ?_, tags_setPc rcv next⟩
  · simp [exec, hfree, htouch, hrelease, next]
  · refine Sound.setPc hS rcv hB' (freed_mono hfreed) hconn (fun msg' hmsg => ?_) hbare
    have hmsg' : msg = msg' := by
      cases warn with
      | false => simp [next] at hmsg
      | true => simpa [next] using hmsg
    rw [hfreed, ← hmsg']
    exact List.mem_append_right _ (MsgBlock.self_mem_blocks msg)

theorem write_spec (hS : s.Sound) (hpipe : s.rcv = .pipe msg) (ok : Bool) :
    ∃ t, s.exec ipcDebugIo (.write ok) = some t ∧ t.Sound ∧ t.tags = s.tags := by
  have hpc : s.pc true = .pipe msg := hpipe
  have hblocks : (s.pc true).blocks = msg.blocks := blocks_of_msg (by rw [hpc]; rfl)
  cases ok with
  | true =>
      refine ⟨{ s with pipe := s.pipe ++ [msg], rcv := .idle }, by simp [exec, hpipe], ?_, rfl⟩
      have hplace : { s with pipe := s.pipe ++ [msg], rcv := MsgPc.idle }.owned = s.owned := by
        have hdrops : (s.pc true).blocks = msg.blocks ++ MsgPc.idle.blocks := by
          rw [hblocks]
          exact (List.append_nil _).symm
        rw [owned_drops true .idle hdrops]
        simp only [owned, setPc, List.flatMap_append, List.flatMap_singleton, ← Multiset.coe_add]
        abel
      refine ⟨?_, hS.clients, ?_, ?_, ?_, ?_⟩
      · show s.heap.Balanced _
        rw [hplace]
        exact hS.balanced
      · intro k hconn
        cases hconn
      · intro msg' hwarn
        cases hwarn
      · intro rcv
        cases rcv with
        | false => exact hS.bare false
        | true => exact trivial
      · intro msg' hmem
        rcases List.mem_append.1 hmem with hmem | hmem
        · exact hS.piped msg' hmem
        · rw [List.mem_singleton.1 hmem]
          have hbare := hS.bare true
          rw [hpc] at hbare
          exact hbare
  | false =>
      refine ⟨s.setPc true (.free msg false), by simp [exec, hpipe]; rfl, ?_, rfl⟩
      exact hS.moves true hblocks.symm rfl (by simp) trivial

theorem take_spec (hS : s.Sound) (hidle : s.cb = .idle) {pipe : List MsgBlock}
    (hpipe : s.pipe = msg :: pipe) :
    ∃ t, s.exec ipcDebugIo .take = some t ∧ t.Sound ∧ t.tags = s.tags := by
  have hmem : msg ∈ s.pipe := by simp [hpipe]
  have htouch : s.touch [msg.self] = some s := by
    refine touch_eq hS fun b hb => ?_
    rw [List.mem_singleton.1 hb]
    have hblock : msg.self ∈ s.pipe.flatMap MsgBlock.blocks :=
      List.mem_flatMap.2 ⟨msg, hmem, msg.self_mem_blocks⟩
    simp [owned, -List.mem_flatMap, hblock]
  let next := if msg.calls then MsgPc.call msg else MsgPc.free msg false
  have hnext : next.blocks = msg.blocks ∧ next.Bare := by
    have hnone := hS.piped msg hmem
    cases hcalls : msg.calls with
    | false => simp [next, hcalls, MsgPc.blocks, MsgPc.msg, MsgPc.Bare]
    | true => simp [next, hcalls, MsgPc.blocks, MsgPc.msg, MsgPc.Bare, hnone]
  have hplace : { s with pipe := pipe, cb := next }.owned = s.owned := by
    simp only [owned, hpipe, hidle, hnext.1, List.flatMap_cons, ← Multiset.coe_add,
      show MsgPc.idle.blocks = [] from rfl, Multiset.coe_nil]
    abel
  refine ⟨{ s with pipe := pipe, cb := next }, by simp [exec, hpipe, htouch, next], ?_, rfl⟩
  refine ⟨?_, hS.clients, hS.opened, hS.warned, ?_, ?_⟩
  · show s.heap.Balanced _
    rw [hplace]
    exact hS.balanced
  · intro rcv
    cases rcv with
    | false => exact hnext.2
    | true => exact hS.bare true
  · intro msg' hmem'
    exact hS.piped msg' (by rw [hpipe]; exact List.mem_cons_of_mem _ hmem')

/-! ## Runs -/

/-- A step that leaves the structures where they are. -/
theorem keeps_apart {e : MemoryEvent}
    (hspec : ∃ t, s.exec ipcDebugIo e = some t ∧ t.Sound ∧ t.tags = s.tags) :
    ∃ t, s.exec ipcDebugIo e = some t ∧ t.Sound ∧
      (Apart s.tags → s.apart e = true → Apart t.tags) := by
  rcases hspec with ⟨t, hexec, ht, htags⟩
  refine ⟨t, hexec, ht, fun hA _ => ?_⟩
  rw [htags]
  exact hA

variable (ipcDebugIo) in
/-- A step has no result exactly when it uses a block that was freed. -/
theorem Sound.step (hS : s.Sound) {e : MemoryEvent} (henabled : s.enabled e = true) :
    if s.reportsFreed e then s.exec ipcDebugIo e = none
    else ∃ t, s.exec ipcDebugIo e = some t ∧ t.Sound ∧
      (Apart s.tags → s.apart e = true → Apart t.tags) := by
  cases e with
  | accept uuid node => exact accept_spec hS (rcv_of_reading henabled) uuid node
  | refuse => exact keeps_apart (refuse_spec hS (rcv_of_reading henabled))
  | header k mem =>
      rcases Bool.and_eq_true_iff.1 henabled with ⟨hreading, hnew⟩
      cases hcli : s.cli k with
      | none => simp [hcli] at hnew
      | some cli =>
          have hbuf : cli.buf = none := by simpa [hcli] using hnew
          have hspec := header_spec hS (rcv_of_reading hreading) hcli hbuf mem
          simpa [reportsFreed, exec, hcli, apart] using hspec
  | piece k =>
      rcases Bool.and_eq_true_iff.1 henabled with ⟨hreading, hsome⟩
      rcases Option.isSome_iff_exists.1 hsome with ⟨cli, hcli⟩
      cases hgone : cli.gone with
      | true => simp [reportsFreed, exec, hcli, hgone, touch_gone hS hcli hgone]
      | false =>
          have htouch := touch_payload hS hcli hgone
          simp only [reportsFreed, hcli, Option.any_some, hgone, Bool.false_eq_true, if_false]
          exact keeps_apart ⟨s, by simp [exec, hcli, htouch], hS, rfl⟩
  | last k =>
      rcases Bool.and_eq_true_iff.1 henabled with ⟨hreading, hsome⟩
      rcases Option.isSome_iff_exists.1 hsome with ⟨cli, hcli⟩
      cases hgone : cli.gone with
      | true => simp [reportsFreed, exec, hcli, hgone, touch_gone hS hcli hgone]
      | false =>
          simp only [reportsFreed, hcli, Option.any_some, hgone, Bool.false_eq_true, if_false]
          exact keeps_apart (last_spec hS hcli (rcv_of_reading hreading) hgone)
  | close k =>
      rcases Bool.and_eq_true_iff.1 henabled with ⟨hreading, hsome⟩
      rcases Option.isSome_iff_exists.1 hsome with ⟨cli, hcli⟩
      cases hgone : cli.gone with
      | true => simp [reportsFreed, exec, closeCli, hcli, hgone, touch_gone hS hcli hgone]
      | false =>
          rcases closeCli_spec hS (rcv_of_reading hreading) hcli hgone with
            ⟨t, hclose, ht, -, htags⟩
          simp only [reportsFreed, hcli, Option.any_some, hgone, Bool.false_eq_true, if_false]
          refine ⟨t, by simp [exec, hcli, hclose], ht, fun hA _ => ?_⟩
          rw [htags hA]
          exact hA.set_none k
  | handle msgType mem =>
      cases hrcv : s.rcv with
      | complete k =>
          rcases hS.opened k (by rw [hrcv]; rfl) with ⟨cli, hcli, hgone⟩
          rcases handle_spec hS hrcv hcli hgone msgType mem with ⟨t, hhandle, ht⟩
          exact keeps_apart ⟨t, by simp [exec, hrcv, hcli, hhandle], ht⟩
      | _ => simp [enabled, hrcv] at henabled
  | dispatch mem =>
      cases hrcv : s.rcv with
      | dispatch k msg =>
          rcases dispatch_spec ipcDebugIo hS hrcv mem with ⟨t, hdispatch, ht⟩
          exact keeps_apart ⟨t, by simp [exec, hrcv, hdispatch], ht⟩
      | _ => simp [enabled, hrcv] at henabled
  | send rcv mem =>
      cases hpc : s.pc rcv with
      | send msg piped =>
          rcases send_spec hS rcv piped hpc mem with ⟨t, hsend, ht⟩
          exact keeps_apart ⟨t, by simp [exec, hpc, hsend], ht⟩
      | _ => simp [enabled, hpc] at henabled
  | write ok =>
      cases hrcv : s.rcv with
      | pipe msg => exact keeps_apart (write_spec hS hrcv ok)
      | _ => simp [enabled, hrcv] at henabled
  | free rcv =>
      cases hpc : s.pc rcv with
      | free msg warn => exact keeps_apart (free_spec hS rcv warn hpc)
      | _ => simp [enabled, hpc] at henabled
  | warn =>
      cases hrcv : s.rcv with
      | warn msg =>
          have hlive := s.heap.live_eq_false (hS.warned msg hrcv)
          show s.exec ipcDebugIo .warn = none
          simp [exec, hrcv, touch, hlive]
      | _ => simp [enabled, hrcv] at henabled
  | take =>
      cases hcb : s.cb with
      | idle =>
          cases hpipe : s.pipe with
          | nil => simp [enabled, hcb, hpipe] at henabled
          | cons msg pipe => exact keeps_apart (take_spec hS hcb hpipe)
      | _ => simp [enabled, hcb] at henabled
  | call ret =>
      cases hcb : s.cb with
      | call msg =>
          rcases call_spec hS hcb ret with ⟨t, hcall, ht⟩
          exact keeps_apart ⟨t, by simp [exec, hcb, hcall], ht⟩
      | _ => simp [enabled, hcb] at henabled

theorem Sound.exec (hS : s.Sound) {e : MemoryEvent} (henabled : s.enabled e = true)
    {t : ServerMemory} (hexec : s.exec ipcDebugIo e = some t) :
    t.Sound ∧ (Apart s.tags → s.apart e = true → Apart t.tags) := by
  have hstep := hS.step ipcDebugIo henabled
  cases hreports : s.reportsFreed e with
  | true =>
      rw [hreports, if_pos rfl] at hstep
      cases hstep.symm.trans hexec
  | false =>
      rw [hreports, if_neg (by simp)] at hstep
      rcases hstep with ⟨t', hexec', ht⟩
      cases hexec'.symm.trans hexec
      exact ht

theorem run_sound {events : List MemoryEvent} (hrun : (machine ipcDebugIo).Run ofInit events s) :
    s.Sound := by
  refine hrun.invariant (J := Sound) ofInit_sound ?_ (fun _ _ => trivial : ∀ e ∈ events, True)
  intro t u e hS _ henabled hexec
  exact (hS.exec henabled hexec).1

/-- As long as every client has a uuid of its own, no structure is freed under its connection. -/
theorem run_apart {events : List MemoryEvent}
    (hrun : ((machine ipcDebugIo).restrict apart).Run ofInit events s) : Apart s.tags := by
  have hstart : ofInit.Sound ∧ Apart ofInit.tags :=
    ⟨ofInit_sound, by simp [tags, ofInit], by simp [tags, ofInit]⟩
  refine (hrun.invariant (J := fun s => s.Sound ∧ Apart s.tags) hstart ?_
    (fun _ _ => trivial : ∀ e ∈ events, True)).2
  rintro t u e ⟨hS, hA⟩ - henabled hexec
  rcases Bool.and_eq_true_iff.1 henabled with ⟨henabled', hapart⟩
  have hexec' := hS.exec henabled' hexec
  exact ⟨hexec'.1, hexec'.2 hA hapart⟩

/-- With no connection, an empty pipe and both threads idle only the lost clients are left. -/
theorem Sound.quiet (hS : s.Sound) (hclis : ∀ cli ∈ s.clis, cli = none) (hrcv : s.rcv = .idle)
    (hpipe : s.pipe = []) (hcb : s.cb = .idle) :
    (s.lost ++ s.heap.freed).Perm (List.range s.heap.count) := by
  have hnone : s.clis.flatMap cliBlocks = [] := by
    refine List.flatMap_eq_nil_iff.2 fun cli hmem => ?_
    rw [hclis cli hmem]
    rfl
  have howned : s.owned = (s.lost : Multiset Nat) := by
    simp [owned, hnone, hrcv, hpipe, hcb, MsgPc.blocks, MsgPc.msg]
  have hB := hS.balanced
  rw [howned] at hB
  exact Multiset.coe_eq_coe.1 hB

/-- In every run of the two threads, whichever allocations, inserts and writes fail and whichever
uuids the clients get. -/
theorem ucIpcServer_memory {events : List MemoryEvent}
    (hrun : (machine ipcDebugIo).Run ofInit events s) :
    (∀ b, s.heap.live b = true ↔ b ∈ s.owned) ∧ s.owned.Nodup ∧ s.heap.freed.Nodup ∧
      (∀ e, s.enabled e = true → (s.exec ipcDebugIo e = none ↔ s.reportsFreed e = true)) ∧
      (((machine ipcDebugIo).restrict apart).Run ofInit events s →
        ∀ k cli, s.cli k = some cli → cli.gone = false) ∧
      ((∀ cli ∈ s.clis, cli = none) → s.rcv = .idle → s.pipe = [] → s.cb = .idle →
        (s.lost ++ s.heap.freed).Perm (List.range s.heap.count)) := by
  have hS := run_sound hrun
  refine ⟨fun b => hS.balanced.live_iff, hS.balanced.owned_nodup, hS.balanced.freed_nodup, ?_, ?_,
    hS.quiet⟩
  · intro e henabled
    have hstep := hS.step ipcDebugIo henabled
    cases hreports : s.reportsFreed e with
    | true =>
        rw [hreports, if_pos rfl] at hstep
        exact ⟨fun _ => rfl, fun _ => hstep⟩
    | false =>
        rw [hreports, if_neg (by simp)] at hstep
        rcases hstep with ⟨t, hexec, -⟩
        simp [hexec]
  · intro hapart k cli hcli
    exact (run_apart hapart).intact (tags_of_cli hcli)

/-- A synchronous call with its reply, a heartbeat without memory for the copy, a client that the
table does not take, a message of a type that the server does not know, and a client that gets the
uuid of another one. -/
def threeMessages : List MemoryEvent :=
  [.accept 5 (some (nodeAt 1)), .header 0 true, .piece 0, .last 0,
    .handle ucIpcMsgTypeSyncSend true, .dispatch true, .write true, .accept 6 none, .header 1 true,
    .take, .last 1, .handle ucIpcMsgTypeHeartbeat true, .dispatch false, .call true, .free true,
    .send false true, .close 1, .free false, .header 0 true, .accept 5 (some (nodeAt 2)), .last 2,
    .handle 9 true, .dispatch true, .free true]

theorem ucIpcServer_memory_three : ∃ s : ServerMemory,
    (machine false).Run ofInit threeMessages s ∧ s.lost = [3, 8] ∧
      s.heap.freed = [4, 5, 7, 1, 6, 2, 0, 10] ∧ s.exec false .warn = none ∧
      s.exec false (.last 0) = none ∧ ∀ b, s.heap.live b = true ↔ b ∈ s.owned := by
  have hplay : ((machine false).play ofInit threeMessages).any (fun s =>
      decide (s.lost = [3, 8] ∧ s.heap.freed = [4, 5, 7, 1, 6, 2, 0, 10] ∧
        (s.exec false .warn).isNone = true ∧ (s.exec false (.last 0)).isNone = true)) = true := by
    decide +kernel
  rcases Machine.exists_run_of_play hplay with ⟨s, hrun, htest⟩
  rcases of_decide_eq_true htest with ⟨hlost, hfreed, hwarn, hlast⟩
  exact ⟨s, hrun, hlost, hfreed, Option.isNone_iff_eq_none.1 hwarn,
    Option.isNone_iff_eq_none.1 hlast, (ucIpcServer_memory hrun).1⟩

end ServerMemory
end Ipc
end UtilsC
