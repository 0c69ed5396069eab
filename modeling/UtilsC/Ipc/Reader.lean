import UtilsC.Lib.Framing
import UtilsC.Lib.Machine
import UtilsC.Ipc.Io

/-!
# Reading messages

`uc_ipc_server_read_client` puts a message together from what `read()` gives, a piece at a time, and
may come back to it at any later time; the pieces have nothing to do with where messages begin.

* `CliProto` are the fields of `uc_ipc_cli_t` it works on, with the header and the payload as the
  memory blocks that `read()` fills.
* `Holds cli p` is the invariant between calls: `cli` has read the bytes `p` of a message.
* `Whole` is the set of the byte strings that are one message.  It is prefix-free, and this is why
  the messages found are the messages sent.
-/

namespace UtilsC
namespace Ipc

open Lib

/-- One result of `read()`; `mem` is what `malloc` gives, if this piece completes a header that
announces a payload. -/
inductive ReadResult
  | data (bytes : List UInt8) (mem : Option (List UInt8))
  | eof
  | eintr
  | eagain
  | error

/-- `sizeof(cli->ipc_head)`. -/
def headSize : UInt64 := 28

/-- `UC_IPC_MSG_READ_BLOCK_LEN_MAX`. -/
def ucIpcMsgReadBlockLenMax : UInt64 := 1024 * 8

/-- The part of `uc_ipc_cli_t` for the protocol. -/
structure CliProto where
  hasRead : UInt64
  headDone : Bool
  bufDone : Bool
  ipcHead : List UInt8
  buf : Option (List UInt8)

/-- `uc_ipc_server_reset_cli_proto`; `calloc` leaves a new client in the same state. -/
def ucIpcServerResetCliProto : CliProto where
  hasRead := 0
  headDone := false
  bufDone := false
  ipcHead := List.replicate protoHeaderSize 0
  buf := none

namespace CliProto

/-- How a round of the loop ends. -/
inductive Next
  | again (cli : CliProto)
  | ret (value : Int) (cli : CliProto)
  /-- `uc_ipc_server_close_cli`, which frees the client, before the return -/
  | close (value : Int)

section Code

variable (cli : CliProto)

def ttl : UInt64 :=
  (ProtoHeader.decode cli.ipcHead).ttl

/-- The number of bytes asked for. -/
def want : UInt64 :=
  if cli.headDone = false then
    headSize - cli.hasRead
  else
    -- the payload is read in blocks of at most 8 KiB
    let want := cli.ttl - (cli.hasRead - headSize)
    if ucIpcMsgReadBlockLenMax < want then ucIpcMsgReadBlockLenMax else want

/-- `read()` fills in the header or the payload. -/
def store (bytes : List UInt8) : Option CliProto :=
  if cli.headDone = false then
    (overwrite cli.ipcHead cli.hasRead.toNat bytes).map fun head => { cli with ipcHead := head }
  else
    cli.buf.bind fun block =>
      (overwrite block (cli.hasRead - headSize).toNat bytes).map fun block' =>
        { cli with buf := some block' }

/-- The end of a round in which something was read. -/
def afterBlock (count want : UInt64) : Next :=
  -- a short read means that nothing more is there for now
  if cli.bufDone then .ret 1 cli else if count < want then .ret 0 cli else .again cli

/-- What follows when `has_read` has been moved on.  `malloc` gives a block of the size asked for,
and never one of more than 2^63 bytes. -/
def received (count want : UInt64) (mem : Option (List UInt8)) : Option Next :=
  if cli.headDone = false then
    if cli.hasRead = headSize then
      if cli.hasRead = headSize + cli.ttl then
        -- a message without a payload has no second part to read
        some (afterBlock { cli with headDone := true, buf := none, bufDone := true } count want)
      else
        match mem with
        -- the message printed here reads the length out of the freed client
        | none => some (.close (-0x48a6af21))
        | some block =>
            if block.length = cli.ttl.toNat ∧ block.length ≤ 2 ^ 63 then
              some (afterBlock { cli with headDone := true, buf := some block } count want)
            else
              none
    else if headSize < cli.hasRead then
      some (.close (-0x4a9e0f3d))
    else
      some (.ret 0 cli)
  else if cli.bufDone = false then
    if cli.hasRead = headSize + cli.ttl then
      some (afterBlock { cli with bufDone := true } count want)
    else if headSize + cli.ttl < cli.hasRead then
      some (.close (-0x73978bc5))
    else
      some (.ret 0 cli)
  else
    some (cli.afterBlock count want)

/-- One round of the loop; `read()` gives something, but no more than was asked for. -/
def readOnce : ReadResult → Option Next
  | .data bytes mem =>
      if 0 < bytes.length ∧ bytes.length ≤ cli.want.toNat then
        let count := UInt64.ofNat bytes.length
        (cli.store bytes).bind fun cli' =>
          { cli' with hasRead := cli'.hasRead + count }.received count cli.want mem
      else
        none
  | .eof => some (.close (-0x46dd3fd2))
  | .eintr => some (.again cli)
  | .eagain => some (.ret 0 cli)
  | .error => some (.close (-0x31ecfc83))

end Code

/-- `uc_ipc_server_read_client`, over the results that `read()` gives.  The client comes back unless
it has been closed. -/
def ucIpcServerReadClient (cli : CliProto) : List ReadResult → Option (Int × Option CliProto)
  -- the loop is not entered when a message is complete already
  | [] => if cli.headDone && cli.bufDone then some (-0x34a82f5c, none) else none
  | r :: results =>
      if cli.headDone && cli.bufDone then
        none
      else
        match cli.readOnce r with
        | none => none
        | some (.again cli') => ucIpcServerReadClient cli' results
        | some (.ret value cli') => if results.isEmpty then some (value, some cli') else none
        | some (.close value) => if results.isEmpty then some (value, none) else none

end CliProto

/-- What `uc_ipc_pipe_data_t` takes over from the client. -/
structure PipeData where
  ipcHead : ProtoHeader
  buf : Option (List UInt8)
  deriving DecidableEq

namespace CliProto

/-- `uc_ipc_server_handle_client_msg` up to where it has taken the message over;
`ucIpcServerHandleClientMsg` is the rest of it.  `malloc` says whether there is memory for the
message. -/
def handOver (cli : CliProto) (malloc : Bool) : Int × Option PipeData × CliProto :=
  if cli.bufDone = false then
    (-0x33a51be5, none, cli)
  -- the message is given up, and the client is ready for the next one
  else if malloc = false then
    (-0x19171e01, none, ucIpcServerResetCliProto)
  else
    (0, some { ipcHead := ProtoHeader.decode cli.ipcHead, buf := cli.buf },
      ucIpcServerResetCliProto)

end CliProto

/-- A turn of `uc_ipc_server_loop_rcv` for this client. -/
structure ReadCall where
  reads : List ReadResult
  malloc : Bool

/-- One connection as its reader sees it; `msgs` are the messages taken over, in order. -/
structure Reader where
  cli : Option CliProto
  msgs : List PipeData

namespace Reader

def exec (s : Reader) (call : ReadCall) : Option Reader :=
  s.cli.bind fun cli =>
    (cli.ucIpcServerReadClient call.reads).map fun r =>
      match r with
      | (_, none) => { s with cli := none }
      | (ret, some cli') =>
          -- `uc_ipc_server_handle_client_msg` is called when a message is complete
          if 0 < ret then
            let taken := cli'.handOver call.malloc
            { cli := some taken.2.2, msgs := s.msgs ++ taken.2.1.toList }
          else
            { s with cli := some cli' }

def machine : Machine Reader ReadCall where
  enabled s _ := s.cli.isSome
  exec := exec

/-- The reader of a connection that has been accepted. -/
def ofAccept : Reader where
  cli := some ucIpcServerResetCliProto
  msgs := []

end Reader

/-! ## Messages as byte strings -/

/-- A header followed by as many bytes as it announces. -/
def Whole (m : List UInt8) : Prop :=
  m.length = protoHeaderSize + (ProtoHeader.decode m).ttl.toNat

theorem whole_prefixFree : PrefixFree Whole where
  ne_nil := by
    rintro w hw rfl
    have hpos : 0 = 28 + (ProtoHeader.decode []).ttl.toNat := hw
    omega
  eq_of_prefix := by
    rintro v w hv hw ⟨t, rfl⟩
    have hlong : protoHeaderSize ≤ v.length := by
      rw [hv]
      exact Nat.le_add_right _ _
    rw [Whole, ProtoHeader.decode_append hlong, List.length_append, ← hv] at hw
    -- both lengths come from the one header
    have hnil : t = [] := List.eq_nil_of_length_eq_zero (by omega)
    rw [hnil, List.append_nil]

theorem Frame.whole (frame : Frame) : Whole frame.encode := by
  rw [Whole, Frame.decode_encode, frame.ttl_eq]
  exact frame.encode_length

namespace PipeData

/-- The message that a byte string is. -/
def ofWord (m : List UInt8) : PipeData where
  ipcHead := ProtoHeader.decode m
  buf := if m.length = protoHeaderSize then none else some (m.drop protoHeaderSize)

/-- A packet on the side of the receiver; an empty payload has no block. -/
def ofFrame (frame : Frame) : PipeData where
  ipcHead := frame.head
  buf := if frame.buf.bytes = [] then none else some frame.buf.bytes

theorem ofWord_encode (frame : Frame) : ofWord frame.encode = ofFrame frame := by
  have hdrop : frame.encode.drop protoHeaderSize = frame.buf.bytes := by
    rw [Frame.encode, List.drop_left' frame.head.encode_length]
  have hlength : frame.encode.length = protoHeaderSize ↔ frame.buf.bytes = [] := by
    rw [frame.encode_length]
    simp
  simp only [ofWord, ofFrame, hdrop, hlength, Frame.decode_encode]

end PipeData

namespace CliProto

/-! ## The invariant between calls -/

/-- The bytes `p` of a message have been read, and the message is not complete. -/
inductive Holds : CliProto → List UInt8 → Prop
  | head {p rest : List UInt8} {hasRead : UInt64} (hread : hasRead.toNat = p.length)
      (hblock : p.length + rest.length = protoHeaderSize) (hopen : 0 < rest.length) :
      Holds
        { hasRead := hasRead, headDone := false, bufDone := false, ipcHead := p ++ rest,
          buf := none } p
  | body {head q rest : List UInt8} {hasRead : UInt64}
      (hread : hasRead.toNat = protoHeaderSize + q.length) (hhead : head.length = protoHeaderSize)
      (hblock : q.length + rest.length = (ProtoHeader.decode head).ttl.toNat)
      (hmalloc : q.length + rest.length ≤ 2 ^ 63) (hopen : 0 < rest.length) :
      Holds
        { hasRead := hasRead, headDone := true, bufDone := false, ipcHead := head,
          buf := some (q ++ rest) } (head ++ q)

theorem reset_holds : Holds ucIpcServerResetCliProto [] := by
  have hempty := @Holds.head [] (List.replicate protoHeaderSize 0) 0 rfl rfl (by decide)
  rwa [List.nil_append] at hempty

/-- The message `m` is complete. -/
structure Done (cli : CliProto) (m : List UInt8) : Prop where
  whole : Whole m
  bufDone : cli.bufDone = true
  message : { ipcHead := ProtoHeader.decode cli.ipcHead, buf := cli.buf } = PipeData.ofWord m

variable {cli : CliProto} {p : List UInt8}

theorem Holds.cutShort (h : Holds cli p) : CutShort Whole p := by
  rintro w hw ⟨t, rfl⟩
  have hlong : protoHeaderSize ≤ w.length := by
    rw [hw]
    exact Nat.le_add_right _ _
  generalize hp : w ++ t = p at h
  have hlength : w.length ≤ p.length := by
    rw [← hp, List.length_append]
    exact Nat.le_add_right _ _
  -- what has been read is shorter than the message that its header announces
  cases h with
  | head hread hblock hopen => omega
  | @body head q rest hasRead hread hhead hblock hmalloc hopen =>
      -- the header of the word is the one that has been read
      have hdecode : ProtoHeader.decode w = ProtoHeader.decode head := by
        rw [← ProtoHeader.decode_append hlong t, hp, ProtoHeader.decode_append hhead.ge]
      rw [hw, hdecode, ← hblock, List.length_append, hhead] at hlength
      omega

theorem Holds.not_done (h : Holds cli p) : (cli.headDone && cli.bufDone) = false := by
  cases h <;> rfl

theorem toNat_add_count {hasRead : UInt64} {n : Nat} (h : hasRead.toNat + n < 2 ^ 64) :
    (hasRead + UInt64.ofNat n).toNat = hasRead.toNat + n := by
  rw [UInt64.toNat_add, UInt64.toNat_ofNat', Nat.mod_eq_of_lt (a := n) (by omega),
    Nat.mod_eq_of_lt h]

theorem headSize_toNat : headSize.toNat = protoHeaderSize := rfl

/-- `read()` is asked for the rest of the header. -/
theorem want_head {p rest : List UInt8} {hasRead : UInt64} (hread : hasRead.toNat = p.length)
    (hblock : p.length + rest.length = protoHeaderSize) :
    (CliProto.want
      { hasRead := hasRead, headDone := false, bufDone := false, ipcHead := p ++ rest,
        buf := none }).toNat = rest.length := by
  have hle : hasRead ≤ headSize := by
    rw [UInt64.le_iff_toNat_le, hread, headSize_toNat]
    omega
  simp only [want, if_true]
  rw [UInt64.toNat_sub_of_le _ _ hle, hread, headSize_toNat]
  omega

/-- `read()` is asked for a piece of the rest of the payload. -/
theorem want_body {head q rest : List UInt8} {hasRead : UInt64}
    (hread : hasRead.toNat = protoHeaderSize + q.length)
    (hblock : q.length + rest.length = (ProtoHeader.decode head).ttl.toNat)
    (hopen : 0 < rest.length) :
    let want := CliProto.want
      { hasRead := hasRead, headDone := true, bufDone := false, ipcHead := head,
        buf := some (q ++ rest) }
    0 < want.toNat ∧ want.toNat ≤ rest.length ∧ (hasRead - headSize).toNat = q.length := by
  have hle : headSize ≤ hasRead := by
    rw [UInt64.le_iff_toNat_le, hread, headSize_toNat]
    omega
  have hoff : (hasRead - headSize).toNat = q.length := by
    rw [UInt64.toNat_sub_of_le _ _ hle, hread, headSize_toNat]
    omega
  have hle' : hasRead - headSize ≤ (ProtoHeader.decode head).ttl := by
    rw [UInt64.le_iff_toNat_le, hoff, ← hblock]
    omega
  have hmax : ucIpcMsgReadBlockLenMax.toNat = 8192 := rfl
  let left := (ProtoHeader.decode head).ttl - (hasRead - headSize)
  have hleft : left.toNat = rest.length := by
    rw [UInt64.toNat_sub_of_le _ _ hle', hoff, ← hblock]
    omega
  intro want
  have hwant : want =
      if ucIpcMsgReadBlockLenMax < left then ucIpcMsgReadBlockLenMax else left := rfl
  rw [hwant]
  -- a whole block, or what is left
  by_cases hlarge : ucIpcMsgReadBlockLenMax < left
  · have hlt := UInt64.lt_iff_toNat_lt.1 hlarge
    rw [if_pos hlarge]
    exact ⟨by omega, by omega, hoff⟩
  · rw [if_neg hlarge]
    exact ⟨by omega, by omega, hoff⟩

/-- The reader always asks for something. -/
theorem Holds.want_pos (h : Holds cli p) : 0 < cli.want.toNat := by
  cases h with
  | head hread hblock hopen =>
      rw [want_head hread hblock]
      exact hopen
  | body hread hhead hblock hmalloc hopen => exact (want_body hread hblock hopen).1

/-! ## One call -/

end CliProto

namespace ReadResult

/-- The bytes that come out of the stream. -/
def bytes : ReadResult → List UInt8
  | .data bytes _ => bytes
  | _ => []

/-- The stream goes on, and there is memory. -/
def Goes : ReadResult → Prop
  | .data _ mem => mem.isSome
  | .eof => False
  | .error => False
  | _ => True

/-- The connection is closed, and the value returned says why. -/
def Closes : ReadResult → Int → Prop
  | .data _ mem, value => mem = none ∧ value = -0x48a6af21
  | .eof, value => value = -0x46dd3fd2
  | .error, value => value = -0x31ecfc83
  | _, _ => False

theorem Goes.not_closes {r : ReadResult} {value : Int} (h : r.Goes) : ¬ r.Closes value := by
  intro hcloses
  cases r with
  | data bytes mem =>
      have hsome : mem.isSome := h
      rw [hcloses.1] at hsome
      cases hsome
  | eof => exact h
  | error => exact h
  | eintr => exact hcloses
  | eagain => exact hcloses

end ReadResult

namespace CliProto

variable {cli : CliProto} {p : List UInt8}

/-- The client after some results, when `p` has been read of a message. -/
def Next.Good (r : ReadResult) (p : List UInt8) : Next → Prop
  | .again cli => Holds cli p
  | .ret value cli => (value = 0 ∧ Holds cli p) ∨ (value = 1 ∧ Done cli p)
  | .close value => r.Closes value

theorem afterBlock_good {cli : CliProto} {m : List UInt8} (h : Done cli m) (r : ReadResult)
    (count want : UInt64) : (cli.afterBlock count want).Good r m := by
  rw [afterBlock, if_pos h.bufDone]
  exact Or.inr ⟨rfl, h⟩

theorem Holds.afterBlock_good (h : Holds cli p) (hopen : cli.bufDone = false) (r : ReadResult)
    (count want : UInt64) : (cli.afterBlock count want).Good r p := by
  rw [afterBlock, hopen]
  by_cases hless : count < want
  · simp only [hless, Bool.false_eq_true, if_false, if_true]
    exact Or.inl ⟨rfl, h⟩
  · simp only [hless, Bool.false_eq_true, if_false]
    exact h

/-- A piece of the header arrives. -/
theorem received_head {p rest bytes : List UInt8} {hasRead want : UInt64}
    {mem : Option (List UInt8)} {next : Next} (hread : hasRead.toNat = (p ++ bytes).length)
    (hblock : (p ++ bytes).length + rest.length = protoHeaderSize)
    (hnext : CliProto.received
      { hasRead := hasRead, headDone := false, bufDone := false, ipcHead := (p ++ bytes) ++ rest,
        buf := none } (UInt64.ofNat bytes.length) want mem = some next) :
    next.Good (.data bytes mem) (p ++ bytes) := by
  generalize p ++ bytes = head at *
  simp only [received, if_true] at hnext
  by_cases hfull : hasRead = headSize
  · -- the header is complete
    have hhead : head.length = protoHeaderSize := by
      rw [← hread, hfull, headSize_toNat]
    have hnil : rest = [] := List.eq_nil_of_length_eq_zero (by omega)
    subst hnil
    rw [if_pos hfull] at hnext
    simp only [List.append_nil, ttl] at hnext
    by_cases hempty : hasRead = headSize + (ProtoHeader.decode head).ttl
    · rw [if_pos hempty] at hnext
      cases Option.some.inj hnext
      -- the sum may only be equal to the header's size if it does not wrap around
      have httl : (ProtoHeader.decode head).ttl.toNat = 0 := by
        have hsum := congrArg UInt64.toNat hempty
        have hlt := (ProtoHeader.decode head).ttl.toNat_lt
        rw [hfull, UInt64.toNat_add, headSize_toNat] at hsum
        simp only [protoHeaderSize] at hsum
        omega
      refine afterBlock_good ⟨?_, rfl, ?_⟩ _ _ _
      · rw [Whole, httl, hhead, Nat.add_zero]
      · simp [PipeData.ofWord, hhead]
    · rw [if_neg hempty] at hnext
      cases mem with
      | none =>
          cases Option.some.inj hnext
          exact ⟨rfl, rfl⟩
      | some block =>
          simp only at hnext
          split at hnext
          · rename_i hmalloc
            cases Option.some.inj hnext
            -- the case of an empty payload is behind us
            have hpos : 0 < block.length := by
              refine Nat.pos_of_ne_zero ?_
              intro hzero
              have httl : (ProtoHeader.decode head).ttl = 0 :=
                UInt64.toNat_inj.1 (hmalloc.1.symm.trans hzero)
              rw [httl, hfull] at hempty
              exact hempty rfl
            have hbody := @Holds.body head [] block hasRead (by rw [hfull]; rfl) hhead
              (by simpa using hmalloc.1) (by simpa using hmalloc.2) hpos
            rw [List.nil_append, List.append_nil] at hbody
            exact hbody.afterBlock_good rfl _ _ _
          · cases hnext
  · have hshort : ¬ headSize < hasRead := by
      rw [UInt64.lt_iff_toNat_lt, headSize_toNat]
      omega
    have hopen : 0 < rest.length := by
      refine Nat.pos_of_ne_zero ?_
      intro hzero
      refine hfull (UInt64.toNat_inj.1 ?_)
      rw [hread, headSize_toNat]
      omega
    rw [if_neg hfull, if_neg hshort] at hnext
    cases Option.some.inj hnext
    exact Or.inl ⟨rfl, Holds.head hread hblock hopen⟩

/-- A piece of the payload arrives. -/
theorem received_body {head q rest bytes : List UInt8} {hasRead want : UInt64}
    {mem : Option (List UInt8)} {next : Next}
    (hread : hasRead.toNat = protoHeaderSize + (q ++ bytes).length)
    (hhead : head.length = protoHeaderSize)
    (hblock : (q ++ bytes).length + rest.length = (ProtoHeader.decode head).ttl.toNat)
    (hmalloc : (q ++ bytes).length + rest.length ≤ 2 ^ 63) (hbytes : 0 < bytes.length)
    (hnext : CliProto.received
      { hasRead := hasRead, headDone := true, bufDone := false, ipcHead := head,
        buf := some ((q ++ bytes) ++ rest) } (UInt64.ofNat bytes.length) want mem = some next) :
    next.Good (.data bytes mem) (head ++ (q ++ bytes)) := by
  have hpos : 0 < (q ++ bytes).length := by
    rw [List.length_append]
    omega
  generalize q ++ bytes = body at *
  have hsize : protoHeaderSize = 28 := rfl
  -- the block was allocated, so its length is far from 2^64
  have hend : (headSize + (ProtoHeader.decode head).ttl).toNat =
      protoHeaderSize + (body.length + rest.length) := by
    rw [UInt64.toNat_add, headSize_toNat, ← hblock]
    omega
  simp only [received, Bool.true_eq_false, if_false, if_true] at hnext
  split at hnext
  · rename_i hfull
    have hread' := congrArg UInt64.toNat hfull
    have hnil : rest = [] := by
      refine List.eq_nil_of_length_eq_zero ?_
      rw [hread, ttl, hend] at hread'
      omega
    subst hnil
    cases Option.some.inj hnext
    refine afterBlock_good ⟨?_, rfl, ?_⟩ _ _ _
    · rw [Whole, ProtoHeader.decode_append hhead.ge, List.length_append, ← hblock, hhead]
      rfl
    · have hlong : (head ++ body).length ≠ protoHeaderSize := by
        rw [List.length_append]
        omega
      rw [PipeData.ofWord, if_neg hlong, ProtoHeader.decode_append hhead.ge,
        List.drop_left' hhead, List.append_nil]
  · rename_i hfull
    have hopen : 0 < rest.length := by
      refine Nat.pos_of_ne_zero ?_
      intro hzero
      refine hfull (UInt64.toNat_inj.1 ?_)
      rw [hread, ttl, hend]
      omega
    -- `read()` gives no more than asked for, so the end is not passed over
    split at hnext
    · rename_i hlong
      rw [UInt64.lt_iff_toNat_lt, ttl, hend] at hlong
      omega
    · cases Option.some.inj hnext
      exact Or.inl ⟨rfl, Holds.body hread hhead hblock hmalloc hopen⟩

/-- One round of the loop. -/
theorem Holds.readOnce (h : Holds cli p) {r : ReadResult} {next : Next}
    (hnext : cli.readOnce r = some next) : next.Good r (p ++ r.bytes) := by
  cases r with
  | eof =>
      cases Option.some.inj hnext
      exact rfl
  | eintr =>
      cases Option.some.inj hnext
      have hsame : p ++ ReadResult.eintr.bytes = p := List.append_nil p
      rw [hsame]
      exact h
  | eagain =>
      cases Option.some.inj hnext
      have hsame : p ++ ReadResult.eagain.bytes = p := List.append_nil p
      rw [hsame]
      exact Or.inl ⟨rfl, h⟩
  | error =>
      cases Option.some.inj hnext
      exact rfl
  | data bytes mem =>
      simp only [CliProto.readOnce] at hnext
      split at hnext
      · rename_i hcount
        rcases Option.bind_eq_some_iff.1 hnext with ⟨cli', hstore, hreceived⟩
        cases h with
        | @head p rest hasRead hread hblock hopen =>
            rw [want_head hread hblock] at hcount
            have hsize : protoHeaderSize = 28 := rfl
            -- the piece goes behind what is in the header
            simp only [store, if_true] at hstore
            rw [hread, overwrite_append hcount.2] at hstore
            cases Option.some.inj hstore
            have hsum : hasRead.toNat + bytes.length < 2 ^ 64 := by omega
            refine received_head ?_ ?_ hreceived
            · exact (toNat_add_count hsum).trans (by rw [hread, List.length_append])
            · rw [List.length_append, List.length_drop]
              omega
        | @body head q rest hasRead hread hhead hblock hmalloc hopen =>
            have hwant := want_body hread hblock hopen
            have hfits : bytes.length ≤ rest.length := hcount.2.trans hwant.2.1
            have hsize : protoHeaderSize = 28 := rfl
            -- the piece goes behind what is in the payload
            simp only [store, Bool.true_eq_false, if_false, Option.bind_some] at hstore
            rw [hwant.2.2, overwrite_append hfits] at hstore
            cases Option.some.inj hstore
            have hrest : (q ++ bytes).length + (rest.drop bytes.length).length =
                q.length + rest.length := by
              rw [List.length_append, List.length_drop]
              omega
            rw [List.append_assoc]
            have hsum : hasRead.toNat + bytes.length < 2 ^ 64 := by omega
            refine received_body ?_ hhead ?_ ?_ hcount.1 hreceived
            · refine (toNat_add_count hsum).trans ?_
              rw [hread, List.length_append]
              omega
            · rw [hrest]
              exact hblock
            · rw [hrest]
              exact hmalloc
      · cases hnext

/-- What `read()` puts in stays inside the header or the payload. -/
theorem Holds.store_isSome (h : Holds cli p) {bytes : List UInt8}
    (hle : bytes.length ≤ cli.want.toNat) : (cli.store bytes).isSome := by
  cases h with
  | @head p rest hasRead hread hblock hopen =>
      rw [want_head hread hblock] at hle
      simp [store, hread, overwrite_append hle]
  | @body head q rest hasRead hread hhead hblock hmalloc hopen =>
      have hwant := want_body hread hblock hopen
      simp [store, hwant.2.2, overwrite_append (hle.trans hwant.2.1)]

/-- The bytes that a list of results takes out of the stream. -/
def bytesOf (results : List ReadResult) : List UInt8 :=
  results.flatMap ReadResult.bytes

/-- One call: the message goes on, or it is complete, or the connection is closed. -/
theorem Holds.readClient {results : List ReadResult} :
    ∀ {cli : CliProto} {p : List UInt8} {value : Int} {out : Option CliProto}, Holds cli p →
      cli.ucIpcServerReadClient results = some (value, out) →
        (∃ cli', out = some cli' ∧ ((value = 0 ∧ Holds cli' (p ++ bytesOf results)) ∨
          (value = 1 ∧ Done cli' (p ++ bytesOf results)))) ∨
        (out = none ∧ ∃ r ∈ results, r.Closes value) := by
  -- the induction is on the results that `read()` still gives
  induction results with
  | nil =>
      intro cli p value out h hcall
      simp [ucIpcServerReadClient, h.not_done] at hcall
  | cons r results ih =>
      intro cli p value out h hcall
      simp only [ucIpcServerReadClient, h.not_done, Bool.false_eq_true, if_false] at hcall
      have hbytes : p ++ bytesOf (r :: results) = (p ++ r.bytes) ++ bytesOf results := by
        simp [bytesOf]
      cases hnext : cli.readOnce r with
      | none =>
          rw [hnext] at hcall
          cases hcall
      | some next =>
          have hgood := h.readOnce hnext
          rw [hnext] at hcall
          cases next with
          | again cli' =>
              rw [hbytes]
              rcases ih hgood hcall with hopen | ⟨hout, r', hr', hcloses⟩
              · exact Or.inl hopen
              · exact Or.inr ⟨hout, r', List.mem_cons_of_mem _ hr', hcloses⟩
          | ret value' cli' =>
              simp only at hcall
              split at hcall
              · rename_i hlast
                cases Option.some.inj hcall
                have hnil : results = [] := List.isEmpty_iff.1 hlast
                subst hnil
                have hend : p ++ bytesOf [r] = p ++ r.bytes := by simp [bytesOf]
                rw [hend]
                exact Or.inl ⟨cli', rfl, hgood⟩
              · cases hcall
          | close value' =>
              simp only at hcall
              split at hcall
              · cases Option.some.inj hcall
                exact Or.inr ⟨rfl, r, List.mem_cons_self, hgood⟩
              · cases hcall

theorem Done.handOver {m : List UInt8} (h : Done cli m) :
    cli.handOver true = (0, some (PipeData.ofWord m), ucIpcServerResetCliProto) := by
  simp [CliProto.handOver, h.bufDone, h.message]

end CliProto

/-! ## Runs -/

namespace ReadCall

variable (call : ReadCall)

def bytes : List UInt8 :=
  CliProto.bytesOf call.reads

/-- The stream goes on, and there is memory. -/
def Goes : Prop :=
  (∀ r ∈ call.reads, r.Goes) ∧ call.malloc = true

end ReadCall

namespace Reader

variable {s : Reader}

/-- The messages taken over are the byte strings `words`, and `p` has been read of the next. -/
structure Reads (s : Reader) (words : List (List UInt8)) (p : List UInt8) : Prop where
  whole : ∀ w ∈ words, Whole w
  msgs : s.msgs = words.map PipeData.ofWord
  cli : ∃ cli, s.cli = some cli ∧ cli.Holds p

theorem ofAccept_reads : ofAccept.Reads [] [] where
  whole := by simp
  msgs := rfl
  cli := ⟨_, rfl, CliProto.reset_holds⟩

/-- One turn: nothing is lost of what has been read. -/
theorem Reads.exec {words : List (List UInt8)} {p : List UInt8} (hR : s.Reads words p)
    {call : ReadCall} (hgoes : call.Goes) {t : Reader} (hexec : s.exec call = some t) :
    ∃ words' p', t.Reads words' p' ∧
      words'.flatten ++ p' = (words.flatten ++ p) ++ call.bytes := by
  rcases hR.cli with ⟨cli, hcli, hholds⟩
  simp only [Reader.exec, hcli, Option.bind_some] at hexec
  rcases Option.map_eq_some_iff.1 hexec with ⟨⟨value, out⟩, hcall, ht⟩
  rcases hholds.readClient hcall with
    ⟨cli', rfl, ⟨rfl, hholds'⟩ | ⟨rfl, hdone⟩⟩ | ⟨-, r, hr, hcloses⟩
  · cases ht
    refine ⟨words, p ++ call.bytes, ⟨hR.whole, hR.msgs, cli', rfl, hholds'⟩, ?_⟩
    rw [List.append_assoc]
  · -- a word is complete, and the reader is at the start of the next
    rw [hgoes.2] at ht
    simp only [hdone.handOver] at ht
    cases ht
    refine ⟨words ++ [p ++ call.bytes], [], ⟨?_, ?_, _, rfl, CliProto.reset_holds⟩, ?_⟩
    · intro w hw
      rcases List.mem_append.1 hw with hold | hnew
      · exact hR.whole w hold
      · rw [List.mem_singleton.1 hnew]
        exact hdone.whole
    · rw [List.map_append, ← hR.msgs]
      rfl
    · simp
  · exact absurd hcloses (hgoes.1 r hr).not_closes

/-- The bytes that a list of turns takes out of the stream. -/
def received (calls : List ReadCall) : List UInt8 :=
  calls.flatMap ReadCall.bytes

theorem reads_of_run {calls : List ReadCall} {t : Reader} (hrun : machine.Run ofAccept calls t)
    (hgoes : ∀ call ∈ calls, call.Goes) :
    ∃ words p, t.Reads words p ∧ words.flatten ++ p = received calls := by
  induction hrun with
  | nil => exact ⟨[], [], ofAccept_reads, rfl⟩
  | @snoc calls t u call hrun henabled hexec ih =>
      rcases ih fun c hc => hgoes c (List.mem_append_left _ hc) with ⟨words, p, hreads, hbytes⟩
      rcases hreads.exec (hgoes call (by simp)) hexec with ⟨words', p', hreads', hbytes'⟩
      refine ⟨words', p', hreads', ?_⟩
      rw [hbytes', hbytes]
      simp [received]

end Reader

end Ipc
end UtilsC
