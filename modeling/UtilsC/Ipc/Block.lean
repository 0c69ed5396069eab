import UtilsC.Ipc.Reader
import UtilsC.Ipc.Seq

/-!
# The block of a frame

A frame is put together in one block: `malloc(sizeof(head) + len)`, the header, and behind it the
payload, copied from the caller or read from the socket.  The sum is a `size_t`; for the 28 largest
lengths it wraps, and the block is shorter than the header alone.

* `Malloc` is an allocator that gives a block of exactly the size asked for, or none.
* `FrameMem` is what becomes of the block; `FrameMem.Fits len` says that all writes are inside.
* `frameMem_fits_iff` is the condition for each of the three functions that make a frame.
-/

namespace UtilsC
namespace Ipc

open Lib

/-- `malloc`, with NULL as `none` and what the block happens to hold. -/
structure Malloc where
  get : UInt64 → Option (List UInt8)
  exact : ∀ size block, get size = some block → block.length = size.toNat

/-- The block of a frame when the function is through with it. -/
inductive FrameMem
  /-- there was a write that is not inside the block -/
  | outside
  /-- the function has failed before it writes -/
  | failed
  | filled (block : List UInt8)
  deriving DecidableEq

namespace FrameMem

def ofWrites : Option (List UInt8) → FrameMem
  | none => outside
  | some block => filled block

/-- The function fails before it writes, or it writes inside a block with room for the header and
`len` bytes. -/
def Fits (len : UInt64) : FrameMem → Prop
  | outside => False
  | failed => True
  | filled block => protoHeaderSize + len.toNat ≤ block.length

end FrameMem

/-! ## The three functions -/

/-- One result of `read()` in `uc_io_read`; it never gives more than is asked for. -/
inductive IoReadResult
  | data (bytes : List UInt8)
  | eof
  | eintr
  | eagain
  | error

/-- `uc_io_read` into a block from an offset on, over the results that `read()` gives. -/
def ucIoRead (block : List UInt8) (off left : Nat) : List IoReadResult → Option (List UInt8)
  | [] => some block
  | r :: results =>
      if left = 0 then
        some block
      else
        match r with
        | .data bytes =>
            let bytes := bytes.take left
            (overwrite block off bytes).bind fun block =>
              -- `read()` gives nothing at the end of the stream only
              if bytes = [] then some block
              else ucIoRead block (off + bytes.length) (left - bytes.length) results
        | .eintr => ucIoRead block off left results
        | .eof => some block
        | .eagain => some block
        | .error => some block

/-- The block of a message in `uc_ipc_client_loop_rcv`, behind the read of its header. -/
def ucIpcClientLoopRcvMsg (malloc : Malloc) (head : ProtoHeader) (results : List IoReadResult) :
    FrameMem :=
  if head.seqId < ucIpcSeqIdMin then
    .failed
  else
    match malloc.get (headSize + head.ttl) with
    | none => .failed
    | some block =>
        .ofWrites ((overwrite block 0 head.encode).bind fun block =>
          ucIoRead block protoHeaderSize head.ttl.toNat results)

/-- The header's four fields and, for a payload that is not NULL and not empty, the `memcpy`. -/
def fillPkt (block : List UInt8) (head : ProtoHeader) (buf : Option (Nat → UInt8)) :
    Option (List UInt8) :=
  (overwrite block 0 head.encode).bind fun block =>
    match buf with
    | none => some block
    | some view =>
        if head.ttl = 0 then some block
        else overwrite block protoHeaderSize (readMem view head.ttl.toNat)

/-- The packet of `uc_ipc_client_send`; `msg` says whether the second `malloc`, for the
`uc_packet_send_t`, succeeds. -/
def ucIpcClientSendPkt (malloc : Malloc) (msg : Bool) (seqId : UInt64) (msgType : UInt32)
    (buf : Option (Nat → UInt8)) (len : UInt64) : FrameMem :=
  match malloc.get (headSize + len) with
  | none => .failed
  | some block =>
      if msg = false then
        .failed
      else
        .ofWrites (fillPkt block
          { ttl := len, msgType := msgType, seqId := seqId, ackId := ucIpcAckIdNull } buf)

/-- The `data` of `uc_ipc_server_send_msg`. -/
def ucIpcServerSendMsgData (malloc : Malloc) (seqId ackId : UInt64) (msgType : UInt32)
    (buf : Option (Nat → UInt8)) (len : UInt64) : FrameMem :=
  match malloc.get (headSize + len) with
  | none => .failed
  | some block =>
      .ofWrites (fillPkt block
        { ttl := len, msgType := msgType, seqId := seqId, ackId := ackId } buf)

/-! ## Blocks that are large enough -/

/-- A read into a block with room for all that is left. -/
theorem ucIoRead_fits {results : List IoReadResult} : ∀ {block : List UInt8} {off left : Nat},
    off + left ≤ block.length →
      ∃ block', ucIoRead block off left results = some block' ∧
        block'.length = block.length := by
  induction results with
  | nil => exact fun _ => ⟨_, rfl, rfl⟩
  | cons r results ih =>
      intro block off left hroom
      by_cases hleft : left = 0
      · exact ⟨block, by cases r <;> simp [ucIoRead, hleft], rfl⟩
      · cases r with
        | data bytes =>
            have htake : (bytes.take left).length ≤ left := List.length_take_le _ _
            rcases overwrite_of_le block (bytes.take left) off (by omega) with ⟨block₁, hwrite⟩
            have hlen := overwrite_length hwrite
            simp only [ucIoRead, if_neg hleft, hwrite, Option.bind_some]
            -- the rest goes behind the bytes just read
            split
            · exact ⟨block₁, rfl, hlen⟩
            · have hroom₁ : off + (bytes.take left).length + (left - (bytes.take left).length) ≤
                  block₁.length := by omega
              rcases ih hroom₁ with ⟨block₂, hread, hlen₂⟩
              exact ⟨block₂, hread, hlen₂.trans hlen⟩
        | eintr =>
            simp only [ucIoRead, if_neg hleft]
            exact ih hroom
        | eof => exact ⟨block, by simp [ucIoRead, hleft], rfl⟩
        | eagain => exact ⟨block, by simp [ucIoRead, hleft], rfl⟩
        | error => exact ⟨block, by simp [ucIoRead, hleft], rfl⟩

theorem fillPkt_fits {block : List UInt8} {head : ProtoHeader}
    (hroom : protoHeaderSize + head.ttl.toNat ≤ block.length) (buf : Option (Nat → UInt8)) :
    ∃ block', fillPkt block head buf = some block' ∧ block'.length = block.length := by
  rcases overwrite_of_le block head.encode 0
    (by rw [ProtoHeader.encode_length]; omega) with ⟨block₁, hhead⟩
  have hlen := overwrite_length hhead
  simp only [fillPkt, hhead, Option.bind_some]
  cases buf with
  | none => exact ⟨block₁, rfl, hlen⟩
  | some view =>
      dsimp only
      split
      · exact ⟨block₁, rfl, hlen⟩
      · rcases overwrite_of_le block₁ (readMem view head.ttl.toNat) protoHeaderSize
          (by rw [readMem_length]; omega) with ⟨block₂, hbuf⟩
        exact ⟨block₂, hbuf, (overwrite_length hbuf).trans hlen⟩

/-- In a block shorter than the header the header does not fit. -/
theorem fillPkt_short {block : List UInt8} {head : ProtoHeader}
    (hshort : block.length < protoHeaderSize) (buf : Option (Nat → UInt8)) :
    fillPkt block head buf = none := by
  rw [fillPkt, overwrite_eq_none (by rw [ProtoHeader.encode_length]; omega)]
  rfl

/-! ## The sizes -/

section Sizes

variable {malloc : Malloc} {block : List UInt8} {len : UInt64}

theorem headSize_add (len : UInt64) :
    (headSize + len).toNat = (protoHeaderSize + len.toNat) % 2 ^ 64 := by
  rw [UInt64.toNat_add]
  rfl

theorem Malloc.room (hblock : malloc.get (headSize + len) = some block)
    (hlen : protoHeaderSize + len.toNat < 2 ^ 64) :
    protoHeaderSize + len.toNat ≤ block.length := by
  rw [malloc.exact _ _ hblock, headSize_add, Nat.mod_eq_of_lt hlen]

/-- A sum that wraps is less than the size of the header. -/
theorem Malloc.short (hblock : malloc.get (headSize + len) = some block)
    (hlen : 2 ^ 64 ≤ protoHeaderSize + len.toNat) : block.length < protoHeaderSize := by
  have hlt := len.toNat_lt
  rw [malloc.exact _ _ hblock, headSize_add]
  simp only [protoHeaderSize] at hlen ⊢
  omega

theorem FrameMem.fits_of_writes {write : Option (List UInt8)}
    (hroom : protoHeaderSize + len.toNat ≤ block.length)
    (hwrite : ∃ block', write = some block' ∧ block'.length = block.length) :
    (FrameMem.ofWrites write).Fits len := by
  rcases hwrite with ⟨block', rfl, hlen⟩
  show protoHeaderSize + len.toNat ≤ block'.length
  rw [hlen]
  exact hroom

/-! ## When the block is large enough -/

theorem ucIpcClientLoopRcvMsg_fits (malloc : Malloc) (head : ProtoHeader)
    (results : List IoReadResult) :
    (ucIpcClientLoopRcvMsg malloc head results).Fits head.ttl ↔
      protoHeaderSize + head.ttl.toNat < 2 ^ 64 ∨ head.seqId < ucIpcSeqIdMin ∨
        malloc.get (headSize + head.ttl) = none := by
  rw [ucIpcClientLoopRcvMsg]
  by_cases hseq : head.seqId < ucIpcSeqIdMin
  · simp [hseq, FrameMem.Fits]
  · cases hblock : malloc.get (headSize + head.ttl) with
    | none => simp [hseq, FrameMem.Fits]
    | some block =>
        simp only [hseq, if_false, reduceCtorEq, or_false]
        rcases Nat.lt_or_ge (protoHeaderSize + head.ttl.toNat) (2 ^ 64) with hlen | hlen
        · refine iff_of_true ?_ hlen
          have hroom := Malloc.room hblock hlen
          rcases overwrite_of_le block head.encode 0
            (by rw [ProtoHeader.encode_length]; omega) with ⟨block₁, hhead⟩
          have hlen₁ := overwrite_length hhead
          rw [hhead, Option.bind_some]
          refine FrameMem.fits_of_writes (hlen₁ ▸ hroom) (ucIoRead_fits ?_)
          omega
        · refine iff_of_false ?_ (by omega)
          -- the header is the first thing that is written, and has no room
          have hshort := Malloc.short hblock hlen
          rw [overwrite_eq_none (by rw [ProtoHeader.encode_length]; omega)]
          exact not_false

/-- The two functions that copy a payload. -/
theorem fillPkt_fits_iff (hblock : malloc.get (headSize + len) = some block) {head : ProtoHeader}
    (httl : head.ttl = len) (buf : Option (Nat → UInt8)) :
    (FrameMem.ofWrites (fillPkt block head buf)).Fits len ↔
      protoHeaderSize + len.toNat < 2 ^ 64 := by
  subst httl
  rcases Nat.lt_or_ge (protoHeaderSize + head.ttl.toNat) (2 ^ 64) with hlen | hlen
  · have hroom := Malloc.room hblock hlen
    exact iff_of_true (FrameMem.fits_of_writes hroom (fillPkt_fits hroom buf)) hlen
  · refine iff_of_false ?_ (by omega)
    rw [fillPkt_short (Malloc.short hblock hlen)]
    exact not_false

theorem ucIpcClientSendPkt_fits (malloc : Malloc) (msg : Bool) (seqId : UInt64)
    (msgType : UInt32) (buf : Option (Nat → UInt8)) (len : UInt64) :
    (ucIpcClientSendPkt malloc msg seqId msgType buf len).Fits len ↔
      protoHeaderSize + len.toNat < 2 ^ 64 ∨ malloc.get (headSize + len) = none ∨
        msg = false := by
  rw [ucIpcClientSendPkt]
  cases hblock : malloc.get (headSize + len) with
  | none => simp [FrameMem.Fits]
  | some block =>
      cases msg with
      | false => simp [FrameMem.Fits]
      | true => simpa using fillPkt_fits_iff hblock rfl buf

theorem ucIpcServerSendMsgData_fits (malloc : Malloc) (seqId ackId : UInt64)
    (msgType : UInt32) (buf : Option (Nat → UInt8)) (len : UInt64) :
    (ucIpcServerSendMsgData malloc seqId ackId msgType buf len).Fits len ↔
      protoHeaderSize + len.toNat < 2 ^ 64 ∨ malloc.get (headSize + len) = none := by
  rw [ucIpcServerSendMsgData]
  cases hblock : malloc.get (headSize + len) with
  | none => simp [FrameMem.Fits]
  | some block => simpa using fillPkt_fits_iff hblock rfl buf

end Sizes

/-- Each of the three functions stays inside its block, or fails before it writes, exactly when the
size does not wrap or one of the checks in front of the first write fails. -/
theorem frameMem_fits_iff (malloc : Malloc) :
    (∀ (head : ProtoHeader) (results : List IoReadResult),
      (ucIpcClientLoopRcvMsg malloc head results).Fits head.ttl ↔
        protoHeaderSize + head.ttl.toNat < 2 ^ 64 ∨ head.seqId < ucIpcSeqIdMin ∨
          malloc.get (headSize + head.ttl) = none) ∧
    (∀ (msg : Bool) (seqId : UInt64) (msgType : UInt32) (buf : Option (Nat → UInt8))
      (len : UInt64),
      (ucIpcClientSendPkt malloc msg seqId msgType buf len).Fits len ↔
        protoHeaderSize + len.toNat < 2 ^ 64 ∨ malloc.get (headSize + len) = none ∨
          msg = false) ∧
    (∀ (seqId ackId : UInt64) (msgType : UInt32) (buf : Option (Nat → UInt8)) (len : UInt64),
      (ucIpcServerSendMsgData malloc seqId ackId msgType buf len).Fits len ↔
        protoHeaderSize + len.toNat < 2 ^ 64 ∨ malloc.get (headSize + len) = none) :=
  ⟨ucIpcClientLoopRcvMsg_fits malloc, ucIpcClientSendPkt_fits malloc,
    ucIpcServerSendMsgData_fits malloc⟩

/-- An allocator that always has memory. -/
def Malloc.zeros : Malloc where
  get size := some (List.replicate size.toNat 0)
  exact size block h := by
    cases h
    exact List.length_replicate

/-- A peer announces 2^64 - 28 bytes: the block is empty, and the header is copied into it. -/
theorem ucIpcClientLoopRcvMsg_outside :
    ¬ ∀ (malloc : Malloc) (head : ProtoHeader) (results : List IoReadResult),
      (ucIpcClientLoopRcvMsg malloc head results).Fits head.ttl := by
  intro hall
  let head : ProtoHeader :=
    { ttl := 18446744073709551588, msgType := ucIpcMsgTypeSyncAck, seqId := 10000, ackId := 10000 }
  have houtside : ucIpcClientLoopRcvMsg Malloc.zeros head [] = .outside := by decide
  have hfits := hall Malloc.zeros head []
  rw [houtside] at hfits
  exact hfits

/-! ## The packet -/

/-- The header and the payload fill a block of their size. -/
theorem fillPkt_eq {block : List UInt8} {head : ProtoHeader} {view : Nat → UInt8}
    (hlen : block.length = protoHeaderSize + head.ttl.toNat) :
    fillPkt block head (some view) = some (head.encode ++ readMem view head.ttl.toNat) := by
  have henc := head.encode_length
  have hhead : overwrite block 0 head.encode =
      some (head.encode ++ block.drop head.encode.length) := by
    have hfits : head.encode.length ≤ block.length := by omega
    rw [overwrite, if_pos (by omega), List.take_zero, List.nil_append, Nat.zero_add]
  simp only [fillPkt, hhead, Option.bind_some]
  by_cases httl : head.ttl = 0
  · -- an empty payload leaves nothing behind the header
    have hempty : block.drop head.encode.length = [] := by
      refine List.drop_eq_nil_of_le ?_
      rw [hlen, henc, httl]
      exact le_refl _
    rw [if_pos httl, hempty, httl]
    rfl
  · rw [if_neg httl, ← henc, overwrite_append, List.drop_drop, readMem_length]
    · have hrest : block.drop (head.encode.length + head.ttl.toNat) = [] :=
        List.drop_eq_nil_of_le (by omega)
      rw [hrest, List.append_nil]
    · rw [readMem_length, List.length_drop]
      omega

/-- For a payload that stands in memory, the block of `uc_ipc_client_send` is the frame that
`Frame.build` makes of it. -/
theorem ucIpcClientSendPkt_filled {malloc : Malloc} {block : List UInt8} {seqId : UInt64}
    {msgType : UInt32} {view : Nat → UInt8} (buf : Payload)
    (hview : readMem view buf.bytes.length = buf.bytes)
    (hblock : malloc.get (headSize + UInt64.ofNat buf.bytes.length) = some block) :
    ucIpcClientSendPkt malloc true seqId msgType (some view) (UInt64.ofNat buf.bytes.length) =
      .filled (Frame.build msgType seqId ucIpcAckIdNull buf).encode := by
  have hfits := buf.fits
  have httl : (UInt64.ofNat buf.bytes.length).toNat = buf.bytes.length :=
    UInt64.toNat_ofNat_of_lt' buf.length_lt
  have hlen : block.length = protoHeaderSize + (UInt64.ofNat buf.bytes.length).toNat := by
    -- the size asked for does not wrap, so the block is filled to its end
    rw [malloc.exact _ _ hblock, headSize_add]
    exact Nat.mod_eq_of_lt (by omega)
  simp only [ucIpcClientSendPkt, hblock, Bool.true_eq_false, if_false]
  rw [fillPkt_eq hlen]
  simp only [FrameMem.ofWrites, Frame.encode, Frame.build, httl, hview]

end Ipc
end UtilsC
