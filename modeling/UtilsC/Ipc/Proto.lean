import UtilsC.Lib.Bytes

/-!
# The wire format

A message is a packed header of 28 bytes and a payload whose length the header announces.

* `ProtoHeader.encode` and `ProtoHeader.decode` are the header as bytes in memory, in the order of
  the packed structure, little-endian.
* `Payload` is a byte string that fits one allocation together with a header; `Frame` is a header
  with the payload it announces, so that a frame with a wrong length cannot be built.
* `Frame.encode` is what goes over the socket.
-/

namespace UtilsC
namespace Ipc

open Lib

/-! ## Message types -/

/-- `uc_ipc_msg_type_t`.  A peer may send any 32-bit number in its place. -/
def ucIpcMsgTypeHeartbeat : UInt32 := 1
def ucIpcMsgTypeVoid : UInt32 := 2
def ucIpcMsgTypeAsyncSend : UInt32 := 3
def ucIpcMsgTypeAsyncAck : UInt32 := 4
def ucIpcMsgTypeSyncSend : UInt32 := 5
def ucIpcMsgTypeSyncAck : UInt32 := 6

/-- `UC_IPC_ACK_ID_NULL`. -/
def ucIpcAckIdNull : UInt64 := 0

/-! ## Headers -/

/-- `uc_ipc_proto_header_t`. -/
structure ProtoHeader where
  ttl : UInt64
  msgType : UInt32
  seqId : UInt64
  ackId : UInt64
  deriving DecidableEq, Repr

/-- `sizeof(uc_ipc_proto_header_t)`. -/
def protoHeaderSize : Nat := 28

namespace ProtoHeader

/-- The header in memory. -/
def encode (head : ProtoHeader) : List UInt8 :=
  leBytes 8 head.ttl.toNat ++ (leBytes 4 head.msgType.toNat ++
    (leBytes 8 head.seqId.toNat ++ leBytes 8 head.ackId.toNat))

/-- The header that the first 28 bytes of a memory block stand for. -/
def decode (bytes : List UInt8) : ProtoHeader where
  ttl := UInt64.ofNat (leNat (bytes.take 8))
  msgType := UInt32.ofNat (leNat ((bytes.drop 8).take 4))
  seqId := UInt64.ofNat (leNat ((bytes.drop 12).take 8))
  ackId := UInt64.ofNat (leNat ((bytes.drop 20).take 8))

@[simp] theorem encode_length (head : ProtoHeader) : head.encode.length = protoHeaderSize := by
  simp [encode, protoHeaderSize]

theorem ofNat_leNat_leBytes_64 (v : UInt64) : UInt64.ofNat (leNat (leBytes 8 v.toNat)) = v := by
  have hlt : v.toNat < 256 ^ 8 := v.toNat_lt
  rw [leNat_leBytes_of_lt hlt, UInt64.ofNat_toNat]

theorem ofNat_leNat_leBytes_32 (v : UInt32) : UInt32.ofNat (leNat (leBytes 4 v.toNat)) = v := by
  have hlt : v.toNat < 256 ^ 4 := v.toNat_lt
  rw [leNat_leBytes_of_lt hlt, UInt32.ofNat_toNat]

/-- A header is read back from its own bytes, whatever comes behind them. -/
theorem decode_encode_append (head : ProtoHeader) (rest : List UInt8) :
    decode (head.encode ++ rest) = head := by
  have hpast : ∀ w n k : Nat, w ≤ k → (leBytes w n).drop k = [] :=
    fun w n k h => List.drop_eq_nil_of_le (by simpa using h)
  have httl : (head.encode ++ rest).take 8 = leBytes 8 head.ttl.toNat := by
    simp [encode]
  have htype : ((head.encode ++ rest).drop 8).take 4 = leBytes 4 head.msgType.toNat := by
    simp [encode]
  have hseq : ((head.encode ++ rest).drop 12).take 8 = leBytes 8 head.seqId.toNat := by
    simp [encode, List.drop_append, hpast]
  have hack : ((head.encode ++ rest).drop 20).take 8 = leBytes 8 head.ackId.toNat := by
    simp [encode, List.drop_append, hpast]
  simp only [decode, httl, htype, hseq, hack, ofNat_leNat_leBytes_64, ofNat_leNat_leBytes_32]

/-- Only the first 28 bytes matter. -/
theorem decode_append {bytes : List UInt8} (h : protoHeaderSize ≤ bytes.length)
    (rest : List UInt8) : decode (bytes ++ rest) = decode bytes := by
  have hlong : 28 ≤ bytes.length := h
  have hfield : ∀ off len : Nat, off + len ≤ 28 →
      ((bytes ++ rest).drop off).take len = (bytes.drop off).take len := by
    intro off len hle
    rw [List.drop_append_of_le_length (by omega), List.take_append_of_le_length]
    rw [List.length_drop]
    omega
  have httl := hfield 0 8 (by omega)
  rw [List.drop_zero, List.drop_zero] at httl
  rw [decode, httl, hfield 8 4 (by omega), hfield 12 8 (by omega), hfield 20 8 (by omega), decode]

theorem decode_encode (head : ProtoHeader) : decode head.encode = head := by
  have happend := decode_encode_append head []
  rwa [List.append_nil] at happend

theorem encode_injective {head head' : ProtoHeader} (h : head.encode = head'.encode) :
    head = head' := by
  rw [← decode_encode head, h, decode_encode]

end ProtoHeader

/-! ## Frames -/

/-- A byte string that can stand behind a header in one block. -/
structure Payload where
  bytes : List UInt8
  fits : protoHeaderSize + bytes.length < 2 ^ 63
  deriving DecidableEq

namespace Payload

def empty : Payload where
  bytes := []
  fits := by decide

def ofByte (b : UInt8) : Payload where
  bytes := [b]
  fits := by simp [protoHeaderSize]

theorem length_lt (buf : Payload) : buf.bytes.length < 2 ^ 64 := by
  have hfits := buf.fits
  omega

@[ext] theorem ext {buf buf' : Payload} (h : buf.bytes = buf'.bytes) : buf = buf' := by
  cases buf
  cases buf'
  cases h
  rfl

end Payload

/-- `uc_ipc_proto_packet_t`: a header and as many bytes as it announces. -/
structure Frame where
  head : ProtoHeader
  buf : Payload
  ttl_eq : head.ttl.toNat = buf.bytes.length
  deriving DecidableEq

namespace Frame

/-- The packet that a sender fills in. -/
def build (msgType : UInt32) (seqId ackId : UInt64) (buf : Payload) : Frame where
  head :=
    { ttl := UInt64.ofNat buf.bytes.length
      msgType := msgType
      seqId := seqId
      ackId := ackId }
  buf := buf
  ttl_eq := UInt64.toNat_ofNat_of_lt' buf.length_lt

/-- The bytes that `uc_io_write` is given. -/
def encode (frame : Frame) : List UInt8 :=
  frame.head.encode ++ frame.buf.bytes

@[simp] theorem encode_length (frame : Frame) :
    frame.encode.length = protoHeaderSize + frame.buf.bytes.length := by
  simp [encode]

theorem decode_encode (frame : Frame) : ProtoHeader.decode frame.encode = frame.head :=
  ProtoHeader.decode_encode_append frame.head frame.buf.bytes

theorem encode_injective {frame frame' : Frame} (h : frame.encode = frame'.encode) :
    frame = frame' := by
  have hhead : frame.head = frame'.head := by
    rw [← decode_encode frame, h, decode_encode]
  have hbuf : frame.buf.bytes = frame'.buf.bytes := by
    rw [encode, encode, hhead] at h
    exact List.append_cancel_left h
  cases frame
  cases frame'
  cases hhead
  cases Payload.ext hbuf
  rfl

end Frame

end Ipc
end UtilsC
