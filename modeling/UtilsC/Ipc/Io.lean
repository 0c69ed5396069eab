import UtilsC.Ipc.Proto

/-!
# Writing a packet into the stream

`uc_io_write` calls `write()` until everything is written.  `ucIoWrite` follows it over the list of
results that the calls give; it comes with the bytes that got into the stream.

* `ucIoWrite_delivers`: as long as `write()` does not fail, these are all the bytes, in order.
* `wire` is what a sequence of sends puts into the stream of a connection.
-/

namespace UtilsC
namespace Ipc

/-- One result of `write()`. -/
inductive WriteResult
  | wrote (count : Nat)
  | zero
  | eintr
  | eagain
  | error
  deriving DecidableEq

/-- The most that `write()` transfers at once. -/
def maxRwCount : Nat := 0x7ffff000

/-- `uc_io_write`, from the bytes that are left.  There is no value when `write()` would have to be
called again, or when it does not give the result in the list. -/
def ucIoWrite : List UInt8 → List WriteResult → Option (Int × List UInt8)
  | [], [] => some (0, [])
  | [], _ :: _ => none
  | _ :: _, [] => none
  | left, .wrote count :: results =>
      if 0 < count ∧ count ≤ left.length ∧ count ≤ maxRwCount then
        (ucIoWrite (left.drop count) results).map fun r => (r.1, left.take count ++ r.2)
      else
        none
  | left, .zero :: results =>
      -- what is left is returned as an `int`
      if results.isEmpty then some (Int.bmod left.length (2 ^ 32), []) else none
  -- both are tried again at once
  | left, .eintr :: results => ucIoWrite left results
  | left, .eagain :: results => ucIoWrite left results
  | _, .error :: results => if results.isEmpty then some (-0x11b0ae4f, []) else none

/-- `write()` writes something or asks for another call. -/
def WriteResult.delivers : WriteResult → Prop
  | .zero => False
  | .error => False
  | _ => True

theorem ucIoWrite_delivers {results : List WriteResult} :
    ∀ {left out : List UInt8} {ret : Int}, (∀ r ∈ results, r.delivers) →
      ucIoWrite left results = some (ret, out) → ret = 0 ∧ out = left := by
  -- each round writes a beginning of what is left
  induction results with
  | nil =>
      intro left out ret _ h
      cases left with
      | nil =>
          cases h
          exact ⟨rfl, rfl⟩
      | cons b left => cases h
  | cons r results ih =>
      intro left out ret hdelivers h
      have hrest : ∀ r' ∈ results, r'.delivers := fun r' hr' =>
        hdelivers r' (List.mem_cons_of_mem _ hr')
      cases left with
      | nil => cases h
      | cons b left =>
          cases r with
          | wrote count =>
              simp only [ucIoWrite] at h
              split at h
              · rcases Option.map_eq_some_iff.1 h with ⟨⟨ret', out'⟩, hloop, heq⟩
                cases heq
                rcases ih hrest hloop with ⟨hret, hout⟩
                refine ⟨hret, ?_⟩
                -- what this call has written, and behind it the rest
                rw [hout]
                exact List.take_append_drop _ _
              · cases h
          | zero => exact absurd (hdelivers _ List.mem_cons_self) not_false
          | eintr => exact ih hrest h
          | eagain => exact ih hrest h
          | error => exact absurd (hdelivers _ List.mem_cons_self) not_false

/-! ## Sends -/

/-- A call of `uc_ipc_client_send`, and how `write()` serves it. -/
structure ClientSend where
  msgType : UInt32
  seqId : UInt64
  buf : Payload
  writes : List WriteResult

namespace ClientSend

variable (send : ClientSend)

/-- The packet of `uc_ipc_client_send`. -/
def protoPkt : Frame :=
  Frame.build send.msgType send.seqId ucIpcAckIdNull send.buf

/-- The bytes that `uc_ipc_client_write` puts into the stream; it drops the value of
`uc_io_write`. -/
def ucIpcClientWrite : Option (List UInt8) :=
  (ucIoWrite send.protoPkt.encode send.writes).map Prod.snd

theorem ucIpcClientWrite_eq {out : List UInt8} (hwrites : ∀ r ∈ send.writes, r.delivers)
    (h : send.ucIpcClientWrite = some out) : out = send.protoPkt.encode := by
  rcases Option.map_eq_some_iff.1 h with ⟨⟨ret, out'⟩, hwrite, rfl⟩
  exact (ucIoWrite_delivers hwrites hwrite).2

end ClientSend

/-- The stream after a sequence of sends. -/
def wire : List ClientSend → Option (List UInt8)
  | [] => some []
  | send :: sends =>
      send.ucIpcClientWrite.bind fun out => (wire sends).map fun rest => out ++ rest

theorem wire_eq {sends : List ClientSend} :
    ∀ {stream : List UInt8}, (∀ send ∈ sends, ∀ r ∈ send.writes, r.delivers) →
      wire sends = some stream →
        stream = (sends.map fun send => send.protoPkt.encode).flatten := by
  induction sends with
  | nil =>
      intro stream _ h
      cases h
      rfl
  | cons send sends ih =>
      intro stream hwrites h
      rcases Option.bind_eq_some_iff.1 h with ⟨out, hout, h'⟩
      rcases Option.map_eq_some_iff.1 h' with ⟨rest, hrest, rfl⟩
      have hfirst := send.ucIpcClientWrite_eq (hwrites send List.mem_cons_self) hout
      have hothers := ih (fun s hs => hwrites s (List.mem_cons_of_mem _ hs)) hrest
      rw [hfirst, hothers, List.map_cons, List.flatten_cons]

end Ipc
end UtilsC
