import UtilsC.Lib.SharedStream
import UtilsC.Ipc.IoReturn
import UtilsC.Ipc.Split
import UtilsC.Ipc.Client

/-!
# The client reads its stream

`uc_ipc_client_loop_rcv` reads a header with one call of `uc_io_read` and the payload behind it with
another one; the socket is blocking.

* `ucIpcClientLoopRcvRound` is a round of the loop over the results of `read()` and `malloc`, up to
  the point where it acts on the message; `RcvOutcome` is what it comes to.
* `ClientReader.machine` are the rounds on one connection, up to the reconnect.
* `ucIpcClientLoopRcv_framing`: the messages found are the frames sent, one for each round.
-/

namespace UtilsC
namespace Ipc

open Lib

/-- A message in memory. -/
def Frame.ofBlock (block : List UInt8) : Option Frame :=
  if h : block.length = protoHeaderSize + (ProtoHeader.decode block).ttl.toNat ∧
      block.length < 2 ^ 63 then
    some
      { head := ProtoHeader.decode block
        buf :=
          { bytes := block.drop protoHeaderSize
            fits := by
              rw [List.length_drop]
              omega }
        ttl_eq := by
          rw [List.length_drop]
          omega }
  else
    none

/-! ## A round of the loop -/

/-- How the kernel and the allocator serve a round: the results of `read()` for the header and for
the payload, and the block for the message. -/
structure RcvRound where
  head : List IoReadResult
  mem : Option (List UInt8)
  body : List IoReadResult

/-- What a round gets, and the reason of the reconnect that it ends in, if any. -/
structure RcvOutcome where
  arrival : Arrival
  reconnect : Option UInt32

/-- The reconnects behind the read of a message. -/
def badAckId (f : Frame) : Option UInt32 :=
  if f.head.msgType = ucIpcMsgTypeHeartbeat then
    if f.head.ackId < ucIpcSeqIdMin then some 0x1d53361d else none
  else if Client.isAck f.head.msgType = true then
    if f.head.ackId < ucIpcSeqIdMin then some 0x13a5edcb else none
  else
    none

/-- The payload is read into the block, behind its header. -/
def ucIpcClientLoopRcvBody (head block : List UInt8) (results : List IoReadResult) :
    Option RcvOutcome :=
  let h := ProtoHeader.decode head
  (overwrite block 0 head).bind fun block =>
    (ucIoReadLoop block protoHeaderSize h.ttl.toNat results).bind fun r =>
      if r.ret ≠ 0 ∨ r.closed = true then
        some { arrival := .cut h, reconnect := some 0x17073c93 }
      else
        (Frame.ofBlock r.buf).map fun f => { arrival := .frame f, reconnect := badAckId f }

/-- A round of `uc_ipc_client_loop_rcv`; `head` is its variable, which the next round reads into
again.  The lists of results end where `read()` is not called any more. -/
def ucIpcClientLoopRcvRound (head : List UInt8) (round : RcvRound) :
    Option (RcvOutcome × List UInt8) :=
  (ucIoReadReturn head headSize round.head).bind fun r =>
    let h := ProtoHeader.decode r.buf
    let lost (arrival : Arrival) (reason : UInt32) : Option (RcvOutcome × List UInt8) :=
      if round.body.isEmpty then
        some ({ arrival := arrival, reconnect := some reason }, r.buf)
      else
        none
    if r.ret ≠ 0 ∨ r.closed = true then
      lost .lost 0x7f839461
    else if h.seqId < ucIpcSeqIdMin then
      lost (.cut h) 0x3ba3bb2c
    else
      match round.mem with
      | none => lost .lost 0x650beacb
      | some block =>
          -- `malloc` gives a block of the size asked for, and never one of 2^63 bytes
          if block.length = (headSize + h.ttl).toNat ∧ block.length < 2 ^ 63 then
            (ucIpcClientLoopRcvBody r.buf block round.body).map fun outcome => (outcome, r.buf)
          else
            none

namespace RcvRound

variable (round : RcvRound)

/-- The bytes that the round takes out of the stream. -/
def bytes : List UInt8 :=
  received round.head ++ received round.body

/-- A blocking socket never says that there is nothing to read for now. -/
def Blocks : Prop :=
  .eagain ∉ round.head ∧ .eagain ∉ round.body

/-- The stream goes on, and there is memory. -/
def Goes : Prop :=
  (∀ r ∈ round.head ++ round.body, r ≠ .eof ∧ r ≠ .error) ∧ round.mem.isSome

end RcvRound

/-! ## Connections -/

/-- The receive thread on one connection. -/
structure ClientReader where
  head : List UInt8
  arrivals : List Arrival
  reconnect : Option UInt32

namespace ClientReader

def exec (s : ClientReader) (round : RcvRound) : Option ClientReader :=
  (ucIpcClientLoopRcvRound s.head round).map fun r =>
    { head := r.2
      arrivals := s.arrivals ++ [r.1.arrival]
      reconnect := r.1.reconnect }

/-- The reconnect ends the connection. -/
def machine : Machine ClientReader RcvRound where
  enabled s _ := s.reconnect.isNone
  exec := exec

/-- Nothing is known about what `head` holds at first. -/
def ofConnect (head : List UInt8) : ClientReader where
  head := head
  arrivals := []
  reconnect := none

/-- The messages among the arrivals. -/
def frames (s : ClientReader) : List Frame :=
  s.arrivals.filterMap fun
    | .frame f => some f
    | _ => none

end ClientReader

/-! ## Messages in memory -/

theorem leBytes_leNat (bytes : List UInt8) : leBytes bytes.length (leNat bytes) = bytes := by
  refine leNat_injective (leBytes_length _ _) ?_
  rw [leNat_leBytes, Nat.mod_eq_of_lt (leNat_lt bytes)]

theorem leBytes_ofNat_64 {bytes : List UInt8} (h : bytes.length = 8) :
    leBytes 8 (UInt64.ofNat (leNat bytes)).toNat = bytes := by
  have hlt : leNat bytes < 2 ^ 64 := by
    have := leNat_lt bytes
    rwa [h] at this
  rw [UInt64.toNat_ofNat_of_lt' hlt, ← h, leBytes_leNat]

theorem leBytes_ofNat_32 {bytes : List UInt8} (h : bytes.length = 4) :
    leBytes 4 (UInt32.ofNat (leNat bytes)).toNat = bytes := by
  have hlt : leNat bytes < 2 ^ 32 := by
    have := leNat_lt bytes
    rwa [h] at this
  rw [UInt32.toNat_ofNat_of_lt' hlt, ← h, leBytes_leNat]

/-- A header is the first 28 bytes of its block. -/
theorem ProtoHeader.encode_decode {bytes : List UInt8} (h : protoHeaderSize ≤ bytes.length) :
    (ProtoHeader.decode bytes).encode = bytes.take protoHeaderSize := by
  have hlong : 28 ≤ bytes.length := h
  have hfield : ∀ off len : Nat, off + len ≤ 28 → ((bytes.drop off).take len).length = len := by
    intro off len hle
    rw [List.length_take, List.length_drop]
    omega
  have hfirst : (bytes.take 8).length = 8 := hfield 0 8 (by omega)
  have hsplit : bytes.take protoHeaderSize = bytes.take 8 ++ ((bytes.drop 8).take 4 ++
      ((bytes.drop 12).take 8 ++ (bytes.drop 20).take 8)) := by
    have hadd : ∀ m n : Nat, bytes.take (m + n) = bytes.take m ++ (bytes.drop m).take n :=
      fun _ _ => List.take_add
    have h28 : bytes.take 28 = bytes.take 20 ++ (bytes.drop 20).take 8 := hadd 20 8
    have h20 : bytes.take 20 = bytes.take 12 ++ (bytes.drop 12).take 8 := hadd 12 8
    have h12 : bytes.take 12 = bytes.take 8 ++ (bytes.drop 8).take 4 := hadd 8 4
    rw [protoHeaderSize, h28, h20, h12, List.append_assoc, List.append_assoc]
  simp only [encode, decode, leBytes_ofNat_64 hfirst, leBytes_ofNat_64 (hfield 12 8 (by omega)),
    leBytes_ofNat_64 (hfield 20 8 (by omega)), leBytes_ofNat_32 (hfield 8 4 (by omega)), hsplit]

/-- The bytes of a message are those of its block. -/
theorem Frame.encode_ofBlock {block : List UInt8} {f : Frame} (h : Frame.ofBlock block = some f) :
    f.encode = block := by
  unfold Frame.ofBlock at h
  split at h
  · rename_i hblock
    cases h
    have hlong : protoHeaderSize ≤ block.length := by omega
    rw [Frame.encode, ProtoHeader.encode_decode hlong, List.take_append_drop]
  · cases h

/-! ## What a read takes -/

/-- Without a failure and with the stream open everything asked for arrives. -/
theorem ucIoReadLoop_full {results : List IoReadResult} :
    ∀ {buf : List UInt8} {ttl left : Nat} {r : ReadReturn},
      ucIoReadLoop buf ttl left results = some r → .eof ∉ results → .error ∉ results →
        .eagain ∉ results → (received results).length = left := by
  induction results with
  | nil =>
      intro buf ttl left r h _ _ _
      simp only [ucIoReadLoop] at h
      split_ifs at h with hleft
      exact hleft.symm
  | cons e results ih =>
      intro buf ttl left r h heof herror heagain
      have heof' : .eof ∉ results := fun hmem => heof (List.mem_cons_of_mem _ hmem)
      have herror' : .error ∉ results := fun hmem => herror (List.mem_cons_of_mem _ hmem)
      have heagain' : .eagain ∉ results := fun hmem => heagain (List.mem_cons_of_mem _ hmem)
      by_cases hleft : left = 0
      · cases e <;> simp [ucIoReadLoop, hleft] at h
      · simp only [ucIoReadLoop, if_neg hleft] at h
        cases e with
        | data bytes =>
            simp only at h
            split_ifs at h with hcount
            rcases Option.bind_eq_some_iff.1 h with ⟨buf', -, hloop⟩
            have hrest := ih hloop heof' herror' heagain'
            have hcons : received (.data bytes :: results) = bytes ++ received results := rfl
            rw [hcons, List.length_append, hrest]
            omega
        | eintr => exact ih h heof' herror' heagain'
        | eof => exact absurd List.mem_cons_self heof
        | eagain => exact absurd List.mem_cons_self heagain
        | error => exact absurd List.mem_cons_self herror

section Rounds

variable {buf : List UInt8} {ttl left : Nat} {results : List IoReadResult} {r : ReadReturn}

/-- `ret || closed` is what the loop tests. -/
theorem ucIoReadLoop_done (h : ucIoReadLoop buf ttl left results = some r)
    (hblocks : .eagain ∉ results) (hdone : ¬ (r.ret ≠ 0 ∨ r.closed = true)) :
    (received results).length = left := by
  have hstored := ucIoReadLoop_stored h
  rw [not_or, not_not] at hdone
  refine ucIoReadLoop_full h ?_ ?_ hblocks
  · exact fun heof => hdone.2 (hstored.closed_iff.2 heof)
  · intro herror
    have hret := (hstored.failed herror).1
    rw [hdone.1] at hret
    cases hret

theorem ucIoReadLoop_goes (h : ucIoReadLoop buf ttl left results = some r)
    (hblocks : .eagain ∉ results) (hgoes : ∀ e ∈ results, e ≠ .eof ∧ e ≠ .error) :
    ¬ (r.ret ≠ 0 ∨ r.closed = true) := by
  have hstored := ucIoReadLoop_stored h
  have heof : .eof ∉ results := fun hmem => (hgoes _ hmem).1 rfl
  have herror : .error ∉ results := fun hmem => (hgoes _ hmem).2 rfl
  have hfull := ucIoReadLoop_full h heof herror hblocks
  have hret := hstored.ended herror
  rw [hfull, Nat.sub_self] at hret
  rintro (hne | hclosed)
  · exact hne hret
  · exact heof (hstored.closed_iff.1 hclosed)

/-- What the loop leaves in a buffer when it has read everything. -/
theorem ucIoReadLoop_buf (h : ucIoReadLoop buf ttl left results = some r)
    (hfull : (received results).length = left) (hroom : buf.length = ttl + left) :
    r.buf = buf.take ttl ++ received results := by
  have hstored := (ucIoReadLoop_stored h).stored
  have hnil : buf.drop (ttl + (received results).length) = [] :=
    List.drop_eq_nil_of_le (by omega)
  rw [hstored, hnil, List.append_nil]

theorem ucIpcClientLoopRcvBody_cases {head block : List UInt8} {outcome : RcvOutcome}
    (hhead : head.length = protoHeaderSize)
    (hblock : block.length = (headSize + (ProtoHeader.decode head).ttl).toNat)
    (hblocks : .eagain ∉ results)
    (h : ucIpcClientLoopRcvBody head block results = some outcome) :
    (∃ f : Frame, f.encode = head ++ received results ∧
      outcome = { arrival := .frame f, reconnect := badAckId f }) ∨
    (outcome = { arrival := .cut (ProtoHeader.decode head), reconnect := some 0x17073c93 } ∧
      ∃ e ∈ results, e = .eof ∨ e = .error) := by
  rcases Option.bind_eq_some_iff.1 h with ⟨block₁, hwrite, h'⟩
  rcases Option.bind_eq_some_iff.1 h' with ⟨r, hloop, h''⟩
  split at h''
  · rename_i hstop
    refine Or.inr ⟨(Option.some.inj h'').symm, ?_⟩
    by_contra hgoes
    refine ucIoReadLoop_goes hloop hblocks (fun e he => ?_) hstop
    exact ⟨fun heof => hgoes ⟨e, he, Or.inl heof⟩, fun herror => hgoes ⟨e, he, Or.inr herror⟩⟩
  · rename_i hdone
    rcases Option.map_eq_some_iff.1 h'' with ⟨f, hf, rfl⟩
    refine Or.inl ⟨f, ?_, rfl⟩
    have hlen₁ := overwrite_length hwrite
    have hparts := (overwrite_parts hwrite).1
    rw [hhead, Nat.zero_add, List.take_zero, List.nil_append] at hparts
    -- the header fits, so the size of the block has not wrapped
    have hfits : protoHeaderSize ≤ block₁.length := by
      rw [← hhead, ← hparts]
      exact List.length_take_le' _ _
    have hroom : block₁.length = protoHeaderSize + (ProtoHeader.decode head).ttl.toNat := by
      have hlt := (ProtoHeader.decode head).ttl.toNat_lt
      rw [hlen₁, hblock, headSize_add] at hfits ⊢
      simp only [protoHeaderSize] at hfits ⊢
      omega
    have hfull := ucIoReadLoop_done hloop hblocks hdone
    have hbuf := ucIoReadLoop_buf hloop hfull hroom
    rw [Frame.encode_ofBlock hf, hbuf, hparts]

/-- What a round comes to. -/
inductive RcvRound.Spec (round : RcvRound) : RcvOutcome → Prop
  | frame {f : Frame} (hbytes : round.bytes = f.encode) (hseq : ¬ f.head.seqId < ucIpcSeqIdMin) :
      Spec round { arrival := .frame f, reconnect := badAckId f }
  | lost {outcome : RcvOutcome} (harrival : ∀ f, outcome.arrival ≠ .frame f)
      (hreason : outcome.reconnect.isSome)
      (hwhy : round.Goes → protoHeaderSize ≤ round.bytes.length ∧
        (ProtoHeader.decode round.bytes).seqId < ucIpcSeqIdMin) :
      Spec round outcome

theorem ucIpcClientLoopRcvRound_spec {head head' : List UInt8} {round : RcvRound}
    {outcome : RcvOutcome} (hhead : head.length = protoHeaderSize) (hblocks : round.Blocks)
    (h : ucIpcClientLoopRcvRound head round = some (outcome, head')) :
    head'.length = protoHeaderSize ∧ round.Spec outcome := by
  rcases Option.bind_eq_some_iff.1 h with ⟨r, hread, h'⟩
  have hstored := ucIoReadLoop_stored hread
  have hsize : headSize.toNat = protoHeaderSize := rfl
  have hlen : r.buf.length = protoHeaderSize := by
    have hfits := hstored.fits
    rw [hsize] at hfits
    rw [hstored.stored, List.take_zero, List.nil_append, List.length_append, List.length_drop]
    omega
  by_cases hstop : r.ret ≠ 0 ∨ r.closed = true
  · -- there is no complete header
    simp only [if_pos hstop] at h'
    split at h'
    · cases h'
      refine ⟨hlen, RcvRound.Spec.lost (fun _ => Arrival.noConfusion) rfl fun hgoes => ?_⟩
      refine absurd hstop (ucIoReadLoop_goes hread hblocks.1 fun e he => hgoes.1 e ?_)
      exact List.mem_append_left _ he
    · cases h'
  · have hfull := ucIoReadLoop_done hread hblocks.1 hstop
    have hbuf := ucIoReadLoop_buf hread hfull (by rw [hhead, hsize, Nat.zero_add])
    rw [List.take_zero, List.nil_append] at hbuf
    simp only [if_neg hstop] at h'
    by_cases hseq : (ProtoHeader.decode r.buf).seqId < ucIpcSeqIdMin
    · simp only [if_pos hseq] at h'
      split at h'
      · rename_i hbody
        cases h'
        refine ⟨hlen, RcvRound.Spec.lost (fun _ => Arrival.noConfusion) rfl fun _ => ?_⟩
        have hbytes : round.bytes = r.buf := by
          rw [RcvRound.bytes, List.isEmpty_iff.1 hbody, hbuf]
          exact List.append_nil _
        rw [hbytes]
        exact ⟨hlen.ge, hseq⟩
      · cases h'
    · simp only [if_neg hseq] at h'
      cases hmem : round.mem with
      | none =>
          simp only [hmem] at h'
          split at h'
          · cases h'
            refine ⟨hlen, RcvRound.Spec.lost (fun _ => Arrival.noConfusion) rfl fun hgoes => ?_⟩
            have hsome := hgoes.2
            rw [hmem] at hsome
            cases hsome
          · cases h'
      | some block =>
          simp only [hmem] at h'
          split at h'
          · rename_i hblock
            rcases Option.map_eq_some_iff.1 h' with ⟨outcome', hround, heq⟩
            cases heq
            refine ⟨hlen, ?_⟩
            rcases ucIpcClientLoopRcvBody_cases hlen hblock.1 hblocks.2 hround with
              ⟨f, hbytes, rfl⟩ | ⟨rfl, e, he, hend⟩
            · rw [hbuf] at hbytes
              refine RcvRound.Spec.frame hbytes.symm ?_
              rwa [← Frame.decode_encode f, hbytes, ← hbuf, ProtoHeader.decode_append hlen.ge]
            · refine RcvRound.Spec.lost (fun _ => Arrival.noConfusion) rfl fun hgoes => ?_
              have hgo := hgoes.1 e (List.mem_append_right _ he)
              rcases hend with heof | herror
              · exact absurd heof hgo.1
              · exact absurd herror hgo.2
          · cases h'

end Rounds

/-- No round with this message ends in a reconnect. -/
def Frame.Accepted (f : Frame) : Prop :=
  ¬ f.head.seqId < ucIpcSeqIdMin ∧ badAckId f = none

namespace ClientReader

variable {s : ClientReader}

/-- The bytes that a list of rounds takes out of the stream. -/
def taken (rounds : List RcvRound) : List UInt8 :=
  rounds.flatMap RcvRound.bytes

theorem taken_append (rounds : List RcvRound) (round : RcvRound) :
    taken (rounds ++ [round]) = taken rounds ++ round.bytes := by
  simp [taken]

/-- Each round has taken one message, and only the last one may have ended in a reconnect. -/
structure Took (s : ClientReader) (rounds : List RcvRound) : Prop where
  head : s.head.length = protoHeaderSize
  bytes : (s.frames.map Frame.encode).flatten <+: taken rounds
  words : s.reconnect = none → rounds.map RcvRound.bytes = s.frames.map Frame.encode
  arrivals : s.reconnect = none → s.arrivals = s.frames.map Arrival.frame

namespace Took

variable {rounds : List RcvRound}

theorem taken_eq (hT : s.Took rounds) (hopen : s.reconnect = none) :
    taken rounds = (s.frames.map Frame.encode).flatten := by
  rw [← hT.words hopen, taken, List.flatMap_def]

theorem exec (hT : s.Took rounds) (hopen : s.reconnect = none) {round : RcvRound}
    (hblocks : round.Blocks) {t : ClientReader} (hexec : s.exec round = some t) :
    t.Took (rounds ++ [round]) ∧
      ((∃ f, t.reconnect = badAckId f ∧ t.frames = s.frames ++ [f]) ∨
        (round.Goes → protoHeaderSize ≤ round.bytes.length ∧
          (ProtoHeader.decode round.bytes).seqId < ucIpcSeqIdMin)) := by
  rcases Option.map_eq_some_iff.1 hexec with ⟨⟨outcome, head'⟩, hround, rfl⟩
  rcases ucIpcClientLoopRcvRound_spec hT.head hblocks hround with ⟨hhead', hspec⟩
  have hbytes := hT.taken_eq hopen
  cases hspec with
  | @frame f hword hseq =>
      let t : ClientReader :=
        { head := head', arrivals := s.arrivals ++ [.frame f], reconnect := badAckId f }
      have hframes : t.frames = s.frames ++ [f] := by simp [t, frames]
      refine ⟨⟨hhead', ?_, fun _ => ?_, fun _ => ?_⟩, Or.inl ⟨f, rfl, hframes⟩⟩
      · show (t.frames.map Frame.encode).flatten <+: _
        rw [hframes, taken_append, hbytes, hword]
        simp
      · show _ = t.frames.map Frame.encode
        rw [hframes, List.map_append, List.map_append, hT.words hopen, List.map_singleton, hword]
        rfl
      · show t.arrivals = t.frames.map Arrival.frame
        rw [hframes, List.map_append, ← hT.arrivals hopen]
        rfl
  | lost harrival hreason hwhy =>
      have hframes : frames
          { head := head', arrivals := s.arrivals ++ [outcome.arrival],
            reconnect := outcome.reconnect } = s.frames := by
        simp [frames]
      have hclosed : outcome.reconnect ≠ none := Option.isSome_iff_ne_none.1 hreason
      refine ⟨⟨hhead', ?_, fun h => absurd h hclosed, fun h => absurd h hclosed⟩, Or.inr hwhy⟩
      rw [hframes, taken_append, hbytes]
      exact List.prefix_append _ _

end Took

end ClientReader

end Ipc
end UtilsC
