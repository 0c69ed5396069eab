import UtilsC.Ipc.ReaderSafe

/-!
# A stream in pieces

The kernel decides what each `read()` gives and so where one call of `uc_ipc_server_read_client`
ends and the next begins.

* `Answered` are the results that `read()` may give one after another, over any number of calls.
* `Pending` are results that a call has taken without coming back yet.
* `exists_calls`: every such sequence of results is a sequence of calls and a rest that is pending.
* `ucIpcServerReadClient_framing`: the messages taken over are the packets sent.
-/

namespace UtilsC
namespace Ipc

open Lib

namespace CliProto

/-- The client that the next call finds when one has come back with `value`. -/
def afterCall (value : Int) (cli : CliProto) : CliProto :=
  if 0 < value then (cli.handOver true).2.2 else cli

/-- Every result is one that `read()` and `malloc` may give where the calls have come to.  Behind
a close nothing is read. -/
def Answered (cli : CliProto) : List ReadResult → Prop
  | [] => True
  | r :: results =>
      cli.Answers r ∧
        match cli.readOnce r with
        | some (.again cli') => cli'.Answered results
        | some (.ret value cli') => (cli'.afterCall value).Answered results
        | _ => results = []

/-- A call that has taken these results is still in its loop. -/
def Pending (cli : CliProto) : List ReadResult → Prop
  | [] => True
  | r :: results =>
      match cli.readOnce r with
      | some (.again cli') => cli'.Pending results
      | _ => False

variable {cli : CliProto} {p : List UInt8}

/-- A call in its loop is inside a message. -/
theorem Holds.pending {results : List ReadResult} : ∀ {cli : CliProto} {p : List UInt8},
    Holds cli p → cli.Pending results → ∃ cli', Holds cli' (p ++ bytesOf results) := by
  induction results with
  | nil =>
      intro cli p h _
      rw [bytesOf, List.flatMap_nil, List.append_nil]
      exact ⟨cli, h⟩
  | cons r results ih =>
      intro cli p h hpending
      cases hnext : cli.readOnce r with
      | none => simp [Pending, hnext] at hpending
      | some next =>
          have hgood := h.readOnce hnext
          cases next with
          | again cli' =>
              simp only [Pending, hnext] at hpending
              rcases ih hgood hpending with ⟨cli'', h''⟩
              refine ⟨cli'', ?_⟩
              rwa [bytesOf, List.flatMap_cons, ← List.append_assoc]
          | ret value cli' => simp [Pending, hnext] at hpending
          | close value => simp [Pending, hnext] at hpending

/-- Possible results keep a call in its loop, or some of them end it. -/
theorem Holds.first_call {results : List ReadResult} : ∀ {cli : CliProto} {p : List UInt8},
    Holds cli p → (∀ r ∈ results, r.Goes) → cli.Answered results →
      cli.Pending results ∨
        ∃ first others value cli', results = first ++ others ∧ first ≠ [] ∧
          cli.ucIpcServerReadClient first = some (value, some cli') ∧
          (cli'.afterCall value).Answered others := by
  induction results with
  | nil => exact fun _ _ _ => Or.inl trivial
  | cons r results ih =>
      intro cli p h hgoes hanswered
      rcases hanswered with ⟨hanswer, hlater⟩
      rcases Option.isSome_iff_exists.1 (h.readOnce_isSome hanswer) with ⟨next, hnext⟩
      have hgood := h.readOnce hnext
      rw [hnext] at hlater
      cases next with
      | again cli' =>
          rcases ih hgood (fun r' hr' => hgoes r' (List.mem_cons_of_mem _ hr')) hlater with
            hpending | ⟨first, others, value, cli'', rfl, _, hcall, hothers⟩
          · left
            simpa only [Pending, hnext] using hpending
          · right
            refine ⟨r :: first, others, value, cli'', rfl, List.cons_ne_nil _ _, ?_, hothers⟩
            simp only [ucIpcServerReadClient, h.not_done, Bool.false_eq_true, if_false, hnext,
              hcall]
      | ret value cli' =>
          right
          refine ⟨[r], results, value, cli', rfl, List.cons_ne_nil _ _, ?_, hlater⟩
          simp only [ucIpcServerReadClient, h.not_done, Bool.false_eq_true, if_false, hnext,
            List.isEmpty_nil, if_true]
      | close value => exact absurd hgood (hgoes r (by simp)).not_closes

end CliProto

namespace Reader

variable {s : Reader}

/-- Whatever `read()` gives, the calls take it: all of it but what the last of them has not come
back from. -/
theorem exists_calls (n : Nat) : ∀ {results : List ReadResult}, results.length ≤ n →
    ∀ {s : Reader} {cli : CliProto} {words : List (List UInt8)} {p : List UInt8},
      s.Reads words p → s.cli = some cli → (∀ r ∈ results, r.Goes) → cli.Answered results →
        ∃ calls rest t, calls.flatMap ReadCall.reads ++ rest = results ∧
          (∀ call ∈ calls, call.Goes) ∧ machine.Run s calls t ∧
          ∃ cli', t.cli = some cli' ∧ cli'.Pending rest := by
  -- the induction is on the number of results, of which every call takes at least one
  induction n with
  | zero =>
      intro results hlen s cli words p _ hcli _ _
      have hnil := List.eq_nil_of_length_eq_zero (Nat.le_zero.1 hlen)
      exact ⟨[], [], s, by simp [hnil], by simp, Machine.Run.nil, cli, hcli, trivial⟩
  | succ n ih =>
      intro results hlen s cli words p hreads hcli hgoes hanswered
      rcases hreads.cli with ⟨cli₀, hcli₀, hholds⟩
      cases hcli.symm.trans hcli₀
      rcases hholds.first_call hgoes hanswered with
        hpending | ⟨first, others, value, cli', rfl, hne, hcall, hothers⟩
      · exact ⟨[], results, s, rfl, by simp, Machine.Run.nil, cli, hcli, hpending⟩
      · have hpos := List.length_pos_of_ne_nil hne
        rw [List.length_append] at hlen
        let call : ReadCall := ⟨first, true⟩
        have hgoes₁ : call.Goes := ⟨fun r hr => hgoes r (List.mem_append_left _ hr), rfl⟩
        have hexec : ∃ t, s.exec call = some t ∧ t.cli = some (cli'.afterCall value) := by
          simp only [Reader.exec, hcli, Option.bind_some, call, hcall, Option.map_some,
            CliProto.afterCall]
          split
          · exact ⟨_, rfl, rfl⟩
          · exact ⟨_, rfl, rfl⟩
        rcases hexec with ⟨t, hexec, ht⟩
        rcases hreads.exec hgoes₁ hexec with ⟨words', p', hreads', -⟩
        rcases ih (by omega) hreads' ht (fun r hr => hgoes r (List.mem_append_right _ hr)) hothers
          with ⟨calls, rest, u, hcalls, hcallsGo, hrun, hend⟩
        have hstep : machine.Run s [call] t :=
          Machine.Run.snoc Machine.Run.nil (by simp [machine, hcli]) hexec
        refine ⟨call :: calls, rest, u, ?_, ?_, hstep.trans hrun, hend⟩
        · rw [List.flatMap_cons, List.append_assoc, hcalls]
        · intro c hc
          rcases List.mem_cons.1 hc with rfl | hc
          · exact hgoes₁
          · exact hcallsGo c hc

theorem received_eq (calls : List ReadCall) :
    received calls = CliProto.bytesOf (calls.flatMap ReadCall.reads) := by
  simp only [received, CliProto.bytesOf, List.flatMap_assoc]
  rfl

/-- The messages that the receiver is meant to take over. -/
def sent (sends : List ClientSend) : List PipeData :=
  sends.map fun send => PipeData.ofFrame send.protoPkt

/-- Words that begin the stream of the sends are packets sent. -/
theorem Reads.msgs_of_stream {sends : List ClientSend} {stream : List UInt8}
    (hwrites : ∀ send ∈ sends, ∀ r ∈ send.writes, r.delivers) (hwire : wire sends = some stream)
    {words : List (List UInt8)} {p : List UInt8} (hreads : s.Reads words p) :
    (words.flatten ++ p <+: stream → s.msgs <+: sent sends) ∧
      ∀ q, CutShort Whole (p ++ q) → words.flatten ++ (p ++ q) = stream → s.msgs = sent sends := by
  have hstream := wire_eq hwrites hwire
  have hwhole : ∀ w ∈ sends.map (fun send => send.protoPkt.encode), Whole w := by
    intro w hw
    rcases List.mem_map.1 hw with ⟨send, -, rfl⟩
    exact send.protoPkt.whole
  have hsent : (sends.map fun send => send.protoPkt.encode).map PipeData.ofWord = sent sends := by
    rw [List.map_map]
    exact List.map_congr_left fun send _ => PipeData.ofWord_encode send.protoPkt
  rw [hreads.msgs, ← hsent, hstream]
  refine ⟨fun hkernel => ?_, fun q hcut hall => ?_⟩
  · -- the words found begin the words sent
    exact (whole_prefixFree.flatten_prefix hreads.whole hwhole hkernel).map _
  · -- nothing is left over, so they are all of them
    rw [(whole_prefixFree.flatten_eq hreads.whole hwhole hcut hall).1]

/-- However the stream of a sequence of sends is cut into what `read()` gives, there are calls that
take it, and the messages taken over are the packets sent, in order: the first of them at any time,
and all of them when the stream has been read.  In every run of such calls the reader never asks for
nothing, what it gets stays inside its blocks, and every result that is possible has an outcome. -/
theorem ucIpcServerReadClient_framing {sends : List ClientSend} {stream : List UInt8}
    (hwrites : ∀ send ∈ sends, ∀ r ∈ send.writes, r.delivers) (hwire : wire sends = some stream) :
    (∀ results, (∀ r ∈ results, r.Goes) → ucIpcServerResetCliProto.Answered results →
      CliProto.bytesOf results <+: stream →
        ∃ calls rest s, calls.flatMap ReadCall.reads ++ rest = results ∧
          (∀ call ∈ calls, call.Goes) ∧ machine.Run ofAccept calls s ∧
          (∃ cli, s.cli = some cli ∧ cli.Pending rest) ∧ s.msgs <+: sent sends ∧
          (CliProto.bytesOf results = stream → s.msgs = sent sends)) ∧
    ∀ calls s, (∀ call ∈ calls, call.Goes) → received calls <+: stream →
      machine.Run ofAccept calls s →
        s.msgs <+: sent sends ∧ (received calls = stream → s.msgs = sent sends) ∧
        ∃ cli, s.cli = some cli ∧ 0 < cli.want.toNat ∧
          (∀ bytes : List UInt8, bytes.length ≤ cli.want.toNat → (cli.store bytes).isSome) ∧
          ∀ r, cli.Answers r → (cli.readOnce r).isSome := by
  constructor
  · intro results hgoes hanswered hkernel
    rcases exists_calls results.length le_rfl ofAccept_reads rfl hgoes hanswered with
      ⟨calls, rest, s, hsplit, hcallsGo, hrun, cli, hcli, hpending⟩
    rcases reads_of_run hrun hcallsGo with ⟨words, p, hreads, hbytes⟩
    rcases hreads.cli with ⟨cli₀, hcli₀, hholds⟩
    cases hcli.symm.trans hcli₀
    rcases hholds.pending hpending with ⟨cli', hholds'⟩
    have hall : CliProto.bytesOf results = words.flatten ++ (p ++ CliProto.bytesOf rest) := by
      rw [← List.append_assoc, hbytes, received_eq, ← hsplit, CliProto.bytesOf,
        List.flatMap_append]
      rfl
    have hmsgs := hreads.msgs_of_stream hwrites hwire
    refine ⟨calls, rest, s, hsplit, hcallsGo, hrun, ⟨cli, hcli, hpending⟩, ?_, ?_⟩
    · refine hmsgs.1 ?_
      rw [hall, ← List.append_assoc] at hkernel
      exact (List.prefix_append _ _).trans hkernel
    · intro hend
      exact hmsgs.2 _ hholds'.cutShort (hall.symm.trans hend)
  · intro calls s hgoes hkernel hrun
    rcases reads_of_run hrun hgoes with ⟨words, p, hreads, hbytes⟩
    rcases hreads.cli with ⟨cli, hcli, hholds⟩
    have hmsgs := hreads.msgs_of_stream hwrites hwire
    refine ⟨hmsgs.1 (hbytes ▸ hkernel), fun hend => ?_, cli, hcli, hholds.want_pos,
      fun bytes hle => hholds.store_isSome hle, fun r hr => hholds.readOnce_isSome hr⟩
    refine hmsgs.2 [] ?_ ?_
    · rw [List.append_nil]
      exact hholds.cutShort
    · rw [List.append_nil, hbytes, hend]

theorem twoSends_fits : protoHeaderSize + ([7, 8] : List UInt8).length < 2 ^ 63 := by
  decide

/-- Two messages, the second without a payload; the first is written in two pieces. -/
def twoSends : List ClientSend :=
  [{ msgType := ucIpcMsgTypeSyncSend, seqId := 10000, buf := ⟨[7, 8], twoSends_fits⟩,
     writes := [.wrote 3, .eintr, .wrote 27] },
   { msgType := ucIpcMsgTypeHeartbeat, seqId := 10001, buf := Payload.empty,
     writes := [.eagain, .wrote 28] }]

/-- The stream of `twoSends`, cut inside a header, between a header and its payload, and inside the
payload. -/
def cutCalls : List ReadCall :=
  let stream := (twoSends.map fun send => send.protoPkt.encode).flatten
  [⟨[.data (stream.take 10) (some [])], true⟩,
   ⟨[.eintr, .data ((stream.drop 10).take 18) (some [0, 0]), .eintr, .data [7] (some [])], true⟩,
   ⟨[.eagain], true⟩,
   ⟨[.data [8] (some [])], true⟩,
   ⟨[.data (stream.drop 30) (some [])], true⟩]

theorem ucIpcServerReadClient_framing_cut : ∃ s : Reader, machine.Run ofAccept cutCalls s ∧
    s.msgs = sent twoSends := by
  have hplay : (machine.play ofAccept cutCalls).any (fun _ => true) = true := by
    decide +kernel
  rcases Machine.exists_run_of_play hplay with ⟨s, hrun, -⟩
  have hwrites : ∀ send ∈ twoSends, ∀ r ∈ send.writes, r.delivers := by
    simp [twoSends, WriteResult.delivers]
  have hwire : wire twoSends = some (received cutCalls) := by
    decide +kernel
  have hgoes : ∀ call ∈ cutCalls, call.Goes := by
    simp [cutCalls, ReadCall.Goes, ReadResult.Goes]
  have hframing :=
    (ucIpcServerReadClient_framing hwrites hwire).2 cutCalls s hgoes List.prefix_rfl hrun
  exact ⟨s, hrun, hframing.2.1 rfl⟩

end Reader

end Ipc
end UtilsC
