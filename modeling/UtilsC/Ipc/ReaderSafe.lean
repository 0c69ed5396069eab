import UtilsC.Ipc.Reader

/-!
# The reader on arbitrary bytes

`uc_ipc_server_read_client` trusts nothing that a peer sends: whatever the bytes are, however they
are cut, and whenever memory runs out, the fields of the client stay as the next call expects them.

* `Between` is what holds of the fields between two calls.
* `readsAt` are the states in which a call comes to `read()`, and `Answers` is what `read()` and
  `malloc` may answer there.
-/

namespace UtilsC
namespace Ipc

open Lib

namespace CliProto

/-- The fields of a client between two calls of `uc_ipc_server_read_client`. -/
structure Between (cli : CliProto) : Prop where
  notBoth : ¬ (cli.headDone = true ∧ cli.bufDone = true)
  ipcHead : cli.ipcHead.length = protoHeaderSize
  head : cli.headDone = false → cli.hasRead.toNat < protoHeaderSize
  body : cli.headDone = true → protoHeaderSize ≤ cli.hasRead.toNat ∧
    cli.hasRead.toNat < protoHeaderSize + cli.ttl.toNat ∧
    ∃ block, cli.buf = some block ∧ block.length = cli.ttl.toNat

/-- What `read()` and `malloc` may answer.  Some bytes are no more than asked for; when they
complete the header, there is no memory or a block of the length announced, at most 2^63 bytes. -/
def Answers (cli : CliProto) : ReadResult → Prop
  | .data bytes mem =>
      0 < bytes.length ∧ bytes.length ≤ cli.want.toNat ∧
        (cli.headDone = false → cli.hasRead.toNat + bytes.length = protoHeaderSize →
          ∀ cli' block, cli.store bytes = some cli' → mem = some block →
            block.length = cli'.ttl.toNat ∧ block.length ≤ 2 ^ 63)
  | _ => True

/-- The states in which a call comes to `read()`. -/
def readsAt (cli : CliProto) : List ReadResult → List CliProto
  | [] => [cli]
  | r :: results =>
      match cli.readOnce r with
      | some (.again cli') => cli :: readsAt cli' results
      | _ => [cli]

variable {cli : CliProto} {p : List UInt8}

theorem Holds.between (h : Holds cli p) : cli.Between := by
  cases h with
  | @head p rest hasRead hread hblock hopen =>
      refine ⟨by simp, by simpa using hblock, fun _ => ?_, fun hdone => absurd hdone (by simp)⟩
      show hasRead.toNat < protoHeaderSize
      omega
  | @body head q rest hasRead hread hhead hblock hmalloc hopen =>
      refine ⟨by simp, hhead, fun hopen => absurd hopen (by simp), fun _ =>
        ⟨?_, ?_, q ++ rest, rfl, ?_⟩⟩
      · show protoHeaderSize ≤ hasRead.toNat
        omega
      · show hasRead.toNat < protoHeaderSize + (ProtoHeader.decode head).ttl.toNat
        omega
      · show (q ++ rest).length = (ProtoHeader.decode head).ttl.toNat
        rw [List.length_append, hblock]

/-- Only a block that is not of the length announced has no place in the code. -/
theorem received_isSome {count want : UInt64} {mem : Option (List UInt8)}
    (hmem : cli.headDone = false → cli.hasRead = headSize → ∀ block, mem = some block →
      block.length = cli.ttl.toNat ∧ block.length ≤ 2 ^ 63) :
    (cli.received count want mem).isSome := by
  unfold received
  split
  · rename_i hhead
    split
    · rename_i hfull
      split
      · rfl
      · cases mem with
        | none => rfl
        | some block =>
            have hblock := hmem hhead hfull block rfl
            simp only [if_pos hblock, Option.isSome_some]
    · split <;> rfl
  · split
    · split
      · rfl
      · split <;> rfl
    · rfl

theorem store_fields {bytes : List UInt8} {cli' : CliProto} (h : cli.store bytes = some cli') :
    cli'.headDone = cli.headDone ∧ cli'.hasRead = cli.hasRead := by
  unfold store at h
  split at h
  · rcases Option.map_eq_some_iff.1 h with ⟨head, _, rfl⟩
    exact ⟨rfl, rfl⟩
  · rcases Option.bind_eq_some_iff.1 h with ⟨block, _, h'⟩
    rcases Option.map_eq_some_iff.1 h' with ⟨block', _, rfl⟩
    exact ⟨rfl, rfl⟩

/-- In the header nothing wraps. -/
theorem Holds.want_head (h : Holds cli p) (hopen : cli.headDone = false) :
    cli.hasRead.toNat + cli.want.toNat = protoHeaderSize := by
  cases h with
  | @head p rest hasRead hread hblock _ =>
      rw [CliProto.want_head hread hblock]
      show hasRead.toNat + rest.length = protoHeaderSize
      rw [hread, hblock]
  | body => cases hopen

/-- A round has an outcome, whatever the answer is. -/
theorem Holds.readOnce_isSome (h : Holds cli p) {r : ReadResult} (hr : cli.Answers r) :
    (cli.readOnce r).isSome := by
  cases r with
  | data bytes mem =>
      rcases hr with ⟨hpos, hle, hmem⟩
      rcases Option.isSome_iff_exists.1 (h.store_isSome hle) with ⟨cli', hstore⟩
      rcases store_fields hstore with ⟨hhead, hread⟩
      simp only [CliProto.readOnce, hpos, hle, and_self, if_true, hstore, Option.bind_some]
      refine received_isSome ?_
      intro hopen hfull block hblock
      refine hmem (hhead ▸ hopen) ?_ cli' block hstore hblock
      -- in the header the count is small, so the sum is that of the numbers
      have hwant := h.want_head (hhead ▸ hopen)
      have hsum : cli.hasRead.toNat + bytes.length < 2 ^ 64 := by
        simp only [protoHeaderSize] at hwant
        omega
      have hread' : cli.hasRead + UInt64.ofNat bytes.length = headSize := hread ▸ hfull
      have htoNat := congrArg UInt64.toNat hread'
      rwa [toNat_add_count hsum] at htoNat
  | eof => rfl
  | eintr => rfl
  | eagain => rfl
  | error => rfl

/-- Every round of a call starts from a message that is not complete. -/
theorem Holds.of_readsAt {results : List ReadResult} : ∀ {cli : CliProto} {p : List UInt8},
    Holds cli p → ∀ cli' ∈ cli.readsAt results, ∃ p', Holds cli' p' := by
  induction results with
  | nil =>
      intro cli p h cli' hcli'
      rw [List.mem_singleton.1 hcli']
      exact ⟨p, h⟩
  | cons r results ih =>
      intro cli p h cli' hcli'
      rw [readsAt] at hcli'
      split at hcli'
      · rename_i again hnext
        rcases List.mem_cons.1 hcli' with rfl | hlater
        · exact ⟨p, h⟩
        · exact ih (h.readOnce hnext) cli' hlater
      · rw [List.mem_singleton.1 hcli']
        exact ⟨p, h⟩

/-- The connection is not closed for a "run error". -/
theorem closes_ne {r : ReadResult} {value : Int} (h : r.Closes value) :
    value ≠ -0x34a82f5c ∧ value ≠ -0x4a9e0f3d ∧ value ≠ -0x73978bc5 := by
  cases r with
  | data bytes mem =>
      rw [h.2]
      decide
  | eof =>
      rw [show value = -0x46dd3fd2 from h]
      decide
  | error =>
      rw [show value = -0x31ecfc83 from h]
      decide
  | eintr => exact absurd h not_false
  | eagain => exact absurd h not_false

theorem Holds.value_ne (h : Holds cli p) {results : List ReadResult} {value : Int}
    {out : Option CliProto} (hcall : cli.ucIpcServerReadClient results = some (value, out)) :
    value ≠ -0x34a82f5c ∧ value ≠ -0x4a9e0f3d ∧ value ≠ -0x73978bc5 := by
  rcases h.readClient hcall with ⟨_, _, ⟨rfl, _⟩ | ⟨rfl, _⟩⟩ | ⟨_, r, _, hcloses⟩
  · decide
  · decide
  · exact closes_ne hcloses

end CliProto

namespace Reader

variable {s : Reader}

/-- The invariant over all turns: a client that is still connected is inside a message. -/
def Inside (s : Reader) : Prop :=
  ∀ cli, s.cli = some cli → ∃ p, cli.Holds p

/-- One turn, with or without memory for the message. -/
theorem Inside.exec (h : s.Inside) {call : ReadCall} {t : Reader} (hexec : s.exec call = some t) :
    t.Inside := by
  intro cli₁ hcli₁
  rcases Option.bind_eq_some_iff.1 hexec with ⟨cli, hcli, hexec'⟩
  rcases Option.map_eq_some_iff.1 hexec' with ⟨⟨value, out⟩, hcall, ht⟩
  rcases h cli hcli with ⟨p, hholds⟩
  rcases hholds.readClient hcall with
    ⟨cli', rfl, ⟨rfl, hholds'⟩ | ⟨rfl, hdone⟩⟩ | ⟨rfl, _⟩
  · -- the call came back inside a message
    cases ht
    cases hcli₁
    exact ⟨_, hholds'⟩
  · -- both ends of the hand-over leave the client as after an accept
    have hreset : (cli'.handOver call.malloc).2.2 = ucIpcServerResetCliProto := by
      cases hmalloc : call.malloc <;> simp [CliProto.handOver, hdone.bufDone]
    cases ht
    cases hcli₁
    exact ⟨[], hreset ▸ CliProto.reset_holds⟩
  · cases ht
    cases hcli₁

theorem inside_of_run {calls : List ReadCall} (hrun : machine.Run ofAccept calls s) :
    s.Inside := by
  have hok : ∀ e ∈ calls, (fun _ => True) e := fun _ _ => trivial
  -- a client just accepted is before the first byte
  refine hrun.invariant (J := Inside) ?_ ?_ hok
  · intro cli hcli
    cases hcli
    exact ⟨[], CliProto.reset_holds⟩
  · intro t u call hJ _ _ hexec
    exact hJ.exec hexec

/-- Whatever a peer sends, however `read()` cuts it and wherever `malloc` fails: between two calls
the fields are as they should be, every read of a call asks for something and stays inside its
block, every answer that is possible there has an outcome, and no call ends in a "run error". -/
theorem ucIpcServerReadClient_safe {calls : List ReadCall} {cli : CliProto}
    (hrun : machine.Run ofAccept calls s) (hcli : s.cli = some cli) :
    cli.Between ∧
      (∀ results, ∀ cli' ∈ cli.readsAt results,
        0 < cli'.want.toNat ∧
          (∀ bytes : List UInt8, bytes.length ≤ cli'.want.toNat → (cli'.store bytes).isSome) ∧
          ∀ r, cli'.Answers r → (cli'.readOnce r).isSome) ∧
      ∀ results value out, cli.ucIpcServerReadClient results = some (value, out) →
        value ≠ -0x34a82f5c ∧ value ≠ -0x4a9e0f3d ∧ value ≠ -0x73978bc5 := by
  rcases inside_of_run hrun cli hcli with ⟨p, hholds⟩
  refine ⟨hholds.between, ?_, fun results value out hcall => hholds.value_ne hcall⟩
  intro results cli' hcli'
  rcases hholds.of_readsAt cli' hcli' with ⟨p', hholds'⟩
  exact ⟨hholds'.want_pos, fun bytes hle => hholds'.store_isSome hle,
    fun r hr => hholds'.readOnce_isSome hr⟩

/-- A message of zeros for which there is no memory, and the first byte of the next. -/
def zeroCalls : List ReadCall :=
  [⟨[.eintr, .data (List.replicate 20 0) none], true⟩, ⟨[.data (List.replicate 8 0) none], false⟩,
   ⟨[.data [255] none], true⟩]

theorem ucIpcServerReadClient_safe_zeros : ∃ (s : Reader) (cli : CliProto),
    machine.Run ofAccept zeroCalls s ∧ s.cli = some cli ∧ cli.Between := by
  have hplay : (machine.play ofAccept zeroCalls).any (fun s => s.cli.isSome) = true := by
    decide +kernel
  rcases Machine.exists_run_of_play hplay with ⟨s, hrun, hopen⟩
  rcases Option.isSome_iff_exists.1 hopen with ⟨cli, hcli⟩
  exact ⟨s, cli, hrun, hcli, (ucIpcServerReadClient_safe hrun hcli).1⟩

end Reader

end Ipc
end UtilsC
