import UtilsC.Ipc.Client

/-!
# What a call is handed

The receive thread stores a reply in the entry of the id it answers, and the call that waits takes
it out.

* `Client.Traced` is what holds of the client whatever it receives: a call only ever works with the
  id it has drawn, and is only ever handed a reply to that id.
* `Step.outbox`, `Step.call_kept` and `Step.seqId` say what a step does to the stream, to the other
  calls and to the counter.
-/

namespace UtilsC
namespace Ipc

open Lib Hash

/-! ## What the client keeps track of -/

/-- The id the call has drawn, as long as it works with it. -/
def CallPc.drawnId : CallPc → Option UInt64
  | .drawn id => some id
  | pc => pc.insertedId

theorem CallPc.drawnId_of_insertedId {pc : CallPc} {id : UInt64} (h : pc.insertedId = some id) :
    pc.drawnId = some id := by
  cases pc <;> first | exact h | cases h

/-- The ids that an event draws, with the calls that draw them. -/
def ClientEvent.draws (e : ClientEvent) (s : Client) : List (Nat × UInt64) :=
  match e with
  | .draw c => [(c, s.seqId)]
  | _ => []

namespace Client

variable {s : Client}

/-- What call `c` is handed is a reply to the id it has drawn; `answered` are the replies that have
arrived. -/
structure Handed (draws : List (Nat × UInt64)) (answered : Frame → Prop) (c : Nat)
    (call : ClientCall) : Prop where
  drawn : ∀ id, call.pc.drawnId = some id → (c, id) ∈ draws
  stored : ∀ msg ∈ call.stored, (c, msg.frame.head.ackId) ∈ draws ∧ answered msg.frame
  sync : call.kind = .syncSend → ∀ handed, call.pc = .returned 0 handed →
    ∃ msg, handed = some msg ∧ (c, msg.frame.head.ackId) ∈ draws ∧ answered msg.frame
  async : call.kind = .asyncSend → ∀ handed, call.pc = .returned 0 handed →
    ∃ f, (c, f.head.ackId) ∈ draws ∧ answered f

structure Traced (s : Client) (draws : List (Nat × UInt64)) (answered : Frame → Prop) : Prop where
  calls : ∀ {c : Nat} {call : ClientCall}, s.calls[c]? = some call → Handed draws answered c call
  entries : ∀ {id : UInt64} {msg : ClientMsg}, s.ackHash.get id = some (some msg) →
    msg.frame.head.ackId = id ∧ answered msg.frame

section Step

variable {draws : List (Nat × UInt64)} {answered : Frame → Prop}

theorem Handed.mono {c : Nat} {call : ClientCall} (hH : Handed draws answered c call)
    (more : List (Nat × UInt64)) {answered' : Frame → Prop}
    (hmono : ∀ f, answered f → answered' f) : Handed (draws ++ more) answered' c call := by
  refine ⟨?_, ?_, ?_, ?_⟩
  · exact fun id hid => List.mem_append_left _ (hH.drawn id hid)
  · intro msg hmsg
    have hold := hH.stored msg hmsg
    exact ⟨List.mem_append_left _ hold.1, hmono _ hold.2⟩
  · intro hkind handed hpc
    rcases hH.sync hkind handed hpc with ⟨msg, hhanded, hdrawn, hanswered⟩
    exact ⟨msg, hhanded, List.mem_append_left _ hdrawn, hmono _ hanswered⟩
  · intro hkind handed hpc
    rcases hH.async hkind handed hpc with ⟨f, hdrawn, hanswered⟩
    exact ⟨f, List.mem_append_left _ hdrawn, hmono _ hanswered⟩

theorem Traced.mono (hT : s.Traced draws answered) (more : List (Nat × UInt64))
    {answered' : Frame → Prop} (hmono : ∀ f, answered f → answered' f) :
    s.Traced (draws ++ more) answered' := by
  refine ⟨fun hcall => (hT.calls hcall).mono more hmono, ?_⟩
  intro id msg hget
  have hold := hT.entries hget
  exact ⟨hold.1, hmono _ hold.2⟩

variable {c : Nat} {call : ClientCall} {e : ClientEvent} {t : Client} {pc : CallPc}

theorem waitAckFailPc_drawnId {kind : CallKind} {id id' : UInt64} {ret : Int}
    (h : (waitAckFailPc kind id ret).drawnId = some id') : id' = id := by
  cases kind with
  | asyncSend => exact (Option.some.inj h).symm
  | trySend => cases h
  | syncSend => cases h
  | heartbeat => cases h

theorem afterSend_drawnId {kind : CallKind} {id id' : UInt64} {ret : Int}
    (h : (afterSend kind id ret).drawnId = some id') : id' = id := by
  -- a call that waits keeps its id whether or not the send succeeded
  have hids : ∀ {p : Prop} [Decidable p],
      (if p then CallPc.unsent id else CallPc.sent id).drawnId = some id' → id' = id := by
    intro p _ hp
    split at hp
    · exact (Option.some.inj hp).symm
    · exact (Option.some.inj hp).symm
  cases kind with
  | trySend =>
      simp only [afterSend] at h
      split at h <;> cases h
  | asyncSend => exact hids h
  | syncSend => exact hids h
  | heartbeat => cases h

/-- A call works with the id it has drawn and with no other. -/
theorem CallStep.drawnId (h : s.CallStep c call e t pc) {id : UInt64}
    (hid : pc.drawnId = some id) : call.pc.drawnId = some id ∨ (e = .draw c ∧ id = s.seqId) := by
  cases h with
  | draw hpc => exact Or.inr ⟨rfl, (Option.some.inj hid).symm⟩
  | insert hpc hkind hret =>
      rw [hpc]
      exact Or.inl hid
  | insertFail hpc hret => cases hid
  | send hpc =>
      have heq := afterSend_drawnId hid
      subst heq
      rcases hpc with ⟨hpc, _⟩ | ⟨hpc, _⟩
      · rw [hpc]
        exact Or.inl rfl
      · rw [hpc]
        exact Or.inl rfl
  | deleteSeq hpc hret => cases hid
  | noEntry hpc hget =>
      have heq := waitAckFailPc_drawnId hid
      subst heq
      rw [hpc]
      exact Or.inl rfl
  | sleep hget hnode hpc =>
      -- a call sleeps under the id of the entry it has just looked at
      rcases hpc with hloop | ⟨_, hpc⟩
      · cases hid
        exact Or.inl (CallPc.drawnId_of_insertedId hloop.insertedId)
      · rw [hpc]
        exact Or.inl hid
  | fail hpc hwhy =>
      have heq := waitAckFailPc_drawnId hid
      subst heq
      rw [hpc]
      exact Or.inl rfl
  | take hget hpc hkind => cases hid
  | takeAsync hget hpc hkind => cases hid
  | wake hpc =>
      rw [hpc]
      exact Or.inl hid

theorem waitAckFailPc_ne {kind : CallKind} {id : UInt64} {ret : Int} (hret : ret ≠ 0)
    (handed : Option ClientMsg) : waitAckFailPc kind id ret ≠ .returned 0 handed := by
  intro h
  cases kind with
  | asyncSend => cases h
  | trySend => exact hret (CallPc.returned.inj h).1
  | syncSend => exact hret (CallPc.returned.inj h).1
  | heartbeat => exact hret (CallPc.returned.inj h).1

theorem afterSend_ne {kind : CallKind} (hkind : kind.acked = true) {id : UInt64} {ret : Int}
    (handed : Option ClientMsg) : afterSend kind id ret ≠ .returned 0 handed := by
  intro h
  cases kind with
  | trySend => cases hkind
  | asyncSend =>
      simp only [afterSend] at h
      split at h <;> cases h
  | syncSend =>
      simp only [afterSend] at h
      split at h <;> cases h
  | heartbeat => cases hkind

/-- A call that waits returns 0 only with the message out of its entry. -/
theorem CallStep.returned (h : s.CallStep c call e t pc) (hkind : call.kind.acked = true)
    {handed : Option ClientMsg} (hpc : pc = .returned 0 handed) :
    ∃ id msg, call.pc.drawnId = some id ∧ s.ackHash.get id = some (some msg) ∧
      (call.kind = .syncSend → handed = some msg) := by
  cases h with
  | draw hentry => cases hpc
  | insert hdrawn hkind' hret => cases hpc
  -- the statuses of a failed insertion are constants other than 0
  | insertFail hdrawn hret =>
      have hzero := (CallPc.returned.inj hpc).1
      cases hk : call.kind <;> rw [hk] at hzero <;> cases hzero
  | send hat => exact absurd hpc (afterSend_ne hkind handed)
  | deleteSeq hat hret => exact absurd (CallPc.returned.inj hpc).1 hret
  | noEntry hat hget => exact absurd hpc (waitAckFailPc_ne (by decide) handed)
  | sleep hget hnode hat => cases hpc
  -- a wait that has failed is not reported as 0
  | fail hat hwhy => exact absurd hpc (waitAckFailPc_ne (by decide) handed)
  | take hget hat hsync =>
      cases hpc
      exact ⟨_, _, CallPc.drawnId_of_insertedId hat.insertedId, hget, fun _ => rfl⟩
  | takeAsync hget hat hasync =>
      refine ⟨_, _, CallPc.drawnId_of_insertedId hat.insertedId, hget, ?_⟩
      intro hsync
      rw [hasync] at hsync
      cases hsync
  | wake hat => cases hpc

/-- A call is handed nothing new when it only moves, or when a reply to its id is stored. -/
theorem Handed.of_eq (hH : Handed draws answered c call) {call' : ClientCall}
    (hkind : call'.kind = call.kind)
    (hid : ∀ id, call'.pc.drawnId = some id → call.pc.drawnId = some id)
    (hret : ∀ handed, call'.pc = .returned 0 handed → call.pc = .returned 0 handed)
    (hstored : ∀ msg ∈ call'.stored, msg ∈ call.stored ∨
      ((c, msg.frame.head.ackId) ∈ draws ∧ answered msg.frame)) :
    Handed draws answered c call' := by
  refine ⟨fun id h => hH.drawn id (hid id h), ?_, ?_, ?_⟩
  · intro msg hmsg
    rcases hstored msg hmsg with hold | hnew
    · exact hH.stored msg hold
    · exact hnew
  · intro h handed hpc
    exact hH.sync (hkind ▸ h) handed (hret handed hpc)
  · intro h handed hpc
    exact hH.async (hkind ▸ h) handed (hret handed hpc)

theorem signalPc_drawnId (signalled : Option Nat) (c : Nat) (pc : CallPc) :
    (signalPc signalled c pc).drawnId = pc.drawnId := by
  unfold signalPc
  split
  · cases pc <;> rfl
  · rfl

theorem signalPc_returned {signalled : Option Nat} {c : Nat} {pc : CallPc} {ret : Int}
    {handed : Option ClientMsg} (h : signalPc signalled c pc = .returned ret handed) :
    pc = .returned ret handed := by
  unfold signalPc at h
  split at h
  · cases pc <;> first | exact h | cases h
  · exact h

theorem Traced.signal (hT : s.Traced draws answered) (signalled : Option Nat) :
    (s.signal signalled).Traced draws answered := by
  refine ⟨?_, ?_⟩
  · intro c call hcall
    rw [signal_calls] at hcall
    rcases Option.map_eq_some_iff.1 hcall with ⟨old, hold, rfl⟩
    exact (hT.calls hold).of_eq rfl (fun id hid => by rwa [signalPc_drawnId] at hid)
      (fun handed hpc => signalPc_returned hpc) fun msg hmsg => Or.inl hmsg
  · intro id msg hget
    rw [signal_ackHash] at hget
    exact hT.entries hget

/-- A reply is stored in the entry of the id it answers. -/
theorem Traced.store (hT : s.Traced draws answered) {msg : ClientMsg}
    (hanswered : answered msg.frame) (hget : s.ackHash.get msg.frame.head.ackId ≠ none) :
    (s.store msg.frame.head.ackId msg).Traced draws answered := by
  refine ⟨?_, ?_⟩
  · intro c call hcall
    rw [store_calls] at hcall
    rcases Option.map_eq_some_iff.1 hcall with ⟨old, hold, rfl⟩
    have hH := hT.calls hold
    split
    · rename_i hid
      -- the call has this id inserted, so it is the one it has drawn
      refine hH.of_eq rfl (fun _ h => h) (fun _ h => h) ?_
      intro msg' hmsg'
      rcases List.mem_append.1 hmsg' with hbefore | hnew
      · exact Or.inl hbefore
      · rw [List.mem_singleton.1 hnew]
        exact Or.inr ⟨hH.drawn _ (CallPc.drawnId_of_insertedId hid), hanswered⟩
    · exact hH
  · intro id msg' hget'
    rw [store_get _ _ _ _ hget] at hget'
    split at hget'
    · rename_i hid
      cases hget'
      exact ⟨hid.symm, hanswered⟩
    · exact hT.entries hget'

/-- One step of the client. -/
theorem Traced.step (hT : s.Traced draws answered) {s' : Client} (hstep : s.Step e s')
    (hreceive : ∀ f signalled, e = .receive (.frame f) signalled → isReply (.frame f) = true →
      answered f) : s'.Traced (draws ++ e.draws s) answered := by
  have hT' := hT.mono (e.draws s) fun _ h => h
  cases hstep with
  | @call kind buf wait =>
      refine ⟨?_, hT'.entries⟩
      intro c call hcall
      rcases snoc_call hcall with hold | ⟨_, rfl⟩
      · exact hT'.calls hold
      · refine ⟨fun id hid => (by cases hid), fun msg hmsg => (by cases hmsg), ?_, ?_⟩
        · intro _ handed hpc
          cases hpc
        · intro _ handed hpc
          cases hpc
  | @receive arrival signalled s' hrcv =>
      cases hrcv with
      | quiet => exact ⟨hT'.calls, hT'.entries⟩
      | @late f blocks msgs hget =>
          have hquiet : Traced { s with blocks := blocks, freed := s.freed ++ msgs } _ answered :=
            ⟨hT'.calls, hT'.entries⟩
          exact hquiet.signal signalled
      | @store f msg hreply hmsg hget =>
          have hquiet : Traced { s with blocks := s.blocks + 1 } _ answered :=
            ⟨hT'.calls, hT'.entries⟩
          -- the message kept is the frame that has arrived
          have hframe : msg.frame = f := by rw [hmsg]
          have hanswered := hreceive f signalled rfl hreply
          rw [← hframe] at hanswered hget ⊢
          exact (hquiet.store hanswered hget).signal signalled
  | reseed => exact ⟨hT'.calls, hT'.entries⟩
  | @caller c call e t pc hcall hcallStep =>
      refine ⟨?_, ?_⟩
      · intro c' call' hcall'
        rcases setPc_call hcall' with ⟨rfl, old, hold, rfl⟩ | ⟨_, hold⟩
        · rw [hcallStep.calls_eq, hcall] at hold
          cases hold
          have hH := hT'.calls hcall
          -- what is handed out was in the entry of the id that the call works with
          have hdrawn : ∀ id, pc.drawnId = some id → (c', id) ∈ draws ++ e.draws s := by
            intro id hid
            rcases hcallStep.drawnId hid with hsame | ⟨rfl, rfl⟩
            · exact hH.drawn id hsame
            · exact List.mem_append_right _ (List.mem_singleton_self _)
          refine ⟨hdrawn, hH.stored, ?_, ?_⟩
          · intro hkind handed hpc
            have hacked : call.kind.acked = true := by
              rw [show call.kind = .syncSend from hkind]
              rfl
            rcases hcallStep.returned hacked hpc with ⟨id, msg, hid, hget, hhanded⟩
            have hentry := hT'.entries hget
            exact ⟨msg, hhanded hkind, hentry.1 ▸ hH.drawn id hid, hentry.2⟩
          · intro hkind handed hpc
            have hacked : call.kind.acked = true := by
              rw [show call.kind = .asyncSend from hkind]
              rfl
            rcases hcallStep.returned hacked hpc with ⟨id, msg, hid, hget, -⟩
            have hentry := hT'.entries hget
            exact ⟨msg.frame, hentry.1 ▸ hH.drawn id hid, hentry.2⟩
        · rw [hcallStep.calls_eq] at hold
          exact hT'.calls hold
      · intro id msg hget
        rw [setPc_ackHash] at hget
        exact hT'.entries (hcallStep.get_stored hget).1

end Step

/-! ## What the client sends -/

end Client

/-- The call that an event makes send a frame. -/
def ClientEvent.senders : ClientEvent → List Nat
  | .send c .written => [c]
  | _ => []

namespace Client

variable {s : Client}

/-- At the test of the waiting loop a call sends nothing. -/
theorem InLoop.senders {c : Nat} {call : ClientCall} {e : ClientEvent} {id : UInt64} {node : Nat}
    (h : s.InLoop c call e id node) : e.senders = [] := by
  rcases h with ⟨rfl, _⟩ | ⟨rfl, _⟩
  · rfl
  · rfl

/-- At the test of the waiting loop a call draws nothing. -/
theorem InLoop.draws {c : Nat} {call : ClientCall} {e : ClientEvent} {id : UInt64} {node : Nat}
    (h : s.InLoop c call e id node) : e.draws s = [] := by
  rcases h with ⟨rfl, _⟩ | ⟨rfl, _⟩
  · rfl
  · rfl

theorem CallStep.outbox {c : Nat} {call : ClientCall} {e : ClientEvent} {t : Client} {pc : CallPc}
    (h : s.CallStep c call e t pc) :
    (e.senders = [] ∧ t.outbox = s.outbox) ∨
      (e.senders = [c] ∧ ∃ id, call.pc.drawnId = some id ∧
        t.outbox = s.outbox ++ [Frame.build call.kind.msgType id ucIpcAckIdNull call.buf]) := by
  cases h with
  | @send id outcome hpc =>
      cases outcome with
      | noPacket => exact Or.inl ⟨rfl, rfl⟩
      | noMsg => exact Or.inl ⟨rfl, rfl⟩
      | lost => exact Or.inl ⟨rfl, rfl⟩
      | written =>
          -- only this outcome reaches the socket
          refine Or.inr ⟨rfl, id, ?_, rfl⟩
          rcases hpc with ⟨hpc, _⟩ | ⟨hpc, _⟩
          · rw [hpc]
            rfl
          · rw [hpc]
            rfl
  | sleep hget hnode hpc =>
      rcases hpc with hloop | ⟨rfl, _⟩
      · exact Or.inl ⟨hloop.senders, rfl⟩
      · exact Or.inl ⟨rfl, rfl⟩
  | take hget hloop hkind => exact Or.inl ⟨hloop.senders, rfl⟩
  | takeAsync hget hloop hkind => exact Or.inl ⟨hloop.senders, rfl⟩
  | _ => exact Or.inl ⟨rfl, rfl⟩

/-- A step sends at most one frame, with the id that the call has drawn. -/
theorem Step.outbox {e : ClientEvent} {s' : Client} (h : s.Step e s') :
    (e.senders = [] ∧ s'.outbox = s.outbox) ∨
      ∃ c call id, e.senders = [c] ∧ s.calls[c]? = some call ∧ call.pc.drawnId = some id ∧
        s'.outbox = s.outbox ++ [Frame.build call.kind.msgType id ucIpcAckIdNull call.buf] := by
  cases h with
  | call => exact Or.inl ⟨rfl, rfl⟩
  | reseed => exact Or.inl ⟨rfl, rfl⟩
  | receive hrcv =>
      cases hrcv with
      | quiet => exact Or.inl ⟨rfl, rfl⟩
      | late _ => exact Or.inl ⟨rfl, signal_outbox _ _⟩
      | store _ _ _ => exact Or.inl ⟨rfl, signal_outbox _ _⟩
  | @caller c call e t pc hcall hstep =>
      rcases hstep.outbox with hnone | ⟨hsender, id, hid, houtbox⟩
      · exact Or.inl hnone
      · exact Or.inr ⟨c, call, id, hsender, hcall, hid, houtbox⟩

/-- What a call is about never changes. -/
theorem Step.call_kept {e : ClientEvent} {s' : Client} (h : s.Step e s') {c : Nat}
    {call : ClientCall} (hcall : s.calls[c]? = some call) :
    ∃ call', s'.calls[c]? = some call' ∧ call'.kind = call.kind ∧ call'.buf = call.buf := by
  have hsignal : ∀ (t : Client) (signalled : Option Nat) (old : ClientCall),
      t.calls[c]? = some old → old.kind = call.kind → old.buf = call.buf →
        ∃ call', (t.signal signalled).calls[c]? = some call' ∧ call'.kind = call.kind ∧
          call'.buf = call.buf := by
    intro t signalled old hold hkind hbuf
    rw [signal_calls, hold]
    exact ⟨_, rfl, hkind, hbuf⟩
  cases h with
  | call =>
      have hlt : c < s.calls.length := (List.getElem?_eq_some_iff.1 hcall).1
      exact ⟨call, (List.getElem?_append_left hlt).trans hcall, rfl, rfl⟩
  | reseed => exact ⟨call, hcall, rfl, rfl⟩
  | receive hrcv =>
      cases hrcv with
      | quiet => exact ⟨call, hcall, rfl, rfl⟩
      | late _ => exact hsignal _ _ call hcall rfl rfl
      | @store f msg _ _ _ =>
          have hstored := (store_calls { s with blocks := s.blocks + 1 } f.head.ackId msg c).trans
            (congrArg (Option.map _) hcall)
          refine hsignal _ _ _ hstored ?_ ?_
          · dsimp only
            split <;> rfl
          · dsimp only
            split <;> rfl
  | @caller c' old e t pc hold hstep =>
      rw [setPc_calls, hstep.calls_eq, hcall]
      refine ⟨_, rfl, ?_⟩
      split <;> exact ⟨rfl, rfl⟩

theorem CallStep.seqId {c : Nat} {call : ClientCall} {e : ClientEvent} {t : Client} {pc : CallPc}
    (h : s.CallStep c call e t pc) :
    (e.draws s = [] ∧ t.seqId = s.seqId) ∨
      (e.draws s = [(c, s.seqId)] ∧ t.seqId = (nextSeqId s.seqId).2) := by
  cases h with
  | draw hpc => exact Or.inr ⟨rfl, rfl⟩
  | @send id outcome hpc => cases outcome <;> exact Or.inl ⟨rfl, rfl⟩
  | sleep hget hnode hpc =>
      rcases hpc with hloop | ⟨rfl, _⟩
      · exact Or.inl ⟨hloop.draws, rfl⟩
      · exact Or.inl ⟨rfl, rfl⟩
  | take hget hloop hkind => exact Or.inl ⟨hloop.draws, rfl⟩
  | takeAsync hget hloop hkind => exact Or.inl ⟨hloop.draws, rfl⟩
  | _ => exact Or.inl ⟨rfl, rfl⟩

/-- Without a reconnect only a draw moves the counter. -/
theorem Step.seqId {e : ClientEvent} {s' : Client} (h : s.Step e s')
    (hseed : ∀ seqId, e ≠ .reseed seqId) :
    (e.draws s = [] ∧ s'.seqId = s.seqId) ∨
      ∃ c, e.draws s = [(c, s.seqId)] ∧ s'.seqId = (nextSeqId s.seqId).2 := by
  cases h with
  | call => exact Or.inl ⟨rfl, rfl⟩
  | @reseed seqId => exact absurd rfl (hseed seqId)
  | receive hrcv =>
      cases hrcv with
      | quiet => exact Or.inl ⟨rfl, rfl⟩
      | late _ => exact Or.inl ⟨rfl, signal_seqId _ _⟩
      | store _ _ _ => exact Or.inl ⟨rfl, signal_seqId _ _⟩
  | @caller c call e t pc hcall hstep =>
      rcases hstep.seqId with hnone | hdraw
      · exact Or.inl hnone
      · exact Or.inr ⟨c, hdraw⟩

end Client

end Ipc
end UtilsC
