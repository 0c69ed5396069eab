import UtilsC.Ipc.Client

/-!
# The table of pending acknowledgements

A call that waits for a reply inserts an entry under the id it has drawn and has to remove it again
before it returns, with the message that was stored in it.

* `Entries` is the invariant: every call past its insertion owns the entry of its id, no two calls
  hold one id, and there is no other entry.
* `keepsEntries` leaves out the steps that break it: drawing an id that a call still holds, a
  `uc_ipc_client_sync_send` whose wait fails, and a second reply to one id.
* `Restored` says that a call has returned and left nothing behind.
-/

namespace UtilsC
namespace Ipc
namespace Client

open Lib Hash

/-- The id a call works with, from the moment it is drawn until the call gives it up. -/
def heldId (kind : CallKind) : CallPc → Option UInt64
  | .drawn id => if kind.acked then some id else none
  | pc => pc.insertedId

theorem heldId_of_insertedId {kind : CallKind} {pc : CallPc} {id : UInt64}
    (h : pc.insertedId = some id) : heldId kind pc = some id := by
  cases pc <;> first | exact h | cases h

/-- The call has not reached its insertion. -/
def beforeInsert : CallPc → Prop
  | .entry => True
  | .drawn _ => True
  | _ => False

theorem insertedId_of_beforeInsert {pc : CallPc} (h : beforeInsert pc) : pc.insertedId = none := by
  cases pc <;> first | rfl | exact h.elim

variable (s : Client)

/-- The wait of the call ends in a failure of `uc_ipc_client_wait_ack`. -/
def waitFails (call : ClientCall) : Bool :=
  match call.pc with
  | .woken _ _ .timedOut => true
  -- an error is reported only when the loop ends, which a reply makes it do
  | .woken id _ .error => (s.ackHash.get id).join.isSome
  | _ => false

/-- No call that will wait draws an id that a call holds, no synchronous call fails in its wait, and
no reply is stored over another one. -/
def keepsEntries : ClientEvent → Bool
  | .draw c =>
      (s.calls[c]?).all fun call =>
        !call.kind.acked || s.calls.all fun call => heldId call.kind call.pc ≠ some s.seqId
  | .resume c => (s.calls[c]?).all fun call => call.kind = .asyncSend || !s.waitFails call
  | .receive (.frame f) _ =>
      !isReply (.frame f) || (s.ackHash.get f.head.ackId).join.isNone
  | _ => true

/-- Call `c` has returned in the step from `s` to `s'`, without leaving anything behind: there is no
entry under the id it had inserted, and each message stored in the entry is freed or handed out. -/
def Restored (s s' : Client) (c : Nat) : Prop :=
  ∀ call call' id ret handed, s.calls[c]? = some call → call.pc.insertedId = some id →
    s'.calls[c]? = some call' → call'.pc = .returned ret handed →
      s'.ackHash.get id = none ∧ ∀ msg ∈ call'.stored, msg ∈ s'.freed ∨ handed = some msg

/-- What the calls and the table say about each other. -/
structure Entries : Prop where
  early : ∀ {c : Nat} {call : ClientCall}, s.calls[c]? = some call → beforeInsert call.pc →
    call.stored = []
  owner : ∀ {c : Nat} {call : ClientCall} {id : UInt64}, s.calls[c]? = some call →
    call.pc.insertedId = some id → ∃ v, s.ackHash.get id = some v ∧ call.stored = v.toList
  unique : ∀ {c c' : Nat} {call call' : ClientCall} {id : UInt64}, s.calls[c]? = some call →
    s.calls[c']? = some call' → heldId call.kind call.pc = some id →
      heldId call'.kind call'.pc = some id → c = c'
  owned : ∀ {id : UInt64}, s.ackHash.get id ≠ none →
    ∃ (c : Nat) (call : ClientCall), s.calls[c]? = some call ∧ call.pc.insertedId = some id

theorem ofInit_entries (seqId : UInt64) : (ofInit seqId).Entries := by
  constructor <;> simp [ofInit]

variable {s}

section Moves

variable {t : Client} {c : Nat} {call : ClientCall} {pc : CallPc}

/-- What has to be said about a step of one call for the invariant to be kept. -/
theorem Entries.setPc (hE : s.Entries) (hcalls : t.calls = s.calls)
    (hcall : s.calls[c]? = some call) (hearly : beforeInsert pc → call.stored = [])
    (howner : ∀ id, pc.insertedId = some id →
      ∃ v, t.ackHash.get id = some v ∧ call.stored = v.toList)
    (hother : ∀ c' call' id, c' ≠ c → s.calls[c']? = some call' →
      call'.pc.insertedId = some id → t.ackHash.get id = s.ackHash.get id)
    (hunique : ∀ c' call' id, c' ≠ c → s.calls[c']? = some call' →
      heldId call.kind pc = some id → heldId call'.kind call'.pc ≠ some id)
    (howned : ∀ id, t.ackHash.get id ≠ none → pc.insertedId = some id ∨
      ∃ c' call', c' ≠ c ∧ s.calls[c']? = some call' ∧ call'.pc.insertedId = some id) :
    (t.setPc c pc).Entries := by
  -- the call that moves has the new program counter, all others are as before
  have hcases : ∀ {c' : Nat} {call' : ClientCall}, (t.setPc c pc).calls[c']? = some call' →
      (c' = c ∧ call' = { call with pc := pc }) ∨ (c' ≠ c ∧ s.calls[c']? = some call') := by
    intro c' call' h
    rcases setPc_call h with ⟨hc, old, hold, hnew⟩ | ⟨hc, hold⟩
    · rw [hcalls, hcall] at hold
      cases hold
      exact Or.inl ⟨hc, hnew⟩
    · exact Or.inr ⟨hc, hcalls ▸ hold⟩
  constructor
  · intro c' call' h hpc
    rcases hcases h with ⟨_, hnew⟩ | ⟨_, hold⟩
    · rw [hnew] at hpc ⊢
      exact hearly hpc
    · exact hE.early hold hpc
  · intro c' call' id h hpc
    rcases hcases h with ⟨_, hnew⟩ | ⟨hc, hold⟩
    · rw [hnew] at hpc ⊢
      exact howner id hpc
    · rw [setPc_ackHash, hother c' call' id hc hold hpc]
      exact hE.owner hold hpc
  · intro c₁ c₂ call₁ call₂ id h₁ h₂ hheld₁ hheld₂
    rcases hcases h₁ with ⟨hc₁, hnew₁⟩ | ⟨hc₁, hold₁⟩
    · rcases hcases h₂ with ⟨hc₂, _⟩ | ⟨hc₂, hold₂⟩
      · rw [hc₁, hc₂]
      · rw [hnew₁] at hheld₁
        exact absurd hheld₂ (hunique c₂ call₂ id hc₂ hold₂ hheld₁)
    · rcases hcases h₂ with ⟨_, hnew₂⟩ | ⟨_, hold₂⟩
      · rw [hnew₂] at hheld₂
        exact absurd hheld₁ (hunique c₁ call₁ id hc₁ hold₁ hheld₂)
      · exact hE.unique hold₁ hold₂ hheld₁ hheld₂
  · intro id hbound
    rcases howned id hbound with hpc | ⟨c', call', hc, hold, hpc⟩
    · exact ⟨c, _, setPc_call_self (hcalls ▸ hcall), hpc⟩
    · exact ⟨c', call', by rw [setPc_call_ne hc, hcalls, hold], hpc⟩

/-- Two calls do not hold the same id. -/
theorem Entries.heldId_ne (hE : s.Entries) (hcall : s.calls[c]? = some call) {id : UInt64}
    (hid : heldId call.kind call.pc = some id) {c' : Nat} {call' : ClientCall} (hc : c' ≠ c)
    (hcall' : s.calls[c']? = some call') : heldId call'.kind call'.pc ≠ some id :=
  fun hid' => hc (hE.unique hcall' hcall hid' hid)

/-- A step that leaves the table alone, with which the call holds no other id than before. -/
theorem Entries.move (hE : s.Entries) (hcalls : t.calls = s.calls)
    (hget : ∀ id, t.ackHash.get id = s.ackHash.get id) (hcall : s.calls[c]? = some call)
    (hearly : beforeInsert pc → beforeInsert call.pc)
    (hinserted : pc.insertedId = call.pc.insertedId)
    (hheld : ∀ id, heldId call.kind pc = some id → heldId call.kind call.pc = some id) :
    (t.setPc c pc).Entries := by
  refine hE.setPc hcalls hcall (fun h => hE.early hcall (hearly h)) ?_ ?_ ?_ ?_
  · intro id hpc
    rw [hget]
    exact hE.owner hcall (hinserted ▸ hpc)
  · intro c' call' id _ _ _
    exact hget id
  · intro c' call' id hc hold hid
    exact hE.heldId_ne hcall (hheld id hid) hc hold
  · intro id hbound
    rw [hget] at hbound
    rcases hE.owned hbound with ⟨c', call', hold, hid⟩
    -- the owner of the entry is the call that moves, or another one
    by_cases hc : c' = c
    · rw [hc, hcall] at hold
      cases hold
      exact Or.inl (hinserted.trans hid)
    · exact Or.inr ⟨c', call', hc, hold, hid⟩

/-- A step that removes the entry of the call, which gives up its id. -/
theorem Entries.remove (hE : s.Entries) (hcalls : t.calls = s.calls) {id : UInt64}
    (hget : ∀ id', t.ackHash.get id' = if id' = id then none else s.ackHash.get id')
    (hcall : s.calls[c]? = some call) (hid : call.pc.insertedId = some id)
    {ret : Int} {msg : Option ClientMsg} : (t.setPc c (.returned ret msg)).Entries := by
  refine hE.setPc hcalls hcall False.elim (fun id' h => by cases h) ?_
    (fun c' call' id' _ _ h => by cases h) ?_
  · intro c' call' id' hc hold hid'
    -- the entry that goes is nobody else's
    have hne : id' ≠ id := by
      rintro rfl
      exact hE.heldId_ne hcall (heldId_of_insertedId hid) hc hold (heldId_of_insertedId hid')
    rw [hget, if_neg hne]
  · intro id' hbound
    rw [hget] at hbound
    split at hbound
    · exact absurd rfl hbound
    · rename_i hne
      rcases hE.owned hbound with ⟨c', call', hold, hid'⟩
      refine Or.inr ⟨c', call', ?_, hold, hid'⟩
      rintro rfl
      cases hold.symm.trans hcall
      exact hne (Option.some.inj (hid'.symm.trans hid))

/-- The insertion of an entry. -/
theorem Entries.insert (hE : s.Entries) (hcalls : t.calls = s.calls) {id : UInt64}
    (hget : ∀ id', t.ackHash.get id' = if id' = id then some none else s.ackHash.get id')
    (hcall : s.calls[c]? = some call) (hpc : call.pc = .drawn id)
    (hkind : call.kind.acked = true) : (t.setPc c (.inserted id)).Entries := by
  have hid : heldId call.kind call.pc = some id := by
    rw [hpc]
    simp [heldId, hkind]
  refine hE.setPc hcalls hcall False.elim ?_ ?_ ?_ ?_
  · intro id' h
    cases h
    refine ⟨none, by simp [hget], ?_⟩
    exact hE.early hcall (by rw [hpc]; trivial)
  · intro c' call' id' hc hold hid'
    have hne : id' ≠ id := by
      rintro rfl
      exact hE.heldId_ne hcall hid hc hold (heldId_of_insertedId hid')
    rw [hget, if_neg hne]
  · intro c' call' id' hc hold h
    cases h
    exact hE.heldId_ne hcall hid hc hold
  · intro id' hbound
    rw [hget] at hbound
    split at hbound
    · rename_i heq
      exact Or.inl (by rw [heq]; rfl)
    · rcases hE.owned hbound with ⟨c', call', hold, hid'⟩
      refine Or.inr ⟨c', call', ?_, hold, hid'⟩
      rintro rfl
      cases hold.symm.trans hcall
      rw [hpc] at hid'
      cases hid'

end Moves

/-! ## One step -/

/-- A signal sets the program counter of at most one call. -/
theorem signal_eq (s : Client) (signalled : Option Nat) :
    s.signal signalled = s ∨
      ∃ c call, s.calls[c]? = some call ∧ s.signal signalled = s.setPc c call.pc.wakeUp := by
  cases signalled with
  | none => exact Or.inl rfl
  | some c =>
      cases hcall : s.calls[c]? with
      | none =>
          refine Or.inl ?_
          have hlen : s.calls.length ≤ c := List.getElem?_eq_none_iff.1 hcall
          simp [signal, List.modify_eq_self hlen]
      | some call =>
          refine Or.inr ⟨c, call, hcall, ?_⟩
          -- the sleeper's own program counter is the one that is set
          have hmodify : s.calls.modify c (fun call => { call with pc := call.pc.wakeUp }) =
              s.calls.modify c fun old => { old with pc := call.pc.wakeUp } := by
            refine List.ext_getElem? ?_
            intro i
            rw [List.getElem?_modify, List.getElem?_modify]
            by_cases hi : c = i
            · rw [← hi, hcall]
              simp
            · simp [hi]
          simp [signal, Client.setPc, hmodify]

theorem wakeUp_insertedId (pc : CallPc) : pc.wakeUp.insertedId = pc.insertedId := by
  cases pc <;> rfl

theorem Entries.signal (hE : s.Entries) (signalled : Option Nat) :
    (s.signal signalled).Entries := by
  rcases signal_eq s signalled with hs | ⟨c, call, hcall, hs⟩
  · rw [hs]
    exact hE
  · rw [hs]
    refine hE.move rfl (fun _ => rfl) hcall ?_ (wakeUp_insertedId _) ?_
    · cases call.pc <;> exact id
    · intro id hid
      cases hpc : call.pc <;> rw [hpc] at hid <;> exact hid

/-- The first reply to an id is stored with its owner. -/
theorem Entries.store (hE : s.Entries) {id : UInt64} {msg : ClientMsg}
    (hbound : s.ackHash.get id = some none) : (s.store id msg).Entries := by
  have hget := fun id' => store_get s id id' msg (by simp [hbound])
  have hback : ∀ {c : Nat} {call' : ClientCall}, (s.store id msg).calls[c]? = some call' →
      ∃ call, s.calls[c]? = some call ∧ call'.pc = call.pc ∧ call'.kind = call.kind ∧
        call'.stored =
          if call.pc.insertedId = some id then call.stored ++ [msg] else call.stored := by
    intro c call' h
    rw [store_calls] at h
    rcases Option.map_eq_some_iff.1 h with ⟨call, hcall, hnew⟩
    refine ⟨call, hcall, ?_⟩
    rw [← hnew]
    split
    · exact ⟨rfl, rfl, rfl⟩
    · exact ⟨rfl, rfl, rfl⟩
  constructor
  · intro c call' h hearly
    rcases hback h with ⟨call, hcall, hpc, _, hstored⟩
    rw [hpc] at hearly
    have hnone : call.pc.insertedId ≠ some id := by
      rw [insertedId_of_beforeInsert hearly]
      exact fun h => by cases h
    rw [hstored, if_neg hnone]
    exact hE.early hcall hearly
  · intro c call' id' h hid'
    rcases hback h with ⟨call, hcall, hpc, _, hstored⟩
    rw [hpc] at hid'
    rcases hE.owner hcall hid' with ⟨v, hv, hold⟩
    rw [hget]
    -- only the call that owns the entry notes the message
    by_cases heq : id' = id
    · rw [heq] at hv hid'
      rw [hbound] at hv
      cases hv
      rw [if_pos heq, hstored, if_pos hid', hold]
      exact ⟨some msg, rfl, rfl⟩
    · have hne : call.pc.insertedId ≠ some id := by
        intro hid
        exact heq (Option.some.inj (hid'.symm.trans hid))
      rw [hstored, if_neg hne, if_neg heq]
      exact ⟨v, hv, hold⟩
  · intro c₁ c₂ call₁ call₂ id' h₁ h₂ hheld₁ hheld₂
    rcases hback h₁ with ⟨old₁, hold₁, hpc₁, hkind₁, _⟩
    rcases hback h₂ with ⟨old₂, hold₂, hpc₂, hkind₂, _⟩
    rw [hpc₁, hkind₁] at hheld₁
    rw [hpc₂, hkind₂] at hheld₂
    exact hE.unique hold₁ hold₂ hheld₁ hheld₂
  · intro id' hbound'
    have hold : s.ackHash.get id' ≠ none := by
      rw [hget] at hbound'
      split at hbound'
      · rename_i heq
        rw [heq, hbound]
        exact Option.some_ne_none _
      · exact hbound'
    rcases hE.owned hold with ⟨c, call, hcall, hid⟩
    have hafter := store_calls s id msg c
    rw [hcall, Option.map_some] at hafter
    refine ⟨c, _, hafter, ?_⟩
    split
    · exact hid
    · exact hid

/-- A wait that fails leaves the table alone; only an asynchronous call may let it fail. -/
theorem Entries.waitAckFail (hE : s.Entries) {c : Nat} {call : ClientCall} {id : UInt64} {ret : Int}
    (hcall : s.calls[c]? = some call) (hid : call.pc.insertedId = some id)
    (hkind : call.kind = .asyncSend) : (s.setPc c (waitAckFailPc call.kind id ret)).Entries := by
  rw [hkind]
  refine hE.move rfl (fun _ => rfl) hcall False.elim hid.symm ?_
  intro id' h
  cases h
  exact heldId_of_insertedId hid

theorem afterSend_returned {kind : CallKind} (id : UInt64) (ret : Int)
    (hkind : kind.acked = false) : ∃ ret', afterSend kind id ret = .returned ret' none := by
  cases kind with
  | trySend =>
      by_cases hret : ret = 0
      · exact ⟨ret, by simp [afterSend, hret]⟩
      · exact ⟨-0x146071f6, by simp [afterSend, hret]⟩
  | heartbeat => exact ⟨ret, rfl⟩
  | asyncSend => cases hkind
  | syncSend => cases hkind

theorem afterSend_insertedId {kind : CallKind} (id : UInt64) (ret : Int)
    (hkind : kind.acked = true) : (afterSend kind id ret).insertedId = some id := by
  cases kind with
  | trySend => cases hkind
  | heartbeat => cases hkind
  | asyncSend =>
      simp only [afterSend]
      split <;> rfl
  | syncSend =>
      simp only [afterSend]
      split <;> rfl

/-- Only an asynchronous call may fail in its wait. -/
theorem asyncSend_of_fail {c : Nat} {call : ClientCall} {id : UInt64} {node : Nat} {ret : WaitRet}
    (hcall : s.calls[c]? = some call) (hkeeps : s.keepsEntries (.resume c) = true)
    (hpc : call.pc = .woken id node ret)
    (hwhy : ret = .timedOut ∨ (ret = .error ∧ ∃ msg, s.ackHash.get id = some (some msg))) :
    call.kind = .asyncSend := by
  have hfails : s.waitFails call = true := by
    rw [waitFails, hpc]
    rcases hwhy with hret | ⟨hret, msg, hget⟩
    · rw [hret]
    · rw [hret]
      simp [hget]
  simp only [keepsEntries, hcall, Option.all_some, hfails, Bool.not_true, Bool.or_false] at hkeeps
  exact of_decide_eq_true hkeeps

/-- One step of a call keeps the invariant. -/
theorem Entries.callStep (hE : s.Entries) {c : Nat} {call : ClientCall} {e : ClientEvent}
    {t : Client} {pc : CallPc} (hcall : s.calls[c]? = some call)
    (hkeeps : s.keepsEntries e = true) (hstep : s.CallStep c call e t pc) :
    (t.setPc c pc).Entries := by
  cases hstep with
  | draw hpc =>
      refine hE.setPc rfl hcall (fun _ => hE.early hcall (by rw [hpc]; trivial))
        (fun id h => by cases h) (fun c' call' id _ _ _ => rfl) ?_ ?_
      · intro c' call' id _ hold hid hid'
        -- a call that does not wait holds nothing, any other holds the number drawn
        have hdrawn : call.kind.acked = true ∧ s.seqId = id := by
          simp only [heldId] at hid
          split at hid
          · exact ⟨by assumption, Option.some.inj hid⟩
          · cases hid
        simp only [keepsEntries, hcall, Option.all_some, hdrawn.1, Bool.not_true, Bool.false_or]
          at hkeeps
        -- no call holds that number yet
        have hfree := List.all_eq_true.1 hkeeps call' (List.mem_of_getElem? hold)
        exact of_decide_eq_true hfree (hdrawn.2 ▸ hid')
      · intro id hbound
        rcases hE.owned hbound with ⟨c', call', hold, hid⟩
        refine Or.inr ⟨c', call', ?_, hold, hid⟩
        rintro rfl
        cases hold.symm.trans hcall
        rw [hpc] at hid
        cases hid
  | @insert id malloc hpc hkind hret =>
      exact hE.insert (t := (s.ucIpcClientInsertSeq malloc id).2) rfl
        (fun id' => insertSeq_ok s id id' malloc hret) hcall hpc hkind
  | @insertFail id malloc hpc hret =>
      refine hE.move (t := (s.ucIpcClientInsertSeq malloc id).2) rfl
        (fun id' => (insertSeq_fail s id id' malloc hret).1) hcall False.elim ?_ ?_
      · rw [hpc]
        rfl
      · intro id' h
        cases h
  | @send id outcome hpc =>
      have hget : ∀ id',
          (s.ucIpcClientSend outcome id call.kind.msgType call.buf).2.ackHash.get id' =
            s.ackHash.get id' := by
        intro id'
        cases outcome <;> rfl
      have hcalls :
          (s.ucIpcClientSend outcome id call.kind.msgType call.buf).2.calls = s.calls := by
        cases outcome <;> rfl
      rcases hpc with ⟨hpc, hkind⟩ | ⟨hpc, hkind⟩
      · rcases afterSend_returned id _ hkind with ⟨ret, hafter⟩
        rw [hafter]
        refine hE.move hcalls hget hcall False.elim (by rw [hpc]; rfl) ?_
        intro id' h
        cases h
      · -- whether or not the send succeeds, the entry is still the call's
        have hinserted := afterSend_insertedId id
          (s.ucIpcClientSend outcome id call.kind.msgType call.buf).1 hkind
        refine hE.move hcalls hget hcall ?_ (by rw [hpc]; exact hinserted) ?_
        · intro h
          rw [insertedId_of_beforeInsert h] at hinserted
          cases hinserted
        · intro id' h
          rw [hpc]
          rw [heldId_of_insertedId hinserted] at h
          exact h
  | @deleteSeq id ret hpc hret =>
      -- both paths to `uc_ipc_client_delete_seq` come from a call with an entry
      refine hE.remove (t := s.ucIpcClientDeleteSeq id) rfl (fun id' => deleteSeq_get s id id')
        hcall ?_
      rcases hpc with hpc | hpc <;> rw [hpc] <;> rfl
  | noEntry hpc hget =>
      -- a call past its insertion has an entry
      rcases hE.owner hcall (by rw [hpc]; rfl) with ⟨v, hv, _⟩
      rw [hget] at hv
      cases hv
  | @sleep e id node hget hnode hpc =>
      have hid : call.pc.insertedId = some id := by
        rcases hpc with hpc | ⟨_, hpc⟩
        · exact hpc.insertedId
        · rw [hpc]
          rfl
      refine hE.move rfl (fun _ => rfl) hcall False.elim hid.symm ?_
      intro id' h
      cases h
      exact heldId_of_insertedId hid
  | fail hpc hwhy =>
      -- an asynchronous call deletes its entry next, a synchronous one would leave it
      exact hE.waitAckFail hcall (by rw [hpc]; rfl) (asyncSend_of_fail hcall hkeeps hpc hwhy)
  | @take e id node msg hget hpc hkind =>
      exact hE.remove (t := s.withoutEntry id) rfl (fun id' => withoutEntry_get s id id') hcall
        hpc.insertedId
  | @takeAsync e id node msg hget hpc hkind =>
      exact hE.remove (t := (s.withoutEntry id).free [msg]) rfl
        (fun id' => withoutEntry_get s id id') hcall hpc.insertedId
  | wake hpc =>
      refine hE.move rfl (fun _ => rfl) hcall False.elim ?_ ?_
      · rw [hpc]
        rfl
      · intro id' h
        rw [hpc]
        exact h

theorem Entries.of_table (hE : s.Entries) {t : Client} (hcalls : t.calls = s.calls)
    (htable : t.ackHash = s.ackHash) : t.Entries := by
  constructor
  · intro c call hcall
    exact hE.early (hcalls ▸ hcall)
  · intro c call id hcall
    rw [htable]
    exact hE.owner (hcalls ▸ hcall)
  · intro c c' call call' id hcall hcall'
    exact hE.unique (hcalls ▸ hcall) (hcalls ▸ hcall')
  · intro id
    rw [hcalls, htable]
    exact hE.owned

/-- A call that enters holds nothing yet. -/
theorem Entries.call (hE : s.Entries) (kind : CallKind) (buf : Payload) (wait : Int32) :
    ({ s with
      calls := s.calls ++
        [{ kind := kind, buf := buf, waitMillisecond := wait, pc := .entry, stored := [] }] } :
          Client).Entries := by
  have hcases : ∀ {c : Nat} {call : ClientCall}, (s.calls ++
      [{ kind := kind, buf := buf, waitMillisecond := wait, pc := .entry, stored := [] }])[c]? =
        some call → s.calls[c]? = some call ∨ (call.pc = .entry ∧ call.stored = []) := by
    intro c call h
    rcases snoc_call h with hold | ⟨_, rfl⟩
    · exact Or.inl hold
    · exact Or.inr ⟨rfl, rfl⟩
  constructor
  · intro c call h hpc
    rcases hcases h with hold | ⟨_, hstored⟩
    · exact hE.early hold hpc
    · exact hstored
  · intro c call id h hid
    rcases hcases h with hold | ⟨hpc, _⟩
    · exact hE.owner hold hid
    · rw [hpc] at hid
      cases hid
  · intro c c' call call' id h h' hid hid'
    rcases hcases h with hold | ⟨hpc, _⟩
    · rcases hcases h' with hold' | ⟨hpc', _⟩
      · exact hE.unique hold hold' hid hid'
      · rw [hpc'] at hid'
        cases hid'
    · rw [hpc] at hid
      cases hid
  · intro id hbound
    rcases hE.owned hbound with ⟨c, call, hcall, hid⟩
    have hlt : c < s.calls.length := (List.getElem?_eq_some_iff.1 hcall).1
    exact ⟨c, call, (List.getElem?_append_left hlt).trans hcall, hid⟩

/-- The step lemma. -/
theorem Entries.step (hE : s.Entries) {e : ClientEvent} {s' : Client}
    (hkeeps : s.keepsEntries e = true) (hstep : s.Step e s') : s'.Entries := by
  cases hstep with
  | call => exact hE.call _ _ _
  | reseed => exact hE.of_table rfl rfl
  | caller hcall hstep => exact hE.callStep hcall hkeeps hstep
  | receive hrcv =>
      cases hrcv with
      | quiet => exact hE.of_table rfl rfl
      | @late f blocks msgs _ =>
          have hE' : ({ s with blocks := blocks, freed := s.freed ++ msgs } : Client).Entries :=
            hE.of_table rfl rfl
          exact hE'.signal _
      | @store f msg hreply _ hbound =>
          simp only [keepsEntries, hreply, Bool.not_true, Bool.false_or] at hkeeps
          -- the entry is there and holds nothing, so no reply is lost by the store
          have hempty : s.ackHash.get f.head.ackId = some none := by
            rcases Option.ne_none_iff_exists'.1 hbound with ⟨v, hv⟩
            rw [hv] at hkeeps ⊢
            cases v with
            | none => rfl
            | some _ => cases hkeeps
          have hE' : ({ s with blocks := s.blocks + 1 } : Client).Entries := hE.of_table rfl rfl
          exact (hE'.store hempty).signal _

/-- A step with which a call returns. -/
theorem Entries.callStep_restored (hE : s.Entries) {c : Nat} {call : ClientCall} {e : ClientEvent}
    {t : Client} {pc : CallPc} (hcall : s.calls[c]? = some call)
    (hkeeps : s.keepsEntries e = true) (hstep : s.CallStep c call e t pc) {id : UInt64} {ret : Int}
    {handed : Option ClientMsg} (hid : call.pc.insertedId = some id)
    (hpc : pc = .returned ret handed) :
    t.ackHash.get id = none ∧ ∀ msg ∈ call.stored, msg ∈ t.freed ∨ handed = some msg := by
  rcases hE.owner hcall hid with ⟨v, hv, hmsgs⟩
  rw [hmsgs]
  cases hstep with
  | draw hpc' => cases hpc
  | insert _ _ _ => cases hpc
  -- without an entry there is nothing to give up
  | insertFail hpc' _ =>
      rw [hpc'] at hid
      cases hid
  | @send id' outcome hpc' =>
      rcases hpc' with ⟨hpc', _⟩ | ⟨_, hkind⟩
      · rw [hpc'] at hid
        cases hid
      · have hinserted := afterSend_insertedId id'
          (s.ucIpcClientSend outcome id' call.kind.msgType call.buf).1 hkind
        rw [hpc] at hinserted
        cases hinserted
  | @deleteSeq id' ret' hpc' _ =>
      have hsame : id = id' := by
        rcases hpc' with hpc' | hpc' <;> rw [hpc'] at hid <;> cases hid <;> rfl
      rw [← hsame, deleteSeq_get, deleteSeq_freed, hv, if_pos rfl]
      refine ⟨rfl, fun msg hmsg => Or.inl ?_⟩
      exact List.mem_append_right _ hmsg
  | noEntry hpc' hget =>
      rw [hpc'] at hid
      cases hid
      rw [hget] at hv
      cases hv
  | sleep _ _ _ => cases hpc
  | fail hpc' hwhy =>
      -- an asynchronous call does not return yet
      rw [asyncSend_of_fail hcall hkeeps hpc' hwhy] at hpc
      cases hpc
  | @take e id' node msg hget hpc' _ =>
      cases hpc
      cases hpc'.insertedId.symm.trans hid
      cases hget.symm.trans hv
      -- the message is what `msg_hdl` points to
      refine ⟨by rw [withoutEntry_get, if_pos rfl], fun msg' hmsg' => Or.inr ?_⟩
      rw [Option.mem_toList] at hmsg'
      exact hmsg'
  | @takeAsync e id' node msg hget hpc' _ =>
      cases hpc'.insertedId.symm.trans hid
      cases hget.symm.trans hv
      -- `uc_ipc_client_async_send` has no use for the reply and frees it
      refine ⟨by rw [free_ackHash, withoutEntry_get, if_pos rfl], fun msg' hmsg' => Or.inl ?_⟩
      rw [free_freed]
      exact List.mem_append_right _ hmsg'
  | wake _ => cases hpc

/-- A call that returns has given its entry up and has freed its message or hands it out. -/
theorem Entries.restored (hE : s.Entries) {e : ClientEvent} {s' : Client}
    (hkeeps : s.keepsEntries e = true) (hstep : s.Step e s') (c : Nat) : s.Restored s' c := by
  intro call call' id ret handed hcall hid hcall' hpc'
  -- a step of somebody else does not make the call return
  have hother : ∀ {pc : CallPc}, call'.pc = pc → pc.insertedId = some id → False := by
    intro pc h hpc
    rw [← h, hpc'] at hpc
    cases hpc
  cases hstep with
  | call =>
      have hlt : c < s.calls.length := (List.getElem?_eq_some_iff.1 hcall).1
      have hsame := (List.getElem?_append_left hlt).symm.trans hcall'
      rw [hcall] at hsame
      cases hsame
      exact (hother rfl hid).elim
  | reseed =>
      cases hcall.symm.trans hcall'
      exact (hother rfl hid).elim
  | receive hrcv =>
      cases hrcv with
      | quiet =>
          cases hcall.symm.trans hcall'
          exact (hother rfl hid).elim
      | late _ =>
          rw [signal_calls] at hcall'
          rcases Option.map_eq_some_iff.1 hcall' with ⟨old, hold, hnew⟩
          cases hcall.symm.trans hold
          refine (hother (congrArg ClientCall.pc hnew).symm ?_).elim
          rw [signalPc_insertedId]
          exact hid
      | store _ _ _ =>
          rw [signal_calls, store_calls] at hcall'
          rcases Option.map_eq_some_iff.1 hcall' with ⟨mid, hmid, hnew⟩
          rcases Option.map_eq_some_iff.1 hmid with ⟨old, hold, hmid'⟩
          cases hcall.symm.trans hold
          refine (hother (congrArg ClientCall.pc hnew).symm ?_).elim
          rw [signalPc_insertedId, ← hmid']
          split
          · exact hid
          · exact hid
  | @caller c' old e t pc hold hstep =>
      rcases setPc_call hcall' with ⟨hc, call₀, hcall₀, hnew⟩ | ⟨_, hsame⟩
      · rw [hstep.calls_eq, hold] at hcall₀
        cases hcall₀
        rw [hc, hold] at hcall
        cases hcall
        have hpc : pc = .returned ret handed := by
          rw [hnew] at hpc'
          exact hpc'
        rw [setPc_ackHash, setPc_freed, hnew]
        exact hE.callStep_restored hold hkeeps hstep hid hpc
      · rw [hstep.calls_eq, hcall] at hsame
        cases hsame
        exact (hother rfl hid).elim

/-! ## Runs -/

/-- In every run in which no waiting call draws an id that a call still holds, no synchronous call
fails in its wait and no reply is stored over another one, each call that returns leaves no entry
behind, and its messages are freed or handed to its caller. -/
theorem ackHash_restored {seqId : UInt64} {events : List ClientEvent} {s s' : Client}
    {e : ClientEvent} (hrun : (machine.restrict keepsEntries).Run (ofInit seqId) events s)
    (henabled : (machine.restrict keepsEntries).enabled s e = true)
    (hexec : machine.exec s e = some s') (c : Nat) : s.Restored s' c := by
  have hE : s.Entries := by
    refine hrun.invariant (ofInit_entries seqId) ?_ (fun _ _ => trivial : ∀ e ∈ events, True)
    intro s₁ s₂ e hE _ henabled hexec
    rcases (Bool.and_eq_true _ _).mp henabled with ⟨henabled', hkeeps⟩
    exact hE.step hkeeps (step_of_exec henabled' hexec)
  rcases (Bool.and_eq_true _ _).mp henabled with ⟨henabled', hkeeps⟩
  exact hE.restored hkeeps (step_of_exec henabled' hexec) c

/-- A call of the given kind whose wait runs into its deadline at the moment its reply arrives. -/
def lateReply (kind : CallKind) : List ClientEvent :=
  [.call kind Payload.empty 1, .draw 0, .insert 0 (some (nodeAt 16)),
    .send 0 .written, .wait 0, .wake 0 .timedOut,
    .receive (.frame (Frame.build ucIpcMsgTypeAsyncAck 20000 10000 Payload.empty)) none]

/-- An asynchronous call frees the reply together with its entry. -/
theorem ackHash_restored_async :
    ∃ s s' : Client, (machine.restrict keepsEntries).Run (ofInit 0)
        (lateReply .asyncSend ++ [.resume 0]) s ∧
      machine.exec s (.deleteSeq 0) = some s' ∧ s.Restored s' 0 := by
  have hplay : ((machine.restrict keepsEntries).play (ofInit 0)
      (lateReply .asyncSend ++ [.resume 0])).any (fun s =>
        (machine.restrict keepsEntries).enabled s (.deleteSeq 0) &&
          (machine.exec s (.deleteSeq 0)).isSome) = true := by
    decide +kernel
  rcases Machine.exists_run_of_play hplay with ⟨s, hrun, htest⟩
  rcases (Bool.and_eq_true _ _).mp htest with ⟨henabled, hsome⟩
  rcases Option.isSome_iff_exists.1 hsome with ⟨s', hexec⟩
  exact ⟨s, s', hrun, hexec, ackHash_restored hrun henabled hexec 0⟩

/-- A synchronous call returns with its entry, and the reply in it, still in the table. -/
theorem ackHash_left_behind :
    ∃ s s' : Client, machine.Run (ofInit 0) (lateReply .syncSend) s ∧
      machine.enabled s (.resume 0) = true ∧ machine.exec s (.resume 0) = some s' ∧
      ¬ s.Restored s' 0 := by
  have hplay : (machine.play (ofInit 0) (lateReply .syncSend)).any (fun s =>
      machine.enabled s (.resume 0) &&
        ((s.calls[0]?).any (fun call => call.pc.insertedId = some 10000) &&
          (machine.exec s (.resume 0)).any fun s' =>
            (s'.calls[0]?).any (fun call => call.pc = .returned (-0x4f885afb) none) &&
              (s'.ackHash.get 10000).isSome)) = true := by
    decide +kernel
  rcases Machine.exists_run_of_play hplay with ⟨s, hrun, htest⟩
  rcases (Bool.and_eq_true _ _).mp htest with ⟨henabled, htest⟩
  rcases (Bool.and_eq_true _ _).mp htest with ⟨hheld, hafter⟩
  rcases (Option.any_eq_true _ _).1 hheld with ⟨call, hcall, hid⟩
  rcases (Option.any_eq_true _ _).1 hafter with ⟨s', hexec, hs'⟩
  rcases (Bool.and_eq_true _ _).mp hs' with ⟨hreturned, hentry⟩
  rcases (Option.any_eq_true _ _).1 hreturned with ⟨call', hcall', hpc'⟩
  refine ⟨s, s', hrun, henabled, hexec, ?_⟩
  intro hrestored
  have hgone := (hrestored call call' 10000 _ none hcall (of_decide_eq_true hid) hcall'
    (of_decide_eq_true hpc')).1
  rw [hgone] at hentry
  cases hentry

end Client
end Ipc
end UtilsC
