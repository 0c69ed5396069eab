import UtilsC.Ipc.Registry

/-!
# An accept that fails half-way

`uc_ipc_server_accept_client` takes five things one after another: the connection, the client's
structure, a place in the epoll set and an entry in each of two tables.

* `acceptSteps` follows it one acquisition at a time, with the release that stands at each exit;
  `acceptSteps_eq` says that this is `acceptOpen`.
* `AcceptClean` is what the caller relies on: all of them or none.
* `ucIpcServerAcceptClient_clean_iff`: the two insertions are not undone.
-/

namespace UtilsC
namespace Ipc

open Lib Hash

/-- Which calls succeed before the tables are touched. -/
structure AcceptCalls where
  calloc : Bool
  epollCtl : Bool
  fdMalloc : Bool
  deriving DecidableEq

/-- The first of them that fails. -/
def AcceptCalls.setUp (calls : AcceptCalls) : SetUp :=
  if calls.calloc = false then .noCli
  else if calls.epollCtl = false then .noEpoll
  else if calls.fdMalloc = false then .noFdMem
  else .ready

namespace Server

variable (s : Server)

/-! ## One acquisition at a time -/

/-- From `accept` to the section under `cli_fd_mutex`. -/
def acceptSteps (fd : Nat) (peer : SockAddr) (urandom : Option UInt64) (calls : AcceptCalls) :
    Option (Except Int Nat × Server) :=
  let s : Server := { s with table := Function.update s.table fd (some s.conns.length) }
  if calls.calloc = false then
    some (.error (-0x1d008be0), s.closeSocket fd)
  else
    let b := s.blocks
    let s : Server := { s with blocks := b + 1 }
    (clientUuid peer urandom).map fun uuid =>
      let s : Server :=
        { s with clis := Function.update s.clis b (some { fd := fd, addr := peer, uuid := uuid }) }
      if calls.epollCtl = false then
        (.error (-0x59f07af6), (s.closeSocket fd).freeClis [b])
      else
        let s : Server := { s with epoll := Function.update s.epoll fd (some b) }
        if calls.fdMalloc = false then
          (.error (-0x70a1fdb5), (s.closeSocket fd).freeClis [b])
        else
          (.ok b,
            { s with conns := s.conns ++ [{ fd := fd, peer := peer, uuid := uuid }] })

/-- The whole function. -/
def acceptClientSteps (fd : Nat) (peer : SockAddr) (urandom : Option UInt64) (calls : AcceptCalls)
    (fdNode infoNode : Option NodeBlock) : Option (Int × Server) :=
  (s.acceptSteps fd peer urandom calls).bind fun r =>
    match r.1 with
    | .error ret => some (ret, r.2)
    | .ok b => (r.2.acceptMap fdNode fd b).bind fun s' => s'.acceptInfo infoNode b

/-- What `accept` and `calloc` give is not in use. -/
structure Offers (fd : Nat) : Prop where
  closed : s.table fd = none
  unwatched : s.epoll fd = none
  unused : s.clis s.blocks = none
  unlisted : ∀ uuid, s.cliInfoHash.get uuid ≠ some (some s.blocks)

variable {s} {fd : Nat}

theorem closeSocket_nat (s : Server) (fd : Nat) : s.closeSocket (fd : Int) =
    { s with
      table := Function.update s.table fd none
      epoll := Function.update s.epoll fd none } := by
  rw [closeSocket, if_pos (Int.natCast_nonneg fd)]
  rfl

/-- A free place that was taken and given back. -/
theorem update_none_eq {β : Type} {f : Nat → Option β} {n : Nat} (h : f n = none)
    (v : Option β) : Function.update (Function.update f n v) n none = f := by
  rw [Function.update_idem, ← h, Function.update_eq_self]

theorem freed_update_eq {f : Nat → Option Cli} {b : Nat} (h : f b = none) (v : Option Cli) :
    (fun b' => if b' = b then none else Function.update f b v b') = f := by
  funext b'
  by_cases hb : b' = b
  · rw [if_pos hb, hb, h]
  · rw [if_neg hb, Function.update_of_ne hb]

/-- Each exit of the first part gives back what was taken. -/
theorem acceptSteps_eq (ho : s.Offers fd) (peer : SockAddr) (urandom : Option UInt64)
    (calls : AcceptCalls) :
    s.acceptSteps fd peer urandom calls = s.acceptOpen fd peer urandom calls.setUp := by
  have htable := update_none_eq ho.closed (some s.conns.length)
  have hepoll := update_none_eq ho.unwatched (some s.blocks)
  -- `close` also takes a descriptor out of the epoll set, watched or not
  have hepoll' : Function.update s.epoll fd none = s.epoll := by
    rw [← ho.unwatched, Function.update_eq_self]
  have hclis := freed_update_eq ho.unused
  rcases calls with ⟨calloc, epollCtl, fdMalloc⟩
  cases calloc with
  | false =>
      simp only [acceptSteps, acceptOpen, AcceptCalls.setUp, closeSocket_nat, htable, hepoll',
        if_true]
  | true =>
      simp only [acceptSteps, acceptOpen, AcceptCalls.setUp, Bool.true_eq_false, if_false]
      cases epollCtl with
      | false => simp [closeSocket_nat, freeClis, htable, hepoll', hclis]
      | true =>
          cases fdMalloc with
          | false => simp [closeSocket_nat, freeClis, htable, hepoll, hclis]
          | true => simp

theorem acceptClientSteps_eq (ho : s.Offers fd) (peer : SockAddr) (urandom : Option UInt64)
    (calls : AcceptCalls) (fdNode infoNode : Option NodeBlock) :
    s.acceptClientSteps fd peer urandom calls fdNode infoNode =
      s.ucIpcServerAcceptClient fd peer urandom calls.setUp fdNode infoNode := by
  rw [acceptClientSteps, acceptSteps_eq ho]
  rfl

/-! ## The two insertions -/

/-- An insertion goes well when there is a node already or memory for one. -/
def Inserts {P : Type} (t : U64Table P) (uuid : UInt64) (node : Option NodeBlock) : Prop :=
  t.get uuid ≠ none ∨ node.isSome = true

section Inserts

variable {P : Type} {t : U64Table P} {uuid : UInt64} {node : Option NodeBlock} {val : Option P}

theorem insert_zero_iff : (t.insert node uuid val).1 = 0 ↔ Inserts t uuid node := by
  have hstatus := U64Table.insert_status t uuid val node
  by_cases h : Inserts t uuid node
  · exact iff_of_true (hstatus.trans (if_pos h)) h
  · rw [hstatus.trans (if_neg h)]
    exact iff_of_false (by decide) h

theorem get_inserted (h : Inserts t uuid node) :
    (t.insert node uuid val).2.1.get uuid = some val := by
  rw [U64Table.get_insert]
  exact (if_pos h).trans (if_pos rfl)

theorem get_not_inserted (h : ¬ Inserts t uuid node) :
    (t.insert node uuid val).2.1.get uuid = none := by
  rw [U64Table.get_insert]
  refine (if_neg h).trans ?_
  by_contra hne
  exact h (.inl hne)

end Inserts

/-- A client for which everything before the tables went well. -/
structure Inserted (s : Server) (fd : Nat) (peer : SockAddr) (uuid : UInt64)
    (fdNode infoNode : Option NodeBlock) (ret : Int) (s' : Server) : Prop where
  ret_eq : ret = 0 ↔ Inserts s.cliInfoHash uuid infoNode
  table_eq : s'.table fd = some s.conns.length
  epoll_eq : s'.epoll fd = some s.blocks
  cli_eq : s'.clis s.blocks = some { fd := fd, addr := peer, uuid := uuid }
  fdOf : Inserts s.cliFdHash uuid fdNode → s'.cliFdHash.get uuid = some (some (fd : Int))
  noFdOf : ¬ Inserts s.cliFdHash uuid fdNode → s'.cliFdHash.get uuid = none
  infoOf : Inserts s.cliInfoHash uuid infoNode →
    s'.cliInfoHash.get uuid = some (some s.blocks)

theorem acceptClient_ready (ho : s.Offers fd) {peer : SockAddr} {urandom : Option UInt64}
    {uuid : UInt64} (huuid : clientUuid peer urandom = some uuid)
    (fdNode infoNode : Option NodeBlock) :
    ∃ ret s', s.ucIpcServerAcceptClient fd peer urandom .ready fdNode infoNode = some (ret, s') ∧
      Inserted s fd peer uuid fdNode infoNode ret s' := by
  let cli : Cli := { fd := fd, addr := peer, uuid := uuid }
  let fdHash := s.cliFdHash.insert fdNode uuid (some (fd : Int))
  let infoHash := s.cliInfoHash.insert infoNode uuid (some s.blocks)
  have hrun : s.ucIpcServerAcceptClient fd peer urandom .ready fdNode infoNode =
      some (if infoHash.1 ≠ 0 then -0x59b70e22 else 0,
        ({ s with
          table := Function.update s.table fd (some s.conns.length)
          epoll := Function.update s.epoll fd (some s.blocks)
          conns := s.conns ++ [{ fd := fd, peer := peer, uuid := uuid }]
          clis := Function.update s.clis s.blocks (some cli)
          blocks := s.blocks + 1
          cliFdHash := fdHash.2.1
          cliInfoHash := infoHash.2.1 } : Server).freeClis infoHash.2.2) := by
    simp [ucIpcServerAcceptClient, acceptOpen, huuid, acceptMap, acceptInfo, fdHash, infoHash, cli]
  -- what the insertion in `cli_info_hash` frees is another structure
  have hkept : s.blocks ∉ infoHash.2.2 := by
    rw [U64Table.insert_freed]
    intro hmem
    cases hold : s.cliInfoHash.get uuid with
    | none =>
        rw [hold] at hmem
        cases hmem
    | some old =>
        rw [hold] at hmem
        exact ho.unlisted uuid (hold.trans (congrArg some (Option.mem_toList.1 hmem)))
  refine ⟨_, _, hrun, ?_⟩
  refine ⟨?_, Function.update_self _ _ _, Function.update_self _ _ _, ?_, get_inserted,
    get_not_inserted, get_inserted⟩
  · have hzero : infoHash.1 = 0 ↔ Inserts s.cliInfoHash uuid infoNode := insert_zero_iff
    rw [← hzero]
    by_cases hret : infoHash.1 = 0
    · rw [if_neg (not_not.2 hret)]
      exact iff_of_true rfl hret
    · rw [if_pos hret]
      exact iff_of_false (by decide) hret
  · show (if s.blocks ∈ infoHash.2.2 then none else _) = _
    rw [if_neg hkept]
    exact Function.update_self _ _ _

/-! ## All or nothing -/

/-- A failed accept leaves no trace; after a successful one a reply can be sent. -/
structure AcceptClean (s : Server) (fd : Nat) (peer : SockAddr) (ret : Int) (s' : Server) :
    Prop where
  undone : ret ≠ 0 → s'.table fd = none ∧ s'.epoll fd = none ∧
    s'.cliFdHash.get = s.cliFdHash.get ∧ s'.cliInfoHash.get = s.cliInfoHash.get
  stored : ret = 0 → ∃ b uuid, s'.table fd = some s.conns.length ∧ s'.epoll fd = some b ∧
    s'.clis b = some { fd := fd, addr := peer, uuid := uuid } ∧
    s'.cliInfoHash.get uuid = some (some b) ∧
    s'.ucIpcServerSendMsg uuid = some (some (fd : Int))

/-- The exits before the tables are clean. -/
theorem AcceptClean.of_open {peer : SockAddr} {s' : Server} {ret : Int} (ho : s.Offers fd)
    (hret : ret ≠ 0) (htable : s'.table = s.table) (hepoll : s'.epoll = s.epoll)
    (hfd : s'.cliFdHash = s.cliFdHash) (hinfo : s'.cliInfoHash = s.cliInfoHash) :
    AcceptClean s fd peer ret s' where
  undone _ := by
    rw [htable, hepoll, hfd, hinfo]
    exact ⟨ho.closed, ho.unwatched, rfl, rfl⟩
  stored h := absurd h hret

/-- Behind the first part the accept is clean exactly when both insertions go well. -/
theorem Inserted.clean_iff {peer : SockAddr} {uuid : UInt64} {fdNode infoNode : Option NodeBlock}
    {ret : Int} {s' : Server} (h : Inserted s fd peer uuid fdNode infoNode ret s') :
    AcceptClean s fd peer ret s' ↔
      Inserts s.cliFdHash uuid fdNode ∧ Inserts s.cliInfoHash uuid infoNode := by
  constructor
  · intro hclean
    have hret : ret = 0 := by
      by_contra hne
      -- the return behind the second insertion closes nothing
      have htable := (hclean.undone hne).1
      rw [h.table_eq] at htable
      cases htable
    refine ⟨?_, h.ret_eq.1 hret⟩
    rcases hclean.stored hret with ⟨b, uuid', _, hepoll, hcli, _, hsend⟩
    -- the structure that is watched has the uuid
    rw [h.epoll_eq] at hepoll
    cases hepoll
    rw [h.cli_eq] at hcli
    cases hcli
    -- without its node in `cli_fd_hash` the client cannot be sent anything
    by_contra hno
    rw [ucIpcServerSendMsg, U64Table.findVal_eq_get, h.noFdOf hno] at hsend
    cases hsend
  · rintro ⟨hfd, hinfo⟩
    have hret := h.ret_eq.2 hinfo
    refine ⟨fun hne => absurd hret hne, fun _ => ?_⟩
    refine ⟨s.blocks, uuid, h.table_eq, h.epoll_eq, h.cli_eq, h.infoOf hinfo, ?_⟩
    rw [ucIpcServerSendMsg, U64Table.findVal_eq_get, h.fdOf hfd]

/-- All or nothing holds when the structure cannot be had, and else, given a uuid, when another of
the first steps fails or both insertions go well. -/
theorem ucIpcServerAcceptClient_clean_iff (ho : s.Offers fd) (peer : SockAddr)
    (urandom : Option UInt64) (calls : AcceptCalls) (fdNode infoNode : Option NodeBlock) :
    (∃ ret s', s.acceptClientSteps fd peer urandom calls fdNode infoNode = some (ret, s') ∧
        AcceptClean s fd peer ret s') ↔
      calls.calloc = false ∨
        ∃ uuid, clientUuid peer urandom = some uuid ∧
          (calls.epollCtl = false ∨ calls.fdMalloc = false ∨
            Inserts s.cliFdHash uuid fdNode ∧ Inserts s.cliInfoHash uuid infoNode) := by
  rw [acceptClientSteps_eq ho]
  rcases calls with ⟨calloc, epollCtl, fdMalloc⟩
  cases calloc with
  | false =>
      refine iff_of_true ⟨-0x1d008be0, s, ?_, ?_⟩ (.inl rfl)
      · simp [ucIpcServerAcceptClient, acceptOpen, AcceptCalls.setUp]
      · exact .of_open ho (by decide) rfl rfl rfl rfl
  | true =>
      cases huuid : clientUuid peer urandom with
      -- without a uuid the shift is undefined
      | none =>
          simp only [ucIpcServerAcceptClient, acceptOpen, AcceptCalls.setUp, huuid]
          cases epollCtl <;> cases fdMalloc <;> simp
      | some uuid =>
          cases epollCtl with
          | false =>
              refine iff_of_true ⟨-0x59f07af6, { s with blocks := s.blocks + 1 }, ?_, ?_⟩
                (.inr ⟨uuid, rfl, .inl rfl⟩)
              · simp [ucIpcServerAcceptClient, acceptOpen, AcceptCalls.setUp, huuid]
              · exact .of_open ho (by decide) rfl rfl rfl rfl
          | true =>
              cases fdMalloc with
              | false =>
                  refine iff_of_true ⟨-0x70a1fdb5, { s with blocks := s.blocks + 1 }, ?_, ?_⟩
                    (.inr ⟨uuid, rfl, .inr (.inl rfl)⟩)
                  · simp [ucIpcServerAcceptClient, acceptOpen, AcceptCalls.setUp, huuid]
                  · exact .of_open ho (by decide) rfl rfl rfl rfl
              | true =>
                  have hready : AcceptCalls.setUp ⟨true, true, true⟩ = .ready := rfl
                  rcases acceptClient_ready ho huuid fdNode infoNode with ⟨ret, s', hrun, hins⟩
                  rw [hready, hrun]
                  constructor
                  · rintro ⟨_, _, ⟨⟩, hclean⟩
                    exact .inr ⟨uuid, rfl, .inr (.inr (hins.clean_iff.1 hclean))⟩
                  · rintro (hno | ⟨uuid', heq, hno | hno | hboth⟩)
                    · cases hno
                    · cases hno
                    · cases hno
                    · cases heq
                      exact ⟨ret, s', rfl, hins.clean_iff.2 hboth⟩

theorem ofInit_offers (fd : Nat) : ofInit.Offers fd where
  closed := rfl
  unwatched := rfl
  unused := rfl
  unlisted := by simp [ofInit]

/-- A server with one client. -/
def oneClient : Server where
  table := Function.update ofInit.table 5 (some 0)
  epoll := Function.update ofInit.epoll 5 (some 0)
  conns := [{ fd := 5, peer := { sAddr := 16777343, sinPort := 80 }, uuid := 77 }]
  clis :=
    Function.update ofInit.clis 0
      (some { fd := 5, addr := { sAddr := 16777343, sinPort := 80 }, uuid := 77 })
  blocks := 1
  cliFdHash := (ofInit.cliFdHash.insert (some (nodeAt 8)) 77 (some 5)).2.1
  cliInfoHash := (ofInit.cliInfoHash.insert (some (nodeAt 16)) 77 (some 0)).2.1

theorem oneClient_offers : oneClient.Offers 6 where
  closed := rfl
  unwatched := rfl
  unused := rfl
  unlisted := by
    intro uuid
    show (ofInit.cliInfoHash.insert (some (nodeAt 16)) 77 (some 0)).2.1.get uuid ≠ _
    rw [U64Table.get_insert]
    split_ifs <;> simp [ofInit, oneClient]

/-- The second client of a server, with memory for everything. -/
theorem ucIpcServerAcceptClient_clean_second :
    (∃ ret, ofInit.acceptClientSteps 5 { sAddr := 16777343, sinPort := 80 } (some 77)
        ⟨true, true, true⟩ (some (nodeAt 8)) (some (nodeAt 16)) = some (ret, oneClient)) ∧
      ∃ ret s', oneClient.acceptClientSteps 6 { sAddr := 33554559, sinPort := 81 } (some 78)
          ⟨true, true, true⟩ (some (nodeAt 24)) (some (nodeAt 32)) = some (ret, s') ∧
        AcceptClean oneClient 6 { sAddr := 33554559, sinPort := 81 } ret s' := by
  constructor
  · rw [acceptClientSteps_eq (ofInit_offers 5)]
    exact ⟨_, rfl⟩
  · exact (ucIpcServerAcceptClient_clean_iff oneClient_offers _ _ _ _ _).2
      (.inr ⟨78, rfl, .inr (.inr ⟨.inr rfl, .inr rfl⟩)⟩)

/-- No memory for a node of `cli_fd_hash`: the accept succeeds, and replies are refused.  No memory
for a node of `cli_info_hash`: it fails, and the connection stays. -/
theorem ucIpcServerAcceptClient_traces :
    (∃ s', ofInit.acceptClientSteps 5 { sAddr := 16777343, sinPort := 80 } (some 77)
        ⟨true, true, true⟩ none (some (nodeAt 16)) = some (0, s') ∧
      s'.ucIpcServerSendMsg 77 = some none ∧
      ¬ AcceptClean ofInit 5 { sAddr := 16777343, sinPort := 80 } 0 s') ∧
    ∃ ret s', ofInit.acceptClientSteps 5 { sAddr := 16777343, sinPort := 80 } (some 77)
        ⟨true, true, true⟩ (some (nodeAt 8)) none = some (ret, s') ∧ ret ≠ 0 ∧
      s'.table 5 = some 0 ∧ s'.epoll 5 = some 0 ∧ s'.cliFdHash.get 77 = some (some 5) ∧
      ¬ AcceptClean ofInit 5 { sAddr := 16777343, sinPort := 80 } ret s' := by
  have huuid : clientUuid { sAddr := 16777343, sinPort := 80 } (some 77) = some 77 := rfl
  have hfd : ¬ Inserts ofInit.cliFdHash 77 none := by simp [Inserts, ofInit]
  have hinfo : ¬ Inserts ofInit.cliInfoHash 77 none := by simp [Inserts, ofInit]
  have hready : AcceptCalls.setUp ⟨true, true, true⟩ = .ready := rfl
  rw [acceptClientSteps_eq (ofInit_offers 5), acceptClientSteps_eq (ofInit_offers 5), hready]
  constructor
  · rcases acceptClient_ready (ofInit_offers 5) huuid none (some (nodeAt 16)) with
      ⟨ret, s', hrun, hins⟩
    cases hins.ret_eq.2 (.inr rfl)
    refine ⟨s', hrun, ?_, fun hclean => hfd (hins.clean_iff.1 hclean).1⟩
    rw [ucIpcServerSendMsg, U64Table.findVal_eq_get, hins.noFdOf hfd]
  · rcases acceptClient_ready (ofInit_offers 5) huuid (some (nodeAt 8)) none with
      ⟨ret, s', hrun, hins⟩
    refine ⟨ret, s', hrun, fun hret => hinfo (hins.ret_eq.1 hret), hins.table_eq, hins.epoll_eq,
      hins.fdOf (.inr rfl), fun hclean => hinfo (hins.clean_iff.1 hclean).2⟩

end Server

end Ipc
end UtilsC
