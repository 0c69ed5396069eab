import UtilsC.Ipc.Registry

/-!
# Which clients share a uuid

The tables of the server are keyed by uuids.  A uuid is 64 random bits, or a number made of the
peer's address and port when `uc_urandom` fails; `<<` binds weaker than `+`, so that the number is
`s_addr << (16 + sin_port)` in 32 bits.

* `Server.machine` takes accepts and closes in any order, with all allocations succeeding.
* `Server.Registry` is what the tables should say: no two open connections share a uuid, and each
  uuid leads to its own descriptor and its own structure.
* `apart` leaves out the accepts whose fallback number is in use already.
-/

namespace UtilsC
namespace Ipc

open Lib Hash

inductive RegistryEvent
  /-- a connection is accepted under a descriptor that is free -/
  | accept (fd : Nat) (peer : SockAddr) (urandom : Option UInt64) (fdNode infoNode : NodeBlock)
  /-- an event on a descriptor leads to `uc_ipc_server_close_cli` -/
  | close (fd : Nat)

namespace Server

variable (s : Server)

def exec : RegistryEvent → Option Server
  | .accept fd peer urandom fdNode infoNode =>
      (s.ucIpcServerAcceptClient fd peer urandom .ready (some fdNode) (some infoNode)).map Prod.snd
  | .close fd => (s.epoll fd).bind s.ucIpcServerCloseCli

def enabled : RegistryEvent → Bool
  | .accept fd _ _ _ _ => s.table fd = none
  | .close fd => (s.epoll fd).isSome

def machine : Machine Server RegistryEvent :=
  { enabled := enabled, exec := exec }

/-! ## What the tables should say -/

/-- The tables know each open connection under a uuid of its own. -/
structure Registry : Prop where
  distinct : ∀ fd fd' k k' conn conn', s.table fd = some k → s.conns[k]? = some conn →
    s.table fd' = some k' → s.conns[k']? = some conn' → fd ≠ fd' → conn.uuid ≠ conn'.uuid
  fdOf : ∀ fd k conn, s.table fd = some k → s.conns[k]? = some conn →
    s.cliFdHash.get conn.uuid = some (some (fd : Int))
  infoOf : ∀ fd k conn, s.table fd = some k → s.conns[k]? = some conn →
    ∃ b, s.epoll fd = some b ∧ s.cliInfoHash.get conn.uuid = some (some b) ∧
      s.clis b = some { fd := fd, addr := conn.peer, uuid := conn.uuid }

/-- Closing a descriptor leaves the entries of the other open connections in place. -/
def LeavesOthers : Prop :=
  ∀ fd s', s.exec (.close fd) = some s' → ∀ fd' k conn, fd' ≠ fd → s.table fd' = some k →
    s.conns[k]? = some conn →
      s'.table fd' = some k ∧ s'.cliFdHash.get conn.uuid = s.cliFdHash.get conn.uuid ∧
        s'.cliInfoHash.get conn.uuid = s.cliInfoHash.get conn.uuid

/-- The uuid of a connection that is open. -/
def openUuid (k : Nat) : Option UInt64 :=
  (s.conns[k]?).bind fun conn => if s.table conn.fd = some k then some conn.uuid else none

/-- A random uuid is not in use.  When `uc_urandom` fails, the port as it stands in `sin_port` is
below 16, and no open connection has the number `s_addr * 2 ^ (16 + sin_port)`, taken modulo
`2 ^ 32`, for its uuid. -/
def apart : RegistryEvent → Bool
  | .accept _ _ (some uuid) _ _ =>
      (List.range s.conns.length).all fun k => s.openUuid k ≠ some uuid
  | .accept _ peer none _ _ =>
      peer.sinPort < 16 && (List.range s.conns.length).all fun k =>
        (s.openUuid k).map UInt64.toNat ≠
          some (peer.sAddr.toNat * 2 ^ (16 + peer.sinPort.toNat) % 2 ^ 32)
  | .close _ => true

theorem fallbackUuid_toNat {addr : SockAddr} (hport : addr.sinPort < 16) :
    ∃ uuid, fallbackUuid addr = some uuid ∧
      uuid.toNat = addr.sAddr.toNat * 2 ^ (16 + addr.sinPort.toNat) % 2 ^ 32 := by
  have hlt : addr.sinPort.toNat < 16 := by
    simpa [UInt16.lt_iff_toNat_lt] using hport
  have hcount : 16 + addr.sinPort.toNat < 32 := by omega
  refine ⟨_, if_pos hcount, ?_⟩
  -- the count is small enough to come out of the conversion unchanged
  have hshift : (16 + addr.sinPort.toNat).toUInt32.toNat % 32 = 16 + addr.sinPort.toNat := by
    have hsmall : (16 + addr.sinPort.toNat).toUInt32.toNat = 16 + addr.sinPort.toNat :=
      UInt32.toNat_ofNat_of_lt' (by show _ < 2 ^ 32; omega)
    omega
  rw [UInt32.toNat_toUInt64, UInt32.toNat_shiftLeft, hshift, Nat.shiftLeft_eq]

/-- An accept that is apart gives the client a uuid that no open connection has. -/
theorem clientUuid_fresh {fd : Nat} {peer : SockAddr} {urandom : Option UInt64}
    {fdNode infoNode : NodeBlock}
    (hapart : s.apart (.accept fd peer urandom fdNode infoNode) = true) :
    ∃ uuid, clientUuid peer urandom = some uuid ∧ ∀ k, s.openUuid k ≠ some uuid := by
  have hrange : ∀ {k : Nat} {uuid : UInt64}, s.openUuid k = some uuid →
      k ∈ List.range s.conns.length := by
    intro k uuid h
    rcases Option.bind_eq_some_iff.1 h with ⟨conn, hconn, _⟩
    exact List.mem_range.2 (List.getElem?_eq_some_iff.1 hconn).1
  -- a random uuid is compared as it is, a fallback number as the sum of its parts
  cases urandom with
  | some uuid =>
      refine ⟨uuid, rfl, ?_⟩
      intro k h
      have hk := List.all_eq_true.1 hapart k (hrange h)
      exact of_decide_eq_true hk h
  | none =>
      rcases (Bool.and_eq_true _ _).mp hapart with ⟨hport, hall⟩
      rcases fallbackUuid_toNat (of_decide_eq_true hport) with ⟨uuid, huuid, hnat⟩
      refine ⟨uuid, huuid, ?_⟩
      intro k h
      have hk := List.all_eq_true.1 hall k (hrange h)
      refine of_decide_eq_true hk ?_
      rw [h, Option.map_some, hnat]

/-! ## The invariant -/

/-- Connection `k` is open under the descriptor, and everything about it is in its place. -/
structure Entry (fd k : Nat) (conn : Conn) (b : Nat) : Prop where
  conn_eq : s.conns[k]? = some conn
  fd_eq : conn.fd = fd
  epoll_eq : s.epoll fd = some b
  block_lt : b < s.blocks
  cli_eq : s.clis b = some { fd := fd, addr := conn.peer, uuid := conn.uuid }
  fdOf : s.cliFdHash.get conn.uuid = some (some (fd : Int))
  infoOf : s.cliInfoHash.get conn.uuid = some (some b)

structure Registered : Prop where
  entry : ∀ {fd k : Nat}, s.table fd = some k → ∃ conn b, s.Entry fd k conn b
  fdOwned : ∀ {uuid : UInt64}, s.cliFdHash.get uuid ≠ none → ∃ k, s.openUuid k = some uuid
  infoOwned : ∀ {uuid : UInt64}, s.cliInfoHash.get uuid ≠ none → ∃ k, s.openUuid k = some uuid
  watched : ∀ {fd b : Nat}, s.epoll fd = some b → ∃ k, s.table fd = some k

theorem ofInit_registered : ofInit.Registered := by
  constructor <;> simp [ofInit]

variable {s}

theorem openUuid_eq {k : Nat} {uuid : UInt64} :
    s.openUuid k = some uuid ↔
      ∃ conn, s.conns[k]? = some conn ∧ s.table conn.fd = some k ∧ conn.uuid = uuid := by
  constructor
  · intro h
    rcases Option.bind_eq_some_iff.1 h with ⟨conn, hconn, hif⟩
    split at hif
    · exact ⟨conn, hconn, by assumption, Option.some.inj hif⟩
    · cases hif
  · rintro ⟨conn, hconn, htable, rfl⟩
    simp [openUuid, hconn, htable]

theorem Entry.openUuid {fd k : Nat} {conn : Conn} {b : Nat} (h : s.Entry fd k conn b)
    (htable : s.table fd = some k) : s.openUuid k = some conn.uuid :=
  openUuid_eq.2 ⟨conn, h.conn_eq, h.fd_eq.symm ▸ htable, rfl⟩

/-- A uuid leads to one descriptor. -/
theorem Entry.uuid_inj {fd fd' k k' : Nat} {conn conn' : Conn}
    {b b' : Nat} (h : s.Entry fd k conn b) (h' : s.Entry fd' k' conn' b')
    (huuid : conn.uuid = conn'.uuid) : fd = fd' := by
  -- both connections find their descriptor under the same key
  have hfd := h.fdOf
  rw [huuid, h'.fdOf] at hfd
  have hcast : (fd' : Int) = (fd : Int) := Option.some.inj (Option.some.inj hfd)
  exact (Int.ofNat.inj hcast).symm

theorem Registered.registry (hR : s.Registered) : s.Registry := by
  have hentry : ∀ {fd k : Nat} {conn : Conn}, s.table fd = some k → s.conns[k]? = some conn →
      ∃ b, s.Entry fd k conn b := by
    intro fd k conn htable hconn
    rcases hR.entry htable with ⟨conn', b, hE⟩
    cases hconn.symm.trans hE.conn_eq
    exact ⟨b, hE⟩
  constructor
  · intro fd fd' k k' conn conn' htable hconn htable' hconn' hne huuid
    rcases hentry htable hconn with ⟨b, hE⟩
    rcases hentry htable' hconn' with ⟨b', hE'⟩
    exact hne (hE.uuid_inj hE' huuid)
  · intro fd k conn htable hconn
    rcases hentry htable hconn with ⟨b, hE⟩
    exact hE.fdOf
  · intro fd k conn htable hconn
    rcases hentry htable hconn with ⟨b, hE⟩
    exact ⟨b, hE.epoll_eq, hE.infoOf, hE.cli_eq⟩

/-! ## Accepting -/

section Accept

variable {fd : Nat} {peer : SockAddr} {uuid : UInt64} {fdNode infoNode : NodeBlock}

/-- The server once a client with a new uuid is accepted. -/
def accepted (s : Server) (fd : Nat) (peer : SockAddr) (uuid : UInt64)
    (fdNode infoNode : NodeBlock) : Server :=
  { s with
    table := Function.update s.table fd (some s.conns.length)
    epoll := Function.update s.epoll fd (some s.blocks)
    conns := s.conns ++ [{ fd := fd, peer := peer, uuid := uuid }]
    clis := Function.update s.clis s.blocks (some { fd := fd, addr := peer, uuid := uuid })
    blocks := s.blocks + 1
    cliFdHash := (s.cliFdHash.insert (some fdNode) uuid (some (fd : Int))).2.1
    cliInfoHash := (s.cliInfoHash.insert (some infoNode) uuid (some s.blocks)).2.1 }

theorem ucIpcServerAcceptClient_eq {urandom : Option UInt64}
    (huuid : clientUuid peer urandom = some uuid) (hinfo : s.cliInfoHash.get uuid = none) :
    s.ucIpcServerAcceptClient fd peer urandom .ready (some fdNode) (some infoNode) =
      some (0, s.accepted fd peer uuid fdNode infoNode) := by
  -- the insertion succeeds and, as the uuid is new, frees no structure
  have hret : (s.cliInfoHash.insert (some infoNode) uuid (some s.blocks)).1 = 0 := by
    rw [U64Table.insert_status]
    simp [errOk]
  have hfreed : (s.cliInfoHash.insert (some infoNode) uuid (some s.blocks)).2.2 = [] := by
    rw [U64Table.insert_freed, hinfo]
  simp [ucIpcServerAcceptClient, acceptOpen, huuid, acceptMap, acceptInfo, hret, hfreed, freeClis,
    accepted]

theorem accepted_cliFdHash (uuid' : UInt64) :
    (s.accepted fd peer uuid fdNode infoNode).cliFdHash.get uuid' =
      if uuid' = uuid then some (some (fd : Int)) else s.cliFdHash.get uuid' := by
  show (s.cliFdHash.insert (some fdNode) uuid (some (fd : Int))).2.1.get uuid' = _
  rw [U64Table.get_insert]
  simp

theorem accepted_cliInfoHash (uuid' : UInt64) :
    (s.accepted fd peer uuid fdNode infoNode).cliInfoHash.get uuid' =
      if uuid' = uuid then some (some s.blocks) else s.cliInfoHash.get uuid' := by
  show (s.cliInfoHash.insert (some infoNode) uuid (some s.blocks)).2.1.get uuid' = _
  rw [U64Table.get_insert]
  simp

/-- A connection with another descriptor and another uuid keeps its entries. -/
theorem Entry.accepted {fd' k : Nat} {conn : Conn} {b : Nat} (hE : s.Entry fd' k conn b)
    (hfd : fd' ≠ fd) (huuid : conn.uuid ≠ uuid) :
    (s.accepted fd peer uuid fdNode infoNode).Entry fd' k conn b where
  conn_eq :=
    (List.getElem?_append_left (List.getElem?_eq_some_iff.1 hE.conn_eq).1).trans hE.conn_eq
  fd_eq := hE.fd_eq
  epoll_eq := (Function.update_of_ne hfd _ _).trans hE.epoll_eq
  block_lt := Nat.lt_succ_of_lt hE.block_lt
  cli_eq := (Function.update_of_ne (Nat.ne_of_lt hE.block_lt) _ _).trans hE.cli_eq
  fdOf := by
    rw [accepted_cliFdHash, if_neg huuid]
    exact hE.fdOf
  infoOf := by
    rw [accepted_cliInfoHash, if_neg huuid]
    exact hE.infoOf

theorem accepted_entry :
    (s.accepted fd peer uuid fdNode infoNode).Entry fd s.conns.length
      { fd := fd, peer := peer, uuid := uuid } s.blocks where
  conn_eq := List.getElem?_concat_length
  fd_eq := rfl
  epoll_eq := Function.update_self _ _ _
  block_lt := Nat.lt_succ_self _
  cli_eq := Function.update_self _ _ _
  fdOf := by
    rw [accepted_cliFdHash]
    exact if_pos rfl
  infoOf := by
    rw [accepted_cliInfoHash]
    exact if_pos rfl

theorem Registered.accepted (hR : s.Registered) (hfree : s.table fd = none)
    (hfresh : ∀ k, s.openUuid k ≠ some uuid) :
    (s.accepted fd peer uuid fdNode infoNode).Registered := by
  have hnew : (s.accepted fd peer uuid fdNode infoNode).table fd = some s.conns.length :=
    Function.update_self _ _ _
  have hother : ∀ fd', fd' ≠ fd →
      (s.accepted fd peer uuid fdNode infoNode).table fd' = s.table fd' :=
    fun fd' hne => Function.update_of_ne hne _ _
  have hopenNew : (s.accepted fd peer uuid fdNode infoNode).openUuid s.conns.length = some uuid :=
    accepted_entry.openUuid hnew
  have hentry : ∀ {fd' k : Nat}, s.table fd' = some k → ∃ conn b,
      (s.accepted fd peer uuid fdNode infoNode).Entry fd' k conn b ∧ fd' ≠ fd ∧
        s.openUuid k = some conn.uuid := by
    intro fd' k htable
    have hne : fd' ≠ fd := by
      rintro rfl
      rw [hfree] at htable
      cases htable
    rcases hR.entry htable with ⟨conn, b, hE⟩
    -- the new uuid is none of those that are open
    have huuid : conn.uuid ≠ uuid := fun h => hfresh k (h ▸ hE.openUuid htable)
    exact ⟨conn, b, hE.accepted hne huuid, hne, hE.openUuid htable⟩
  have hopenOld : ∀ {k uuid'}, s.openUuid k = some uuid' →
      (s.accepted fd peer uuid fdNode infoNode).openUuid k = some uuid' := by
    intro k uuid' h
    rcases openUuid_eq.1 h with ⟨conn, hconn, htable, huuid'⟩
    rcases hentry htable with ⟨conn', b, hE, hne, hopen⟩
    rw [← Option.some.inj (hopen.symm.trans h)]
    exact hE.openUuid ((hother _ hne).trans htable)
  constructor
  · intro fd' k htable
    -- the new connection has its entries, the others keep theirs
    by_cases hfd : fd' = fd
    · rw [hfd, hnew] at htable
      cases htable
      rw [hfd]
      exact ⟨_, _, accepted_entry⟩
    · rw [hother fd' hfd] at htable
      rcases hentry htable with ⟨conn, b, hE, _⟩
      exact ⟨conn, b, hE⟩
  · intro uuid' hbound
    rw [accepted_cliFdHash] at hbound
    split at hbound
    · rename_i heq
      rw [heq]
      exact ⟨_, hopenNew⟩
    · rcases hR.fdOwned hbound with ⟨k, hk⟩
      exact ⟨k, hopenOld hk⟩
  · intro uuid' hbound
    rw [accepted_cliInfoHash] at hbound
    split at hbound
    · rename_i heq
      rw [heq]
      exact ⟨_, hopenNew⟩
    · rcases hR.infoOwned hbound with ⟨k, hk⟩
      exact ⟨k, hopenOld hk⟩
  · intro fd' b hepoll
    by_cases hfd : fd' = fd
    · rw [hfd]
      exact ⟨_, hnew⟩
    · have hold : s.epoll fd' = some b := (Function.update_of_ne hfd _ _).symm.trans hepoll
      rcases hR.watched hold with ⟨k, hk⟩
      exact ⟨k, (hother fd' hfd).trans hk⟩

end Accept

/-! ## Closing -/

section Close

variable {fd k : Nat} {conn : Conn} {b : Nat}

/-- The server once an open connection is closed. -/
def closed (s : Server) (fd : Nat) (uuid : UInt64) (b : Nat) : Server :=
  { s with
    table := Function.update s.table fd none
    epoll := Function.update s.epoll fd none
    clis := Function.update s.clis b none
    cliFdHash := (s.cliFdHash.delete uuid).2.1
    cliInfoHash := (s.cliInfoHash.delete uuid).2.1 }

theorem Entry.close_eq (hE : s.Entry fd k conn b) :
    s.ucIpcServerCloseCli b = some (s.closed fd conn.uuid b) := by
  -- the entry holds the structure that is being closed, which is freed with it
  have hfreed : (s.cliInfoHash.delete conn.uuid).2.2 = [b] := by
    rw [U64Table.delete_freed, hE.infoOf]
    rfl
  have hclis : ∀ cli : Option Cli,
      (fun b' => if b' = b then none else Function.update s.clis b cli b') =
        Function.update s.clis b none := by
    intro cli
    funext b'
    by_cases hb : b' = b
    · simp [hb]
    · simp [hb]
  simp [ucIpcServerCloseCli, closeUnmap, closeFd, closeInfo, closeSocket, freeClis, hE.cli_eq,
    hfreed, closed, hclis]

theorem closed_cliFdHash (uuid uuid' : UInt64) :
    (s.closed fd uuid b).cliFdHash.get uuid' =
      if uuid' = uuid then none else s.cliFdHash.get uuid' :=
  U64Table.get_delete s.cliFdHash uuid uuid'

theorem closed_cliInfoHash (uuid uuid' : UInt64) :
    (s.closed fd uuid b).cliInfoHash.get uuid' =
      if uuid' = uuid then none else s.cliInfoHash.get uuid' :=
  U64Table.get_delete s.cliInfoHash uuid uuid'

/-- Another connection keeps its entries. -/
theorem Entry.closed (hE : s.Entry fd k conn b) {fd' k' : Nat} {conn' : Conn} {b' : Nat}
    (hE' : s.Entry fd' k' conn' b') (hfd : fd' ≠ fd) :
    (s.closed fd conn.uuid b).Entry fd' k' conn' b' := by
  have huuid : conn'.uuid ≠ conn.uuid := fun h => hfd (hE'.uuid_inj hE h)
  -- one structure has one descriptor
  have hb : b' ≠ b := by
    rintro rfl
    have hcli := hE'.cli_eq
    rw [hE.cli_eq] at hcli
    have hcast : (fd : Int) = (fd' : Int) := congrArg Cli.fd (Option.some.inj hcli)
    exact hfd (Int.ofNat.inj hcast).symm
  refine ⟨hE'.conn_eq, hE'.fd_eq, ?_, hE'.block_lt, ?_, ?_, ?_⟩
  · exact (Function.update_of_ne hfd _ _).trans hE'.epoll_eq
  · exact (Function.update_of_ne hb _ _).trans hE'.cli_eq
  · rw [closed_cliFdHash, if_neg huuid]
    exact hE'.fdOf
  · rw [closed_cliInfoHash, if_neg huuid]
    exact hE'.infoOf

theorem Registered.closed (hR : s.Registered) (htable : s.table fd = some k)
    (hE : s.Entry fd k conn b) : (s.closed fd conn.uuid b).Registered := by
  have hother : ∀ fd', fd' ≠ fd → (s.closed fd conn.uuid b).table fd' = s.table fd' :=
    fun fd' hne => Function.update_of_ne hne _ _
  have hgone : (s.closed fd conn.uuid b).table fd = none := Function.update_self _ _ _
  have hopen : ∀ {k' : Nat} {uuid : UInt64}, s.openUuid k' = some uuid → uuid ≠ conn.uuid →
      (s.closed fd conn.uuid b).openUuid k' = some uuid := by
    intro k' uuid h hne
    rcases openUuid_eq.1 h with ⟨conn', hconn', htable', huuid⟩
    rcases hR.entry htable' with ⟨conn'', b', hE'⟩
    cases hconn'.symm.trans hE'.conn_eq
    -- a connection with another uuid is under another descriptor
    have hfd : conn'.fd ≠ fd := by
      intro h
      rw [h, htable] at htable'
      cases htable'
      cases hconn'.symm.trans hE.conn_eq
      exact hne huuid.symm
    exact openUuid_eq.2 ⟨conn', hconn', (hother _ hfd).trans htable', huuid⟩
  constructor
  · intro fd' k' htable'
    by_cases hfd : fd' = fd
    · rw [hfd, hgone] at htable'
      cases htable'
    · rw [hother fd' hfd] at htable'
      rcases hR.entry htable' with ⟨conn', b', hE'⟩
      exact ⟨conn', b', hE.closed hE' hfd⟩
  · intro uuid hbound
    rw [closed_cliFdHash] at hbound
    split at hbound
    · exact absurd rfl hbound
    · rename_i hne
      rcases hR.fdOwned hbound with ⟨k', hk'⟩
      exact ⟨k', hopen hk' hne⟩
  · intro uuid hbound
    rw [closed_cliInfoHash] at hbound
    split at hbound
    · exact absurd rfl hbound
    · rename_i hne
      rcases hR.infoOwned hbound with ⟨k', hk'⟩
      exact ⟨k', hopen hk' hne⟩
  · intro fd' b' hepoll
    by_cases hfd : fd' = fd
    · rw [hfd] at hepoll
      have hnone : (s.closed fd conn.uuid b).epoll fd = none := Function.update_self _ _ _
      rw [hnone] at hepoll
      cases hepoll
    · have hold : s.epoll fd' = some b' := (Function.update_of_ne hfd _ _).symm.trans hepoll
      rcases hR.watched hold with ⟨k', hk'⟩
      exact ⟨k', (hother fd' hfd).trans hk'⟩

/-- What an event on a watched descriptor closes. -/
theorem Registered.exec_close (hR : s.Registered) {s' : Server}
    (hexec : s.exec (.close fd) = some s') :
    ∃ k conn b, s.table fd = some k ∧ s.Entry fd k conn b ∧ s' = s.closed fd conn.uuid b := by
  rcases Option.bind_eq_some_iff.1 hexec with ⟨b, hepoll, hclose⟩
  rcases hR.watched hepoll with ⟨k, htable⟩
  rcases hR.entry htable with ⟨conn, b', hE⟩
  cases hepoll.symm.trans hE.epoll_eq
  rw [hE.close_eq] at hclose
  exact ⟨k, conn, b, htable, hE, (Option.some.inj hclose).symm⟩

end Close

/-! ## Runs -/

/-- The step lemma. -/
theorem Registered.step (hR : s.Registered) {e : RegistryEvent} {s' : Server}
    (henabled : s.enabled e = true) (hapart : s.apart e = true) (hexec : s.exec e = some s') :
    s'.Registered := by
  cases e with
  | accept fd peer urandom fdNode infoNode =>
      rcases s.clientUuid_fresh hapart with ⟨uuid, huuid, hfresh⟩
      -- what the table holds belongs to an open connection
      have hinfo : s.cliInfoHash.get uuid = none := by
        by_contra hbound
        rcases hR.infoOwned hbound with ⟨k, hk⟩
        exact hfresh k hk
      simp only [exec, ucIpcServerAcceptClient_eq huuid hinfo, Option.map_some] at hexec
      cases hexec
      exact hR.accepted (of_decide_eq_true henabled) hfresh
  | close fd =>
      rcases hR.exec_close hexec with ⟨k, conn, b, htable, hE, hs'⟩
      rw [hs']
      exact hR.closed htable hE

theorem Registered.leavesOthers (hR : s.Registered) : s.LeavesOthers := by
  intro fd s' hexec fd' k' conn' hne htable' hconn'
  rcases hR.exec_close hexec with ⟨k, conn, b, htable, hE, hs'⟩
  rcases hR.entry htable' with ⟨conn'', b', hE'⟩
  cases hconn'.symm.trans hE'.conn_eq
  -- before and after the close the entries are what `Entry` says
  have hkept := hE.closed hE' hne
  rw [hs', hkept.fdOf, hkept.infoOf, hE'.fdOf, hE'.infoOf]
  exact ⟨(Function.update_of_ne hne _ _).trans htable', rfl, rfl⟩

/-- In every run in which each accept is apart from the clients that are connected, no two connected
clients share a uuid, the tables lead from each uuid to the client's own descriptor and structure,
and a close leaves the entries of the others in place. -/
theorem ucIpcServer_registry {events : List RegistryEvent} {s : Server}
    (hrun : (machine.restrict apart).Run ofInit events s) : s.Registry ∧ s.LeavesOthers := by
  have hR : s.Registered := by
    refine hrun.invariant ofInit_registered ?_ (fun _ _ => trivial : ∀ e ∈ events, True)
    intro s₁ s₂ e hR _ henabled hexec
    rcases (Bool.and_eq_true _ _).mp henabled with ⟨henabled', hapart⟩
    exact hR.step henabled' hapart hexec
  exact ⟨hR.registry, hR.leavesOthers⟩

/-- Peers on one port: 127.0.0.1 and 127.0.0.2, in network byte order, both from port 256. -/
def loopback (host : UInt8) : SockAddr where
  sAddr := 0x7f + 0x1000000 * host.toUInt32
  sinPort := 1

/-- Three clients, the second of them without a random number, and the first one closed. -/
theorem ucIpcServer_registry_mixed :
    ∃ s : Server, (machine.restrict apart).Run ofInit
        [.accept 5 (loopback 1) (some 77) (nodeAt 16) (nodeAt 32),
          .accept 6 (loopback 1) none (nodeAt 48) (nodeAt 64), .close 5,
          .accept 5 (loopback 2) (some 77) (nodeAt 16) (nodeAt 32)] s ∧
      s.Registry ∧ s.LeavesOthers := by
  have hplay : ((machine.restrict apart).play ofInit
      [.accept 5 (loopback 1) (some 77) (nodeAt 16) (nodeAt 32),
        .accept 6 (loopback 1) none (nodeAt 48) (nodeAt 64), .close 5,
        .accept 5 (loopback 2) (some 77) (nodeAt 16) (nodeAt 32)]).any (fun _ => true) =
          true := by
    decide +kernel
  rcases Machine.exists_run_of_play hplay with ⟨s, hrun, _⟩
  exact ⟨s, hrun, ucIpcServer_registry hrun⟩

/-- Two clients from different addresses, both without a random number, get the uuid `0xfe0000`.
The entry of the first then leads to the descriptor of the second, and its structure is freed. -/
theorem ucIpcServer_registry_shared :
    ∃ s : Server, machine.Run ofInit
        [.accept 5 (loopback 1) none (nodeAt 16) (nodeAt 32),
          .accept 6 (loopback 2) none (nodeAt 48) (nodeAt 64)] s ∧
      s.openUuid 0 = some 0xfe0000 ∧ s.openUuid 1 = some 0xfe0000 ∧
        s.cliFdHash.get 0xfe0000 = some (some 6) ∧ s.epoll 5 = some 0 ∧ s.clis 0 = none ∧
          ¬ s.Registry := by
  have hplay : (machine.play ofInit
      [.accept 5 (loopback 1) none (nodeAt 16) (nodeAt 32),
        .accept 6 (loopback 2) none (nodeAt 48) (nodeAt 64)]).any (fun s =>
          s.openUuid 0 = some 0xfe0000 && (s.openUuid 1 = some 0xfe0000 &&
            (s.cliFdHash.get 0xfe0000 = some (some 6) && (s.epoll 5 = some 0 &&
              (s.clis 0 = none && (s.table 5 = some 0 && s.table 6 = some 1)))))) = true := by
    decide +kernel
  rcases Machine.exists_run_of_play hplay with ⟨s, hrun, htest⟩
  simp only [Bool.and_eq_true, decide_eq_true_eq] at htest
  rcases htest with ⟨hfirst, hsecond, hfd, hepoll, hcli, htable, htable'⟩
  refine ⟨s, hrun, hfirst, hsecond, hfd, hepoll, hcli, ?_⟩
  intro hR
  rcases openUuid_eq.1 hfirst with ⟨conn, hconn, _, huuid⟩
  rcases openUuid_eq.1 hsecond with ⟨conn', hconn', _, huuid'⟩
  exact hR.distinct 5 6 0 1 conn conn' htable hconn htable' hconn' (by decide)
    (huuid.trans huuid'.symm)

end Server
end Ipc
end UtilsC
