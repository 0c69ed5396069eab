import UtilsC.Ipc.Registry

/-!
# Where a reply goes

The callback thread answers a request long after the receive thread has read it.  By then the client
may be gone, and its descriptor may have been given to another client.

* `ServerIo` is the server with its receive thread somewhere in an accept or a close, and with the
  requests that may still be answered.
* A section under `cli_fd_mutex` is one step; `send` is the section of `uc_ipc_server_send_msg`.
* `Bound` is the invariant: a descriptor in `cli_fd_hash` stands for the connection that was
  accepted under its key.
-/

namespace UtilsC
namespace Ipc

open Lib Hash

/-- Where the receive thread stands. -/
inductive RcvPc
  | idle
  /-- in front of the section that inserts in `cli_fd_hash` -/
  | accepted (fd b : Nat)
  /-- in front of `uc_hash_insert` on `cli_info_hash` -/
  | mapped (b : Nat)
  /-- behind the section of `uc_ipc_server_close_cli` -/
  | unmapped (b : Nat) (uuid : UInt64)
  /-- the socket is closed -/
  | closed (fd : Int) (uuid : UInt64)

/-- A message read from a connection, with the uuid that `pipe_msg` keeps. -/
structure Request where
  conn : Nat
  uuid : UInt64

/-- A frame written for a request, and the connection its descriptor stood for. -/
structure Written where
  request : Request
  target : Option Nat

/-- `written` records the frames written so far; the code keeps no such list. -/
structure ServerIo where
  server : Server
  rcv : RcvPc
  requests : List Request
  written : List Written

inductive DeliveryEvent
  | accept (fd : Nat) (peer : SockAddr) (urandom : Option UInt64) (setUp : SetUp)
  | mapFd (malloc : Option NodeBlock)
  | mapInfo (malloc : Option NodeBlock)
  /-- `uc_ipc_server_close_cli` for the client of a descriptor, and its three parts -/
  | unmap (fd : Nat)
  | closeFd
  | closeInfo
  /-- a message of the client of a descriptor is complete -/
  | request (fd : Nat)
  | send (r : Nat)

/-- The connection a descriptor stands for. -/
def Server.connOf (s : Server) (fd : Int) : Option Nat :=
  if 0 ≤ fd then s.table fd.toNat else none

namespace ServerIo

variable (s : ServerIo)

def exec : DeliveryEvent → Option ServerIo
  | .accept fd peer urandom setUp =>
      (s.server.acceptOpen fd peer urandom setUp).map fun r =>
        match r.1 with
        | .error _ => { s with server := r.2 }
        | .ok b => { s with server := r.2, rcv := .accepted fd b }
  | .mapFd malloc =>
      match s.rcv with
      | .accepted fd b =>
          (s.server.acceptMap malloc fd b).map fun server =>
            { s with server := server, rcv := .mapped b }
      | _ => none
  | .mapInfo malloc =>
      match s.rcv with
      | .mapped b =>
          (s.server.acceptInfo malloc b).map fun r => { s with server := r.2, rcv := .idle }
      | _ => none
  | .unmap fd =>
      (s.server.epoll fd).bind fun b =>
        (s.server.closeUnmap b).map fun r => { s with server := r.2, rcv := .unmapped b r.1 }
  | .closeFd =>
      match s.rcv with
      | .unmapped b uuid =>
          (s.server.closeFd b).map fun r => { s with server := r.2, rcv := .closed r.1 uuid }
      | _ => none
  | .closeInfo =>
      match s.rcv with
      | .closed fd uuid => some { s with server := s.server.closeInfo fd uuid, rcv := .idle }
      | _ => none
  | .request fd =>
      (s.server.epoll fd).bind fun b =>
        (s.server.clis b).bind fun cli =>
          -- the message has come over the connection that the descriptor stands for now
          (s.server.connOf cli.fd).map fun conn =>
            { s with requests := s.requests ++ [{ conn := conn, uuid := cli.uuid }] }
  | .send r =>
      (s.requests[r]?).bind fun request =>
        (s.server.ucIpcServerSendMsg request.uuid).map fun target =>
          -- the reply to a client that has gone is not written
          match target with
          | none => s
          | some fd =>
              { s with
                written := s.written ++ [{ request := request, target := s.server.connOf fd }] }

def isIdle : Bool :=
  match s.rcv with
  | .idle => true
  | _ => false

/-- A connection gets a descriptor that is not in use. -/
def enabled : DeliveryEvent → Bool
  | .accept fd _ _ _ => s.isIdle && s.server.table fd = none
  | .mapFd _ =>
      match s.rcv with
      | .accepted _ _ => true
      | _ => false
  | .mapInfo _ =>
      match s.rcv with
      | .mapped _ => true
      | _ => false
  | .unmap fd => s.isIdle && (s.server.epoll fd).isSome
  | .closeFd =>
      match s.rcv with
      | .unmapped _ _ => true
      | _ => false
  | .closeInfo =>
      match s.rcv with
      | .closed _ _ => true
      | _ => false
  | .request fd => s.isIdle && (s.server.epoll fd).isSome
  | .send r => decide (r < s.requests.length)

def machine : Machine ServerIo DeliveryEvent :=
  { enabled := enabled, exec := exec }

def ofInit : ServerIo where
  server := Server.ofInit
  rcv := .idle
  requests := []
  written := []

/-- A new client gets a uuid that no client had before it. -/
def distinctUuids : DeliveryEvent → Bool
  | .accept _ peer urandom _ =>
      s.server.conns.all fun conn => clientUuid peer urandom ≠ some conn.uuid
  | _ => true

end ServerIo

/-! ## The invariant of the tables -/

namespace Server

variable (s : Server)

/-- The descriptor stands for the connection accepted under the uuid. -/
def Owns (fd : Int) (uuid : UInt64) : Prop :=
  ∃ (n k : Nat) (conn : Conn), fd = n ∧ s.table n = some k ∧ s.conns[k]? = some conn ∧
    conn.uuid = uuid

structure Bound : Prop where
  distinct : ∀ {k k' : Nat} {conn conn' : Conn}, s.conns[k]? = some conn →
    s.conns[k']? = some conn' → conn.uuid = conn'.uuid → k = k'
  mapped : ∀ {uuid : UInt64} {v : Option Int}, s.cliFdHash.get uuid = some v →
    ∃ fd, v = some fd ∧ s.Owns fd uuid
  cli : ∀ {b : Nat} {cli : Cli}, s.clis b = some cli → cli.fd = -1 ∨ s.Owns cli.fd cli.uuid
  inj : ∀ {b b' : Nat} {cli cli' : Cli}, s.clis b = some cli → s.clis b' = some cli' →
    cli.fd = cli'.fd → cli.fd ≠ -1 → b = b'
  block : ∀ {b : Nat} {cli : Cli}, s.clis b = some cli → b < s.blocks

theorem ofInit_bound : ofInit.Bound := by
  constructor <;> simp [ofInit]

variable {s}

theorem Owns.uuid_unique {fd : Int} {uuid uuid' : UInt64} (h : s.Owns fd uuid)
    (h' : s.Owns fd uuid') : uuid = uuid' := by
  rcases h with ⟨n, k, conn, hfd, htable, hconn, huuid⟩
  rcases h' with ⟨n', k', conn', hfd', htable', hconn', huuid'⟩
  cases Int.ofNat.inj (hfd.symm.trans hfd')
  cases htable.symm.trans htable'
  cases hconn.symm.trans hconn'
  exact huuid.symm.trans huuid'

theorem Owns.connOf {fd : Int} {uuid : UInt64} (h : s.Owns fd uuid) :
    ∃ k conn, s.connOf fd = some k ∧ s.conns[k]? = some conn ∧ conn.uuid = uuid := by
  rcases h with ⟨n, k, conn, rfl, htable, hconn, huuid⟩
  refine ⟨k, conn, ?_, hconn, huuid⟩
  simp [Server.connOf, htable]

/-! ## What the pieces keep -/

/-- Structures and entries may go. -/
theorem Bound.restrict (hB : s.Bound) {t : Server} (htable : t.table = s.table)
    (hconns : t.conns = s.conns) (hblocks : s.blocks ≤ t.blocks)
    (hclis : ∀ {b cli}, t.clis b = some cli → s.clis b = some cli)
    (hget : ∀ {uuid v}, t.cliFdHash.get uuid = some v → s.cliFdHash.get uuid = some v) :
    t.Bound := by
  have howns : ∀ {fd uuid}, s.Owns fd uuid → t.Owns fd uuid := by
    intro fd uuid h
    unfold Owns at h ⊢
    rw [htable, hconns]
    exact h
  constructor
  · intro k k' conn conn' h h'
    rw [hconns] at h h'
    exact hB.distinct h h'
  · intro uuid v h
    rcases hB.mapped (hget h) with ⟨fd, hv, hfd⟩
    exact ⟨fd, hv, howns hfd⟩
  · intro b cli h
    rcases hB.cli (hclis h) with hgone | hfd
    · exact Or.inl hgone
    · exact Or.inr (howns hfd)
  · intro b b' cli cli' h h'
    exact hB.inj (hclis h) (hclis h')
  · intro b cli h
    exact Nat.lt_of_lt_of_le (hB.block (hclis h)) hblocks

/-- A descriptor that is not in use stands for nothing. -/
theorem Owns.ne_free {fd : Int} {uuid : UInt64} {n : Nat} (h : s.Owns fd uuid)
    (hfree : s.table n = none) : fd ≠ n := by
  rintro rfl
  rcases h with ⟨n', k, conn, hfd, htable, _⟩
  cases Int.ofNat.inj hfd
  rw [hfree] at htable
  cases htable

/-- The structure of a new client, with the descriptor and the uuid it is entered under. -/
def HasCli (s : Server) (fd b : Nat) : Prop :=
  ∃ cli, s.clis b = some cli ∧ cli.fd = fd ∧ s.Owns fd cli.uuid

/-- The server with a new connection that is watched but in no table yet. -/
theorem Bound.opened (hB : s.Bound) {fd : Nat} {peer : SockAddr} {uuid : UInt64}
    (hfree : s.table fd = none) (hfresh : ∀ conn ∈ s.conns, conn.uuid ≠ uuid)
    {t : Server} (htable : t.table = Function.update s.table fd (some s.conns.length))
    (hconns : t.conns = s.conns ++ [{ fd := fd, peer := peer, uuid := uuid }])
    (hclis : t.clis =
      Function.update s.clis s.blocks (some { fd := fd, addr := peer, uuid := uuid }))
    (hblocks : t.blocks = s.blocks + 1) (hget : t.cliFdHash = s.cliFdHash) :
    t.Bound ∧ t.HasCli fd s.blocks := by
  have hold : ∀ {k : Nat} {conn : Conn}, s.conns[k]? = some conn → t.conns[k]? = some conn := by
    intro k conn h
    rw [hconns, List.getElem?_append_left (List.getElem?_eq_some_iff.1 h).1]
    exact h
  have hnew : t.conns[s.conns.length]? = some { fd := fd, peer := peer, uuid := uuid } := by
    rw [hconns]
    exact List.getElem?_concat_length
  have hcases : ∀ {k : Nat} {conn : Conn}, t.conns[k]? = some conn →
      s.conns[k]? = some conn ∨ (k = s.conns.length ∧ conn.uuid = uuid) := by
    intro k conn h
    rw [hconns, List.getElem?_append] at h
    split at h
    · exact Or.inl h
    · rename_i hlt
      rw [List.getElem?_singleton] at h
      split at h
      · cases h
        exact Or.inr ⟨by omega, rfl⟩
      · cases h
  have howns : ∀ {fd' : Int} {uuid' : UInt64}, s.Owns fd' uuid' → t.Owns fd' uuid' := by
    intro fd' uuid' h
    have hne := h.ne_free hfree
    rcases h with ⟨n, k, conn, hfd', htable', hconn, huuid⟩
    -- the new descriptor was free, so no older entry leads to it
    have hn : n ≠ fd := by
      rintro rfl
      exact hne hfd'
    exact ⟨n, k, conn, hfd', by rw [htable, Function.update_of_ne hn, htable'], hold hconn, huuid⟩
  have hself : t.Owns fd uuid :=
    ⟨fd, s.conns.length, _, rfl, by rw [htable, Function.update_self], hnew, rfl⟩
  have hclisCases : ∀ {b : Nat} {cli : Cli}, t.clis b = some cli →
      (b = s.blocks ∧ cli = { fd := fd, addr := peer, uuid := uuid }) ∨ s.clis b = some cli := by
    intro b cli h
    rw [hclis] at h
    by_cases hb : b = s.blocks
    · rw [hb, Function.update_self] at h
      exact Or.inl ⟨hb, (Option.some.inj h).symm⟩
    · rw [Function.update_of_ne hb] at h
      exact Or.inr h
  -- no older structure has the new descriptor
  have hfdNe : ∀ {b : Nat} {cli : Cli}, s.clis b = some cli → cli.fd ≠ fd := by
    intro b cli h heq
    rcases hB.cli h with hgone | hown
    · omega
    · exact hown.ne_free hfree heq
  refine ⟨⟨?_, ?_, ?_, ?_, ?_⟩, ?_⟩
  · intro k k' conn conn' h h' huuid
    rcases hcases h with h | ⟨hk, hc⟩
    · rcases hcases h' with h' | ⟨_, hc'⟩
      · exact hB.distinct h h' huuid
      · exact absurd (huuid.trans hc') (hfresh conn (List.mem_of_getElem? h))
    · rcases hcases h' with h' | ⟨hk', _⟩
      · exact absurd (huuid.symm.trans hc) (hfresh conn' (List.mem_of_getElem? h'))
      · rw [hk, hk']
  · intro uuid' v h
    rw [hget] at h
    rcases hB.mapped h with ⟨fd', hv, hown⟩
    exact ⟨fd', hv, howns hown⟩
  · intro b cli h
    rcases hclisCases h with ⟨_, hcli⟩ | h
    · rw [hcli]
      exact Or.inr hself
    · rcases hB.cli h with hgone | hown
      · exact Or.inl hgone
      · exact Or.inr (howns hown)
  · intro b b' cli cli' h h' hfd hlive
    rcases hclisCases h with ⟨hb, hcli⟩ | h
    · rcases hclisCases h' with ⟨hb', _⟩ | h'
      · rw [hb, hb']
      · rw [hcli] at hfd
        exact absurd hfd.symm (hfdNe h')
    · rcases hclisCases h' with ⟨_, hcli'⟩ | h'
      · rw [hcli'] at hfd
        exact absurd hfd (hfdNe h)
      · exact hB.inj h h' hfd hlive
  · intro b cli h
    rw [hblocks]
    rcases hclisCases h with ⟨hb, _⟩ | h
    · omega
    · exact Nat.lt_succ_of_lt (hB.block h)
  · exact ⟨_, by rw [hclis, Function.update_self], rfl, hself⟩

theorem Bound.acceptOpen (hB : s.Bound) {fd : Nat} {peer : SockAddr} {urandom : Option UInt64}
    {setUp : SetUp} {r : Except Int Nat × Server} (hfree : s.table fd = none)
    (hfresh : ∀ conn ∈ s.conns, clientUuid peer urandom ≠ some conn.uuid)
    (h : s.acceptOpen fd peer urandom setUp = some r) :
    r.2.Bound ∧ (∀ b, r.1 = .ok b → r.2.HasCli fd b) ∧
      ∀ {k : Nat} {conn : Conn}, s.conns[k]? = some conn → r.2.conns[k]? = some conn := by
  have hblocks : ({ s with blocks := s.blocks + 1 } : Server).Bound :=
    hB.restrict rfl rfl (Nat.le_succ _) id id
  unfold Server.acceptOpen at h
  split at h
  · cases h
    exact ⟨hB, (fun b hb => by cases hb), id⟩
  · rcases Option.map_eq_some_iff.1 h with ⟨uuid, huuid, hr⟩
    have hnew : ∀ conn ∈ s.conns, conn.uuid ≠ uuid := by
      intro conn hconn heq
      exact hfresh conn hconn (heq ▸ huuid)
    cases setUp with
    | noCli =>
        rw [← hr]
        exact ⟨hB, (fun b hb => by cases hb), id⟩
    | noEpoll =>
        rw [← hr]
        exact ⟨hblocks, (fun b hb => by cases hb), id⟩
    | noFdMem =>
        rw [← hr]
        exact ⟨hblocks, (fun b hb => by cases hb), id⟩
    | ready =>
        have hopened : r.2.Bound ∧ r.2.HasCli fd s.blocks := by
          have hconns : r.2.conns = s.conns ++ [{ fd := fd, peer := peer, uuid := uuid }] := by
            rw [← hr]
          refine hB.opened hfree hnew ?_ hconns ?_ ?_ ?_ <;> rw [← hr]
        refine ⟨hopened.1, ?_, ?_⟩
        · intro b hb
          rw [← hr] at hb
          cases hb
          exact hopened.2
        · intro k conn hconn
          rw [← hr]
          exact (List.getElem?_append_left (List.getElem?_eq_some_iff.1 hconn).1).trans hconn

theorem Bound.acceptMap (hB : s.Bound) {fd b : Nat} {malloc : Option NodeBlock}
    (hcli : s.HasCli fd b) {t : Server} (h : s.acceptMap malloc fd b = some t) : t.Bound := by
  rcases Option.map_eq_some_iff.1 h with ⟨cli, hlive, rfl⟩
  rcases hcli with ⟨cli', hlive', _, howns⟩
  cases hlive.symm.trans hlive'
  refine ⟨hB.distinct, ?_, hB.cli, hB.inj, hB.block⟩
  intro uuid v hget
  rw [U64Table.get_insert] at hget
  split at hget
  · split at hget
    · -- the entry that was inserted is for the client's own descriptor
      rename_i heq
      exact ⟨fd, (Option.some.inj hget).symm, heq ▸ howns⟩
    · exact hB.mapped hget
  · exact hB.mapped hget

theorem freeClis_some {bs : List Nat} {b : Nat} {cli : Cli}
    (h : (s.freeClis bs).clis b = some cli) : s.clis b = some cli := by
  have h' : (if b ∈ bs then none else s.clis b) = some cli := h
  split at h'
  · cases h'
  · exact h'

theorem Bound.acceptInfo (hB : s.Bound) {b : Nat} {malloc : Option NodeBlock} {r : Int × Server}
    (h : s.acceptInfo malloc b = some r) : r.2.Bound := by
  rcases Option.map_eq_some_iff.1 h with ⟨cli, _, rfl⟩
  exact hB.restrict rfl rfl (Nat.le_refl _) freeClis_some id

theorem Bound.closeUnmap (hB : s.Bound) {b : Nat} {r : UInt64 × Server}
    (h : s.closeUnmap b = some r) : r.2.Bound ∧ r.2.cliFdHash.get r.1 = none ∧
      ∃ cli, r.2.clis b = some cli ∧ cli.uuid = r.1 := by
  rcases Option.map_eq_some_iff.1 h with ⟨cli, hcli, rfl⟩
  refine ⟨hB.restrict rfl rfl (Nat.le_refl _) id ?_, ?_, cli, hcli, rfl⟩
  · intro uuid v hget
    rw [U64Table.get_delete] at hget
    split at hget
    · cases hget
    · exact hget
  · rw [U64Table.get_delete, if_pos rfl]

section CloseSocket

variable {fd : Int}

@[simp] theorem closeSocket_conns : (s.closeSocket fd).conns = s.conns := by
  unfold closeSocket
  split <;> rfl

@[simp] theorem closeSocket_blocks : (s.closeSocket fd).blocks = s.blocks := by
  unfold closeSocket
  split <;> rfl

@[simp] theorem closeSocket_cliFdHash : (s.closeSocket fd).cliFdHash = s.cliFdHash := by
  unfold closeSocket
  split <;> rfl

/-- Closing one descriptor leaves the others. -/
theorem Owns.closeSocket {fd' : Int} {uuid : UInt64} (h : s.Owns fd' uuid) (hne : fd' ≠ fd) :
    (s.closeSocket fd).Owns fd' uuid := by
  rcases h with ⟨n, k, conn, hfd', htable, hconn, huuid⟩
  refine ⟨n, k, conn, hfd', ?_, closeSocket_conns.symm ▸ hconn, huuid⟩
  unfold Server.closeSocket
  split
  · rename_i hpos
    -- only the number that is closed changes its meaning
    have hn : n ≠ fd.toNat := by
      intro heq
      exact hne (by omega)
    exact (Function.update_of_ne hn _ _).trans htable
  · exact htable

end CloseSocket

/-- The socket of a client that is in `cli_fd_hash` no longer may be closed. -/
theorem Bound.closeFd (hB : s.Bound) {b : Nat} {cli : Cli} (hcli : s.clis b = some cli)
    (hunmapped : s.cliFdHash.get cli.uuid = none) {r : Int × Server} (h : s.closeFd b = some r) :
    r.2.Bound := by
  rcases Option.map_eq_some_iff.1 h with ⟨cli', hcli', rfl⟩
  cases hcli.symm.trans hcli'
  have hcleared : ∀ {b' : Nat} {cli' : Cli}, Function.update s.clis b
      (some { fd := -1, addr := { sAddr := 0, sinPort := 0 }, uuid := 0 }) b' = some cli' →
        cli'.fd = -1 ∨ (b' ≠ b ∧ s.clis b' = some cli') := by
    intro b' cli' h
    by_cases hb : b' = b
    · rw [hb, Function.update_self] at h
      cases h
      exact Or.inl rfl
    · rw [Function.update_of_ne hb] at h
      exact Or.inr ⟨hb, h⟩
  constructor
  · intro k k' conn conn' h h'
    exact hB.distinct (closeSocket_conns ▸ h) (closeSocket_conns ▸ h')
  · intro uuid v h
    have h' : s.cliFdHash.get uuid = some v := closeSocket_cliFdHash ▸ h
    rcases hB.mapped h' with ⟨fd', hv, howns⟩
    refine ⟨fd', hv, howns.closeSocket ?_⟩
    -- the only key that may lead to the descriptor is the one that was removed
    rintro rfl
    rcases hB.cli hcli with hgone | hown
    · rcases howns with ⟨n, _, _, hfd', _⟩
      omega
    · rw [howns.uuid_unique hown, hunmapped] at h'
      cases h'
  · intro b' cli' h
    rcases hcleared h with hgone | ⟨hb, hlive⟩
    · exact Or.inl hgone
    · rcases hB.cli hlive with hgone | hown
      · exact Or.inl hgone
      · refine Or.inr (hown.closeSocket ?_)
        intro heq
        -- another structure with this descriptor would be the same one
        refine hb (hB.inj hlive hcli heq ?_)
        rcases hown with ⟨n, _, _, hfd', _⟩
        omega
  · intro b₁ b₂ cli₁ cli₂ h₁ h₂ hfd hlive
    rcases hcleared h₁ with hgone | ⟨_, hlive₁⟩
    · exact absurd hgone hlive
    · rcases hcleared h₂ with hgone | ⟨_, hlive₂⟩
      · exact absurd (hfd.trans hgone) hlive
      · exact hB.inj hlive₁ hlive₂ hfd hlive
  · intro b' cli' h
    have hlt : b' < s.blocks := by
      by_cases hb : b' = b
      · exact hb ▸ hB.block hcli
      · have h' : Function.update s.clis b _ b' = some cli' := h
        rw [Function.update_of_ne hb] at h'
        exact hB.block h'
    exact closeSocket_blocks.symm ▸ hlt

theorem Bound.closeInfo (hB : s.Bound) (fd : Int) (uuid : UInt64) :
    (s.closeInfo fd uuid).Bound :=
  hB.restrict rfl rfl (Nat.le_refl _) freeClis_some id

end Server

/-! ## The invariant of the server -/

namespace ServerIo

/-- What the receive thread relies on where it stands. -/
def Stands (server : Server) : RcvPc → Prop
  | .accepted fd b => server.HasCli fd b
  | .unmapped b uuid =>
      server.cliFdHash.get uuid = none ∧ ∃ cli, server.clis b = some cli ∧ cli.uuid = uuid
  | _ => True

/-- The request came over the connection that was accepted under its uuid. -/
def FromConn (server : Server) (request : Request) : Prop :=
  ∃ conn, server.conns[request.conn]? = some conn ∧ conn.uuid = request.uuid

/-- A frame went to the connection of its request. -/
def Home (server : Server) (w : Written) : Prop :=
  w.target = some w.request.conn ∧ FromConn server w.request

structure Safe (s : ServerIo) : Prop where
  bound : s.server.Bound
  stands : Stands s.server s.rcv
  requests : ∀ request ∈ s.requests, FromConn s.server request
  written : ∀ w ∈ s.written, Home s.server w

theorem ofInit_safe : ofInit.Safe where
  bound := Server.ofInit_bound
  stands := trivial
  requests := by simp [ofInit]
  written := by simp [ofInit]

variable {s : ServerIo}

/-- A step of the receive thread; the connections there were are still known. -/
theorem Safe.advance (hS : s.Safe) {server : Server} {rcv : RcvPc} (hbound : server.Bound)
    (hstands : Stands server rcv)
    (hconns : ∀ {k : Nat} {conn : Conn}, s.server.conns[k]? = some conn →
      server.conns[k]? = some conn) :
    ({ s with server := server, rcv := rcv } : ServerIo).Safe := by
  have hfrom : ∀ {request}, FromConn s.server request → FromConn server request := by
    rintro request ⟨conn, hconn, huuid⟩
    exact ⟨conn, hconns hconn, huuid⟩
  refine ⟨hbound, hstands, ?_, ?_⟩
  · intro request hmem
    exact hfrom (hS.requests request hmem)
  · intro w hmem
    exact ⟨(hS.written w hmem).1, hfrom (hS.written w hmem).2⟩

/-- The descriptor that a section of `uc_ipc_server_send_msg` finds stands for the connection of the
request. -/
theorem Safe.home (hS : s.Safe) {request : Request} (hmem : request ∈ s.requests) {fd : Int}
    (h : s.server.ucIpcServerSendMsg request.uuid = some (some fd)) :
    Home s.server { request := request, target := s.server.connOf fd } := by
  rcases hS.requests request hmem with ⟨conn, hconn, huuid⟩
  refine ⟨?_, conn, hconn, huuid⟩
  simp only [Server.ucIpcServerSendMsg, U64Table.findVal_eq_get] at h
  split at h
  · cases h
  · cases h
  · rename_i fd' hget
    cases h
    -- the descriptor stands for the one connection that was accepted under this uuid
    rcases hS.bound.mapped hget with ⟨fd', hfd', howns⟩
    cases hfd'
    rcases howns.connOf with ⟨k, conn', hk, hconn', huuid'⟩
    have hsame := hS.bound.distinct hconn' hconn (huuid'.trans huuid.symm)
    rw [hk, hsame]

/-- The step lemma. -/
theorem Safe.step (hS : s.Safe) {e : DeliveryEvent} {s' : ServerIo} (henabled : s.enabled e = true)
    (hdistinct : s.distinctUuids e = true) (hexec : s.exec e = some s') : s'.Safe := by
  cases e with
  | accept fd peer urandom setUp =>
      rcases (Bool.and_eq_true _ _).mp henabled with ⟨hidle, hfree⟩
      rcases Option.map_eq_some_iff.1 hexec with ⟨⟨result, server⟩, hopen, hs'⟩
      have hfresh : ∀ conn ∈ s.server.conns, clientUuid peer urandom ≠ some conn.uuid :=
        fun conn hmem => of_decide_eq_true (List.all_eq_true.1 hdistinct conn hmem)
      rcases hS.bound.acceptOpen (of_decide_eq_true hfree) hfresh hopen with ⟨hbound, hcli, hconns⟩
      cases result with
      | error ret =>
          cases hs'
          refine hS.advance hbound ?_ hconns
          -- a failed accept leaves the thread where it was
          unfold isIdle at hidle
          split at hidle
          · rename_i hpc
            rw [hpc]
            trivial
          · cases hidle
      | ok b =>
          cases hs'
          exact hS.advance hbound (hcli b rfl) hconns
  | mapFd malloc =>
      simp only [exec] at hexec
      split at hexec
      · rename_i fd b hpc
        rcases Option.map_eq_some_iff.1 hexec with ⟨server, hmap, hs'⟩
        have hcli : s.server.HasCli fd b := by
          have hstands := hS.stands
          rw [hpc] at hstands
          exact hstands
        cases hs'
        refine hS.advance (hS.bound.acceptMap hcli hmap) trivial ?_
        rcases Option.map_eq_some_iff.1 hmap with ⟨cli, _, rfl⟩
        exact id
      · cases hexec
  | mapInfo malloc =>
      simp only [exec] at hexec
      split at hexec
      · rcases Option.map_eq_some_iff.1 hexec with ⟨r, hinfo, hs'⟩
        cases hs'
        refine hS.advance (hS.bound.acceptInfo hinfo) trivial ?_
        rcases Option.map_eq_some_iff.1 hinfo with ⟨cli, _, rfl⟩
        exact id
      · cases hexec
  | unmap fd =>
      rcases Option.bind_eq_some_iff.1 hexec with ⟨b, _, hrest⟩
      rcases Option.map_eq_some_iff.1 hrest with ⟨r, hunmap, hs'⟩
      rcases hS.bound.closeUnmap hunmap with ⟨hbound, hgone, hcli⟩
      cases hs'
      refine hS.advance hbound ⟨hgone, hcli⟩ ?_
      rcases Option.map_eq_some_iff.1 hunmap with ⟨cli, _, rfl⟩
      exact id
  | closeFd =>
      simp only [exec] at hexec
      split at hexec
      · rename_i b uuid hpc
        rcases Option.map_eq_some_iff.1 hexec with ⟨r, hclose, hs'⟩
        have hstands := hS.stands
        rw [hpc] at hstands
        rcases hstands with ⟨hgone, cli, hcli, huuid⟩
        cases hs'
        -- the uuid left `cli_fd_hash` in the section before, and only this thread inserts
        refine hS.advance (hS.bound.closeFd hcli (huuid.symm ▸ hgone) hclose) trivial ?_
        rcases Option.map_eq_some_iff.1 hclose with ⟨cli', _, rfl⟩
        intro k conn hconn
        exact Server.closeSocket_conns.symm ▸ hconn
      · cases hexec
  | closeInfo =>
      simp only [exec] at hexec
      split at hexec
      · cases hexec
        exact hS.advance (hS.bound.closeInfo _ _) trivial id
      · cases hexec
  | request fd =>
      rcases Option.bind_eq_some_iff.1 hexec with ⟨b, _, hrest⟩
      rcases Option.bind_eq_some_iff.1 hrest with ⟨cli, hcli, hrest⟩
      rcases Option.map_eq_some_iff.1 hrest with ⟨k, hk, hs'⟩
      cases hs'
      refine ⟨hS.bound, hS.stands, ?_, hS.written⟩
      intro request hmem
      rcases List.mem_append.1 hmem with hold | hnew
      · exact hS.requests request hold
      · rw [List.mem_singleton.1 hnew]
        -- the structure of a watched descriptor is not cleared
        rcases hS.bound.cli hcli with hgone | howns
        · rw [hgone] at hk
          cases hk
        · rcases howns.connOf with ⟨k', conn, hk', hconn, huuid⟩
          cases hk.symm.trans hk'
          exact ⟨conn, hconn, huuid⟩
  | send r =>
      rcases Option.bind_eq_some_iff.1 hexec with ⟨request, hrequest, hrest⟩
      rcases Option.map_eq_some_iff.1 hrest with ⟨target, htarget, hs'⟩
      cases target with
      | none =>
          cases hs'
          exact hS
      | some fd =>
          cases hs'
          refine ⟨hS.bound, hS.stands, hS.requests, ?_⟩
          intro w hmem
          rcases List.mem_append.1 hmem with hold | hnew
          · exact hS.written w hold
          · rw [List.mem_singleton.1 hnew]
            exact hS.home (List.mem_of_getElem? hrequest) htarget

/-- In every run in which no two clients ever have the same uuid, each frame that
`uc_ipc_server_send_msg` writes for a request goes to the open connection that was accepted under
the uuid of the request. -/
theorem ucIpcServerSendMsg_home {events : List DeliveryEvent} {s : ServerIo}
    (hrun : (machine.restrict distinctUuids).Run ofInit events s) :
    ∀ w ∈ s.written, w.target = some w.request.conn ∧
      ∃ conn, s.server.conns[w.request.conn]? = some conn ∧ conn.uuid = w.request.uuid := by
  have hS : s.Safe := by
    refine hrun.invariant ofInit_safe ?_ (fun _ _ => trivial : ∀ e ∈ events, True)
    intro s₁ s₂ e hS _ henabled hexec
    rcases (Bool.and_eq_true _ _).mp henabled with ⟨henabled', hdistinct⟩
    exact hS.step henabled' hdistinct hexec
  exact hS.written

/-- A client with two requests leaves before the second is answered, and another client gets its
descriptor.  The first reply was written, the second is not. -/
def reusedFd : List DeliveryEvent :=
  [.accept 5 { sAddr := 0x100007f, sinPort := 1 } (some 77) .ready, .mapFd (some (nodeAt 16)),
    .mapInfo (some (nodeAt 32)), .request 5, .request 5, .send 0, .unmap 5, .closeFd, .closeInfo,
    .accept 5 { sAddr := 0x200007f, sinPort := 1 } (some 78) .ready, .mapFd (some (nodeAt 16)),
    .mapInfo (some (nodeAt 32)), .send 1]

theorem ucIpcServerSendMsg_home_reused :
    ∃ s : ServerIo, (machine.restrict distinctUuids).Run ofInit reusedFd s ∧
      s.written.length = 1 ∧
      ∀ w ∈ s.written, w.target = some w.request.conn ∧
        ∃ conn, s.server.conns[w.request.conn]? = some conn ∧ conn.uuid = w.request.uuid := by
  have hplay : ((machine.restrict distinctUuids).play ofInit reusedFd).any
      (fun s => decide (s.written.length = 1)) = true := by
    decide +kernel
  rcases Machine.exists_run_of_play hplay with ⟨s, hrun, hlength⟩
  exact ⟨s, hrun, of_decide_eq_true hlength, ucIpcServerSendMsg_home hrun⟩

end ServerIo

end Ipc
end UtilsC
