import UtilsC.Lib.Machine
import UtilsC.Hash.U64Table
import UtilsC.Ipc.Proto

/-!
# The clients of a server

The server knows a client under a 64-bit number, its uuid.  `cli_fd_hash` maps the uuid to the
descriptor and is shared with the callback thread, `cli_info_hash` maps it to the client's
structure and belongs to the receive thread.

* The kernel is part of the state: `table` says which connection a descriptor stands for, `epoll`
  which structure an event on it carries.  A number that was closed may be given out again.
* `uc_ipc_server_accept_client` and `uc_ipc_server_close_cli` are cut where they touch what other
  threads see; the whole functions are the composition of the pieces.
* `fallbackUuid` is the uuid of a client whose `uc_urandom` has failed.
-/

namespace UtilsC
namespace Ipc

open Lib Hash

/-- The fields of `struct sockaddr_in` that are read, in network byte order. -/
structure SockAddr where
  sAddr : UInt32
  sinPort : UInt16
  deriving DecidableEq

/-- `uc_ipc_cli_t` without the fields of the reader. -/
structure Cli where
  fd : Int
  addr : SockAddr
  uuid : UInt64
  deriving DecidableEq

/-- A connection that was accepted: its descriptor, its peer and its uuid. -/
structure Conn where
  fd : Nat
  peer : SockAddr
  uuid : UInt64

/-- `conns` are the connections accepted so far, the open ones and the closed ones; a connection is
known by its place in this list.  `clis` are the live structures, by the number of their block. -/
structure Server where
  table : Nat → Option Nat
  epoll : Nat → Option Nat
  conns : List Conn
  clis : Nat → Option Cli
  blocks : Nat
  cliFdHash : U64Table Int
  cliInfoHash : U64Table Nat

/-- How the set-up of a new client goes up to the section under `cli_fd_mutex`. -/
inductive SetUp
  /-- `calloc` fails -/
  | noCli
  /-- `epoll_ctl` fails -/
  | noEpoll
  /-- `malloc` of the block for the descriptor fails -/
  | noFdMem
  | ready
  deriving DecidableEq

/-- `((uint32_t)cliAddr.sin_addr.s_addr) << 16 + cliAddr.sin_port`: the sum is the shift count, and
a shift of a 32-bit number by 32 or more is undefined. -/
def fallbackUuid (addr : SockAddr) : Option UInt64 :=
  if 16 + addr.sinPort.toNat < 32 then
    some (addr.sAddr <<< (16 + addr.sinPort.toNat).toUInt32).toUInt64
  else
    none

/-- The uuid of a new client; `urandom` is `none` when `uc_urandom` fails. -/
def clientUuid (addr : SockAddr) : Option UInt64 → Option UInt64
  | some uuid => some uuid
  | none => fallbackUuid addr

namespace Server

variable (s : Server)

/-- `close`. -/
def closeSocket (fd : Int) : Server :=
  if 0 ≤ fd then
    { s with
      table := Function.update s.table fd.toNat none
      epoll := Function.update s.epoll fd.toNat none }
  else
    s

def freeClis (bs : List Nat) : Server :=
  { s with clis := fun b => if b ∈ bs then none else s.clis b }

/-! ## Accepting a client -/

/-- `uc_ipc_server_accept_client` up to the section under `cli_fd_mutex`: the error it returns, or
the block of the client. -/
def acceptOpen (fd : Nat) (peer : SockAddr) (urandom : Option UInt64) (setUp : SetUp) :
    Option (Except Int Nat × Server) :=
  if setUp = .noCli then
    some (.error (-0x1d008be0), s)
  else
    (clientUuid peer urandom).map fun uuid =>
      let s' : Server := { s with blocks := s.blocks + 1 }
      match setUp with
      | .noCli => (.error (-0x1d008be0), s)
      | .noEpoll => (.error (-0x59f07af6), s')
      | .noFdMem => (.error (-0x70a1fdb5), s')
      | .ready =>
          (.ok s.blocks,
            { s' with
              table := Function.update s.table fd (some s.conns.length)
              epoll := Function.update s.epoll fd (some s.blocks)
              conns := s.conns ++ [{ fd := fd, peer := peer, uuid := uuid }]
              clis :=
                Function.update s.clis s.blocks
                  (some { fd := fd, addr := peer, uuid := uuid }) })

/-- The section that inserts the descriptor in `cli_fd_hash`; a failure is only printed. -/
def acceptMap (malloc : Option NodeBlock) (fd : Nat) (b : Nat) : Option Server :=
  (s.clis b).map fun cli =>
    { s with cliFdHash := (s.cliFdHash.insert malloc cli.uuid (some (fd : Int))).2.1 }

/-- The end of `uc_ipc_server_accept_client`. -/
def acceptInfo (malloc : Option NodeBlock) (b : Nat) : Option (Int × Server) :=
  (s.clis b).map fun cli =>
    let r := s.cliInfoHash.insert malloc cli.uuid (some b)
    (if r.1 ≠ 0 then -0x59b70e22 else 0, ({ s with cliInfoHash := r.2.1 }).freeClis r.2.2)

/-- `uc_ipc_server_accept_client` behind a successful `accept`. -/
def ucIpcServerAcceptClient (fd : Nat) (peer : SockAddr) (urandom : Option UInt64) (setUp : SetUp)
    (fdNode infoNode : Option NodeBlock) : Option (Int × Server) :=
  (s.acceptOpen fd peer urandom setUp).bind fun r =>
    match r.1 with
    | .error ret => some (ret, r.2)
    | .ok b => (r.2.acceptMap fdNode fd b).bind fun s' => s'.acceptInfo infoNode b

/-! ## Closing a client -/

/-- The section of `uc_ipc_server_close_cli`; it leaves the uuid it has read. -/
def closeUnmap (b : Nat) : Option (UInt64 × Server) :=
  (s.clis b).map fun cli =>
    (cli.uuid, { s with cliFdHash := (s.cliFdHash.delete cli.uuid).2.1 })

/-- The socket is closed and the structure cleared; it leaves the descriptor it has read. -/
def closeFd (b : Nat) : Option (Int × Server) :=
  (s.clis b).map fun cli =>
    let s' := s.closeSocket cli.fd
    (cli.fd,
      { s' with
        clis :=
          -- the uuid is cleared with the rest, so the caller has kept it
          Function.update s.clis b
            (some { fd := -1, addr := { sAddr := 0, sinPort := 0 }, uuid := 0 }) })

/-- The structure leaves `cli_info_hash`, which frees it, and the descriptor leaves the epoll
set. -/
def closeInfo (fd : Int) (uuid : UInt64) : Server :=
  let r := s.cliInfoHash.delete uuid
  ({ s with
    cliInfoHash := r.2.1
    epoll := if 0 ≤ fd then Function.update s.epoll fd.toNat none else s.epoll }).freeClis r.2.2

/-- `uc_ipc_server_close_cli`. -/
def ucIpcServerCloseCli (b : Nat) : Option Server :=
  (s.closeUnmap b).bind fun r =>
    (r.2.closeFd b).map fun r' => r'.2.closeInfo r'.1 r.1

/-! ## Sending to a client -/

/-- The section of `uc_ipc_server_send_msg`: the descriptor that the frame is written to, or nothing
when the uuid is unknown.  The value in the table is read through, so it must not be `NULL`. -/
def ucIpcServerSendMsg (uuid : UInt64) : Option (Option Int) :=
  match s.cliFdHash.findVal uuid with
  -- an unknown uuid is a client that has gone
  | none => some none
  | some none => none
  | some (some fd) => some (some fd)

/-- `UC_IPC_SERVER_CLIENT_MAP_SIZE`. -/
def ucIpcServerClientMapSize : Int := 4096

theorem ucIpcServerClientMapSize_ne_zero : (ucIpcServerClientMapSize % 2 ^ 64).toNat ≠ 0 := by
  decide

/-- A server as `uc_ipc_init_server` returns it. -/
def ofInit : Server where
  table := fun _ => none
  epoll := fun _ => none
  conns := []
  clis := fun _ => none
  blocks := 0
  cliFdHash := U64Table.create ucIpcServerClientMapSize ucIpcServerClientMapSize_ne_zero
  cliInfoHash := U64Table.create ucIpcServerClientMapSize ucIpcServerClientMapSize_ne_zero

end Server

end Ipc
end UtilsC
