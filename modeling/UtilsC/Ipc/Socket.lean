import UtilsC.Lib.Machine
import Mathlib.Logic.Function.Basic

/-!
# The socket of a client

`uc_ipc_client_send` copies the descriptor `hdl->io_sockfd` into the message it builds and takes
`io_mtx` afterwards, to write the message; `uc_ipc_client_reconnect` closes the socket, clears the
field and stores a new descriptor in sections of its own.

* A send is its two steps: `capture` reads the field, `write` is the section under `io_mtx`.
* The kernel's descriptor table is part of the state; a number that was closed may be given to
  anybody.
* `LiveWrite` is a write to the client's own socket.  `settled` leaves out the steps that lose it:
  a capture while there is no socket, and closing the socket between a capture and its write.
-/

namespace UtilsC
namespace Ipc

open Lib

/-- Who opened a descriptor: this client, or another part of the process. -/
inductive FdOwner
  | client
  | other
  deriving DecidableEq

inductive SendPc
  | entry
  /-- `msg->io.fd` is set; in front of `io_mtx` -/
  | captured (fd : Int)
  | written
  deriving DecidableEq

/-- Where the receive thread stands in `uc_ipc_client_reconnect`. -/
inductive ReconnectPc
  | idle
  /-- the socket is closed and `io_sockfd` is -1; in front of `socket` -/
  | closed
  /-- in front of the section that stores the new descriptor -/
  | opened (fd : Nat)
  /-- in the loops around `uc_urandom` and `connect` -/
  | connecting
  deriving DecidableEq

/-- `frames` records the descriptors frames were written to, with what the number stood for; the
code keeps no such list. -/
structure SocketClient where
  ioSockfd : Int
  reconnect : ReconnectPc
  sends : List SendPc
  table : Nat → Option FdOwner
  frames : List (Int × Option FdOwner)

inductive SocketEvent
  | send
  | capture (c : Nat)
  | write (c : Nat)
  | close
  | socket (fd : Option Nat)
  | install
  | connected
  | openOther (fd : Nat)
  | closeOther (fd : Nat)

namespace SocketClient

def lookup (table : Nat → Option FdOwner) (fd : Int) : Option FdOwner :=
  if 0 ≤ fd then table fd.toNat else none

def setSend (s : SocketClient) (c : Nat) (pc : SendPc) : SocketClient :=
  { s with sends := s.sends.set c pc }

def exec (s : SocketClient) : SocketEvent → Option SocketClient
  | .send => some { s with sends := s.sends ++ [.entry] }
  | .capture c => some (s.setSend c (.captured s.ioSockfd))
  | .write c =>
      match s.sends[c]? with
      | some (.captured fd) =>
          -- the message carries the number that was read, whatever it stands for now
          some { s.setSend c .written with frames := s.frames ++ [(fd, lookup s.table fd)] }
      | _ => none
  | .close =>
      some
        { s with
          table := Function.update s.table s.ioSockfd.toNat none
          ioSockfd := -1
          reconnect := .closed }
  | .socket (some fd) =>
      some
        { s with
          table := Function.update s.table fd (some .client)
          reconnect := .opened fd }
  -- the loop tries again
  | .socket none => some s
  | .install =>
      match s.reconnect with
      | .opened fd => some { s with ioSockfd := fd, reconnect := .connecting }
      | _ => none
  | .connected => some { s with reconnect := .idle }
  | .openOther fd => some { s with table := Function.update s.table fd (some .other) }
  | .closeOther fd => some { s with table := Function.update s.table fd none }

/-- A new descriptor has a number that is not in use. -/
def enabled (s : SocketClient) : SocketEvent → Bool
  | .send => true
  | .capture c => s.sends[c]? = some .entry
  | .write c =>
      match s.sends[c]? with
      | some (.captured _) => true
      | _ => false
  | .close => s.reconnect = .idle
  | .socket (some fd) => s.reconnect = .closed && s.table fd = none
  | .socket none => s.reconnect = .closed
  | .install =>
      match s.reconnect with
      | .opened _ => true
      | _ => false
  | .connected => s.reconnect = .connecting
  | .openOther fd => s.table fd = none
  | .closeOther fd => s.table fd = some .other

def machine : Machine SocketClient SocketEvent :=
  { enabled := enabled, exec := exec }

/-- A client as `uc_ipc_init_client` returns it, with its socket in a table of descriptors. -/
def ofInit (table : Nat → Option FdOwner) (fd : Nat) : SocketClient where
  ioSockfd := fd
  reconnect := .idle
  sends := []
  table := Function.update table fd (some .client)
  frames := []

/-! ## Writing to the live connection -/

/-- The descriptor that send `c` is about to write to is the current `io_sockfd`, it is not -1, and
its number stands for a socket of the client. -/
def LiveWrite (s : SocketClient) (c : Nat) : Prop :=
  ∃ fd, s.sends[c]? = some (.captured fd) ∧ fd = s.ioSockfd ∧ fd ≠ -1 ∧
    lookup s.table fd = some .client

def isCaptured : SendPc → Bool
  | .captured _ => true
  | _ => false

/-- A send reads `io_sockfd` while there is a socket, and a reconnect closes the socket while no
send is between reading it and writing. -/
def settled (s : SocketClient) : SocketEvent → Bool
  | .capture _ => s.ioSockfd ≠ -1
  | .close => s.sends.all fun pc => !isCaptured pc
  | _ => true

/-- Where the receive thread stands tells what `io_sockfd` is. -/
def Stands (s : SocketClient) : ReconnectPc → Prop
  | .idle => ∃ fd : Nat, s.ioSockfd = fd ∧ s.table fd = some .client
  | .closed => s.ioSockfd = -1
  | .opened fd => s.ioSockfd = -1 ∧ s.table fd = some .client
  | .connecting => ∃ fd : Nat, s.ioSockfd = fd ∧ s.table fd = some .client

structure Settled (s : SocketClient) : Prop where
  stands : s.Stands s.reconnect
  captured : ∀ fd, .captured fd ∈ s.sends → fd = s.ioSockfd ∧ fd ≠ -1

theorem ofInit_settled (table : Nat → Option FdOwner) (fd : Nat) : (ofInit table fd).Settled where
  stands := ⟨fd, rfl, Function.update_self _ _ _⟩
  captured := by simp [ofInit]

section Step

variable {s : SocketClient}

/-- Giving out or taking back another number leaves the client where it stands. -/
theorem Stands.update {pc : ReconnectPc} {fd : Nat} {owner : Option FdOwner} (hs : s.Stands pc)
    (hfd : s.table fd ≠ some .client) :
    ({ s with table := Function.update s.table fd owner } : SocketClient).Stands pc := by
  have hkeep : ∀ n, s.table n = some .client →
      Function.update s.table fd owner n = some .client := by
    intro n hn
    have hne : n ≠ fd := fun h => hfd (h ▸ hn)
    rw [Function.update_of_ne hne, hn]
  cases pc with
  | idle =>
      rcases hs with ⟨n, hn, hclient⟩
      exact ⟨n, hn, hkeep n hclient⟩
  | closed => exact hs
  | opened n => exact ⟨hs.1, hkeep n hs.2⟩
  | connecting =>
      rcases hs with ⟨n, hn, hclient⟩
      exact ⟨n, hn, hkeep n hclient⟩

/-- The step lemma.  A section that changes `io_sockfd` finds no send between its two steps. -/
theorem Settled.step {e : SocketEvent} {s' : SocketClient} (hS : s.Settled)
    (henabled : s.enabled e = true) (hsettled : s.settled e = true)
    (hexec : s.exec e = some s') : s'.Settled := by
  cases e with
  | send =>
      cases hexec
      refine ⟨hS.stands, ?_⟩
      intro fd hfd
      refine hS.captured fd ?_
      simpa using hfd
  | capture c =>
      cases hexec
      refine ⟨hS.stands, ?_⟩
      intro fd hfd
      rcases List.mem_or_eq_of_mem_set hfd with hold | hnew
      · exact hS.captured fd hold
      · -- what is read is the current number, and there is a socket
        cases hnew
        exact ⟨rfl, by simpa [settled] using hsettled⟩
  | write c =>
      simp only [exec] at hexec
      split at hexec
      · cases hexec
        refine ⟨hS.stands, ?_⟩
        intro fd hfd
        rcases List.mem_or_eq_of_mem_set hfd with hold | hnew
        · exact hS.captured fd hold
        · cases hnew
      · cases hexec
  | close =>
      cases hexec
      refine ⟨rfl, ?_⟩
      intro fd hfd
      -- no send holds the number that is closed
      have hnone := List.all_eq_true.1 hsettled _ hfd
      simp [isCaptured] at hnone
  | socket fd =>
      cases fd with
      | none =>
          cases hexec
          exact hS
      | some fd =>
          simp only [enabled, Bool.and_eq_true, decide_eq_true_eq] at henabled
          have hclosed : s.Stands .closed := henabled.1 ▸ hS.stands
          cases hexec
          exact ⟨⟨hclosed, Function.update_self _ _ _⟩, hS.captured⟩
  | install =>
      simp only [exec] at hexec
      split at hexec
      · rename_i fd hpc
        have hopened : s.Stands (.opened fd) := hpc ▸ hS.stands
        cases hexec
        refine ⟨⟨fd, rfl, hopened.2⟩, ?_⟩
        intro fd' hfd'
        rcases hS.captured fd' hfd' with ⟨heq, hne⟩
        -- as long as there is no socket no send holds a number
        exact absurd (heq.trans hopened.1) hne
      · cases hexec
  | connected =>
      have hpc : s.reconnect = .connecting := by simpa [enabled] using henabled
      have hstands : s.Stands .connecting := hpc ▸ hS.stands
      cases hexec
      exact ⟨hstands, hS.captured⟩
  | openOther fd =>
      have hfree : s.table fd = none := by simpa [enabled] using henabled
      cases hexec
      exact ⟨hS.stands.update (by simp [hfree]), hS.captured⟩
  | closeOther fd =>
      have hother : s.table fd = some .other := by simpa [enabled] using henabled
      cases hexec
      exact ⟨hS.stands.update (by simp [hother]), hS.captured⟩

/-- A send that is about to write has the descriptor of a client that has a socket. -/
theorem Settled.liveWrite {c : Nat} (hS : s.Settled) (hwrite : s.enabled (.write c) = true) :
    s.LiveWrite c := by
  simp only [enabled] at hwrite
  split at hwrite
  · rename_i fd hpc
    rcases hS.captured fd (List.mem_of_getElem? hpc) with ⟨heq, hne⟩
    refine ⟨fd, hpc, heq, hne, ?_⟩
    have hstands := hS.stands
    -- a number other than -1 is there only outside the loop that opens a socket
    cases hreconnect : s.reconnect with
    | idle =>
        rw [hreconnect] at hstands
        rcases hstands with ⟨n, hn, hclient⟩
        simp [lookup, heq, hn, hclient]
    | closed =>
        rw [hreconnect] at hstands
        exact absurd (heq.trans hstands) hne
    | opened n =>
        rw [hreconnect] at hstands
        exact absurd (heq.trans hstands.1) hne
    | connecting =>
        rw [hreconnect] at hstands
        rcases hstands with ⟨n, hn, hclient⟩
        simp [lookup, heq, hn, hclient]
  · cases hwrite

end Step

/-! ## Runs -/

/-- In every run in which no send reads `io_sockfd` while there is no socket, and no reconnect
closes the socket between a send's reading and its writing, each frame goes to the live
connection. -/
theorem ucIpcClientSend_live {table : Nat → Option FdOwner} {fd : Nat}
    {events : List SocketEvent} {s : SocketClient}
    (hrun : (machine.restrict settled).Run (ofInit table fd) events s) {c : Nat}
    (hwrite : machine.enabled s (.write c) = true) : s.LiveWrite c := by
  have hS : s.Settled := by
    refine hrun.invariant (ofInit_settled table fd) ?_
      (fun _ _ => trivial : ∀ e ∈ events, True)
    intro s₁ s₂ e hS _ henabled hexec
    rcases (Bool.and_eq_true _ _).mp henabled with ⟨henabled', hsettled⟩
    exact hS.step henabled' hsettled hexec
  exact hS.liveWrite hwrite

/-- A send behind a reconnect, with the old number given to another part of the process. -/
theorem ucIpcClientSend_live_reconnected :
    ∃ s : SocketClient, (machine.restrict settled).Run (ofInit (fun _ => none) 3)
        [.send, .capture 0, .write 0, .close, .openOther 3, .socket (some 4), .install, .send,
          .capture 1] s ∧ s.LiveWrite 1 := by
  have hplay : ∃ s, (machine.restrict settled).play (ofInit (fun _ => none) 3)
      [.send, .capture 0, .write 0, .close, .openOther 3, .socket (some 4), .install, .send,
        .capture 1] = some s ∧ machine.enabled s (.write 1) = true := ⟨_, rfl, rfl⟩
  rcases hplay with ⟨s, hplay, hwrite⟩
  have hrun := Machine.run_of_play hplay
  exact ⟨s, hrun, ucIpcClientSend_live hrun hwrite⟩

/-- A send has read the descriptor 3; a reconnect closes it and another part of the process opens a
file, which gets the number 3.  The frame goes into that file. -/
theorem ucIpcClientSend_stray :
    ∃ s s' : SocketClient, machine.Run (ofInit (fun _ => none) 3)
        [.send, .capture 0, .close, .openOther 3] s ∧
      machine.enabled s (.write 0) = true ∧ ¬ s.LiveWrite 0 ∧
      machine.exec s (.write 0) = some s' ∧ s'.frames = [(3, some .other)] := by
  have hplay : ∃ s s', machine.play (ofInit (fun _ => none) 3)
      [.send, .capture 0, .close, .openOther 3] = some s ∧
      machine.enabled s (.write 0) = true ∧ s.ioSockfd = -1 ∧
      machine.exec s (.write 0) = some s' ∧ s'.frames = [(3, some .other)] :=
    ⟨_, _, rfl, rfl, rfl, rfl, rfl⟩
  rcases hplay with ⟨s, s', hplay, hwrite, hsockfd, hexec, hframes⟩
  refine ⟨s, s', Machine.run_of_play hplay, hwrite, ?_, hexec, hframes⟩
  rintro ⟨fd, _, heq, hne, _⟩
  exact hne (heq.trans hsockfd)

end SocketClient

end Ipc
end UtilsC
