/-
SequoiaIpc.Protocol.System — the rendezvous protocol as a transition
system: any number of parties running `Descriptor::connect_with_policy`
or `Descriptor::bootstrap` on one rendezvous path, the servers they
start, and outside processes that open connections to any loopback port.

## The state

`Sys` holds the rendezvous file's bytes and its lock holder, each
party's program counter, and the listener bound to `127.0.0.1:port`
for each port with its FIFO accept queue. A listener is live from the
moment `Descriptor::start` binds it, so connections can queue before
its server has accepted anything. Addresses where processes outside
the model listen are `foreign`. The ghost fields record what the code
does not keep: each server's launcher and the cookie that launcher
generated, the connection each server consumed as its initialization
connection, and the log of `start` calls.

## The steps

A `Label` names the party or listener that moves and carries the
choices the environment makes (the cookie `Cookie::new()` returns, the
port the kernel assigns, a failed `fork`). Each party step is one
shared action of the source, with the local computation around it:

* `acquire`: `CookieFile::open`, blocking while another party holds the lock;
* `read`: `file.read()`, the decoding of the record and `TcpStream::connect`
  to it, with `do_connect` on success, and otherwise `file.clear()`,
  `drop(file)` and `self.connect()` (client) or falling through (bootstrap);
* `start`, `startFail`: `Descriptor::start` and its failure;
* `initConnect`: `cookie.send(&mut TcpStream::connect(addr)?)`;
* `publish`: `file.write(..)` (when the server is external, or always in
  `bootstrap`) and `drop(file)`;
* `sessionConnect`: `do_connect(cookie, TcpStream::connect(addr)?)`.

A connection carries the bytes its opener sends; the server steps are
the first `l.accept()` with `Cookie::receive` in `serve_listener`, and
one round of its async loop (`ServeLoop`), which hands the connection to
`handler.handle` exactly when it is `ServeLoop.Authentic`.

Not modelled: failures of file system calls, servers that exit after
starting, and ports released by dead listeners.
-/
import SequoiaIpc.Record
import SequoiaIpc.Server.ServeLoop

namespace SequoiaIpc.Protocol

/-- Who opened a connection. -/
inductive Origin where
  /-- the initialization connection of party `i` -/
  | init (i : Nat)
  /-- the stream party `i` hands to `do_connect` -/
  | session (i : Nat)
  /-- the connection `bootstrap` of party `i` opens to a recorded server -/
  | probe (i : Nat)
  /-- a process outside the protocol -/
  | outside
deriving DecidableEq, Repr

/-- A connection in a listener's queue and the bytes its opener sends. -/
structure Conn where
  origin : Origin
  payload : Bytes
deriving DecidableEq, Repr

/-- Where `serve_listener` is. -/
inductive ServerPhase where
  /-- blocked in the first `l.accept()` -/
  | awaitingInit
  /-- in the async loop, with the latched cookie -/
  | serving (k : Cookie)
  /-- returned: `Cookie::receive` on the initialization connection failed -/
  | failed
deriving DecidableEq, Repr

/-- A listener and the server behind it. `taken` is ghost state: the
connections the async loop has taken off the queue, in order; nothing in
`serve_listener` keeps that list, the statements about the loop quote it. -/
structure Server where
  cookie : Cookie
  launcher : Nat
  external : Bool
  queue : List Conn
  phase : ServerPhase
  initConn : Option Conn
  handled : List Conn
  taken : List Conn
deriving DecidableEq, Repr

/-- The server `Descriptor::start` stands up for party `i` with cookie `c`. -/
def Server.new (c : Cookie) (i : Nat) (external : Bool) : Server :=
  ⟨c, i, external, [], .awaitingInit, none, [], []⟩

/-- A connection enters the server's accept queue. -/
def Server.push (S : Server) (c : Conn) : Server := { S with queue := S.queue ++ [c] }

/-- What `serve_listener` does with its first connection's bytes:
`Cookie::receive` latches a cookie, or the function returns. -/
def latchPhase (payload : Bytes) : ServerPhase :=
  match Cookie.receive payload with
  | some k => .serving k
  | none => .failed

/-- The first `l.accept()` takes `conn` off the queue. -/
def Server.acceptInit (S : Server) (conn : Conn) (rest : List Conn) : Server :=
  { S with queue := rest, initConn := some conn, phase := latchPhase conn.payload }

/-- One round of the async loop takes `conn` off the queue and hands it to
`handler.handle` exactly when it is authentic for the latched cookie `k`. -/
def Server.accept (S : Server) (k : Cookie) (conn : Conn) (rest : List Conn) : Server :=
  { S with
    queue := rest
    handled := if ServeLoop.Authentic Conn.payload k conn then S.handled ++ [conn] else S.handled
    taken := S.taken ++ [conn] }

/-- The server's listener is still open. -/
def Server.Listening (S : Server) : Prop := S.phase ≠ .failed

instance (S : Server) : Decidable S.Listening := inferInstanceAs (Decidable (_ ≠ _))

/-- What a party runs: `connect_with_policy(policy)` on a descriptor whose
context policy is `ctxPolicy`, or `bootstrap`. -/
inductive Role where
  | client (policy ctxPolicy : IPCPolicy)
  | bootstrap
  | absent
deriving DecidableEq, Repr

/-- The policy `self.connect()` uses when `connect_with_policy` restarts. -/
def Role.ctxPolicy : Role → IPCPolicy
  | .client _ q => q
  | _ => .robust

/-- A party's program counter. -/
inductive Pc where
  /-- not running -/
  | idle
  /-- client, before `CookieFile::open` -/
  | opening (policy : IPCPolicy)
  /-- client, holding the lock, before `file.read()` -/
  | reading (policy : IPCPolicy)
  /-- client, no record found, cookie made, before `start` -/
  | empty (policy : IPCPolicy) (c : Cookie)
  /-- client, `Robust`: `start(true)` failed, before `start(false)` -/
  | fallback (c : Cookie)
  /-- client, server started, before the initialization connection -/
  | launched (c : Cookie) (port : UInt16) (external : Bool)
  /-- client, cookie sent, before `file.write` and `drop(file)` -/
  | initSent (c : Cookie) (port : UInt16) (external : Bool)
  /-- client, lock released, before `do_connect` -/
  | connecting (c : Cookie) (port : UInt16)
  /-- client, returned the session `do_connect` built on a stream to `addr` -/
  | connected (c : Cookie) (addr : SocketAddr)
  /-- returned an error -/
  | failed
  /-- bootstrap, before `CookieFile::open` -/
  | bootOpening
  /-- bootstrap, holding the lock, before `file.read()` -/
  | bootReading
  /-- bootstrap, no running server found, cookie made, before `start(false)` -/
  | bootEmpty (c : Cookie)
  /-- bootstrap, server started, before `file.write` and `drop(file)` -/
  | bootLaunched (c : Cookie) (port : UInt16)
  /-- bootstrap, lock released, before the initialization connection -/
  | bootPublished (c : Cookie) (port : UInt16)
  /-- bootstrap, returned -/
  | bootDone
deriving DecidableEq, Repr

/-- The program counters at which a party holds the rendezvous lock. -/
def Pc.HoldsLock : Pc → Prop
  | .reading _ | .empty _ _ | .fallback _ | .launched _ _ _ | .initSent _ _ _
  | .bootReading | .bootEmpty _ | .bootLaunched _ _ => True
  | _ => False

/-- The cookie and port of the server a party has started and not yet
left behind. -/
def Pc.launch : Pc → Option (Cookie × UInt16)
  | .launched c port _ | .initSent c port _ | .connecting c port
  | .bootLaunched c port | .bootPublished c port => some (c, port)
  | _ => none

/-- A `start` call: who made it, `start(true)` or `start(false)`, and
whether it succeeded. -/
structure StartCall where
  party : Nat
  external : Bool
  ok : Bool
deriving DecidableEq, Repr

/-- The whole system. -/
structure Sys where
  role : Nat → Role
  pc : Nat → Pc
  lock : Option Nat
  file : Bytes
  server : UInt16 → Option Server
  foreign : List SocketAddr
  starts : List StartCall

/-- Where a party starts. -/
def Role.entry : Role → Pc
  | .client p _ => .opening p
  | .bootstrap => .bootOpening
  | .absent => .idle

/-- The system before any step: nothing listening, the file as it was. -/
def Sys.init (role : Nat → Role) (file : Bytes) (foreign : List SocketAddr) : Sys :=
  ⟨role, fun i => (role i).entry, none, file, fun _ => none, foreign, []⟩

/-! ## State updates -/

namespace Sys

def setPc (s : Sys) (i : Nat) (p : Pc) : Sys := { s with pc := Function.update s.pc i p }

def unlock (s : Sys) : Sys := { s with lock := none }

/-- The listener on `port` is open. -/
def listening (s : Sys) (port : UInt16) : Bool :=
  match s.server port with
  | some S => decide S.Listening
  | none => false

/-- A connection enters the accept queue of the listener on `port`. -/
def enqueue (s : Sys) (port : UInt16) (c : Conn) : Sys :=
  { s with server := Function.update s.server port ((s.server port).map (·.push c)) }

/-- Replace the server on `port`. -/
def setServer (s : Sys) (port : UInt16) (S : Server) : Sys :=
  { s with server := Function.update s.server port (some S) }

/-- A `start` call is logged. -/
def logStart (s : Sys) (i : Nat) (external ok : Bool) : Sys :=
  { s with starts := s.starts ++ [⟨i, external, ok⟩] }

/-- What `TcpStream::connect` to an address reaches. -/
inductive Dial where
  | server (port : UInt16)
  | foreign
  | refused
deriving DecidableEq, Repr

def dial (s : Sys) (x : SocketAddr) : Dial :=
  match x with
  | .v4 a =>
    if a.ip = Ipv4Addr.LOCALHOST ∧ s.listening a.port then .server a.port
    else if x ∈ s.foreign then .foreign else .refused
  | .v6 _ => if x ∈ s.foreign then .foreign else .refused

@[simp] theorem setPc_pc_self (s : Sys) (i : Nat) (p : Pc) : (s.setPc i p).pc i = p := by
  simp [setPc]

theorem setPc_pc_ne (s : Sys) {i j : Nat} (p : Pc) (h : j ≠ i) : (s.setPc i p).pc j = s.pc j := by
  simp [setPc, h]

@[simp] theorem setPc_lock (s : Sys) (i : Nat) (p : Pc) : (s.setPc i p).lock = s.lock := rfl
@[simp] theorem setPc_file (s : Sys) (i : Nat) (p : Pc) : (s.setPc i p).file = s.file := rfl
@[simp] theorem setPc_server (s : Sys) (i : Nat) (p : Pc) : (s.setPc i p).server = s.server := rfl
@[simp] theorem setPc_role (s : Sys) (i : Nat) (p : Pc) : (s.setPc i p).role = s.role := rfl
@[simp] theorem setPc_foreign (s : Sys) (i : Nat) (p : Pc) : (s.setPc i p).foreign = s.foreign := rfl
@[simp] theorem setPc_starts (s : Sys) (i : Nat) (p : Pc) : (s.setPc i p).starts = s.starts := rfl
@[simp] theorem unlock_lock (s : Sys) : s.unlock.lock = none := rfl
@[simp] theorem unlock_pc (s : Sys) : s.unlock.pc = s.pc := rfl
@[simp] theorem unlock_file (s : Sys) : s.unlock.file = s.file := rfl
@[simp] theorem unlock_server (s : Sys) : s.unlock.server = s.server := rfl
@[simp] theorem unlock_role (s : Sys) : s.unlock.role = s.role := rfl
@[simp] theorem unlock_foreign (s : Sys) : s.unlock.foreign = s.foreign := rfl
@[simp] theorem unlock_starts (s : Sys) : s.unlock.starts = s.starts := rfl
@[simp] theorem enqueue_pc (s : Sys) (port : UInt16) (c : Conn) : (s.enqueue port c).pc = s.pc := rfl
@[simp] theorem enqueue_lock (s : Sys) (port : UInt16) (c : Conn) : (s.enqueue port c).lock = s.lock := rfl
@[simp] theorem enqueue_file (s : Sys) (port : UInt16) (c : Conn) : (s.enqueue port c).file = s.file := rfl
@[simp] theorem enqueue_role (s : Sys) (port : UInt16) (c : Conn) : (s.enqueue port c).role = s.role := rfl
@[simp] theorem enqueue_foreign (s : Sys) (port : UInt16) (c : Conn) :
    (s.enqueue port c).foreign = s.foreign := rfl
@[simp] theorem enqueue_starts (s : Sys) (port : UInt16) (c : Conn) :
    (s.enqueue port c).starts = s.starts := rfl
@[simp] theorem setServer_pc (s : Sys) (port : UInt16) (S : Server) : (s.setServer port S).pc = s.pc := rfl
@[simp] theorem setServer_lock (s : Sys) (port : UInt16) (S : Server) :
    (s.setServer port S).lock = s.lock := rfl
@[simp] theorem setServer_file (s : Sys) (port : UInt16) (S : Server) :
    (s.setServer port S).file = s.file := rfl
@[simp] theorem setServer_role (s : Sys) (port : UInt16) (S : Server) :
    (s.setServer port S).role = s.role := rfl
@[simp] theorem setServer_foreign (s : Sys) (port : UInt16) (S : Server) :
    (s.setServer port S).foreign = s.foreign := rfl
@[simp] theorem setServer_starts (s : Sys) (port : UInt16) (S : Server) :
    (s.setServer port S).starts = s.starts := rfl
@[simp] theorem logStart_pc (s : Sys) (i : Nat) (e o : Bool) : (s.logStart i e o).pc = s.pc := rfl
@[simp] theorem logStart_lock (s : Sys) (i : Nat) (e o : Bool) : (s.logStart i e o).lock = s.lock := rfl
@[simp] theorem logStart_file (s : Sys) (i : Nat) (e o : Bool) : (s.logStart i e o).file = s.file := rfl
@[simp] theorem logStart_server (s : Sys) (i : Nat) (e o : Bool) :
    (s.logStart i e o).server = s.server := rfl
@[simp] theorem logStart_role (s : Sys) (i : Nat) (e o : Bool) : (s.logStart i e o).role = s.role := rfl
@[simp] theorem logStart_foreign (s : Sys) (i : Nat) (e o : Bool) :
    (s.logStart i e o).foreign = s.foreign := rfl
@[simp] theorem logStart_starts (s : Sys) (i : Nat) (e o : Bool) :
    (s.logStart i e o).starts = s.starts ++ [⟨i, e, o⟩] := rfl

theorem enqueue_server (s : Sys) (port q : UInt16) (c : Conn) :
    (s.enqueue port c).server q =
      if q = port then (s.server q).map (·.push c) else s.server q := by
  by_cases h : q = port
  · subst h; simp [enqueue]
  · simp [enqueue, h]

theorem setServer_server (s : Sys) (port q : UInt16) (S : Server) :
    (s.setServer port S).server q = if q = port then some S else s.server q := by
  by_cases h : q = port
  · subst h; simp [setServer]
  · simp [setServer, h]

end Sys

end SequoiaIpc.Protocol
