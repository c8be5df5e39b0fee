import Mathlib.Data.Finmap
import SimpleChat.Protocol

/-!
# The state of the server

`SessionInfo`, the three maps of the registry, and the part of the operating
system that the server sees: the descriptor table and the connections.

Each block of `server.cpp` that runs under `sessions_mutex_` is one function on
`Memory` here.  The functions do no input or output; what a block sends while it
holds the mutex is in `SimpleChat.Server`.

An `unordered_map` is a `Finmap`.  Its iteration order is not specified, so a
block that iterates over `sessions_` takes the order as an argument.
-/

namespace SimpleChat

open Function

/-- A `shared_ptr<SessionInfo>`: the index of the object in the heap. -/
abbrev SessionRef := Nat

/-- An accepted connection.  Descriptor numbers are reused, connections are
not. -/
abbrev ConnId := Nat

/-- `struct SessionInfo`.  `sendMutex` is not here: mutexes belong to the
threads. -/
structure SessionInfo where
  username : String
  ip : String
  socketFd : Fd
  status : StatusEnum := .ACTIVE
  manualStatus : StatusEnum := .ACTIVE
  lastActivity : Int
  alive : Bool := true
  deriving DecidableEq

/-- The session registry: `sessions_`, `username_to_fd_` and `ip_to_fd_`. -/
structure Registry where
  sessions : Finmap fun _ : Fd => SessionRef
  usernameToFd : Finmap fun _ : String => Fd
  ipToFd : Finmap fun _ : String => Fd
  deriving DecidableEq

/-- A connection as the server's side of the socket sees it. -/
structure Conn where
  /-- The descriptor that `accept` returned for it. -/
  fd : Fd
  /-- The address of the peer. -/
  peerIp : String
  /-- The bytes that the client has sent and `recv` has not returned yet. -/
  pending : Bytes
  /-- The client will send nothing more. -/
  eof : Bool
  /-- The bytes that `recv` has returned so far (history). -/
  received : Bytes

/-- Everything the threads of the server share.  `registeredOn` is a history
variable: the connection whose handler created the session. -/
structure Memory where
  registry : Registry
  heap : SessionRef → SessionInfo
  nextRef : SessionRef
  registeredOn : SessionRef → ConnId
  fds : Fd → Option ConnId
  conns : ConnId → Conn
  nextConn : ConnId
  clock : Int
  running : Bool

/-- The server after `run()` has set `running_` and before the first `accept`. -/
def Memory.init : Memory where
  registry := ⟨∅, ∅, ∅⟩
  heap := fun _ => { username := "", ip := "", socketFd := 0, lastActivity := 0 }
  nextRef := 0
  registeredOn := fun _ => 0
  fds := fun _ => none
  conns := fun _ => ⟨0, "", [], false, []⟩
  nextConn := 0
  clock := 0
  running := true

namespace Memory

variable (m : Memory)

/-- Change the fields of one session. -/
def modify (s : SessionRef) (f : SessionInfo → SessionInfo) : Memory :=
  { m with heap := update m.heap s (f (m.heap s)) }

/-! ## The blocks under `sessions_mutex_` -/

/-- `get_session`. -/
def getSession (fd : Fd) : Option SessionRef := m.registry.sessions.lookup fd

/-- `remove_session`. -/
def removeSession (fd : Fd) : Memory :=
  match m.registry.sessions.lookup fd with
  | none => m
  | some s =>
    let m := m.modify s fun i => { i with alive := false }
    { m with
      registry := {
        sessions := m.registry.sessions.erase fd
        usernameToFd := m.registry.usernameToFd.erase (m.heap s).username
        ipToFd := m.registry.ipToFd.erase (m.heap s).ip } }

/-- The outcome of the locked block of `handle_register`. -/
inductive RegisterOutcome where
  | alreadyRegistered (session : SessionRef)
  | usernameTaken
  | ipTaken
  | registered (session : SessionRef)
  deriving DecidableEq

/-- The locked block of `handle_register`, run by the handler of connection
`c`, without its replies. -/
def register (c : ConnId) (fd : Fd) (username peerIp : String) : RegisterOutcome × Memory :=
  match m.registry.sessions.lookup fd with
  | some s => (.alreadyRegistered s, m)
  | none =>
    if username ∈ m.registry.usernameToFd then (.usernameTaken, m)
    else if peerIp ∈ m.registry.ipToFd then (.ipTaken, m)
    else
      let session : SessionInfo :=
        { username := username, ip := peerIp, socketFd := fd, lastActivity := m.clock }
      (.registered m.nextRef,
        { m with
          heap := update m.heap m.nextRef session
          nextRef := m.nextRef + 1
          registeredOn := update m.registeredOn m.nextRef c
          registry := {
            sessions := m.registry.sessions.insert fd m.nextRef
            usernameToFd := m.registry.usernameToFd.insert username fd
            ipToFd := m.registry.ipToFd.insert peerIp fd } })

/-- An iteration order of `sessions_`: each key once. -/
def IterationOrder (order : List Fd) : Prop :=
  (order : Multiset Fd) = m.registry.sessions.keys.val

instance (order : List Fd) : Decidable (m.IterationOrder order) :=
  inferInstanceAs (Decidable (_ = _))

/-- The sessions that a loop over `sessions_` visits. -/
def visited (order : List Fd) : List SessionRef :=
  order.filterMap m.registry.sessions.lookup

/-- The block of `handle_message_general` that collects the targets. -/
def aliveSessions (order : List Fd) : List SessionRef :=
  (m.visited order).filter fun s => (m.heap s).alive

/-- The two-step lookup of `handle_message_dm` and `handle_get_user_info`. -/
def findUser (username : String) : Option SessionRef :=
  match m.registry.usernameToFd.lookup username with
  | none => none
  | some fd => m.registry.sessions.lookup fd

/-- The block of `handle_list_users` that collects names and statuses. -/
def listSessions (order : List Fd) : List (String × StatusEnum) :=
  (m.visited order).map fun s => ((m.heap s).username, (m.heap s).status)

/-- `duration_cast<seconds>(now - last_activity)`: nanosecond ticks, truncated
towards zero. -/
def elapsedSec (now : Int) (i : SessionInfo) : Int :=
  (now - i.lastActivity).tdiv 1000000000

/-- The watchdog's test of one session. -/
def isIdle (idleTimeoutSec now : Int) (i : SessionInfo) : Bool :=
  i.alive && i.status != .INVISIBLE && decide (idleTimeoutSec ≤ elapsedSec now i)

/-- The body of the watchdog's loop over `sessions_`: mark the session if it is
idle, and say whether it was marked. -/
def markIdleOne (idleTimeoutSec now : Int) (s : SessionRef) : Bool × Memory :=
  if isIdle idleTimeoutSec now (m.heap s) then
    (true, m.modify s fun i => { i with status := .INVISIBLE })
  else (false, m)

/-- The watchdog's loop over the sessions `todo`, and the ones it marked. -/
def markIdle (idleTimeoutSec now : Int) : List SessionRef → Memory → List SessionRef × Memory
  | [], m => ([], m)
  | s :: todo, m =>
    let one := m.markIdleOne idleTimeoutSec now s
    let rest := markIdle idleTimeoutSec now todo one.2
    (if one.1 then s :: rest.1 else rest.1, rest.2)

/-! ## Fields of a session outside the mutex -/

/-- `touch_activity`. -/
def touch (s : SessionRef) : Memory :=
  m.modify s fun i => { i with lastActivity := m.clock }

/-- The test of `maybe_restore_activity`: the server marked the session, and
its user did not. -/
def autoInactive (i : SessionInfo) : Bool :=
  i.status == .INVISIBLE && i.manualStatus != .INVISIBLE

/-- The test and the update of `maybe_restore_activity`, and whether it
restored the session. -/
def restore (s : SessionRef) : Bool × Memory :=
  if autoInactive (m.heap s) then
    (true, m.modify s fun i => { i with status := .ACTIVE, manualStatus := .ACTIVE })
  else (false, m)

/-- The two assignments of `handle_change_status`. -/
def setStatus (s : SessionRef) (st : StatusEnum) : Memory :=
  m.modify s fun i => { i with status := st, manualStatus := st }

/-! ## The operating system -/

/-- Change one connection. -/
def modifyConn (c : ConnId) (f : Conn → Conn) : Memory :=
  { m with conns := update m.conns c (f (m.conns c)) }

/-- `recv` of at most `len` bytes, of which the system would like to give
`want`.  It blocks while the stream is empty and not ended.  A descriptor that
is not open is an error. -/
def recv (fd : Fd) (len want : Nat) :
    Option (Option {bs : Bytes // bs.length ≤ len} × Memory) :=
  match m.fds fd with
  | none => some (none, m)
  | some c =>
    let conn := m.conns c
    if conn.pending = [] then
      if conn.eof then some (some ⟨[], Nat.zero_le len⟩, m) else none
    else
      let bs := conn.pending.take (min (max 1 want) len)
      some (some ⟨bs, (List.length_take_le _ _).trans (Nat.min_le_right _ _)⟩,
        m.modifyConn c fun conn =>
          { conn with
            pending := conn.pending.drop bs.length
            received := conn.received ++ bs })

/-- `get_peer_ip`.  `known` says whether `getpeername` succeeded. -/
def getPeerIp (fd : Fd) (known : Bool) : String :=
  match m.fds fd with
  | none => "unknown"
  | some c => if known then (m.conns c).peerIp else "unknown"

/-- `::close(fd)`. -/
def close (fd : Fd) : Memory := { m with fds := update m.fds fd none }

/-- `::accept` returned `fd`, which was not open, for a new connection. -/
def accept (fd : Fd) (peerIp : String) : Memory :=
  { m with
    fds := update m.fds fd (some m.nextConn)
    conns := update m.conns m.nextConn ⟨fd, peerIp, [], false, []⟩
    nextConn := m.nextConn + 1 }

end Memory

end SimpleChat
