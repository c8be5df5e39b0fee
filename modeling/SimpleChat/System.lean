import SimpleChat.Conc.Pool
import SimpleChat.Server

/-!
# The server as a transition system

The threads are the handlers, one for each connection, and the watchdog.  One
step is one operation of one thread: a block under `sessions_mutex_`, one frame
on the wire, one access to the fields of a session, or one system call.  The
environment accepts connections under any descriptor that is not open, sends
and ends the streams of the clients, and lets time pass.

A frame that is written goes to the connection that is open under the
descriptor at that moment, and nowhere if there is none.
-/

namespace SimpleChat

open Conc Function

/-- A frame on a connection, and the `SessionInfo` it was written through, if
any. -/
structure Written where
  via : Option SessionRef
  msg : ServerMsg
  deriving DecidableEq

/-- The shared state, and the frames written to each connection so far. -/
structure World where
  mem : Memory
  out : ConnId → List Written

/-- The threads of the server. -/
inductive Tid where
  | handler (c : ConnId)
  | watchdog
  deriving DecidableEq

/-- What an operation leaves open: how many bytes `recv` would like to give,
the iteration order of `sessions_`, and whether `getpeername` succeeds. -/
structure Choice where
  want : Nat := 1
  order : List Fd := []
  peerKnown : Bool := true

/-- What happens outside the threads. -/
inductive Env where
  /-- `accept` returns a descriptor, and its handler thread is started. -/
  | accept (fd : Fd) (peerIp : String)
  | clientSend (c : ConnId) (bs : Bytes)
  | clientClose (c : ConnId)
  | tick (d : Nat)

/-- The effect and the response of an operation that writes no frame. -/
def Memory.exec (m : Memory) (idleTimeoutSec : Int) :
    (o : MemOp) → Choice → Option (o.Resp × Memory)
  | .recv fd len, ch => m.recv fd len ch.want
  | .dispatch _ _, _ => some ((), m)
  | .running, _ => some (m.running, m)
  | .getPeerIp fd, ch => some (m.getPeerIp fd ch.peerKnown, m)
  | .getSession fd, _ => some (m.getSession fd, m)
  | .removeSession fd, _ => some ((), m.removeSession fd)
  | .aliveSessions, ch =>
    if m.IterationOrder ch.order then some (m.aliveSessions ch.order, m) else none
  | .findUser username, _ => some (m.findUser username, m)
  | .listSessions, ch =>
    if m.IterationOrder ch.order then some (m.listSessions ch.order, m) else none
  | .read s, _ => some (m.heap s, m)
  | .restore s, _ => some (m.restore s)
  | .setStatus s st, _ => some ((), m.setStatus s st)
  | .touch s, _ => some ((), m.touch s)
  | .now, _ => some (m.clock, m)
  | .markIdle now, ch =>
    if m.IterationOrder ch.order then some (Memory.markIdle idleTimeoutSec now (m.visited ch.order) m)
    else none
  | .close fd, _ => some ((), m.close fd)

namespace World

variable (w : World)

/-- A frame written to a descriptor. -/
def write (fd : Fd) (via : Option SessionRef) (msg : ServerMsg) : World :=
  match w.mem.fds fd with
  | none => w
  | some c => { w with out := update w.out c (w.out c ++ [⟨via, msg⟩]) }

/-- A frame written through a session, or to the descriptor `fd` if there is
none. -/
def reply (fd : Fd) (r : Option SessionRef × ServerMsg) : World :=
  match r.1 with
  | none => w.write fd none r.2
  | some s => w.write (w.mem.heap s).socketFd (some s) r.2

@[simp] theorem write_mem (fd : Fd) (via : Option SessionRef) (msg : ServerMsg) :
    (w.write fd via msg).mem = w.mem := by
  rw [write]
  split <;> rfl

@[simp] theorem reply_mem (fd : Fd) (r : Option SessionRef × ServerMsg) :
    (w.reply fd r).mem = w.mem := by
  rw [reply]
  split <;> exact write_mem _ _ _ _

/-- A frame written to an open descriptor goes to the connection it belongs to. -/
theorem write_out {fd : Fd} {c : ConnId} (h : w.mem.fds fd = some c) (via : Option SessionRef)
    (msg : ServerMsg) :
    (w.write fd via msg).out = update w.out c (w.out c ++ [⟨via, msg⟩]) := by
  rw [write, h]

/-- What is on a connection after a write was there before, or was just written. -/
theorem mem_write_out {fd : Fd} {via : Option SessionRef} {msg : ServerMsg} {c : ConnId}
    {x : Written} (h : x ∈ (w.write fd via msg).out c) :
    x ∈ w.out c ∨ x = ⟨via, msg⟩ ∧ w.mem.fds fd = some c := by
  rw [write] at h
  split at h
  · exact Or.inl h
  · rename_i d hd
    dsimp only at h
    by_cases hc : c = d
    · subst hc
      rw [update_self, List.mem_append, List.mem_singleton] at h
      exact h.imp_right fun hx => ⟨hx, hd⟩
    · rw [update_of_ne hc] at h
      exact Or.inl h

variable (cfg : Config)

/-- The effect and the response of an operation of thread `t`. -/
def exec (t : Tid) : (o : ServerOp) → Choice → Option (o.Resp × World)
  | .mem o, ch => (w.mem.exec cfg.idleTimeoutSec o ch).map fun x => (x.1, { w with mem := x.2 })
  | .sendBare fd msg, _ => some ((), w.write fd none msg)
  | .sendLocked s msg, _ => some ((), w.write (w.mem.heap s).socketFd (some s) msg)
  | .register fd username peerIp, _ =>
    match t with
    | .handler c =>
      let x := w.mem.register c fd username peerIp
      some (x.1, { w with mem := x.2 }.reply fd (registerReply username peerIp x.1))
    | .watchdog => none

variable {w cfg} in
theorem exec_mem {t : Tid} {o : MemOp} {ch : Choice} {r : o.Resp} {m : Memory}
    (h : w.mem.exec cfg.idleTimeoutSec o ch = some (r, m)) :
    w.exec cfg t (.mem o) ch = some (r, { w with mem := m }) := by
  rw [exec, h]
  rfl

variable {w cfg} in
/-- What the locked block of `handle_register` does. -/
theorem exec_register {c : ConnId} {fd : Fd} {u a : String} {ch : Choice}
    {r : Memory.RegisterOutcome} {w' : World} :
    w.exec cfg (.handler c) (.register fd u a) ch = some (r, w') ↔
      r = (w.mem.register c fd u a).1 ∧
        w' = { w with mem := (w.mem.register c fd u a).2 }.reply fd (registerReply u a r) := by
  rw [exec, Option.some.injEq, Prod.mk.injEq]
  constructor
  · rintro ⟨rfl, rfl⟩
    exact ⟨rfl, rfl⟩
  · rintro ⟨rfl, rfl⟩
    exact ⟨rfl, rfl⟩

/-- The effect of a step of the environment, and the thread it starts. -/
def env : Env → Option (World × Option (Tid × Ctl))
  | .accept fd peerIp =>
    if w.mem.fds fd = none then
      some ({ w with mem := w.mem.accept fd peerIp },
        some (.handler w.mem.nextConn, .loop fd))
    else none
  | .clientSend c bs =>
    if c < w.mem.nextConn ∧ (w.mem.conns c).eof = false then
      some ({ w with mem := w.mem.modifyConn c fun n => { n with pending := n.pending ++ bs } },
        none)
    else none
  | .clientClose c =>
    if c < w.mem.nextConn then
      some ({ w with mem := w.mem.modifyConn c fun n => { n with eof := true } }, none)
    else none
  | .tick d => some ({ w with mem := { w.mem with clock := w.mem.clock + d } }, none)

end World

/-- How the threads of the server run. -/
def machine (cfg : Config) : Machine Server Tid Ctl World Choice Env where
  exec t w o ch := w.exec cfg t o ch
  resume _ c := c.program cfg
  env e w := w.env e

/-- A state of the server: the shared state, what is left of each thread, and
the history. -/
abbrev State := Pool Server Tid Ctl World

abbrev Step := Label Tid Choice Env

/-- The server, from the moment it accepts connections.  The handler of a
connection that is not accepted yet has not started. -/
def system (cfg : Config) : Lts State Step :=
  (machine cfg).toLts ⟨.init, fun _ => []⟩ fun
    | .watchdog => .watchdog
    | .handler _ => .ended

/-- An event of the history goes back to the operation that performed it. -/
theorem event_step {cfg : Config} {C : State → Step → Prop} {p : State}
    {L R : List (Event Server Tid)} {e : Event Server Tid} (h : (system cfg).Reaches C p)
    (hlog : p.log = L ++ e :: R) :
    ∃ (q : State) (k : e.op.Resp → Prog Server Ctl) (ch : Choice) (w : World),
      (system cfg).Reaches C q ∧ q.log = L ∧ C q (.op e.tid ch) ∧
        q.prog e.tid = .call (S := Server) e.op k ∧
        q.shared.exec cfg e.tid e.op ch = some (e.resp, w) ∧
        (system cfg).step q (.op e.tid ch) = some (q.afterOp e.tid e.op k e.resp w) ∧
        (system cfg).Steps C (q.afterOp e.tid e.op k e.resp w) p := by
  obtain ⟨q, k, ch, w, h1, h2, h3, h4, h5, h6⟩ := Machine.log_split h hlog
  exact ⟨q, k, ch, w, h1, h2, h3, h4, h5, Machine.step_op.2 ⟨_, k, _, w, h4, h5, rfl⟩, h6⟩

/-! ## A server to run -/

/-- The protobuf code on the few frames that the runs below send.  The first
clients register as "a" and "b". -/
def sampleProtobuf : Protobuf where
  parseRegister bs :=
    if bs = [] then some ⟨"", ""⟩
    else if bs = [10, 1, 97] then some ⟨"a", ""⟩
    else if bs = [10, 1, 98] then some ⟨"b", ""⟩
    else none
  parseMessageGeneral bs := if bs = [10, 2, 104, 105] then some ⟨"hi", .ACTIVE, "", ""⟩ else none
  parseMessageDM bs :=
    if bs = [10, 2, 104, 105, 26, 1, 98] then some ⟨"hi", .ACTIVE, "b", ""⟩ else none
  parseChangeStatus bs :=
    if bs = [] then some ⟨.ACTIVE, "", ""⟩
    else if bs = [8, 1] then some ⟨.DO_NOT_DISTURB, "", ""⟩
    else if bs = [8, 2] then some ⟨.INVISIBLE, "", ""⟩
    else none
  parseListUsers bs := if bs = [] then some ⟨"", ""⟩ else none
  parseGetUserInfo bs := if bs = [] then some ⟨"", "", ""⟩ else none
  parseQuit bs := if bs = [] then some ⟨false, ""⟩ else none
  serialize m := some m.encode

/-- The server with the default timeout. -/
def sampleConfig : Config where
  pb := sampleProtobuf
  sort := fun users => users.mergeSort fun a b => decide (a.1 ≤ b.1)
  idleTimeoutSec := 180

/-- Thread `t` passes a control point and performs `n` operations. -/
def turn (t : Tid) (n : Nat) : List Step := .jump t :: List.replicate n (.op t { want := 100 })

/-- A run in which "a" registers. -/
def registerRun : List Step :=
  [.env (.accept 4 "10.0.0.1"), .env (.clientSend 0 [1, 0, 0, 0, 3, 10, 1, 97])] ++
    turn (.handler 0) 6

/-- A second client asks for the name "a" in vain and registers as "b".  Then "a" quits,
and a third client is accepted under its descriptor and registers as "a". -/
def reuseRun : List Step :=
  registerRun ++
  [.env (.accept 5 "10.0.0.2"), .env (.clientSend 1 [1, 0, 0, 0, 3, 10, 1, 97])] ++
    turn (.handler 1) 6 ++
  [.env (.clientSend 1 [1, 0, 0, 0, 3, 10, 1, 98])] ++ turn (.handler 1) 6 ++
  [.env (.clientSend 0 [7, 0, 0, 0, 0])] ++ turn (.handler 0) 5 ++ turn (.handler 0) 2 ++
  [.env (.accept 4 "10.0.0.3"), .env (.clientSend 2 [1, 0, 0, 0, 3, 10, 1, 97])] ++
    turn (.handler 2) 6

end SimpleChat
