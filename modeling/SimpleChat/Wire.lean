import SimpleChat.Conc.Lowering
import SimpleChat.Framing
import SimpleChat.System

/-!
# The server at the level of single calls of `send`

In `SimpleChat.System` a frame is one operation.  Here it is what `send_message`
does: one call of `send` after the other, each of which takes some of the bytes.
`send_locked` locks the `send_mutex` of its session around them, and the replies
of the locked block of `handle_register` are sent while `sessions_mutex_` is
held, so that the other blocks under this mutex wait.

`wireLowering` says which operations stand for one operation of `Server`.  The
threads run the same programs, lowered.
-/

namespace SimpleChat

open Conc Function

/-! ## Operations -/

inductive WireOp where
  | mem (o : MemOp)
  /-- The beginning and the end of the `lock_guard` on `send_mutex`. -/
  | lock (session : SessionRef)
  | unlock (session : SessionRef)
  /-- The call of `send_message`: nothing but the history changes. -/
  | sendMessage (fd : Fd) (msg : ServerMsg)
  /-- One call of `send`. -/
  | send (o : SendOp)
  /-- The locked block of `handle_register` up to its reply.  The
  `sessions_mutex_` stays locked. -/
  | register (fd : Fd) (username peerIp : String)
  /-- The end of the `lock_guard` of `handle_register`. -/
  | unlockSessions
  deriving DecidableEq

@[reducible] def WireOp.Resp : WireOp → Type
  | .mem o => o.Resp
  | .lock _ => Unit
  | .unlock _ => Unit
  | .sendMessage _ _ => Unit
  | .send o => {n : Int // n ≤ o.buf.length}
  | .register _ _ _ => Memory.RegisterOutcome
  | .unlockSessions => Unit

/-- The signature of the threads at this level. -/
abbrev Wire : Sig := ⟨WireOp, WireOp.Resp⟩

/-- `send()` among the operations. -/
def sendEmbedding : Prog.Embedding Send Wire where
  op o := .send o
  resp _ r := r

variable (cfg : Config)

/-- What `send_message` does after it was called. -/
def sendMessageTail (fd : Fd) (msg : ServerMsg) : Prog Wire Unit := do
  let _ ← (sendMessage fd msg.msgType (cfg.pb.serialize msg)).lift sendEmbedding
  pure ()

/-- What `send_locked` does after it has locked the mutex. -/
def sendLockedTail (session : SessionRef) (msg : ServerMsg) : Prog Wire Unit := do
  let i ← Prog.perform (S := Wire) (.mem (.read session))
  Prog.perform (S := Wire) (.sendMessage i.socketFd msg)
  sendMessageTail cfg i.socketFd msg
  Prog.perform (S := Wire) (.unlock session)

/-- What the locked block of `handle_register` does after it has settled its
outcome. -/
def registerTail (fd : Fd) (reply : Option SessionRef × ServerMsg) : Prog Wire Unit := do
  match reply.1 with
  | none =>
    Prog.perform (S := Wire) (.sendMessage fd reply.2)
    sendMessageTail cfg fd reply.2
  | some session =>
    Prog.perform (S := Wire) (.lock session)
    sendLockedTail cfg session reply.2
  Prog.perform (S := Wire) .unlockSessions

/-- The operations of the server, one call of `send` at a time. -/
def wireLowering : Lowering Server Wire where
  op
    | .mem o => .mem o
    | .sendBare fd msg => .sendMessage fd msg
    | .sendLocked session _ => .lock session
    | .register fd username peerIp => .register fd username peerIp
  resp
    | .mem _, r => r
    | .sendBare _ _, _ => ()
    | .sendLocked _ _, _ => ()
    | .register _ _ _, r => r
  tail
    | .mem _, _ => .ret ()
    | .sendBare fd msg, _ => sendMessageTail cfg fd msg
    | .sendLocked session msg, _ => sendLockedTail cfg session msg
    | .register fd username peerIp, r => registerTail cfg fd (registerReply username peerIp r)

/-! ## The shared state -/

/-- The shared state, the mutexes, and for each connection the frames whose
`send_message` was called and the bytes that `send` took. -/
structure WireWorld where
  mem : Memory
  sessionsMutex : Option Tid
  sendMutex : SessionRef → Option Tid
  begun : ConnId → List Bytes
  wire : ConnId → Bytes

/-- The operations that lock `sessions_mutex_`. -/
def MemOp.locksSessions : MemOp → Bool
  | .getSession _ => true
  | .removeSession _ => true
  | .aliveSessions => true
  | .findUser _ => true
  | .listSessions => true
  | .markIdle _ => true
  | _ => false

namespace WireWorld

variable (w : WireWorld)

/-- `send_message` was called. -/
def sendMessage (fd : Fd) (msg : ServerMsg) : WireWorld :=
  match w.mem.fds fd, cfg.pb.serialize msg with
  | some c, some payload =>
    { w with begun := update w.begun c (w.begun c ++ [encodeFrame msg.msgType payload]) }
  | _, _ => w

/-- `send` takes at least one of the bytes, and as many as `want` says if there
are that many.  A descriptor that is not open is an error. -/
def send (o : SendOp) (want : Nat) : {n : Int // n ≤ o.buf.length} × WireWorld :=
  match w.mem.fds o.fd with
  | none => (⟨-1, o.failed_le⟩, w)
  | some c =>
    let n := moved want o.buf.length
    (⟨n, o.moved_le want⟩,
      { w with wire := update w.wire c (w.wire c ++ o.buf.take n) })

/-- The effect and the response of an operation of thread `t`, if it need not
wait for a mutex. -/
def exec (t : Tid) : (o : WireOp) → Choice → Option (o.Resp × WireWorld)
  | .mem o, ch =>
    if o.locksSessions ∧ w.sessionsMutex ≠ none then none
    else (w.mem.exec cfg.idleTimeoutSec o ch).map fun x => (x.1, { w with mem := x.2 })
  | .lock s, _ =>
    if w.sendMutex s = none then
      some ((), { w with sendMutex := update w.sendMutex s (some t) })
    else none
  | .unlock s, _ => some ((), { w with sendMutex := update w.sendMutex s none })
  | .sendMessage fd msg, _ => some ((), w.sendMessage cfg fd msg)
  | .send o, ch => some (w.send o ch.want)
  | .register fd username peerIp, _ =>
    match t with
    | .handler c =>
      if w.sessionsMutex = none then
        let x := w.mem.register c fd username peerIp
        some (x.1, { w with mem := x.2, sessionsMutex := some t })
      else none
    | .watchdog => none
  | .unlockSessions, _ => some ((), { w with sessionsMutex := none })

/-- The effect of a step of the environment, and the thread it starts. -/
def env (e : Env) : Option (WireWorld × Option (Tid × Ctl)) :=
  ((⟨w.mem, fun _ => []⟩ : World).env e).map fun x => ({ w with mem := x.1.mem }, x.2)

end WireWorld

/-- How the threads of the server run at this level. -/
def wireMachine : Machine Wire Tid Ctl WireWorld Choice Env where
  exec t w o ch := w.exec cfg t o ch
  resume _ c := (c.program cfg).lower (wireLowering cfg)
  env e w := w.env e

/-- A state of the server at this level. -/
abbrev WireState := Pool Wire Tid Ctl WireWorld

/-- The server, one call of `send` at a time. -/
def wireSystem : Lts WireState Step :=
  (wireMachine cfg).toLts ⟨.init, none, fun _ => none, fun _ => [], fun _ => []⟩ fun
    | .watchdog => .watchdog
    | .handler _ => .ended

end SimpleChat
