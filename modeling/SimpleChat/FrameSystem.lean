import SimpleChat.Framing
import SimpleChat.Registry

/-!
# The server, one received frame at a time

In `SimpleChat.System` a handler receives bytes, one call of `recv` after the
other.  Here `recv_message` is one operation.  It returns the next frame that the
peer has sent, and fails if the stream has ended or the descriptor is not open.
A stream that ends in the middle of a frame, or with a header that announces too
much, ends here after the last frame before it.

`framedProgram_expand` says that the programs are those of `SimpleChat.Server`,
with the body of `recv_message` for the operation.
-/

namespace SimpleChat

open Conc Function

/-- A frame, as `recv_message` returns it. -/
abbrev RecvFrame : Type := UInt8 × Bytes

inductive FrameOp where
  | recvMessage (fd : Fd)
  | server (o : ServerOp)
  deriving DecidableEq

@[reducible] def FrameOp.Resp : FrameOp → Type
  | .recvMessage _ => Option RecvFrame
  | .server o => o.Resp

/-- The signature of the threads at this level. -/
abbrev Framed : Sig := ⟨FrameOp, FrameOp.Resp⟩

/-- The operations of `Server` at this level. -/
def framedEmbedding : Prog.Embedding Server Framed where
  op o := .server o
  resp _ r := r

variable (cfg : Config)

/-- One turn of the loop of `handle_client`. -/
def framedHandleClient (fd : Fd) : Prog Framed Ctl := do
  if !(← loadRunning.lift framedEmbedding) then pure (.cleanup fd)
  else
    match ← Prog.perform (S := Framed) (.recvMessage fd) with
    | none => pure (.cleanup fd)
    | some (msgType, payload) =>
      (mem (.dispatch msgType payload)).lift framedEmbedding
      (dispatch cfg fd msgType payload).lift framedEmbedding

/-- The program that a thread runs from a control point. -/
def Ctl.framedProgram : Ctl → Prog Framed Ctl
  | .loop fd => framedHandleClient cfg fd
  | c => (c.program cfg).lift framedEmbedding

/-- An operation of this level in calls of `recv`. -/
def FrameOp.expand : (o : FrameOp) → Prog Server o.Resp
  | .recvMessage fd => (SimpleChat.recvMessage fd).lift recvEmbedding
  | .server o => Prog.perform (S := Server) o

theorem lift_expand {α : Type} (p : Prog Server α) :
    (p.lift framedEmbedding).interp FrameOp.expand = p := by
  induction p with
  | ret a => rfl
  | call o k ih =>
    show Prog.call o (fun r => ((k r).lift framedEmbedding).interp FrameOp.expand) = .call o k
    congr 1
    funext r
    exact ih r

theorem framedHandleClient_expand (fd : Fd) :
    (framedHandleClient cfg fd).interp FrameOp.expand = handleClient cfg fd := by
  show Prog.call (S := Server) (.mem .running) _ = Prog.call (S := Server) _ _
  congr 1
  funext running
  cases running with
  | false => rfl
  | true =>
    show FrameOp.expand (.recvMessage fd) >>= _ = (recvMessage fd).lift recvEmbedding >>= _
    congr 1
    funext frame
    match frame with
    | none => rfl
    | some (msgType, payload) =>
      show Prog.interp _ ((mem (.dispatch msgType payload)).lift framedEmbedding >>= fun _ =>
        (dispatch cfg fd msgType payload).lift framedEmbedding) = _
      rw [Prog.interp_bind, lift_expand, lift_expand]

/-- The programs of this level are those of the server. -/
theorem framedProgram_expand (c : Ctl) :
    (c.framedProgram cfg).interp FrameOp.expand = c.program cfg := by
  cases c with
  | loop fd => exact framedHandleClient_expand cfg fd
  | cleanup fd => exact lift_expand _
  | watchdog => exact lift_expand _
  | ended => rfl

/-! ## The machine -/

/-- The shared state, and the frames that each peer has sent and no handler has
received. -/
structure FrameWorld where
  base : World
  inbox : ConnId → List RecvFrame

inductive FrameEnv where
  | accept (fd : Fd) (peerIp : String)
  /-- The peer sends a frame that `recv_message` accepts. -/
  | frame (c : ConnId) (f : RecvFrame)
  | clientClose (c : ConnId)
  | tick (d : Nat)

namespace FrameWorld

variable (w : FrameWorld)

abbrev mem : Memory := w.base.mem

/-- `recv_message`.  It waits while the stream is empty and not ended. -/
def recvMessage (fd : Fd) : Option (Option RecvFrame × FrameWorld) :=
  match w.mem.fds fd with
  | none => some (none, w)
  | some c =>
    match w.inbox c with
    | [] => if (w.mem.conns c).eof then some (none, w) else none
    | f :: rest => some (some f, { w with inbox := update w.inbox c rest })

variable {w} in
/-- `recv_message` returns that frame and leaves those frames on a stream of bytes
that holds the frames of the inbox, however `recv` splits it. -/
theorem recvMessage_bytes {fd : Fd} {c : ConnId} {r : Option RecvFrame} {w' : FrameWorld}
    (hfd : w.mem.fds fd = some c) (hfits : ∀ f ∈ w.inbox c, f.2.length ≤ MAX_PAYLOAD)
    (h : w.recvMessage fd = some (r, w')) (gives : Nat → Nat) {s : Source}
    (hs : s.rest = (w.inbox c).flatMap fun f => encodeFrame f.1 f.2) :
    ((SimpleChat.recvMessage fd).interp (Source.recv gives) s).1 = r ∧
      (r ≠ none → ((SimpleChat.recvMessage fd).interp (Source.recv gives) s).2.rest =
        (w'.inbox c).flatMap fun f => encodeFrame f.1 f.2) := by
  unfold recvMessage at h
  rw [hfd] at h
  dsimp only at h
  cases hw : w.inbox c with
  | nil =>
    rw [hw] at h hs
    dsimp only at h
    split at h
    · cases h
      exact ⟨recvMessage_end gives fd hs, fun hr => absurd rfl hr⟩
    · cases h
  | cons f rest =>
    rw [hw] at h hs
    cases h
    have hf : f.2.length ≤ MAX_PAYLOAD := hfits f (hw ▸ List.mem_cons_self)
    have ⟨hframe, hrest⟩ := recvMessage_frame gives fd hf hs
    refine ⟨hframe, fun _ => ?_⟩
    rw [hrest]
    show _ = List.flatMap _ (update w.inbox c rest c)
    rw [update_self]
    rfl

/-- The effect and the response of an operation of thread `t`. -/
def exec (t : Tid) : (o : FrameOp) → Choice → Option (o.Resp × FrameWorld)
  | .recvMessage fd, _ => w.recvMessage fd
  | .server o, ch => (w.base.exec cfg t o ch).map fun x => (x.1, { w with base := x.2 })

/-- The effect of a step of the environment, and the thread it starts. -/
def env : FrameEnv → Option (FrameWorld × Option (Tid × Ctl))
  | .accept fd peerIp =>
    (w.base.env (.accept fd peerIp)).map fun x => ({ w with base := x.1 }, x.2)
  | .frame c f =>
    if c < w.mem.nextConn ∧ (w.mem.conns c).eof = false ∧ f.2.length ≤ MAX_PAYLOAD then
      some ({ w with inbox := update w.inbox c (w.inbox c ++ [f]) }, none)
    else none
  | .clientClose c =>
    (w.base.env (.clientClose c)).map fun x => ({ w with base := x.1 }, x.2)
  | .tick d => (w.base.env (.tick d)).map fun x => ({ w with base := x.1 }, x.2)

end FrameWorld

/-- How the threads of the server run at this level. -/
def frameMachine : Machine Framed Tid Ctl FrameWorld Choice FrameEnv where
  exec t w o ch := w.exec cfg t o ch
  resume _ c := c.framedProgram cfg
  env e w := w.env e

abbrev FrameState := Pool Framed Tid Ctl FrameWorld

abbrev FrameStep := Label Tid Choice FrameEnv

/-- The server, one received frame at a time. -/
def frameSystem : Lts FrameState FrameStep :=
  (frameMachine cfg).toLts ⟨⟨.init, fun _ => []⟩, fun _ => []⟩ fun
    | .watchdog => .watchdog
    | .handler _ => .ended

end SimpleChat
