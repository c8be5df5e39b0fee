import SimpleChat.BareReplies
import SimpleChat.Wire

/-!
# Whole frames

A frame is two calls of `send` or more, and every thread that writes to a client
may be interrupted between them.  `send_locked` holds the `send_mutex` of the
session meanwhile, and a bare reply has its connection for itself.

`Writer` is where a thread is in the writing of a frame.  `Streams` says what
the bytes on a connection are, given where the threads are.  `frames_whole` is
the result, and `frames_torn` is a run in which a registered client sends a
frame of unknown type while another client broadcasts.
-/

namespace SimpleChat

open Conc Function

/-! ## Where a thread is in the writing of a frame -/

inductive Writer where
  | idle
  /-- It is about to call `send_message` with no mutex. -/
  | called (fd : Fd)
  | bare (fd : Fd) (frame : Bytes) (progress : Writing)
  /-- It is about to lock the `send_mutex`. -/
  | waiting (s : SessionRef)
  | locked (s : SessionRef)
  /-- It has read the descriptor of the session. -/
  | ready (s : SessionRef) (fd : Fd)
  | writing (s : SessionRef) (fd : Fd) (frame : Bytes) (progress : Writing)

/-- The writer stopped, on an error or at the end of the frame. -/
def Writing.Finished (q : Writing) (frame : Bytes) : Prop := q.failed = true ∨ q.sent = frame

instance (q : Writing) (frame : Bytes) : Decidable (q.Finished frame) :=
  inferInstanceAs (Decidable (_ ∨ _))

namespace Writer

/-- Nothing is left to do. -/
def Idle : Writer → Prop
  | .idle => True
  | .bare _ frame q => q.Finished frame
  | _ => False

/-- The session it writes through. -/
def via : Writer → Option SessionRef
  | .waiting s => some s
  | .locked s => some s
  | .ready s _ => some s
  | .writing s _ _ _ => some s
  | _ => none

/-- The session whose `send_mutex` it holds. -/
def mutex : Writer → Option SessionRef
  | .locked s => some s
  | .ready s _ => some s
  | .writing s _ _ _ => some s
  | _ => none

/-- The descriptor that it writes to with no mutex. -/
def bareFd : Writer → Option Fd
  | .called fd => some fd
  | .bare fd frame q => if q.Finished frame then none else some fd
  | _ => none

/-- The descriptor that it has read from its session. -/
def readFd : Writer → Option (SessionRef × Fd)
  | .ready s fd => some (s, fd)
  | .writing s fd _ _ => some (s, fd)
  | _ => none

/-- The frame that it has not finished: the descriptor, the frame, and the bytes
that `send` took. -/
def current : Writer → Option (Fd × Bytes × Bytes)
  | .bare fd frame q => if q.Finished frame then none else some (fd, frame, q.sent)
  | .writing _ fd frame q => if q.Finished frame then none else some (fd, frame, q.sent)
  | _ => none

/-- The bytes that `send_message` writes. -/
def frameOf (cfg : Config) (msg : ServerMsg) : Bytes :=
  match cfg.pb.serialize msg with
  | none => []
  | some payload => encodeFrame msg.msgType payload

/-- What a thread may do in the middle of an operation of `Server`. -/
def Allows : Writer → WireOp → Prop
  | .called fd, .sendMessage fd' _ => fd' = fd
  | .bare fd frame q, .send o => o.fd = fd ∧ (writeMonitor frame).guard q o
  | .bare _ frame q, .unlockSessions => q.Finished frame
  | .waiting s, .lock s' => s' = s
  | .locked s, .mem (.read s') => s' = s
  | .ready _ fd, .sendMessage fd' _ => fd' = fd
  | .writing _ fd frame q, .send o => o.fd = fd ∧ (writeMonitor frame).guard q o
  | .writing s _ frame q, .unlock s' => s' = s ∧ q.Finished frame
  | .idle, .unlockSessions => True
  | _, _ => False

/-- Where it is after an operation. -/
def after (cfg : Config) : Writer → (o : WireOp) → o.Resp → Writer
  | .called fd, .sendMessage _ msg, _ => .bare fd (frameOf cfg msg) {}
  | .bare fd frame q, .send o, n => .bare fd frame (q.after o n)
  | .waiting s, .lock _, _ => .locked s
  | .locked s, .mem (.read _), i => .ready s i.socketFd
  | .ready s fd, .sendMessage _ msg, _ => .writing s fd (frameOf cfg msg) {}
  | .writing s fd frame q, .send o, n => .writing s fd frame (q.after o n)
  | _, _, _ => .idle

end Writer

def writerMonitor (cfg : Config) : Prog.Monitor Wire Writer where
  guard a o := a.Allows o
  next a o r a' := a' = a.after cfg o r

variable {cfg : Config}

theorem obeys_writer_call {α : Type} {o : WireOp} {k : o.Resp → Prog Wire α} {a : Writer}
    {post : α → Writer → Prop} :
    (Prog.call (S := Wire) o k).Obeys (writerMonitor cfg) post a ↔
      a.Allows o ∧ ∀ r, (k r).Obeys (writerMonitor cfg) post (a.after cfg o r) :=
  Prog.obeys_det_call

theorem writeExactLoop_only (fd : Fd) (fuel : Nat) (buf : Bytes) :
    (writeExactLoop fd fuel buf).Only fun o : SendOp => o.fd = fd := by
  induction fuel generalizing buf with
  | zero => cases buf <;> trivial
  | succ fuel ih =>
    cases buf with
    | nil => trivial
    | cons b bs =>
      rw [writeExactLoop_succ, Prog.only_call]
      refine ⟨rfl, fun n => ?_⟩
      split
      · trivial
      · exact ih _

theorem sendMessage_only (fd : Fd) (msgType : UInt8) (payload : Bytes) :
    (sendMessage fd msgType (some payload)).Only fun o : SendOp => o.fd = fd := by
  show Prog.Only _ (_ >>= _)
  refine (writeExactLoop_only fd _ _).bind fun ok => ?_
  cases ok with
  | false => trivial
  | true =>
    show Prog.Only _ (if 0 < UInt32.ofNat payload.length then _ else _)
    split
    · refine (writeExactLoop_only fd _ _).bind fun ok => ?_
      cases ok <;> trivial
    · trivial

/-- Calls of `send`, while `place` says where the thread is. -/
theorem lift_writes {α : Type} {p : Prog Send α} {frame : Bytes} {fd : Fd}
    {post : α → Writing → Prop} {q : Writing} {place : Writing → Writer}
    (hallows : ∀ q (o : SendOp), o.fd = fd → (writeMonitor frame).guard q o →
      (place q).Allows (.send o))
    (hafter : ∀ q (o : SendOp) n, (place q).after cfg (.send o) n = place (q.after o n))
    (h : p.Obeys (writeMonitor frame) post q) (hfd : p.Only fun o : SendOp => o.fd = fd) :
    (p.lift sendEmbedding).Obeys (writerMonitor cfg)
      (fun x a => ∃ q', post x q' ∧ a = place q') (place q) := by
  induction p generalizing q with
  | ret x => exact ⟨q, h, rfl⟩
  | call o k ih =>
    refine obeys_writer_call.2 ⟨hallows q o hfd.1 h.1, fun n => ?_⟩
    rw [show (place q).after cfg (sendEmbedding.op o) n = _ from hafter q o n]
    have ⟨q', hq', hk⟩ := h.2 n
    rw [show q' = q.after o n from hq'] at hk
    exact ih n hk (hfd.2 n)

/-- `send_message` finishes its frame, or stops on an error. -/
theorem sendMessageTail_obeys {fd : Fd} {msg : ServerMsg} {place : Writing → Writer}
    (hallows : ∀ q (o : SendOp), o.fd = fd → (writeMonitor (Writer.frameOf cfg msg)).guard q o →
      (place q).Allows (.send o))
    (hafter : ∀ q (o : SendOp) n, (place q).after cfg (.send o) n = place (q.after o n)) :
    (sendMessageTail cfg fd msg).Obeys (writerMonitor cfg)
      (fun _ a => ∃ q, q.Finished (Writer.frameOf cfg msg) ∧ a = place q) (place {}) := by
  unfold sendMessageTail
  cases hserialize : cfg.pb.serialize msg with
  | none =>
    refine ⟨{}, Or.inr ?_, rfl⟩
    rw [Writer.frameOf, hserialize]
  | some payload =>
    have hframe : Writer.frameOf cfg msg = encodeFrame msg.msgType payload := by
      rw [Writer.frameOf, hserialize]
    rw [hframe] at hallows ⊢
    refine (lift_writes hallows hafter (sendMessage_obeys fd msg.msgType payload)
      (sendMessage_only fd msg.msgType payload)).bind fun ok a ha => ?_
    have ⟨q, hpost, hq⟩ := ha
    refine ⟨q, ?_, hq⟩
    unfold Writes.exact at hpost
    split at hpost
    · rw [hpost]
      exact Or.inr rfl
    · exact Or.inl hpost

theorem bareTail_obeys (fd : Fd) (msg : ServerMsg) :
    (sendMessageTail cfg fd msg).Obeys (writerMonitor cfg)
      (fun _ a => ∃ q, q.Finished (Writer.frameOf cfg msg) ∧ a = .bare fd (Writer.frameOf cfg msg) q)
      (.bare fd (Writer.frameOf cfg msg) {}) :=
  sendMessageTail_obeys (fun _ _ hfd hguard => ⟨hfd, hguard⟩) fun _ _ _ => rfl

theorem sendLockedTail_obeys (s : SessionRef) (msg : ServerMsg) :
    (sendLockedTail cfg s msg).Obeys (writerMonitor cfg) (fun _ a => a = .idle) (.locked s) := by
  refine obeys_writer_call.2 ⟨rfl, fun i => obeys_writer_call.2 ⟨rfl, fun _ => ?_⟩⟩
  have hsend : (sendMessageTail cfg i.socketFd msg).Obeys (writerMonitor cfg)
      (fun _ a => ∃ q, q.Finished (Writer.frameOf cfg msg) ∧
        a = .writing s i.socketFd (Writer.frameOf cfg msg) q)
      (.writing s i.socketFd (Writer.frameOf cfg msg) {}) :=
    sendMessageTail_obeys (fun _ _ hfd hguard => ⟨hfd, hguard⟩) fun _ _ _ => rfl
  refine hsend.bind fun _ a ha => ?_
  have ⟨q, hq, ha⟩ := ha
  subst ha
  exact obeys_writer_call.2 ⟨⟨rfl, hq⟩, fun _ => rfl⟩

/-- Where a thread is after the locked block of `handle_register` has settled
its outcome. -/
def Writer.ofReply (fd : Fd) : Option SessionRef → Writer
  | none => .called fd
  | some s => .waiting s

theorem Writer.ofReply_current (fd : Fd) (via : Option SessionRef) :
    (Writer.ofReply fd via).current = none := by
  cases via <;> rfl

theorem registerTail_obeys (fd : Fd) (reply : Option SessionRef × ServerMsg) :
    (registerTail cfg fd reply).Obeys (writerMonitor cfg) (fun _ a => a.Idle)
      (Writer.ofReply fd reply.1) := by
  have ⟨via, msg⟩ := reply
  cases via with
  | none =>
    refine obeys_writer_call.2 ⟨rfl, fun _ => ?_⟩
    refine (bareTail_obeys fd msg).bind fun _ a ha => ?_
    have ⟨q, hq, ha⟩ := ha
    subst ha
    exact obeys_writer_call.2 ⟨hq, fun _ => trivial⟩
  | some s =>
    refine obeys_writer_call.2 ⟨rfl, fun _ => ?_⟩
    refine (sendLockedTail_obeys s msg).bind fun _ a ha => ?_
    subst ha
    exact obeys_writer_call.2 ⟨trivial, fun _ => trivial⟩

/-- Where a thread is after the first operation that stands for `o`. -/
def Writer.start (cfg : Config) : (o : ServerOp) → WireOp.Resp ((wireLowering cfg).op o) → Writer
  | .mem _, _ => .idle
  | .sendBare fd msg, _ => .bare fd (frameOf cfg msg) {}
  | .sendLocked s _, _ => .locked s
  | .register fd username peerIp, r => .ofReply fd (registerReply username peerIp r).1

theorem tail_obeys (o : ServerOp) (r : WireOp.Resp ((wireLowering cfg).op o)) :
    ((wireLowering cfg).tail o r).Obeys (writerMonitor cfg) (fun _ a => a.Idle)
      (Writer.start cfg o r) := by
  cases o with
  | mem o => trivial
  | sendBare fd msg =>
    refine (bareTail_obeys fd msg).weaken fun _ a ha => ?_
    have ⟨q, hq, ha⟩ := ha
    rw [ha]
    exact hq
  | sendLocked s msg =>
    refine (sendLockedTail_obeys s msg).weaken fun _ a ha => ?_
    rw [ha]
    trivial
  | register fd u a => exact registerTail_obeys fd _

/-! ## The bytes on the connections -/

/-- The bytes are those of the frames that were begun, one after the other, but
the last may not be finished. -/
def WholeFrames (begun : List Bytes) (wire : Bytes) : Prop :=
  begun.dropLast.flatten <+: wire ∧ wire <+: begun.flatten

/-- Thread `t` is the handler of the connection that is open under `fd`, and the
connection has no session. -/
def Memory.Bare (m : Memory) (t : Tid) (fd : Fd) : Prop :=
  ∃ c, t = .handler c ∧ m.fds fd = some c ∧ m.Unregistered c

/-- Thread `t` may be where `a` says. -/
structure WireWorld.Placed (w : WireWorld) (t : Tid) (a : Writer) : Prop where
  home : ∀ s, a.via = some s → w.mem.Home s
  mutex : ∀ s, a.mutex = some s → w.sendMutex s = some t
  fd : ∀ s fd, a.readFd = some (s, fd) → fd = (w.mem.heap s).socketFd
  bare : ∀ fd, a.bareFd = some fd → w.mem.Bare t fd

/-- The bytes on connection `c`, given where the threads are. -/
structure Stream (w : WireWorld) (as : Tid → Writer) (c : ConnId) : Prop where
  /-- A frame that a thread has not finished is the last. -/
  writing : ∀ fd, w.mem.fds fd = some c → ∀ t frame sent,
    (as t).current = some (fd, frame, sent) →
      ∃ fs, w.begun c = fs ++ [frame] ∧ w.wire c = fs.flatten ++ sent
  /-- If no thread is in the middle of a frame, all of them are whole. -/
  quiet : ∀ fd, w.mem.fds fd = some c →
    (∀ t frame sent, (as t).current ≠ some (fd, frame, sent)) → w.wire c = (w.begun c).flatten
  whole : WholeFrames (w.begun c) (w.wire c)
  fresh : w.mem.nextConn ≤ c → w.begun c = [] ∧ w.wire c = []

theorem wholeFrames_concat {fs : List Bytes} {frame sent : Bytes} (h : sent <+: frame) :
    WholeFrames (fs ++ [frame]) (fs.flatten ++ sent) := by
  refine ⟨?_, ?_⟩
  · rw [List.dropLast_concat]
    exact List.prefix_append _ _
  · rw [List.flatten_append, List.flatten_singleton]
    exact (List.prefix_append_right_inj _).2 h

/-- The thread has connection `c` for itself: it writes to it with no mutex, or
it holds the mutex of a session of it. -/
def Writer.Claims (m : Memory) (c : ConnId) (a : Writer) : Prop :=
  (∃ fd, a.bareFd = some fd ∧ m.fds fd = some c) ∨
    ∃ s, a.mutex = some s ∧ m.fds (m.heap s).socketFd = some c

theorem Writer.via_of_mutex {a : Writer} {s : SessionRef} (h : a.mutex = some s) :
    a.via = some s := by
  cases a <;> first | exact h | cases h

theorem Writer.idle_current {a : Writer} (h : a.Idle) : a.current = none := by
  cases a with
  | bare fd frame q => exact if_pos h
  | idle => rfl
  | called | waiting | locked | ready | writing => exact h.elim

variable {w w' : WireWorld} {as : Tid → Writer}

theorem WireWorld.Placed.claims {t : Tid} {a : Writer} {fd : Fd} {frame sent : Bytes} {c : ConnId}
    (h : w.Placed t a) (hcurrent : a.current = some (fd, frame, sent))
    (hfd : w.mem.fds fd = some c) : a.Claims w.mem c := by
  cases a with
  | bare fd' frame' q =>
    simp only [Writer.current] at hcurrent
    split at hcurrent
    · cases hcurrent
    · rename_i hfinished
      cases hcurrent
      exact Or.inl ⟨fd, if_neg hfinished, hfd⟩
  | writing s fd' frame' q =>
    simp only [Writer.current] at hcurrent
    split at hcurrent
    · cases hcurrent
    · cases hcurrent
      refine Or.inr ⟨s, rfl, ?_⟩
      rw [← h.fd s fd rfl]
      exact hfd
  | idle | called | waiting | locked | ready => cases hcurrent

/-- At most one thread has a connection for itself. -/
theorem WireWorld.Placed.unique {t u : Tid} {a b : Writer} {c : ConnId} {qs : Tid → Phase}
    (hown : w.mem.Owned qs) (h : w.Placed t a) (h' : w.Placed u b) (ha : a.Claims w.mem c)
    (hb : b.Claims w.mem c) : t = u := by
  have hbare : ∀ {t a}, w.Placed t a → (∃ fd, a.bareFd = some fd ∧ w.mem.fds fd = some c) →
      t = .handler c ∧ w.mem.Unregistered c := by
    intro t a h ⟨fd, hfd, hopen⟩
    have ⟨d, ht, hd, hnone⟩ := h.bare fd hfd
    rw [hopen, Option.some.injEq] at hd
    rw [hd]
    exact ⟨ht, hnone⟩
  have hmutex : ∀ {t a s}, w.Placed t a → a.mutex = some s →
      w.mem.fds (w.mem.heap s).socketFd = some c →
      s < w.mem.nextRef ∧ w.mem.registeredOn s = c := by
    intro t a s h hs hopen
    have hhome := h.home s (Writer.via_of_mutex hs)
    exact ⟨hhome.allocated, hhome.conn c hopen⟩
  rcases ha with ha | ⟨s, hs, hopen⟩ <;> rcases hb with hb | ⟨s', hs', hopen'⟩
  · rw [(hbare h ha).1, (hbare h' hb).1]
  · have ⟨hlt, hc⟩ := hmutex h' hs' hopen'
    exact absurd hc ((hbare h ha).2 s' hlt)
  · have ⟨hlt, hc⟩ := hmutex h hs hopen
    exact absurd hc ((hbare h' hb).2 s hlt)
  · -- Both hold the mutex of the one session of the connection.
    have ⟨hlt, hc⟩ := hmutex h hs hopen
    have ⟨hlt', hc'⟩ := hmutex h' hs' hopen'
    have heq : s = s' := hown.once s s' hlt hlt' (hc.trans hc'.symm)
    subst heq
    have hheld := (h.mutex s hs).symm.trans (h'.mutex s hs')
    exact Option.some.inj hheld

/-- A step that neither begins a frame on the connection nor sends to it leaves
its stream as it is. -/
theorem Stream.congr {as' : Tid → Writer} {c : ConnId} (h : Stream w as c)
    (hbegun : w'.begun c = w.begun c) (hwire : w'.wire c = w.wire c)
    (hconn : w.mem.nextConn ≤ w'.mem.nextConn)
    (hfds : ∀ fd, w'.mem.fds fd = some c → w.mem.fds fd = some c ∧ ∀ t frame sent,
      (as' t).current = some (fd, frame, sent) ↔ (as t).current = some (fd, frame, sent)) :
    Stream w' as' c := by
  refine ⟨fun fd hfd t frame sent hcurrent => ?_, fun fd hfd hnone => ?_, ?_, fun hc => ?_⟩
  · have ⟨hfd', hsame⟩ := hfds fd hfd
    rw [hbegun, hwire]
    exact h.writing fd hfd' t frame sent ((hsame t frame sent).1 hcurrent)
  · have ⟨hfd', hsame⟩ := hfds fd hfd
    rw [hbegun, hwire]
    exact h.quiet fd hfd' fun t frame sent => fun hcurrent =>
      hnone t frame sent ((hsame t frame sent).2 hcurrent)
  · rw [hbegun, hwire]
    exact h.whole
  · rw [hbegun, hwire]
    exact h.fresh (hconn.trans hc)

/-- The stream of a connection on which one thread has written some of its frame
and no other thread is in the middle of one. -/
theorem stream_of_writer (t : Tid) (q : Writing) (fs : List Bytes) {c : ConnId} {fd : Fd}
    {frame : Bytes} (hfd : ∀ fd', w.mem.fds fd' = some c → fd' = fd) (hc : c < w.mem.nextConn)
    (hcurrent : (as t).current = if q.Finished frame then none else some (fd, frame, q.sent))
    (hother : ∀ u frame sent, (as u).current = some (fd, frame, sent) → u = t)
    (hok : q.failed = false) (hsent : q.sent <+: frame) (hbegun : w.begun c = fs ++ [frame])
    (hwire : w.wire c = fs.flatten ++ q.sent) : Stream w as c := by
  refine ⟨fun fd' hfd' u frame' sent' hu => ?_, fun fd' hfd' hnone => ?_, ?_,
    fun hfresh => absurd hc (Nat.not_lt.2 hfresh)⟩
  · rw [hfd fd' hfd'] at hu
    rw [hother u frame' sent' hu, hcurrent] at hu
    split at hu
    · cases hu
    · cases hu
      exact ⟨fs, hbegun, hwire⟩
  · have hfinished : q.Finished frame := by
      by_contra hnot
      rw [if_neg hnot, ← hfd fd' hfd'] at hcurrent
      exact hnone t frame q.sent hcurrent
    rcases hfinished with hfailed | hdone
    · rw [hok] at hfailed
      cases hfailed
    · rw [hwire, hbegun, hdone, List.flatten_append, List.flatten_singleton]
  · rw [hbegun, hwire]
    exact wholeFrames_concat hsent

/-! ## What a step does to the streams -/

/-- The places of a thread that writes `frame` to `fd`. -/
structure WritesAt (fd : Fd) (frame : Bytes) (place : Writing → Writer) : Prop where
  current : ∀ q, (place q).current =
    if q.Finished frame then none else some (fd, frame, q.sent)
  placed : ∀ (w : WireWorld) t q q', ¬ q.Finished frame → w.Placed t (place q) →
    w.Placed t (place q')

theorem writesAt_bare (fd : Fd) (frame : Bytes) : WritesAt fd frame (.bare fd frame) where
  current _ := rfl
  placed w t q q' hq h := by
    refine ⟨fun s hs => (nomatch hs), fun s hs => (nomatch hs), fun s fd hs => (nomatch hs),
      fun fd' hfd' => ?_⟩
    simp only [Writer.bareFd] at hfd'
    split at hfd'
    · cases hfd'
    · cases hfd'
      exact h.bare fd (if_neg hq)

theorem writesAt_writing (s : SessionRef) (fd : Fd) (frame : Bytes) :
    WritesAt fd frame (.writing s fd frame) where
  current _ := rfl
  placed _ _ _ _ _ h := ⟨h.home, h.mutex, h.fd, fun _ hfd => (nomatch hfd)⟩

/-- A connection that is open was accepted. -/
theorem Memory.Owned.open_lt {m : Memory} {qs : Tid → Phase} (h : m.Owned qs) {fd : Fd}
    {c : ConnId} (hfd : m.fds fd = some c) : c < m.nextConn :=
  h.lt_nextConn (h.opened fd c hfd).2

/-- It is open under one descriptor. -/
theorem Memory.Owned.open_inj {m : Memory} {qs : Tid → Phase} (h : m.Owned qs) {fd fd' : Fd}
    {c : ConnId} (hfd : m.fds fd = some c) (hfd' : m.fds fd' = some c) : fd = fd' :=
  (h.opened fd c hfd).1.symm.trans (h.opened fd' c hfd').1

/-- A thread is in the middle of a frame only on connections that it has for
itself. -/
theorem current_unique {t u : Tid} {c : ConnId} {fd : Fd} {frame sent : Bytes}
    {qs : Tid → Phase} (hown : w.mem.Owned qs) (hplaced : ∀ t, w.Placed t (as t))
    (ht : (as t).Claims w.mem c) (hu : (as u).current = some (fd, frame, sent))
    (hfd : w.mem.fds fd = some c) : u = t :=
  (hplaced u).unique hown (hplaced t) ((hplaced u).claims hu hfd) ht

theorem placed_update {t : Tid} {a : Writer} (h : ∀ u, u ≠ t → w.Placed u (as u))
    (ha : w.Placed t a) : ∀ u, w.Placed u (update as t a u) := by
  intro u
  by_cases hu : u = t
  · subst hu
    rw [update_self]
    exact ha
  · rw [update_of_ne hu]
    exact h u hu

/-- The threads that are in the middle of a frame on another descriptor are the
same, wherever `t` is on its own. -/
theorem current_update {t u : Tid} {a : Writer} {fd fd' : Fd} {frame sent : Bytes}
    (hold : ∀ frame sent, (as t).current ≠ some (fd', frame, sent))
    (hnew : ∀ x ∈ a.current, x.1 = fd) (hne : fd' ≠ fd) :
    (update as t a u).current = some (fd', frame, sent) ↔
      (as u).current = some (fd', frame, sent) := by
  by_cases hu : u = t
  · subst hu
    rw [update_self]
    exact iff_of_false (fun hcurrent => hne (hnew _ hcurrent)) (hold frame sent)
  · rw [update_of_ne hu]

theorem WritesAt.current_fd {fd : Fd} {frame : Bytes} {place : Writing → Writer}
    (h : WritesAt fd frame place) (q : Writing) : ∀ x ∈ (place q).current, x.1 = fd := by
  intro x hx
  rw [h.current, Option.mem_def] at hx
  split at hx
  · cases hx
  · cases hx
    rfl

/-- `send_message` is called by a thread that has the connection for itself. -/
theorem stream_sendMessage {t : Tid} {fd : Fd} {msg : ServerMsg} {place : Writing → Writer}
    {qs : Tid → Phase} (h : ∀ c, Stream w as c) (hown : w.mem.Owned qs)
    (hplaced : ∀ u, w.Placed u (as u)) (hplace : WritesAt fd (Writer.frameOf cfg msg) place)
    (hold : (as t).current = none)
    (hclaims : ∀ c, w.mem.fds fd = some c → (as t).Claims w.mem c) (c : ConnId) :
    Stream (w.sendMessage cfg fd msg) (update as t (place {})) c := by
  have holdNe : ∀ fd' frame sent, (as t).current ≠ some (fd', frame, sent) := by
    intro fd' frame sent hcurrent
    rw [hold] at hcurrent
    cases hcurrent
  unfold WireWorld.sendMessage
  split
  · rename_i d payload hfd hserialize
    have hframe : Writer.frameOf cfg msg = encodeFrame msg.msgType payload := by
      rw [Writer.frameOf, hserialize]
    by_cases hcd : c = d
    · subst hcd
      -- All frames on the connection are whole before the new one.
      have hwire : w.wire c = (w.begun c).flatten := by
        refine (h c).quiet fd hfd fun u frame sent hcurrent => ?_
        have hu := current_unique hown hplaced (hclaims c hfd) hcurrent hfd
        rw [hu] at hcurrent
        exact holdNe fd frame sent hcurrent
      refine stream_of_writer t {} (w.begun c)
        (fun fd' hfd' => hown.open_inj hfd' hfd) (hown.open_lt hfd) ?_ ?_ rfl
        (List.nil_prefix (l := Writer.frameOf cfg msg)) ?_ ?_
      · rw [update_self, hplace.current]
      · intro u frame sent hcurrent
        by_contra hu
        rw [update_of_ne hu] at hcurrent
        exact hu (current_unique hown hplaced (hclaims c hfd) hcurrent hfd)
      · rw [hframe]
        exact update_self _ _ _
      · rw [List.append_nil]
        exact hwire
    · refine (h c).congr (update_of_ne hcd _ _) rfl (Nat.le_refl _) fun fd' hfd' => ⟨hfd', ?_⟩
      have hne : fd' ≠ fd := by
        intro heq
        subst heq
        have hfd'' : w.mem.fds fd' = some c := hfd'
        rw [hfd, Option.some.injEq] at hfd''
        exact hcd hfd''.symm
      exact fun u frame sent => current_update (holdNe fd') (hplace.current_fd {}) hne
  · rename_i hnot
    refine (h c).congr rfl rfl (Nat.le_refl _) fun fd' hfd' => ⟨hfd', fun u frame sent => ?_⟩
    by_cases hne : fd' = fd
    · -- Nothing was serialized, so there is no frame to finish.
      subst hne
      have hnil : Writer.frameOf cfg msg = [] := by
        cases hserialize : cfg.pb.serialize msg with
        | none => rw [Writer.frameOf, hserialize]
        | some payload => exact absurd hserialize (hnot c payload hfd')
      by_cases hu : u = t
      · subst hu
        have hdone : ({} : Writing).Finished (Writer.frameOf cfg msg) := Or.inr hnil.symm
        rw [update_self, hplace.current, if_pos hdone, hold]
      · rw [update_of_ne hu]
    · exact current_update (holdNe fd') (hplace.current_fd {}) hne

/-- What a writer offers to `send` is the rest of a frame that is not finished. -/
theorem not_finished_of_guard {frame : Bytes} {q : Writing} {o : SendOp}
    (h : (writeMonitor frame).guard q o) : ¬ q.Finished frame := by
  have ⟨hbuf, hok, hrest⟩ := h
  intro hfinished
  rcases hfinished with hfailed | hdone
  · rw [hok] at hfailed
    cases hfailed
  · have hlen := hrest.length_le
    rw [List.length_append, hdone] at hlen
    exact hbuf (List.length_eq_zero_iff.1 (by omega))

/-- One call of `send` by a thread that is in the middle of its frame. -/
theorem stream_send {t : Tid} {fd : Fd} {frame : Bytes} {place : Writing → Writer} {q : Writing}
    {o : SendOp} {qs : Tid → Phase} (want : Nat) (h : ∀ c, Stream w as c) (hown : w.mem.Owned qs)
    (hplaced : ∀ u, w.Placed u (as u)) (hplace : WritesAt fd frame place) (ht : as t = place q)
    (hfdo : o.fd = fd) (hguard : (writeMonitor frame).guard q o) (c : ConnId) :
    Stream (w.send o want).2 (update as t (place (q.after o (w.send o want).1))) c := by
  have hcurrent : (as t).current = some (fd, frame, q.sent) := by
    rw [ht, hplace.current, if_neg (not_finished_of_guard hguard)]
  have hold : ∀ fd', fd' ≠ fd → ∀ frame' sent, (as t).current ≠ some (fd', frame', sent) := by
    intro fd' hne frame' sent hcurrent'
    rw [hcurrent] at hcurrent'
    cases hcurrent'
    exact hne rfl
  unfold WireWorld.send
  split
  · rename_i hfd
    refine (h c).congr rfl rfl (Nat.le_refl _) fun fd' hfd' => ⟨hfd', fun u frame' sent => ?_⟩
    have hne : fd' ≠ fd := by
      intro heq
      rw [← hfdo] at heq
      subst heq
      have hfd'' : w.mem.fds o.fd = some c := hfd'
      rw [hfd] at hfd''
      cases hfd''
    exact current_update (hold fd' hne) (hplace.current_fd _) hne
  · rename_i d hfd
    rw [hfdo] at hfd
    by_cases hcd : c = d
    · subst hcd
      have hclaims := (hplaced t).claims hcurrent hfd
      have ⟨fs, hbegun, hwire⟩ := (h c).writing fd hfd t frame q.sent hcurrent
      -- The bytes that `send` took move from what is left to what was sent.
      have hpos : 0 < moved want o.buf.length := moved_pos (List.length_pos_iff.2 hguard.1)
      have hafter : q.after o ⟨(moved want o.buf.length : Nat),
          Int.ofNat_le.2 (Nat.min_le_right _ _)⟩ =
          { q with sent := q.sent ++ o.buf.take (moved want o.buf.length) } := by
        have hn : ¬ ((moved want o.buf.length : Nat) : Int) ≤ 0 := by omega
        exact if_neg hn
      dsimp only
      rw [hafter]
      refine stream_of_writer t
        { q with sent := q.sent ++ o.buf.take (moved want o.buf.length) } fs
        (fun fd' hfd' => hown.open_inj hfd' hfd) (hown.open_lt hfd) ?_ ?_ hguard.2.1 ?_ hbegun ?_
      · rw [update_self, hplace.current]
      · intro u frame' sent hu
        by_contra hne
        rw [update_of_ne hne] at hu
        exact hne (current_unique hown hplaced hclaims hu hfd)
      · exact ((List.prefix_append_right_inj q.sent).2 (List.take_prefix _ _)).trans hguard.2.2
      · show update w.wire c _ c = _
        rw [update_self, hwire, List.append_assoc]
    · refine (h c).congr rfl (update_of_ne hcd _ _) (Nat.le_refl _) fun fd' hfd' => ⟨hfd', ?_⟩
      have hne : fd' ≠ fd := by
        intro heq
        subst heq
        have hfd'' : w.mem.fds fd' = some c := hfd'
        rw [hfd, Option.some.injEq] at hfd''
        exact hcd hfd''.symm
      exact fun u frame' sent => current_update (hold fd' hne) (hplace.current_fd _) hne

/-! ## Operations above -/

/-- The descriptor table changes only where a handler closes its own. -/
theorem exec_fds {p : State} {phases : Tid → Phase} {t : Tid} {o : ServerOp}
    {k : o.Resp → Prog Server Ctl} {ch : Choice} {r : o.Resp} {w' : World} (h : Owned p phases)
    (hprog : p.prog t = .call (S := Server) o k) (he : p.shared.exec cfg t o ch = some (r, w'))
    (fd : Fd) :
    w'.mem.fds fd = p.shared.mem.fds fd ∨
      w'.mem.fds fd = none ∧ ∃ d, t = .handler d ∧ p.shared.mem.fds fd = some d := by
  rcases World.exec_mem_cases he with ⟨hf, _⟩ | ⟨fd', _, hm⟩ | ⟨fd', ho, hm⟩ |
    ⟨c, fd', u, a, _, _, hm⟩
  · rw [hf.fds]
    exact Or.inl rfl
  · rw [hm, Memory.removeSession_fds]
    exact Or.inl rfl
  · subst ho
    rw [hm]
    by_cases hfd : fd = fd'
    · subst hfd
      have hguard := h.allows hprog
      cases t with
      | watchdog => exact hguard.elim
      | handler d =>
        have ⟨hlife, hfd⟩ : (phases (.handler d)).life = .removed ∧ fd = (phases (.handler d)).fd :=
          hguard
        have ⟨hconn, hopen⟩ := h.2.1.serves d (by rw [hlife]; decide)
        refine Or.inr ⟨update_self _ _ _, d, rfl, ?_⟩
        rw [hfd, hconn]
        exact hopen
    · exact Or.inl (update_of_ne hfd _ _)
  · rw [hm, Memory.register_fds]
    exact Or.inl rfl

/-- An operation of another thread leaves a connection without a session to its
handler. -/
theorem exec_bare {p : State} {phases : Tid → Phase} {t u : Tid} {o : ServerOp}
    {k : o.Resp → Prog Server Ctl} {ch : Choice} {r : o.Resp} {w' : World} {fd : Fd}
    (h : Owned p phases) (hprog : p.prog t = .call (S := Server) o k)
    (he : p.shared.exec cfg t o ch = some (r, w')) (hne : u ≠ t) (hbare : p.shared.mem.Bare u fd) :
    w'.mem.Bare u fd := by
  have ⟨c, hu, hfd, hnone⟩ := hbare
  subst hu
  refine ⟨c, rfl, ?_, exec_unregistered he (Or.inl (Ne.symm hne)) hnone⟩
  rcases exec_fds h hprog he fd with hsame | ⟨_, d, ht, hd⟩
  · rw [hsame]
    exact hfd
  · rw [hfd, Option.some.injEq] at hd
    rw [ht, hd] at hne
    exact absurd rfl hne

theorem Writer.via_of_readFd {a : Writer} {s : SessionRef} {fd : Fd}
    (h : a.readFd = some (s, fd)) : a.via = some s := by
  cases a with
  | ready s' fd' =>
    cases h
    rfl
  | writing s' fd' frame q =>
    cases h
    rfl
  | idle | called | bare | waiting | locked => cases h

/-- An operation of another thread leaves a thread where it is. -/
theorem placed_exec {p : State} {phases : Tid → Phase} {t u : Tid} {o : ServerOp}
    {k : o.Resp → Prog Server Ctl} {ch : Choice} {r : o.Resp} {W' : World} {a : Writer}
    (h : Owned p phases) (hprog : p.prog t = .call (S := Server) o k)
    (he : p.shared.exec cfg t o ch = some (r, W')) (hmem : p.shared.mem = w.mem)
    (hmem' : W'.mem = w'.mem) (hne : u ≠ t)
    (hmutex : ∀ s, w.sendMutex s = some u → w'.sendMutex s = some u) (ha : w.Placed u a) :
    w'.Placed u a := by
  refine ⟨fun s hs => ?_, fun s hs => hmutex s (ha.mutex s hs), fun s fd hs => ?_, fun fd hfd => ?_⟩
  · rw [← hmem']
    refine exec_home he ?_
    rw [hmem]
    exact ha.home s hs
  · have hlt := (ha.home s (Writer.via_of_readFd hs)).allocated
    rw [ha.fd s fd hs, ← hmem', (exec_later he).socketFd s (hmem ▸ hlt), hmem]
  · rw [← hmem']
    refine exec_bare h hprog he hne ?_
    rw [hmem]
    exact ha.bare fd hfd

theorem placed_idle (w : WireWorld) (t : Tid) : w.Placed t .idle :=
  ⟨fun _ hs => (nomatch hs), fun _ hs => (nomatch hs), fun _ _ hs => (nomatch hs),
    fun _ hfd => (nomatch hfd)⟩

/-- A step after which the same threads are in the middle of the same frames,
and that opens no connection, leaves the streams as they are. -/
theorem streams_keep {t : Tid} {a : Writer} (h : ∀ c, Stream w as c)
    (hbegun : w'.begun = w.begun) (hwire : w'.wire = w.wire) (hold : (as t).current = none)
    (hnew : a.current = none) (hconn : w.mem.nextConn ≤ w'.mem.nextConn)
    (hfds : ∀ fd c, w'.mem.fds fd = some c → w.mem.fds fd = some c) (c : ConnId) :
    Stream w' (update as t a) c := by
  refine (h c).congr (congrFun hbegun c) (congrFun hwire c) hconn fun fd hfd =>
    ⟨hfds fd c hfd, fun u frame sent => ?_⟩
  by_cases hu : u = t
  · rw [hu, update_self, hold, hnew]
  · rw [update_of_ne hu]

/-! ## Operations of a tail -/

@[simp] theorem sendMessage_mem (w : WireWorld) (fd : Fd) (msg : ServerMsg) :
    (w.sendMessage cfg fd msg).mem = w.mem := by
  unfold WireWorld.sendMessage
  split <;> rfl

@[simp] theorem sendMessage_sendMutex (w : WireWorld) (fd : Fd) (msg : ServerMsg) :
    (w.sendMessage cfg fd msg).sendMutex = w.sendMutex := by
  unfold WireWorld.sendMessage
  split <;> rfl

@[simp] theorem send_mem (w : WireWorld) (o : SendOp) (want : Nat) :
    (w.send o want).2.mem = w.mem := by
  unfold WireWorld.send
  split <;> rfl

@[simp] theorem send_sendMutex (w : WireWorld) (o : SendOp) (want : Nat) :
    (w.send o want).2.sendMutex = w.sendMutex := by
  unfold WireWorld.send
  split <;> rfl

/-- Where a thread is depends on the memory and on the mutexes. -/
theorem WireWorld.Placed.congr {t : Tid} {a : Writer} (h : w.Placed t a) (hmem : w'.mem = w.mem)
    (hmutex : ∀ s, w.sendMutex s = some t → w'.sendMutex s = some t) : w'.Placed t a := by
  refine ⟨?_, fun s hs => hmutex s (h.mutex s hs), ?_, ?_⟩
  · rw [hmem]
    exact h.home
  · rw [hmem]
    exact h.fd
  · rw [hmem]
    exact h.bare

/-- Where the threads are, and what that says of the connections. -/
def Streams (w : WireWorld) (as : Tid → Writer) : Prop :=
  (∀ t, w.Placed t (as t)) ∧ ∀ c, Stream w as c

/-- An operation of a thread that is not in the middle of a frame, before and
after it, and that writes nothing. -/
theorem Streams.stay {t : Tid} {a : Writer} (h : Streams w as) (hmem : w'.mem = w.mem)
    (hbegun : w'.begun = w.begun) (hwire : w'.wire = w.wire) (hold : (as t).current = none)
    (hnew : a.current = none) (hplaced : w'.Placed t a)
    (hmutex : ∀ u, u ≠ t → ∀ s, w.sendMutex s = some u → w'.sendMutex s = some u) :
    Streams w' (update as t a) := by
  refine ⟨placed_update (fun u hu => (h.1 u).congr hmem (hmutex u hu)) hplaced, ?_⟩
  refine streams_keep h.2 hbegun hwire hold hnew (by rw [hmem]) fun fd c hfd => ?_
  rw [hmem] at hfd
  exact hfd

theorem streams_sendMessage {t : Tid} {fd : Fd} {msg : ServerMsg} {place : Writing → Writer}
    {qs : Tid → Phase} (h : Streams w as) (hown : w.mem.Owned qs)
    (hplace : WritesAt fd (Writer.frameOf cfg msg) place) (hplaced : w.Placed t (place {}))
    (hold : (as t).current = none)
    (hclaims : ∀ c, w.mem.fds fd = some c → (as t).Claims w.mem c) :
    Streams (w.sendMessage cfg fd msg) (update as t (place {})) := by
  refine ⟨fun u => ?_, stream_sendMessage h.2 hown h.1 hplace hold hclaims⟩
  refine (placed_update (fun u _ => h.1 u) hplaced u).congr (sendMessage_mem w fd msg) fun s hs => ?_
  rw [sendMessage_sendMutex]
  exact hs

theorem streams_send {t : Tid} {fd : Fd} {frame : Bytes} {place : Writing → Writer} {q : Writing}
    {o : SendOp} {ch : Choice} {r : WireOp.Resp (.send o)} {qs : Tid → Phase} (h : Streams w as)
    (hown : w.mem.Owned qs) (hplace : WritesAt fd frame place) (ht : as t = place q)
    (hfdo : o.fd = fd) (hguard : (writeMonitor frame).guard q o)
    (he : w.exec cfg t (.send o) ch = some (r, w')) :
    w'.mem = w.mem ∧ Streams w' (update as t (place (q.after o r))) := by
  have hx : w.send o ch.want = (r, w') := Option.some.inj he
  have hr : (w.send o ch.want).1 = r := congrArg Prod.fst hx
  have hw : (w.send o ch.want).2 = w' := congrArg Prod.snd hx
  subst hr hw
  have hplaced : w.Placed t (place q) := ht ▸ h.1 t
  have hafter := hplace.placed w t q (q.after o (w.send o ch.want).1)
    (not_finished_of_guard hguard) hplaced
  refine ⟨send_mem w o ch.want, fun u => ?_,
    stream_send ch.want h.2 hown h.1 hplace ht hfdo hguard⟩
  refine (placed_update (fun u _ => h.1 u) hafter u).congr (send_mem w o ch.want) fun s hs => ?_
  rw [send_sendMutex]
  exact hs

/-- The call of `send_message` by a thread that holds no mutex. -/
theorem streams_sendBare {t : Tid} {fd : Fd} {msg : ServerMsg} {qs : Tid → Phase}
    (h : Streams w as) (hown : w.mem.Owned qs) (ha : as t = .called fd) :
    Streams (w.sendMessage cfg fd msg)
      (update as t (.bare fd (Writer.frameOf cfg msg) {})) := by
  have hplaced : w.Placed t (.called fd) := ha ▸ h.1 t
  refine streams_sendMessage h hown (writesAt_bare fd (Writer.frameOf cfg msg)) ?_
    (by rw [ha]; rfl) fun c hc => ?_
  · refine ⟨fun s hs => (nomatch hs), fun s hs => (nomatch hs), fun s fd hs => (nomatch hs),
      fun fd' hfd => ?_⟩
    simp only [Writer.bareFd] at hfd
    split at hfd
    · cases hfd
    · cases hfd
      exact hplaced.bare fd rfl
  · rw [ha]
    exact Or.inl ⟨fd, rfl, hc⟩

/-- The call of `send_message` by a thread that holds the mutex of a session. -/
theorem streams_sendReady {t : Tid} {s : SessionRef} {fd : Fd} {msg : ServerMsg}
    {qs : Tid → Phase} (h : Streams w as) (hown : w.mem.Owned qs) (ha : as t = .ready s fd) :
    Streams (w.sendMessage cfg fd msg)
      (update as t (.writing s fd (Writer.frameOf cfg msg) {})) := by
  have hplaced : w.Placed t (.ready s fd) := ha ▸ h.1 t
  refine streams_sendMessage h hown (writesAt_writing s fd (Writer.frameOf cfg msg)) ?_
    (by rw [ha]; rfl) fun c hc => ?_
  · exact ⟨hplaced.home, hplaced.mutex, hplaced.fd, fun _ hs => (nomatch hs)⟩
  · rw [ha]
    refine Or.inr ⟨s, rfl, ?_⟩
    rw [← hplaced.fd s fd rfl]
    exact hc

theorem streams_lock {t : Tid} {s : SessionRef} {ch : Choice} {r : WireOp.Resp (.lock s)}
    (h : Streams w as) (ha : as t = .waiting s) (he : w.exec cfg t (.lock s) ch = some (r, w')) :
    w'.mem = w.mem ∧ Streams w' (update as t (.locked s)) := by
  have hplaced : w.Placed t (.waiting s) := ha ▸ h.1 t
  rw [WireWorld.exec] at he
  split at he
  · rename_i hfree
    cases he
    refine ⟨rfl, h.stay rfl rfl rfl (by rw [ha]; rfl) rfl ?_ fun u _ s' hs => ?_⟩
    · refine ⟨hplaced.home, fun s' hs => ?_, fun _ _ hs => (nomatch hs), fun _ hs => (nomatch hs)⟩
      cases hs
      exact update_self _ _ _
    · have hne : s' ≠ s := by
        intro heq
        rw [heq, hfree] at hs
        cases hs
      exact (update_of_ne hne _ _).trans hs
  · cases he

theorem streams_unlock {t : Tid} {s : SessionRef} {fd : Fd} {frame : Bytes} {q : Writing}
    {ch : Choice} {r : WireOp.Resp (.unlock s)} (h : Streams w as)
    (ha : as t = .writing s fd frame q) (hdone : q.Finished frame)
    (he : w.exec cfg t (.unlock s) ch = some (r, w')) :
    w'.mem = w.mem ∧ Streams w' (update as t .idle) := by
  have hplaced : w.Placed t (.writing s fd frame q) := ha ▸ h.1 t
  cases he
  refine ⟨rfl, h.stay rfl rfl rfl (by rw [ha]; exact if_pos hdone) rfl (placed_idle _ _)
    fun u hu s' hs => ?_⟩
  -- No other thread holds the mutex that is released.
  have hne : s' ≠ s := by
    intro heq
    rw [heq, hplaced.mutex s rfl] at hs
    exact hu (Option.some.inj hs).symm
  exact (update_of_ne hne _ _).trans hs

/-- An operation of a tail keeps the streams. -/
theorem streams_tail {t : Tid} {a : Writer} {o : WireOp} {ch : Choice} {r : o.Resp}
    {qs : Tid → Phase} (h : Streams w as) (hown : w.mem.Owned qs) (ha : as t = a)
    (hguard : a.Allows o) (he : w.exec cfg t o ch = some (r, w')) :
    w'.mem = w.mem ∧ Streams w' (update as t (a.after cfg o r)) := by
  cases a with
  | idle =>
    cases o with
    | unlockSessions =>
      cases he
      exact ⟨rfl, h.stay rfl rfl rfl (by rw [ha]; rfl) rfl (placed_idle _ _) fun _ _ _ hs => hs⟩
    | mem | lock | unlock | sendMessage | send | register => exact hguard.elim
  | called fd =>
    cases o with
    | sendMessage fd' msg =>
      cases he
      have hfd : fd' = fd := hguard
      subst hfd
      exact ⟨sendMessage_mem w fd' msg, streams_sendBare h hown ha⟩
    | mem | lock | unlock | send | register | unlockSessions => exact hguard.elim
  | bare fd frame q =>
    cases o with
    | send o => exact streams_send h hown (writesAt_bare fd frame) ha hguard.1 hguard.2 he
    | unlockSessions =>
      cases he
      have hold : (as t).current = none := by
        rw [ha]
        exact if_pos hguard
      exact ⟨rfl, h.stay rfl rfl rfl hold rfl (placed_idle _ _) fun _ _ _ hs => hs⟩
    | mem | lock | unlock | sendMessage | register => exact hguard.elim
  | waiting s =>
    cases o with
    | lock s' =>
      have hs : s' = s := hguard
      subst hs
      exact streams_lock h ha he
    | mem | sendMessage | unlock | send | register | unlockSessions => exact hguard.elim
  | locked s =>
    cases o with
    | mem o =>
      cases o with
      | read s' =>
        have hs : s' = s := hguard
        subst hs
        cases he
        have hplaced : w.Placed t (.locked s') := ha ▸ h.1 t
        refine ⟨rfl, h.stay rfl rfl rfl (by rw [ha]; rfl) rfl ?_ fun _ _ _ hs => hs⟩
        refine ⟨hplaced.home, hplaced.mutex, fun s fd hs => ?_, fun _ hs => (nomatch hs)⟩
        cases hs
        rfl
      | recv | dispatch | running | getPeerIp | getSession | removeSession | aliveSessions
        | findUser | listSessions | restore | setStatus | touch | now | markIdle | close =>
        exact hguard.elim
    | lock | sendMessage | unlock | send | register | unlockSessions => exact hguard.elim
  | ready s fd =>
    cases o with
    | sendMessage fd' msg =>
      cases he
      have hfd : fd' = fd := hguard
      subst hfd
      exact ⟨sendMessage_mem w fd' msg, streams_sendReady h hown ha⟩
    | mem | lock | unlock | send | register | unlockSessions => exact hguard.elim
  | writing s fd frame q =>
    cases o with
    | send o => exact streams_send h hown (writesAt_writing s fd frame) ha hguard.1 hguard.2 he
    | unlock s' =>
      have hs : s' = s := hguard.1
      subst hs
      exact streams_unlock h ha hguard.2 he
    | mem | lock | sendMessage | register | unlockSessions => exact hguard.elim

/-! ## The condition -/

/-- A thread uses the sessions whose `send_mutex` it locks and unlocks. -/
def lockers : Prog.Handles Wire SessionRef where
  uses o s := o = .lock s ∨ o = .unlock s
  gives
    | .mem o, r, s => Gives (.mem o) r s
    | .register _ username peerIp, r, s => (registerReply username peerIp r).1 = some s
    | _, _, _ => False

/-- The condition of `RepliesLocked` at this level: `accept` does not return the
number of a session whose mutex some thread may still lock or unlock, and no
registered client sends a frame that is answered bare. -/
def WireRepliesLocked (cfg : Config) (p : WireState) (l : Step) : Prop :=
  (∀ fd peerIp, l = .env (.accept fd peerIp) → ∀ t s, (p.prog t).Holds lockers s →
    (p.shared.mem.heap s).socketFd ≠ fd) ∧
  ∀ c ch o k, l = .op (.handler c) ch →
    p.prog (.handler c) = .call (S := Wire) (.mem o) k → p.shared.mem.BareAllowed cfg c o

/-- An operation of a tail may respond without handing a session out. -/
theorem Writer.Allows.not_gives {a : Writer} {o : WireOp} (h : a.Allows o) (s : SessionRef) :
    ∀ r, ¬ lockers.gives o r s := by
  intro r hg
  cases o with
  | mem o =>
    cases o with
    | read s' => exact hg
    | recv | dispatch | running | getPeerIp | getSession | removeSession | aliveSessions
      | findUser | listSessions | restore | setStatus | touch | now | markIdle | close =>
      cases a <;> exact h.elim
  | register fd u a' => cases a <;> exact h.elim
  | lock | unlock | sendMessage | send | unlockSessions => exact hg

theorem Writer.Allows.exists_resp {a : Writer} {o : WireOp} (h : a.Allows o) :
    Nonempty o.Resp := by
  cases o with
  | mem o =>
    cases o with
    | read s' => exact ⟨Memory.init.heap 0⟩
    | recv | dispatch | running | getPeerIp | getSession | removeSession | aliveSessions
      | findUser | listSessions | restore | setStatus | touch | now | markIdle | close =>
      cases a <;> exact h.elim
  | register fd u a' => cases a <;> exact h.elim
  | send o => exact ⟨⟨-1, by omega⟩⟩
  | lock | unlock | sendMessage | unlockSessions => exact ⟨()⟩

/-- A thread writes through its session until it unlocks the mutex. -/
theorem Writer.Allows.after_via {a : Writer} {o : WireOp} {s : SessionRef} (h : a.Allows o)
    (hvia : a.via = some s) (huse : ¬ lockers.uses o s) (r : o.Resp) :
    (a.after cfg o r).via = some s := by
  cases a with
  | idle | called | bare => cases hvia
  | waiting s' =>
    cases hvia
    cases o with
    | lock => rfl
    | mem | unlock | sendMessage | send | register | unlockSessions => exact h.elim
  | locked s' =>
    cases hvia
    cases o with
    | mem o =>
      cases o with
      | read => rfl
      | recv | dispatch | running | getPeerIp | getSession | removeSession | aliveSessions
        | findUser | listSessions | restore | setStatus | touch | now | markIdle | close =>
        exact h.elim
    | lock | unlock | sendMessage | send | register | unlockSessions => exact h.elim
  | ready s' fd =>
    cases hvia
    cases o with
    | sendMessage => rfl
    | mem | lock | unlock | send | register | unlockSessions => exact h.elim
  | writing s' fd frame q =>
    cases hvia
    cases o with
    | send => rfl
    | unlock s'' => exact absurd (Or.inr (by rw [show s'' = s from h.1])) huse
    | mem | lock | sendMessage | register | unlockSessions => exact h.elim

/-- A thread that writes through a session will unlock its mutex. -/
theorem tail_holds {tail : Prog Wire Unit} {a : Writer} {s : SessionRef}
    (h : tail.Obeys (writerMonitor cfg) (fun _ b => b.Idle) a) (hvia : a.via = some s) :
    tail.Holds lockers s := by
  refine Prog.Holds.of_obeys (P := fun a => a.via = some s) h hvia (fun a o hvia hguard => ?_)
    fun _ a hidle hvia => ?_
  · have hallows : a.Allows o := hguard
    by_cases huse : lockers.uses o s
    · exact Or.inl huse
    · have ⟨r⟩ := hallows.exists_resp
      refine Or.inr ⟨r, hallows.not_gives s r, fun a' ha' => ?_⟩
      rw [show a' = a.after cfg o r from ha']
      exact hallows.after_via hvia huse r
  · cases a with
    | idle | called | bare => cases hvia
    | waiting | locked | ready | writing => exact hidle.elim

/-- What a thread may still write through above, it may still lock below. -/
theorem lower_holds {p : Prog Server Ctl} {s : SessionRef} (h : p.Holds writers s) :
    (p.lower (wireLowering cfg)).Holds lockers s := by
  refine h.lower (fun o huse => ?_) (fun o r hg => ?_) fun o r => ?_
  · have ⟨msg, ho⟩ := huse
    subst ho
    exact Or.inl rfl
  · cases o with
    | mem o => exact ⟨r, rfl, hg⟩
    | sendBare fd msg => exact ⟨(), rfl, fun h => h⟩
    | sendLocked s' msg => exact ⟨(), rfl, fun h => h⟩
    | register fd u a => exact ⟨r, rfl, hg⟩
  · refine (tail_obeys o r).only fun a o' hallows => ?_
    have ⟨r'⟩ := Writer.Allows.exists_resp hallows
    exact ⟨r', Writer.Allows.not_gives hallows s r'⟩

/-! ## Every run -/

/-- The two levels have the same memory, and a handler that has not started
writes nothing. -/
structure Related (low : WireWorld) (high : World) (as : Tid → Writer) : Prop where
  mem : high.mem = low.mem
  streams : Streams low as
  fresh : ∀ c, low.mem.nextConn ≤ c → (as (.handler c)).Idle

theorem Writer.Idle.after {a : Writer} {o : WireOp} (h : a.Idle) (hallows : a.Allows o)
    (r : o.Resp) : (a.after cfg o r).Idle := by
  cases a with
  | idle =>
    cases o with
    | unlockSessions => trivial
    | mem | lock | unlock | sendMessage | send | register => exact hallows.elim
  | bare fd frame q =>
    cases o with
    | unlockSessions => trivial
    | send o => exact absurd h (not_finished_of_guard hallows.2)
    | mem | lock | unlock | sendMessage | register => exact hallows.elim
  | called | waiting | locked | ready | writing => exact h.elim

/-- An operation of `Server` on the two levels. -/
theorem exec_lower {high : World} {t : Tid} {o : ServerOp} {ch : Choice}
    {r : WireOp.Resp ((wireLowering cfg).op o)} (hmem : high.mem = w.mem)
    (he : w.exec cfg t ((wireLowering cfg).op o) ch = some (r, w')) :
    ∃ hw, high.exec cfg t o ch = some ((wireLowering cfg).resp o r, hw) ∧ hw.mem = w'.mem := by
  cases o with
  | mem o =>
    simp only [wireLowering, WireWorld.exec] at he
    split at he
    · cases he
    · rw [Option.map_eq_some_iff] at he
      have ⟨⟨r', m'⟩, hexec, hx⟩ := he
      cases hx
      rw [← hmem] at hexec
      exact ⟨{ high with mem := m' }, World.exec_mem hexec, rfl⟩
  | sendBare fd msg =>
    cases he
    refine ⟨_, rfl, ?_⟩
    rw [World.write_mem, hmem]
    exact (sendMessage_mem w fd msg).symm
  | sendLocked s msg =>
    simp only [wireLowering, WireWorld.exec] at he
    split at he
    · cases he
      exact ⟨_, rfl, by rw [World.write_mem, hmem]⟩
    · cases he
  | register fd u a =>
    cases t with
    | watchdog => cases he
    | handler c =>
      simp only [wireLowering, WireWorld.exec] at he
      split at he
      · cases he
        refine ⟨_, World.exec_register.2 ⟨?_, rfl⟩, ?_⟩
        · rw [hmem]
          rfl
        · rw [World.reply_mem, hmem]
      · cases he

/-- A thread that replies through a session waits for its mutex. -/
theorem placed_waiting {t : Tid} {s : SessionRef} (h : w.mem.Home s) : w.Placed t (.waiting s) := by
  refine ⟨fun s' hs => ?_, fun _ hs => (nomatch hs), fun _ _ hs => (nomatch hs),
    fun _ hfd => (nomatch hfd)⟩
  cases hs
  exact h

theorem placed_called {t : Tid} {fd : Fd} (h : w.mem.Bare t fd) : w.Placed t (.called fd) := by
  refine ⟨fun _ hs => (nomatch hs), fun _ hs => (nomatch hs), fun _ _ hs => (nomatch hs),
    fun fd' hfd => ?_⟩
  cases hfd
  exact h

/-- Where the handler is after the locked block of `handle_register`. -/
theorem placed_register {q : State} {c : ConnId} {fd : Fd} {u a : String}
    {r : Memory.RegisterOutcome} {k : Memory.RegisterOutcome → Prog Server Ctl} {ch : Choice}
    {hw : World} (hr : (system cfg).Reaches (RepliesLocked cfg) q)
    (hD : RepliesLocked cfg q (.op (.handler c) ch))
    (hprog : q.prog (.handler c) = .call (S := Server) (.register fd u a) k)
    (he : q.shared.exec cfg (.handler c) (.register fd u a) ch = some (r, hw))
    (hmem : hw.mem = w.mem) :
    w.Placed (.handler c) (.ofReply fd (registerReply u a r).1) := by
  have ⟨qs, hq⟩ := reachable_owned hr
  have hstep : (system cfg).step q (.op (.handler c) ch) =
      some (q.afterOp (S := Server) (.handler c) (.register fd u a) k r hw) :=
    Machine.step_op.2 ⟨.register fd u a, k, r, hw, hprog, he, rfl⟩
  have ⟨qs', hq'⟩ := reachable_owned (hr.tail hD hstep)
  have hown' : hw.mem.Owned qs' := hq'.2.1
  have ⟨hreg, hhw⟩ := World.exec_register.1 he
  have hmemReg : hw.mem = (q.shared.mem.register c fd u a).2 := by
    rw [hhw, World.reply_mem]
  cases hvia : (registerReply u a r).1 with
  | some s =>
    rw [hreg] at hvia
    have hlookup := registerReply_via hvia
    rw [← hmemReg] at hlookup
    refine placed_waiting ?_
    rw [← hmem]
    exact hown'.home hlookup
  | none =>
    refine placed_called ?_
    have hallows : (qs (.handler c)).Allows (.register fd u a) := hq.allows hprog
    have ⟨hserving, hfd, _⟩ :
        (qs (.handler c)).life = .serving ∧ fd = (qs (.handler c)).fd ∧ u ≠ "" := hallows
    have ⟨hconn, hopen⟩ := hq.2.1.serves c (by rw [hserving]; decide)
    have hfdc : (q.shared.mem.conns c).fd = fd := by rw [hfd, hconn]
    rw [← hmem, hmemReg]
    refine ⟨c, rfl, ?_, ?_⟩
    · rw [Memory.register_fds, ← hfdc]
      exact hopen
    · -- The block has changed nothing, and the descriptor had no session.
      have hrejected : (q.shared.mem.register c fd u a).2 = q.shared.mem ∧
          q.shared.mem.registry.sessions.lookup fd = none := by
        rcases Memory.register_cases q.shared.mem c fd u a with ⟨s, _, hr'⟩ | ⟨hnone, _, hr'⟩ |
          ⟨hnone, _, _, hr'⟩ | ⟨_, _, _, hr'⟩
        · rw [hreg, hr'] at hvia
          cases hvia
        · exact ⟨by rw [hr'], Finmap.lookup_eq_none.2 hnone⟩
        · exact ⟨by rw [hr'], Finmap.lookup_eq_none.2 hnone⟩
        · rw [hreg, hr'] at hvia
          cases hvia
      rw [hrejected.1]
      refine hq.2.1.unregistered hserving ?_
      rw [hfdc]
      exact hrejected.2

/-- The first of the operations that stand for one of `Server` keeps the
streams. -/
theorem streams_start {q : State} {t : Tid} {o : ServerOp} {k : o.Resp → Prog Server Ctl}
    {ch : Choice} {r : WireOp.Resp ((wireLowering cfg).op o)} {hw : World}
    (hr : (system cfg).Reaches (RepliesLocked cfg) q) (hD : RepliesLocked cfg q (.op t ch))
    (hprog : q.prog t = .call (S := Server) o k) (hmem : q.shared.mem = w.mem) (h : Streams w as)
    (hidle : (as t).Idle) (he : w.exec cfg t ((wireLowering cfg).op o) ch = some (r, w'))
    (he' : q.shared.exec cfg t o ch = some ((wireLowering cfg).resp o r, hw))
    (hmem' : hw.mem = w'.mem) : Streams w' (update as t (Writer.start cfg o r)) := by
  have ⟨qs, hq⟩ := reachable_owned hr
  have hown : w.mem.Owned qs := hmem ▸ hq.2.1
  have hcurrent : (as t).current = none := Writer.idle_current hidle
  have hconn : w.mem.nextConn ≤ w'.mem.nextConn := by
    rw [← hmem, ← hmem']
    exact (exec_later he').nextConn
  have hfds : ∀ fd c, w'.mem.fds fd = some c → w.mem.fds fd = some c := by
    intro fd c hc
    rw [← hmem'] at hc
    rw [← hmem]
    rcases exec_fds hq hprog he' fd with hsame | ⟨hclosed, _⟩
    · rw [← hsame]
      exact hc
    · rw [hclosed] at hc
      cases hc
  have hplaced : ∀ a : Writer, w'.Placed t a → w'.sendMutex = w.sendMutex →
      ∀ u, w'.Placed u (update as t a u) := by
    intro a ha hmutex
    refine placed_update (fun u hu => ?_) ha
    refine placed_exec hq hprog he' hmem hmem' hu (fun s hs => ?_) (h.1 u)
    rw [hmutex]
    exact hs
  cases o with
  | mem o =>
    simp only [wireLowering, WireWorld.exec] at he
    split at he
    · cases he
    · rw [Option.map_eq_some_iff] at he
      have ⟨_, _, hx⟩ := he
      cases hx
      exact ⟨hplaced .idle (placed_idle _ _) rfl,
        streams_keep h.2 rfl rfl hcurrent rfl hconn hfds⟩
  | sendBare fd msg =>
    have hx : ((), w.sendMessage cfg fd msg) = (r, w') := Option.some.inj he
    cases hx
    have ⟨c, ht, hfd, hnone⟩ := sendBare_unregistered hr hprog
    rw [hmem] at hfd hnone
    have hbare : w.mem.Bare t fd := ⟨c, ht, hfd, hnone⟩
    -- The call of `send_message` is taken as one more operation of the tail.
    have hcalled : Streams w (update as t (.called fd)) :=
      h.stay rfl rfl rfl hcurrent rfl (placed_called hbare) fun _ _ _ hs => hs
    have hsent : Streams (w.sendMessage cfg fd msg)
        (update (update as t (.called fd)) t (.bare fd (Writer.frameOf cfg msg) {})) :=
      streams_sendBare hcalled hown (update_self _ _ _)
    rw [update_idem] at hsent
    exact hsent
  | sendLocked s msg =>
    have hhome : w.mem.Home s := by
      rw [← hmem]
      refine (writes_home (hr.mono fun _ _ hl => hl.1)).1 t s ?_
      rw [Writes, hprog]
      exact .here ⟨msg, rfl⟩
    have hwaiting : Streams w (update as t (.waiting s)) :=
      h.stay rfl rfl rfl hcurrent rfl (placed_waiting hhome) fun _ _ _ hs => hs
    have hlocked := streams_lock hwaiting (update_self _ _ _) he
    rw [update_idem] at hlocked
    exact hlocked.2
  | register fd u a =>
    cases t with
    | watchdog => cases he
    | handler c =>
      simp only [wireLowering, WireWorld.exec] at he
      split at he
      · cases he
        refine ⟨hplaced _ (placed_register hr hD hprog he' hmem') rfl, ?_⟩
        exact streams_keep h.2 rfl rfl hcurrent (Writer.ofReply_current _ _) hconn hfds
      · cases he

/-- A step of the environment on the two levels. -/
theorem env_lower {high : World} {e : Env} {start : Option (Tid × Ctl)} (hmem : high.mem = w.mem)
    (he : w.env e = some (w', start)) :
    high.env e = some ({ high with mem := w'.mem }, start) ∧
      w' = { w with mem := w'.mem } := by
  rw [WireWorld.env, Option.map_eq_some_iff] at he
  have ⟨⟨v, start'⟩, hv, hx⟩ := he
  cases hx
  refine ⟨?_, rfl⟩
  cases e with
  | tick d =>
    cases hv
    rw [World.env, hmem]
  | accept fd peerIp | clientSend c bs | clientClose c =>
    rw [World.env] at hv ⊢
    rw [hmem]
    split at hv
    · rename_i hc
      cases hv
      exact if_pos hc
    · cases hv

theorem WireWorld.Placed.frame {t : Tid} {a : Writer} (h : w.Placed t a)
    (hf : w.mem.Frame w'.mem) (hmutex : w'.sendMutex = w.sendMutex) : w'.Placed t a := by
  refine ⟨fun s hs => (h.home s hs).frame hf, fun s hs => ?_, fun s fd hs => ?_, fun fd hfd => ?_⟩
  · rw [hmutex]
    exact h.mutex s hs
  · rw [hf.socketFd]
    exact h.fd s fd hs
  · have ⟨c, ht, hopen, hnone⟩ := h.bare fd hfd
    refine ⟨c, ht, by rw [hf.fds]; exact hopen, fun s hs => ?_⟩
    rw [hf.registeredOn]
    exact hnone s (hf.nextRef ▸ hs)

/-- A connection that is accepted under a number that no thread writes to. -/
theorem streams_accept {qs : Tid → Phase} {fd : Fd} {peerIp : String} (h : Streams w as)
    (hown : w.mem.Owned qs) (hclosed : w.mem.fds fd = none)
    (hfresh : (as (.handler w.mem.nextConn)).Idle)
    (hstale : ∀ t s, (as t).via = some s → (w.mem.heap s).socketFd ≠ fd) :
    Streams { w with mem := w.mem.accept fd peerIp }
      (update as (.handler w.mem.nextConn) .idle) := by
  have hne : ∀ fd' c, w.mem.fds fd' = some c → fd' ≠ fd := by
    intro fd' c hc heq
    rw [heq, hclosed] at hc
    cases hc
  have hcurrent : ∀ u frame sent, (as u).current ≠ some (fd, frame, sent) := by
    intro u frame sent hu
    have hplaced := h.1 u
    cases hau : as u with
    | bare fd' frame' q =>
      rw [hau] at hu hplaced
      simp only [Writer.current] at hu
      split at hu
      · cases hu
      · rename_i hfinished
        cases hu
        have ⟨c, _, hc, _⟩ := hplaced.bare fd (if_neg hfinished)
        exact hne fd c hc rfl
    | writing s fd' frame' q =>
      rw [hau] at hu hplaced
      simp only [Writer.current] at hu
      split at hu
      · cases hu
      · cases hu
        exact hstale u s (by rw [hau]; rfl) (hplaced.fd s fd rfl).symm
    | idle | called | waiting | locked | ready =>
      rw [hau] at hu
      cases hu
  refine ⟨placed_update (fun u _ => ?_) (placed_idle _ _), fun c => ?_⟩
  · refine ⟨fun s hs => ((h.1 u).home s hs).accept peerIp (hstale u s hs), (h.1 u).mutex, (h.1 u).fd,
      fun fd' hfd' => ?_⟩
    have ⟨c, hu, hopen, hnone⟩ := (h.1 u).bare fd' hfd'
    refine ⟨c, hu, ?_, hnone⟩
    exact (update_of_ne (hne fd' c hopen) _ _).trans hopen
  · by_cases hc : c = w.mem.nextConn
    · -- Nothing was written to the new connection.
      have ⟨hbegun, hwire⟩ := (h.2 c).fresh (Nat.le_of_eq hc.symm)
      have hnone : ∀ fd', (w.mem.accept fd peerIp).fds fd' = some c → ∀ u frame sent,
          (update as (.handler w.mem.nextConn) .idle u).current ≠ some (fd', frame, sent) := by
        intro fd' hfd' u frame sent hu
        have hfd : fd' = fd := by
          by_contra hnot
          have hold : w.mem.fds fd' = some c := (update_of_ne hnot _ _).symm.trans hfd'
          exact absurd (hown.open_lt hold) (by rw [hc]; exact Nat.lt_irrefl _)
        rw [hfd] at hu
        by_cases hut : u = .handler w.mem.nextConn
        · rw [hut, update_self] at hu
          cases hu
        · rw [update_of_ne hut] at hu
          exact hcurrent u frame sent hu
      refine ⟨fun fd' hfd' u frame sent hu => absurd hu (hnone fd' hfd' u frame sent),
        fun fd' _ _ => ?_, ?_, fun _ => ⟨hbegun, hwire⟩⟩
      · show w.wire c = (w.begun c).flatten
        rw [hbegun, hwire]
        rfl
      · show WholeFrames (w.begun c) (w.wire c)
        rw [hbegun, hwire]
        exact ⟨List.nil_prefix, List.nil_prefix⟩
    · refine (h.2 c).congr rfl rfl (Nat.le_succ _) fun fd' hfd' => ?_
      have hold : w.mem.fds fd' = some c := by
        by_cases heq : fd' = fd
        · have hnew : some w.mem.nextConn = some c := by
            rw [← hfd', heq]
            exact (update_self fd (some w.mem.nextConn) w.mem.fds).symm
          exact absurd (Option.some.inj hnew).symm hc
        · exact (update_of_ne heq _ _).symm.trans hfd'
      refine ⟨hold, fun u frame sent => ?_⟩
      by_cases hut : u = .handler w.mem.nextConn
      · rw [hut, update_self, Writer.idle_current hfresh]
        rfl
      · rw [update_of_ne hut]

/-- The environment's steps that open no connection. -/
theorem Related.frame {low low' : WireWorld} {high high' : World} (h : Related low high as)
    (hf : low.mem.Frame low'.mem) (hlow : low' = { low with mem := low'.mem })
    (hhigh : high'.mem = low'.mem) : Related low' high' as := by
  refine ⟨hhigh, ⟨fun u => (h.streams.1 u).frame hf (by rw [hlow]), fun c => ?_⟩, fun c hc => ?_⟩
  · refine (h.streams.2 c).congr (by rw [hlow]) (by rw [hlow]) (Nat.le_of_eq hf.nextConn.symm)
      fun fd hfd => ⟨?_, fun _ _ _ => Iff.rfl⟩
    rw [hf.fds] at hfd
    exact hfd
  · rw [hf.nextConn] at hc
    exact h.fresh c hc

theorem Related.accept {low low' : WireWorld} {high high' : World} {qs : Tid → Phase} {fd : Fd}
    {peerIp : String} (h : Related low high as) (hown : low.mem.Owned qs)
    (hclosed : low.mem.fds fd = none)
    (hstale : ∀ t s, (as t).via = some s → (low.mem.heap s).socketFd ≠ fd)
    (hlow : low' = { low with mem := low.mem.accept fd peerIp })
    (hhigh : high'.mem = low'.mem) :
    Related low' high' (update as (.handler low.mem.nextConn) .idle) := by
  subst hlow
  refine ⟨hhigh, streams_accept h.streams hown hclosed (h.fresh _ (Nat.le_refl _)) hstale,
    fun c hc => ?_⟩
  have hlt : low.mem.nextConn < c := hc
  have hne : (.handler c : Tid) ≠ .handler low.mem.nextConn := by
    intro heq
    exact Nat.ne_of_gt hlt (Tid.handler.inj heq)
  rw [update_of_ne hne]
  exact h.fresh c (Nat.le_of_lt hlt)

/-- The server at the level of single calls of `send` does what it does at the
level of frames. -/
theorem wire_simulates (cfg : Config) :
    Machine.Simulates (wireMachine cfg) (machine cfg) (wireLowering cfg) (fun _ => writerMonitor cfg)
      Writer.Idle Related (WireRepliesLocked cfg) (RepliesLocked cfg)
      (fun q => (system cfg).Reaches (RepliesLocked cfg) q) where
  resume _ _ := rfl
  jump _ _ := ⟨trivial, fun _ _ _ _ hl => (nomatch hl)⟩
  op p q as t ch o k r w hr hl hJ hC hidle hp hq he := by
    have hD : RepliesLocked cfg q (.op t ch) := by
      refine ⟨trivial, fun c ch' o' k' hlabel hprog => ?_⟩
      cases hlabel
      rw [hq] at hprog
      cases hprog
      have hallowed := hC.2 c ch o' (fun r => (k' r).lower (wireLowering cfg)) rfl hp
      rw [← hJ.mem] at hallowed
      exact hallowed
    have ⟨hw, he', hmem'⟩ := exec_lower hJ.mem he
    refine ⟨hD, hw, Writer.start cfg o r, he', tail_obeys o r, hmem', ?_, fun c hc => ?_⟩
    · exact streams_start hr hD hq hJ.mem hJ.streams hidle he he' hmem'
    · rw [← hmem'] at hc
      have hconn := (exec_later he').nextConn
      have ⟨qs, hown⟩ := reachable_owned hr
      by_cases ht : .handler c = t
      · subst ht
        exact absurd (hown.lt_nextConn hq) (Nat.not_lt.2 (hconn.trans hc))
      · rw [update_of_ne ht]
        refine hJ.fresh c ?_
        rw [← hJ.mem]
        exact hconn.trans hc
  tail s q as t ch o r w a hr hJ hguard hnext he := by
    have ⟨qs, hown⟩ := reachable_owned hr
    have hmem : s.mem.Owned qs := hJ.mem ▸ hown.2.1
    rw [show a = (as t).after cfg o r from hnext]
    have ⟨hw, hstreams⟩ := streams_tail hJ.streams hmem rfl hguard he
    refine ⟨by rw [hw]; exact hJ.mem, hstreams, fun c hc => ?_⟩
    rw [hw] at hc
    by_cases ht : .handler c = t
    · subst ht
      rw [update_self]
      exact (hJ.fresh c hc).after hguard r
    · rw [update_of_ne ht]
      exact hJ.fresh c hc
  env p q as e w start hr hl hJ hC he := by
    have ⟨qs, hown⟩ := reachable_owned hr
    have hmem : p.shared.mem.Owned qs := hJ.mem ▸ hown.2.1
    have ⟨hhigh, hw⟩ := env_lower hJ.mem he
    have hstale : ∀ fd peerIp, e = .accept fd peerIp → ∀ t s, (p.prog t).Holds lockers s →
        (p.shared.mem.heap s).socketFd ≠ fd := fun fd peerIp hacc =>
      hC.1 fd peerIp (by rw [hacc])
    refine ⟨⟨?_, fun _ _ _ _ hlabel => (nomatch hlabel)⟩,
      { q.shared with mem := w.mem }, ?_⟩
    · cases e with
      | accept fd peerIp =>
        intro t s hwrites
        rw [hJ.mem]
        refine hstale fd peerIp rfl t s ?_
        have ⟨tail, hobeys, heq⟩ := hl t
        rw [heq]
        refine .bind_right (hobeys.only fun a o hallows => ?_) fun _ => lower_holds hwrites
        have ⟨r⟩ := Writer.Allows.exists_resp hallows
        exact ⟨r, Writer.Allows.not_gives hallows s r⟩
      | clientSend | clientClose | tick => trivial
    · rcases World.env_mem_cases hhigh with ⟨hstart, hf, _⟩ | ⟨fd, peerIp, hacc, hclosed, hstart, hx⟩
      · rw [hJ.mem] at hf
        refine ⟨as, hhigh, fun _ _ => rfl, fun t c hc => ?_, hJ.frame hf hw rfl⟩
        rw [hstart] at hc
        cases hc
      · have hwmem : w.mem = p.shared.mem.accept fd peerIp := by
          rw [← hJ.mem]
          exact congrArg World.mem hx
        rw [hJ.mem] at hclosed hstart
        refine ⟨update as (.handler p.shared.mem.nextConn) .idle, hhigh, fun t ht => ?_,
          fun t c hc => ?_, hJ.accept hmem hclosed (fun t s hvia => hstale fd peerIp hacc t s ?_)
            (by rw [hw, hwmem]) rfl⟩
        · refine update_of_ne (fun heq => ?_) _ _
          subst heq
          exact ht _ hstart
        · rw [hstart] at hc
          cases hc
          rw [update_self]
          trivial
        · have ⟨tail, hobeys, heq⟩ := hl t
          rw [heq]
          exact (tail_holds hobeys hvia).bind_left _

/-- In every run that meets the condition, the bytes on every connection are
those of whole frames, but the last may not be finished. -/
theorem frames_whole {cfg : Config} {p : WireState}
    (h : (wireSystem cfg).Reaches (WireRepliesLocked cfg) p) (c : ConnId) :
    WholeFrames (p.shared.begun c) (p.shared.wire c) := by
  have hinit : Related ⟨.init, none, fun _ => none, fun _ => [], fun _ => []⟩
      ⟨.init, fun _ => []⟩ fun _ => .idle := by
    refine ⟨rfl, ⟨fun t => placed_idle _ t, fun c => ?_⟩, fun _ _ => trivial⟩
    exact ⟨fun _ hfd => (nomatch hfd), fun _ hfd => (nomatch hfd),
      ⟨List.nil_prefix, List.nil_prefix⟩, fun _ => ⟨rfl, rfl⟩⟩
  have hidle : ∀ _ : Tid, Writer.idle.Idle := fun _ => trivial
  have ⟨q, as, _, _, hJ⟩ := (wire_simulates cfg).steps h hidle hinit
  exact (hJ.streams.2 c).whole

/-- The condition on a step that is no `accept`, for evaluation. -/
def RepliesLockedNext (cfg : Config) (p : WireState) : Step → Prop
  | .env (.accept _ _) => False
  | .op (.handler c) _ =>
    match p.prog (.handler c) with
    | .call (.mem o) _ => p.shared.mem.BareAllowed cfg c o
    | _ => True
  | _ => True

instance (cfg : Config) (p : WireState) : (l : Step) → Decidable (RepliesLockedNext cfg p l)
  | .env (.accept _ _) => inferInstanceAs (Decidable False)
  | .env (.tick _) => inferInstanceAs (Decidable True)
  | .env (.clientSend _ _) => inferInstanceAs (Decidable True)
  | .env (.clientClose _) => inferInstanceAs (Decidable True)
  | .jump _ => inferInstanceAs (Decidable True)
  | .op .watchdog _ => inferInstanceAs (Decidable True)
  | .op (.handler c) ch =>
    match hp : p.prog (.handler c) with
    | .call (.mem o) k =>
      decidable_of_iff (p.shared.mem.BareAllowed cfg c o) (by rw [RepliesLockedNext, hp])
    | .call (.lock _) _ | .call (.unlock _) _ | .call (.sendMessage _ _) _ | .call (.send _) _
    | .call (.register _ _ _) _ | .call .unlockSessions _ | .ret _ =>
      isTrue (by simp only [RepliesLockedNext, hp])

theorem RepliesLockedNext.repliesLocked {p : WireState} {l : Step} (h : RepliesLockedNext cfg p l) :
    WireRepliesLocked cfg p l := by
  refine ⟨fun fd peerIp hl => ?_, fun c ch o k hl hprog => ?_⟩
  · subst hl
    exact h.elim
  · subst hl
    simp only [RepliesLockedNext, hprog] at h
    exact h

/-- A connection may be accepted while every thread is between two turns. -/
theorem repliesLocked_accept {p : WireState} (h : ∀ t, ∃ ctl, p.prog t = .ret ctl) (fd : Fd)
    (peerIp : String) : WireRepliesLocked cfg p (.env (.accept fd peerIp)) := by
  refine ⟨fun _ _ _ t s hholds => ?_, fun _ _ _ _ hl => (nomatch hl)⟩
  have ⟨ctl, hctl⟩ := h t
  rw [hctl] at hholds
  exact absurd hholds Prog.not_holds_ret

/-- A step of the environment starts a thread between two turns, if any. -/
theorem env_between {p p' : WireState} {e : Env} (h : ∀ t, ∃ ctl, p.prog t = .ret ctl)
    (hs : (wireSystem cfg).step p (.env e) = some p') (t : Tid) : ∃ ctl, p'.prog t = .ret ctl := by
  obtain ⟨w, start, _, rfl⟩ := Machine.step_env.1 hs
  rcases start with _ | ⟨u, ctl⟩
  · exact h t
  · rw [Pool.afterEnv_some_prog]
    by_cases ht : t = u
    · rw [ht, update_self]
      exact ⟨ctl, rfl⟩
    · rw [update_of_ne ht]
      exact h t

/-- Two clients are connected.  They register, and both broadcast "hi".  The frame of
"b" for "a" was sent, and the handler of "a" has sent the header of the frame that it
writes to the same connection. -/
def crossRun : List Step :=
  .env (.clientSend 0 [1, 0, 0, 0, 3, 10, 1, 97]) :: turn (.handler 0) 13 ++
  .env (.clientSend 1 [1, 0, 0, 0, 3, 10, 1, 98]) :: turn (.handler 1) 13 ++
  [.env (.clientSend 0 [2, 0, 0, 0, 4, 10, 2, 104, 105]),
    .env (.clientSend 1 [2, 0, 0, 0, 4, 10, 2, 104, 105])] ++
    turn (.handler 0) 8 ++ turn (.handler 1) 8 ++
  [.op (.handler 0) { order := [4, 5] }, .op (.handler 1) { order := [4, 5] }] ++
    List.replicate 6 (.op (.handler 1) { want := 100 }) ++
    List.replicate 4 (.op (.handler 0) { want := 100 })

/-- The frames of two handlers to one connection. -/
theorem frames_whole_registered :
    ∃ p, (wireSystem sampleConfig).Reaches (WireRepliesLocked sampleConfig) p ∧
      (p.shared.begun 0).tail =
        [[13, 0, 0, 0, 7, 10, 2, 104, 105, 18, 1, 98],
          [13, 0, 0, 0, 7, 10, 2, 104, 105, 18, 1, 97]] ∧
      p.shared.wire 0 = ((p.shared.begun 0).take 2).flatten ++ [13, 0, 0, 0, 7] ∧
      (p.shared.begun 1).length = 1 ∧
      ∀ c, WholeFrames (p.shared.begun c) (p.shared.wire c) := by
  have hrun : (((wireSystem sampleConfig).step (wireSystem sampleConfig).init
      (.env (.accept 4 "10.0.0.1"))).bind fun q₀ =>
        ((wireSystem sampleConfig).step q₀ (.env (.accept 5 "10.0.0.2"))).bind fun q =>
          (wireSystem sampleConfig).runIf (RepliesLockedNext sampleConfig) q crossRun).any
      (fun p => decide ((p.shared.begun 0).tail =
        [[13, 0, 0, 0, 7, 10, 2, 104, 105, 18, 1, 98],
          [13, 0, 0, 0, 7, 10, 2, 104, 105, 18, 1, 97]] ∧
        p.shared.wire 0 = ((p.shared.begun 0).take 2).flatten ++ [13, 0, 0, 0, 7] ∧
        (p.shared.begun 1).length = 1)) = true := by
    decide +kernel
  rw [Option.any_eq_true] at hrun
  have ⟨p, hp, hout⟩ := hrun
  obtain ⟨q₀, hq₀, hp⟩ := Option.bind_eq_some_iff.1 hp
  obtain ⟨q, hq, hrest⟩ := Option.bind_eq_some_iff.1 hp
  have hinit : ∀ t, ∃ ctl, (wireSystem sampleConfig).init.prog t = .ret ctl := fun _ => ⟨_, rfl⟩
  have haccepts : (wireSystem sampleConfig).Reaches (WireRepliesLocked sampleConfig) q :=
    (Lts.Steps.single (repliesLocked_accept hinit 4 _) hq₀).tail
      (repliesLocked_accept (env_between hinit hq₀) 5 _) hq
  have hreach : (wireSystem sampleConfig).Reaches (WireRepliesLocked sampleConfig) p :=
    haccepts.steps ((Lts.Steps.of_runIf hrest).mono fun _ _ hl => hl.repliesLocked)
  have ⟨hbegun, hwire, hother⟩ := of_decide_eq_true hout
  exact ⟨p, hreach, hbegun, hwire, hother, frames_whole hreach⟩

/-- Client 1 broadcasts "hi", and its handler has sent the header of the frame
for client 0.  Client 0 sends a frame of type 99, and its handler sends the
header of the bare reply. -/
def tornRun : List Step :=
  [.env (.accept 4 "10.0.0.1"), .env (.clientSend 0 [1, 0, 0, 0, 3, 10, 1, 97])] ++
    turn (.handler 0) 13 ++
  [.env (.accept 5 "10.0.0.2"), .env (.clientSend 1 [1, 0, 0, 0, 3, 10, 1, 98])] ++
    turn (.handler 1) 13 ++
  [.env (.clientSend 1 [2, 0, 0, 0, 4, 10, 2, 104, 105])] ++ turn (.handler 1) 8 ++
  .op (.handler 1) { order := [4, 5] } :: List.replicate 4 (.op (.handler 1) { want := 100 }) ++
  [.env (.clientSend 0 [99, 0, 0, 0, 0])] ++ turn (.handler 0) 5

/-- A bare reply is sent in the middle of the frame of another thread. -/
theorem frames_torn :
    ¬ ∀ p, (wireSystem sampleConfig).Reaches Lts.Any p →
      ∀ c, WholeFrames (p.shared.begun c) (p.shared.wire c) := by
  intro hall
  have ⟨p, hp, hrun⟩ := Lts.exists_reaches_of_run (L := wireSystem sampleConfig) tornRun
    (fun p => !(p.shared.wire 0).isPrefixOf (p.shared.begun 0).flatten) (by decide +kernel)
  rw [Bool.not_eq_true', ← Bool.not_eq_true, List.isPrefixOf_iff_prefix] at hrun
  exact hrun (hall p hp 0).2

end SimpleChat
