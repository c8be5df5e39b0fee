import SimpleChat.Programs
import SimpleChat.Registry

/-!
# Handlers, descriptors and sessions

A handler serves the connection it was started for under one descriptor: it
removes its session, then closes the descriptor, and does nothing afterwards.
`phaseMonitor` is that protocol as a monitor, and `phase_program` says that the
programs of `server.cpp` obey it.

`Memory.Owned` is what follows for the shared state: the open descriptors are
those of the handlers that have not closed theirs, and a session in the
registry belongs to the connection that is open under its descriptor.
`reachable_owned` states it for every reachable state of the server.
-/

namespace SimpleChat

open Conc Function Data

/-! ## The protocol of a thread -/

/-- How far a handler has come. -/
inductive Life where
  | serving
  | removed
  | closed
  deriving DecidableEq

/-- The descriptor of a handler, and how far it has come. -/
structure Phase where
  fd : Fd
  life : Life
  deriving DecidableEq

/-- What a handler in phase `q` may do. -/
def Phase.Allows (q : Phase) : ServerOp → Prop
  | .mem (.removeSession fd) => q.life = .serving ∧ fd = q.fd
  | .mem (.close fd) => q.life = .removed ∧ fd = q.fd
  | .mem (.recv fd _) => q.life = .serving ∧ fd = q.fd
  | .mem (.getPeerIp fd) => q.life = .serving ∧ fd = q.fd
  | .mem (.getSession fd) => q.life = .serving ∧ fd = q.fd
  | .sendBare fd _ => q.life = .serving ∧ fd = q.fd
  | .register fd username _ => q.life = .serving ∧ fd = q.fd ∧ username ≠ ""
  | .mem (.markIdle _) => False
  | _ => q.life = .serving

/-- The phase after an operation. -/
def Phase.after (q : Phase) : ServerOp → Phase
  | .mem (.removeSession _) => { q with life := .removed }
  | .mem (.close _) => { q with life := .closed }
  | _ => q

/-- What the watchdog may do. -/
def WatchdogOp : ServerOp → Prop
  | .mem .running => True
  | .mem .now => True
  | .mem (.markIdle _) => True
  | .sendLocked _ _ => True
  | _ => False

/-- The protocol of the threads of the server. -/
def phaseMonitor (t : Tid) : Prog.Monitor Server Phase where
  guard q o :=
    match t with
    | .handler _ => q.Allows o
    | .watchdog => WatchdogOp o
  next q o _ q' := q' = q.after o

/-- The phase in which a thread passes a control point. -/
def PhaseAt (t : Tid) (c : Ctl) (q : Phase) : Prop :=
  match t, c with
  | .handler _, .loop fd => q = ⟨fd, .serving⟩
  | .handler _, .cleanup fd => q = ⟨fd, .serving⟩
  | .handler _, .ended => q.life = .closed
  | .handler _, .watchdog => False
  | .watchdog, .watchdog => True
  | .watchdog, .ended => True
  | .watchdog, _ => False

/-! ## The programs obey the protocol -/

/-- What a handler does once it has found the session of its descriptor. -/
def SessionOp : ServerOp → Prop
  | .mem .aliveSessions => True
  | .mem (.findUser _) => True
  | .mem .listSessions => True
  | .mem (.read _) => True
  | .mem (.restore _) => True
  | .mem (.setStatus _ _) => True
  | .mem (.touch _) => True
  | .sendLocked _ _ => True
  | _ => False

/-- The program looks the session of `fd` up first, and is a session handler
from there on. -/
def ForSession (fd : Fd) (p : Prog Server Unit) : Prop :=
  ∃ body, p = withSession fd body ∧ ∀ s, (body s).Only SessionOp

section Session

variable (cfg : Config) (fd : Fd) (payload : Bytes)

theorem BodyOp.session {s : SessionRef} {o : ServerOp} (h : BodyOp s o) : SessionOp o := by
  cases h <;> trivial

theorem DeliveryOp.session {o : ServerOp} (h : DeliveryOp o) : SessionOp o := by
  cases h <;> trivial

theorem ListOp.session {s : SessionRef} {o : ServerOp} (h : ListOp s o) : SessionOp o := by
  cases h <;> trivial

theorem maybeRestoreActivity_session (s : SessionRef) :
    (maybeRestoreActivity s).Only SessionOp :=
  (maybeRestoreActivity_only s).mono fun _ ho => ho.session

theorem handleMessageGeneral_session : ForSession fd (handleMessageGeneral cfg fd payload) :=
  (handleMessageGeneral_only cfg fd payload).mono fun _ _ ho =>
    ho.elim BodyOp.session DeliveryOp.session

theorem handleMessageDm_session : ForSession fd (handleMessageDm cfg fd payload) :=
  (handleMessageDm_only cfg fd payload).mono fun _ _ ho =>
    ho.elim BodyOp.session DeliveryOp.session

theorem handleChangeStatus_session : ForSession fd (handleChangeStatus cfg fd payload) :=
  (handleChangeStatus_only cfg fd payload).mono fun _ _ ho => ho.session

theorem handleListUsers_session : ForSession fd (handleListUsers cfg fd payload) :=
  (handleListUsers_only cfg fd payload).mono fun _ _ ho => ho.elim BodyOp.session ListOp.session

theorem handleGetUserInfo_session : ForSession fd (handleGetUserInfo cfg fd payload) :=
  (handleGetUserInfo_only cfg fd payload).mono fun _ _ ho => ho.session

/-- What holds of every session handler, of `handle_register`, of `handle_quit`
and of the reply to an unknown type holds of the handler that is called. -/
theorem handleFrame_session {R : Prog Server Unit → Prop} (msgType : UInt8)
    (register : msgType = MsgType.REGISTER → R (handleRegister cfg fd payload))
    (session : ∀ p, ForSession fd p → R p) (quit : R (handleQuit cfg fd payload))
    (unknown : msgType ∉ [MsgType.REGISTER, MsgType.MESSAGE_GENERAL, MsgType.MESSAGE_DM,
      MsgType.CHANGE_STATUS, MsgType.LIST_USERS, MsgType.GET_USER_INFO, MsgType.QUIT] →
      R (sendResponseBare fd StatusCode.BAD_REQUEST "Unknown message type" false)) :
    R (handleFrame cfg fd msgType payload) := by
  unfold handleFrame
  split_ifs with h1 h2 h3 h4 h5 h6 h7
  · exact register h1
  · exact session _ (handleMessageGeneral_session cfg fd payload)
  · exact session _ (handleMessageDm_session cfg fd payload)
  · exact session _ (handleChangeStatus_session cfg fd payload)
  · exact session _ (handleListUsers_session cfg fd payload)
  · exact session _ (handleGetUserInfo_session cfg fd payload)
  · exact quit
  · exact unknown (by simp [h1, h2, h3, h4, h5, h6, h7])

end Session

/-- What the functions that handle a frame do for the descriptor `fd`. -/
def ServesOp (fd : Fd) : ServerOp → Prop
  | .mem (.removeSession _) => False
  | .mem (.close _) => False
  | .mem (.recv _ _) => False
  | .mem (.dispatch _ _) => False
  | .mem .running => False
  | .mem (.getPeerIp fd') => fd' = fd
  | .mem (.getSession fd') => fd' = fd
  | .sendBare fd' _ => fd' = fd
  | .register fd' username _ => fd' = fd ∧ username ≠ ""
  | .mem (.markIdle _) => False
  | _ => True

section Serves

variable (cfg : Config) (fd : Fd) (payload : Bytes)

theorem SessionOp.serves {o : ServerOp} (h : SessionOp o) : ServesOp fd o := by
  match o, h with
  | .mem o, h => cases o <;> trivial
  | .sendLocked _ _, _ => trivial

theorem sendBare_serves (msg : ServerMsg) :
    (Prog.call (S := Server) (.sendBare fd msg) .ret).Only (ServesOp fd) :=
  ⟨rfl, fun _ => trivial⟩

theorem RegisterOp.serves {o : ServerOp} (h : RegisterOp fd o) : ServesOp fd o := by
  cases h with
  | getPeerIp => rfl
  | reply => rfl
  | register _ hu => exact ⟨rfl, hu⟩

theorem QuitOp.serves {o : ServerOp} (h : QuitOp fd o) : ServesOp fd o := by
  cases h with
  | getSession => rfl
  | reply => trivial

theorem ForSession.serves {p : Prog Server Unit} (h : ForSession fd p) : p.Only (ServesOp fd) :=
  SessionHandler.only h rfl rfl fun _ _ ho => ho.serves fd

theorem handleFrame_serves (msgType : UInt8) :
    (handleFrame cfg fd msgType payload).Only (ServesOp fd) :=
  handleFrame_session cfg fd payload msgType
    (fun _ => (handleRegister_only cfg fd payload).mono fun _ ho => ho.serves)
    (fun _ hp => hp.serves fd) ((handleQuit_only cfg fd payload).mono fun _ ho => ho.serves)
    (fun _ => sendBare_serves fd _)

end Serves

theorem readExactLoop_reads (fd : Fd) (fuel remaining : Nat) (buf : Bytes) :
    (readExactLoop fd fuel remaining buf).Only fun o : RecvOp => o.fd = fd := by
  induction fuel generalizing remaining buf with
  | zero => cases remaining <;> simp [readExactLoop]
  | succ fuel ih =>
    cases remaining with
    | zero => simp [readExactLoop]
    | succ remaining =>
      rw [readExactLoop_succ]
      refine ⟨rfl, fun r => ?_⟩
      match r with
      | none => simp
      | some ⟨[], _⟩ => simp
      | some ⟨b :: bs, _⟩ => exact ih _ _

theorem recvMessage_reads (fd : Fd) : (recvMessage fd).Only fun o : RecvOp => o.fd = fd := by
  unfold recvMessage
  refine (readExactLoop_reads fd _ _ _).bind fun h => ?_
  cases h with
  | none => simp
  | some h =>
    dsimp only
    split
    · simp
    · split
      · refine (readExactLoop_reads fd _ _ _).bind fun payload => ?_
        cases payload <;> simp
      · simp

/-- The lifted program of `recv_message` reads from its descriptor. -/
theorem liftedRecv_reads (fd : Fd) :
    ((recvMessage fd).lift recvEmbedding).Only fun o : ServerOp => ∃ len, o = .mem (.recv fd len) := by
  refine (recvMessage_reads fd).lift fun o ho => ⟨o.len, ?_⟩
  rw [← ho]
  rfl

/-- The phase protocol, for a handler that reads from `fd`. -/
theorem obeys_of_reads {α : Type} {p : Prog Server α} {fd : Fd} {c : ConnId}
    (h : p.Only fun o : ServerOp => ∃ len, o = .mem (.recv fd len)) :
    p.Obeys (phaseMonitor (.handler c)) (fun _ q => q = ⟨fd, .serving⟩) ⟨fd, .serving⟩ := by
  refine h.obeys (fun o ho => ?_) (fun o r ho => ?_)
  · have ⟨len, hlen⟩ := ho
    subst hlen
    exact ⟨rfl, rfl⟩
  · have ⟨len, hlen⟩ := ho
    subst hlen
    rfl

/-- The phase protocol, for a handler that serves `fd`. -/
theorem obeys_of_serves {α : Type} {p : Prog Server α} {fd : Fd} {c : ConnId}
    (h : p.Only (ServesOp fd)) :
    p.Obeys (phaseMonitor (.handler c)) (fun _ q => q = ⟨fd, .serving⟩) ⟨fd, .serving⟩ := by
  refine h.obeys (fun o ho => ?_) (fun o r ho => ?_)
  · match o, ho with
    | .mem o, ho => cases o <;> simp_all [phaseMonitor, Phase.Allows, ServesOp]
    | .sendBare _ _, ho => exact ⟨rfl, ho⟩
    | .sendLocked _ _, _ => rfl
    | .register _ _ _, ho => exact ⟨rfl, ho⟩
  · match o, ho with
    | .mem o, ho => cases o <;> simp_all [phaseMonitor, Phase.after, ServesOp]
    | .sendBare _ _, _ => rfl
    | .sendLocked _ _, _ => rfl
    | .register _ _ _, _ => rfl

/-- The value of `dispatch` is a control point for the same descriptor. -/
theorem dispatch_obeys (cfg : Config) (c : ConnId) (fd : Fd) (msgType : UInt8)
    (payload : Bytes) :
    (dispatch cfg fd msgType payload).Obeys (phaseMonitor (.handler c))
      (PhaseAt (.handler c)) ⟨fd, .serving⟩ := by
  rw [dispatch_eq]
  refine (obeys_of_serves (handleFrame_serves cfg fd payload msgType)).bind fun _ q hq => ?_
  rw [hq]
  split <;> exact rfl

theorem handleClient_obeys (cfg : Config) (c : ConnId) (fd : Fd) :
    (handleClient cfg fd).Obeys (phaseMonitor (.handler c)) (PhaseAt (.handler c))
      ⟨fd, .serving⟩ := by
  simp only [handleClient, mem_eq, Prog.call_bind, Prog.ret_bind, Prog.obeys_call]
  refine ⟨rfl, fun running => ⟨_, rfl, ?_⟩⟩
  split
  · rfl
  · refine (obeys_of_reads (liftedRecv_reads fd)).bind fun frame q hq => ?_
    rw [hq]
    cases frame with
    | none => rfl
    | some frame =>
      obtain ⟨msgType, payload⟩ := frame
      exact ⟨rfl, fun _ => ⟨_, rfl, dispatch_obeys cfg c fd _ _⟩⟩

theorem handleClientCleanup_obeys (c : ConnId) (fd : Fd) :
    (handleClientCleanup fd).Obeys (phaseMonitor (.handler c)) (PhaseAt (.handler c))
      ⟨fd, .serving⟩ :=
  ⟨⟨rfl, rfl⟩, fun _ => ⟨_, rfl, ⟨rfl, rfl⟩, fun _ => ⟨_, rfl, rfl⟩⟩⟩

theorem watchdogLoop_obeys (cfg : Config) (q : Phase) :
    (watchdogLoop cfg).Obeys (phaseMonitor .watchdog) (PhaseAt .watchdog) q := by
  simp only [watchdogLoop, mem_eq, Prog.call_bind, Prog.ret_bind, Prog.obeys_call]
  refine ⟨trivial, fun r => ⟨_, rfl, ?_⟩⟩
  split
  · trivial
  refine ⟨trivial, fun r => ⟨_, rfl, ?_⟩⟩
  dsimp only [Prog.ret_bind]
  split
  · trivial
  refine ⟨trivial, fun now => ⟨_, rfl, trivial, fun toNotify => ⟨_, rfl, ?_⟩⟩⟩
  have hsends : (toNotify.forM fun s => sendResponseDirect s StatusCode.AUTO_INACTIVE
      ("You have been marked INACTIVO due to inactivity (" ++ toString cfg.idleTimeoutSec ++
        "s)") true).Only fun o : ServerOp => ∃ s msg, o = .sendLocked s msg :=
    Prog.Only.forM fun s _ => .perform ⟨_, _, rfl⟩
  refine (hsends.obeys ?_ ?_).bind fun _ _ _ => trivial
  · rintro o ⟨s, msg, rfl⟩
    trivial
  · rintro o r ⟨s, msg, rfl⟩
    rfl

/-- The programs of the server obey the protocol. -/
theorem program_obeys (cfg : Config) {t : Tid} {ctl : Ctl} {q : Phase} (h : PhaseAt t ctl q) :
    (ctl.program cfg).Obeys (phaseMonitor t) (PhaseAt t) q := by
  match t, ctl, h with
  | .handler c, .loop fd, h =>
    rw [show q = ⟨fd, .serving⟩ from h]
    exact handleClient_obeys cfg c fd
  | .handler c, .cleanup fd, h =>
    rw [show q = ⟨fd, .serving⟩ from h]
    exact handleClientCleanup_obeys c fd
  | .handler _, .ended, h => exact h
  | .watchdog, .watchdog, _ => exact watchdogLoop_obeys cfg q
  | .watchdog, .ended, _ => trivial

/-! ## The shared state -/

/-- How the shared state and the phases of the handlers fit together. -/
structure Memory.Owned (m : Memory) (qs : Tid → Phase) : Prop where
  consistent : m.Consistent
  /-- The handler of a connection that is not accepted yet has not started. -/
  fresh : ∀ c, m.nextConn ≤ c → (qs (.handler c)).life = .closed
  serves : ∀ c, (qs (.handler c)).life ≠ .closed →
    (qs (.handler c)).fd = (m.conns c).fd ∧ m.fds (m.conns c).fd = some c
  /-- An open descriptor belongs to a handler that has not closed it. -/
  opened : ∀ fd c, m.fds fd = some c → (m.conns c).fd = fd ∧ (qs (.handler c)).life ≠ .closed
  /-- A session in the registry belongs to a handler that serves its descriptor. -/
  owner : ∀ fd s, m.registry.sessions.lookup fd = some s →
    m.fds fd = some (m.registeredOn s) ∧ (qs (.handler (m.registeredOn s))).life = .serving
  registered : ∀ s, s < m.nextRef → m.registeredOn s < m.nextConn ∧
    (m.heap s).socketFd = (m.conns (m.registeredOn s)).fd ∧ (m.heap s).username ≠ ""
  /-- The session of a handler that serves is in the registry. -/
  live : ∀ s, s < m.nextRef → (qs (.handler (m.registeredOn s))).life = .serving →
    m.registry.sessions.lookup (m.heap s).socketFd = some s
  once : ∀ s s', s < m.nextRef → s' < m.nextRef → m.registeredOn s = m.registeredOn s' → s = s'
  alive : ∀ s, s < m.nextRef →
    ((m.heap s).alive = true ↔ m.registry.sessions.lookup (m.heap s).socketFd = some s)

namespace Memory

variable {m m' : Memory} {qs : Tid → Phase}

theorem owned_init {qs : Tid → Phase} (h : ∀ c, (qs (.handler c)).life = .closed) :
    Memory.init.Owned qs where
  consistent := consistent_init
  fresh c _ := h c
  serves c hc := absurd (h c) hc
  opened fd c hc := by simp [Memory.init] at hc
  owner fd s hs := by simp [Memory.init] at hs
  registered s hs := absurd hs (Nat.not_lt_zero s)
  live s hs := absurd hs (Nat.not_lt_zero s)
  once s _ hs := absurd hs (Nat.not_lt_zero s)
  alive s hs := absurd hs (Nat.not_lt_zero s)

theorem Owned.frame (h : m.Owned qs) (hf : Frame m m') : m'.Owned qs where
  consistent := h.consistent.frame hf
  fresh c hc := h.fresh c (hf.nextConn ▸ hc)
  serves c hc := by
    rw [hf.connFd, hf.fds]
    exact h.serves c hc
  opened fd c hc := by
    rw [hf.fds] at hc
    rw [hf.connFd]
    exact h.opened fd c hc
  owner fd s hs := by
    rw [hf.registry] at hs
    rw [hf.fds, hf.registeredOn]
    exact h.owner fd s hs
  registered s hs := by
    rw [hf.nextRef] at hs
    rw [hf.registeredOn, hf.nextConn, hf.socketFd, hf.connFd, hf.username]
    exact h.registered s hs
  live s hs hl := by
    rw [hf.nextRef] at hs
    rw [hf.registeredOn] at hl
    rw [hf.registry, hf.socketFd]
    exact h.live s hs hl
  once s s' hs hs' he := by
    rw [hf.nextRef] at hs hs'
    rw [hf.registeredOn] at he
    exact h.once s s' hs hs' he
  alive s hs := by
    rw [hf.nextRef] at hs
    rw [hf.alive, hf.registry, hf.socketFd]
    exact h.alive s hs

/-- A handler that has not closed its descriptor serves an accepted connection. -/
theorem Owned.lt_nextConn (h : m.Owned qs) {c : ConnId} (hl : (qs (.handler c)).life ≠ .closed) :
    c < m.nextConn := by
  by_contra hc
  exact hl (h.fresh c (Nat.le_of_not_lt hc))

/-- The session under the descriptor of a handler is the one of its connection. -/
theorem Owned.registeredOn_eq_iff (h : m.Owned qs) {c : ConnId} {fd k : Fd} {s : SessionRef}
    (hq : qs (.handler c) = ⟨fd, .serving⟩) (hs : m.registry.sessions.lookup k = some s) :
    m.registeredOn s = c ↔ k = fd := by
  obtain ⟨hfdc, hopen⟩ := h.serves c (by simp [hq])
  have hfd : (m.conns c).fd = fd := by rw [← hfdc, hq]
  have hk := (h.owner k s hs).1
  constructor
  · rintro rfl
    exact (h.opened k _ hk).1.symm.trans hfd
  · rintro rfl
    rw [hfd, hk, Option.some.injEq] at hopen
    exact hopen

theorem Owned.register (h : m.Owned qs) {c : ConnId} {fd : Fd} {u a : String}
    (hq : qs (.handler c) = ⟨fd, .serving⟩) (hu : u ≠ "") :
    (m.register c fd u a).2.Owned qs := by
  have hcons : (m.register c fd u a).2.Consistent := h.consistent.register hu
  have hlife : (qs (.handler c)).life = .serving := by rw [hq]
  obtain ⟨hfdc, hopen⟩ := h.serves c (by rw [hlife]; decide)
  have hfd' : (m.conns c).fd = fd := by rw [← hfdc, hq]
  rw [hfd'] at hopen
  have hc : c < m.nextConn := h.lt_nextConn (by rw [hlife]; decide)
  rcases register_cases_created m c fd u a with ⟨_, he⟩ | ⟨hfd, _, _, he⟩ <;> rw [he] at hcons ⊢
  · exact h
  have hnot : ∀ s, m.registry.sessions.lookup fd ≠ some s := by
    intro s hs
    rw [Finmap.lookup_eq_none.2 hfd] at hs
    cases hs
  have hother : ∀ s, s < m.nextRef → m.registeredOn s ≠ c := by
    intro s hs heq
    obtain ⟨-, hsock, -⟩ := h.registered s hs
    have hlook := h.live s hs (heq ▸ hlife)
    rw [hsock, heq, hfd'] at hlook
    exact hnot s hlook
  refine ⟨hcons, h.fresh, h.serves, h.opened, fun k s hs => ?_, fun s hs => ?_,
    fun s hs hl => ?_, fun s s' hs hs' heq => ?_, fun s hs => ?_⟩ <;> dsimp only at *
  · by_cases hk : k = fd
    · subst hk
      rw [Finmap.lookup_insert, Option.some.injEq] at hs
      subst hs
      simpa using ⟨hopen, hlife⟩
    · rw [Finmap.lookup_insert_of_ne _ hk] at hs
      have hne : s ≠ m.nextRef := Nat.ne_of_lt (h.consistent.allocated k s hs)
      simpa [hne] using h.owner k s hs
  · rcases Nat.lt_succ_iff_lt_or_eq.1 hs with hs | rfl
    · simpa [Nat.ne_of_lt hs] using h.registered s hs
    · simpa using ⟨hc, hfd'.symm, hu⟩
  · rcases Nat.lt_succ_iff_lt_or_eq.1 hs with hs | rfl
    · rw [update_of_ne (Nat.ne_of_lt hs)] at hl ⊢
      have hlook := h.live s hs hl
      have hk : (m.heap s).socketFd ≠ fd := fun hk => hnot s (hk ▸ hlook)
      rw [Finmap.lookup_insert_of_ne _ hk]
      exact hlook
    · rw [update_self]
      exact Finmap.lookup_insert _
  · rcases Nat.lt_succ_iff_lt_or_eq.1 hs with hs | rfl <;>
      rcases Nat.lt_succ_iff_lt_or_eq.1 hs' with hs' | rfl
    · simp only [ne_eq, Nat.ne_of_lt hs, Nat.ne_of_lt hs', not_false_eq_true, update_of_ne] at heq
      exact h.once s s' hs hs' heq
    · simp only [ne_eq, Nat.ne_of_lt hs, not_false_eq_true, update_of_ne, update_self] at heq
      exact absurd heq (hother s hs)
    · simp only [ne_eq, Nat.ne_of_lt hs', not_false_eq_true, update_of_ne, update_self] at heq
      exact absurd heq.symm (hother s' hs')
    · rfl
  · rcases Nat.lt_succ_iff_lt_or_eq.1 hs with hs | rfl
    · rw [update_of_ne (Nat.ne_of_lt hs), h.alive s hs]
      by_cases hk : (m.heap s).socketFd = fd
      · rw [hk, Finmap.lookup_insert, Option.some.injEq]
        constructor
        · intro hl
          exact absurd hl (hnot s)
        · rintro rfl
          exact absurd hs (Nat.lt_irrefl _)
      · rw [Finmap.lookup_insert_of_ne _ hk]
    · rw [update_self, Finmap.lookup_insert]
      simp

theorem Owned.removeSession (h : m.Owned qs) {c : ConnId} {fd : Fd}
    (hq : qs (.handler c) = ⟨fd, .serving⟩) :
    (m.removeSession fd).Owned (update qs (.handler c) ⟨fd, .removed⟩) := by
  have hcons := h.consistent.removeSession fd
  have hlife : (qs (.handler c)).life = .serving := by rw [hq]
  have hphase : ∀ d, (update qs (.handler c) ⟨fd, .removed⟩ (.handler d)).life = .closed ↔
      (qs (.handler d)).life = .closed := by
    intro d
    by_cases hd : d = c
    · subst hd
      simp [hlife]
    · simp [hd]
  have hfdeq : ∀ d, (update qs (.handler c) ⟨fd, .removed⟩ (.handler d)).fd =
      (qs (.handler d)).fd := by
    intro d
    by_cases hd : d = c
    · subst hd
      simp [hq]
    · simp [hd]
  have hserving : ∀ d, d ≠ c →
      update qs (.handler c) ⟨fd, .removed⟩ (.handler d) = qs (.handler d) := by
    intro d hd
    simp [hd]
  have hnotlive : ∀ s, (update qs (.handler c) ⟨fd, .removed⟩
      (.handler (m.registeredOn s))).life = .serving →
      m.registeredOn s ≠ c ∧ (qs (.handler (m.registeredOn s))).life = .serving := by
    intro s hs
    by_cases heq : m.registeredOn s = c
    · simp [heq] at hs
    · rw [hserving _ heq] at hs
      exact ⟨heq, hs⟩
  refine ⟨hcons, fun d hd => ?_, fun d hd => ?_, fun k d hd => ?_, fun k s hs => ?_, fun s hs => ?_,
    fun s hs hl => ?_, fun s s' hs hs' heq => ?_, fun s hs => ?_⟩
  · rw [removeSession_nextConn] at hd
    exact (hphase d).2 (h.fresh d hd)
  · rw [hfdeq, removeSession_conns, removeSession_fds]
    exact h.serves d (mt (hphase d).2 hd)
  · rw [removeSession_fds] at hd
    rw [removeSession_conns]
    exact ⟨(h.opened k d hd).1, mt (hphase d).1 (h.opened k d hd).2⟩
  · -- The sessions under other descriptors do not belong to this handler.
    rw [removeSession_lookup] at hs
    split at hs
    · cases hs
    · rename_i hk
      rw [removeSession_fds, removeSession_registeredOn,
        hserving _ (mt (h.registeredOn_eq_iff hq hs).1 hk)]
      exact h.owner k s hs
  · rw [removeSession_nextRef] at hs
    rw [removeSession_registeredOn, removeSession_nextConn, removeSession_conns,
      removeSession_socketFd, removeSession_username]
    exact h.registered s hs
  · rw [removeSession_nextRef] at hs
    rw [removeSession_registeredOn] at hl
    have ⟨hne, hl⟩ := hnotlive s hl
    have hlook := h.live s hs hl
    rw [removeSession_socketFd, removeSession_lookup, if_neg]
    · exact hlook
    · exact mt (h.registeredOn_eq_iff hq hlook).2 hne
  · rw [removeSession_nextRef] at hs hs'
    rw [removeSession_registeredOn] at heq
    exact h.once s s' hs hs' heq
  · rw [removeSession_nextRef] at hs
    rw [removeSession_socketFd, removeSession_lookup, removeSession_heap]
    split
    · rename_i hlook
      rw [if_pos (h.consistent.socketFd fd s hlook)]
      exact iff_of_false Bool.false_ne_true (by simp)
    · rename_i hlook
      rw [h.alive s hs]
      split
      · rename_i hk
        rw [hk]
        exact iff_of_false hlook (by simp)
      · rfl

theorem Owned.close (h : m.Owned qs) {c : ConnId} {fd : Fd}
    (hq : qs (.handler c) = ⟨fd, .removed⟩) :
    (m.close fd).Owned (update qs (.handler c) ⟨fd, .closed⟩) := by
  have hlife : (qs (.handler c)).life = .removed := by rw [hq]
  obtain ⟨hfdc, hopen⟩ := h.serves c (by rw [hlife]; decide)
  have hfd' : (m.conns c).fd = fd := by rw [← hfdc, hq]
  rw [hfd'] at hopen
  have hserving : ∀ d, d ≠ c →
      update qs (.handler c) ⟨fd, .closed⟩ (.handler d) = qs (.handler d) := by
    intro d hd
    simp [hd]
  have hne : ∀ d, (qs (.handler d)).life = .serving → d ≠ c := by
    rintro d hd rfl
    rw [hlife] at hd
    cases hd
  refine ⟨⟨h.consistent.allocated, h.consistent.socketFd, h.consistent.nonempty,
    h.consistent.names, h.consistent.ips⟩, fun d hd => ?_, fun d hd => ?_, fun k d hd => ?_,
    fun k s hs => ?_, h.registered, fun s hs hl => ?_, h.once, h.alive⟩ <;>
    simp only [Memory.close] at *
  · by_cases hdc : d = c
    · simp [hdc]
    · rw [hserving d hdc]
      exact h.fresh d hd
  · have hdc : d ≠ c := by
      rintro rfl
      simp at hd
    rw [hserving d hdc] at hd ⊢
    obtain ⟨h1, h2⟩ := h.serves d hd
    refine ⟨h1, ?_⟩
    rw [update_of_ne]
    · exact h2
    · intro heq
      rw [heq, hopen, Option.some.injEq] at h2
      exact hdc h2.symm
  · by_cases hk : k = fd
    · simp [hk] at hd
    · rw [update_of_ne hk] at hd
      obtain ⟨h1, h2⟩ := h.opened k d hd
      have hdc : d ≠ c := by
        rintro rfl
        exact hk (h1.symm.trans hfd')
      rw [hserving d hdc]
      exact ⟨h1, h2⟩
  · obtain ⟨h1, h2⟩ := h.owner k s hs
    have hdc := hne _ h2
    rw [hserving _ hdc]
    refine ⟨?_, h2⟩
    rw [update_of_ne]
    · exact h1
    · rintro rfl
      rw [hopen, Option.some.injEq] at h1
      exact hdc h1.symm
  · by_cases hdc : m.registeredOn s = c
    · simp [hdc] at hl
    · rw [hserving _ hdc] at hl
      exact h.live s hs hl

theorem Owned.accept (h : m.Owned qs) {fd : Fd} {peerIp : String} (hfd : m.fds fd = none) :
    (m.accept fd peerIp).Owned (update qs (.handler m.nextConn) ⟨fd, .serving⟩) := by
  have hclosed := h.fresh m.nextConn (Nat.le_refl _)
  have hserving : ∀ d, d ≠ m.nextConn →
      update qs (.handler m.nextConn) ⟨fd, .serving⟩ (.handler d) = qs (.handler d) := by
    intro d hd
    simp [hd]
  have hne : ∀ d, (qs (.handler d)).life ≠ .closed → d ≠ m.nextConn := by
    rintro d hd rfl
    exact hd hclosed
  refine ⟨⟨h.consistent.allocated, h.consistent.socketFd, h.consistent.nonempty,
    h.consistent.names, h.consistent.ips⟩, fun d hd => ?_, fun d hd => ?_, fun k d hd => ?_,
    fun k s hs => ?_, fun s hs => ?_, fun s hs hl => ?_, h.once, h.alive⟩ <;>
    simp only [Memory.accept] at *
  · rw [hserving d (Nat.ne_of_gt hd)]
    exact h.fresh d (Nat.le_of_succ_le hd)
  · by_cases hdc : d = m.nextConn
    · subst hdc
      simp
    · rw [hserving d hdc] at hd ⊢
      obtain ⟨h1, h2⟩ := h.serves d hd
      rw [update_of_ne hdc]
      refine ⟨h1, ?_⟩
      rw [update_of_ne]
      · exact h2
      · intro heq
        rw [heq, hfd] at h2
        cases h2
  · by_cases hk : k = fd
    · subst hk
      rw [update_self, Option.some.injEq] at hd
      subst hd
      simp
    · rw [update_of_ne hk] at hd
      obtain ⟨h1, h2⟩ := h.opened k d hd
      rw [update_of_ne (hne d h2), hserving d (hne d h2)]
      exact ⟨h1, h2⟩
  · obtain ⟨h1, h2⟩ := h.owner k s hs
    have hdc := hne (m.registeredOn s) (by rw [h2]; decide)
    rw [hserving _ hdc]
    refine ⟨?_, h2⟩
    rw [update_of_ne]
    · exact h1
    · rintro rfl
      rw [hfd] at h1
      cases h1
  · obtain ⟨h1, h2, h3⟩ := h.registered s hs
    rw [update_of_ne (Nat.ne_of_lt h1)]
    exact ⟨Nat.lt_succ_of_lt h1, h2, h3⟩
  · rw [hserving _ (Nat.ne_of_lt (h.registered s hs).1)] at hl
    exact h.live s hs hl

end Memory

/-! ## Every run -/

/-- The event is the `remove_session` of the handler of connection `c`. -/
def Leaves (e : Event Server Tid) (c : ConnId) : Prop :=
  e.tid = .handler c ∧ ∃ fd, e.op = .mem (.removeSession fd)

/-- The handler of connection `c` has run `remove_session`. -/
def HasLeft (log : List (Event Server Tid)) (c : ConnId) : Prop := ∃ e ∈ log, Leaves e c

theorem hasLeft_append {log : List (Event Server Tid)} {e : Event Server Tid} {c : ConnId} :
    HasLeft (log ++ [e]) c ↔ HasLeft log c ∨ Leaves e c := by
  simp [HasLeft, or_and_right, exists_or]

theorem HasLeft.append {L : List (Event Server Tid)} {c : ConnId} (h : HasLeft L c)
    (R : List (Event Server Tid)) : HasLeft (L ++ R) c := by
  obtain ⟨e, he, hc⟩ := h
  exact ⟨e, List.mem_append_left _ he, hc⟩

/-- A handler leaves only by an operation of its own. -/
theorem not_hasLeft_append {L R : List (Event Server Tid)} {c : ConnId} (h : ¬ HasLeft L c)
    (hR : Machine.ownActs (.handler c) R = []) : ¬ HasLeft (L ++ R) c := by
  rintro ⟨e, he, hc⟩
  rcases List.mem_append.1 he with he | he
  · exact h ⟨e, he, hc⟩
  · obtain ⟨t, o, r⟩ := e
    have hmem := Machine.mem_ownActs he
    rw [show t = .handler c from hc.1, hR] at hmem
    cases hmem

/-- The invariant of the server: the programs of the threads obey the protocol
in the phases `qs`, the shared state fits these phases, and the handlers that
have run `remove_session` are those that do not serve any more. -/
def Owned (p : State) (qs : Tid → Phase) : Prop :=
  Machine.Monitored phaseMonitor PhaseAt
    (fun p qs => p.shared.mem.Owned qs ∧
      ∀ c, HasLeft p.log c ↔ c < p.shared.mem.nextConn ∧ (qs (.handler c)).life ≠ .serving) p qs

theorem Phase.after_eq {q : Phase} {o : ServerOp} (h : ∀ fd, o ≠ .mem (.removeSession fd))
    (h' : ∀ fd, o ≠ .mem (.close fd)) : q.after o = q := by
  unfold Phase.after
  split
  · exact absurd rfl (h _)
  · exact absurd rfl (h' _)
  · rfl

theorem owned_keeps (cfg : Config) (C : State → Step → Prop) :
    Machine.Keeps (machine cfg) phaseMonitor PhaseAt
      (fun p qs => p.shared.mem.Owned qs ∧
        ∀ c, HasLeft p.log c ↔ c < p.shared.mem.nextConn ∧ (qs (.handler c)).life ≠ .serving)
      C where
  op p qs t ch o k r w q' hJ _ _ he hguard hnext := by
    obtain ⟨hown, hleft⟩ := hJ
    rw [show q' = (qs t).after o from hnext]
    show w.mem.Owned (update qs t ((qs t).after o)) ∧ ∀ c, HasLeft (p.log ++ [⟨t, o, r⟩]) c ↔
      c < w.mem.nextConn ∧ (update qs t ((qs t).after o) (.handler c)).life ≠ .serving
    have hsame : (∀ fd, o ≠ .mem (.removeSession fd)) → ∀ c,
        HasLeft (p.log ++ [⟨t, o, r⟩]) c ↔ HasLeft p.log c := by
      intro ho c
      rw [hasLeft_append]
      refine or_iff_left ?_
      rintro ⟨-, fd, hfd⟩
      exact ho fd hfd
    rcases World.exec_mem_cases he with ⟨hf, h1, h2, -⟩ | ⟨fd, rfl, hm⟩ | ⟨fd, rfl, hm⟩ |
      ⟨c, fd, u, a, rfl, rfl, hm⟩
    · rw [Phase.after_eq h1 h2, update_eq_self]
      refine ⟨hown.frame hf, fun c => ?_⟩
      rw [hsame h1, hf.nextConn, hleft]
    · cases t with
      | watchdog => exact hguard.elim
      | handler c =>
        obtain ⟨hl, rfl⟩ := hguard
        rw [hm]
        refine ⟨hown.removeSession (by rw [← hl]), fun d => ?_⟩
        rw [hasLeft_append, Memory.removeSession_nextConn, hleft]
        by_cases hdc : d = c
        · subst hdc
          have hlt := hown.lt_nextConn (c := d) (by rw [hl]; decide)
          simp [Leaves, Phase.after, hlt]
        · rw [update_of_ne (by simpa using hdc)]
          refine or_iff_left ?_
          rintro ⟨hd, -⟩
          exact hdc (Tid.handler.inj hd).symm
    · cases t with
      | watchdog => exact hguard.elim
      | handler c =>
        obtain ⟨hl, rfl⟩ := hguard
        rw [hm]
        refine ⟨hown.close (by rw [← hl]), fun d => ?_⟩
        rw [hsame (by simp), hleft]
        by_cases hdc : d = c
        · subst hdc
          simp [Phase.after, hl, Memory.close]
        · rw [update_of_ne (by simpa using hdc)]
          rfl
    · obtain ⟨hl, rfl, hu⟩ := hguard
      rw [hm, Phase.after_eq (by simp) (by simp), update_eq_self]
      refine ⟨hown.register (by rw [← hl]) hu, fun d => ?_⟩
      rw [hsame (by simp), Memory.register_nextConn, hleft]
  jump p qs t c hJ _ _ hpost :=
    ⟨qs t, program_obeys cfg hpost, by rw [update_eq_self]; exact hJ⟩
  env p qs e w start hJ _ he := by
    obtain ⟨hown, hleft⟩ := hJ
    rcases World.env_mem_cases he with ⟨rfl, hf, -⟩ | ⟨fd, peerIp, -, hfd, rfl, rfl⟩
    · refine ⟨qs, fun _ _ => rfl, by simp, by simpa using hown.frame hf, fun c => ?_⟩
      rw [Pool.afterEnv_shared, Pool.afterEnv_log, hf.nextConn, hleft]
    · refine ⟨update qs (.handler p.shared.mem.nextConn) ⟨fd, .serving⟩, fun t ht => ?_,
        fun t c hc => ?_, by simpa using hown.accept hfd, fun c => ?_⟩
      · rw [update_of_ne]
        rintro rfl
        exact ht (.loop fd) rfl
      · simp only [Option.some.injEq, Prod.mk.injEq] at hc
        obtain ⟨rfl, rfl⟩ := hc
        simp [PhaseAt]
      · rw [Pool.afterEnv_shared, Pool.afterEnv_log, hleft]
        by_cases hc : c = p.shared.mem.nextConn
        · subst hc
          simp
        · rw [update_of_ne (by simpa using hc)]
          have hlt : c < p.shared.mem.nextConn + 1 ↔ c < p.shared.mem.nextConn :=
            Nat.lt_succ_iff_lt_or_eq.trans (or_iff_left hc)
          simp only [Memory.accept, hlt]

/-- Every reachable state of the server is owned. -/
theorem reachable_owned {cfg : Config} {C : State → Step → Prop} {p : State}
    (h : (system cfg).Reaches C p) : ∃ qs, Owned p qs := by
  have h0 : Owned (system cfg).init fun _ => ⟨0, .closed⟩ := by
    refine ⟨fun t => ?_, Memory.owned_init fun _ => rfl, fun c => ?_⟩
    · cases t with
      | watchdog => trivial
      | handler c => rfl
    · simp [HasLeft, system, Machine.toLts, Memory.init]
  exact (owned_keeps cfg C).steps h h0

/-- The invariant rule for the shared state and the history: it is enough that
each operation of a thread and each step of the environment keeps `I`. -/
theorem world_invariant {cfg : Config} {C : State → Step → Prop}
    {I : World → List (Event Server Tid) → Prop} (h0 : I ⟨.init, fun _ => []⟩ [])
    (hop : ∀ p qs t o k ch r w, Owned p qs → I p.shared p.log → p.prog t = .call o k →
      C p (.op t ch) → p.shared.exec cfg t o ch = some (r, w) → I w (p.log ++ [⟨t, o, r⟩]))
    (henv : ∀ p qs e w start, Owned p qs → I p.shared p.log → C p (.env e) →
      p.shared.env e = some (w, start) → I w p.log)
    {p : State} (h : (system cfg).Reaches C p) : I p.shared p.log := by
  refine h.invariant (I := fun p => I p.shared p.log) h0 ?_
  intro p l p' hr hI hC hs
  obtain ⟨qs, hq⟩ := reachable_owned hr
  cases l with
  | op t ch =>
    obtain ⟨o, k, r, w, hprog, he, rfl⟩ := Machine.step_op.1 hs
    exact hop p qs t o k ch r w hq hI hprog hC he
  | jump t =>
    obtain ⟨c, -, rfl⟩ := Machine.step_jump.1 hs
    exact hI
  | env e =>
    obtain ⟨w, start, he, rfl⟩ := Machine.step_env.1 hs
    simpa using henv p qs e w start hq hI hC he

/-- What a thread does next is allowed in its phase. -/
theorem Owned.allows {p : State} {qs : Tid → Phase} (h : Owned p qs) {t : Tid} {o : ServerOp}
    {k : o.Resp → Prog Server Ctl} (hprog : p.prog t = .call o k) :
    (phaseMonitor t).guard (qs t) o := by
  have ht := h.1 t
  rw [hprog] at ht
  exact ht.1

/-- A handler that is about to perform an operation serves an accepted
connection. -/
theorem Owned.lt_nextConn {p : State} {qs : Tid → Phase} (h : Owned p qs) {c : ConnId}
    {o : ServerOp} {k : o.Resp → Prog Server Ctl} (hprog : p.prog (.handler c) = .call o k) :
    c < p.shared.mem.nextConn := by
  have hallows : (qs (.handler c)).Allows o := h.allows hprog
  refine h.2.1.lt_nextConn fun hclosed => ?_
  unfold Phase.Allows at hallows
  split at hallows <;> simp_all

/-! ## Sessions over time -/

theorem exec_later {cfg : Config} {t : Tid} {w w' : World} {o : ServerOp} {ch : Choice}
    {r : o.Resp} (h : w.exec cfg t o ch = some (r, w')) : w.mem.Later w'.mem := by
  rcases World.exec_mem_cases h with ⟨hf, -⟩ | ⟨fd, -, hm⟩ | ⟨fd, -, hm⟩ | ⟨c, fd, u, a, -, -, hm⟩
  · exact hf.later
  · rw [hm]
    exact Memory.later_removeSession _ _
  · rw [hm]
    exact ⟨Nat.le_refl _, Nat.le_refl _, fun _ _ => rfl, fun _ _ => rfl, fun _ _ => rfl,
      fun _ _ => rfl⟩
  · rw [hm]
    exact Memory.later_register _ _ _ _ _

theorem step_later {cfg : Config} {p p' : State} {l : Step}
    (h : (system cfg).step p l = some p') : p.shared.mem.Later p'.shared.mem := by
  cases l with
  | op t ch =>
    obtain ⟨o, k, r, w, -, he, rfl⟩ := Machine.step_op.1 h
    exact exec_later he
  | jump t =>
    obtain ⟨c, -, rfl⟩ := Machine.step_jump.1 h
    exact .refl _
  | env e =>
    obtain ⟨w, start, he, rfl⟩ := Machine.step_env.1 h
    rw [Pool.afterEnv_shared]
    rcases World.env_mem_cases he with ⟨-, hf, -⟩ | ⟨fd, peerIp, -, -, -, rfl⟩
    · exact hf.later
    · exact ⟨Nat.le_succ _, Nat.le_refl _, fun _ _ => rfl, fun _ _ => rfl, fun _ _ => rfl,
        fun _ _ => rfl⟩

/-- Sessions keep their connection, name, address and descriptor. -/
theorem steps_later {cfg : Config} {C : State → Step → Prop} {p p' : State}
    (h : (system cfg).Steps C p p') : p.shared.mem.Later p'.shared.mem :=
  h.invariant (I := fun q => p.shared.mem.Later q.shared.mem) (.refl _)
    fun _ _ _ _ hI _ hs => hI.trans (step_later hs)

/-- The operations of a handler, in a run in which it passes no control point,
are those of its program. -/
theorem handler_trace {cfg : Config} {C : State → Step → Prop} {p p' : State} {c : ConnId}
    (hc : c < p.shared.mem.nextConn) (h : (system cfg).Steps C p p')
    (hjump : ∀ q, ¬ C q (.jump (.handler c))) :
    ∃ R, p'.log = p.log ++ R ∧
      (p.prog (.handler c)).Trace (Machine.ownActs (.handler c) R) (p'.prog (.handler c)) := by
  have hrun : (system cfg).Steps (fun q l => C q l ∧ c < q.shared.mem.nextConn) p p' :=
    h.strengthen fun q _ _ hq hC _ => ⟨hC, Nat.lt_of_lt_of_le hc (steps_later hq).nextConn⟩
  refine Machine.trace_of_steps hrun (fun q hq => hjump q hq.1) ?_
  rintro q e w ctl ⟨-, hlt⟩ he
  change q.shared.env e = _ at he
  rcases World.env_mem_cases he with ⟨hstart, -⟩ | ⟨fd, peerIp, -, -, hstart, -⟩
  · cases hstart
  · cases hstart
    exact Nat.lt_irrefl _ hlt

section Session

variable {cfg : Config} {C : State → Step → Prop} {p : State} {s : SessionRef}

/-- A session whose owner has not left is in the registry. -/
theorem lookup_iff_not_left (h : (system cfg).Reaches C p) (hs : s < p.shared.mem.nextRef) :
    p.shared.mem.registry.sessions.lookup (p.shared.mem.heap s).socketFd = some s ↔
      ¬ HasLeft p.log (p.shared.mem.registeredOn s) := by
  obtain ⟨qs, -, hown, hleft⟩ := reachable_owned h
  rw [hleft, not_and, not_not]
  constructor
  · exact fun hlook _ => (hown.owner _ s hlook).2
  · exact fun hl => hown.live s hs (hl (hown.registered s hs).1)

/-- A session is alive until its owner leaves. -/
theorem alive_iff_not_left (h : (system cfg).Reaches C p) (hs : s < p.shared.mem.nextRef) :
    (p.shared.mem.heap s).alive = true ↔ ¬ HasLeft p.log (p.shared.mem.registeredOn s) := by
  obtain ⟨qs, -, hown, -⟩ := reachable_owned h
  rw [hown.alive s hs, lookup_iff_not_left h hs]

end Session

end SimpleChat
