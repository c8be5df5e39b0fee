import SimpleChat.Delivery
import SimpleChat.FrameLimits

/-!
# The sender that a delivery names

A handler finds its session by its descriptor number, and numbers are reused.
`Speaker` is what a handler has found out about itself since it dispatched its
last frame: its session, and the name that it read there.  A handler sends a
delivery only under that name, and the session is one that its own connection
registered (`deliveries_authentic`).
-/

namespace SimpleChat

open Conc Function Data

/-! ## The name under which a handler speaks -/

/-- The name that the message gives as its sender. -/
def ServerMsg.sender : ServerMsg → Option String
  | .broadcastDelivery m => some m.usernameOrigin
  | .forDm m => some m.usernameDes
  | _ => none

/-- The type of the frames that cause the message. -/
def ServerMsg.cause : ServerMsg → Option UInt8
  | .broadcastDelivery _ => some MsgType.MESSAGE_GENERAL
  | .forDm _ => some MsgType.MESSAGE_DM
  | _ => none

structure Speaker where
  /-- The frame that is being handled. -/
  frame : Option (UInt8 × Bytes) := none
  session : Option SessionRef := none
  /-- The name that was read from the session. -/
  name : Option String := none

def Speaker.after (q : Speaker) : (o : ServerOp) → o.Resp → Speaker
  | .mem (.dispatch msgType payload), _ => { frame := some (msgType, payload) }
  | .mem (.getSession _), s => { q with session := s }
  | .mem (.read s), i =>
    if q.session = some s ∧ q.name = none then { q with name := some i.username } else q
  | _, _ => q

/-- A delivery goes out under the name of the speaker, and because of its
frame. -/
def Speaker.MaySend (t : Tid) (q : Speaker) : ServerOp → Prop
  | .sendLocked _ msg =>
    msg.sender = none ∨ t ≠ .watchdog ∧ q.name = msg.sender ∧ q.frame.map Prod.fst = msg.cause
  | .sendBare _ msg => msg.sender = none
  | _ => True

def speakerMonitor (t : Tid) : Prog.Monitor Server Speaker :=
  .det (fun q o => q.MaySend t o) fun q o r => q.after o r

/-- The program sends no delivery but under the name of its speaker. -/
abbrev Speaks {α : Type} (t : Tid) (p : Prog Server α) (q : Speaker) : Prop :=
  p.Obeys (speakerMonitor t) (fun _ _ => True) q

section Programs

variable {cfg : Config} {t : Tid} {fd : Fd} {payload : Bytes}

theorem obeys_speaker_call {α : Type} {o : ServerOp} {k : o.Resp → Prog Server α} {q : Speaker}
    {post : α → Speaker → Prop} :
    (Prog.call (S := Server) o k).Obeys (speakerMonitor t) post q ↔
      q.MaySend t o ∧ ∀ r, (k r).Obeys (speakerMonitor t) post (q.after o r) :=
  Prog.obeys_det_call

/-- An operation that sends no delivery. -/
def NoDelivery : ServerOp → Prop
  | .sendLocked _ msg => msg.sender = none
  | .sendBare _ msg => msg.sender = none
  | _ => True

theorem speaks_of_only {α : Type} {p : Prog Server α} (h : p.Only NoDelivery) (q : Speaker) :
    Speaks t p q := by
  induction p generalizing q with
  | ret a => trivial
  | call o k ih =>
    refine obeys_speaker_call.2 ⟨?_, fun r => ih r (h.2 r) _⟩
    have ho := h.1
    cases o with
    | sendLocked s msg => exact Or.inl ho
    | sendBare fd msg => exact ho
    | mem o => trivial
    | register fd u a => trivial

theorem sendLocked_noDelivery {s : SessionRef} {msg : ServerMsg} (h : msg.sender = none) :
    (Prog.call (S := Server) (.sendLocked s msg) .ret).Only NoDelivery :=
  ⟨h, fun _ => trivial⟩

theorem sendBare_noDelivery {fd : Fd} {msg : ServerMsg} (h : msg.sender = none) :
    (Prog.call (S := Server) (.sendBare fd msg) .ret).Only NoDelivery :=
  ⟨h, fun _ => trivial⟩

theorem BodyOp.noDelivery {s : SessionRef} {o : ServerOp} (h : BodyOp s o) : NoDelivery o := by
  cases h <;> trivial

theorem handleRegister_noDelivery : (handleRegister cfg fd payload).Only NoDelivery :=
  (handleRegister_only cfg fd payload).mono fun _ ho => by cases ho <;> trivial

theorem handleChangeStatus_noDelivery : (handleChangeStatus cfg fd payload).Only NoDelivery :=
  (handleChangeStatus_only cfg fd payload).only trivial rfl fun _ _ ho => ho.noDelivery

theorem handleListUsers_noDelivery : (handleListUsers cfg fd payload).Only NoDelivery :=
  (handleListUsers_only cfg fd payload).only trivial rfl fun _ _ ho =>
    ho.elim BodyOp.noDelivery fun ho => by cases ho <;> trivial

theorem handleGetUserInfo_noDelivery : (handleGetUserInfo cfg fd payload).Only NoDelivery :=
  (handleGetUserInfo_only cfg fd payload).only trivial rfl fun _ _ ho => ho.noDelivery

theorem handleQuit_noDelivery : (handleQuit cfg fd payload).Only NoDelivery :=
  (handleQuit_only cfg fd payload).mono fun _ ho => by cases ho <;> trivial

/-- `maybe_restore_activity` finds out nothing about the sender. -/
theorem maybeRestoreActivity_speaks (s : SessionRef) (q : Speaker) :
    (maybeRestoreActivity s).Obeys (speakerMonitor t) (fun _ q' => q' = q) q := by
  simp only [maybeRestoreActivity, mem_eq, Prog.call_bind, Prog.ret_bind]
  refine obeys_speaker_call.2 ⟨trivial, fun restored => ?_⟩
  cases restored with
  | false => exact obeys_speaker_call.2 ⟨trivial, fun _ => rfl⟩
  | true =>
    refine obeys_speaker_call.2 ⟨Or.inl rfl, fun _ => ?_⟩
    exact obeys_speaker_call.2 ⟨trivial, fun _ => rfl⟩

variable {c : ConnId} {frame : UInt8 × Bytes}

/-- The name that a handler reads first is the name of its own session. -/
theorem speaker_read (s : SessionRef) (i : SessionInfo) :
    Speaker.after ⟨some frame, some s, none⟩ (.mem (.read s)) i =
      ⟨some frame, some s, some i.username⟩ :=
  if_pos ⟨rfl, rfl⟩

/-- Once a handler knows its name, it keeps it until the next frame. -/
theorem speaker_read_again (s d : SessionRef) (name : String) (i : SessionInfo) :
    Speaker.after ⟨some frame, some s, some name⟩ (.mem (.read d)) i =
      ⟨some frame, some s, some name⟩ :=
  if_neg fun h => by cases h.2

theorem handleMessageGeneral_speaks (htype : frame.1 = MsgType.MESSAGE_GENERAL) :
    Speaks (.handler c) (handleMessageGeneral cfg fd payload) ⟨some frame, none, none⟩ := by
  simp only [handleMessageGeneral, withSession, mem_eq, Prog.call_bind, Prog.ret_bind]
  refine obeys_speaker_call.2 ⟨trivial, fun session => ?_⟩
  cases session with
  | none => exact speaks_of_only (sendBare_noDelivery rfl) _
  | some s =>
    dsimp only
    split
    · exact speaks_of_only (sendLocked_noDelivery rfl) _
    · rename_i msg _
      refine (maybeRestoreActivity_speaks s _).bind fun _ q hq => ?_
      subst hq
      refine obeys_speaker_call.2 ⟨trivial, fun i => ?_⟩
      have hname : Speaker.after ⟨some frame, some s, none⟩ (.mem (.read s)) i = _ :=
        speaker_read s i
      show Speaks _ _ (Speaker.after ⟨some frame, some s, none⟩ (.mem (.read s)) i)
      rw [hname]
      refine obeys_speaker_call.2 ⟨trivial, fun targets => ?_⟩
      show Speaks _ _ ⟨some frame, some s, some i.username⟩
      induction targets with
      | nil => trivial
      | cons d targets ih =>
        rw [Prog.forM_cons, sendLocked_eq, Prog.call_bind, Speaks, obeys_speaker_call]
        refine ⟨Or.inr ⟨Tid.noConfusion, rfl, ?_⟩, fun _ => ih⟩
        show some frame.1 = _
        rw [htype]
        rfl

theorem handleMessageDm_speaks (htype : frame.1 = MsgType.MESSAGE_DM) :
    Speaks (.handler c) (handleMessageDm cfg fd payload) ⟨some frame, none, none⟩ := by
  simp only [handleMessageDm, withSession, mem_eq, Prog.call_bind, Prog.ret_bind]
  refine obeys_speaker_call.2 ⟨trivial, fun session => ?_⟩
  cases session with
  | none => exact speaks_of_only (sendBare_noDelivery rfl) _
  | some s =>
    dsimp only
    split
    · exact speaks_of_only (sendLocked_noDelivery rfl) _
    · rename_i msg _
      refine (maybeRestoreActivity_speaks s _).bind fun _ q hq => ?_
      subst hq
      refine obeys_speaker_call.2 ⟨trivial, fun i => ?_⟩
      show Speaks _ _ (Speaker.after ⟨some frame, some s, none⟩ (.mem (.read s)) i)
      rw [speaker_read]
      refine obeys_speaker_call.2 ⟨trivial, fun dest => ?_⟩
      show Speaks _ _ ⟨some frame, some s, some i.username⟩
      cases dest with
      | none => exact speaks_of_only (sendLocked_noDelivery rfl) _
      | some d =>
        refine obeys_speaker_call.2 ⟨trivial, fun j => ?_⟩
        rw [speaker_read_again]
        split
        · refine obeys_speaker_call.2 ⟨Or.inr ⟨Tid.noConfusion, rfl, ?_⟩, fun _ => ?_⟩
          · show some frame.1 = _
            rw [htype]
            rfl
          · exact speaks_of_only (sendLocked_noDelivery rfl) _
        · exact speaks_of_only (sendLocked_noDelivery rfl) _

theorem handleFrame_speaks (msgType : UInt8) :
    Speaks (.handler c) (handleFrame cfg fd msgType payload)
      ⟨some (msgType, payload), none, none⟩ := by
  unfold handleFrame
  split_ifs with h1 h2 h3 h4 h5 h6 h7
  · exact speaks_of_only handleRegister_noDelivery _
  · exact handleMessageGeneral_speaks h2
  · exact handleMessageDm_speaks h3
  · exact speaks_of_only handleChangeStatus_noDelivery _
  · exact speaks_of_only handleListUsers_noDelivery _
  · exact speaks_of_only handleGetUserInfo_noDelivery _
  · exact speaks_of_only handleQuit_noDelivery _
  · exact speaks_of_only (sendBare_noDelivery rfl) _

theorem handleClient_speaks (q : Speaker) : Speaks (.handler c) (handleClient cfg fd) q := by
  simp only [handleClient, mem_eq, Prog.call_bind, Prog.ret_bind]
  refine obeys_speaker_call.2 ⟨trivial, fun running => ?_⟩
  cases running with
  | false => trivial
  | true =>
    show Speaks _ (_ >>= _) _
    have hrecv : ((recvMessage fd).lift recvEmbedding).Only NoDelivery :=
      (recvMessage_reads fd).lift fun _ _ => trivial
    refine (speaks_of_only hrecv _).bind fun frame q' _ => ?_
    cases frame with
    | none => trivial
    | some frame =>
      obtain ⟨msgType, payload⟩ := frame
      refine obeys_speaker_call.2 ⟨trivial, fun _ => ?_⟩
      rw [dispatch_eq]
      exact (handleFrame_speaks msgType).bind fun _ _ _ => trivial

theorem watchdogLoop_noDelivery : (watchdogLoop cfg).Only NoDelivery :=
  (watchdogLoop_only cfg).mono fun _ ho => by cases ho <;> trivial

theorem program_speaks {ctl : Ctl} {phase : Phase} (h : PhaseAt t ctl phase) (q : Speaker) :
    Speaks t (ctl.program cfg) q := by
  match t, ctl, h with
  | .watchdog, .watchdog, _ => exact speaks_of_only watchdogLoop_noDelivery _
  | .watchdog, .ended, _ => trivial
  | .handler c, .loop fd, _ => exact handleClient_speaks _
  | .handler c, .cleanup fd, _ =>
    exact speaks_of_only (p := handleClientCleanup fd) ⟨trivial, fun _ => ⟨trivial, fun _ => trivial⟩⟩ _
  | .handler _, .ended, _ => trivial

end Programs

/-! ## The session of the speaker -/

/-- What a handler has found out is so: the frame is the last that it
dispatched, and the session is one of its own connection. -/
structure Speaker.Right (p : State) (c : ConnId) (q : Speaker) : Prop where
  frame : q.frame = (dispatched c p.log).getLast?
  session : ∀ s, q.session = some s →
    s < p.shared.mem.nextRef ∧ p.shared.mem.registeredOn s = c
  name : ∀ u, q.name = some u → ∃ s, s < p.shared.mem.nextRef ∧
    p.shared.mem.registeredOn s = c ∧ (p.shared.mem.heap s).username = u

theorem Speaker.Right.later {p p' : State} {c : ConnId} {q : Speaker} (h : q.Right p c)
    (hlater : p.shared.mem.Later p'.shared.mem) (hlog : dispatched c p'.log = dispatched c p.log) :
    q.Right p' c := by
  refine ⟨by rw [hlog]; exact h.frame, fun s hs => ?_, fun u hu => ?_⟩
  · have ⟨hlt, hc⟩ := h.session s hs
    exact ⟨Nat.lt_of_lt_of_le hlt hlater.nextRef, by rw [hlater.registeredOn s hlt, hc]⟩
  · have ⟨s, hlt, hc, hname⟩ := h.name u hu
    exact ⟨s, Nat.lt_of_lt_of_le hlt hlater.nextRef, by rw [hlater.registeredOn s hlt, hc],
      by rw [hlater.username s hlt, hname]⟩

variable {cfg : Config}

/-- What a handler finds out by an operation of its own is so. -/
theorem speaker_own {p : State} {phases : Tid → Phase} (hown : Owned p phases) {c : ConnId}
    {q : Speaker} {o : ServerOp} {k : o.Resp → Prog Server Ctl} {ch : Choice} {r : o.Resp}
    {w : World} (h : q.Right p c) (hprog : p.prog (.handler c) = .call (S := Server) o k)
    (he : p.shared.exec cfg (.handler c) o ch = some (r, w)) :
    (q.after o r).Right (p.afterOp (S := Server) (.handler c) o k r w) c := by
  have hlater : p.shared.mem.Later w.mem := exec_later he
  have hsame : dispatched c [⟨.handler c, o, r⟩] = [] →
      q.Right (p.afterOp (S := Server) (.handler c) o k r w) c := by
    intro hnone
    refine h.later hlater ?_
    rw [Pool.afterOp_log, dispatched_append, hnone, List.append_nil]
  cases o with
  | sendBare fd msg => exact hsame rfl
  | sendLocked s msg => exact hsame rfl
  | register fd u a => exact hsame rfl
  | mem o =>
    cases o with
    | dispatch msgType payload =>
      refine ⟨?_, fun s hs => (nomatch hs), fun u hu => (nomatch hu)⟩
      have hnew : dispatched c [(⟨.handler c, .mem (.dispatch msgType payload), r⟩ :
          Event Server Tid)] = [(msgType, payload)] := by
        simp [dispatched]
      rw [Pool.afterOp_log, dispatched_append, hnew, List.getLast?_concat]
      rfl
    | getSession fd =>
      have hright := hsame rfl
      refine ⟨hright.frame, fun s hs => ?_, hright.name⟩
      have hr : r = some s := hs
      cases he
      have hallows : (phases (.handler c)).Allows (.mem (.getSession fd)) := hown.allows hprog
      obtain ⟨hserving, hfd⟩ : (phases (.handler c)).life = .serving ∧ fd = (phases (.handler c)).fd :=
        hallows
      have hphase : phases (.handler c) = ⟨fd, .serving⟩ := by rw [← hserving, hfd]
      exact ⟨hown.2.1.consistent.allocated fd s hr, (hown.2.1.registeredOn_eq_iff hphase hr).2 rfl⟩
    | read s =>
      have hright := hsame rfl
      show Speaker.Right _ _ (if q.session = some s ∧ q.name = none then _ else q)
      split
      · rename_i hown
        refine ⟨hright.frame, hright.session, fun u hu => ?_⟩
        obtain ⟨hlt, hc⟩ := hright.session s hown.1
        cases he
        exact ⟨s, hlt, hc, Option.some.inj hu⟩
      · exact hright
    | recv | running | getPeerIp | removeSession | aliveSessions | findUser | listSessions
      | restore | setStatus | touch | now | markIdle | close => exact hsame rfl

theorem speaker_keeps (cfg : Config) :
    Machine.Keeps (machine cfg) speakerMonitor (fun _ _ _ => True)
      (fun p qs => ∀ c, (qs (.handler c)).Right p c)
      (fun p _ => (system cfg).Reaches Lts.Any p) where
  op p qs t ch o k r w q' hJ hC hprog he _ hnext c := by
    change p.shared.exec cfg t o ch = some (r, w) at he
    rw [show q' = (qs t).after o r from hnext]
    have ⟨phases, hown⟩ := reachable_owned hC
    by_cases ht : t = .handler c
    · subst ht
      rw [update_self]
      exact speaker_own hown (hJ c) hprog he
    · rw [update_of_ne (Ne.symm ht)]
      refine (hJ c).later (exec_later he) ?_
      rw [Pool.afterOp_log, dispatched_other fun _ _ htid => absurd htid ht]
  jump p qs t ctl hJ hC hprog _ := by
    have ⟨phases, hown⟩ := reachable_owned hC
    have hphase := hown.1 t
    rw [hprog] at hphase
    refine ⟨qs t, program_speaks hphase (qs t), fun c => ?_⟩
    rw [update_eq_self]
    exact (hJ c).later (.refl _) rfl
  env p qs e w start hJ hC he := by
    have hstep : (system cfg).step p (.env e) = some (p.afterEnv w start) :=
      Machine.step_env.2 ⟨w, start, he, rfl⟩
    exact ⟨qs, fun _ _ => rfl, fun _ _ _ => trivial, fun c =>
      (hJ c).later (step_later hstep) (by rw [Pool.afterEnv_log])⟩

/-- In every reachable state each handler sends deliveries only under the name
of a session of its connection. -/
theorem reachable_speakers {p : State} (h : (system cfg).Reaches Lts.Any p) :
    ∃ qs : Tid → Speaker, (∀ t, Speaks t (p.prog t) (qs t)) ∧ ∀ c, (qs (.handler c)).Right p c := by
  have hrun : (system cfg).Reaches (fun q _ => (system cfg).Reaches Lts.Any q) p :=
    Lts.Steps.strengthen h fun q _ _ hq _ _ => hq
  have hinit : Machine.Monitored speakerMonitor (fun _ _ _ => True)
      (fun p qs => ∀ c, (qs (.handler c)).Right p c) (system cfg).init fun _ => {} :=
    ⟨fun _ => trivial, fun c => ⟨rfl, fun _ hs => (nomatch hs), fun _ hu => (nomatch hu)⟩⟩
  have ⟨qs, hobeys, hright⟩ := (speaker_keeps cfg).steps hrun hinit
  exact ⟨qs, hobeys, hright⟩

/-! ## The result -/

/-- A registration in the history created a session of that name. -/
theorem registered_event {C : State → Step → Prop} {p : State} (h : (system cfg).Reaches C p)
    {c : ConnId} {fd : Fd} {u a : String} {s : SessionRef}
    (he : (⟨.handler c, .register fd u a, .registered s⟩ : Event Server Tid) ∈ p.log) :
    s < p.shared.mem.nextRef ∧ p.shared.mem.registeredOn s = c ∧
      (p.shared.mem.heap s).username = u := by
  have ⟨hlt, hc⟩ := (registeredOn_iff h s c).1 ⟨fd, u, a, he⟩
  have ⟨L, R, hlog⟩ := List.append_of_mem he
  have ⟨q, k, ch, w, _, _, _, _, hexec, _, hsteps⟩ := event_step h hlog
  have ⟨hr, hw⟩ := World.exec_register.1 hexec
  have hlater := steps_later hsteps
  have hmem : w.mem = (q.shared.mem.register c fd u a).2 := by rw [hw, World.reply_mem]
  rcases Memory.register_cases_created q.shared.mem c fd u a with ⟨hno, _⟩ | ⟨_, _, _, hx⟩
  · exact absurd hr.symm (hno s)
  · rw [hx] at hr hmem
    cases hr
    have hnew : q.shared.mem.nextRef < w.mem.nextRef := by
      rw [hmem]
      exact Nat.lt_succ_self _
    refine ⟨hlt, hc, (hlater.username _ hnew).trans ?_⟩
    show (w.mem.heap _).username = u
    rw [hmem]
    simp

/-- A session of a connection was registered by an event of its handler. -/
theorem registered_of_session {C : State → Step → Prop} {p : State}
    (h : (system cfg).Reaches C p) {s : SessionRef} (hs : s < p.shared.mem.nextRef) :
    ∃ fd a, (⟨.handler (p.shared.mem.registeredOn s),
      .register fd (p.shared.mem.heap s).username a, .registered s⟩ : Event Server Tid) ∈ p.log := by
  have ⟨fd, u, a, he⟩ := (registeredOn_iff h s _).2 ⟨hs, rfl⟩
  have ⟨_, _, hu⟩ := registered_event h he
  rw [hu]
  exact ⟨fd, a, he⟩

/-- The reply of the locked block of `handle_register` is no delivery. -/
theorem registerReply_sender (u a : String) (r : Memory.RegisterOutcome) :
    (registerReply u a r).2.sender = none := by
  cases r <;> rfl

/-- Every delivery names as its sender the user of the only registration of the
connection whose handler sends it, because of the frame that this handler has
dispatched last.  That frame is one of those that the client of the connection
sent. -/
theorem deliveries_authentic {p : State} (h : (system cfg).Reaches Lts.Any p)
    {L R : List (Event Server Tid)} {e : Event Server Tid} {msg : ServerMsg} {u : String}
    (hlog : p.log = L ++ e :: R) (hsent : sentBy e = some msg) (hu : msg.sender = some u) :
    ∃ c msgType payload, e.tid = .handler c ∧
      (dispatched c L).getLast? = some (msgType, payload) ∧ msg.cause = some msgType ∧
      (∃ fs, frameCode.IsLongest (p.shared.mem.sentBytes c) fs ∧
        (msgType, payload) ∈ fs.map Subtype.val) ∧
      (∃ fd a s, (⟨.handler c, .register fd u a, .registered s⟩ : Event Server Tid) ∈ L) ∧
      ∀ fd u' a s, (⟨.handler c, .register fd u' a, .registered s⟩ : Event Server Tid) ∈ p.log →
        u' = u := by
  obtain ⟨q, k, ch, w, hq, hqlog, _, hprog, _, hstep, hsteps⟩ := event_step h hlog
  have hlater : q.shared.mem.Later p.shared.mem := (step_later hstep).trans (steps_later hsteps)
  obtain ⟨qs, hspeaks, hright⟩ := reachable_speakers hq
  have hmay := hspeaks e.tid
  rw [hprog] at hmay
  have hguard := (obeys_speaker_call.1 hmay).1
  obtain ⟨t, o, r⟩ := e
  -- Only `send_locked` sends deliveries, and the watchdog sends none.
  have hsay : t ≠ .watchdog ∧ (qs t).name = msg.sender ∧ (qs t).frame.map Prod.fst = msg.cause := by
    cases o with
    | mem o => cases hsent
    | sendBare fd m =>
      cases hsent
      exact absurd (hu.symm.trans hguard) (Option.some_ne_none u)
    | sendLocked s m =>
      cases hsent
      refine Or.resolve_left hguard fun hnone => ?_
      exact absurd (hu.symm.trans hnone) (Option.some_ne_none u)
    | register fd u' a =>
      cases hsent
      rw [registerReply_sender] at hu
      cases hu
  obtain ⟨hne, hname, hcause⟩ := hsay
  cases t with
  | watchdog => exact absurd rfl hne
  | handler c =>
    have hown := hright c
    rw [hu] at hname
    obtain ⟨s, hs, hc, hsu⟩ := hown.name u hname
    have hlast := hown.frame
    rw [hqlog] at hlast
    have hcause' : msg.cause ≠ none := by
      cases msg with
      | broadcastDelivery m => exact Option.some_ne_none _
      | forDm m => exact Option.some_ne_none _
      | serverResponse | allUsers | getUserInfoResponse => cases hu
    cases hframe : (qs (.handler c)).frame with
    | none =>
      rw [hframe] at hcause
      exact absurd hcause.symm hcause'
    | some frame =>
      obtain ⟨msgType, payload⟩ := frame
      rw [hframe] at hlast hcause
      refine ⟨c, msgType, payload, rfl, hlast.symm, hcause.symm, ?_, ?_, ?_⟩
      · obtain ⟨phases, howned⟩ := reachable_owned hq
        have hlt : c < p.shared.mem.nextConn :=
          Nat.lt_of_lt_of_le (howned.lt_nextConn hprog) hlater.nextConn
        obtain ⟨fs, hfs, hcut, _⟩ := dispatched_cut h hlt
        refine ⟨fs, hfs, ?_⟩
        have hquit := cutAfter_prefix isQuit fs
        refine (hcut.trans (hquit.map _)).subset ?_
        rw [hlog, dispatched, List.filterMap_append]
        exact List.mem_append_left _ (List.mem_of_getLast? hlast.symm)
      · obtain ⟨fd, a, he⟩ := registered_of_session hq hs
        rw [hc, hsu, hqlog] at he
        exact ⟨fd, a, s, he⟩
      · intro fd u' a s' he
        obtain ⟨hs', hc', hu'⟩ := registered_event h he
        obtain ⟨phases, howned⟩ := reachable_owned h
        have hlt : s < p.shared.mem.nextRef := Nat.lt_of_lt_of_le hs hlater.nextRef
        have hsame : s' = s := howned.2.1.once s' s hs' hlt
          (by rw [hc', hlater.registeredOn s hs, hc])
        rw [← hu', hsame, hlater.username s hs, hsu]

/-- The delivery names the user that the first connection has registered. -/
theorem deliveries_authentic_broadcast :
    ∃ p L e, (system sampleConfig).Reaches Lts.Any p ∧ p.log = L ++ [e] ∧
      sentBy e = some (.broadcastDelivery { message := "hi", usernameOrigin := "a" }) ∧
      ∃ c fd a s, (⟨.handler c, .register fd "a" a, .registered s⟩ : Event Server Tid) ∈ L := by
  have ⟨p, hp, hrun⟩ := Lts.exists_reaches_of_run (L := system sampleConfig) broadcastRun
    (fun p => decide (p.log.getLast?.bind sentBy =
      some (.broadcastDelivery { message := "hi", usernameOrigin := "a" })))
    (by decide +kernel)
  have hlast := of_decide_eq_true hrun
  rw [Option.bind_eq_some_iff] at hlast
  have ⟨e, he, hsent⟩ := hlast
  have hlog : p.log = p.log.dropLast ++ [e] := (List.dropLast_append_getLast? e he).symm
  have ⟨c, _, _, _, _, _, _, ⟨fd, a, s, hreg⟩, _⟩ := deliveries_authentic hp hlog hsent rfl
  exact ⟨p, p.log.dropLast, e, hp, hlog, hsent, c, fd, a, s, hreg⟩

end SimpleChat
