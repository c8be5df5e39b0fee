import SimpleChat.Broadcasts
import SimpleChat.Confidential
import SimpleChat.DirectMessages
import SimpleChat.Transcript

/-!
# What a connection hears of a user

A delivery carries the text of the frame that its handler has dispatched last, and a
direct message goes through the session that was found under the name of its addressee
(`deliveries_quote`).  With it the deliveries of the messages of one connection are in
the order of its frames (`broadcasts_delivered`).

A handler writes to its targets one after the other, while clients leave and their
descriptors are given to new connections.  `Talk` is what it has served of them.  The
targets of one message have distinct descriptors, so that no connection gets a message
twice, even where a write goes astray.  `heard_in_order` is the result: what a
connection hears under a name is a subsequence of what was said under it.
-/

namespace SimpleChat

open Conc Function Data

/-! ## Speeches -/

/-- What a frame asks the server to deliver. -/
structure Speech where
  text : String
  /-- The addressee, or nobody for a message to all. -/
  dest : Option String
  deriving DecidableEq

/-- The delivery of a speech, under the name of its speaker. -/
def Speech.under (sp : Speech) (u : String) : ServerMsg :=
  match sp.dest with
  | none => .broadcastDelivery { message := sp.text, usernameOrigin := u }
  | some _ => .forDm { usernameDes := u, message := sp.text }

@[simp] theorem Speech.under_sender (sp : Speech) (u : String) : (sp.under u).sender = some u := by
  unfold under
  split <;> rfl

def Protobuf.speechOf (pb : Protobuf) (f : UInt8 × Bytes) : Option Speech :=
  if f.1 = MsgType.MESSAGE_GENERAL then
    (pb.parseMessageGeneral f.2).map fun m => ⟨m.message, none⟩
  else if f.1 = MsgType.MESSAGE_DM then
    (pb.parseMessageDM f.2).map fun m => ⟨m.message, some m.usernameDes⟩
  else none

theorem Protobuf.speechOf_general {pb : Protobuf} {payload : Bytes} {m : MessageGeneral}
    (h : pb.parseMessageGeneral payload = some m) :
    pb.speechOf (MsgType.MESSAGE_GENERAL, payload) = some ⟨m.message, none⟩ := by
  show (pb.parseMessageGeneral payload).map _ = _
  rw [h]
  rfl

theorem Protobuf.speechOf_dm {pb : Protobuf} {payload : Bytes} {m : MessageDM}
    (h : pb.parseMessageDM payload = some m) :
    pb.speechOf (MsgType.MESSAGE_DM, payload) = some ⟨m.message, some m.usernameDes⟩ := by
  show (pb.parseMessageDM payload).map _ = _
  rw [h]
  rfl

/-! ## The discipline of a handler -/

/-- The frame that a handler works on, the session that it has found, and the targets
that it has served and still has to serve. -/
structure Talk where
  frame : Option (UInt8 × Bytes) := none
  /-- The name that was looked up, and the session with that name. -/
  found : Option (String × SessionRef) := none
  done : List SessionRef := []
  owed : List SessionRef := []

def Talk.after (q : Talk) : (o : ServerOp) → o.Resp → Talk
  | .mem (.dispatch msgType payload), _ => { frame := some (msgType, payload) }
  | .mem .aliveSessions, targets => { q with owed := targets }
  | .mem (.findUser u), dest => { q with found := dest.map fun d => (u, d), owed := dest.toList }
  | .sendLocked s msg, _ =>
    if msg.sender = none then q else { q with done := q.done ++ [s], owed := q.owed.tail }
  | _, _ => q

theorem Talk.after_reply {q : Talk} {s : SessionRef} {msg : ServerMsg} {r : Unit}
    (h : msg.sender = none) : q.after (.sendLocked s msg) r = q := if_pos h

theorem Talk.after_delivery {q : Talk} {s : SessionRef} {msg : ServerMsg} {r : Unit}
    (h : msg.sender ≠ none) :
    q.after (.sendLocked s msg) r = { q with done := q.done ++ [s], owed := q.owed.tail } := if_neg h

theorem Talk.after_quiet (q : Talk) {o : ServerOp} {r : o.Resp} (ho : NoDelivery o)
    (hdispatch : ∀ msgType payload, o ≠ .mem (.dispatch msgType payload)) :
    (q.after o r).frame = q.frame ∧ (q.after o r).done = q.done := by
  cases o with
  | sendLocked s msg =>
    rw [after_reply ho]
    exact ⟨rfl, rfl⟩
  | sendBare fd msg => exact ⟨rfl, rfl⟩
  | register fd u a => exact ⟨rfl, rfl⟩
  | mem o =>
    cases o with
    | dispatch msgType payload => exact absurd rfl (hdispatch msgType payload)
    | recv | running | getPeerIp | getSession | removeSession | aliveSessions | findUser
      | listSessions | read | restore | setStatus | touch | now | markIdle | close =>
      exact ⟨rfl, rfl⟩

/-- A delivery quotes the frame, and goes to the next target.  The targets are settled
before the first delivery.  A registration is under the name of the frame, and a reply
without a session is an error. -/
def Talk.Allows (cfg : Config) (q : Talk) : ServerOp → Prop
  | .sendLocked s msg => msg.sender = none ∨ q.owed.head? = some s ∧
      ∃ sp u, q.frame.bind cfg.pb.speechOf = some sp ∧ msg = sp.under u ∧
        ∀ v, sp.dest = some v → q.found = some (v, s)
  | .sendBare _ msg => ∃ code text, msg = response code text false
  | .register _ u _ => ∃ payload reg, q.frame = some (MsgType.REGISTER, payload) ∧
      cfg.pb.parseRegister payload = some reg ∧ reg.username = u
  | .mem .aliveSessions => q.done = []
  | .mem (.findUser _) => q.done = []
  | _ => True

def talkMonitor (cfg : Config) : Prog.Monitor Server Talk :=
  .det (Talk.Allows cfg) fun q o r => q.after o r

abbrev Talks {α : Type} (cfg : Config) (p : Prog Server α) (q : Talk) : Prop :=
  p.Obeys (talkMonitor cfg) (fun _ _ => True) q

/-- An operation that delivers and registers nothing. -/
def Hushed : ServerOp → Prop
  | .sendLocked _ msg => msg.sender = none
  | .sendBare _ msg => ∃ code text, msg = response code text false
  | .register _ _ _ => False
  | _ => True

/-- Such an operation that does not settle targets either. -/
def Mute : ServerOp → Prop
  | .mem .aliveSessions => False
  | .mem (.findUser _) => False
  | o => Hushed o

section Programs

variable {cfg : Config} {fd : Fd} {payload : Bytes}

theorem obeys_talk_call {α : Type} {o : ServerOp} {k : o.Resp → Prog Server α} {q : Talk}
    {post : α → Talk → Prop} :
    (Prog.call (S := Server) o k).Obeys (talkMonitor cfg) post q ↔
      q.Allows cfg o ∧ ∀ r, (k r).Obeys (talkMonitor cfg) post (q.after o r) :=
  Prog.obeys_det_call

/-- A program that stays mute may run at any time. -/
theorem talks_of_mute {α : Type} {p : Prog Server α} (h : p.Only Mute) (q : Talk) :
    Talks cfg p q := by
  induction p generalizing q with
  | ret a => trivial
  | call o k ih =>
    refine obeys_talk_call.2 ⟨?_, fun r => ih r (h.2 r) _⟩
    have ho := h.1
    cases o with
    | sendLocked s msg => exact Or.inl ho
    | sendBare fd msg => exact ho
    | register fd u a => exact ho.elim
    | mem o =>
      cases o with
      | aliveSessions => exact ho.elim
      | findUser u => exact ho.elim
      | recv | dispatch | running | getPeerIp | getSession | removeSession | listSessions | read
        | restore | setStatus | touch | now | markIdle | close => trivial

theorem sendLocked_mute {s : SessionRef} {msg : ServerMsg} (h : msg.sender = none) :
    (Prog.call (S := Server) (.sendLocked s msg) .ret).Only Mute :=
  ⟨h, fun _ => trivial⟩

theorem sendBare_mute (fd : Fd) (code : Int) (text : String) :
    (Prog.call (S := Server) (.sendBare fd (response code text false)) .ret).Only Mute :=
  ⟨⟨code, text, rfl⟩, fun _ => trivial⟩

/-- A program without deliveries may settle targets, for nobody. -/
theorem talks_of_hushed {α : Type} {p : Prog Server α} (h : p.Only Hushed) {q : Talk}
    (hq : q.done = []) : Talks cfg p q := by
  induction p generalizing q with
  | ret a => trivial
  | call o k ih =>
    have ho := h.1
    have hstep : ∀ q' : Talk, q'.done = [] → ∀ r, (k r).Obeys (talkMonitor cfg) (fun _ _ => True) q' :=
      fun q' hq' r => ih r (h.2 r) hq'
    cases o with
    | sendLocked s msg =>
      refine obeys_talk_call.2 ⟨Or.inl ho, fun r => hstep _ ?_ r⟩
      rwa [Talk.after_reply ho]
    | sendBare fd msg => exact obeys_talk_call.2 ⟨ho, hstep _ hq⟩
    | register fd u a => exact ho.elim
    | mem o =>
      cases o with
      | aliveSessions => exact obeys_talk_call.2 ⟨hq, fun r => hstep _ (by exact hq) r⟩
      | findUser u => exact obeys_talk_call.2 ⟨hq, fun r => hstep _ (by exact hq) r⟩
      | dispatch => exact obeys_talk_call.2 ⟨trivial, fun r => hstep _ rfl r⟩
      | recv | running | getPeerIp | getSession | removeSession | listSessions | read
        | restore | setStatus | touch | now | markIdle | close =>
        exact obeys_talk_call.2 ⟨trivial, hstep _ hq⟩

theorem BodyOp.hushed {s : SessionRef} {o : ServerOp} (h : BodyOp s o) : Hushed o := by
  cases h <;> first | rfl | trivial

theorem handleChangeStatus_hushed : (handleChangeStatus cfg fd payload).Only Hushed :=
  (handleChangeStatus_only cfg fd payload).only trivial ⟨_, _, rfl⟩ fun _ _ ho => ho.hushed

theorem handleListUsers_hushed : (handleListUsers cfg fd payload).Only Hushed :=
  (handleListUsers_only cfg fd payload).only trivial ⟨_, _, rfl⟩ fun _ _ ho =>
    ho.elim BodyOp.hushed fun ho => by cases ho <;> first | rfl | trivial

theorem handleGetUserInfo_hushed : (handleGetUserInfo cfg fd payload).Only Hushed :=
  (handleGetUserInfo_only cfg fd payload).only trivial ⟨_, _, rfl⟩ fun _ _ ho => ho.hushed

theorem handleQuit_hushed : (handleQuit cfg fd payload).Only Hushed :=
  (handleQuit_only cfg fd payload).mono fun _ ho => by cases ho <;> first | rfl | trivial

theorem handleRegister_talks :
    Talks cfg (handleRegister cfg fd payload) { frame := some (MsgType.REGISTER, payload) } := by
  unfold handleRegister
  split
  · exact talks_of_mute (sendBare_mute _ _ _) _
  · rename_i reg hparse
    simp only [mem_eq, Prog.call_bind, Prog.ret_bind]
    refine obeys_talk_call.2 ⟨trivial, fun peerIp => ?_⟩
    split
    · exact talks_of_mute (sendBare_mute _ _ _) _
    · exact obeys_talk_call.2 ⟨⟨payload, reg, rfl, hparse, rfl⟩, fun _ => trivial⟩

/-- `maybe_restore_activity` leaves the talk as it is. -/
theorem maybeRestoreActivity_talks (s : SessionRef) (q : Talk) :
    (maybeRestoreActivity s).Obeys (talkMonitor cfg) (fun _ q' => q' = q) q := by
  simp only [maybeRestoreActivity, mem_eq, Prog.call_bind, Prog.ret_bind]
  refine obeys_talk_call.2 ⟨trivial, fun restored => ?_⟩
  cases restored with
  | false => exact obeys_talk_call.2 ⟨trivial, fun _ => rfl⟩
  | true =>
    refine obeys_talk_call.2 ⟨Or.inl rfl, fun _ => ?_⟩
    exact obeys_talk_call.2 ⟨trivial, fun _ => rfl⟩

/-- The loop over the targets delivers the speech to each of them. -/
theorem sendAll_talks {frame : UInt8 × Bytes} {text : String} (u : String)
    (hframe : cfg.pb.speechOf frame = some ⟨text, none⟩) (targets done : List SessionRef) :
    Talks cfg (targets.forM fun t => sendLocked t (Speech.under ⟨text, none⟩ u))
      ⟨some frame, none, done, targets⟩ := by
  induction targets generalizing done with
  | nil => trivial
  | cons t targets ih =>
    rw [Prog.forM_cons, sendLocked_eq, Prog.call_bind, Talks, obeys_talk_call]
    refine ⟨Or.inr ⟨rfl, _, u, hframe, rfl, nofun⟩, fun _ => ?_⟩
    have hsender : (Speech.under ⟨text, none⟩ u).sender ≠ none := Option.some_ne_none u
    rw [Talk.after_delivery hsender]
    exact ih _

theorem handleMessageGeneral_talks :
    Talks cfg (handleMessageGeneral cfg fd payload)
      { frame := some (MsgType.MESSAGE_GENERAL, payload) } := by
  simp only [handleMessageGeneral, withSession, mem_eq, Prog.call_bind, Prog.ret_bind]
  refine obeys_talk_call.2 ⟨trivial, fun session => ?_⟩
  cases session with
  | none => exact talks_of_mute (sendBare_mute _ _ _) _
  | some s =>
    dsimp only
    split
    · exact talks_of_mute (sendLocked_mute rfl) _
    · rename_i msg hparse
      refine (maybeRestoreActivity_talks s _).bind fun _ q hq => ?_
      subst hq
      refine obeys_talk_call.2 ⟨trivial, fun i => obeys_talk_call.2 ⟨rfl, fun targets => ?_⟩⟩
      exact sendAll_talks i.username (Protobuf.speechOf_general hparse) targets []

theorem handleMessageDm_talks :
    Talks cfg (handleMessageDm cfg fd payload) { frame := some (MsgType.MESSAGE_DM, payload) } := by
  simp only [handleMessageDm, withSession, mem_eq, Prog.call_bind, Prog.ret_bind]
  refine obeys_talk_call.2 ⟨trivial, fun session => ?_⟩
  cases session with
  | none => exact talks_of_mute (sendBare_mute _ _ _) _
  | some s =>
    dsimp only
    split
    · exact talks_of_mute (sendLocked_mute rfl) _
    · rename_i msg hparse
      refine (maybeRestoreActivity_talks s _).bind fun _ q hq => ?_
      subst hq
      refine obeys_talk_call.2 ⟨trivial, fun i => obeys_talk_call.2 ⟨rfl, fun dest => ?_⟩⟩
      cases dest with
      | none => exact talks_of_mute (sendLocked_mute rfl) _
      | some d =>
        refine obeys_talk_call.2 ⟨trivial, fun j => ?_⟩
        have hreply : ∀ q, Talks cfg (sendResponseDirect s StatusCode.OK_DM_SENT
            ("DM sent to " ++ msg.usernameDes) true) q := fun q =>
          talks_of_mute (sendLocked_mute rfl) q
        split
        · refine obeys_talk_call.2 ⟨Or.inr ⟨rfl, ⟨msg.message, some msg.usernameDes⟩, i.username,
            Protobuf.speechOf_dm hparse, rfl, fun v hv => ?_⟩, fun _ => hreply _⟩
          cases hv
          rfl
        · exact hreply _

theorem handleFrame_talks (msgType : UInt8) :
    Talks cfg (handleFrame cfg fd msgType payload) { frame := some (msgType, payload) } := by
  unfold handleFrame
  split_ifs with h1 h2 h3 h4 h5 h6 h7
  · rw [h1]
    exact handleRegister_talks
  · rw [h2]
    exact handleMessageGeneral_talks
  · rw [h3]
    exact handleMessageDm_talks
  · exact talks_of_hushed handleChangeStatus_hushed rfl
  · exact talks_of_hushed handleListUsers_hushed rfl
  · exact talks_of_hushed handleGetUserInfo_hushed rfl
  · exact talks_of_hushed handleQuit_hushed rfl
  · exact talks_of_mute (sendBare_mute _ _ _) _

theorem handleClient_talks (q : Talk) : Talks cfg (handleClient cfg fd) q := by
  simp only [handleClient, mem_eq, Prog.call_bind, Prog.ret_bind]
  refine obeys_talk_call.2 ⟨trivial, fun running => ?_⟩
  cases running with
  | false => trivial
  | true =>
    show Talks cfg (_ >>= _) _
    have hrecv : ((recvMessage fd).lift recvEmbedding).Only Mute :=
      (recvMessage_reads fd).lift fun _ _ => trivial
    refine (talks_of_mute hrecv _).bind fun frame q' _ => ?_
    cases frame with
    | none => trivial
    | some frame =>
      obtain ⟨msgType, payload⟩ := frame
      refine obeys_talk_call.2 ⟨trivial, fun _ => ?_⟩
      rw [dispatch_eq]
      exact (handleFrame_talks msgType).bind fun _ _ _ => trivial

theorem watchdogLoop_mute : (watchdogLoop cfg).Only Mute :=
  (watchdogLoop_only cfg).mono fun _ ho => by cases ho <;> first | rfl | trivial

theorem program_talks (ctl : Ctl) (q : Talk) : Talks cfg (ctl.program cfg) q := by
  cases ctl with
  | loop fd => exact handleClient_talks q
  | cleanup fd =>
    exact talks_of_mute (p := handleClientCleanup fd) ⟨trivial, fun _ => ⟨trivial, fun _ => trivial⟩⟩ _
  | watchdog => exact talks_of_mute watchdogLoop_mute _
  | ended => trivial

end Programs

/-! ## The history -/

/-- The connections that registered a name, in order. -/
def registrants (u : String) (log : List (Event Server Tid)) : List ConnId :=
  log.filterMap fun
    | ⟨.handler c, .register _ v _, .registered _⟩ => if v = u then some c else none
    | _ => none

/-- What the frames of a connection ask for, under a name. -/
def speeches (pb : Protobuf) (u : String) (frames : List (UInt8 × Bytes)) : List ServerMsg :=
  (frames.filterMap pb.speechOf).map fun sp => sp.under u

/-- What was said under a name: by one connection after the other, and by each in the
order of its frames. -/
def said (pb : Protobuf) (u : String) (log : List (Event Server Tid)) : List ServerMsg :=
  (registrants u log).flatMap fun c => speeches pb u (dispatched c log)

/-- The deliveries under a name among the frames on a connection. -/
def heardUnder (u : String) (frames : List Written) : List ServerMsg :=
  (frames.map Written.msg).filter fun msg => msg.sender = some u

theorem registrants_append (u : String) (L R : List (Event Server Tid)) :
    registrants u (L ++ R) = registrants u L ++ registrants u R := List.filterMap_append

theorem speeches_append (pb : Protobuf) (u : String) (l l' : List (UInt8 × Bytes)) :
    speeches pb u (l ++ l') = speeches pb u l ++ speeches pb u l' := by
  unfold speeches
  rw [List.filterMap_append, List.map_append]

theorem heardUnder_append (u : String) (l l' : List Written) : heardUnder u (l ++ l') = heardUnder u l ++ heardUnder u l' := by
  unfold heardUnder
  rw [List.map_append, List.filter_append]

theorem mem_registrants {u : String} {c : ConnId} {log : List (Event Server Tid)} :
    c ∈ registrants u log ↔
      ∃ fd a s, (⟨.handler c, .register fd u a, .registered s⟩ : Event Server Tid) ∈ log := by
  unfold registrants
  rw [List.mem_filterMap]
  constructor
  · intro ⟨e, he, hc⟩
    split at hc
    · rename_i d fd v a s
      obtain ⟨hv, hd⟩ := Option.ite_none_right_eq_some.1 hc
      cases hv
      cases hd
      exact ⟨fd, a, s, he⟩
    · cases hc
  · intro ⟨fd, a, s, he⟩
    exact ⟨_, he, if_pos rfl⟩

/-- An event that registers nobody under the name. -/
theorem registrants_other {u : String} {log : List (Event Server Tid)} {e : Event Server Tid}
    (h : ∀ c fd a s, e ≠ ⟨.handler c, .register fd u a, .registered s⟩) :
    registrants u (log ++ [e]) = registrants u log := by
  have hnone : registrants u [e] = [] := by
    refine List.eq_nil_iff_forall_not_mem.2 fun c hc => ?_
    have ⟨fd, a, s, he⟩ := mem_registrants.1 hc
    exact h c fd a s (List.mem_singleton.1 he).symm
  rw [registrants_append, hnone, List.append_nil]

theorem registrants_own (u : String) (log : List (Event Server Tid)) (c : ConnId) (fd : Fd)
    (a : String) (s : SessionRef) :
    registrants u (log ++ [⟨.handler c, .register fd u a, .registered s⟩]) = registrants u log ++ [c] := by
  have hone : registrants u [(⟨.handler c, .register fd u a, .registered s⟩ : Event Server Tid)] =
      [c] := by
    simp [registrants]
  rw [registrants_append, hone]

variable {cfg : Config}

/-- What a write adds to what is heard. -/
theorem heardUnder_write (u : String) (w : World) (fd : Fd) (via : Option SessionRef) (msg : ServerMsg)
    (d : ConnId) :
    heardUnder u ((w.write fd via msg).out d) =
      heardUnder u (w.out d) ++ if w.mem.fds fd = some d ∧ msg.sender = some u then [msg] else [] := by
  unfold World.write
  cases hfd : w.mem.fds fd with
  | none => simp
  | some c =>
    by_cases hd : d = c
    · subst hd
      show heardUnder u (update w.out d _ d) = _
      rw [update_self, heardUnder_append]
      congr 1
      by_cases hu : msg.sender = some u <;> simp [heardUnder, hu]
    · show heardUnder u (update w.out c _ d) = _
      rw [update_of_ne hd, if_neg fun h => hd (Option.some.inj h.1).symm, List.append_nil]

/-- What is no delivery is not heard. -/
theorem heardUnder_write_reply (u : String) (w : World) (fd : Fd) (via : Option SessionRef)
    {msg : ServerMsg} (h : msg.sender = none) (d : ConnId) :
    heardUnder u ((w.write fd via msg).out d) = heardUnder u (w.out d) := by
  rw [heardUnder_write, if_neg, List.append_nil]
  rw [h]
  exact fun hc => nomatch hc.2

theorem heardUnder_exec {t : Tid} {w w' : World} {o : ServerOp} {ch : Choice} {r : o.Resp}
    (he : w.exec cfg t o ch = some (r, w')) (ho : NoDelivery o) (u : String) (d : ConnId) :
    heardUnder u (w'.out d) = heardUnder u (w.out d) := by
  cases o with
  | mem o =>
    have ⟨x, _, hx⟩ := Option.map_eq_some_iff.1 he
    cases hx
    rfl
  | sendBare fd msg =>
    cases he
    exact heardUnder_write_reply u w fd none ho d
  | sendLocked s msg =>
    cases he
    exact heardUnder_write_reply u w _ _ ho d
  | register fd v a =>
    cases t with
    | watchdog => cases he
    | handler c =>
      have ⟨_, hw⟩ := World.exec_register.1 he
      rw [hw]
      unfold World.reply
      split <;> exact heardUnder_write_reply u _ _ _ (registerReply_sender v a r) d

/-! ## Registrations -/

/-- A registration is of a connection that has none, under a name that nobody has. -/
theorem register_fresh {p : State} {phases : Tid → Phase} (hown : Owned p phases) {c : ConnId}
    {fd : Fd} {u a : String} {k : Memory.RegisterOutcome → Prog Server Ctl} {ch : Choice}
    {s : SessionRef} {w : World} (hprog : p.prog (.handler c) = .call (S := Server) (.register fd u a) k)
    (he : p.shared.exec cfg (.handler c) (.register fd u a) ch = some (.registered s, w)) :
    (∀ x, x < p.shared.mem.nextRef → p.shared.mem.registeredOn x ≠ c) ∧
      ∀ k x, p.shared.mem.registry.sessions.lookup k = some x →
        (p.shared.mem.heap x).username ≠ u := by
  have hallows : (phases (.handler c)).Allows (.register fd u a) := hown.allows hprog
  obtain ⟨hlife, hfd, hu⟩ := hallows
  have ⟨hr, _⟩ := World.exec_register.1 he
  rcases Memory.register_cases_created p.shared.mem c fd u a with ⟨hno, _⟩ | ⟨hnone, hname, _, _⟩
  · exact absurd hr.symm (hno s)
  · refine ⟨fun x hx hc => ?_, fun k x hk hxu => ?_⟩
    · -- A handler that serves finds its session under its descriptor.
      have hserving : (phases (.handler (p.shared.mem.registeredOn x))).life = .serving := by
        rw [hc]
        exact hlife
      have hlook := hown.2.1.live x hx hserving
      have hsock := (hown.2.1.registered x hx).2.1
      have hserves := (hown.2.1.serves c (by rw [hlife]; decide)).1
      rw [hsock, hc, ← hserves, ← hfd] at hlook
      exact hnone (Finmap.mem_of_lookup_eq_some hlook)
    · exact hname (hown.2.1.consistent.names.mem_iff.2 ⟨k, x, hk, hxu⟩)

/-- Each connection is registered once, and the name of a session in the registry was
registered last by its connection. -/
structure Roll (m : Memory) (log : List (Event Server Tid)) : Prop where
  known : ∀ u c, c ∈ registrants u log → ∃ s, s < m.nextRef ∧ m.registeredOn s = c
  nodup : ∀ u, (registrants u log).Nodup
  last : ∀ fd s, m.registry.sessions.lookup fd = some s →
    (registrants (m.heap s).username log).getLast? = some (m.registeredOn s)

/-- An operation that registers nobody. -/
theorem Roll.other {m m' : Memory} {log : List (Event Server Tid)} {e : Event Server Tid}
    (h : Roll m log) (hc : m.Consistent) (hlater : m.Later m')
    (he : ∀ c fd u a s, e ≠ ⟨.handler c, .register fd u a, .registered s⟩)
    (hregistry : ∀ fd s, m'.registry.sessions.lookup fd = some s →
      m.registry.sessions.lookup fd = some s) : Roll m' (log ++ [e]) := by
  have hsame : ∀ u, registrants u (log ++ [e]) = registrants u log := fun u =>
    registrants_other fun c fd a s => he c fd u a s
  refine ⟨fun u c hmem => ?_, fun u => ?_, fun fd s hs => ?_⟩
  · rw [hsame] at hmem
    have ⟨s, hs, hon⟩ := h.known u c hmem
    exact ⟨s, Nat.lt_of_lt_of_le hs hlater.nextRef, (hlater.registeredOn s hs).trans hon⟩
  · rw [hsame]
    exact h.nodup u
  · have hold := hregistry fd s hs
    have hlt := hc.allocated fd s hold
    rw [hsame, hlater.username s hlt, hlater.registeredOn s hlt]
    exact h.last fd s hold

theorem Roll.register {p : State} {phases : Tid → Phase} (h : Roll p.shared.mem p.log)
    (hown : Owned p phases) {c : ConnId} {fd : Fd} {u a : String}
    {k : Memory.RegisterOutcome → Prog Server Ctl} {ch : Choice} {r : Memory.RegisterOutcome}
    {w : World} (hprog : p.prog (.handler c) = .call (S := Server) (.register fd u a) k)
    (he : p.shared.exec cfg (.handler c) (.register fd u a) ch = some (r, w)) :
    Roll w.mem (p.log ++ [⟨.handler c, .register fd u a, r⟩]) := by
  have hlater : p.shared.mem.Later w.mem := exec_later he
  have ⟨hr, hw⟩ := World.exec_register.1 he
  have hmem : w.mem = (p.shared.mem.register c fd u a).2 := by rw [hw, World.reply_mem]
  rcases Memory.register_cases_created p.shared.mem c fd u a with ⟨hno, hx⟩ | ⟨_, _, _, hx⟩
  · refine h.other hown.2.1.consistent hlater (fun c' fd' u' a' s heq => ?_) fun fd' s hs => ?_
    · cases heq
      exact hno s hr.symm
    · rwa [hmem, hx] at hs
  · rw [hx] at hr hmem
    subst hr
    have ⟨hnew, hname⟩ := register_fresh hown hprog he
    have hnot : ∀ v, c ∉ registrants v p.log := fun v hc => by
      have ⟨s, hs, hon⟩ := h.known v c hc
      exact hnew s hs hon
    have hnext : w.mem.nextRef = p.shared.mem.nextRef + 1 := by rw [hmem]
    refine ⟨fun v d hd => ?_, fun v => ?_, fun fd' s hs => ?_⟩
    · by_cases hdc : d = c
      · refine ⟨p.shared.mem.nextRef, hnext ▸ Nat.lt_succ_self _, ?_⟩
        rw [hmem, hdc]
        exact update_self _ _ _
      · have ⟨fd', a', s, hin⟩ := mem_registrants.1 hd
        rcases List.mem_append.1 hin with hin | hin
        · have ⟨s', hs', hon⟩ := h.known v d (mem_registrants.2 ⟨fd', a', s, hin⟩)
          exact ⟨s', Nat.lt_of_lt_of_le hs' hlater.nextRef, (hlater.registeredOn s' hs').trans hon⟩
        · cases List.mem_singleton.1 hin
          exact absurd rfl hdc
    · by_cases hv : v = u
      · subst hv
        rw [registrants_own, ← List.concat_eq_append]
        exact .concat (hnot v) (h.nodup v)
      · rw [registrants_other fun c' fd' a' s heq => hv (by cases heq; rfl)]
        exact h.nodup v
    · by_cases hs' : s = p.shared.mem.nextRef
      · have hheap : (w.mem.heap s).username = u := by
          rw [hmem, hs']
          simp
        have hon : w.mem.registeredOn s = c := by
          rw [hmem, hs']
          exact update_self _ _ _
        rw [hheap, hon, registrants_own, List.getLast?_concat]
      · have hold : p.shared.mem.registry.sessions.lookup fd' = some s := by
          rw [hmem] at hs
          by_cases hfd : fd' = fd
          · subst hfd
            exact absurd (Option.some.inj (hs.symm.trans (Finmap.lookup_insert _))) hs'
          · exact (Finmap.lookup_insert_of_ne _ hfd).symm.trans hs
        have hlt := hown.2.1.consistent.allocated fd' s hold
        rw [hlater.username s hlt, hlater.registeredOn s hlt]
        have hne := hname fd' s hold
        rw [registrants_other fun c' f a' x heq => hne (by cases heq; rfl)]
        exact h.last fd' s hold

theorem reachable_roll {p : State} {C : State → Step → Prop} (h : (system cfg).Reaches C p) :
    Roll p.shared.mem p.log := by
  refine world_invariant (I := fun w log => Roll w.mem log) ?_ ?_ ?_ h
  · refine ⟨fun u c hc => ?_, fun u => List.nodup_nil, fun fd s hs => ?_⟩
    · cases hc
    · simp [Memory.init] at hs
  · intro p phases t o k ch r w hown hroll hprog _ he
    have hlater : p.shared.mem.Later w.mem := exec_later he
    rcases World.exec_mem_cases he with ⟨hf, _, _, hreg⟩ | ⟨fd, rfl, hm⟩ | ⟨fd, rfl, hm⟩ |
      ⟨c, fd, u, a, rfl, rfl, _⟩
    · refine hroll.other hown.2.1.consistent hlater (fun c fd u a s heq => ?_) fun fd s hs => ?_
      · exact hreg fd u a (congrArg Event.op heq)
      · rwa [hf.registry] at hs
    · refine hroll.other hown.2.1.consistent hlater (fun c fd u a s heq => ?_) fun fd' s hs => ?_
      · cases heq
      · rw [hm, Memory.removeSession_lookup] at hs
        exact (Option.ite_none_left_eq_some.1 hs).2
    · refine hroll.other hown.2.1.consistent hlater (fun c fd u a s heq => ?_) fun fd' s hs => ?_
      · cases heq
      · rwa [hm] at hs
    · exact hroll.register hown hprog he
  · intro p phases e w start hown hroll _ he
    rcases World.env_mem_cases he with ⟨_, hf, _⟩ | ⟨fd, peerIp, _, _, _, rfl⟩
    · refine ⟨fun u c hc => ?_, hroll.nodup, fun fd s hs => ?_⟩
      · rw [hf.nextRef, hf.registeredOn]
        exact hroll.known u c hc
      · rw [hf.registry] at hs
        rw [hf.username, hf.registeredOn]
        exact hroll.last fd s hs
    · exact ⟨hroll.known, hroll.nodup, hroll.last⟩

/-! ## The talk of a handler -/

/-- What a handler has found out is so, and its targets have distinct descriptors. -/
structure Talk.Right (p : State) (c : ConnId) (q : Talk) : Prop where
  frame : q.frame = (dispatched c p.log).getLast?
  found : ∀ u s, q.found = some (u, s) →
    s < p.shared.mem.nextRef ∧ (p.shared.mem.heap s).username = u
  known : ∀ s ∈ q.done ++ q.owed, s < p.shared.mem.nextRef
  distinct : ((q.done ++ q.owed).map fun s => (p.shared.mem.heap s).socketFd).Nodup

/-- The descriptors of the targets that were served. -/
def Talk.served (p : State) (q : Talk) : List Fd :=
  q.done.map fun s => (p.shared.mem.heap s).socketFd

theorem map_socketFd_later {m m' : Memory} {l : List SessionRef} (hlater : m.Later m')
    (h : ∀ s ∈ l, s < m.nextRef) :
    (l.map fun s => (m'.heap s).socketFd) = l.map fun s => (m.heap s).socketFd :=
  List.map_congr_left fun s hs => hlater.socketFd s (h s hs)

theorem Talk.Right.later {p p' : State} {c : ConnId} {q : Talk} (h : q.Right p c)
    (hlater : p.shared.mem.Later p'.shared.mem) (hlog : dispatched c p'.log = dispatched c p.log) :
    q.Right p' c := by
  refine ⟨by rw [hlog]; exact h.frame, fun u s hs => ?_, fun s hs => ?_, ?_⟩
  · have ⟨hlt, hu⟩ := h.found u s hs
    exact ⟨Nat.lt_of_lt_of_le hlt hlater.nextRef, (hlater.username s hlt).trans hu⟩
  · exact Nat.lt_of_lt_of_le (h.known s hs) hlater.nextRef
  · rw [map_socketFd_later hlater h.known]
    exact h.distinct

theorem Talk.Right.served_later {p p' : State} {c : ConnId} {q : Talk} (h : q.Right p c)
    (hlater : p.shared.mem.Later p'.shared.mem) : q.served p' = q.served p :=
  map_socketFd_later hlater fun s hs => h.known s (List.mem_append_left _ hs)

/-- The sessions of a snapshot have distinct descriptors. -/
theorem distinct_of_registry {m : Memory} (hc : m.Consistent) {l : List SessionRef}
    (hnodup : l.Nodup) (h : ∀ x ∈ l, ∃ fd, m.registry.sessions.lookup fd = some x) :
    (∀ x ∈ l, x < m.nextRef) ∧ (l.map fun s => (m.heap s).socketFd).Nodup := by
  refine ⟨fun x hx => ?_, hnodup.map_on fun x hx y hy heq => ?_⟩
  · have ⟨fd, hfd⟩ := h x hx
    exact hc.allocated fd x hfd
  · have ⟨fd, hfd⟩ := h x hx
    have ⟨fd', hfd'⟩ := h y hy
    rw [hc.socketFd fd x hfd, hc.socketFd fd' y hfd'] at heq
    rw [heq, hfd'] at hfd
    exact (Option.some.inj hfd).symm

theorem talk_own {p : State} {phases : Tid → Phase} (hown : Owned p phases) {c : ConnId} {q : Talk}
    {o : ServerOp} {k : o.Resp → Prog Server Ctl} {ch : Choice} {r : o.Resp} {w : World}
    (h : q.Right p c) (he : p.shared.exec cfg (.handler c) o ch = some (r, w))
    (hguard : q.Allows cfg o) :
    (q.after o r).Right (p.afterOp (S := Server) (.handler c) o k r w) c := by
  have hlater : p.shared.mem.Later w.mem := exec_later he
  have hsame : dispatched c [⟨.handler c, o, r⟩] = [] →
      q.Right (p.afterOp (S := Server) (.handler c) o k r w) c := by
    intro hnone
    refine h.later hlater ?_
    rw [Pool.afterOp_log, dispatched_append, hnone, List.append_nil]
  cases o with
  | sendBare fd msg => exact hsame rfl
  | register fd u a => exact hsame rfl
  | sendLocked s msg =>
    by_cases hmsg : msg.sender = none
    · rw [Talk.after_reply hmsg]
      exact hsame rfl
    · obtain ⟨hnext, _⟩ := Or.resolve_left hguard hmsg
      have hmove : q.done ++ [s] ++ q.owed.tail = q.done ++ q.owed := by
        rw [List.append_assoc, List.singleton_append, List.cons_head?_tail hnext]
      have hright := hsame rfl
      rw [Talk.after_delivery hmsg]
      refine ⟨hright.frame, hright.found, ?_, ?_⟩
      · rw [hmove]
        exact hright.known
      · rw [hmove]
        exact hright.distinct
  | mem o =>
    cases o with
    | dispatch msgType payload =>
      refine ⟨?_, fun u s hs => ?_, fun s hs => ?_, List.nodup_nil⟩
      · have hnew : dispatched c [(⟨.handler c, .mem (.dispatch msgType payload), r⟩ :
            Event Server Tid)] = [(msgType, payload)] := by
          simp [dispatched]
        rw [Pool.afterOp_log, dispatched_append, hnew, List.getLast?_concat]
        rfl
      · cases hs
      · cases hs
    | aliveSessions =>
      have hright := hsame rfl
      obtain ⟨hnodup, hmem⟩ := exec_aliveSessions hown.2.1 he
      obtain ⟨hlt, hdistinct⟩ := distinct_of_registry hown.2.1.consistent hnodup fun x hx => (hmem x).1 hx
      have hdone : q.done = [] := hguard
      refine ⟨hright.frame, hright.found, ?_, ?_⟩
      · show ∀ s ∈ q.done ++ r, _
        rw [hdone]
        exact fun s hs => Nat.lt_of_lt_of_le (hlt s hs) hlater.nextRef
      · show ((q.done ++ r).map _).Nodup
        rw [hdone, List.nil_append, Pool.afterOp_shared, map_socketFd_later hlater hlt]
        exact hdistinct
    | findUser u =>
      have hright := hsame rfl
      have hdone : q.done = [] := hguard
      have hfind : ∀ d, r = some d → d < w.mem.nextRef ∧ (w.mem.heap d).username = u := by
        intro d hd
        obtain ⟨hlt, hname⟩ := foundUnder_hasName (u := u) (s := d) hown.2.1.consistent he ⟨rfl, hd⟩
        exact ⟨Nat.lt_of_lt_of_le hlt hlater.nextRef, (hlater.username d hlt).trans hname⟩
      refine ⟨hright.frame, fun v s hs => ?_, fun s hs => ?_, ?_⟩
      · obtain ⟨d, hd, heq⟩ := Option.map_eq_some_iff.1 hs
        cases heq
        exact hfind s hd
      · change s ∈ q.done ++ r.toList at hs
        rw [hdone, List.nil_append, Option.mem_toList] at hs
        exact (hfind s hs).1
      · show ((q.done ++ r.toList).map _).Nodup
        rw [hdone]
        cases r with
        | none => exact List.nodup_nil
        | some d => exact List.nodup_singleton _
    | recv | running | getPeerIp | getSession | removeSession | listSessions | read
      | restore | setStatus | touch | now | markIdle | close => exact hsame rfl

/-! ## What is heard -/

/-- The speech of the frame that a handler works on. -/
def Talk.speech (pb : Protobuf) (u : String) (q : Talk) : List ServerMsg :=
  speeches pb u q.frame.toList

/-- What a connection hears under a name.  The message that the last user of the name is
sending is not among what was heard, unless the connection is served already. -/
structure Hears (pb : Protobuf) (p : State) (qs : Tid → Talk) (d : ConnId) (u : String) : Prop where
  sublist : (heardUnder u (p.shared.out d)).Sublist (said pb u p.log)
  fresh : ∀ c, (registrants u p.log).getLast? = some c →
    (p.shared.mem.conns d).fd ∉ (qs (.handler c)).served p →
      ∃ earlier, said pb u p.log = earlier ++ (qs (.handler c)).speech pb u ∧
        (heardUnder u (p.shared.out d)).Sublist earlier

variable {pb : Protobuf} {u : String} {d : ConnId} {qs : Tid → Talk}

theorem speeches_split {p : State} {c : ConnId} {q : Talk} (h : q.Right p c) (pb : Protobuf)
    (u : String) : ∃ earlier, speeches pb u (dispatched c p.log) = earlier ++ q.speech pb u := by
  refine ⟨speeches pb u (dispatched c p.log).dropLast, ?_⟩
  unfold Talk.speech
  rw [← speeches_append, h.frame]
  cases hlast : (dispatched c p.log).getLast? with
  | none => rw [List.getLast?_eq_none_iff.1 hlast]; rfl
  | some f => rw [Option.toList_some, List.dropLast_append_getLast? f hlast]

/-- The last message under a name is that of the frame of its last user. -/
theorem said_split {p : State} {c : ConnId} {q : Talk} (h : q.Right p c) (pb : Protobuf)
    (hlast : (registrants u p.log).getLast? = some c) :
    ∃ earlier, said pb u p.log = earlier ++ q.speech pb u := by
  have ⟨before, hbefore⟩ := List.getLast?_eq_some_iff.1 hlast
  have ⟨earlier, hearlier⟩ := speeches_split h pb u
  refine ⟨(before.flatMap fun c => speeches pb u (dispatched c p.log)) ++ earlier, ?_⟩
  unfold said
  rw [hbefore, List.flatMap_append, List.flatMap_singleton, hearlier, List.append_assoc]

theorem said_other {log : List (Event Server Tid)} {e : Event Server Tid}
    (hregister : ∀ c fd a s, e ≠ ⟨.handler c, .register fd u a, .registered s⟩)
    (hdispatch : ∀ msgType payload, e.op ≠ .mem (.dispatch msgType payload)) :
    said pb u (log ++ [e]) = said pb u log := by
  unfold said
  rw [registrants_other hregister]
  refine List.flatMap_congr fun c _ => ?_
  rw [dispatched_other fun msgType payload _ => hdispatch msgType payload]

/-- A step that neither says nor delivers anything under the name. -/
theorem Hears.congr {p p' : State} {qs' : Tid → Talk} (h : Hears pb p qs d u)
    (hheard : heardUnder u (p'.shared.out d) = heardUnder u (p.shared.out d))
    (hsaid : said pb u p'.log = said pb u p.log)
    (hregistrants : registrants u p'.log = registrants u p.log)
    (hfd : (p'.shared.mem.conns d).fd = (p.shared.mem.conns d).fd)
    (htalk : ∀ c, (registrants u p.log).getLast? = some c →
      (qs' (.handler c)).frame = (qs (.handler c)).frame ∧
        ∀ fd, fd ∈ (qs (.handler c)).served p → fd ∈ (qs' (.handler c)).served p') :
    Hears pb p' qs' d u := by
  refine ⟨by rw [hheard, hsaid]; exact h.sublist, fun c hc hnot => ?_⟩
  rw [hregistrants] at hc
  have ⟨hframe, hserved⟩ := htalk c hc
  have ⟨earlier, hearlier, hsub⟩ := h.fresh c hc fun hmem => hnot (hfd ▸ hserved _ hmem)
  refine ⟨earlier, ?_, by rw [hheard]; exact hsub⟩
  rw [hsaid, hearlier]
  unfold Talk.speech
  rw [hframe]

/-- The user of a name that serves registered it last. -/
theorem last_of_registrant {p : State} {phases : Tid → Phase} (h : (system cfg).Reaches Lts.Any p)
    (hown : Owned p phases) {c : ConnId} (hserving : (phases (.handler c)).life = .serving)
    {s : SessionRef} (hs : s < p.shared.mem.nextRef) (hc : p.shared.mem.registeredOn s = c) :
    (registrants (p.shared.mem.heap s).username p.log).getLast? = some c := by
  have hlive := hown.2.1.live s hs (by rw [hc]; exact hserving)
  rw [← hc]
  exact (reachable_roll h).last _ s hlive

section Steps

variable {p : State} {phases : Tid → Phase} {c : ConnId} {ch : Choice} {w : World}

/-- A frame adds its speech to what is said under the name of its user. -/
theorem Hears.dispatch (h : Hears pb p qs d u) (hreach : (system cfg).Reaches Lts.Any p)
    (hown : Owned p phases) (hright : ∀ c, (qs (.handler c)).Right p c) {msgType : UInt8}
    {payload : Bytes} {k : Unit → Prog Server Ctl} {r : Unit}
    (hprog : p.prog (.handler c) = .call (S := Server) (.mem (.dispatch msgType payload)) k)
    (he : p.shared.exec cfg (.handler c) (.mem (.dispatch msgType payload)) ch = some (r, w)) :
    Hears pb (p.afterOp (S := Server) (.handler c) (.mem (.dispatch msgType payload)) k r w)
      (update qs (.handler c) { frame := some (msgType, payload) }) d u := by
  have hother : ∀ log : List (Event Server Tid), registrants u
      (log ++ [⟨.handler c, .mem (.dispatch msgType payload), r⟩]) = registrants u log := fun log =>
    registrants_other fun _ _ _ _ heq => nomatch heq
  have hsame : ∀ x, x ≠ c → dispatched x (p.log ++
      [⟨.handler c, .mem (.dispatch msgType payload), r⟩]) = dispatched x p.log := fun x hx =>
    dispatched_other fun _ _ htid => absurd (Tid.handler.inj htid).symm hx
  have hheard : heardUnder u (w.out d) = heardUnder u (p.shared.out d) := heardUnder_exec he trivial u d
  by_cases hmem : c ∈ registrants u p.log
  · -- The handler serves the last user of the name.
    have ⟨fd, a, s, hevent⟩ := mem_registrants.1 hmem
    have ⟨hs, hc, hu⟩ := registered_event hreach hevent
    have hserving : (phases (.handler c)).life = .serving := hown.allows hprog
    have hlast := last_of_registrant hreach hown hserving hs hc
    rw [hu] at hlast
    have ⟨before, hbefore⟩ := List.getLast?_eq_some_iff.1 hlast
    have hnot : c ∉ before := by
      have hnodup := (reachable_roll hreach).nodup u
      rw [hbefore] at hnodup
      exact fun hc => (List.nodup_append.1 hnodup).2.2 c hc c (List.mem_singleton_self c) rfl
    have hsaid : said pb u (p.log ++ [⟨.handler c, .mem (.dispatch msgType payload), r⟩]) =
        said pb u p.log ++ speeches pb u [(msgType, payload)] := by
      unfold said
      rw [hother, hbefore, List.flatMap_append, List.flatMap_append, List.flatMap_singleton,
        List.flatMap_singleton, dispatched_append, speeches_append, List.append_assoc]
      have hbefores : (before.flatMap fun x => speeches pb u (dispatched x (p.log ++
          [(⟨.handler c, .mem (.dispatch msgType payload), r⟩ : Event Server Tid)]))) =
          before.flatMap fun x => speeches pb u (dispatched x p.log) := by
        refine List.flatMap_congr fun x hx => ?_
        rw [hsame x fun hxc => hnot (hxc ▸ hx)]
      rw [hbefores]
      simp [dispatched]
    refine ⟨?_, fun c' hc' _ => ⟨said pb u p.log, ?_, ?_⟩⟩
    · rw [Pool.afterOp_log, hsaid]
      show (heardUnder u (w.out d)).Sublist _
      rw [hheard]
      exact h.sublist.trans (List.sublist_append_left _ _)
    · rw [Pool.afterOp_log, hother, hlast] at hc'
      cases hc'
      rw [Pool.afterOp_log, hsaid, update_self]
      rfl
    · show (heardUnder u (w.out d)).Sublist _
      rw [hheard]
      exact h.sublist
  · refine h.congr hheard ?_ (hother p.log) (exec_connFd he d) fun c' hc' => ?_
    · unfold said
      rw [Pool.afterOp_log, hother]
      refine List.flatMap_congr fun x hx => ?_
      rw [hsame x fun hxc => hmem (hxc ▸ hx)]
    · have hne : c' ≠ c := fun hcc => hmem (hcc ▸ List.mem_of_getLast? hc')
      rw [update_of_ne fun heq => hne (Tid.handler.inj heq)]
      refine ⟨rfl, fun fd hfd => ?_⟩
      rwa [(hright c').served_later (exec_later he)]

/-- An operation that delivers, says and registers nothing. -/
theorem Hears.quiet {t : Tid} {o : ServerOp} {k : o.Resp → Prog Server Ctl} {r : o.Resp}
    (h : Hears pb p qs d u) (hright : ∀ c, (qs (.handler c)).Right p c)
    (he : p.shared.exec cfg t o ch = some (r, w)) (ho : NoDelivery o)
    (hregister : ∀ c fd a s, (⟨t, o, r⟩ : Event Server Tid) ≠
      ⟨.handler c, .register fd u a, .registered s⟩)
    (hdispatch : ∀ msgType payload, o ≠ .mem (.dispatch msgType payload)) :
    Hears pb (p.afterOp (S := Server) t o k r w) (update qs t ((qs t).after o r)) d u := by
  refine h.congr (heardUnder_exec he ho u d) (said_other hregister hdispatch)
    (registrants_other hregister) (exec_connFd he d) fun c _ => ?_
  have hserved : ∀ fd, fd ∈ (qs (.handler c)).served p →
      fd ∈ (qs (.handler c)).served (p.afterOp (S := Server) t o k r w) := fun fd hfd => by
    rwa [(hright c).served_later (exec_later he)]
  by_cases ht : t = .handler c
  · subst ht
    have ⟨hframe, hdone⟩ := Talk.after_quiet (qs (.handler c)) (r := r) ho hdispatch
    rw [update_self]
    refine ⟨hframe, fun fd hfd => ?_⟩
    unfold Talk.served
    rw [hdone]
    exact hserved fd hfd
  · rw [update_of_ne (Ne.symm ht)]
    exact ⟨rfl, hserved⟩

/-- A registration makes what the connection has said before part of what is said under
the name. -/
theorem Hears.register {fd : Fd} {a : String} {k : Memory.RegisterOutcome → Prog Server Ctl}
    {s : SessionRef} (h : Hears pb p qs d u) (hright : ∀ c, (qs (.handler c)).Right p c)
    (he : p.shared.exec cfg (.handler c) (.register fd u a) ch = some (.registered s, w)) :
    Hears pb (p.afterOp (S := Server) (.handler c) (.register fd u a) k (.registered s) w) qs d u := by
  have hheard : heardUnder u (w.out d) = heardUnder u (p.shared.out d) := heardUnder_exec he trivial u d
  have hsame : ∀ x, dispatched x (p.log ++
      [⟨.handler c, .register fd u a, .registered s⟩]) = dispatched x p.log := fun x =>
    dispatched_other fun _ _ _ heq => nomatch heq
  have hsaid : said pb u (p.log ++ [⟨.handler c, .register fd u a, .registered s⟩]) =
      said pb u p.log ++ speeches pb u (dispatched c p.log) := by
    unfold said
    rw [registrants_own, List.flatMap_append, List.flatMap_singleton, hsame]
    congr 1
    exact List.flatMap_congr fun x _ => by rw [hsame]
  refine ⟨?_, fun c' hc' _ => ?_⟩
  · show (heardUnder u (w.out d)).Sublist _
    rw [Pool.afterOp_log, hheard, hsaid]
    exact h.sublist.trans (List.sublist_append_left _ _)
  · rw [Pool.afterOp_log, registrants_own, List.getLast?_concat] at hc'
    cases hc'
    have ⟨earlier, hearlier⟩ := speeches_split (hright c) pb u
    refine ⟨said pb u p.log ++ earlier, ?_, ?_⟩
    · rw [Pool.afterOp_log, hsaid, hearlier, List.append_assoc]
    · show (heardUnder u (w.out d)).Sublist _
      rw [hheard]
      exact h.sublist.trans (List.sublist_append_left _ _)

/-- A delivery to the next target. -/
theorem Hears.deliver {s : SessionRef} {sp : Speech} {v : String} {k : Unit → Prog Server Ctl}
    {r : Unit} (h : Hears pb p qs d u) (hown : Owned p phases)
    (hright : ∀ c, (qs (.handler c)).Right p c)
    (hlast : (registrants v p.log).getLast? = some c)
    (hnext : (qs (.handler c)).owed.head? = some s)
    (hspeech : (qs (.handler c)).frame.bind pb.speechOf = some sp)
    (he : p.shared.exec cfg (.handler c) (.sendLocked s (sp.under v)) ch = some (r, w)) :
    Hears pb (p.afterOp (S := Server) (.handler c) (.sendLocked s (sp.under v)) k r w)
      (update qs (.handler c) ((qs (.handler c)).after (.sendLocked s (sp.under v)) r)) d u := by
  have hw : w = p.shared.write (p.shared.mem.heap s).socketFd (some s) (sp.under v) :=
    (congrArg Prod.snd (Option.some.inj he)).symm
  have hlater : p.shared.mem.Later w.mem := exec_later he
  have hregister : ∀ c' fd a x, (⟨.handler c, .sendLocked s (sp.under v), r⟩ : Event Server Tid) ≠
      ⟨.handler c', .register fd u a, .registered x⟩ := fun _ _ _ _ heq => nomatch heq
  have hsaid : said pb u (p.log ++ [⟨.handler c, .sendLocked s (sp.under v), r⟩]) =
      said pb u p.log := said_other hregister fun _ _ heq => nomatch heq
  have hheard := heardUnder_write u p.shared (p.shared.mem.heap s).socketFd (some s) (sp.under v) d
  rw [← hw] at hheard
  rw [Talk.after_delivery (by rw [Speech.under_sender]; exact Option.some_ne_none v)]
  have howed : (qs (.handler c)).owed = s :: (qs (.handler c)).owed.tail :=
    (List.cons_head?_tail hnext).symm
  have hs : s < p.shared.mem.nextRef :=
    (hright c).known s (List.mem_append_right _ (howed ▸ List.mem_cons_self))
  have hsock : (w.mem.heap s).socketFd = (p.shared.mem.heap s).socketFd := hlater.socketFd s hs
  -- What was served, and the target.
  have hserved : ∀ fd, fd ∈ (qs (.handler c)).served p ∨ fd = (p.shared.mem.heap s).socketFd →
      fd ∈ Talk.served (p.afterOp (S := Server) (.handler c) (.sendLocked s (sp.under v)) k r w)
        { qs (.handler c) with
          done := (qs (.handler c)).done ++ [s], owed := (qs (.handler c)).owed.tail } := by
    intro fd hfd
    unfold Talk.served
    rw [List.map_append, List.mem_append, List.map_singleton, List.mem_singleton]
    refine hfd.imp (fun hfd => ?_) fun hfd => hfd.trans hsock.symm
    have hsame : _ = (qs (.handler c)).served p := map_socketFd_later hlater fun x hx =>
      (hright c).known x (List.mem_append_left _ hx)
    exact hsame.symm ▸ hfd
  by_cases hhear : p.shared.mem.fds (p.shared.mem.heap s).socketFd = some d ∧
      (sp.under v).sender = some u
  · obtain ⟨hopen, huv⟩ := hhear
    rw [if_pos ⟨hopen, huv⟩] at hheard
    rw [Speech.under_sender] at huv
    cases huv
    have hfd : (p.shared.mem.conns d).fd = (p.shared.mem.heap s).socketFd :=
      (hown.2.1.opened _ d hopen).1
    have hnot : (p.shared.mem.conns d).fd ∉ (qs (.handler c)).served p := by
      have hdistinct := (hright c).distinct
      rw [howed, List.map_append, List.map_cons] at hdistinct
      rw [hfd]
      exact fun hmem => (List.nodup_append.1 hdistinct).2.2 _ hmem _ List.mem_cons_self rfl
    have ⟨earlier, hearlier, hsub⟩ := h.fresh c hlast hnot
    have hone : (qs (.handler c)).speech pb u = [sp.under u] := by
      have ⟨frame, hframe, hsp⟩ := Option.bind_eq_some_iff.1 hspeech
      unfold Talk.speech speeches
      rw [hframe, Option.toList_some, List.filterMap_cons_some hsp]
      rfl
    refine ⟨?_, fun c' hc' hnot' => ?_⟩
    · show (heardUnder u (w.out d)).Sublist _
      rw [Pool.afterOp_log, hsaid, hheard, hearlier, hone]
      exact hsub.append (.refl _)
    · -- The connection is served now.
      rw [Pool.afterOp_log, registrants_other hregister, hlast] at hc'
      cases hc'
      rw [update_self] at hnot'
      refine absurd (hserved _ (Or.inr ?_)) hnot'
      exact (exec_connFd he d).trans hfd
  · rw [if_neg hhear, List.append_nil] at hheard
    refine h.congr hheard hsaid (registrants_other hregister) (exec_connFd he d) fun c' _ => ?_
    by_cases hc : c' = c
    · subst hc
      rw [update_self]
      exact ⟨rfl, fun fd hfd => hserved fd (Or.inl hfd)⟩
    · rw [update_of_ne fun heq => hc (Tid.handler.inj heq)]
      refine ⟨rfl, fun fd hfd => ?_⟩
      rwa [(hright c').served_later hlater]

end Steps

/-- Nothing was written to a connection that is not accepted yet. -/
theorem out_fresh {C : State → Step → Prop} {p : State} (h : (system cfg).Reaches C p) :
    ∀ d, p.shared.mem.nextConn ≤ d → p.shared.out d = [] := by
  refine world_invariant (I := fun w _ => ∀ d, w.mem.nextConn ≤ d → w.out d = []) ?_ ?_ ?_ h
  · exact fun _ _ => rfl
  · intro p phases t o k ch r w hown hI _ _ he d hd
    have hnew : ∀ (w : World) fd via msg, w.mem.fds = p.shared.mem.fds → w.out = p.shared.out →
        w.mem.nextConn = p.shared.mem.nextConn → w.mem.nextConn ≤ d → (w.write fd via msg).out d = [] := by
      intro w fd via msg hfds hout hnext hd
      refine List.eq_nil_iff_forall_not_mem.2 fun x hx => ?_
      rcases World.mem_write_out w hx with hx | ⟨_, hfd⟩
      · rw [hout, hI d (hnext ▸ hd)] at hx
        cases hx
      · rw [hfds] at hfd
        have hlt := hown.2.1.lt_nextConn (hown.2.1.opened fd d hfd).2
        exact absurd hd (Nat.not_le.2 (hnext ▸ hlt))
    cases o with
    | mem o =>
      have hlater := (exec_later he).nextConn
      have ⟨x, _, hx⟩ := Option.map_eq_some_iff.1 he
      cases hx
      exact hI d (hlater.trans hd)
    | sendBare fd msg =>
      cases he
      rw [World.write_mem] at hd
      exact hnew _ _ _ _ rfl rfl rfl hd
    | sendLocked s msg =>
      cases he
      rw [World.write_mem] at hd
      exact hnew _ _ _ _ rfl rfl rfl hd
    | register fd u a =>
      cases t with
      | watchdog => cases he
      | handler c =>
        have ⟨_, hw⟩ := World.exec_register.1 he
        rw [hw, World.reply_mem] at hd
        rw [hw, World.reply]
        split <;> exact hnew _ _ _ _ (by simp) rfl (by simp) hd
  · intro p phases e w start _ hI _ he d hd
    rcases World.env_mem_cases he with ⟨_, hf, hout⟩ | ⟨fd, peerIp, _, _, _, rfl⟩
    · rw [hout]
      exact hI d (hf.nextConn ▸ hd)
    · exact hI d (Nat.le_of_succ_le hd)

/-- A step of the environment. -/
theorem Hears.env {p : State} {e : Env} {w : World} {start : Option (Tid × Ctl)}
    (h : Hears pb p qs d u) (hreach : (system cfg).Reaches Lts.Any p)
    (hright : ∀ c, (qs (.handler c)).Right p c) (he : p.shared.env e = some (w, start)) :
    Hears pb (p.afterEnv w start) qs d u := by
  have hstep : (system cfg).step p (.env e) = some (p.afterEnv w start) :=
    Machine.step_env.2 ⟨w, start, he, rfl⟩
  have hlater : p.shared.mem.Later (p.afterEnv w start).shared.mem := step_later hstep
  have hserved : ∀ c, (registrants u p.log).getLast? = some c →
      (qs (.handler c)).frame = (qs (.handler c)).frame ∧
        ∀ fd, fd ∈ (qs (.handler c)).served p → fd ∈ (qs (.handler c)).served (p.afterEnv w start) :=
    fun c _ => ⟨rfl, fun fd hfd => by rwa [(hright c).served_later hlater]⟩
  rcases World.env_mem_cases he with ⟨_, hf, hout⟩ | ⟨fd, peerIp, _, _, _, hw⟩
  · refine h.congr ?_ (by rw [Pool.afterEnv_log]) (by rw [Pool.afterEnv_log]) ?_ hserved
    · rw [Pool.afterEnv_shared, hout]
    · rw [Pool.afterEnv_shared]
      exact hf.connFd d
  · by_cases hd : d = p.shared.mem.nextConn
    · -- The new connection has heard nothing yet.
      have hnil : heardUnder u ((p.afterEnv w start).shared.out d) = [] := by
        rw [Pool.afterEnv_shared, hw]
        show heardUnder u (p.shared.out d) = []
        rw [out_fresh hreach d (Nat.le_of_eq hd.symm)]
        rfl
      refine ⟨by rw [hnil]; exact List.nil_sublist _, fun c hc _ => ?_⟩
      rw [Pool.afterEnv_log] at hc ⊢
      have ⟨earlier, hearlier⟩ := said_split (hright c) pb hc
      exact ⟨earlier, hearlier, by rw [hnil]; exact List.nil_sublist _⟩
    · refine h.congr ?_ (by rw [Pool.afterEnv_log]) (by rw [Pool.afterEnv_log]) ?_ hserved
      · rw [Pool.afterEnv_shared, hw]
      · rw [Pool.afterEnv_shared, hw]
        exact congrArg Conn.fd (update_of_ne hd _ _)

theorem talk_keeps (cfg : Config) :
    Machine.Keeps (machine cfg) (fun _ => talkMonitor cfg) (fun _ _ _ => True)
      (fun p qs => (∀ c, (qs (.handler c)).Right p c) ∧ ∀ d u, Hears cfg.pb p qs d u)
      (fun p _ => (system cfg).Reaches Lts.Any p) where
  op p qs t ch o k r w q' hJ hC hprog he hguard hnext := by
    change p.shared.exec cfg t o ch = some (r, w) at he
    rw [show q' = (qs t).after o r from hnext]
    obtain ⟨hright, hhears⟩ := hJ
    have ⟨phases, hown⟩ := reachable_owned hC
    refine ⟨fun c => ?_, fun d u => ?_⟩
    · by_cases ht : t = .handler c
      · subst ht
        rw [update_self]
        exact talk_own hown (hright c) he hguard
      · rw [update_of_ne (Ne.symm ht)]
        refine (hright c).later (exec_later he) ?_
        rw [Pool.afterOp_log, dispatched_other fun _ _ htid => absurd htid ht]
    · have hallows := hown.allows hprog
      cases o with
      | sendBare fd msg =>
        obtain ⟨code, text, rfl⟩ := hguard
        exact (hhears d u).quiet hright he rfl (fun _ _ _ _ heq => nomatch heq)
          fun _ _ heq => nomatch heq
      | sendLocked s msg =>
        by_cases hmsg : msg.sender = none
        · exact (hhears d u).quiet hright he hmsg (fun _ _ _ _ heq => nomatch heq)
            fun _ _ heq => nomatch heq
        · obtain ⟨howed, sp, v, hspeech, rfl, _⟩ := Or.resolve_left hguard hmsg
          obtain ⟨ss, hspeaks, hsright⟩ := reachable_speakers hC
          have hmay := hspeaks t
          rw [hprog] at hmay
          obtain ⟨hne, hname, _⟩ := Or.resolve_left (obeys_speaker_call.1 hmay).1 hmsg
          cases t with
          | watchdog => exact absurd rfl hne
          | handler c =>
            rw [Speech.under_sender] at hname
            obtain ⟨x, hx, hxc, hxv⟩ := (hsright c).name v hname
            have hlast := last_of_registrant hC hown hallows hx hxc
            rw [hxv] at hlast
            exact (hhears d u).deliver hown hright hlast howed hspeech he
      | register fd v a =>
        by_cases hnew : ∃ s, r = .registered s ∧ v = u
        · obtain ⟨s, rfl, rfl⟩ := hnew
          cases t with
          | watchdog => exact hallows.elim
          | handler c =>
            rw [show (qs (.handler c)).after _ _ = qs (.handler c) from rfl, update_eq_self]
            exact (hhears d v).register hright he
        · refine (hhears d u).quiet hright he trivial (fun c fd' a' s heq => ?_)
            fun _ _ heq => nomatch heq
          cases heq
          exact hnew ⟨s, rfl, rfl⟩
      | mem o =>
        cases o with
        | dispatch msgType payload =>
          cases t with
          | watchdog => exact hallows.elim
          | handler c => exact (hhears d u).dispatch hC hown hright hprog he
        | recv | running | getPeerIp | getSession | removeSession | aliveSessions | findUser
          | listSessions | read | restore | setStatus | touch | now | markIdle | close =>
          exact (hhears d u).quiet hright he trivial (fun _ _ _ _ heq => nomatch heq)
            fun _ _ heq => nomatch heq
  jump p qs t ctl hJ hC _ _ := by
    refine ⟨qs t, program_talks ctl (qs t), ?_⟩
    rw [update_eq_self]
    exact ⟨fun c => (hJ.1 c).later (.refl _) rfl, fun d u => ⟨(hJ.2 d u).sublist, (hJ.2 d u).fresh⟩⟩
  env p qs e w start hJ hC he := by
    have hstep : (system cfg).step p (.env e) = some (p.afterEnv w start) :=
      Machine.step_env.2 ⟨w, start, he, rfl⟩
    exact ⟨qs, fun _ _ => rfl, fun _ _ _ => trivial,
      fun c => (hJ.1 c).later (step_later hstep) (by rw [Pool.afterEnv_log]),
      fun d u => (hJ.2 d u).env hC hJ.1 he⟩

theorem reachable_talks {p : State} (h : (system cfg).Reaches Lts.Any p) :
    ∃ qs : Tid → Talk, (∀ t, Talks cfg (p.prog t) (qs t)) ∧
      (∀ c, (qs (.handler c)).Right p c) ∧ ∀ d u, Hears cfg.pb p qs d u := by
  have hrun : (system cfg).Reaches (fun q _ => (system cfg).Reaches Lts.Any q) p :=
    Lts.Steps.strengthen h fun q _ _ hq _ _ => hq
  have hinit : Machine.Monitored (fun _ => talkMonitor cfg) (fun _ _ _ => True)
      (fun p qs => (∀ c, (qs (.handler c)).Right p c) ∧ ∀ d u, Hears cfg.pb p qs d u)
      (system cfg).init fun _ => {} := by
    refine ⟨fun _ => trivial, fun c => ⟨rfl, fun _ _ hs => (nomatch hs), fun _ hs => (nomatch hs),
      List.nodup_nil⟩, fun d u => ⟨List.nil_sublist _, fun c hc => (nomatch hc)⟩⟩
  exact (talk_keeps cfg).steps hrun hinit

/-- An event of the history, and the talk of its thread before it. -/
theorem talk_event {p : State} (h : (system cfg).Reaches Lts.Any p) {L R : List (Event Server Tid)}
    {e : Event Server Tid} (hlog : p.log = L ++ e :: R) :
    ∃ (q : State) (talk : Talk), (system cfg).Reaches Lts.Any q ∧ q.log = L ∧
      q.shared.mem.Later p.shared.mem ∧ talk.Allows cfg e.op ∧
      ∀ c, e.tid = .handler c → talk.Right q c := by
  obtain ⟨q, k, ch, w, hq, hqlog, _, hprog, _, hstep, hsteps⟩ := event_step h hlog
  obtain ⟨qs, htalks, hright, _⟩ := reachable_talks hq
  have htalk := htalks e.tid
  rw [hprog] at htalk
  refine ⟨q, qs e.tid, hq, hqlog, (step_later hstep).trans (steps_later hsteps),
    (obeys_talk_call.1 htalk).1, fun c hc => ?_⟩
  rw [hc]
  exact hright c

/-- A registration is under the name that its frame gives. -/
theorem register_quotes {p : State} (h : (system cfg).Reaches Lts.Any p)
    {L R : List (Event Server Tid)} {c : ConnId} {fd : Fd} {u a : String}
    {r : Memory.RegisterOutcome} (hlog : p.log = L ++ ⟨.handler c, .register fd u a, r⟩ :: R) :
    ∃ payload reg, (dispatched c L).getLast? = some (MsgType.REGISTER, payload) ∧
      cfg.pb.parseRegister payload = some reg ∧ reg.username = u := by
  obtain ⟨q, talk, _, hqlog, _, ⟨payload, reg, hframe, hparse, hu⟩, hright⟩ := talk_event h hlog
  refine ⟨payload, reg, ?_, hparse, hu⟩
  rw [← hqlog, ← (hright c rfl).frame]
  exact hframe

/-- A reply without a session is an error. -/
theorem bare_refuses {p : State} (h : (system cfg).Reaches Lts.Any p) {t : Tid} {fd : Fd}
    {msg : ServerMsg} {r : Unit} (he : (⟨t, .sendBare fd msg, r⟩ : Event Server Tid) ∈ p.log) :
    ∃ code text, msg = response code text false := by
  obtain ⟨L, R, hlog⟩ := List.append_of_mem he
  obtain ⟨q, talk, _, _, _, hallows, _⟩ := talk_event h hlog
  exact hallows

/-- A delivery is sent by a handler, under a name that its connection has registered. -/
theorem delivery_registrant {p : State} (h : (system cfg).Reaches Lts.Any p)
    {L R : List (Event Server Tid)} {t : Tid} {s : SessionRef} {msg : ServerMsg} {r : Unit}
    {u : String} (hlog : p.log = L ++ ⟨t, .sendLocked s msg, r⟩ :: R) (hu : msg.sender = some u) :
    ∃ c, t = .handler c ∧ c ∈ registrants u L := by
  obtain ⟨q, k, ch, w, hq, hqlog, _, hprog, _, _, _⟩ := event_step h hlog
  obtain ⟨qs, hspeaks, hright⟩ := reachable_speakers hq
  have hspeak := hspeaks t
  rw [hprog] at hspeak
  have hmsg : msg.sender ≠ none := by rw [hu]; exact Option.some_ne_none u
  obtain ⟨hne, hname, _⟩ := Or.resolve_left (obeys_speaker_call.1 hspeak).1 hmsg
  cases t with
  | watchdog => exact absurd rfl hne
  | handler c =>
    obtain ⟨x, hx, hxc, hxu⟩ := (hright c).name u (hname.trans hu)
    obtain ⟨fd, a, he⟩ := registered_of_session hq hx
    rw [hxc, hxu, hqlog] at he
    exact ⟨c, rfl, mem_registrants.2 ⟨fd, a, x, he⟩⟩

/-- A delivery quotes the frame that its handler has dispatched last. -/
theorem delivery_frame {p : State} (h : (system cfg).Reaches Lts.Any p)
    {L R : List (Event Server Tid)} {c : ConnId} {s : SessionRef} {msg : ServerMsg} {r : Unit}
    {u : String} (hlog : p.log = L ++ ⟨.handler c, .sendLocked s msg, r⟩ :: R)
    (hu : msg.sender = some u) :
    ∃ frame sp, (dispatched c L).getLast? = some frame ∧ cfg.pb.speechOf frame = some sp ∧
      msg = sp.under u ∧
      ∀ v, sp.dest = some v → s < p.shared.mem.nextRef ∧ (p.shared.mem.heap s).username = v := by
  have hmsg : msg.sender ≠ none := by rw [hu]; exact Option.some_ne_none u
  obtain ⟨q, talk, _, hqlog, hlater, hallows, hright⟩ := talk_event h hlog
  obtain ⟨_, sp, v, hspeech, rfl, hfound⟩ := Or.resolve_left hallows hmsg
  rw [Speech.under_sender] at hu
  cases hu
  have hright := hright c rfl
  have ⟨frame, hframe, hsp⟩ := Option.bind_eq_some_iff.1 hspeech
  have hlast := hright.frame
  rw [hframe, hqlog] at hlast
  refine ⟨frame, sp, hlast.symm, hsp, rfl, fun v hv => ?_⟩
  have ⟨hlt, hname⟩ := hright.found v s (hfound v hv)
  exact ⟨Nat.lt_of_lt_of_le hlt hlater.nextRef, (hlater.username s hlt).trans hname⟩

/-- Where a frame on a connection comes from. -/
theorem out_origin {C : State → Step → Prop} {p : State} (h : (system cfg).Reaches C p) :
    ∀ d x, x ∈ p.shared.out d →
      (∃ t s r, (⟨t, .sendLocked s x.msg, r⟩ : Event Server Tid) ∈ p.log ∧ x.via = some s) ∨
      (∃ t fd r, (⟨t, .sendBare fd x.msg, r⟩ : Event Server Tid) ∈ p.log ∧ x.via = none) ∨
      ∃ t fd u a r, (⟨t, .register fd u a, r⟩ : Event Server Tid) ∈ p.log ∧
        (x.via, x.msg) = registerReply u a r := by
  refine world_invariant (I := fun w log => ∀ d x, x ∈ w.out d →
    (∃ t s r, (⟨t, .sendLocked s x.msg, r⟩ : Event Server Tid) ∈ log ∧ x.via = some s) ∨
    (∃ t fd r, (⟨t, .sendBare fd x.msg, r⟩ : Event Server Tid) ∈ log ∧ x.via = none) ∨
    ∃ t fd u a r, (⟨t, .register fd u a, r⟩ : Event Server Tid) ∈ log ∧
      (x.via, x.msg) = registerReply u a r) ?_ ?_ ?_ h
  · exact fun _ _ hx => nomatch hx
  · intro p phases t o k ch r w _ hI _ _ he d x hx
    have hlast : (⟨t, o, r⟩ : Event Server Tid) ∈ p.log ++ [⟨t, o, r⟩] :=
      List.mem_append_right _ List.mem_cons_self
    by_cases hold : x ∈ p.shared.out d
    · have hmem : ∀ e ∈ p.log, e ∈ p.log ++ [(⟨t, o, r⟩ : Event Server Tid)] := fun e he =>
        List.mem_append_left _ he
      refine (hI d x hold).imp ?_ (Or.imp ?_ ?_)
      · exact fun ⟨t', s, r', hev, hvia⟩ => ⟨t', s, r', hmem _ hev, hvia⟩
      · exact fun ⟨t', fd, r', hev, hvia⟩ => ⟨t', fd, r', hmem _ hev, hvia⟩
      · exact fun ⟨t', fd, u, a, r', hev, hvia⟩ => ⟨t', fd, u, a, r', hmem _ hev, hvia⟩
    · cases o with
      | mem o =>
        have ⟨_, _, hx'⟩ := Option.map_eq_some_iff.1 he
        cases hx'
        exact absurd hx hold
      | sendBare fd msg =>
        cases he
        have hnew := Or.resolve_left (World.mem_write_out _ hx) hold
        rw [hnew.1]
        exact Or.inr (Or.inl ⟨t, fd, _, hlast, rfl⟩)
      | sendLocked s msg =>
        cases he
        have hnew := Or.resolve_left (World.mem_write_out _ hx) hold
        rw [hnew.1]
        exact Or.inl ⟨t, s, _, hlast, rfl⟩
      | register fd u a =>
        cases t with
        | watchdog => cases he
        | handler c =>
          have ⟨_, hw⟩ := World.exec_register.1 he
          refine Or.inr (Or.inr ⟨_, fd, u, a, r, hlast, ?_⟩)
          rw [hw, World.reply] at hx
          split at hx
          · rename_i hvia
            have hnew := Or.resolve_left (World.mem_write_out _ hx) hold
            rw [hnew.1, ← hvia]
          · rename_i s hvia
            have hnew := Or.resolve_left (World.mem_write_out _ hx) hold
            rw [hnew.1, ← hvia]
  · intro p phases e w start _ hI _ he d x hx
    rcases World.env_mem_cases he with ⟨_, _, hout⟩ | ⟨fd, peerIp, _, _, _, rfl⟩
    · rw [hout] at hx
      exact hI d x hx
    · exact hI d x hx

/-- The number of a delivery is that of the frame that it quotes. -/
theorem deliveryNumber_frame {z : State} (hz : (system cfg).Reaches Lts.Any z) {d : ConnId}
    {x : SessionRef} {n : Nat} (hn : n ∈ deliveryNumbers d x z.log) :
    ∃ L R frame sp u, z.log = L ++ ⟨.handler d, .sendLocked x (sp.under u), ()⟩ :: R ∧
      (dispatched d L).length = n ∧ (dispatched d z.log)[n - 1]? = some frame ∧
      cfg.pb.speechOf frame = some sp ∧
      ∀ v, sp.dest = some v → (z.shared.mem.heap x).username = v := by
  obtain ⟨L, R, msg, hlog, hsender, rfl⟩ := mem_deliveryNumbers.1 hn
  obtain ⟨u, hu⟩ := Option.ne_none_iff_exists'.1 hsender
  obtain ⟨frame, sp, hframe, hsp, rfl, hdest⟩ := delivery_frame hz hlog hu
  refine ⟨L, R, frame, sp, u, hlog, rfl, ?_, hsp, fun v hv => (hdest v hv).2⟩
  have hat : (dispatched d L)[(dispatched d L).length - 1]? = some frame := by
    rw [← List.getLast?_eq_getElem?]
    exact hframe
  rw [hlog, dispatched_append]
  exact (List.getElem?_append_left (List.getElem?_eq_some_iff.1 hat).1).trans hat

/-! ## The results -/

/-- A well-formed MessageGeneral from a registered connection is delivered once
through each session that is in the registry when the handler takes its snapshot,
the sender's own among them, and through no other.  The messages of any
connection, general and private, are delivered through any session in the order in
which its handler dispatched them: each delivery has the number of the frame whose text
it carries, and these numbers increase.  The run from `p` to `p'` goes from where the
handler begins `handle_message_general` to where it returns. -/
theorem broadcasts_delivered {p p' : State} {c : ConnId} {fd : Fd} {payload : Bytes}
    {msg : MessageGeneral} {s : SessionRef} {R : List (Event Server Tid)}
    (h : (system cfg).Reaches Lts.Any p)
    (hprog : p.prog (.handler c) = handleMessageGeneral cfg fd payload >>= fun _ => pure (.loop fd))
    (hparse : cfg.pb.parseMessageGeneral payload = some msg)
    (hs : p.shared.mem.getSession fd = some s)
    (hrun : (system cfg).Steps (fun _ l => l ≠ .jump (.handler c)) p p')
    (hret : p'.prog (.handler c) = .ret (.loop fd)) (hlog : p'.log = p.log ++ R) :
    (∃ A B targets q p₁ ch, R = A ++ ⟨.handler c, .mem .aliveSessions, targets⟩ :: B ∧
      -- `q` is the state in which the handler takes the snapshot.
      (system cfg).Reaches Lts.Any q ∧ q.log = p.log ++ A ∧
      (system cfg).step q (.op (.handler c) ch) = some p₁ ∧ (system cfg).Steps Lts.Any p₁ p' ∧
      targets.Nodup ∧
      (∀ x, x ∈ targets ↔ ∃ fd', q.shared.mem.registry.sessions.lookup fd' = some x) ∧
      s ∈ targets ∧
      deliveriesOf (Machine.ownActs (.handler c) R) = (targets.map fun x =>
        (x, .broadcastDelivery ⟨msg.message, (p'.shared.mem.heap s).username⟩)) ∧
      ∀ x, deliveryNumbers c x p'.log = deliveryNumbers c x p.log ++
        if x ∈ targets then [(dispatched c p.log).length] else []) ∧
    (∀ z d x, (system cfg).Reaches Lts.Any z → (deliveryNumbers d x z.log).Pairwise (· < ·)) ∧
    (∀ z d x L R m, (system cfg).Reaches Lts.Any z →
      z.log = L ++ ⟨.handler d, .sendLocked x m, ()⟩ :: R → m.sender ≠ none →
      (dispatched d L).length ∈ deliveryNumbers d x z.log) ∧
    ∀ z d x n, (system cfg).Reaches Lts.Any z → n ∈ deliveryNumbers d x z.log →
      ∃ L R frame sp u, z.log = L ++ ⟨.handler d, .sendLocked x (sp.under u), ()⟩ :: R ∧
        (dispatched d L).length = n ∧ (dispatched d z.log)[n - 1]? = some frame ∧
        cfg.pb.speechOf frame = some sp ∧
        ∀ v, sp.dest = some v → (z.shared.mem.heap x).username = v :=
  ⟨general_delivers h hprog hparse hs hrun hret hlog, fun _ d x hz => deliveryNumbers_sorted hz d x,
    fun _ _ _ L R m _ hsent hsender => mem_deliveryNumbers.2 ⟨L, R, m, hsent, hsender, rfl⟩,
    fun _ _ _ _ hz => deliveryNumber_frame hz⟩

/-- "a" and "b" are registered, and the handler of "a" is about to handle its
MessageGeneral. -/
def greetingSetup : List Step :=
  registerRun ++
    [.env (.accept 5 "10.0.0.2"), .env (.clientSend 1 [1, 0, 0, 0, 3, 10, 1, 98])] ++
    turn (.handler 1) 6 ++
    [.env (.clientSend 0 [2, 0, 0, 0, 4, 10, 2, 104, 105])] ++ turn (.handler 0) 4

/-- The handler sends to "a" and "b". -/
def greetingCall : List Step :=
  List.replicate 4 (.op (.handler 0) {}) ++ .op (.handler 0) { order := [4, 5] } ::
    List.replicate 2 (.op (.handler 0) {})

/-- Both users get the message of "a". -/
theorem broadcasts_delivered_greeting :
    ∃ (p' : State) (R : List (Event Server Tid)) (targets : List SessionRef),
      (system sampleConfig).Reaches Lts.Any p' ∧ targets.Nodup ∧
      deliveriesOf (Machine.ownActs (.handler 0) R) =
        targets.map fun x => (x, .broadcastDelivery ⟨"hi", (p'.shared.mem.heap 0).username⟩) := by
  have hsetup : ((system sampleConfig).run (system sampleConfig).init greetingSetup).any (fun p =>
      ((system sampleConfig).run p greetingCall).any fun p' =>
        decide (p.shared.mem.nextConn = 2) && decide (p.shared.mem.getSession 4 = some 0) &&
          decide ((p'.prog (.handler 0)).returned = some (.loop 4))) = true := by
    decide +kernel
  rw [Option.any_eq_true] at hsetup
  have ⟨p, hp, hcall⟩ := hsetup
  rw [Option.any_eq_true] at hcall
  have ⟨p', hp', hq⟩ := hcall
  simp only [Bool.and_eq_true, decide_eq_true_eq] at hq
  have ⟨⟨hconn, hget⟩, hret⟩ := hq
  have hrun : (system sampleConfig).Steps (fun _ l => l ≠ .jump (.handler 0)) p p' :=
    .of_run hp' fun l hl _ => by
      simp only [greetingCall, List.mem_append, List.mem_replicate, List.mem_cons] at hl
      rcases hl with ⟨_, hl⟩ | hl | ⟨_, hl⟩ <;> rw [hl] <;> exact fun hne => (nomatch hne)
  have hprog : ((system sampleConfig).run (system sampleConfig).init greetingSetup).map
      (fun p => p.prog (.handler 0)) =
        some (handleMessageGeneral sampleConfig 4 [10, 2, 104, 105] >>= fun _ => pure (.loop 4)) :=
    rfl
  rw [hp] at hprog
  have ⟨R, hlog, _⟩ := handler_trace (c := 0) (by rw [hconn]; decide) hrun fun _ hj => hj rfl
  have hparse : sampleConfig.pb.parseMessageGeneral [10, 2, 104, 105] = some ⟨"hi", .ACTIVE, "", ""⟩ :=
    by decide
  have ⟨⟨_, _, targets, _, _, _, _, _, _, _, _, hnodup, _, _, hframes, _⟩, _⟩ :=
    broadcasts_delivered (.of_run hp) (Option.some.inj hprog) hparse hget hrun
      (Prog.returned_eq_some.1 hret) hlog
  exact ⟨p', R, targets, (Lts.Reaches.of_run hp).steps hrun.any, hnodup, hframes⟩

/-- Every delivery quotes the frame that its handler has dispatched last: the text is the
one of the frame, a MessageGeneral goes out as a BroadcastDelivery, and a MessageDM as a
ForDm, through a session of the user that the frame names. -/
theorem deliveries_quote {p : State} (h : (system cfg).Reaches Lts.Any p)
    {L R : List (Event Server Tid)} {t : Tid} {s : SessionRef} {msg : ServerMsg} {r : Unit}
    {u : String} (hlog : p.log = L ++ ⟨t, .sendLocked s msg, r⟩ :: R) (hu : msg.sender = some u) :
    ∃ c frame sp, t = .handler c ∧ (dispatched c L).getLast? = some frame ∧
      cfg.pb.speechOf frame = some sp ∧ msg = sp.under u ∧
      ∀ v, sp.dest = some v → s < p.shared.mem.nextRef ∧ (p.shared.mem.heap s).username = v := by
  obtain ⟨c, rfl, _⟩ := delivery_registrant h hlog hu
  have ⟨frame, sp, hframe, hsp, hquote, hdest⟩ := delivery_frame h hlog hu
  exact ⟨c, frame, sp, rfl, hframe, hsp, hquote, hdest⟩

/-- "a" has sent a direct message to "b", and its handler has just written to "b". -/
theorem deliveries_quote_dm :
    ∃ p L s, (system sampleConfig).Reaches Lts.Any p ∧
      p.log = L ++ [⟨.handler 0, .sendLocked s (.forDm { usernameDes := "a", message := "hi" }), ()⟩] ∧
      ∃ c frame sp, sampleConfig.pb.speechOf frame = some sp ∧ sp = ⟨"hi", some "b"⟩ ∧
        (dispatched c L).getLast? = some frame ∧ (p.shared.mem.heap s).username = "b" := by
  have ⟨p, hp, hrun⟩ := Lts.exists_reaches_of_run (L := system sampleConfig)
    (dmSetup ++ List.replicate 7 (.op (.handler 0) {}))
    (fun p => decide ((p.log.getLast?.map fun e => (e.tid, e.op)) =
      some (.handler 0, .sendLocked 1 (.forDm { usernameDes := "a", message := "hi" }))) &&
      decide ((dispatched 0 p.log.dropLast).getLast?.bind sampleConfig.pb.speechOf =
        some ⟨"hi", some "b"⟩))
    (by decide +kernel)
  rw [Bool.and_eq_true, decide_eq_true_eq, decide_eq_true_eq] at hrun
  have ⟨⟨t, o, r⟩, he, hop⟩ := Option.map_eq_some_iff.1 hrun.1
  cases hop
  have hlog : p.log = p.log.dropLast ++ [⟨.handler 0, .sendLocked 1 _, r⟩] :=
    (List.dropLast_append_getLast? _ he).symm
  have ⟨c, frame, sp, hc, hframe, hsp, hmsg, hdest⟩ := deliveries_quote hp hlog rfl
  cases hc
  have hsp' : sp = ⟨"hi", some "b"⟩ := by
    have hlast := hrun.2
    rw [hframe] at hlast
    exact Option.some.inj (hsp.symm.trans hlast)
  exact ⟨p, p.log.dropLast, 1, hp, hlog, 0, frame, sp, hsp, hsp', hframe,
    (hdest "b" (by rw [hsp'])).2⟩

end SimpleChat
