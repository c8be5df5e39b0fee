import SimpleChat.Handling
import SimpleChat.Transcript

/-!
# One reply to every request

Requests carry no identifier.  A client tells which reply belongs to which request by
the order alone, so every early return of a handler has to reply exactly once.  For
MESSAGE_GENERAL there is no direct reply: the sender's own copy of the broadcast takes
its place.

`Orderly` is the grammar of the transcripts in which this is so.  `Obligation` is what a
handler still has to write, as a monitor that the programs obey (`program_replies`),
and `replies_in_order` is the result for every reachable state.
-/

namespace SimpleChat

open Conc Function Data

/-! ## Transcripts in order -/

def ServerMsg.code : ServerMsg → Option Int
  | .serverResponse m => some m.statusCode
  | _ => none

namespace Request

variable (cfg : Config) (q : Request)

/-- The payload of a request of the types 2 to 6 parses. -/
def parses : Bool :=
  if q.msgType = MsgType.MESSAGE_GENERAL then (cfg.pb.parseMessageGeneral q.payload).isSome
  else if q.msgType = MsgType.MESSAGE_DM then (cfg.pb.parseMessageDM q.payload).isSome
  else if q.msgType = MsgType.CHANGE_STATUS then (cfg.pb.parseChangeStatus q.payload).isSome
  else if q.msgType = MsgType.LIST_USERS then (cfg.pb.parseListUsers q.payload).isSome
  else if q.msgType = MsgType.GET_USER_INFO then (cfg.pb.parseGetUserInfo q.payload).isSome
  else false

/-- The request is a message to all that the server accepts. -/
def acceptedGeneral : Bool :=
  decide (q.msgType = MsgType.MESSAGE_GENERAL) && q.registered && q.parses cfg

/-- The frames that end the handling of the request. -/
def terminal : ServerMsg → Bool
  | .serverResponse m => decide (m.statusCode ≠ StatusCode.STATUS_RESTORED)
  | .allUsers _ => true
  | .getUserInfoResponse _ => true
  | .broadcastDelivery _ => q.acceptedGeneral cfg
  | .forDm _ => false

/-- The reply is one that the request may get. -/
structure Fits (msg : ServerMsg) : Prop where
  unregistered : needsSession q.msgType = true →
    (msg.code = some StatusCode.NOT_REGISTERED ↔ q.registered = false)
  malformed : needsSession q.msgType = true → q.registered = true → q.parses cfg = false →
    msg.code = some StatusCode.BAD_REQUEST
  delivered : q.acceptedGeneral cfg = true → ∃ m g, msg = .broadcastDelivery m ∧
    cfg.pb.parseMessageGeneral q.payload = some g ∧ m.message = g.message

end Request

/-- What is owed on a connection. -/
inductive Turn where
  | idle
  | owing (q : Request)
  /-- A QUIT was dispatched. -/
  | quitting
  deriving DecidableEq

/-- The transcript is in order, and what is owed at its end: while a reply is owed
nothing is read, and each request is replied to exactly once. -/
inductive Orderly (cfg : Config) : List Entry → Turn → Prop
  | start : Orderly cfg [] .idle
  | read {es : List Entry} (h : Orderly cfg es .idle) : Orderly cfg (es ++ [.read]) .idle
  | request {es : List Entry} {q : Request} (h : Orderly cfg es .idle)
    (hq : q.msgType ≠ MsgType.QUIT) : Orderly cfg (es ++ [.request q]) (.owing q)
  | quit {es : List Entry} {q : Request} (h : Orderly cfg es .idle)
    (hq : q.msgType = MsgType.QUIT) : Orderly cfg (es ++ [.request q]) .quitting
  /-- A frame that is no reply. -/
  | notice {es : List Entry} {q : Request} {msg : ServerMsg} (h : Orderly cfg es (.owing q))
    (hmsg : q.terminal cfg msg = false) : Orderly cfg (es ++ [.wrote msg]) (.owing q)
  | reply {es : List Entry} {q : Request} {msg : ServerMsg} (h : Orderly cfg es (.owing q))
    (hmsg : q.terminal cfg msg = true) (hfits : q.Fits cfg msg) :
    Orderly cfg (es ++ [.wrote msg]) .idle
  | goodbye {es : List Entry} {msg : ServerMsg} (h : Orderly cfg es .quitting) :
    Orderly cfg (es ++ [.wrote msg]) .quitting

/-! ## The obligation of a handler -/

/-- What a handler still has to write to its connection, as far as its program
knows. -/
inductive Obligation where
  | none
  /-- The reply to a frame, and the session that was found for it, if it was looked
  up. -/
  | reply (msgType : UInt8) (payload : Bytes) (found : Option (Option SessionRef))
  /-- The copies of a message to all, of a sender with session `s`. -/
  | deliver (payload : Bytes) (s target : SessionRef) (rest : List SessionRef)
  | quit

/-- The frames that handlers write while they owe a reply. -/
def isInterim : ServerMsg → Bool
  | .forDm _ => true
  | .serverResponse m => decide (m.statusCode = StatusCode.STATUS_RESTORED)
  | _ => false

/-- What a handler may do while it owes the reply to a frame. -/
def ReplyAllows (cfg : Config) (msgType : UInt8) (payload : Bytes)
    (found : Option (Option SessionRef)) : ServerOp → Prop
  | .mem (.getSession _) => found = none
  | .mem .aliveSessions =>
    Request.acceptedGeneral cfg ⟨msgType, payload, true⟩ = true ∧ ∃ s, found = some (some s)
  | .mem (.getPeerIp _) | .mem (.findUser _) | .mem .listSessions | .mem (.read _)
  | .mem (.restore _) | .mem (.setStatus _ _) | .mem (.touch _) => True
  | .mem _ => False
  | .sendBare _ msg => (∃ code text b, msg = response code text b ∧
      code ≠ StatusCode.STATUS_RESTORED) ∧
    (needsSession msgType = true →
      msg.code = some StatusCode.NOT_REGISTERED ∧ found = some none)
  | .register _ _ _ => needsSession msgType = false
  | .sendLocked t msg => isInterim msg = true ∨
    found = some (some t) ∧ isInterim msg = false ∧
      Request.terminal cfg ⟨msgType, payload, true⟩ msg = true ∧
      Request.Fits cfg ⟨msgType, payload, true⟩ msg

namespace Obligation

variable (cfg : Config)

/-- What a handler may do. -/
def Allows : Obligation → ServerOp → Prop
  | .none, .mem .running | .none, .mem (.recv _ _) | .none, .mem (.dispatch _ _)
  | .none, .mem (.removeSession _) | .none, .mem (.close _) => True
  | .none, _ => False
  | .reply msgType payload found, o => ReplyAllows cfg msgType payload found o
  | .deliver payload _ target _, o => ∃ m g, o = .sendLocked target (.broadcastDelivery m) ∧
    cfg.pb.parseMessageGeneral payload = some g ∧ m.message = g.message
  | .quit, .mem .running | .quit, .mem (.recv _ _) | .quit, .mem (.dispatch _ _) => False
  | .quit, _ => True

/-- The copies that are left. -/
def delivering (payload : Bytes) (s : SessionRef) : List SessionRef → Obligation
  | [] => .none
  | target :: rest => .deliver payload s target rest

/-- The obligation after an operation. -/
def after : Obligation → (o : ServerOp) → o.Resp → Obligation
  | .none, .mem (.dispatch msgType payload), _ =>
    if msgType = MsgType.QUIT then .quit else .reply msgType payload Option.none
  | .reply msgType payload _, .mem (.getSession _), s => .reply msgType payload (some s)
  | .reply _ payload (some (some s)), .mem .aliveSessions, targets => delivering payload s targets
  | .reply msgType payload found, .sendLocked _ msg, _ =>
    if isInterim msg then .reply msgType payload found else .none
  | .reply _ _ _, .sendBare _ _, _ => .none
  | .reply _ _ _, .register _ _ _, _ => .none
  | .deliver payload s _ rest, _, _ => delivering payload s rest
  | d, _, _ => d

end Obligation

def obligationMonitor (cfg : Config) (t : Tid) : Prog.Monitor Server Obligation :=
  .det (fun d o => t = .watchdog ∨ d.Allows cfg o) fun d o r => d.after o r

/-- Where the handlers stand at a control point. -/
def ObligedAt : Tid → Ctl → Obligation → Prop
  | .handler _, .loop _, d => d = .none
  | .handler _, _, d => d = .none ∨ d = .quit
  | .watchdog, _, _ => True

section Programs

variable {cfg : Config} {c : ConnId} {fd : Fd} {payload : Bytes} {msgType : UInt8}

theorem obeys_obligation_call {α : Type} {o : ServerOp} {k : o.Resp → Prog Server α}
    {d : Obligation} {t : Tid} {post : α → Obligation → Prop} :
    (Prog.call (S := Server) o k).Obeys (obligationMonitor cfg t) post d ↔
      (t = .watchdog ∨ d.Allows cfg o) ∧
        ∀ r, (k r).Obeys (obligationMonitor cfg t) post (d.after o r) :=
  Prog.obeys_det_call

/-- The program of a handler meets its obligation. -/
abbrev Fulfils (cfg : Config) (c : ConnId) (p : Prog Server Unit) (d : Obligation) : Prop :=
  p.Obeys (obligationMonitor cfg (.handler c)) (fun _ d' => d' = .none) d

theorem obliged_call {α : Type} {o : ServerOp} {k : o.Resp → Prog Server α} {d : Obligation}
    {post : α → Obligation → Prop} (ho : d.Allows cfg o)
    (hk : ∀ r, (k r).Obeys (obligationMonitor cfg (.handler c)) post (d.after o r)) :
    (Prog.call (S := Server) o k).Obeys (obligationMonitor cfg (.handler c)) post d :=
  obeys_obligation_call.2 ⟨Or.inr ho, hk⟩

/-- A reply without a mutex. -/
theorem sendBare_fulfils {code : Int} {text : String} {b : Bool}
    {found : Option (Option SessionRef)} (h603 : code ≠ StatusCode.STATUS_RESTORED)
    (h401 : needsSession msgType = true → code = StatusCode.NOT_REGISTERED ∧ found = some none) :
    Fulfils cfg c (.call (S := Server) (.sendBare fd (response code text b)) .ret)
      (.reply msgType payload found) := by
  refine obliged_call ⟨⟨code, text, b, rfl, h603⟩, fun hneeds => ?_⟩ fun _ => rfl
  have ⟨hcode, hfound⟩ := h401 hneeds
  exact ⟨congrArg some hcode, hfound⟩

/-- The handlers that need a session reply 401 if there is none. -/
theorem withSession_fulfils {body : SessionRef → Prog Server Unit}
    (h : ∀ s, Fulfils cfg c (body s) (.reply msgType payload (some (some s)))) :
    Fulfils cfg c (withSession fd body) (.reply msgType payload none) := by
  simp only [withSession, mem_eq, Prog.call_bind, Prog.ret_bind]
  refine obliged_call rfl fun r => ?_
  cases r with
  | none =>
    show Fulfils cfg c _ (.reply msgType payload (some none))
    exact sendBare_fulfils (by decide) fun _ => ⟨rfl, rfl⟩
  | some s => exact h s

/-- A reply through the session that was found. -/
theorem reply_fulfils {s : SessionRef} {msg : ServerMsg} (hinterim : isInterim msg = false)
    (hterminal : Request.terminal cfg ⟨msgType, payload, true⟩ msg = true)
    (hfits : Request.Fits cfg ⟨msgType, payload, true⟩ msg) :
    Fulfils cfg c (.call (S := Server) (.sendLocked s msg) .ret)
      (.reply msgType payload (some (some s))) := by
  refine obliged_call (Or.inr ⟨rfl, hinterim, hterminal, hfits⟩) fun _ => ?_
  show (if isInterim msg then _ else Obligation.none) = Obligation.none
  rw [hinterim]
  rfl

/-- A response through the session that was found. -/
theorem response_fulfils {s : SessionRef} {code : Int} {text : String} {b : Bool}
    (h603 : code ≠ StatusCode.STATUS_RESTORED) (h401 : code ≠ StatusCode.NOT_REGISTERED)
    (hmalformed : Request.parses cfg ⟨msgType, payload, true⟩ = false →
      code = StatusCode.BAD_REQUEST)
    (hgeneral : Request.acceptedGeneral cfg ⟨msgType, payload, true⟩ = false) :
    Fulfils cfg c (.call (S := Server) (.sendLocked s (response code text b)) .ret)
      (.reply msgType payload (some (some s))) := by
  refine reply_fulfils (decide_eq_false h603) (decide_eq_true h603)
    ⟨fun _ => ?_, fun _ _ hparse => ?_, fun haccepted => ?_⟩
  · exact ⟨fun hcode => absurd (Option.some.inj hcode) h401, fun hno => (nomatch hno)⟩
  · exact congrArg some (hmalformed hparse)
  · rw [hgeneral] at haccepted
    cases haccepted

/-- The payload of a request that does not parse is answered 400. -/
theorem malformed_fulfils {s : SessionRef} {text : String} {b : Bool}
    (hparse : Request.parses cfg ⟨msgType, payload, true⟩ = false) :
    Fulfils cfg c (.call (S := Server)
      (.sendLocked s (response StatusCode.BAD_REQUEST text b)) .ret)
      (.reply msgType payload (some (some s))) := by
  refine response_fulfils (by decide) (by decide) (fun _ => rfl) ?_
  rw [Request.acceptedGeneral, hparse, Bool.and_false]

/-- `maybe_restore_activity` writes a notice at most. -/
theorem maybeRestoreActivity_fulfils {s : SessionRef} :
    (maybeRestoreActivity s).Obeys (obligationMonitor cfg (.handler c))
      (fun _ d => d = .reply msgType payload (some (some s)))
      (.reply msgType payload (some (some s))) := by
  simp only [maybeRestoreActivity, mem_eq, Prog.call_bind, Prog.ret_bind]
  refine obliged_call trivial fun restored => ?_
  cases restored with
  | false => exact obliged_call trivial fun _ => rfl
  | true => exact obliged_call (Or.inl rfl) fun _ => obliged_call trivial fun _ => rfl

theorem handleRegister_fulfils :
    Fulfils cfg c (handleRegister cfg fd payload) (.reply MsgType.REGISTER payload none) := by
  have hneeds : needsSession MsgType.REGISTER = true →
      StatusCode.BAD_REQUEST = StatusCode.NOT_REGISTERED ∧
        (none : Option (Option SessionRef)) = some none := fun h => (nomatch h)
  unfold handleRegister
  split
  · exact sendBare_fulfils (by decide) hneeds
  · simp only [mem_eq, Prog.call_bind, Prog.ret_bind]
    refine obliged_call trivial fun _ => ?_
    split
    · exact sendBare_fulfils (by decide) hneeds
    · exact obliged_call rfl fun _ => rfl

/-- The copies go out one after the other. -/
theorem sendAll_fulfils {s : SessionRef} {m : BroadcastDelivery} {g : MessageGeneral}
    (hparse : cfg.pb.parseMessageGeneral payload = some g) (hm : m.message = g.message)
    (targets : List SessionRef) :
    Fulfils cfg c (targets.forM fun t => sendLocked t (.broadcastDelivery m))
      (.delivering payload s targets) := by
  induction targets with
  | nil => rfl
  | cons target rest ih =>
    rw [Prog.forM_cons]
    exact obliged_call ⟨m, g, rfl, hparse, hm⟩ fun _ => ih

theorem handleMessageGeneral_fulfils :
    Fulfils cfg c (handleMessageGeneral cfg fd payload)
      (.reply MsgType.MESSAGE_GENERAL payload none) := by
  refine withSession_fulfils fun s => ?_
  split
  · rename_i hparse
    exact malformed_fulfils (by simp [Request.parses, hparse])
  · rename_i g hparse
    refine maybeRestoreActivity_fulfils.bind fun _ d hd => ?_
    rw [hd]
    simp only [mem_eq, Prog.call_bind, Prog.ret_bind]
    refine obliged_call trivial fun i => obliged_call ⟨?_, s, rfl⟩ fun targets => ?_
    · simp [Request.acceptedGeneral, Request.parses, hparse]
    · exact sendAll_fulfils hparse rfl targets

/-- A response to a request that parses and is no message to all. -/
theorem parsed_fulfils {s : SessionRef} {code : Int} {text : String} {b : Bool}
    (h603 : code ≠ StatusCode.STATUS_RESTORED) (h401 : code ≠ StatusCode.NOT_REGISTERED)
    (hparse : Request.parses cfg ⟨msgType, payload, true⟩ = true)
    (htype : msgType ≠ MsgType.MESSAGE_GENERAL) :
    Fulfils cfg c (.call (S := Server) (.sendLocked s (response code text b)) .ret)
      (.reply msgType payload (some (some s))) := by
  refine response_fulfils h603 h401 (fun hno => ?_) ?_
  · rw [hparse] at hno
    cases hno
  · rw [Request.acceptedGeneral, decide_eq_false htype]
    rfl

theorem handleMessageDm_fulfils :
    Fulfils cfg c (handleMessageDm cfg fd payload) (.reply MsgType.MESSAGE_DM payload none) := by
  refine withSession_fulfils fun s => ?_
  split
  · rename_i hparse
    exact malformed_fulfils (congrArg Option.isSome hparse)
  · rename_i msg hparse
    have hparses : Request.parses cfg ⟨MsgType.MESSAGE_DM, payload, true⟩ = true :=
      congrArg Option.isSome hparse
    refine maybeRestoreActivity_fulfils.bind fun _ d hd => ?_
    rw [hd]
    simp only [mem_eq, Prog.call_bind, Prog.ret_bind]
    refine obliged_call trivial fun i => obliged_call trivial fun dest => ?_
    cases dest with
    | none => exact parsed_fulfils (by decide) (by decide) hparses (by decide)
    | some dest =>
      refine obliged_call trivial fun j => ?_
      split
      · refine obliged_call (Or.inl rfl) fun _ => ?_
        exact parsed_fulfils (by decide) (by decide) hparses (by decide)
      · exact parsed_fulfils (by decide) (by decide) hparses (by decide)

theorem handleChangeStatus_fulfils :
    Fulfils cfg c (handleChangeStatus cfg fd payload)
      (.reply MsgType.CHANGE_STATUS payload none) := by
  refine withSession_fulfils fun s => ?_
  split
  · rename_i hparse
    exact malformed_fulfils (congrArg Option.isSome hparse)
  · rename_i cs hparse
    have hparses : Request.parses cfg ⟨MsgType.CHANGE_STATUS, payload, true⟩ = true :=
      congrArg Option.isSome hparse
    dsimp only
    split
    · exact parsed_fulfils (by decide) (by decide) hparses (by decide)
    · refine obliged_call trivial fun _ => obliged_call trivial fun _ => ?_
      exact parsed_fulfils (by decide) (by decide) hparses (by decide)

/-- A list of users or the data of a user. -/
theorem answer_fulfils {s : SessionRef} {msg : ServerMsg} (hinterim : isInterim msg = false)
    (hterminal : Request.terminal cfg ⟨msgType, payload, true⟩ msg = true)
    (hcode : msg.code = none) (hparse : Request.parses cfg ⟨msgType, payload, true⟩ = true)
    (htype : msgType ≠ MsgType.MESSAGE_GENERAL) :
    Fulfils cfg c (.call (S := Server) (.sendLocked s msg) .ret)
      (.reply msgType payload (some (some s))) := by
  refine reply_fulfils hinterim hterminal ⟨fun _ => ?_, fun _ _ hno => ?_, fun haccepted => ?_⟩
  · rw [hcode]
    exact ⟨fun hno => (nomatch hno), fun hno => (nomatch hno)⟩
  · rw [hparse] at hno
    cases hno
  · rw [Request.acceptedGeneral, decide_eq_false htype] at haccepted
    cases haccepted

theorem handleListUsers_fulfils :
    Fulfils cfg c (handleListUsers cfg fd payload) (.reply MsgType.LIST_USERS payload none) := by
  refine withSession_fulfils fun s => ?_
  split
  · rename_i hparse
    exact malformed_fulfils (congrArg Option.isSome hparse)
  · rename_i hparse
    refine obliged_call trivial fun _ => obliged_call trivial fun users => ?_
    exact answer_fulfils rfl rfl rfl (congrArg Option.isSome hparse) (by decide)

theorem handleGetUserInfo_fulfils :
    Fulfils cfg c (handleGetUserInfo cfg fd payload)
      (.reply MsgType.GET_USER_INFO payload none) := by
  refine withSession_fulfils fun s => ?_
  split
  · rename_i hparse
    exact malformed_fulfils (congrArg Option.isSome hparse)
  · rename_i gui hparse
    have hparses : Request.parses cfg ⟨MsgType.GET_USER_INFO, payload, true⟩ = true :=
      congrArg Option.isSome hparse
    simp only [mem_eq, Prog.call_bind, Prog.ret_bind]
    refine obliged_call trivial fun _ => obliged_call trivial fun target => ?_
    cases target with
    | none => exact parsed_fulfils (by decide) (by decide) hparses (by decide)
    | some target =>
      exact obliged_call trivial fun i => answer_fulfils rfl rfl rfl hparses (by decide)

/-- After a QUIT a handler writes what it likes, and reads nothing. -/
theorem handleQuit_fulfils :
    (handleQuit cfg fd payload).Obeys (obligationMonitor cfg (.handler c)) (fun _ d => d = .quit)
      .quit := by
  simp only [handleQuit, mem_eq, Prog.call_bind, Prog.ret_bind]
  refine obliged_call trivial fun session => ?_
  split
  · rfl
  · cases session with
    | none => rfl
    | some s => exact obliged_call trivial fun _ => rfl

/-- The obligation after a frame was dispatched, and after it was handled. -/
theorem handleFrame_fulfils (msgType : UInt8) :
    (handleFrame cfg fd msgType payload).Obeys (obligationMonitor cfg (.handler c))
      (fun _ d => d = if msgType = MsgType.QUIT then .quit else .none)
      (if msgType = MsgType.QUIT then .quit else .reply msgType payload none) := by
  by_cases hquit : msgType = MsgType.QUIT
  · subst hquit
    exact handleQuit_fulfils
  · unfold handleFrame
    simp only [if_neg hquit]
    split_ifs with h1 h2 h3 h4 h5 h6
    · exact h1 ▸ handleRegister_fulfils
    · exact h2 ▸ handleMessageGeneral_fulfils
    · exact h3 ▸ handleMessageDm_fulfils
    · exact h4 ▸ handleChangeStatus_fulfils
    · exact h5 ▸ handleListUsers_fulfils
    · exact h6 ▸ handleGetUserInfo_fulfils
    · refine sendBare_fulfils (by decide) fun hneeds => ?_
      simp [needsSession, h2, h3, h4, h5, h6] at hneeds

/-- The frame is read without writing. -/
theorem recvMessage_fulfils :
    ((recvMessage fd).lift recvEmbedding).Obeys (obligationMonitor cfg (.handler c))
      (fun _ d => d = .none) .none :=
  (liftedRecv_reads fd).obeys
    (fun _ ⟨_, ho⟩ => ho ▸ Or.inr trivial) fun _ _ ⟨_, ho⟩ => by subst ho; rfl

theorem handleClient_fulfils :
    (handleClient cfg fd).Obeys (obligationMonitor cfg (.handler c)) (ObligedAt (.handler c))
      .none := by
  simp only [handleClient, mem_eq, Prog.call_bind, Prog.ret_bind]
  refine obliged_call trivial fun running => ?_
  cases running with
  | false => exact Or.inl rfl
  | true =>
    show Prog.Obeys _ _ (_ >>= _) Obligation.none
    refine recvMessage_fulfils.bind fun frame d hd => ?_
    rw [hd]
    cases frame with
    | none => exact Or.inl rfl
    | some frame =>
      obtain ⟨msgType, payload⟩ := frame
      refine obliged_call trivial fun _ => ?_
      rw [dispatch_eq]
      refine (handleFrame_fulfils msgType).bind fun _ d hd => ?_
      by_cases hquit : msgType = MsgType.QUIT
      · rw [if_pos hquit] at hd ⊢
        exact Or.inr hd
      · rw [if_neg hquit] at hd ⊢
        exact hd

theorem handleClientCleanup_fulfils {d : Obligation} (hd : d = .none ∨ d = .quit) :
    (handleClientCleanup fd).Obeys (obligationMonitor cfg (.handler c))
      (ObligedAt (.handler c)) d := by
  rcases hd with hd | hd <;> rw [hd]
  · exact obliged_call trivial fun _ => obliged_call trivial fun _ => Or.inl rfl
  · exact obliged_call trivial fun _ => obliged_call trivial fun _ => Or.inr rfl

/-- The watchdog has no obligation. -/
theorem watchdog_fulfils (p : Prog Server Ctl) (d : Obligation) :
    p.Obeys (obligationMonitor cfg .watchdog) (ObligedAt .watchdog) d := by
  induction p generalizing d with
  | ret a => trivial
  | call o k ih => exact obeys_obligation_call.2 ⟨Or.inl rfl, fun r => ih r _⟩

theorem program_replies {t : Tid} {ctl : Ctl} {d : Obligation} {phase : Phase}
    (hphase : PhaseAt t ctl phase) (h : ObligedAt t ctl d) :
    (ctl.program cfg).Obeys (obligationMonitor cfg t) (ObligedAt t) d := by
  match t, ctl, hphase, h with
  | .watchdog, _, _, _ => exact watchdog_fulfils _ _
  | .handler c, .loop fd, _, h =>
    rw [show d = .none from h]
    exact handleClient_fulfils
  | .handler c, .cleanup fd, _, h => exact handleClientCleanup_fulfils h
  | .handler _, .ended, _, h => exact h

end Programs

/-! ## The obligation and the transcript -/

/-- The copies of an accepted message to all that are still to be written.  The one
to the sender itself is the reply. -/
structure Delivering (cfg : Config) (T : Transcript) (payload : Bytes) (s : SessionRef)
    (targets : List SessionRef) : Prop where
  mine : T.mine = some s
  once : targets.Nodup
  accepted : Request.acceptedGeneral cfg ⟨MsgType.MESSAGE_GENERAL, payload, true⟩ = true
  owing : s ∈ targets → Orderly cfg T.entries (.owing ⟨MsgType.MESSAGE_GENERAL, payload, true⟩)
  done : s ∉ targets → Orderly cfg T.entries .idle

/-- The transcript is in order, and what it owes is the obligation of the handler. -/
def Settled (cfg : Config) (T : Transcript) : Obligation → Prop
  | .none => Orderly cfg T.entries .idle
  | .reply msgType payload found =>
    Orderly cfg T.entries (.owing ⟨msgType, payload, T.mine.isSome⟩) ∧
      ∀ s, found = some s → s = T.mine
  | .deliver payload s target rest => Delivering cfg T payload s (target :: rest)
  | .quit => Orderly cfg T.entries .quitting

/-- What the lookups of a handler say about its own session. -/
def Truthful (T : Transcript) : (o : ServerOp) → o.Resp → Prop
  | .mem (.getSession _), s => s = T.mine
  | .mem .aliveSessions, targets => targets.Nodup ∧ ∀ s, T.mine = some s → s ∈ targets
  | _, _ => True

section Settled

variable {cfg : Config} {T : Transcript} {o : ServerOp} {r : o.Resp} {payload : Bytes}
  {msgType : UInt8} {s : SessionRef}

theorem Delivering.settled {targets : List SessionRef} (h : Delivering cfg T payload s targets) :
    Settled cfg T (.delivering payload s targets) := by
  cases targets with
  | nil => exact h.done (by simp)
  | cons target rest => exact h

/-- One copy more. -/
theorem Delivering.send {target : SessionRef} {rest : List SessionRef}
    (h : Delivering cfg T payload s (target :: rest)) {m : BroadcastDelivery} {g : MessageGeneral}
    (hparse : cfg.pb.parseMessageGeneral payload = some g) (hm : m.message = g.message) :
    Delivering cfg (T.after (.sendLocked target (.broadcastDelivery m)) ()) payload s rest := by
  obtain ⟨hnotin, hrest⟩ := List.nodup_cons.1 h.once
  have hentries : (T.after (.sendLocked target (.broadcastDelivery m)) ()).entries =
      T.entries ++ if s = target then [.wrote (.broadcastDelivery m)] else [] := by
    rw [Transcript.after, heard, h.mine]
    simp only [Option.some.injEq]
  refine ⟨h.mine, hrest, h.accepted, fun hs => ?_, fun hs => ?_⟩
  · have hne : s ≠ target := fun heq => hnotin (heq ▸ hs)
    rw [hentries, if_neg hne, List.append_nil]
    exact h.owing (List.mem_cons_of_mem _ hs)
  · rw [hentries]
    by_cases heq : s = target
    · rw [if_pos heq]
      refine .reply (h.owing (heq ▸ List.mem_cons_self)) h.accepted ⟨fun _ => ?_, fun _ _ hno => ?_,
        fun _ => ⟨m, g, rfl, hparse, hm⟩⟩
      · exact ⟨fun hno => (by cases hno), fun hno => by cases hno⟩
      · have haccepted := h.accepted
        rw [Request.acceptedGeneral] at haccepted
        have hparses : Request.parses cfg ⟨MsgType.MESSAGE_GENERAL, payload, true⟩ = false := hno
        rw [hparses] at haccepted
        cases haccepted
    · rw [if_neg heq, List.append_nil]
      exact h.done fun hmem => (List.mem_cons.1 hmem).elim heq hs

/-- A message to all that is accepted is a frame that needs a session. -/
theorem acceptedGeneral_needs {q : Request} (h : q.acceptedGeneral cfg = true) :
    q.msgType = MsgType.MESSAGE_GENERAL ∧ q.registered = true ∧ needsSession q.msgType = true := by
  rw [Request.acceptedGeneral, Bool.and_eq_true, Bool.and_eq_true, decide_eq_true_eq] at h
  refine ⟨h.1.1, h.1.2, ?_⟩
  rw [h.1.1]
  rfl

theorem registerReply_response (u a : String) (r : Memory.RegisterOutcome) :
    ∃ code text b, (registerReply u a r).2 = response code text b ∧
      code ≠ StatusCode.STATUS_RESTORED := by
  cases r <;> exact ⟨_, _, _, rfl, by decide⟩

/-- A notice is no reply. -/
theorem isInterim.terminal {msg : ServerMsg} (h : isInterim msg = true) (q : Request) :
    q.terminal cfg msg = false := by
  cases msg with
  | serverResponse m => exact decide_eq_false fun hne => hne (of_decide_eq_true h)
  | forDm m => rfl
  | broadcastDelivery | allUsers | getUserInfoResponse => cases h

section Reply

variable {found : Option (Option SessionRef)}

/-- A reply without a mutex. -/
theorem Settled.sendBare {fd : Fd} {msg : ServerMsg}
    (h : Settled cfg T (.reply msgType payload found))
    (ho : ReplyAllows cfg msgType payload found (.sendBare fd msg)) :
    Orderly cfg (T.entries ++ [.wrote msg]) .idle := by
  have ⟨howing, hfound⟩ := h
  have ⟨⟨code, text, b, hmsg, h603⟩, h401⟩ := ho
  have hnone : needsSession msgType = true → T.mine.isSome = false := fun hneeds => by
    rw [← hfound none (h401 hneeds).2]
    rfl
  rw [hmsg] at h401 ⊢
  refine .reply howing (decide_eq_true h603) ⟨fun hneeds => ?_, fun hneeds hreg _ => ?_,
    fun haccepted => ?_⟩
  · exact ⟨fun _ => hnone hneeds, fun _ => (h401 hneeds).1⟩
  · exact absurd hreg (by rw [hnone hneeds]; exact Bool.false_ne_true)
  · have ⟨_, hreg, hneeds⟩ := acceptedGeneral_needs haccepted
    exact absurd hreg (by rw [hnone hneeds]; exact Bool.false_ne_true)

/-- The reply of the locked block of `handle_register`. -/
theorem Settled.register {u a : String} {r : Memory.RegisterOutcome}
    (h : Settled cfg T (.reply msgType payload found)) (hneeds : needsSession msgType = false) :
    Orderly cfg (T.entries ++ [.wrote (registerReply u a r).2]) .idle := by
  have ⟨code, text, b, hmsg, h603⟩ := registerReply_response u a r
  have hno : needsSession msgType ≠ true := by
    rw [hneeds]
    exact Bool.false_ne_true
  rw [hmsg]
  exact .reply h.1 (decide_eq_true h603) ⟨fun hyes => absurd hyes hno, fun hyes => absurd hyes hno,
    fun haccepted => absurd (acceptedGeneral_needs haccepted).2.2 hno⟩

/-- A frame through a session: a notice, or the reply through the own session. -/
theorem Settled.sendLocked {t : SessionRef} {msg : ServerMsg}
    (h : Settled cfg T (.reply msgType payload found))
    (ho : ReplyAllows cfg msgType payload found (.sendLocked t msg)) :
    Settled cfg (T.after (.sendLocked t msg) ())
      (Obligation.after (.reply msgType payload found) (.sendLocked t msg) ()) := by
  have ⟨howing, hfound⟩ := h
  show Settled cfg _ (if isInterim msg then _ else _)
  cases hinterim : isInterim msg with
  | true =>
    refine ⟨?_, hfound⟩
    show Orderly cfg (T.entries ++ if T.mine = some t then [.wrote msg] else []) _
    split
    · exact .notice howing (isInterim.terminal hinterim _)
    · rw [List.append_nil]
      exact howing
  | false =>
    have ⟨hsession, _, hterminal, hfits⟩ := ho.resolve_left (by rw [hinterim]; simp)
    have hmine : T.mine = some t := (hfound _ hsession).symm
    show Orderly cfg (T.entries ++ if T.mine = some t then [.wrote msg] else []) .idle
    rw [hmine] at howing
    rw [if_pos hmine]
    exact .reply howing hterminal hfits

/-- A handler that owes a reply does something. -/
theorem Settled.after_reply (h : Settled cfg T (.reply msgType payload found))
    (ho : ReplyAllows cfg msgType payload found o) (htrue : Truthful T o r) :
    Settled cfg (T.after o r) (Obligation.after (.reply msgType payload found) o r) := by
  cases o with
  | sendBare fd msg => exact h.sendBare ho
  | register fd u a => exact h.register ho
  | sendLocked t msg => exact h.sendLocked ho
  | mem o =>
    have hsame : heard T.mine (.mem o) r = [] → nextMine T.mine (.mem o) r = T.mine →
        T.after (.mem o) r = T := by
      intro hheard hmine
      rw [Transcript.after, hheard, hmine, List.append_nil]
    cases o with
    | getSession fd =>
      rw [hsame rfl rfl]
      refine ⟨h.1, fun s hs => ?_⟩
      cases hs
      exact htrue
    | aliveSessions =>
      rw [hsame rfl rfl]
      obtain ⟨haccepted, s, hs⟩ := ho
      subst hs
      have hmine : T.mine = some s := (h.2 _ rfl).symm
      obtain ⟨htype, _, _⟩ := acceptedGeneral_needs haccepted
      change msgType = MsgType.MESSAGE_GENERAL at htype
      subst htype
      have howing := h.1
      rw [hmine] at howing
      have hdelivering : Delivering cfg T payload s r :=
        ⟨hmine, htrue.1, haccepted, fun _ => howing, fun hno => absurd (htrue.2 s hmine) hno⟩
      exact hdelivering.settled
    | getPeerIp | findUser | listSessions | read | restore | setStatus | touch =>
      have hafter : Obligation.after (.reply msgType payload found) _ r =
          .reply msgType payload found := by
        rcases found with _ | _ | s <;> rfl
      rw [hafter, hsame rfl rfl]
      exact h
    | recv | dispatch | running | removeSession | now | markIdle | close => exact ho.elim

end Reply

/-- An operation of a handler that meets its obligation. -/
theorem Settled.after {d : Obligation} (h : Settled cfg T d) (ho : d.Allows cfg o)
    (htrue : Truthful T o r) : Settled cfg (T.after o r) (d.after o r) := by
  cases d with
  | reply msgType payload found => exact h.after_reply ho htrue
  | deliver payload s target rest =>
    have ⟨m, g, hop, hparse, hm⟩ := ho
    subst hop
    exact (h.send hparse hm).settled
  | none =>
    have hidle : Orderly cfg T.entries .idle := h
    have hquiet : Orderly cfg (T.entries ++ []) .idle := by
      rw [List.append_nil]
      exact h
    cases o with
    | sendBare | sendLocked | register => exact ho.elim
    | mem o =>
      cases o with
      | running | removeSession | close => exact hquiet
      | recv => exact .read hidle
      | dispatch msgType payload =>
        show Settled cfg _ (if msgType = MsgType.QUIT then _ else _)
        by_cases hquit : msgType = MsgType.QUIT
        · rw [if_pos hquit]
          exact .quit hidle hquit
        · rw [if_neg hquit]
          exact ⟨.request hidle hquit, fun _ hs => (nomatch hs)⟩
      | getPeerIp | getSession | aliveSessions | findUser | listSessions | read | restore
        | setStatus | touch | now | markIdle => exact ho.elim
  | quit =>
    have hquitting : Orderly cfg T.entries .quitting := h
    have hquiet : Orderly cfg (T.entries ++ []) .quitting := by
      rw [List.append_nil]
      exact h
    cases o with
    | sendBare | register => exact .goodbye hquitting
    | sendLocked t msg =>
      show Orderly cfg (T.entries ++ if T.mine = some t then [.wrote msg] else []) .quitting
      split
      · exact .goodbye hquitting
      · exact hquiet
    | mem o =>
      cases o with
      | running | recv | dispatch => exact ho.elim
      | getPeerIp | getSession | removeSession | aliveSessions | findUser | listSessions | read
        | restore | setStatus | touch | now | markIdle | close => exact hquiet

end Settled

/-! ## Every run -/

section Runs

variable {cfg : Config} {p : State} {c : ConnId}

/-- The own session of a serving handler is the one in the registry. -/
theorem mine_live {phases : Tid → Phase} (h : (system cfg).Reaches Lts.Any p)
    (hown : Owned p phases) (hserving : (phases (.handler c)).life = .serving) {s : SessionRef} :
    (transcript c p.log).mine = some s ↔
      p.shared.mem.registry.sessions.lookup (p.shared.mem.conns c).fd = some s := by
  have ⟨hfd, hopen, hleft⟩ := hown.serving_open hserving
  have hphase : phases (.handler c) = ⟨(p.shared.mem.conns c).fd, .serving⟩ := by
    rw [← hserving, ← hfd]
  rw [mine_iff h]
  constructor
  · intro ⟨hlt, hc, _⟩
    have hlive := hown.2.1.live s hlt (by rw [hc, hserving])
    rwa [(hown.2.1.registered s hlt).2.1, hc] at hlive
  · intro hlook
    exact ⟨hown.2.1.consistent.allocated _ s hlook,
      (hown.2.1.registeredOn_eq_iff hphase hlook).2 rfl, hleft⟩

/-- What a handler looks up is so. -/
theorem exec_truthful {phases : Tid → Phase} (h : (system cfg).Reaches Lts.Any p)
    (hown : Owned p phases) {o : ServerOp} {k : o.Resp → Prog Server Ctl} {ch : Choice}
    {r : o.Resp} {w : World} (hprog : p.prog (.handler c) = .call (S := Server) o k)
    (he : p.shared.exec cfg (.handler c) o ch = some (r, w)) :
    Truthful (transcript c p.log) o r := by
  have hallows : (phases (.handler c)).Allows o := hown.allows hprog
  cases o with
  | sendBare | sendLocked | register => trivial
  | mem o =>
    cases o with
    | getSession fd =>
      cases he
      have ⟨hserving, hfd⟩ : (phases (.handler c)).life = .serving ∧
        fd = (phases (.handler c)).fd := hallows
      show p.shared.mem.getSession fd = _
      refine Option.ext fun s => ?_
      rw [mine_live h hown hserving, hfd, (hown.serving_open hserving).1]
      rfl
    | aliveSessions =>
      have hserving : (phases (.handler c)).life = .serving := hallows
      have ⟨⟨r', m'⟩, hm, hx⟩ := Option.map_eq_some_iff.1 he
      cases hx
      change (if _ then some _ else none) = _ at hm
      split at hm
      · rename_i horder
        cases hm
        have ⟨hnodup, hmem⟩ := hown.2.1.consistent.visited horder
        refine ⟨hnodup.filter _, fun s hs => ?_⟩
        have hlook := (mine_live h hown hserving).1 hs
        have hfd := hown.2.1.consistent.socketFd _ s hlook
        have halive := (hown.2.1.alive s (hown.2.1.consistent.allocated _ s hlook)).2
          (by rw [hfd]; exact hlook)
        exact List.mem_filter.2 ⟨(hmem s).2 ⟨_, hlook⟩, halive⟩
      · cases hm
    | recv | dispatch | running | getPeerIp | removeSession | findUser | listSessions | read
      | restore | setStatus | touch | now | markIdle | close => trivial

theorem replies_keeps (cfg : Config) :
    Machine.Keeps (machine cfg) (obligationMonitor cfg) ObligedAt
      (fun p ds => ∀ c, Settled cfg (transcript c p.log) (ds (.handler c)))
      (fun p _ => (system cfg).Reaches Lts.Any p) where
  op p ds t ch o k r w d' hJ hC hprog he hguard hnext c := by
    change p.shared.exec cfg t o ch = some (r, w) at he
    rw [show d' = (ds t).after o r from hnext, Pool.afterOp_log]
    by_cases ht : t = .handler c
    · subst ht
      have ⟨phases, hown⟩ := reachable_owned hC
      rw [update_self, transcript_own]
      exact (hJ c).after (hguard.resolve_left fun h => (nomatch h)) (exec_truthful hC hown hprog he)
    · rw [update_of_ne (Ne.symm ht), transcript_other ht]
      exact hJ c
  jump p ds t ctl hJ hC hprog hpost := by
    have ⟨phases, hown⟩ := reachable_owned hC
    have hphase := hown.1 t
    rw [hprog] at hphase
    refine ⟨ds t, program_replies hphase hpost, ?_⟩
    rw [update_eq_self]
    exact hJ
  env p ds e w start hJ hC he := by
    change p.shared.env e = some (w, start) at he
    rcases World.env_mem_cases he with ⟨hstart, _, _⟩ | ⟨fd, peerIp, _, _, hstart, _⟩
    · subst hstart
      exact ⟨ds, fun _ _ => rfl, fun _ _ h => (nomatch h), by rw [Pool.afterEnv_log]; exact hJ⟩
    · subst hstart
      refine ⟨update ds (.handler p.shared.mem.nextConn) .none, fun t ht => ?_, fun t ctl h => ?_,
        fun c => ?_⟩
      · rw [update_of_ne]
        intro heq
        exact ht (.loop fd) (by rw [heq])
      · cases h
        rw [update_self]
        rfl
      · rw [Pool.afterEnv_log]
        by_cases hc : c = p.shared.mem.nextConn
        · subst hc
          rw [update_self, transcript_fresh hC _ (Nat.le_refl _)]
          exact .start
        · rw [update_of_ne (by simpa using hc)]
          exact hJ c

/-- The pool and the obligations of its threads. -/
abbrev Obliged (cfg : Config) (p : State) (ds : Tid → Obligation) : Prop :=
  Machine.Monitored (obligationMonitor cfg) ObligedAt
    (fun p ds => ∀ c, Settled cfg (transcript c p.log) (ds (.handler c))) p ds

theorem reachable_obliged (h : (system cfg).Reaches Lts.Any p) : ∃ ds, Obliged cfg p ds := by
  have hrun : (system cfg).Reaches (fun q _ => (system cfg).Reaches Lts.Any q) p :=
    Lts.Steps.strengthen h fun q _ _ hq _ _ => hq
  have hinit : Obliged cfg (system cfg).init fun _ => .none := by
    refine ⟨fun t => ?_, fun _ => .start⟩
    cases t with
    | watchdog => trivial
    | handler c => exact Or.inl rfl
  exact (replies_keeps cfg).steps hrun hinit

/-- What is owed on a connection when its handler has an obligation left. -/
def Obligation.turn (T : Transcript) : Obligation → Turn
  | .none => .idle
  | .reply msgType payload _ => .owing ⟨msgType, payload, T.mine.isSome⟩
  | .deliver payload s target rest =>
    if s ∈ target :: rest then .owing ⟨MsgType.MESSAGE_GENERAL, payload, true⟩ else .idle
  | .quit => .quitting

theorem Settled.orderly {T : Transcript} {d : Obligation} (h : Settled cfg T d) :
    Orderly cfg T.entries (d.turn T) := by
  cases d with
  | none => exact h
  | reply => exact h.1
  | quit => exact h
  | deliver payload s target rest =>
    by_cases hs : s ∈ target :: rest
    · rw [Obligation.turn, if_pos hs]
      exact h.owing hs
    · rw [Obligation.turn, if_neg hs]
      exact h.done hs

/-! ## A reply that is owed can be written -/

/-- Only `recv` waits. -/
theorem exec_enabled (w : World) (o : ServerOp) (h : ∀ fd len, o ≠ .mem (.recv fd len)) :
    ∃ ch r w', w.exec cfg (.handler c) o ch = some (r, w') := by
  have ⟨order, horder⟩ := Quot.exists_rep w.mem.registry.sessions.keys.val
  have hiterate : w.mem.IterationOrder order := horder
  cases o with
  | sendBare | sendLocked | register => exact ⟨{}, _, _, rfl⟩
  | mem o =>
    cases o with
    | recv fd len => exact absurd rfl (h fd len)
    | aliveSessions | listSessions | markIdle =>
      refine ⟨{ order := order }, ?_⟩
      simp only [World.exec, Memory.exec, if_pos hiterate]
      exact ⟨_, _, rfl⟩
    | dispatch | running | getPeerIp | getSession | removeSession | findUser | read | restore
      | setStatus | touch | now | close => exact ⟨{}, _, _, rfl⟩

/-- The obligation to write something. -/
def Obligation.Writes : Obligation → Prop
  | .reply _ _ _ => True
  | .deliver _ _ _ _ => True
  | _ => False

theorem Obligation.writes_delivering (payload : Bytes) (s : SessionRef)
    (targets : List SessionRef) : (Obligation.delivering payload s targets).Writes ∨
      Obligation.delivering payload s targets = .none := by
  cases targets with
  | nil => exact Or.inr rfl
  | cons target rest => exact Or.inl trivial

/-- A handler that has to write something has to write something or has no obligation after an
operation. -/
theorem Obligation.Writes.after {d : Obligation} (h : d.Writes) (o : ServerOp) (r : o.Resp) :
    (d.after o r).Writes ∨ d.after o r = .none := by
  cases d with
  | none | quit => exact h.elim
  | deliver payload s target rest => exact Obligation.writes_delivering payload s rest
  | reply msgType payload found =>
    cases o with
    | sendBare | register => exact Or.inr rfl
    | sendLocked t msg =>
      show (if isInterim msg then _ else Obligation.none).Writes ∨
        (if isInterim msg then _ else Obligation.none) = _
      split
      · exact Or.inl trivial
      · exact Or.inr rfl
    | mem o =>
      cases o with
      | aliveSessions =>
        rcases found with _ | _ | s
        · exact Or.inl trivial
        · exact Or.inl trivial
        · exact Obligation.writes_delivering payload s r
      | recv | dispatch | running | getPeerIp | getSession | removeSession | findUser | listSessions
        | read | restore | setStatus | touch | now | markIdle | close =>
        rcases found with _ | _ | s <;> exact Or.inl trivial

/-- A handler that has to write something reads nothing. -/
theorem Obligation.Writes.no_recv {d : Obligation} (h : d.Writes) {fd : Fd} {len : Nat} :
    ¬ d.Allows cfg (.mem (.recv fd len)) := by
  cases d with
  | none | quit => exact h.elim
  | reply => exact fun hallows => hallows
  | deliver payload s target rest =>
    intro ⟨_, _, ho, _⟩
    cases ho

/-- A handler that has to write something does so by operations of its own. -/
theorem obligation_done (prog : Prog Server Ctl) {p : State} {ds : Tid → Obligation}
    (h : (system cfg).Reaches Lts.Any p) (hobliged : Obliged cfg p ds)
    (hprog : p.prog (.handler c) = prog)
    (hd : (ds (.handler c)).Writes ∨ ds (.handler c) = .none) :
    ∃ p', (system cfg).Steps (fun _ l => ∃ ch, l = .op (.handler c) ch) p p' ∧
      Orderly cfg (transcript c p'.log).entries .idle := by
  have hdone : ds (.handler c) = .none → ∃ p',
      (system cfg).Steps (fun _ l => ∃ ch, l = .op (.handler c) ch) p p' ∧
        Orderly cfg (transcript c p'.log).entries .idle := by
    intro hnone
    have hsettled := hobliged.2 c
    rw [hnone] at hsettled
    exact ⟨p, .refl p, hsettled⟩
  have hobeys := hobliged.1 (.handler c)
  rw [hprog] at hobeys
  induction prog generalizing p ds with
  | ret ctl =>
    refine hd.elim (fun hwrites => ?_) hdone
    -- No control point leaves something to write.
    have hat : ObligedAt (.handler c) ctl (ds (.handler c)) := hobeys
    have hnone : ds (.handler c) = .none ∨ ds (.handler c) = .quit := by
      cases ctl with
      | loop fd => exact Or.inl hat
      | cleanup | watchdog | ended => exact hat
    refine hnone.elim hdone fun hquit => ?_
    rw [hquit] at hwrites
    exact hwrites.elim
  | call o k ih =>
    refine hd.elim (fun hwrites => ?_) hdone
    have ⟨hguard, hk⟩ := obeys_obligation_call.1 hobeys
    have hallows := hguard.resolve_left fun hwatchdog => (nomatch hwatchdog)
    have ⟨ch, r, w, he⟩ : ∃ ch r w, p.shared.exec cfg (.handler c) o ch = some (r, w) :=
      exec_enabled p.shared o fun fd len ho => hwrites.no_recv (ho ▸ hallows)
    have hstep : (system cfg).step p (.op (.handler c) ch) =
        some (p.afterOp (S := Server) (.handler c) o k r w) :=
      Machine.step_op.2 ⟨o, k, r, w, hprog, he, rfl⟩
    have hnext : Obliged cfg (p.afterOp (S := Server) (.handler c) o k r w)
        (update ds (.handler c) ((ds (.handler c)).after o r)) := by
      refine ⟨fun t => ?_, (replies_keeps cfg).op _ _ _ _ _ _ _ _ _ hobliged.2 h hprog he hguard rfl⟩
      by_cases ht : t = .handler c
      · subst ht
        rw [Pool.afterOp_prog, update_self, update_self]
        exact hk r
      · rw [Pool.afterOp_prog, update_of_ne ht, update_of_ne ht]
        exact hobliged.1 t
    have hafter := hwrites.after o r
    have ⟨p', hsteps, horderly⟩ := ih r (h.tail trivial hstep) hnext
      (by rw [Pool.afterOp_prog, update_self]) (by rw [update_self]; exact hafter)
      (fun hnone => ?_) (by rw [update_self]; exact hk r)
    · exact ⟨p', (Lts.Steps.single ⟨ch, rfl⟩ hstep).trans hsteps, horderly⟩
    · have hsettled := hnext.2 c
      rw [hnone] at hsettled
      exact ⟨_, .refl _, hsettled⟩

/-- The transcript is in order.  Nothing is owed while the handler waits for a frame or
passes a control point, and what is owed can be written. -/
theorem transcript_orderly (h : (system cfg).Reaches Lts.Any p) (c : ConnId) :
    ∃ turn, Orderly cfg (transcript c p.log).entries turn ∧
      (∀ fd len, p.next (.handler c) = some (ServerOp.mem (.recv fd len)) → turn = .idle) ∧
      (∀ ctl, p.prog (.handler c) = .ret ctl → turn = .idle ∨ turn = .quitting) ∧
      ∀ q, turn = .owing q →
        ∃ p', (system cfg).Steps (fun _ l => ∃ ch, l = .op (.handler c) ch) p p' ∧
          Orderly cfg (transcript c p'.log).entries .idle := by
  have ⟨ds, hobliged⟩ := reachable_obliged h
  have hobeys := hobliged.1 (.handler c)
  refine ⟨_, (hobliged.2 c).orderly, fun fd len hnext => ?_, fun ctl hctl => ?_, fun q hq => ?_⟩
  · have ⟨k, hprog⟩ := Pool.call_of_next hnext
    rw [hprog] at hobeys
    have hallows := (obeys_obligation_call.1 hobeys).1.resolve_left
      fun hwatchdog => (nomatch hwatchdog)
    cases hd : ds (.handler c) with
    | none => rfl
    | quit =>
      rw [hd] at hallows
      exact hallows.elim
    | reply | deliver =>
      refine absurd hallows (Obligation.Writes.no_recv ?_)
      rw [hd]
      trivial
  · rw [hctl] at hobeys
    have hat : ObligedAt (.handler c) ctl (ds (.handler c)) := hobeys
    have hnone : ds (.handler c) = .none ∨ ds (.handler c) = .quit := by
      cases ctl with
      | loop fd => exact Or.inl hat
      | cleanup | watchdog | ended => exact hat
    rcases hnone with hd | hd <;> rw [hd]
    · exact Or.inl rfl
    · exact Or.inr rfl
  · refine obligation_done _ h hobliged rfl (Or.inl ?_)
    cases hd : ds (.handler c) with
    | reply | deliver => trivial
    | none | quit =>
      rw [hd] at hq
      cases hq

/-- In every reachable state, for every connection: its transcript is in order, which
is that every frame but QUIT gets exactly one reply, the one that fits it, before the
handler reads again; nothing is owed while the handler waits for a frame, and what is
owed it can write by operations of its own.  The transcript is what happens: its frames
are those that the handler puts on the connection, its requests those that the client
sent, and a request counts as registered if the connection has a registration of its
own. -/
theorem replies_in_order (h : (system cfg).Reaches Lts.Any p) (c : ConnId) :
    (∃ turn, Orderly cfg (transcript c p.log).entries turn ∧
      (∀ fd len, p.next (.handler c) = some (ServerOp.mem (.recv fd len)) → turn = .idle) ∧
      (∀ ctl, p.prog (.handler c) = .ret ctl → turn = .idle ∨ turn = .quitting) ∧
      ∀ q, turn = .owing q →
        ∃ p', (system cfg).Steps (fun _ l => ∃ ch, l = .op (.handler c) ch) p p' ∧
          Orderly cfg (transcript c p'.log).entries .idle) ∧
    (∀ ch p', (system cfg).step p (.op (.handler c) ch) = some p' →
      ∃ es, (transcript c p'.log).entries = (transcript c p.log).entries ++ es ∧
        (p'.shared.out c).map Written.msg =
          (p.shared.out c).map Written.msg ++ es.filterMap Entry.asFrame) ∧
    (c < p.shared.mem.nextConn → ∃ fs, frameCode.IsLongest (p.shared.mem.sentBytes c) fs ∧
      (transcript c p.log).entries.filterMap Entry.asRequest <+:
        (cutAfter isQuit fs).map Subtype.val ∧
      (LoopEnded (p.prog (.handler c)) ∨ Starved p c →
        (transcript c p.log).entries.filterMap Entry.asRequest =
          (cutAfter isQuit fs).map Subtype.val)) ∧
    ∀ s, (transcript c p.log).mine = some s ↔
      ∃ fd, p.shared.mem.registry.sessions.lookup fd = some s ∧
        p.shared.mem.registeredOn s = c := by
  refine ⟨transcript_orderly h c, fun ch p' hstep => ?_, fun hc => ?_, fun s => ?_⟩
  · have ⟨o, k, r, w, hprog, he, hp'⟩ := Machine.step_op.1 hstep
    subst hp'
    refine ⟨heard (transcript c p.log).mine o r, ?_, transcript_grows h hprog he⟩
    rw [Pool.afterOp_log, transcript_own]
    rfl
  · rw [transcript_requests]
    exact dispatched_cut h hc
  · rw [mine_iff h]
    have ⟨phases, hown⟩ := reachable_owned h
    constructor
    · intro ⟨hlt, hc, hleft⟩
      exact ⟨_, (lookup_iff_not_left h hlt).2 (by rw [hc]; exact hleft), hc⟩
    · intro ⟨fd, hlook, hc⟩
      have hlt := hown.2.1.consistent.allocated fd s hlook
      refine ⟨hlt, hc, ?_⟩
      rw [← hc, ← lookup_iff_not_left h hlt, hown.2.1.consistent.socketFd fd s hlook, hlook]

end Runs

/-- A client asks for the list of users, registers, sends a frame of unknown type and a
malformed message to all, and then says "hi". -/
def repliesRun : List Step :=
  [.env (.accept 4 "10.0.0.1"), .env (.clientSend 0 [5, 0, 0, 0, 0])] ++ turn (.handler 0) 5 ++
  [.env (.clientSend 0 [1, 0, 0, 0, 3, 10, 1, 97])] ++ turn (.handler 0) 6 ++
  [.env (.clientSend 0 [99, 0, 0, 0, 1, 7])] ++ turn (.handler 0) 5 ++
  [.env (.clientSend 0 [2, 0, 0, 0, 1, 7])] ++ turn (.handler 0) 6 ++
  [.env (.clientSend 0 [2, 0, 0, 0, 4, 10, 2, 104, 105])] ++ turn (.handler 0) 8 ++
    [.op (.handler 0) { order := [4] }, .op (.handler 0) {}]

/-- The five frames have their replies. -/
theorem replies_in_order_five :
    ∃ p turn, (system sampleConfig).Reaches Lts.Any p ∧
      Orderly sampleConfig (transcript 0 p.log).entries turn ∧ (turn = .idle ∨ turn = .quitting) ∧
      (transcript 0 p.log).entries.filterMap Entry.asRequest =
        [(5, []), (1, [10, 1, 97]), (99, [7]), (2, [7]), (2, [10, 2, 104, 105])] ∧
      (transcript 0 p.log).entries.filterMap (fun e => e.asFrame.map ServerMsg.code) =
        [some 401, some 200, some 400, some 400, none] := by
  have ⟨p, hp, hrun⟩ := Lts.exists_reaches_of_run (L := system sampleConfig) repliesRun
    (fun p => decide ((p.prog (.handler 0)).returned = some (.loop 4)) &&
      decide ((transcript 0 p.log).entries.filterMap Entry.asRequest =
        [(5, []), (1, [10, 1, 97]), (99, [7]), (2, [7]), (2, [10, 2, 104, 105])]) &&
      decide ((transcript 0 p.log).entries.filterMap (fun e => e.asFrame.map ServerMsg.code) =
        [some 401, some 200, some 400, some 400, none])) (by decide +kernel)
  simp only [Bool.and_eq_true, decide_eq_true_eq, Prog.returned_eq_some] at hrun
  have ⟨⟨turn, horderly, _, hturn, _⟩, _⟩ := replies_in_order hp 0
  exact ⟨p, turn, hp, horderly, hturn _ hrun.1.1, hrun.1.2, hrun.2⟩

end SimpleChat
