import SimpleChat.HandleClient

/-!
# The size of the frames that the server sends

`recv_message` accepts no payload over `MAX_PAYLOAD`, and `send_message` checks
nothing.  The handlers wrap what a client sent in other messages: they add the
sender's name, quote a name in a text, or list the names of all users.

`Answering` is what a handler has taken in for its answer: the frame, the name
of the sender, and whether it has just looked a user up.  `FitsOp` says of one
operation that what the handler answers because of it fits, as a condition on
these and on the registry.  `frames_fit` is the result: in a run whose steps all
meet that condition, no handler sends a frame that the other side rejects.
-/

namespace SimpleChat

open Conc Function Data Data.Proto3

/-! ## Sizes -/

/-- The payload of the message is one that `recv_message` accepts. -/
def Fits (m : ServerMsg) : Prop := m.wireSize ≤ MAX_PAYLOAD

instance (m : ServerMsg) : Decidable (Fits m) := inferInstanceAs (Decidable (_ ≤ _))

/-- A failure text of up to eight bytes below the limit fits. -/
theorem fits_response_false {code : Int} {text : String}
    (hcode : varintFieldSize (int32Bits code) = 3) (h : text.utf8ByteSize + 8 ≤ MAX_PAYLOAD) :
    Fits (response code text false) := by
  unfold Fits MAX_PAYLOAD at *
  have hbound : lenRecordSize text.utf8ByteSize ≤ 16 * 1024 * 1024 - 3 :=
    (lenRecordSize_le_iff (by decide) (by decide)).2 (by omega)
  have hfalse : varintFieldSize (Bool.toNat false) = 0 := rfl
  show varintFieldSize (int32Bits code) + stringSize text + varintFieldSize (Bool.toNat false) ≤ _
  rw [hcode, hfalse]
  unfold stringSize
  split <;> omega

/-- A success text of up to ten bytes below the limit fits. -/
theorem fits_response_true {code : Int} {text : String}
    (hcode : varintFieldSize (int32Bits code) = 3) (h : text.utf8ByteSize + 10 ≤ MAX_PAYLOAD) :
    Fits (response code text true) := by
  unfold Fits MAX_PAYLOAD at *
  have hbound : lenRecordSize text.utf8ByteSize ≤ 16 * 1024 * 1024 - 5 :=
    (lenRecordSize_le_iff (by decide) (by decide)).2 (by omega)
  have htrue : varintFieldSize (Bool.toNat true) = 2 := rfl
  show varintFieldSize (int32Bits code) + stringSize text + varintFieldSize (Bool.toNat true) ≤ _
  rw [hcode, htrue]
  unfold stringSize
  split <;> omega

/-- The order of the users does not change the size of their list. -/
theorem wireSize_allUsers_perm {users users' : List (String × StatusEnum)}
    (h : users.Perm users') :
    (ServerMsg.allUsers ⟨users.map Prod.fst, users.map Prod.snd⟩).wireSize =
      (ServerMsg.allUsers ⟨users'.map Prod.fst, users'.map Prod.snd⟩).wireSize := by
  simp only [ServerMsg.wireSize]
  rw [repeatedStringSize_perm (h.map Prod.fst), packedSize_perm ((h.map Prod.snd).map _)]

/-! ## What a handler has taken in for its answer -/

structure Answering where
  /-- The frame that is being answered. -/
  msgType : UInt8 := 0
  payload : Bytes := []
  /-- The name that was read first: the name of the sender. -/
  sender : String := ""
  /-- The last operation looked a user up. -/
  looked : Bool := false

def Answering.after (q : Answering) : (o : ServerOp) → o.Resp → Answering
  | .mem (.dispatch msgType payload), _ => { msgType := msgType, payload := payload }
  | .mem (.findUser _), _ => { q with looked := true }
  | .mem (.read _), i => if q.looked then { q with looked := false } else { q with sender := i.username }
  | _, _ => { q with looked := false }

/-- What the handler of connection `c` has taken in, read off the history. -/
def answering (c : ConnId) (log : List (Event Server Tid)) : Answering :=
  log.foldl (fun q e => if e.tid = .handler c then q.after e.op e.resp else q) {}

theorem answering_own (c : ConnId) (log : List (Event Server Tid)) (o : ServerOp) (r : o.Resp) :
    answering c (log ++ [⟨.handler c, o, r⟩]) = (answering c log).after o r := by
  simp [answering]

theorem answering_other {c : ConnId} (log : List (Event Server Tid)) {e : Event Server Tid}
    (h : e.tid ≠ .handler c) : answering c (log ++ [e]) = answering c log := by
  simp [answering, h]

/-! ## The condition -/

variable (cfg : Config)

/-- What the handler answers because of its next operation fits. -/
def fitsOp (m : Memory) (ch : Choice) (q : Answering) : ServerOp → Bool
  | .register fd username peerIp =>
    (m.registry.sessions.lookup fd).isSome ||
      if username ∈ m.registry.usernameToFd then decide (username.utf8ByteSize + 36 ≤ MAX_PAYLOAD)
      else if peerIp ∈ m.registry.ipToFd then decide (peerIp.utf8ByteSize + 33 ≤ MAX_PAYLOAD)
      else decide (username.utf8ByteSize + 45 ≤ MAX_PAYLOAD)
  | .mem (.findUser username) =>
    if (m.findUser username).isNone then decide (username.utf8ByteSize + 25 ≤ MAX_PAYLOAD)
    else if q.msgType = MsgType.MESSAGE_DM then decide (username.utf8ByteSize + 21 ≤ MAX_PAYLOAD)
    else true
  | .mem (.read s) =>
    if q.looked = true ∧ q.msgType = MsgType.MESSAGE_DM ∧ (m.heap s).alive = true then
      (cfg.pb.parseMessageDM q.payload).all fun msg =>
        decide (stringSize q.sender + stringSize msg.message ≤ MAX_PAYLOAD)
    else if q.looked = true ∧ q.msgType = MsgType.GET_USER_INFO then
      decide (stringSize (m.heap s).ip + stringSize (m.heap s).username +
        varintFieldSize (int32Bits (m.heap s).status.number) ≤ MAX_PAYLOAD)
    else true
  | .mem .aliveSessions =>
    (m.aliveSessions ch.order).isEmpty || (cfg.pb.parseMessageGeneral q.payload).all fun msg =>
      decide (stringSize msg.message + stringSize q.sender ≤ MAX_PAYLOAD)
  | .mem .listSessions =>
    let users := m.listSessions ch.order
    decide (repeatedStringSize (users.map Prod.fst) +
      packedSize ((users.map Prod.snd).map fun st => int32Bits st.number) ≤ MAX_PAYLOAD)
  | _ => true

/-- The condition on a step: it is no operation of a handler whose answer does
not fit. -/
def fitsStep (p : State) : Step → Bool
  | .op (.handler c) ch =>
    match p.prog (.handler c) with
    | .call o _ => fitsOp cfg p.shared.mem ch (answering c p.log) o
    | .ret _ => true
  | _ => true

def AnswersFit (p : State) (l : Step) : Prop := fitsStep cfg p l = true

instance (p : State) (l : Step) : Decidable (AnswersFit cfg p l) :=
  inferInstanceAs (Decidable (_ = _))

/-! ## The discipline of the handlers -/

/-- The messages that fit because the response to an operation does. -/
def Grants (q : Answering) : (o : ServerOp) → o.Resp → ServerMsg → Prop
  | .mem (.findUser username), none, msg =>
    msg = response StatusCode.USER_NOT_FOUND ("User '" ++ username ++ "' not found") false
  | .mem (.findUser username), some _, msg =>
    q.msgType = MsgType.MESSAGE_DM ∧
      msg = response StatusCode.OK_DM_SENT ("DM sent to " ++ username) true
  | .mem (.read _), i, msg =>
    q.looked = true ∧
      ((q.msgType = MsgType.MESSAGE_DM ∧ i.alive = true ∧ ∃ dm,
          cfg.pb.parseMessageDM q.payload = some dm ∧ msg = .forDm ⟨q.sender, dm.message⟩) ∨
        q.msgType = MsgType.GET_USER_INFO ∧
          msg = .getUserInfoResponse ⟨i.ip, i.username, i.status⟩)
  | .mem .aliveSessions, targets, msg =>
    targets ≠ [] ∧ ∃ mg, cfg.pb.parseMessageGeneral q.payload = some mg ∧
      msg = .broadcastDelivery ⟨mg.message, q.sender⟩
  | .mem .listSessions, users, msg =>
    msg = .allUsers ⟨(cfg.sort users).map Prod.fst, (cfg.sort users).map Prod.snd⟩
  | _, _, _ => False

/-- What a handler has taken in, and the messages that are known to fit. -/
structure AnswerState where
  q : Answering
  granted : ServerMsg → Prop

def AnswerState.after (a : AnswerState) (o : ServerOp) (r : o.Resp) : AnswerState where
  q := a.q.after o r
  granted msg := a.granted msg ∨ Grants cfg a.q o r msg

/-- What a thread may send: a handler sends only messages that fit. -/
def MaySend (t : Tid) (a : AnswerState) (o : ServerOp) : Prop :=
  match t, o with
  | .handler _, .sendLocked _ msg => a.granted msg ∨ Fits msg
  | .handler _, .sendBare _ msg => Fits msg
  | _, _ => True

def limitMonitor (t : Tid) : Prog.Monitor Server AnswerState where
  guard a o := MaySend t a o
  next a o r a' := a' = a.after cfg o r

/-- The program keeps the discipline. -/
abbrev Answers {α : Type} (p : Prog Server α) (c : ConnId) (a : AnswerState) : Prop :=
  p.Obeys (limitMonitor cfg (.handler c)) (fun _ _ => True) a

variable {cfg} in
theorem obeys_limit_call {α : Type} {t : Tid} {o : ServerOp} {k : o.Resp → Prog Server α}
    {a : AnswerState} {post : α → AnswerState → Prop} :
    (Prog.call (S := Server) o k).Obeys (limitMonitor cfg t) post a ↔
      MaySend t a o ∧ ∀ r, (k r).Obeys (limitMonitor cfg t) post (a.after cfg o r) :=
  Prog.obeys_det_call

/-- Nothing is asked of the watchdog. -/
theorem watchdog_limit {α : Type} (p : Prog Server α) (a : AnswerState) :
    p.Obeys (limitMonitor cfg .watchdog) (fun _ _ => True) a := by
  induction p generalizing a with
  | ret x => trivial
  | call o k ih =>
    exact obeys_limit_call.2 ⟨trivial, fun r => ih r _⟩

/-- An operation that sends only what fits. -/
def SendsFit : ServerOp → Prop
  | .sendLocked _ msg => Fits msg
  | .sendBare _ msg => Fits msg
  | _ => True

theorem answers_of_sendsFit {α : Type} {p : Prog Server α} (h : p.Only SendsFit) (c : ConnId)
    (a : AnswerState) : Answers cfg p c a := by
  induction p generalizing a with
  | ret x => trivial
  | call o k ih =>
    refine obeys_limit_call.2 ⟨?_, fun r => ih r (h.2 r) _⟩
    have ho := h.1
    cases o with
    | sendLocked s msg => exact Or.inr ho
    | sendBare fd msg => exact ho
    | mem o => trivial
    | register fd u a => trivial

theorem sendBare_answers {fd : Fd} {c : ConnId} {a : AnswerState} {msg : ServerMsg}
    (h : Fits msg) : Answers cfg (.call (S := Server) (.sendBare fd msg) .ret) c a :=
  obeys_limit_call.2 ⟨h, fun _ => trivial⟩

theorem sendLocked_answers {s : SessionRef} {c : ConnId} {a : AnswerState} {msg : ServerMsg}
    (h : Fits msg) : Answers cfg (.call (S := Server) (.sendLocked s msg) .ret) c a :=
  obeys_limit_call.2 ⟨Or.inr h, fun _ => trivial⟩

section Handlers

variable (fd : Fd) (c : ConnId) (payload : Bytes)

theorem handleRegister_answers (a : AnswerState) : Answers cfg (handleRegister cfg fd payload) c a := by
  unfold handleRegister
  split
  · exact sendBare_answers cfg (by decide)
  · simp only [mem_eq, Prog.call_bind, Prog.ret_bind]
    refine obeys_limit_call.2 ⟨trivial, fun peerIp => ?_⟩
    split
    · exact sendBare_answers cfg (by decide)
    · exact obeys_limit_call.2 ⟨trivial, fun _ => trivial⟩

/-- The handlers that need a registration go on with what they have taken in. -/
theorem withSession_answers {body : SessionRef → Prog Server Unit} {a : AnswerState}
    (h : ∀ s a', a'.q = { a.q with looked := false } → Answers cfg (body s) c a') :
    Answers cfg (withSession fd body) c a := by
  simp only [withSession, mem_eq, Prog.call_bind, Prog.ret_bind]
  refine obeys_limit_call.2 ⟨trivial, fun r => ?_⟩
  cases r with
  | none => exact sendBare_answers cfg (by decide)
  | some s => exact h s _ rfl

theorem maybeRestoreActivity_answers (s : SessionRef) (a : AnswerState) :
    (maybeRestoreActivity s).Obeys (limitMonitor cfg (.handler c))
      (fun _ a' => a'.q = { a.q with looked := false }) a := by
  simp only [maybeRestoreActivity, mem_eq, Prog.call_bind, Prog.ret_bind]
  refine obeys_limit_call.2 ⟨trivial, fun restored => ?_⟩
  cases restored with
  | false =>
    show Prog.Obeys _ _ (Prog.call _ _) _
    exact obeys_limit_call.2 ⟨trivial, fun _ => rfl⟩
  | true =>
    show Prog.Obeys _ _ (Prog.call _ _) _
    refine obeys_limit_call.2 ⟨Or.inr (by decide), fun _ => ?_⟩
    show Prog.Obeys _ _ (Prog.call _ _) _
    exact obeys_limit_call.2 ⟨trivial, fun _ => rfl⟩

theorem handleMessageGeneral_answers {a : AnswerState} (hpayload : a.q.payload = payload) :
    Answers cfg (handleMessageGeneral cfg fd payload) c a := by
  refine withSession_answers cfg fd c fun s a' ha' => ?_
  split
  · exact sendLocked_answers cfg (by decide)
  · rename_i msg hparse
    refine (maybeRestoreActivity_answers cfg c s a').bind fun _ a'' ha'' => ?_
    simp only [mem_eq, Prog.call_bind, Prog.ret_bind]
    refine obeys_limit_call.2 ⟨trivial, fun i => ?_⟩
    refine obeys_limit_call.2 ⟨trivial, fun targets => ?_⟩
    by_cases htargets : targets = []
    · subst htargets
      trivial
    -- The broadcast fits because the operation that collects the targets does.
    have hgrant : ((a''.after cfg (.mem (.read s)) i).after cfg (.mem .aliveSessions)
        targets).granted (.broadcastDelivery ⟨msg.message, i.username⟩) := by
      refine Or.inr ⟨htargets, msg, ?_, ?_⟩
      · simp [AnswerState.after, Answering.after, ha'', ha', hpayload, hparse]
      · simp [AnswerState.after, Answering.after, ha'', ha']
    revert hgrant
    generalize (a''.after cfg (.mem (.read s)) i).after cfg (.mem .aliveSessions) targets = b
    intro hgrant
    clear htargets
    induction targets generalizing b with
    | nil => trivial
    | cons t targets ih =>
      rw [Prog.forM_cons, sendLocked_eq, Prog.call_bind, obeys_limit_call]
      exact ⟨Or.inl hgrant, fun _ => ih _ (Or.inl hgrant)⟩

theorem handleMessageDm_answers {a : AnswerState} (htype : a.q.msgType = MsgType.MESSAGE_DM)
    (hpayload : a.q.payload = payload) : Answers cfg (handleMessageDm cfg fd payload) c a := by
  refine withSession_answers cfg fd c fun s a' ha' => ?_
  split
  · exact sendLocked_answers cfg (by decide)
  · rename_i msg hparse
    refine (maybeRestoreActivity_answers cfg c s a').bind fun _ a'' ha'' => ?_
    simp only [mem_eq, Prog.call_bind, Prog.ret_bind]
    refine obeys_limit_call.2 ⟨trivial, fun i => ?_⟩
    refine obeys_limit_call.2 ⟨trivial, fun dest => ?_⟩
    cases dest with
    | none =>
      simp only [sendResponseDirect_eq]
      exact obeys_limit_call.2 ⟨Or.inl (Or.inr rfl), fun _ => trivial⟩
    | some d =>
      refine obeys_limit_call.2 ⟨trivial, fun j => ?_⟩
      have hsent : ((a''.after cfg (.mem (.read s)) i).after cfg (.mem (.findUser msg.usernameDes))
          (some d)).granted (response StatusCode.OK_DM_SENT ("DM sent to " ++ msg.usernameDes) true) := by
        refine Or.inr ⟨?_, rfl⟩
        simp [AnswerState.after, Answering.after, ha'', ha', htype]
      split
      · rename_i halive
        simp only [sendLocked_eq, sendResponseDirect_eq, Prog.call_bind, Prog.ret_bind]
        refine obeys_limit_call.2 ⟨Or.inl (Or.inr ⟨?_, Or.inl ⟨?_, halive, msg, ?_, ?_⟩⟩), fun _ => ?_⟩
        · simp [AnswerState.after, Answering.after]
        · simp [AnswerState.after, Answering.after, ha'', ha', htype]
        · simp [AnswerState.after, Answering.after, ha'', ha', hpayload, hparse]
        · simp [AnswerState.after, Answering.after, ha'', ha']
        · exact obeys_limit_call.2 ⟨Or.inl (Or.inl (Or.inl hsent)), fun _ => trivial⟩
      · simp only [sendResponseDirect_eq]
        exact obeys_limit_call.2 ⟨Or.inl (Or.inl hsent), fun _ => trivial⟩

theorem handleChangeStatus_answers (a : AnswerState) :
    Answers cfg (handleChangeStatus cfg fd payload) c a := by
  refine withSession_answers cfg fd c fun s a' _ => ?_
  split
  · exact sendLocked_answers cfg (by decide)
  · rename_i cs _
    dsimp only
    split
    · exact sendLocked_answers cfg (by decide)
    · simp only [mem_eq, Prog.call_bind, Prog.ret_bind]
      refine obeys_limit_call.2 ⟨trivial, fun _ => obeys_limit_call.2 ⟨trivial, fun _ => ?_⟩⟩
      have hfits : Fits (response StatusCode.OK_STATUS_CHANGED
          ("Status changed to " ++ statusToDisplay cs.status) true) := by
        cases cs.status <;> simp only [statusToDisplay] <;> decide
      exact sendLocked_answers cfg hfits

theorem handleListUsers_answers (a : AnswerState) :
    Answers cfg (handleListUsers cfg fd payload) c a := by
  refine withSession_answers cfg fd c fun s a' _ => ?_
  split
  · exact sendLocked_answers cfg (by decide)
  · simp only [mem_eq, sendLocked_eq, Prog.call_bind, Prog.ret_bind]
    refine obeys_limit_call.2 ⟨trivial, fun _ => ?_⟩
    refine obeys_limit_call.2 ⟨trivial, fun users => ?_⟩
    exact obeys_limit_call.2 ⟨Or.inl (Or.inr rfl), fun _ => trivial⟩

theorem handleGetUserInfo_answers {a : AnswerState}
    (htype : a.q.msgType = MsgType.GET_USER_INFO) :
    Answers cfg (handleGetUserInfo cfg fd payload) c a := by
  refine withSession_answers cfg fd c fun s a' ha' => ?_
  split
  · exact sendLocked_answers cfg (by decide)
  · simp only [mem_eq, Prog.call_bind, Prog.ret_bind]
    refine obeys_limit_call.2 ⟨trivial, fun _ => ?_⟩
    refine obeys_limit_call.2 ⟨trivial, fun target => ?_⟩
    cases target with
    | none =>
      simp only [sendResponseDirect_eq]
      exact obeys_limit_call.2 ⟨Or.inl (Or.inr rfl), fun _ => trivial⟩
    | some d =>
      refine obeys_limit_call.2 ⟨trivial, fun i => ?_⟩
      simp only [sendLocked_eq]
      refine obeys_limit_call.2 ⟨Or.inl (Or.inr ⟨?_, Or.inr ⟨?_, rfl⟩⟩), fun _ => trivial⟩
      · simp [AnswerState.after, Answering.after]
      · simp [AnswerState.after, Answering.after, ha', htype]

theorem handleQuit_answers (a : AnswerState) : Answers cfg (handleQuit cfg fd payload) c a := by
  simp only [handleQuit, mem_eq, Prog.call_bind, Prog.ret_bind]
  refine obeys_limit_call.2 ⟨trivial, fun session => ?_⟩
  split
  · trivial
  · cases session with
    | none => trivial
    | some s => exact sendLocked_answers cfg (by decide)

/-- The function that handles a frame answers with messages that fit. -/
theorem handleFrame_answers {a : AnswerState} {msgType : UInt8} (htype : a.q.msgType = msgType)
    (hpayload : a.q.payload = payload) : Answers cfg (handleFrame cfg fd msgType payload) c a := by
  unfold handleFrame
  split_ifs with h1 h2 h3 h4 h5 h6 h7
  · exact handleRegister_answers cfg fd c payload a
  · exact handleMessageGeneral_answers cfg fd c payload hpayload
  · exact handleMessageDm_answers cfg fd c payload (htype.trans h3) hpayload
  · exact handleChangeStatus_answers cfg fd c payload a
  · exact handleListUsers_answers cfg fd c payload a
  · exact handleGetUserInfo_answers cfg fd c payload (htype.trans h6)
  · exact handleQuit_answers cfg fd c payload a
  · exact sendBare_answers cfg (by decide)

theorem handleClient_answers (a : AnswerState) : Answers cfg (handleClient cfg fd) c a := by
  simp only [handleClient, mem_eq, Prog.call_bind, Prog.ret_bind]
  refine obeys_limit_call.2 ⟨trivial, fun running => ?_⟩
  cases running with
  | false => trivial
  | true =>
    show Answers cfg (_ >>= _) c _
    have hrecv : ((recvMessage fd).lift recvEmbedding).Only SendsFit :=
      (recvMessage_reads fd).lift fun _ _ => trivial
    refine (answers_of_sendsFit cfg hrecv c _).bind fun frame a' _ => ?_
    cases frame with
    | none => trivial
    | some frame =>
      obtain ⟨msgType, payload⟩ := frame
      refine obeys_limit_call.2 ⟨trivial, fun _ => ?_⟩
      rw [dispatch_eq]
      have hframe : Answers cfg (handleFrame cfg fd msgType payload) c
          (a'.after cfg (.mem (.dispatch msgType payload)) ()) :=
        handleFrame_answers cfg fd c payload rfl rfl
      exact hframe.bind fun _ _ _ => trivial

end Handlers

/-- Every turn of a thread keeps the discipline. -/
theorem program_answers {t : Tid} {ctl : Ctl} {q : Phase} (h : PhaseAt t ctl q) (a : AnswerState) :
    (ctl.program cfg).Obeys (limitMonitor cfg t) (fun _ _ => True) a := by
  match t, ctl, h with
  | .watchdog, _, _ => exact watchdog_limit cfg _ a
  | .handler c, .loop fd, _ => exact handleClient_answers cfg fd c a
  | .handler c, .cleanup fd, _ =>
    exact answers_of_sendsFit cfg (p := handleClientCleanup fd)
      ⟨trivial, fun _ => ⟨trivial, fun _ => trivial⟩⟩ c a
  | .handler _, .ended, _ => trivial

/-! ## Every run -/

/-- The message that an event sends. -/
def sentBy (e : Event Server Tid) : Option ServerMsg :=
  match e.op, e.resp with
  | .sendBare _ msg, _ => some msg
  | .sendLocked _ msg, _ => some msg
  | .register _ username peerIp, r => some (registerReply username peerIp r).2
  | .mem _, _ => none

/-- Every message that a handler has sent fits. -/
def HandlersFit (log : List (Event Server Tid)) : Prop :=
  ∀ e ∈ log, ∀ c, e.tid = .handler c → ∀ msg, sentBy e = some msg → Fits msg

variable {cfg}

/-- What the condition says of an operation is what the handler relies on. -/
theorem grants_fit (hsort : ∀ users, (cfg.sort users).Perm users) {t : Tid} {w w' : World}
    {o : ServerOp} {ch : Choice} {r : o.Resp} {q : Answering} {msg : ServerMsg}
    (he : w.exec cfg t o ch = some (r, w')) (hfit : fitsOp cfg w.mem ch q o = true)
    (hgrant : Grants cfg q o r msg) : Fits msg := by
  cases o with
  | sendBare fd m => exact hgrant.elim
  | sendLocked s m => exact hgrant.elim
  | register fd u a => exact hgrant.elim
  | mem o =>
    cases o with
    | findUser u =>
      cases he
      revert hgrant
      cases hfind : w.mem.findUser u with
      | none =>
        intro hmsg
        have hmsg' : msg = response StatusCode.USER_NOT_FOUND ("User '" ++ u ++ "' not found")
          false := hmsg
        simp only [fitsOp, hfind, Option.isNone_none, if_true, decide_eq_true_eq] at hfit
        rw [hmsg']
        apply fits_response_false rfl
        have hleft : ("User '" : String).utf8ByteSize = 6 := rfl
        have hright : ("' not found" : String).utf8ByteSize = 11 := rfl
        rw [String.utf8ByteSize_append, String.utf8ByteSize_append]
        omega
      | some d =>
        rintro ⟨htype, hmsg⟩
        simp only [fitsOp, hfind, Option.isNone_some, htype, if_true, Bool.false_eq_true, if_false,
          decide_eq_true_eq] at hfit
        rw [hmsg]
        apply fits_response_true rfl
        have hleft : ("DM sent to " : String).utf8ByteSize = 11 := rfl
        rw [String.utf8ByteSize_append]
        omega
    | read s =>
      cases he
      obtain ⟨hlooked, hcases⟩ := hgrant
      rcases hcases with ⟨htype, halive, dm, hparse, hmsg⟩ | ⟨htype, hmsg⟩
      · rw [fitsOp, if_pos ⟨hlooked, htype, halive⟩, hparse] at hfit
        rw [hmsg]
        exact of_decide_eq_true hfit
      · have hne : q.msgType ≠ MsgType.MESSAGE_DM := by
          rw [htype]
          decide
        rw [fitsOp, if_neg fun hdm => hne hdm.2.1, if_pos ⟨hlooked, htype⟩] at hfit
        rw [hmsg]
        exact of_decide_eq_true hfit
    | aliveSessions =>
      obtain ⟨hne, mg, hparse, hmsg⟩ := hgrant
      rw [World.exec, Option.map_eq_some_iff] at he
      obtain ⟨⟨r', m'⟩, hexec, hx⟩ := he
      obtain ⟨hr, _⟩ := Prod.mk.inj hx
      subst hr
      rw [Memory.exec] at hexec
      split at hexec
      · cases hexec
        rw [fitsOp, Bool.or_eq_true, List.isEmpty_iff, hparse] at hfit
        rw [hmsg]
        exact of_decide_eq_true (hfit.resolve_left hne)
      · cases hexec
    | listSessions =>
      rw [World.exec, Option.map_eq_some_iff] at he
      obtain ⟨⟨r', m'⟩, hexec, hx⟩ := he
      obtain ⟨hr, _⟩ := Prod.mk.inj hx
      subst hr
      rw [Memory.exec] at hexec
      split at hexec
      · cases hexec
        simp only [fitsOp, decide_eq_true_eq] at hfit
        rw [show msg = _ from hgrant, Fits, wireSize_allUsers_perm (hsort _)]
        exact hfit
      · cases hexec
    | recv | dispatch | running | getPeerIp | getSession | removeSession | restore | setStatus
      | touch | now | markIdle | close => exact hgrant.elim

/-- The reply that the locked block of `handle_register` sends. -/
theorem registerReply_fits {m : Memory} {ch : Choice} {q : Answering} {fd : Fd} {u a : String}
    (c : ConnId) (hfit : fitsOp cfg m ch q (.register fd u a) = true) :
    Fits (registerReply u a (m.register c fd u a).1).2 := by
  rcases Memory.register_cases m c fd u a with ⟨s, _, he⟩ | ⟨hfd, hu, he⟩ | ⟨hfd, hu, ha, he⟩ |
    ⟨hfd, hu, ha, he⟩ <;> rw [he]
  · show Fits (response _ "Already registered" false)
    decide
  · simp only [fitsOp, Finmap.lookup_eq_none.2 hfd, hu, Option.isSome_none, Bool.false_or, if_true,
      decide_eq_true_eq] at hfit
    apply fits_response_false rfl
    have hleft : ("Username '" : String).utf8ByteSize = 10 := rfl
    have hright : ("' is already taken" : String).utf8ByteSize = 18 := rfl
    rw [String.utf8ByteSize_append, String.utf8ByteSize_append]
    omega
  · simp only [fitsOp, Finmap.lookup_eq_none.2 hfd, hu, ha, Option.isSome_none, Bool.false_or,
      if_true, if_false, decide_eq_true_eq] at hfit
    apply fits_response_false rfl
    have hleft : ("IP " : String).utf8ByteSize = 3 := rfl
    have hright : (" is already registered" : String).utf8ByteSize = 22 := rfl
    rw [String.utf8ByteSize_append, String.utf8ByteSize_append]
    omega
  · simp only [fitsOp, Finmap.lookup_eq_none.2 hfd, hu, ha, Option.isSome_none, Bool.false_or,
      if_false, decide_eq_true_eq] at hfit
    apply fits_response_true rfl
    have hleft : ("Registration successful. Welcome, " : String).utf8ByteSize = 34 := rfl
    have hright : ("!" : String).utf8ByteSize = 1 := rfl
    rw [String.utf8ByteSize_append, String.utf8ByteSize_append]
    omega

/-- What the handlers have taken in is what the history says, and what they
rely on fits. -/
structure WithinLimit (p : State) (as : Tid → AnswerState) : Prop where
  taken : ∀ c, (as (.handler c)).q = answering c p.log
  granted : ∀ c msg, (as (.handler c)).granted msg → Fits msg
  sent : HandlersFit p.log

/-- What a handler sends under the discipline fits. -/
theorem sentBy_fits {t : Tid} {w w' : World} {o : ServerOp} {ch : Choice} {r : o.Resp}
    {c : ConnId} {a : AnswerState} {msg : ServerMsg} (ht : t = .handler c)
    (he : w.exec cfg t o ch = some (r, w')) (hmay : MaySend t a o)
    (hgranted : ∀ msg, a.granted msg → Fits msg) (hfit : fitsOp cfg w.mem ch a.q o = true)
    (hsent : sentBy ⟨t, o, r⟩ = some msg) : Fits msg := by
  subst ht
  cases o with
  | mem o => cases hsent
  | sendBare fd m =>
    cases hsent
    exact hmay
  | sendLocked s m =>
    cases hsent
    exact hmay.elim (hgranted _) id
  | register fd u x =>
    cases hsent
    rw [(World.exec_register.1 he).1]
    exact registerReply_fits c hfit

theorem withinLimit_keeps (hsort : ∀ users, (cfg.sort users).Perm users) :
    Machine.Keeps (machine cfg) (limitMonitor cfg) (fun _ _ _ => True) WithinLimit
      (fun p l => AnswersFit cfg p l ∧ (system cfg).Reaches Lts.Any p) where
  op p as t ch o k r w a' hJ hC hprog he hmay hnext := by
    rw [show a' = (as t).after cfg o r from hnext]
    change p.shared.exec cfg t o ch = some (r, w) at he
    have hfit : ∀ c, t = .handler c → fitsOp cfg p.shared.mem ch (as t).q o = true := by
      intro c ht
      subst ht
      have hstep := hC.1
      rw [AnswersFit, fitsStep, hprog] at hstep
      rw [hJ.taken c]
      exact hstep
    refine ⟨fun c => ?_, fun c msg hmsg => ?_, fun e he' c htid msg hsent => ?_⟩
    · rw [Pool.afterOp_log]
      by_cases ht : t = .handler c
      · subst ht
        rw [update_self, answering_own, ← hJ.taken c]
        rfl
      · rw [update_of_ne (Ne.symm ht), answering_other _ ht, hJ.taken c]
    · by_cases ht : t = .handler c
      · subst ht
        rw [update_self] at hmsg
        rcases hmsg with hmsg | hmsg
        · exact hJ.granted c msg hmsg
        · exact grants_fit hsort he (hfit c rfl) hmsg
      · rw [update_of_ne (Ne.symm ht)] at hmsg
        exact hJ.granted c msg hmsg
    · rw [Pool.afterOp_log] at he'
      rcases List.mem_append.1 he' with hold | hnew
      · exact hJ.sent e hold c htid msg hsent
      · have heq := List.mem_singleton.1 hnew
        subst heq
        have ht : t = .handler c := htid
        refine sentBy_fits ht he hmay (fun m hm => ?_) (hfit c ht) hsent
        rw [ht] at hm
        exact hJ.granted c m hm
  jump p as t ctl hJ hC hprog _ := by
    have ⟨qs, hown⟩ := reachable_owned hC.2
    have hphase := hown.1 t
    rw [hprog] at hphase
    refine ⟨as t, program_answers cfg hphase (as t), ?_⟩
    rw [update_eq_self]
    exact ⟨hJ.taken, hJ.granted, hJ.sent⟩
  env p as e w start hJ _ _ := by
    refine ⟨as, fun _ _ => rfl, fun _ _ _ => trivial, ?_, hJ.granted, ?_⟩
    · rw [Pool.afterEnv_log]
      exact hJ.taken
    · rw [Pool.afterEnv_log]
      exact hJ.sent

/-- In a run in which what every handler answers because of its operations fits,
no handler sends a message whose payload is over the limit. -/
theorem frames_fit (hsort : ∀ users, (cfg.sort users).Perm users) {p : State}
    (h : (system cfg).Reaches (AnswersFit cfg) p) : HandlersFit p.log := by
  have hrun : (system cfg).Reaches
      (fun q l => AnswersFit cfg q l ∧ (system cfg).Reaches Lts.Any q) p :=
    Lts.Steps.strengthen h fun q _ _ hq hC _ => ⟨hC, Lts.Steps.any hq⟩
  have hinit : Machine.Monitored (limitMonitor cfg) (fun _ _ _ => True) WithinLimit
      (system cfg).init fun _ => ⟨{}, fun _ => False⟩ :=
    ⟨fun _ => trivial, fun _ => rfl, fun _ _ hm => hm.elim, fun _ he => nomatch he⟩
  have ⟨as, _, hJ⟩ := (withinLimit_keeps hsort).steps hrun hinit
  exact hJ.sent

/-- "a" registers, and broadcasts "hi". -/
def broadcastRun : List Step :=
  registerRun ++ [.env (.clientSend 0 [2, 0, 0, 0, 4, 10, 2, 104, 105])] ++ turn (.handler 0) 8 ++
    [.op (.handler 0) { order := [4] }, .op (.handler 0) {}]

theorem frames_fit_broadcast :
    ∃ p, (system sampleConfig).Reaches (AnswersFit sampleConfig) p ∧
      (p.shared.out 0).map Written.msg =
        [response StatusCode.OK_REGISTER "Registration successful. Welcome, a!" true,
          .broadcastDelivery ⟨"hi", "a"⟩] ∧
      HandlersFit p.log := by
  have ⟨p, hp, hout⟩ := Lts.exists_reaches_of_runIf (L := system sampleConfig)
    (C := AnswersFit sampleConfig) broadcastRun
    (fun p => decide ((p.shared.out 0).map Written.msg =
      [response StatusCode.OK_REGISTER "Registration successful. Welcome, a!" true,
        .broadcastDelivery ⟨"hi", "a"⟩]))
    (by decide +kernel)
  exact ⟨p, hp, of_decide_eq_true hout, frames_fit (fun users => List.mergeSort_perm users _) hp⟩

/-! ## A frame at the limit -/

/-- `recv` may give at once all that it was asked for. -/
theorem Memory.recv_all {m : Memory} {fd : Fd} {c : ConnId} {bs rest : Bytes} {len : Nat}
    (hfd : m.fds fd = some c) (hpending : (m.conns c).pending = bs ++ rest)
    (hlen : bs.length = len) (hpos : 0 < len) :
    ∃ m', m.recv fd len len = some (some ⟨bs, Nat.le_of_eq hlen⟩, m') ∧
      m' = m.modifyConn c fun conn =>
        { conn with pending := rest, received := conn.received ++ bs } := by
  have hne : (m.conns c).pending ≠ [] := by
    intro hnil
    rw [hpending] at hnil
    have hbs : bs = [] := (List.append_eq_nil_iff.1 hnil).1
    subst hbs
    rw [← hlen] at hpos
    exact absurd hpos (Nat.lt_irrefl 0)
  have hcount : min (max 1 len) len = bs.length := by omega
  refine ⟨_, ?_, rfl⟩
  simp only [Memory.recv, hfd, if_neg hne, Memory.modifyConn]
  simp only [hpending, hcount, List.take_left, List.drop_left]

/-- A client that is registered alone, at the head of its loop. -/
structure Alone (p : State) (c : ConnId) (fd : Fd) (s : SessionRef) (name : String) : Prop where
  prog : p.prog (.handler c) = .ret (.loop fd)
  running : p.shared.mem.running = true
  accepted : c < p.shared.mem.nextConn
  fds : p.shared.mem.fds fd = some c
  eof : (p.shared.mem.conns c).eof = false
  pending : (p.shared.mem.conns c).pending = []
  session : p.shared.mem.getSession fd = some s
  order : p.shared.mem.IterationOrder [fd]
  username : (p.shared.mem.heap s).username = name
  alive : (p.shared.mem.heap s).alive = true
  manual : Memory.autoInactive (p.shared.mem.heap s) = false

/-- The operations with which the handler of `fd` takes in a frame that comes in
two calls of `recv`. -/
def recvActs (fd : Fd) {h payload : Bytes} (hlen : h.length = HEADER_SIZE)
    (hpayload : payload.length = (headerLen h).toNat) : List (Prog.Act Server) :=
  [⟨.mem (.recv fd HEADER_SIZE), some ⟨h, Nat.le_of_eq hlen⟩⟩,
    ⟨.mem (.recv fd (headerLen h).toNat), some ⟨payload, Nat.le_of_eq hpayload⟩⟩]

/-- The operations with which it then broadcasts to its own session. -/
def broadcastActs (fd : Fd) (payload : Bytes) (s : SessionRef) (i : SessionInfo) (text : String) :
    List (Prog.Act Server) :=
  [⟨.mem (.dispatch MsgType.MESSAGE_GENERAL payload), ()⟩, ⟨.mem (.getSession fd), some s⟩,
    ⟨.mem (.restore s), false⟩, ⟨.mem (.touch s), ()⟩, ⟨.mem (.read s), i⟩,
    ⟨.mem .aliveSessions, [s]⟩,
    ⟨.sendLocked s (.broadcastDelivery ⟨text, i.username⟩), ()⟩]

theorem handleClient_trace {fd : Fd} {h payload : Bytes} {s : SessionRef}
    {i : SessionInfo} {msg : MessageGeneral}
    (hlen : h.length = HEADER_SIZE) (hpayload : payload.length = (headerLen h).toNat)
    (hpos : 0 < payload.length) (hmax : payload.length ≤ MAX_PAYLOAD)
    (htype : h.getD 0 0 = MsgType.MESSAGE_GENERAL)
    (hparse : cfg.pb.parseMessageGeneral payload = some msg) :
    (handleClient cfg fd).Trace
      (⟨.mem .running, true⟩ ::
        (recvActs fd hlen hpayload ++ broadcastActs fd payload s i msg.message))
      (.ret (.loop fd)) := by
  have hrecv := (recvMessage_trace fd hlen hpayload hpos hmax).lift recvEmbedding
    (fun _ r => r) fun _ _ => rfl
  refine .cons ((hrecv.bind _).append ?_)
  rw [htype]
  refine .cons (.cons ?_)
  simp only [hparse]
  exact .cons (.cons (.cons (.cons (.cons (.nil _)))))

variable (cfg) in
/-- Two calls of `recv` take a frame in, and change nothing but its connection. -/
theorem execs_recv {w : World} {t : Tid} {c : ConnId} {fd : Fd} {h payload : Bytes}
    (hlen : h.length = HEADER_SIZE) (hpayload : payload.length = (headerLen h).toNat)
    (hpos : 0 < payload.length) (hfd : w.mem.fds fd = some c)
    (hpending : (w.mem.conns c).pending = h ++ payload) :
    ∃ m, Machine.Execs (machine cfg) t w (recvActs fd hlen hpayload) { w with mem := m } ∧
      m.heap = w.mem.heap ∧ m.registry = w.mem.registry := by
  obtain ⟨m₁, hrecv₁, hm₁⟩ := Memory.recv_all hfd hpending hlen (by decide)
  have hpending₁ : (m₁.conns c).pending = payload ++ [] := by
    rw [hm₁, List.append_nil]
    show (update w.mem.conns c _ c).pending = _
    rw [update_self]
  have hfd₁ : m₁.fds fd = some c := by
    rw [hm₁]
    exact hfd
  obtain ⟨m₂, hrecv₂, hm₂⟩ := Memory.recv_all hfd₁ hpending₁ hpayload (by omega)
  have hexec₁ : w.exec cfg t (.mem (.recv fd HEADER_SIZE)) { want := HEADER_SIZE } =
      some (some ⟨h, Nat.le_of_eq hlen⟩, { w with mem := m₁ }) := World.exec_mem hrecv₁
  have hexec₂ : World.exec { w with mem := m₁ } cfg t (.mem (.recv fd (headerLen h).toNat))
      { want := (headerLen h).toNat } =
        some (some ⟨payload, Nat.le_of_eq hpayload⟩, { w with mem := m₂ }) :=
    World.exec_mem (w := { w with mem := m₁ }) hrecv₂
  refine ⟨m₂, .cons _ hexec₁ (.cons _ hexec₂ (.nil _)), ?_, ?_⟩
  · rw [hm₂, hm₁]
    rfl
  · rw [hm₂, hm₁]
    rfl

/-- The only session that is registered is the only target. -/
theorem Alone.targets {p : State} {c : ConnId} {fd : Fd} {s : SessionRef} {name : String}
    (halone : Alone p c fd s name) {m : Memory} (hregistry : m.registry = p.shared.mem.registry)
    (halive : (m.heap s).alive = true) :
    m.IterationOrder [fd] ∧ m.aliveSessions [fd] = [s] := by
  have hlookup : m.registry.sessions.lookup fd = some s := by
    rw [hregistry]
    exact halone.session
  refine ⟨?_, ?_⟩
  · show ([fd] : Multiset Fd) = m.registry.sessions.keys.val
    rw [hregistry]
    exact halone.order
  · have hvisited : m.visited [fd] = [s] := by
      show [fd].filterMap m.registry.sessions.lookup = [s]
      simp [hlookup]
    simp [Memory.aliveSessions, hvisited, halive]

variable (cfg) in
/-- The handler of a client that is registered alone broadcasts to its own session. -/
theorem Alone.execs_broadcast {p : State} {c : ConnId} {fd : Fd} {s : SessionRef} {name : String}
    (halone : Alone p c fd s name) {w : World} (hheap : w.mem.heap = p.shared.mem.heap)
    (hregistry : w.mem.registry = p.shared.mem.registry) (payload : Bytes) (text : String) :
    ∃ w', Machine.Execs (machine cfg) (.handler c) w
      (broadcastActs fd payload s ((w.mem.touch s).heap s) text) w' := by
  let touched : World := { w with mem := w.mem.touch s }
  have hrestore : w.mem.restore s = (false, w.mem) := by
    rw [Memory.restore, hheap, halone.manual]
    rfl
  have halive : (touched.mem.heap s).alive = true := by
    show (update w.mem.heap s _ s).alive = true
    rw [update_self, hheap]
    exact halone.alive
  obtain ⟨horder, htargets⟩ := halone.targets (m := touched.mem) hregistry halive
  have hsession : w.exec cfg (.handler c) (.mem (.getSession fd)) {} =
      some (some s, w) := by
    refine World.exec_mem (m := w.mem) ?_
    rw [← halone.session, Memory.getSession, ← hregistry]
    rfl
  have hmarked : w.exec cfg (.handler c) (.mem (.restore s)) {} = some (false, w) := by
    refine World.exec_mem (m := w.mem) ?_
    rw [← hrestore]
    rfl
  have htouch : w.exec cfg (.handler c) (.mem (.touch s)) {} = some ((), touched) := rfl
  have hsessions : touched.exec cfg (.handler c) (.mem .aliveSessions)
      { order := [fd] } = some ([s], touched) := by
    refine World.exec_mem (m := touched.mem) ?_
    rw [← htargets]
    exact if_pos horder
  exact ⟨_, .cons {} rfl (.cons {} hsession (.cons {} hmarked (.cons {} htouch
    (.cons {} rfl (.cons _ hsessions (.cons {} rfl (.nil _)))))))⟩

/-- A client that is registered alone gets back what it broadcasts. -/
theorem alone_broadcast {p : State} {c : ConnId} {fd : Fd} {s : SessionRef} {name : String}
    {h payload : Bytes} {msg : MessageGeneral} (halone : Alone p c fd s name)
    (hlen : h.length = HEADER_SIZE) (hpayload : payload.length = (headerLen h).toNat)
    (hpos : 0 < payload.length) (hmax : payload.length ≤ MAX_PAYLOAD)
    (htype : h.getD 0 0 = MsgType.MESSAGE_GENERAL)
    (hparse : cfg.pb.parseMessageGeneral payload = some msg) :
    ∃ p', (system cfg).Steps Lts.Any p p' ∧
      (⟨.handler c, .sendLocked s (.broadcastDelivery ⟨msg.message, name⟩), ()⟩ :
        Event Server Tid) ∈ p'.log := by
  -- The client sends the frame, and its handler enters the next turn.
  let w : World := { p.shared with
    mem := p.shared.mem.modifyConn c fun n => { n with pending := n.pending ++ (h ++ payload) } }
  let p₁ : State := p.afterEnv w none
  let p₂ : State := p₁.withProg (.handler c) (handleClient cfg fd)
  have hsend : (system cfg).step p (.env (.clientSend c (h ++ payload))) = some p₁ :=
    Machine.step_env.2 ⟨w, none, if_pos ⟨halone.accepted, halone.eof⟩, rfl⟩
  have hturn : (system cfg).step p₁ (.jump (.handler c)) = some p₂ :=
    Machine.step_jump.2 ⟨.loop fd, halone.prog, rfl⟩
  have hrunning : w.exec cfg (.handler c) (.mem .running) {} = some (true, w) := by
    refine World.exec_mem (m := w.mem) ?_
    rw [← halone.running]
    rfl
  have hpending : (w.mem.conns c).pending = h ++ payload := by
    show (update p.shared.mem.conns c _ c).pending = _
    rw [update_self, halone.pending]
    rfl
  -- It takes the frame in, and broadcasts its text.
  obtain ⟨m, hrecv, hheap, hregistry⟩ :=
    execs_recv cfg (w := w) (t := .handler c) hlen hpayload hpos halone.fds hpending
  obtain ⟨w', hbroadcast⟩ := halone.execs_broadcast cfg (w := { w with mem := m }) hheap hregistry
    payload msg.message
  have hname : ((m.touch s).heap s).username = name := by
    show (update m.heap s _ s).username = name
    rw [update_self, hheap]
    exact halone.username
  have hrun : ∃ p', (system cfg).Steps Lts.Any p₂ p' ∧ p'.prog (.handler c) = .ret (.loop fd) ∧
      p'.shared = w' ∧ p'.log = p₂.log ++ _ :=
    Machine.steps_of_execs (handleClient_trace hlen hpayload hpos hmax htype hparse)
      (update_self _ _ _) (.cons {} hrunning (hrecv.append hbroadcast))
  obtain ⟨p', hsteps, _, _, hlog⟩ := hrun
  refine ⟨p', ((Lts.Steps.single trivial hsend).tail trivial hturn).trans hsteps, ?_⟩
  rw [hlog, ← hname]
  simp [recvActs, broadcastActs]

/-- A text of 16777211 letters: with its tag and its length it fills a payload. -/
@[irreducible] def longText : String := String.ofList (List.replicate 16777211 'x')

/-- The `MessageGeneral` with that text. -/
@[irreducible] def longPayload : Bytes := stringField 1 longText

/-- The server with the protobuf code on that payload. -/
def longConfig : Config :=
  { sampleConfig with
    pb := { sampleProtobuf with
      parseMessageGeneral := fun bs =>
        if bs = longPayload then some ⟨longText, .ACTIVE, "", ""⟩ else none } }

theorem utf8ByteSize_replicate (n : Nat) :
    (String.ofList (List.replicate n 'x')).utf8ByteSize = n := by
  induction n with
  | zero => rfl
  | succ n ih =>
    have hone : (String.ofList ['x']).utf8ByteSize = 1 := rfl
    show (String.ofList (['x'] ++ List.replicate n 'x')).utf8ByteSize = n + 1
    rw [String.ofList_append, String.utf8ByteSize_append, hone, ih]
    omega

theorem stringSize_longText : stringSize longText = MAX_PAYLOAD := by
  have hsize : longText.utf8ByteSize = 16777211 := by
    unfold longText
    exact utf8ByteSize_replicate _
  have hne : longText ≠ "" := by
    intro heq
    rw [heq] at hsize
    cases hsize
  rw [stringSize, if_neg hne, hsize]
  rfl

theorem length_longPayload : longPayload.length = MAX_PAYLOAD := by
  unfold longPayload
  rw [length_stringField, stringSize_longText]

/-- A text that fills the payload it came in leaves no room for a name. -/
theorem not_fits_of_full {text : String} (h : stringSize text = MAX_PAYLOAD) :
    ¬ Fits (.broadcastDelivery ⟨text, "a"⟩) := by
  have hname : stringSize "a" = 3 := rfl
  simp only [Fits, ServerMsg.wireSize, h, hname]
  omega

theorem frames_over_limit :
    ¬ ∀ p, (system longConfig).Reaches Lts.Any p → HandlersFit p.log := by
  intro hall
  have ⟨p, hp, hfacts⟩ := Lts.exists_reaches_of_run (L := system longConfig) registerRun
    (fun p => decide ((p.prog (.handler 0)).returned = some (.loop 4) ∧
      (p.shared.mem.running = true ∧ 0 < p.shared.mem.nextConn) ∧
      (p.shared.mem.fds 4 = some 0 ∧ (p.shared.mem.conns 0).eof = false ∧
        (p.shared.mem.conns 0).pending = []) ∧
      (p.shared.mem.getSession 4 = some 0 ∧ p.shared.mem.IterationOrder [4]) ∧
      (p.shared.mem.heap 0).username = "a" ∧ (p.shared.mem.heap 0).alive = true ∧
      Memory.autoInactive (p.shared.mem.heap 0) = false)) (by decide +kernel)
  have ⟨hprog, ⟨hrunning, hconn⟩, ⟨hfds, heof, hpending⟩, ⟨hsession, horder⟩, huser, halive,
    hmanual⟩ := of_decide_eq_true hfacts
  have halone : Alone p 0 4 0 "a" := ⟨Prog.returned_eq_some.1 hprog, hrunning, hconn, hfds, heof,
    hpending, hsession, horder, huser, halive, hmanual⟩
  have hlen : longPayload.length = (headerLen [2, 1, 0, 0, 0]).toNat := by
    rw [length_longPayload]
    rfl
  have hpos : 0 < longPayload.length := by
    rw [length_longPayload]
    decide
  have hparse : longConfig.pb.parseMessageGeneral longPayload =
      some ⟨longText, .ACTIVE, "", ""⟩ := if_pos rfl
  have ⟨p', hsteps, hmem⟩ := alone_broadcast halone rfl hlen hpos
    (Nat.le_of_eq length_longPayload) rfl hparse
  exact not_fits_of_full stringSize_longText
    (hall p' (hp.steps hsteps) _ hmem 0 rfl _ rfl)

end SimpleChat
