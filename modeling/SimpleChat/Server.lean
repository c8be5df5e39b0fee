import SimpleChat.Memory
import Mathlib.Data.List.Basic
import Mathlib.Tactic.SplitIfs

/-!
# The threads of the server

The functions of `server.cpp` as programs.  An operation is one access to the
shared state: a block under `sessions_mutex_`, an access to the fields of a
session, one frame on the wire, or a system call.  Each program performs the
operations of its source function in the source's order and with the source's
branches and texts.

`handleClient` and `watchdogLoop` give the body of one turn of their loops.
The program that a thread runs from each control point is `Ctl.program`.
-/

namespace SimpleChat

open Conc

/-! ## Operations -/

/-- The operations on the shared state that write no frame. -/
inductive MemOp where
  | recv (fd : Fd) (len : Nat)
  /-- The `switch` of `handle_client` on a received frame. -/
  | dispatch (msgType : UInt8) (payload : Bytes)
  /-- The load of `running_`. -/
  | running
  | getPeerIp (fd : Fd)
  | getSession (fd : Fd)
  | removeSession (fd : Fd)
  | aliveSessions
  | findUser (username : String)
  | listSessions
  /-- The loads of the fields of a session. -/
  | read (session : SessionRef)
  | restore (session : SessionRef)
  | setStatus (session : SessionRef) (status : StatusEnum)
  | touch (session : SessionRef)
  /-- `steady_clock::now()`. -/
  | now
  | markIdle (now : Int)
  | close (fd : Fd)
  deriving DecidableEq

@[reducible] def MemOp.Resp : MemOp → Type
  | .recv _ len => Option {bs : Bytes // bs.length ≤ len}
  | .dispatch _ _ => Unit
  | .running => Bool
  | .getPeerIp _ => String
  | .getSession _ => Option SessionRef
  | .removeSession _ => Unit
  | .aliveSessions => List SessionRef
  | .findUser _ => Option SessionRef
  | .listSessions => List (String × StatusEnum)
  | .read _ => SessionInfo
  | .restore _ => Bool
  | .setStatus _ _ => Unit
  | .touch _ => Unit
  | .now => Int
  | .markIdle _ => List SessionRef
  | .close _ => Unit

/-- The operations of a thread of the server. -/
inductive ServerOp where
  | mem (o : MemOp)
  /-- `send_message` on a descriptor, with no mutex. -/
  | sendBare (fd : Fd) (msg : ServerMsg)
  /-- `send_locked`. -/
  | sendLocked (session : SessionRef) (msg : ServerMsg)
  /-- The locked block of `handle_register`, with the reply it sends. -/
  | register (fd : Fd) (username peerIp : String)
  deriving DecidableEq

@[reducible] def ServerOp.Resp : ServerOp → Type
  | .mem o => o.Resp
  | .sendBare _ _ => Unit
  | .sendLocked _ _ => Unit
  | .register _ _ _ => Memory.RegisterOutcome

/-- The signature of the threads of the server. -/
abbrev Server : Sig := ⟨ServerOp, ServerOp.Resp⟩

/-- What the server is linked with and configured by: the protobuf code,
`std::sort` on the comparator of `handle_list_users`, and
`idle_timeout_sec_`. -/
structure Config where
  pb : Protobuf
  sort : List (String × StatusEnum) → List (String × StatusEnum)
  idleTimeoutSec : Int

/-! The operations as programs.  Each has the type of its response written
out. -/

def mem (o : MemOp) : Prog Server o.Resp := Prog.perform (S := Server) (.mem o)

abbrev loadRunning : Prog Server Bool := mem .running
abbrev getPeerIp (fd : Fd) : Prog Server String := mem (.getPeerIp fd)
abbrev getSession (fd : Fd) : Prog Server (Option SessionRef) := mem (.getSession fd)
abbrev removeSession (fd : Fd) : Prog Server Unit := mem (.removeSession fd)
abbrev aliveSessions : Prog Server (List SessionRef) := mem .aliveSessions
abbrev findUser (username : String) : Prog Server (Option SessionRef) := mem (.findUser username)
abbrev listSessions : Prog Server (List (String × StatusEnum)) := mem .listSessions
abbrev readSession (s : SessionRef) : Prog Server SessionInfo := mem (.read s)
abbrev restoreStatus (s : SessionRef) : Prog Server Bool := mem (.restore s)
abbrev setStatus (s : SessionRef) (st : StatusEnum) : Prog Server Unit := mem (.setStatus s st)
abbrev touchActivity (s : SessionRef) : Prog Server Unit := mem (.touch s)
abbrev steadyClockNow : Prog Server Int := mem .now
abbrev markIdle (now : Int) : Prog Server (List SessionRef) := mem (.markIdle now)
abbrev closeFd (fd : Fd) : Prog Server Unit := mem (.close fd)

/-- `recv()` among the operations of the server. -/
def recvEmbedding : Prog.Embedding Recv Server where
  op o := .mem (.recv o.fd o.len)
  resp _ r := r

/-! ## Sending -/

/-- `send_locked`. -/
def sendLocked (session : SessionRef) (msg : ServerMsg) : Prog Server Unit :=
  Prog.perform (S := Server) (.sendLocked session msg)

/-- The message that the reply helpers build. -/
def response (code : Int) (msg : String) (success : Bool) : ServerMsg :=
  .serverResponse { statusCode := code, message := msg, isSuccessful := success }

@[simp] theorem response_inj {code code' : Int} {msg msg' : String} {b b' : Bool} :
    response code msg b = response code' msg' b' ↔ code = code' ∧ msg = msg' ∧ b = b' := by
  simp [response]

@[simp] theorem response_ne_forDm {code : Int} {msg : String} {b : Bool} {m : ForDm} :
    response code msg b ≠ .forDm m := by
  simp [response]

/-- `send_response_direct`. -/
def sendResponseDirect (session : SessionRef) (code : Int) (msg : String) (success : Bool) :
    Prog Server Unit :=
  sendLocked session (response code msg success)

/-- `send_response_bare`. -/
def sendResponseBare (fd : Fd) (code : Int) (msg : String) (success : Bool) : Prog Server Unit :=
  Prog.perform (S := Server) (.sendBare fd (response code msg success))

/-- What the locked block of `handle_register` sends before it releases the
mutex: through which session, if any, and which message. -/
def registerReply (username peerIp : String) :
    Memory.RegisterOutcome → Option SessionRef × ServerMsg
  | .alreadyRegistered s =>
    (some s, response StatusCode.BAD_REQUEST "Already registered" false)
  | .usernameTaken =>
    (none, response StatusCode.USERNAME_TAKEN
      ("Username '" ++ username ++ "' is already taken") false)
  | .ipTaken =>
    (none, response StatusCode.IP_TAKEN ("IP " ++ peerIp ++ " is already registered") false)
  | .registered s =>
    (some s, response StatusCode.OK_REGISTER
      ("Registration successful. Welcome, " ++ username ++ "!") true)

section Simp

variable (o : MemOp) (s : SessionRef) (fd : Fd) (msg : ServerMsg) (code : Int) (text : String)
  (success : Bool)

@[simp] theorem mem_eq : mem o = .call (S := Server) (.mem o) .ret := rfl

@[simp] theorem sendLocked_eq :
    sendLocked s msg = .call (S := Server) (.sendLocked s msg) .ret := rfl

@[simp] theorem sendResponseDirect_eq :
    sendResponseDirect s code text success =
      .call (S := Server) (.sendLocked s (response code text success)) .ret := rfl

@[simp] theorem sendResponseBare_eq :
    sendResponseBare fd code text success =
      .call (S := Server) (.sendBare fd (response code text success)) .ret := rfl

end Simp

/-! ## Activity -/

/-- `maybe_restore_activity`. -/
def maybeRestoreActivity (session : SessionRef) : Prog Server Unit := do
  let restored ← restoreStatus session
  if restored then
    sendResponseDirect session StatusCode.STATUS_RESTORED
      "Status restored to ACTIVO after inactivity period" true
  touchActivity session

/-! ## Message handlers -/

variable (cfg : Config)

/-- `handle_register`. -/
def handleRegister (fd : Fd) (payload : Bytes) : Prog Server Unit := do
  match cfg.pb.parseRegister payload with
  | none => sendResponseBare fd StatusCode.BAD_REQUEST "Malformed Register message" false
  | some reg =>
    let peerIp ← getPeerIp fd
    if reg.username = "" then
      sendResponseBare fd StatusCode.BAD_REQUEST "Username cannot be empty" false
    else
      let _ ← Prog.perform (S := Server) (.register fd reg.username peerIp)
      pure ()

/-- The beginning of the handlers that need a registration: reply 401 if the
descriptor has no session. -/
def withSession (fd : Fd) (body : SessionRef → Prog Server Unit) : Prog Server Unit := do
  match ← getSession fd with
  | none => sendResponseBare fd StatusCode.NOT_REGISTERED "Not registered" false
  | some session => body session

/-- `handle_message_general`. -/
def handleMessageGeneral (fd : Fd) (payload : Bytes) : Prog Server Unit :=
  withSession fd fun session => do
    match cfg.pb.parseMessageGeneral payload with
    | none => sendResponseDirect session StatusCode.BAD_REQUEST "Malformed MessageGeneral" false
    | some msg =>
      maybeRestoreActivity session
      let sender := (← readSession session).username
      let broadcast : ServerMsg :=
        .broadcastDelivery { message := msg.message, usernameOrigin := sender }
      let targets ← aliveSessions
      targets.forM fun t => sendLocked t broadcast

/-- `handle_message_dm`. -/
def handleMessageDm (fd : Fd) (payload : Bytes) : Prog Server Unit :=
  withSession fd fun session => do
    match cfg.pb.parseMessageDM payload with
    | none => sendResponseDirect session StatusCode.BAD_REQUEST "Malformed MessageDM" false
    | some msg =>
      maybeRestoreActivity session
      let sender := (← readSession session).username
      match ← findUser msg.usernameDes with
      | none =>
        sendResponseDirect session StatusCode.USER_NOT_FOUND
          ("User '" ++ msg.usernameDes ++ "' not found") false
      | some destSession =>
        let fordm : ServerMsg := .forDm { usernameDes := sender, message := msg.message }
        if (← readSession destSession).alive then
          sendLocked destSession fordm
        sendResponseDirect session StatusCode.OK_DM_SENT ("DM sent to " ++ msg.usernameDes) true

/-- `handle_change_status`. -/
def handleChangeStatus (fd : Fd) (payload : Bytes) : Prog Server Unit :=
  withSession fd fun session => do
    match cfg.pb.parseChangeStatus payload with
    | none => sendResponseDirect session StatusCode.BAD_REQUEST "Malformed ChangeStatus" false
    | some cs =>
      let newStatus := cs.status
      if newStatus ≠ .ACTIVE ∧ newStatus ≠ .DO_NOT_DISTURB ∧ newStatus ≠ .INVISIBLE then
        sendResponseDirect session StatusCode.BAD_REQUEST "Invalid status value" false
      else
        setStatus session newStatus
        touchActivity session
        sendResponseDirect session StatusCode.OK_STATUS_CHANGED
          ("Status changed to " ++ statusToDisplay newStatus) true

/-- `handle_list_users`. -/
def handleListUsers (fd : Fd) (payload : Bytes) : Prog Server Unit :=
  withSession fd fun session => do
    match cfg.pb.parseListUsers payload with
    | none => sendResponseDirect session StatusCode.BAD_REQUEST "Malformed ListUsers" false
    | some _ =>
      touchActivity session
      let users := cfg.sort (← listSessions)
      sendLocked session
        (.allUsers { usernames := users.map Prod.fst, status := users.map Prod.snd })

/-- `handle_get_user_info`. -/
def handleGetUserInfo (fd : Fd) (payload : Bytes) : Prog Server Unit :=
  withSession fd fun session => do
    match cfg.pb.parseGetUserInfo payload with
    | none => sendResponseDirect session StatusCode.BAD_REQUEST "Malformed GetUserInfo" false
    | some gui =>
      touchActivity session
      match ← findUser gui.usernameDes with
      | none =>
        sendResponseDirect session StatusCode.USER_NOT_FOUND
          ("User '" ++ gui.usernameDes ++ "' not found") false
      | some targetSession =>
        let info ← readSession targetSession
        sendLocked session
          (.getUserInfoResponse
            { ipAddress := info.ip, username := info.username, status := info.status })

/-- `handle_quit`. -/
def handleQuit (fd : Fd) (payload : Bytes) : Prog Server Unit := do
  let session ← getSession fd
  match cfg.pb.parseQuit payload with
  | none => pure ()
  | some _ =>
    match session with
    | none => pure ()
    | some session => sendResponseDirect session StatusCode.OK_QUIT "Goodbye!" true

/-! ## The loops -/

/-- Where a thread stands between two turns of its loop. -/
inductive Ctl where
  /-- The head of the loop of `handle_client`. -/
  | loop (fd : Fd)
  /-- The label `cleanup` of `handle_client`. -/
  | cleanup (fd : Fd)
  /-- The head of the loop of `watchdog_loop`. -/
  | watchdog
  /-- The thread has returned. -/
  | ended
  deriving DecidableEq

/-- The `switch` of `handle_client`, and where the thread goes after it. -/
def dispatch (fd : Fd) (msgType : UInt8) (payload : Bytes) : Prog Server Ctl :=
  if msgType = MsgType.REGISTER then do
    handleRegister cfg fd payload
    pure (.loop fd)
  else if msgType = MsgType.MESSAGE_GENERAL then do
    handleMessageGeneral cfg fd payload
    pure (.loop fd)
  else if msgType = MsgType.MESSAGE_DM then do
    handleMessageDm cfg fd payload
    pure (.loop fd)
  else if msgType = MsgType.CHANGE_STATUS then do
    handleChangeStatus cfg fd payload
    pure (.loop fd)
  else if msgType = MsgType.LIST_USERS then do
    handleListUsers cfg fd payload
    pure (.loop fd)
  else if msgType = MsgType.GET_USER_INFO then do
    handleGetUserInfo cfg fd payload
    pure (.loop fd)
  else if msgType = MsgType.QUIT then do
    handleQuit cfg fd payload
    pure (.cleanup fd)
  else do
    sendResponseBare fd StatusCode.BAD_REQUEST "Unknown message type" false
    pure (.loop fd)

/-- The function that the `switch` of `handle_client` calls. -/
def handleFrame (fd : Fd) (msgType : UInt8) (payload : Bytes) : Prog Server Unit :=
  if msgType = MsgType.REGISTER then handleRegister cfg fd payload
  else if msgType = MsgType.MESSAGE_GENERAL then handleMessageGeneral cfg fd payload
  else if msgType = MsgType.MESSAGE_DM then handleMessageDm cfg fd payload
  else if msgType = MsgType.CHANGE_STATUS then handleChangeStatus cfg fd payload
  else if msgType = MsgType.LIST_USERS then handleListUsers cfg fd payload
  else if msgType = MsgType.GET_USER_INFO then handleGetUserInfo cfg fd payload
  else if msgType = MsgType.QUIT then handleQuit cfg fd payload
  else sendResponseBare fd StatusCode.BAD_REQUEST "Unknown message type" false

/-- `dispatch` is the handler of the frame, and QUIT leaves the loop. -/
theorem dispatch_eq (fd : Fd) (msgType : UInt8) (payload : Bytes) :
    dispatch cfg fd msgType payload = (do
      handleFrame cfg fd msgType payload
      pure (if msgType = MsgType.QUIT then .cleanup fd else .loop fd)) := by
  unfold dispatch handleFrame
  split_ifs <;> simp_all [MsgType.REGISTER, MsgType.MESSAGE_GENERAL, MsgType.MESSAGE_DM,
    MsgType.CHANGE_STATUS, MsgType.LIST_USERS, MsgType.GET_USER_INFO, MsgType.QUIT]

/-- What holds of every handler holds of the one that is called. -/
theorem handleFrame_cases {cfg : Config} {fd : Fd} {payload : Bytes}
    {R : Prog Server Unit → Prop} (msgType : UInt8)
    (register : R (handleRegister cfg fd payload))
    (general : R (handleMessageGeneral cfg fd payload))
    (dm : R (handleMessageDm cfg fd payload))
    (changeStatus : R (handleChangeStatus cfg fd payload))
    (listUsers : R (handleListUsers cfg fd payload))
    (getUserInfo : R (handleGetUserInfo cfg fd payload))
    (quit : R (handleQuit cfg fd payload))
    (unknown : R (sendResponseBare fd StatusCode.BAD_REQUEST "Unknown message type" false)) :
    R (handleFrame cfg fd msgType payload) := by
  unfold handleFrame
  split_ifs
  exacts [register, general, dm, changeStatus, listUsers, getUserInfo, quit, unknown]

/-- One turn of the loop of `handle_client`. -/
def handleClient (fd : Fd) : Prog Server Ctl := do
  if !(← loadRunning) then pure (.cleanup fd)
  else
    match ← (recvMessage fd).lift recvEmbedding with
    | none => pure (.cleanup fd)
    | some (msgType, payload) =>
      mem (.dispatch msgType payload)
      dispatch cfg fd msgType payload

/-- What `handle_client` does from the label `cleanup` on. -/
def handleClientCleanup (fd : Fd) : Prog Server Ctl := do
  removeSession fd
  closeFd fd
  pure .ended

/-- One turn of the loop of `watchdog_loop`.  The sleep of ten seconds takes no
access to the state, so it is no operation. -/
def watchdogLoop : Prog Server Ctl := do
  if !(← loadRunning) then pure .ended
  else if !(← loadRunning) then pure .ended
  else
    let now ← steadyClockNow
    let toNotify ← markIdle now
    toNotify.forM fun session =>
      sendResponseDirect session StatusCode.AUTO_INACTIVE
        ("You have been marked INACTIVO due to inactivity (" ++ toString cfg.idleTimeoutSec ++ "s)")
        true
    pure .watchdog

/-- The program that a thread runs from a control point. -/
def Ctl.program : Ctl → Prog Server Ctl
  | .loop fd => handleClient cfg fd
  | .cleanup fd => handleClientCleanup fd
  | .watchdog => watchdogLoop cfg
  | .ended => pure .ended

end SimpleChat
