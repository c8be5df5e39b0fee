import SimpleChat.HandlerTurns

/-!
# The status in the window of the client

The part of `MainWindow` that keeps the status: `current_status_`, the entry that
`statusCombo_` shows, and the slots that read or write them.  A slot gives the
messages that it sends through `net_sender_`.

`joinedSystem` is one registered client and the server, joined by two queues.
One step is one slot of the window, one handler execution, or one scan of the
watchdog with the frames that it sends.  The server runs the programs of
`SimpleChat.Server`.
-/

namespace SimpleChat

open Conc Function

/-! ## The window -/

/-- The messages that the window sends. -/
inductive ClientMsg where
  | messageGeneral (m : MessageGeneral)
  | messageDm (m : MessageDM)
  | changeStatus (m : ChangeStatus)
  | listUsers (m : ListUsers)
  | getUserInfo (m : GetUserInfo)

def ClientMsg.msgType : ClientMsg → UInt8
  | .messageGeneral _ => MsgType.MESSAGE_GENERAL
  | .messageDm _ => MsgType.MESSAGE_DM
  | .changeStatus _ => MsgType.CHANGE_STATUS
  | .listUsers _ => MsgType.LIST_USERS
  | .getUserInfo _ => MsgType.GET_USER_INFO

section Encode

open Data.Proto3

/-- The proto3 encoding of a message under `protos/cliente-side`. -/
def ClientMsg.encode : ClientMsg → Bytes
  | .messageGeneral m =>
    stringField 1 m.message ++ varintField 2 (int32Bits m.status.number) ++
      stringField 3 m.usernameOrigin ++ stringField 4 m.ip
  | .messageDm m =>
    stringField 1 m.message ++ varintField 2 (int32Bits m.status.number) ++
      stringField 3 m.usernameDes ++ stringField 4 m.ip
  | .changeStatus m =>
    varintField 1 (int32Bits m.status.number) ++ stringField 2 m.username ++ stringField 3 m.ip
  | .listUsers m => stringField 1 m.username ++ stringField 2 m.ip
  | .getUserInfo m => stringField 1 m.usernameDes ++ stringField 2 m.username ++ stringField 3 m.ip

end Encode

/-- `statusCombo_->itemData(index)`. -/
def itemData : Fin 3 → StatusEnum
  | 0 => .ACTIVE
  | 1 => .DO_NOT_DISTURB
  | 2 => .INVISIBLE

/-- What `MainWindow` knows of the status. -/
structure MainWindow where
  username : String
  localIp : String
  currentStatus : StatusEnum := .ACTIVE
  /-- `statusCombo_->currentIndex()`. -/
  statusCombo : Fin 3 := 0

namespace MainWindow

/-- The window that the constructor gives. -/
def ofUser (username localIp : String) : MainWindow := { username, localIp }

variable (w : MainWindow)

/-- The status that `statusCombo_` shows. -/
def selected : StatusEnum := itemData w.statusCombo

/-- `onSendClicked`.  `text` is the trimmed input, and `target` the current text of
`dmTargetCombo_`. -/
def onSendClicked (mode : Nat) (text target : String) : List ClientMsg :=
  if text = "" then []
  else if mode = 0 then [.messageGeneral ⟨text, w.currentStatus, w.username, w.localIp⟩]
  else if target = "" then []
  else [.messageDm ⟨text, w.currentStatus, target, w.localIp⟩]

/-- `onRefreshUsers`. -/
def onRefreshUsers : List ClientMsg := [.listUsers ⟨w.username, w.localIp⟩]

/-- `onShowUserInfo`, with what the dialog gave. -/
def onShowUserInfo (ok : Bool) (target : String) : List ClientMsg :=
  if ok ∧ target ≠ "" then [.getUserInfo ⟨target, w.username, w.localIp⟩] else []

/-- `onChangeStatus`. -/
def onChangeStatus (index : Fin 3) : List ClientMsg :=
  let newStatus := itemData index
  if newStatus = w.currentStatus then []
  else [.changeStatus ⟨newStatus, w.username, w.localIp⟩]

/-- The user picks an entry of `statusCombo_`, which emits `currentIndexChanged` if
the index is another one. -/
def pick (index : Fin 3) : MainWindow × List ClientMsg :=
  if index = w.statusCombo then (w, [])
  else ({ w with statusCombo := index }, w.onChangeStatus index)

/-- The status and the entry, set with the signals of `statusCombo_` blocked. -/
def setStatus (status : StatusEnum) (index : Fin 3) : MainWindow :=
  { w with currentStatus := status, statusCombo := index }

/-- `onServerResponse`. -/
def onServerResponse (statusCode : Int) : MainWindow × List ClientMsg :=
  if statusCode = StatusCode.OK_STATUS_CHANGED ∨ statusCode = StatusCode.STATUS_RESTORED then
    (if statusCode = StatusCode.AUTO_INACTIVE then w.setStatus .INVISIBLE 2
      else if statusCode = StatusCode.STATUS_RESTORED then w.setStatus .ACTIVE 0
      else if statusCode = StatusCode.OK_STATUS_CHANGED then
        { w with currentStatus := itemData w.statusCombo }
      else w,
      w.onRefreshUsers)
  else if statusCode = StatusCode.AUTO_INACTIVE then (w.setStatus .INVISIBLE 2, [])
  else (w, [])

/-- A message from the server: the slots other than `onServerResponse` leave the
status as it is. -/
def receive : ServerMsg → MainWindow × List ClientMsg
  | .serverResponse m => w.onServerResponse m.statusCode
  | _ => (w, [])

end MainWindow

/-! ## The client and the server -/

/-- The window, the server, and what is in flight between them. -/
structure Joined where
  window : MainWindow
  mem : Memory
  toServer : List (UInt8 × Bytes)
  toClient : List ServerMsg

inductive JoinedEvent where
  | pick (index : Fin 3)
  | sendClicked (mode : Nat) (text target : String)
  | refreshUsers
  | showUserInfo (ok : Bool) (target : String)
  /-- A message is delivered to its slot. -/
  | deliver
  /-- The handler of the client receives a frame and handles it. -/
  | handle (chs : List Choice)
  /-- One turn of the loop of `watchdog_loop`. -/
  | scan (chs : List Choice)
  | tick (d : Nat)

/-- The frames that go to the client with session `s`, among those that its own
handler or the watchdog writes. -/
def writtenTo (s : SessionRef) (l : List Written) : List ServerMsg :=
  l.filterMap fun x => if x.via = none ∨ x.via = some s then some x.msg else none

variable (cfg : Config)

/-- What joins the client and the server: the protobuf code of the client, and the
registration. -/
structure Link where
  serialize : ClientMsg → Option Bytes
  fd : Fd
  username : String
  /-- The address that the server sees. -/
  peerIp : String
  /-- The address that the client gives. -/
  localIp : String

namespace Joined

variable (link : Link) (p : Joined)

/-- `net_sender_` writes the frames of the messages that the protobuf code
serializes. -/
def send (msgs : List ClientMsg) : Joined :=
  { p with
    toServer := p.toServer ++ msgs.filterMap fun m =>
      (link.serialize m).map fun payload => (m.msgType, payload) }

/-- The window after a slot, and the messages that it sends. -/
def after (x : MainWindow × List ClientMsg) : Joined := { p with window := x.1 }.send link x.2

/-- The client has connection 0 and session 0. -/
def step : JoinedEvent → Option Joined
  | .pick index => some (p.after link (p.window.pick index))
  | .sendClicked mode text target => some (p.send link (p.window.onSendClicked mode text target))
  | .refreshUsers => some (p.send link p.window.onRefreshUsers)
  | .showUserInfo ok target => some (p.send link (p.window.onShowUserInfo ok target))
  | .deliver =>
    match p.toClient with
    | [] => none
    | msg :: rest => some ({ p with toClient := rest }.after link (p.window.receive msg))
  | .handle chs =>
    match p.toServer with
    | [] => none
    | f :: rest =>
      ((machine cfg).runAlone (.handler 0) chs (handleFrame cfg link.fd f.1 f.2)
        ⟨p.mem, fun _ => []⟩).map fun x =>
          { p with
            mem := x.2.2.mem
            toServer := rest
            toClient := p.toClient ++ writtenTo 0 (writtenBy x.1) }
  | .scan chs =>
    ((machine cfg).runAlone .watchdog chs (watchdogLoop cfg) ⟨p.mem, fun _ => []⟩).map fun x =>
      { p with mem := x.2.2.mem, toClient := p.toClient ++ writtenTo 0 (writtenBy x.1) }
  | .tick d => some { p with mem := { p.mem with clock := p.mem.clock + d } }

end Joined

/-- The server after it has accepted and registered the client. -/
def Link.registered (link : Link) : Memory :=
  ((Memory.init.accept link.fd link.peerIp).register 0 link.fd link.username link.peerIp).2

/-- One registered client and the server. -/
def joinedSystem (link : Link) : Lts Joined JoinedEvent where
  init := ⟨{ username := link.username, localIp := link.localIp }, link.registered, [], []⟩
  step p e := p.step cfg link e

end SimpleChat
