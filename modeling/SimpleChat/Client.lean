import SimpleChat.ChatWindow
import SimpleChat.Framing

/-!
# The client as a transition system

`main` of the client, the event loop with `closeEvent`, `NetworkSender` and
`NetworkThread::run`, as the programs of two threads.  The main thread registers,
shows the window and handles events.  The other thread receives the frames of the
server and queues a signal for each of them.

One step is one call of `recv` or `send`, one access to `running_`, one signal, one
lock or unlock of `send_mutex_`, or one event of the event loop with its slot.  The
socket calls may fail at any time, and `recv` waits while nothing has arrived.

`MainWindow` is touched by the main thread only, so that a slot is one step; the
messages that it sends go out after it.  The wait of two seconds for the other
thread may end either way, so it is no operation.
-/

namespace SimpleChat

open Conc Function

/-! ## Messages and signals -/

/-- The messages that the client sends. -/
inductive ClientRequest where
  | register (m : Register)
  | window (m : ClientMsg)
  | quit (m : Quit)

def ClientRequest.msgType : ClientRequest → UInt8
  | .register _ => MsgType.REGISTER
  | .window m => m.msgType
  | .quit _ => MsgType.QUIT

section Encode

open Data.Proto3

/-- The proto3 encoding of a message under `protos/cliente-side`. -/
def ClientRequest.encode : ClientRequest → Bytes
  | .register m => stringField 1 m.username ++ stringField 2 m.ip
  | .window m => m.encode
  | .quit m => varintField 1 m.quit.toNat ++ stringField 2 m.ip

end Encode

/-- What the client calls of the generated protobuf code.  `none` is a `false`
result. -/
structure ClientProtobuf where
  parseServerResponse : Bytes → Option ServerResponse
  parseAllUsers : Bytes → Option AllUsers
  parseForDm : Bytes → Option ForDm
  parseBroadcastDelivery : Bytes → Option BroadcastDelivery
  parseGetUserInfoResponse : Bytes → Option GetUserInfoResponse
  serialize : ClientRequest → Option Bytes

/-- The signals of `NetworkThread`. -/
inductive Signal where
  | serverResponseReceived (statusCode : Int) (message : String) (isSuccessful : Bool)
  | allUsersReceived (usernames : List String) (statuses : List Int)
  | forDmReceived (senderUsername message : String)
  | broadcastReceived (usernameOrigin message : String)
  | userInfoReceived (ipAddress username : String) (status : Int)
  | connectionLost
  deriving DecidableEq

/-- The `switch` of `NetworkThread::run`: the signal that is emitted for a frame, if
any. -/
def ClientProtobuf.signalOf (pb : ClientProtobuf) (msgType : UInt8) (payload : Bytes) :
    Option Signal :=
  if msgType = MsgType.SERVER_RESPONSE then
    (pb.parseServerResponse payload).map fun resp =>
      .serverResponseReceived resp.statusCode resp.message resp.isSuccessful
  else if msgType = MsgType.ALL_USERS then
    (pb.parseAllUsers payload).map fun all =>
      .allUsersReceived all.usernames (all.status.map StatusEnum.number)
  else if msgType = MsgType.FOR_DM then
    (pb.parseForDm payload).map fun dm => .forDmReceived dm.usernameDes dm.message
  else if msgType = MsgType.BROADCAST_DELIVERY then
    (pb.parseBroadcastDelivery payload).map fun bd => .broadcastReceived bd.usernameOrigin bd.message
  else if msgType = MsgType.GET_USER_INFO_RESPONSE then
    (pb.parseGetUserInfoResponse payload).map fun info =>
      .userInfoReceived info.ipAddress info.username info.status.number
  else none

/-- The slot of `MainWindow` that a signal is connected to, and the messages that it
sends.  The dialog of `onUserInfo` changes nothing. -/
def ChatWindow.onSignal {qt : Qt} (w : ChatWindow qt) : Signal → ChatWindow qt × List ClientMsg
  | .serverResponseReceived statusCode message _ => w.onServerResponse statusCode message
  | .allUsersReceived usernames statuses => (w.onAllUsers usernames statuses, [])
  | .forDmReceived senderUsername message => (w.onForDm senderUsername message, [])
  | .broadcastReceived usernameOrigin message => (w.appendGeneralChat usernameOrigin message, [])
  | .userInfoReceived _ _ _ => (w, [])
  | .connectionLost => (w.onConnectionLost, [])

/-! ## Operations -/

/-- An event of the event loop. -/
inductive GuiEvent where
  /-- What the user does, or the timer of the constructor, which calls
  `onRefreshUsers`. -/
  | user (e : WindowEvent)
  /-- A queued signal. -/
  | signal (s : Signal)
  /-- The user closes the window. -/
  | close
  /-- The application quits, as its last window is closed. -/
  | quit
  deriving DecidableEq

inductive ClientOp where
  /-- The load of `running_`. -/
  | running
  /-- `running_ = false`. -/
  | stopRunning
  | recv (o : RecvOp)
  | send (o : SendOp)
  /-- The beginning and the end of the `lock_guard` on `send_mutex_`. -/
  | lock
  | unlock
  | emit (s : Signal)
  /-- The window is built and shown, and its constructor starts the other thread. -/
  | showWindow
  /-- The other thread begins to run. -/
  | started
  /-- The next event and its slot. -/
  | nextEvent
  /-- `::shutdown(socket_fd_, SHUT_RD)`. -/
  | shutdownRead
  /-- `::shutdown(socket_fd_, SHUT_RDWR)`. -/
  | shutdown
  | close
  deriving DecidableEq

@[reducible] def ClientOp.Resp : ClientOp → Type
  | .running => Bool
  | .recv o => Option {bs : Bytes // bs.length ≤ o.len}
  | .send o => {n : Int // n ≤ o.buf.length}
  | .nextEvent => GuiEvent × List ClientMsg
  | _ => Unit

/-- The signature of the threads of the client. -/
abbrev Client : Sig := ⟨ClientOp, ClientOp.Resp⟩

def clientRecv : Prog.Embedding Recv Client where
  op o := .recv o
  resp _ r := r

def clientSend : Prog.Embedding Send Client where
  op o := .send o
  resp _ r := r

/-- What a client is linked with and started with: the protobuf code, Qt, the
descriptor of its socket, and its name and local address. -/
structure ClientConfig where
  pb : ClientProtobuf
  qt : Qt
  socketFd : Fd
  username : String
  localIp : String

/-! ## Sending -/

variable (cfg : ClientConfig)

/-- `send_message` of a request, with no mutex. -/
def sendRequest (msg : ClientRequest) : Prog Client Bool :=
  (sendMessage cfg.socketFd msg.msgType (cfg.pb.serialize msg)).lift clientSend

namespace NetworkSender

/-- A member function of `NetworkSender`. -/
def send (msg : ClientRequest) : Prog Client Bool := do
  Prog.perform (S := Client) .lock
  let ok ← sendRequest cfg msg
  Prog.perform (S := Client) .unlock
  pure ok

def sendRegister (username ip : String) : Prog Client Bool := send cfg (.register ⟨username, ip⟩)

def sendMessageGeneral (message : String) (status : StatusEnum) (username ip : String) :
    Prog Client Bool :=
  send cfg (.window (.messageGeneral ⟨message, status, username, ip⟩))

def sendMessageDM (message : String) (status : StatusEnum) (destUser ip : String) :
    Prog Client Bool :=
  send cfg (.window (.messageDm ⟨message, status, destUser, ip⟩))

def sendChangeStatus (status : StatusEnum) (username ip : String) : Prog Client Bool :=
  send cfg (.window (.changeStatus ⟨status, username, ip⟩))

def sendListUsers (username ip : String) : Prog Client Bool :=
  send cfg (.window (.listUsers ⟨username, ip⟩))

def sendGetUserInfo (targetUser username ip : String) : Prog Client Bool :=
  send cfg (.window (.getUserInfo ⟨targetUser, username, ip⟩))

def sendQuit (ip : String) : Prog Client Bool := send cfg (.quit ⟨true, ip⟩)

end NetworkSender

/-- A slot sends a message by the function of `net_sender_` that it is for, and does
not look at the result. -/
def sendMsg (msg : ClientMsg) : Prog Client Unit := do
  let _ ←
    match msg with
    | .messageGeneral m =>
      NetworkSender.sendMessageGeneral cfg m.message m.status m.usernameOrigin m.ip
    | .messageDm m => NetworkSender.sendMessageDM cfg m.message m.status m.usernameDes m.ip
    | .changeStatus m => NetworkSender.sendChangeStatus cfg m.status m.username m.ip
    | .listUsers m => NetworkSender.sendListUsers cfg m.username m.ip
    | .getUserInfo m => NetworkSender.sendGetUserInfo cfg m.usernameDes m.username m.ip
  pure ()

/-! ## The programs -/

/-- Where a thread of the client stands. -/
inductive ClientCtl where
  /-- `main`, from its Register message on. -/
  | main
  /-- The event loop. -/
  | events
  /-- The other thread, before the window starts it. -/
  | unstarted
  /-- The head of the loop of `NetworkThread::run`. -/
  | run
  | finished
  deriving DecidableEq

/-- `NetworkThread::stopThread`. -/
def stopThread : Prog Client Unit := do
  Prog.perform (S := Client) .stopRunning
  Prog.perform (S := Client) .shutdownRead

/-- `closeEvent`. -/
def closeEvent : Prog Client Unit := do
  let _ ← NetworkSender.sendQuit cfg cfg.localIp
  stopThread
  Prog.perform (S := Client) .shutdown
  Prog.perform (S := Client) .close

/-- `main`: the Register message, its reply, and the window.  A reply that does not
parse is taken for a success. -/
def clientMain : Prog Client ClientCtl := do
  if !(← sendRequest cfg (.register ⟨cfg.username, cfg.localIp⟩)) then
    Prog.perform (S := Client) .close
    pure .finished
  else
    match ← (recvMessage cfg.socketFd).lift clientRecv with
    | none =>
      Prog.perform (S := Client) .close
      pure .finished
    | some (respType, respPayload) =>
      if respType = MsgType.SERVER_RESPONSE ∧
          (cfg.pb.parseServerResponse respPayload).all ServerResponse.isSuccessful then
        Prog.perform (S := Client) .showWindow
        pure .events
      else
        Prog.perform (S := Client) .close
        pure .finished

/-- One turn of the event loop. -/
def eventLoop : Prog Client ClientCtl := do
  let handled ← Prog.perform (S := Client) .nextEvent
  if handled.1 = .close then
    closeEvent cfg
    pure .events
  else if handled.1 = .quit then pure .finished
  else
    handled.2.forM fun msg => sendMsg cfg msg
    pure .events

/-- One turn of the loop of `NetworkThread::run`. -/
def networkRun : Prog Client ClientCtl := do
  if !(← Prog.perform (S := Client) .running) then pure .finished
  else
    match ← (recvMessage cfg.socketFd).lift clientRecv with
    | none =>
      if ← Prog.perform (S := Client) .running then
        Prog.perform (S := Client) (.emit .connectionLost)
      pure .finished
    | some (msgType, payload) =>
      match cfg.pb.signalOf msgType payload with
      | some signal =>
        Prog.perform (S := Client) (.emit signal)
        pure .run
      | none => pure .run

/-- The program that a thread of the client runs from a control point. -/
def ClientCtl.program : ClientCtl → Prog Client ClientCtl
  | .main => clientMain cfg
  | .events => eventLoop cfg
  | .unstarted => do
    Prog.perform (S := Client) .started
    pure .run
  | .run => networkRun cfg
  | .finished => pure .finished

/-! ## The shared state -/

inductive ClientTid where
  | main
  | network
  deriving DecidableEq

/-- What an operation leaves open: how many bytes a socket call would like to move,
whether it fails, and which event comes next. -/
structure ClientChoice where
  want : Nat := 1
  fails : Bool := false
  event : GuiEvent := .close

/-- The window, the queue of signals, and the socket.  `received`, `wire` and `failed`
are history: the bytes that `recv` has returned, those that `send` has taken, and that
a `send` has failed while the socket was open. -/
structure ClientMemory (qt : Qt) where
  window : ChatWindow qt
  shown : Bool := false
  /-- The window was closed. -/
  closing : Bool := false
  posted : List Signal := []
  running : Bool := true
  sendMutex : Option ClientTid := none
  /-- The bytes that have arrived and `recv` has not returned yet. -/
  pending : Bytes := []
  received : Bytes := []
  /-- The server will send nothing more. -/
  eof : Bool := false
  readShut : Bool := false
  wire : Bytes := []
  failed : Bool := false
  /-- The client will send nothing more. -/
  hungUp : Bool := false
  closed : Bool := false

/-- What the user does, and not the network. -/
def WindowEvent.byUser : WindowEvent → Bool
  | .receive _ => false
  | .connectionLost => false
  | _ => true

/-- The window after an event, and the messages that the slot sends. -/
def ChatWindow.handle {qt : Qt} (w : ChatWindow qt) :
    GuiEvent → Option (ChatWindow qt × List ClientMsg)
  | .user e => w.slot e
  | .signal s => some (w.onSignal s)
  | .close => some (w, [])
  | .quit => some (w, [])

namespace ClientMemory

variable {qt : Qt} (m : ClientMemory qt)

/-- `recv`.  The bytes that have arrived are there after `shutdown`, too. -/
def recv (o : RecvOp) (ch : ClientChoice) :
    Option (Option {bs : Bytes // bs.length ≤ o.len} × ClientMemory qt) :=
  if m.closed ∨ ch.fails then some (none, m)
  else if m.pending = [] then
    if m.eof ∨ m.readShut then some (some ⟨[], Nat.zero_le o.len⟩, m) else none
  else
    let bs := m.pending.take (min (max 1 ch.want) o.len)
    some (some ⟨bs, (List.length_take_le _ _).trans (Nat.min_le_right _ _)⟩,
      { m with pending := m.pending.drop bs.length, received := m.received ++ bs })

/-- `send`. -/
def send (o : SendOp) (ch : ClientChoice) : {n : Int // n ≤ o.buf.length} × ClientMemory qt :=
  if m.hungUp then (⟨-1, o.failed_le⟩, m)
  else if ch.fails then (⟨-1, o.failed_le⟩, { m with failed := true })
  else
    let n := moved ch.want o.buf.length
    (⟨n, o.moved_le ch.want⟩, { m with wire := m.wire ++ o.buf.take n })

/-- The event can come next.  A signal comes if it is the oldest.  What is left of a
closed window are the queued signals and the timer, until the application quits. -/
def ready : GuiEvent → Bool
  | .user e => e.byUser && (!m.closing || e = .refreshUsers)
  | .signal s => m.posted.head? = some s
  | .close => !m.closing
  | .quit => m.closing

/-- The next event, and its slot. -/
def nextEvent (event : GuiEvent) : Option ((GuiEvent × List ClientMsg) × ClientMemory qt) :=
  if m.ready event then
    (m.window.handle event).map fun x => ((event, x.2),
      { m with
        window := x.1
        posted :=
          match event with
          | .signal _ => m.posted.tail
          | _ => m.posted
        closing := m.closing || event = .close })
  else none

/-- The effect and the response of an operation of thread `t`, if it need not wait. -/
def exec (t : ClientTid) : (o : ClientOp) → ClientChoice → Option (o.Resp × ClientMemory qt)
  | .running, _ => some (m.running, m)
  | .stopRunning, _ => some ((), { m with running := false })
  | .recv o, ch => m.recv o ch
  | .send o, ch => some (m.send o ch)
  | .lock, _ => if m.sendMutex = none then some ((), { m with sendMutex := some t }) else none
  | .unlock, _ => some ((), { m with sendMutex := none })
  | .emit s, _ => some ((), { m with posted := m.posted ++ [s] })
  | .showWindow, _ => some ((), { m with shown := true })
  | .started, _ => if m.shown then some ((), m) else none
  | .nextEvent, ch => m.nextEvent ch.event
  | .shutdownRead, _ => some ((), { m with readShut := true })
  | .shutdown, _ => some ((), { m with readShut := true, hungUp := true })
  | .close, _ => some ((), { m with hungUp := true, closed := true })

end ClientMemory

/-- What happens outside the client. -/
inductive ClientEnv where
  /-- Bytes of the server arrive. -/
  | arrive (bs : Bytes)
  /-- The server has closed the connection, or it is broken. -/
  | hangUp

/-- The effect of a step of the environment. -/
def ClientMemory.env {qt : Qt} (m : ClientMemory qt) : ClientEnv → Option (ClientMemory qt)
  | .arrive bs => if m.eof then none else some { m with pending := m.pending ++ bs }
  | .hangUp => some { m with eof := true }

/-- How the threads of the client run. -/
def clientMachine :
    Machine Client ClientTid ClientCtl (ClientMemory cfg.qt) ClientChoice ClientEnv where
  exec t m o ch := m.exec t o ch
  resume _ c := c.program cfg
  env e m := (m.env e).map fun m' => (m', none)

/-- A state of the client. -/
abbrev ClientState (qt : Qt) := Pool Client ClientTid ClientCtl (ClientMemory qt)

abbrev ClientStep := Label ClientTid ClientChoice ClientEnv

/-- The client, from the moment it is connected. -/
def clientSystem : Lts (ClientState cfg.qt) ClientStep :=
  (clientMachine cfg).toLts { window := .setupUi cfg.qt cfg.username cfg.localIp } fun
    | .main => .main
    | .network => .unstarted

/-! ## A client to run -/

/-- The messages of the server in the runs below, in which "a" and "b" register. -/
def sampleReplies : List ServerMsg :=
  [response StatusCode.OK_REGISTER "Registration successful. Welcome, a!" true,
    response StatusCode.OK_REGISTER "Registration successful. Welcome, b!" true,
    .allUsers ⟨["a", "b"], [.ACTIVE, .ACTIVE]⟩,
    .forDm ⟨"a", "hi"⟩,
    .broadcastDelivery ⟨"hi", "a"⟩,
    response StatusCode.OK_DM_SENT "DM sent to b" true]

/-- One of these messages, if the bytes are those of its frame. -/
def sampleReply (msgType : UInt8) (payload : Bytes) : Option ServerMsg :=
  sampleReplies.find? fun msg => msg.msgType = msgType ∧ msg.encode = payload

/-- The protobuf code on the few messages that the runs below use. -/
def sampleClientProtobuf : ClientProtobuf where
  parseServerResponse bs :=
    (sampleReply MsgType.SERVER_RESPONSE bs).bind fun
      | .serverResponse m => some m
      | _ => none
  parseAllUsers bs :=
    (sampleReply MsgType.ALL_USERS bs).bind fun
      | .allUsers m => some m
      | _ => none
  parseForDm bs :=
    (sampleReply MsgType.FOR_DM bs).bind fun
      | .forDm m => some m
      | _ => none
  parseBroadcastDelivery bs :=
    (sampleReply MsgType.BROADCAST_DELIVERY bs).bind fun
      | .broadcastDelivery m => some m
      | _ => none
  parseGetUserInfoResponse _ := none
  serialize msg :=
    match msg with
    | .register m =>
      if m = ⟨"a", "10.0.0.1"⟩ ∨ m = ⟨"b", "10.0.0.2"⟩ then some msg.encode else none
    | .window (.messageGeneral m) =>
      if m = ⟨"hi", .ACTIVE, "a", "10.0.0.1"⟩ then some msg.encode else none
    | .window (.messageDm m) =>
      if m = ⟨"hi", .ACTIVE, "b", "10.0.0.1"⟩ then some msg.encode else none
    | .window (.listUsers m) => if m = ⟨"a", "10.0.0.1"⟩ then some msg.encode else none
    | .quit m => if m = ⟨true, "10.0.0.1"⟩ then some msg.encode else none
    | _ => none

def sampleClient (username localIp : String) : ClientConfig :=
  ⟨sampleClientProtobuf, .plain, 3, username, localIp⟩

/-- Thread `t` passes a control point and performs `n` operations. -/
def clientTurn (t : ClientTid) (n : Nat) : List ClientStep :=
  .jump t :: List.replicate n (.op t { want := 100 })

/-- An event, after which the main thread performs `n` operations. -/
def guiTurn (e : GuiEvent) (n : Nat) : List ClientStep :=
  .jump .main :: .op .main { event := e } :: List.replicate n (.op .main { want := 100 })

/-- The frame of a message arrives. -/
def arrival (msg : ServerMsg) : ClientStep := .env (.arrive (encodeFrame msg.msgType msg.encode))

/-- "a" is welcomed, and gets a message of its own. -/
def welcomeRun : List ClientStep :=
  arrival (response StatusCode.OK_REGISTER "Registration successful. Welcome, a!" true) ::
    clientTurn .main 5 ++ clientTurn .network 1 ++
    arrival (.broadcastDelivery ⟨"hi", "a"⟩) :: clientTurn .network 4 ++
    guiTurn (.signal (.broadcastReceived "a" "hi")) 0 ++ clientTurn .network 1

end SimpleChat
