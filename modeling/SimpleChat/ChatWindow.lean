import SimpleChat.MainWindow
import SimpleChat.Qt

/-!
# The window of the client

The tabs, the list of users, the target of direct messages and the input line of
`MainWindow`, with the slots that read or write them.  `MainWindow` of
`SimpleChat.MainWindow` is the part that keeps the status; `slot_status` says that
the slots do to it what they do there.

The texts of the chats are kept without their time stamps and their markup.  A run
ends with `closeEvent`, which is no step.
-/

namespace SimpleChat

open Conc Function

/-- A line of a chat or of the system log. -/
inductive Line where
  | chat (user message : String)
  | system (message : String)
  deriving DecidableEq

/-- The items of `modeCombo_`. -/
inductive Mode where
  | general
  | dm
  deriving DecidableEq

/-- The index of an item of `modeCombo_`. -/
def Mode.index : Mode → Nat
  | .general => 0
  | .dm => 1

/-- `MainWindow`. -/
structure ChatWindow (qt : Qt) extends MainWindow where
  chatTabs : qt.Tabs
  dmTabs : String → Option Widget
  /-- The widget that `new QTextEdit()` gives next. -/
  nextWidget : Widget
  /-- The lines of the widgets. -/
  lines : Widget → List Line
  /-- The texts of the items of `userList_`. -/
  userList : List String
  dmTargetCombo : qt.Combo
  /-- The current item of `modeCombo_`. -/
  modeCombo : Mode
  messageInput : String
  /-- The input is enabled. -/
  connected : Bool

/-- `MainWindow::statusToDisplay`. -/
def MainWindow.statusToDisplay (status : Int) : String :=
  if status = StatusEnum.ACTIVE.number then "🟢 ACTIVO"
  else if status = StatusEnum.DO_NOT_DISTURB.number then "🔴 OCUPADO"
  else if status = StatusEnum.INVISIBLE.number then "⚫ INACTIVO"
  else "❓ DESCONOCIDO"

/-- The title of the tab of a peer. -/
def dmTitle (peerUser : String) : String := "📩 " ++ peerUser

namespace ChatWindow

variable {qt : Qt}

/-- `generalChat_`. -/
def generalChat : Widget := 0

/-- `systemLog_`. -/
def systemLog : Widget := 1

/-- The window that the constructor sets up. -/
def setupUi (qt : Qt) (username localIp : String) : ChatWindow qt where
  toMainWindow := .ofUser username localIp
  chatTabs := qt.addTab (qt.addTab qt.newTabs generalChat "💬 General") systemLog "🖥️ Sistema"
  dmTabs _ := none
  nextWidget := 2
  lines _ := []
  userList := []
  dmTargetCombo := qt.newCombo
  modeCombo := .general
  messageInput := ""
  connected := true

variable (w : ChatWindow qt)

/-! ## The helper methods -/

/-- `QTextEdit::append`. -/
def append (tab : Widget) (line : Line) : ChatWindow qt :=
  { w with lines := update w.lines tab (w.lines tab ++ [line]) }

/-- `appendSystemMessage`. -/
def appendSystemMessage (msg : String) : ChatWindow qt := w.append systemLog (.system msg)

/-- `appendGeneralChat`. -/
def appendGeneralChat (user msg : String) : ChatWindow qt := w.append generalChat (.chat user msg)

/-- `setCurrentIndex` of the index of a tab, if it has one. -/
def showTab (tab : Widget) : ChatWindow qt :=
  { w with
    chatTabs :=
      match qt.indexOf w.chatTabs tab with
      | some idx => qt.setCurrentTab w.chatTabs idx
      | none => w.chatTabs }

/-- `getOrCreateDmTab`. -/
def getOrCreateDmTab (peerUser : String) : Widget × ChatWindow qt :=
  match w.dmTabs peerUser with
  | some tab => (tab, w)
  | none =>
    (w.nextWidget,
      { w with
        chatTabs := qt.addTab w.chatTabs w.nextWidget (dmTitle peerUser)
        dmTabs := update w.dmTabs peerUser (some w.nextWidget)
        nextWidget := w.nextWidget + 1 })

/-- `appendDmChat`. -/
def appendDmChat (peerUser msg : String) (incoming : Bool) : ChatWindow qt :=
  let created := w.getOrCreateDmTab peerUser
  let label := if incoming then peerUser else w.username
  let appended := created.2.append created.1 (.chat label msg)
  if incoming then appended.showTab created.1 else appended

/-! ## The slots of the user -/

/-- `onSendClicked`. -/
def onSendClicked : ChatWindow qt × List ClientMsg :=
  let text := qt.trimmed w.messageInput
  let target := qt.currentText w.dmTargetCombo
  let msgs := w.toMainWindow.onSendClicked w.modeCombo.index text target
  if text = "" then (w, msgs)
  else
    let cleared := { w with messageInput := "" }
    if w.modeCombo = .general then (cleared, msgs)
    else if target = "" then
      (cleared.appendSystemMessage "⚠ Selecciona un destinatario para DM.", msgs)
    else (cleared.appendDmChat target text false, msgs)

/-- The user that `onUserDoubleClicked` reads in the text of an item. -/
def userOf (qt : Qt) (text : String) : String := qt.trimmed (Qt.firstSection "  " text)

/-- `setCurrentIndex` of the index of a user in `dmTargetCombo_`, if it has one. -/
def selectTarget (user : String) : ChatWindow qt :=
  { w with
    dmTargetCombo :=
      match qt.findText w.dmTargetCombo user with
      | some idx => qt.setCurrentItem w.dmTargetCombo idx
      | none => w.dmTargetCombo }

/-- The tab of a peer becomes the current one. -/
def showDmTab (peerUser : String) : ChatWindow qt :=
  (w.getOrCreateDmTab peerUser).2.showTab (w.getOrCreateDmTab peerUser).1

/-- `onUserDoubleClicked`, on an item with the text `text`. -/
def onUserDoubleClicked (text : String) : ChatWindow qt :=
  if userOf qt text = "" ∨ userOf qt text = w.username then w
  else ({ w with modeCombo := .dm }.selectTarget (userOf qt text)).showDmTab (userOf qt text)

/-- The handler of `tabCloseRequested`. -/
def tabCloseRequested (index : Nat) : ChatWindow qt :=
  if index ≤ 1 then w
  else
    let tabName := qt.tabText w.chatTabs index
    { w with
      dmTabs := update w.dmTabs tabName none
      chatTabs := qt.removeTab w.chatTabs index }

/-! ## The slots of the network -/

/-- `onServerResponse`. -/
def onServerResponse (statusCode : Int) (message : String) : ChatWindow qt × List ClientMsg :=
  let handled := w.toMainWindow.onServerResponse statusCode
  ({ w with toMainWindow := handled.1 }.appendSystemMessage
    ("[Código " ++ toString statusCode ++ "] " ++ message), handled.2)

/-- The text of the entry of a user in `userList_`. -/
def userEntry (name : String) (st : Int) : String :=
  name ++ "  " ++ MainWindow.statusToDisplay st

/-- One turn of the loop of `onAllUsers`. -/
def addUser (name : String) (st : Int) : ChatWindow qt :=
  { w with
    userList := w.userList ++ [userEntry name st]
    dmTargetCombo :=
      if name ≠ w.username then qt.addItem w.dmTargetCombo name else w.dmTargetCombo }

/-- The loop of `onAllUsers`.  A user without a status gets the status 0. -/
def addUsers : List String → List Int → ChatWindow qt → ChatWindow qt
  | [], _, w => w
  | name :: usernames, statuses, w =>
    addUsers usernames statuses.tail (w.addUser name (statuses.headD 0))

/-- `onAllUsers`. -/
def onAllUsers (usernames : List String) (statuses : List Int) : ChatWindow qt :=
  addUsers usernames statuses { w with userList := [], dmTargetCombo := qt.clear w.dmTargetCombo }

/-- `onForDm`. -/
def onForDm (senderUsername message : String) : ChatWindow qt :=
  (w.appendDmChat senderUsername message true).appendSystemMessage
    ("📩 DM recibido de " ++ senderUsername)

/-- `onConnectionLost`. -/
def onConnectionLost : ChatWindow qt :=
  { w with connected := false }.appendSystemMessage "❌ Conexión perdida con el servidor."

/-- A message of the server, at the slot that it is for. -/
def receive : ServerMsg → ChatWindow qt × List ClientMsg
  | .serverResponse m => w.onServerResponse m.statusCode m.message
  | .allUsers m => (w.onAllUsers m.usernames (m.status.map StatusEnum.number), [])
  | .forDm m => (w.onForDm m.usernameDes m.message, [])
  | .broadcastDelivery m => (w.appendGeneralChat m.usernameOrigin m.message, [])
  | .getUserInfoResponse _ => (w, [])

end ChatWindow

/-! ## The runs of the window -/

inductive WindowEvent where
  /-- The user edits the text of `messageInput_`. -/
  | edit (text : String)
  | sendClicked
  | selectMode (mode : Mode)
  /-- The user picks an item of `dmTargetCombo_`. -/
  | selectTarget (index : Nat)
  | selectTab (index : Nat)
  | closeTab (index : Nat)
  /-- The user double-clicks an item of `userList_`. -/
  | doubleClick (row : Nat)
  | refreshUsers
  | showUserInfo (ok : Bool) (target : String)
  | pickStatus (index : Fin 3)
  | receive (msg : ServerMsg)
  | connectionLost
  deriving DecidableEq

namespace ChatWindow

variable {qt : Qt} (w : ChatWindow qt)

/-- The window after an event and the messages that it sends, if the event can
happen.  `dmTargetCombo_` is visible in the mode "DM" only. -/
def slot : WindowEvent → Option (ChatWindow qt × List ClientMsg)
  | .edit text => if w.connected then some ({ w with messageInput := text }, []) else none
  | .sendClicked => if w.connected then some w.onSendClicked else none
  | .selectMode mode => some ({ w with modeCombo := mode }, [])
  | .selectTarget index =>
    if w.modeCombo = .dm ∧ index < (qt.items w.dmTargetCombo).length then
      some ({ w with dmTargetCombo := qt.setCurrentItem w.dmTargetCombo index }, [])
    else none
  | .selectTab index =>
    if index < (qt.tabs w.chatTabs).length then
      some ({ w with chatTabs := qt.setCurrentTab w.chatTabs index }, [])
    else none
  | .closeTab index =>
    if index < (qt.tabs w.chatTabs).length then some (w.tabCloseRequested index, []) else none
  | .doubleClick row => (w.userList[row]?).map fun text => (w.onUserDoubleClicked text, [])
  | .refreshUsers => some (w, w.onRefreshUsers)
  | .showUserInfo ok target => some (w, w.onShowUserInfo ok (qt.trimmed target))
  | .pickStatus index =>
    if w.connected then
      let picked := w.toMainWindow.pick index
      some ({ w with toMainWindow := picked.1 }, picked.2)
    else none
  | .receive msg => some (w.receive msg)
  | .connectionLost => some (w.onConnectionLost, [])

end ChatWindow

/-- The window over the events of a run. -/
def windowSystem (qt : Qt) (username localIp : String) : Lts (ChatWindow qt) WindowEvent where
  init := .setupUi qt username localIp
  step w e := (w.slot e).map Prod.fst

/-! ## What the slots leave alone -/

namespace ChatWindow

variable {qt : Qt} {w w' : ChatWindow qt} {e : WindowEvent}

theorem step_iff {username localIp : String} :
    (windowSystem qt username localIp).step w e = some w' ↔ ∃ msgs, w.slot e = some (w', msgs) := by
  show (w.slot e).map Prod.fst = some w' ↔ _
  rw [Option.map_eq_some_iff]
  constructor
  · intro ⟨x, hx, he⟩
    exact ⟨x.2, by rw [hx, ← he]⟩
  · intro ⟨msgs, hx⟩
    exact ⟨_, hx, rfl⟩

/-- Showing a tab moves no tab. -/
theorem tabs_showTab (hqt : qt.Documented) (tab : Widget) :
    qt.tabs (w.showTab tab).chatTabs = qt.tabs w.chatTabs := by
  unfold showTab
  split
  · exact hqt.tabs_setCurrentTab _ _
  · rfl

/-- A tab that is there becomes the current one. -/
theorem currentTab_showTab (hqt : qt.Documented) {tab : Widget} {title : String}
    (h : (tab, title) ∈ qt.tabs w.chatTabs) :
    ∃ index title', qt.currentTab (w.showTab tab).chatTabs = some index ∧
      (qt.tabs w.chatTabs)[index]? = some (tab, title') := by
  unfold showTab
  cases hindex : qt.indexOf w.chatTabs tab with
  | none => exact absurd h (Qt.indexOf_eq_none hindex title)
  | some index =>
    have ⟨title', htab⟩ := Qt.indexOf_eq_some hindex
    have hlt : index < (qt.tabs w.chatTabs).length := (List.getElem?_eq_some_iff.1 htab).1
    exact ⟨index, title', hqt.currentTab_setCurrentTab _ _ hlt, htab⟩

section

variable (w) (user msg : String) (incoming : Bool)

@[simp] theorem getOrCreateDmTab_status :
    (w.getOrCreateDmTab user).2.toMainWindow = w.toMainWindow := by
  unfold getOrCreateDmTab
  split <;> rfl

@[simp] theorem getOrCreateDmTab_lines : (w.getOrCreateDmTab user).2.lines = w.lines := by
  unfold getOrCreateDmTab
  split <;> rfl

@[simp] theorem getOrCreateDmTab_userList :
    (w.getOrCreateDmTab user).2.userList = w.userList := by
  unfold getOrCreateDmTab
  split <;> rfl

@[simp] theorem getOrCreateDmTab_dmTargetCombo :
    (w.getOrCreateDmTab user).2.dmTargetCombo = w.dmTargetCombo := by
  unfold getOrCreateDmTab
  split <;> rfl

@[simp] theorem getOrCreateDmTab_modeCombo :
    (w.getOrCreateDmTab user).2.modeCombo = w.modeCombo := by
  unfold getOrCreateDmTab
  split <;> rfl

/-- The map holds the tab that the call gives. -/
theorem getOrCreateDmTab_dmTabs :
    (w.getOrCreateDmTab user).2.dmTabs user = some (w.getOrCreateDmTab user).1 := by
  unfold getOrCreateDmTab
  cases h : w.dmTabs user with
  | some tab => exact h
  | none => exact update_self _ _ _

@[simp] theorem appendDmChat_status :
    (w.appendDmChat user msg incoming).toMainWindow = w.toMainWindow := by
  simp only [appendDmChat]
  split <;> exact getOrCreateDmTab_status w user

@[simp] theorem appendDmChat_userList :
    (w.appendDmChat user msg incoming).userList = w.userList := by
  simp only [appendDmChat]
  split <;> exact getOrCreateDmTab_userList w user

@[simp] theorem appendDmChat_dmTargetCombo :
    (w.appendDmChat user msg incoming).dmTargetCombo = w.dmTargetCombo := by
  simp only [appendDmChat]
  split <;> exact getOrCreateDmTab_dmTargetCombo w user

@[simp] theorem onForDm_status : (w.onForDm user msg).toMainWindow = w.toMainWindow :=
  appendDmChat_status w user msg true

@[simp] theorem onUserDoubleClicked_status :
    (w.onUserDoubleClicked user).toMainWindow = w.toMainWindow := by
  unfold onUserDoubleClicked
  split
  · rfl
  · exact getOrCreateDmTab_status _ _

@[simp] theorem onUserDoubleClicked_userList :
    (w.onUserDoubleClicked user).userList = w.userList := by
  unfold onUserDoubleClicked
  split
  · rfl
  · exact getOrCreateDmTab_userList _ _

@[simp] theorem tabCloseRequested_status (index : Nat) :
    (w.tabCloseRequested index).toMainWindow = w.toMainWindow := by
  unfold tabCloseRequested
  split <;> rfl

end

@[simp] theorem onSendClicked_userList (w : ChatWindow qt) :
    w.onSendClicked.1.userList = w.userList := by
  simp only [onSendClicked]
  split_ifs
  · rfl
  · rfl
  · rfl
  · exact appendDmChat_userList _ _ _ _

@[simp] theorem onSendClicked_dmTargetCombo (w : ChatWindow qt) :
    w.onSendClicked.1.dmTargetCombo = w.dmTargetCombo := by
  simp only [onSendClicked]
  split_ifs
  · rfl
  · rfl
  · rfl
  · exact appendDmChat_dmTargetCombo _ _ _ _

@[simp] theorem tabCloseRequested_userList (w : ChatWindow qt) (index : Nat) :
    (w.tabCloseRequested index).userList = w.userList := by
  unfold tabCloseRequested
  split <;> rfl

@[simp] theorem tabCloseRequested_dmTargetCombo (w : ChatWindow qt) (index : Nat) :
    (w.tabCloseRequested index).dmTargetCombo = w.dmTargetCombo := by
  unfold tabCloseRequested
  split <;> rfl

/-- The loop of `onAllUsers` writes the list and the combo box only. -/
theorem addUsers_eq (usernames : List String) (statuses : List Int) (w : ChatWindow qt) :
    ∃ userList combo,
      addUsers usernames statuses w = { w with userList := userList, dmTargetCombo := combo } := by
  induction usernames generalizing statuses w with
  | nil => exact ⟨w.userList, w.dmTargetCombo, rfl⟩
  | cons name usernames ih =>
    have ⟨userList, combo, he⟩ := ih statuses.tail (w.addUser name (statuses.headD 0))
    exact ⟨userList, combo, he⟩

theorem onAllUsers_eq (usernames : List String) (statuses : List Int) :
    ∃ userList combo,
      w.onAllUsers usernames statuses = { w with userList := userList, dmTargetCombo := combo } :=
  addUsers_eq usernames statuses _

theorem onAllUsers_status (w : ChatWindow qt) (usernames : List String) (statuses : List Int) :
    (w.onAllUsers usernames statuses).toMainWindow = w.toMainWindow := by
  have ⟨userList, combo, he⟩ := w.onAllUsers_eq usernames statuses
  rw [he]

/-! ## The part that keeps the status -/

/-- What an event does to the part that keeps the status, and what the window sends. -/
def statusSlot (w : ChatWindow qt) : WindowEvent → MainWindow × List ClientMsg
  | .sendClicked =>
    (w.toMainWindow, w.toMainWindow.onSendClicked w.modeCombo.index (qt.trimmed w.messageInput)
      (qt.currentText w.dmTargetCombo))
  | .refreshUsers => (w.toMainWindow, w.onRefreshUsers)
  | .showUserInfo ok target => (w.toMainWindow, w.onShowUserInfo ok (qt.trimmed target))
  | .pickStatus index => w.toMainWindow.pick index
  | .receive msg => w.toMainWindow.receive msg
  | .edit _ | .selectMode _ | .selectTarget _ | .selectTab _ | .closeTab _ | .doubleClick _
  | .connectionLost => (w.toMainWindow, [])

@[simp] theorem onSendClicked_status : w.onSendClicked.1.toMainWindow = w.toMainWindow := by
  simp only [onSendClicked]
  split_ifs
  · rfl
  · rfl
  · rfl
  · exact appendDmChat_status _ _ _ _

theorem onSendClicked_msgs : w.onSendClicked.2 = w.toMainWindow.onSendClicked w.modeCombo.index
    (qt.trimmed w.messageInput) (qt.currentText w.dmTargetCombo) := by
  simp only [onSendClicked]
  split_ifs <;> rfl

theorem receive_status (msg : ServerMsg) : ((w.receive msg).1.toMainWindow, (w.receive msg).2) =
    w.statusSlot (.receive msg) := by
  cases msg with
  | serverResponse m => rfl
  | allUsers m =>
    exact congrArg (·, []) (onAllUsers_status w m.usernames (m.status.map StatusEnum.number))
  | forDm m => exact congrArg (·, _) (onForDm_status w m.usernameDes m.message)
  | broadcastDelivery m => rfl
  | getUserInfoResponse m => rfl

/-- The slots keep the status as those of `SimpleChat.MainWindow` do, and send the
same. -/
theorem slot_status {x : ChatWindow qt × List ClientMsg} (h : w.slot e = some x) :
    (x.1.toMainWindow, x.2) = w.statusSlot e := by
  cases e with
  | sendClicked =>
    have ⟨_, he⟩ := Option.ite_none_right_eq_some.1 h
    rw [← Option.some.inj he, w.onSendClicked_status, w.onSendClicked_msgs, statusSlot]
  | receive msg =>
    rw [← Option.some.inj h]
    exact w.receive_status msg
  | doubleClick row =>
    have ⟨text, _, he⟩ := Option.map_eq_some_iff.1 h
    have hx : x = (w.onUserDoubleClicked text, []) := he.symm
    rw [hx, onUserDoubleClicked_status, statusSlot]
  | closeTab index =>
    have ⟨_, he⟩ := Option.ite_none_right_eq_some.1 h
    rw [← Option.some.inj he, tabCloseRequested_status, statusSlot]
  | edit | selectTarget | selectTab | pickStatus =>
    have ⟨_, he⟩ := Option.ite_none_right_eq_some.1 h
    rw [← Option.some.inj he]
    rfl
  | selectMode | refreshUsers | showUserInfo | connectionLost =>
    rw [← Option.some.inj h]
    rfl

/-- The own name stays. -/
theorem slot_username {x : ChatWindow qt × List ClientMsg} (h : w.slot e = some x) :
    x.1.username = w.username := by
  have hstatus : x.1.username = (w.statusSlot e).1.username := by rw [← slot_status h]
  rw [hstatus]
  cases e with
  | pickStatus index =>
    show (w.toMainWindow.pick index).1.username = _
    unfold MainWindow.pick
    split <;> rfl
  | receive msg =>
    cases msg with
    | serverResponse m =>
      show (w.toMainWindow.onServerResponse m.statusCode).1.username = _
      unfold MainWindow.onServerResponse
      split_ifs <;> rfl
    | allUsers | forDm | broadcastDelivery | getUserInfoResponse => rfl
  | edit | sendClicked | selectMode | selectTarget | selectTab | closeTab | doubleClick
  | refreshUsers | showUserInfo | connectionLost => rfl

end ChatWindow

end SimpleChat
