import SimpleChat.Data.Pages
import SimpleChat.DmTabs
import SimpleChat.Requests

/-!
# The window of a running client

The slots that the event loop calls are those of `windowSystem`
(`ChatWindow.handle_slot`), so that the window of a running client is one of its
reachable states (`window_reachable`), with the invariants of the modules before.

`chats_show` says what the user reads: the general chat holds the broadcasts that were
delivered, and the pages of a peer hold the direct messages of both sides, in order.
-/

namespace SimpleChat

open Conc Function Data

/-! ## Messages and signals -/

/-- The signal of a message. -/
def ServerMsg.signal : ServerMsg → Signal
  | .serverResponse m => .serverResponseReceived m.statusCode m.message m.isSuccessful
  | .allUsers m => .allUsersReceived m.usernames (m.status.map StatusEnum.number)
  | .forDm m => .forDmReceived m.usernameDes m.message
  | .broadcastDelivery m => .broadcastReceived m.usernameOrigin m.message
  | .getUserInfoResponse m => .userInfoReceived m.ipAddress m.username m.status.number

/-- The message of a frame, if it parses. -/
def ClientProtobuf.parse (pb : ClientProtobuf) (msgType : UInt8) (payload : Bytes) :
    Option ServerMsg :=
  if msgType = MsgType.SERVER_RESPONSE then (pb.parseServerResponse payload).map .serverResponse
  else if msgType = MsgType.ALL_USERS then (pb.parseAllUsers payload).map .allUsers
  else if msgType = MsgType.FOR_DM then (pb.parseForDm payload).map .forDm
  else if msgType = MsgType.BROADCAST_DELIVERY then
    (pb.parseBroadcastDelivery payload).map .broadcastDelivery
  else if msgType = MsgType.GET_USER_INFO_RESPONSE then
    (pb.parseGetUserInfoResponse payload).map .getUserInfoResponse
  else none

theorem ClientProtobuf.signalOf_eq (pb : ClientProtobuf) (msgType : UInt8) (payload : Bytes) :
    pb.signalOf msgType payload = (pb.parse msgType payload).map ServerMsg.signal := by
  unfold signalOf parse
  split_ifs <;> first | rfl | rw [Option.map_map]; rfl

/-- The value of a number. -/
def StatusEnum.ofNumber (n : Int) : StatusEnum :=
  if h : n < 0 ∨ 2 < n then .unrecognized n h
  else if n = 0 then .ACTIVE
  else if n = 1 then .DO_NOT_DISTURB
  else .INVISIBLE

theorem StatusEnum.number_ofNumber (n : Int) : (ofNumber n).number = n := by
  unfold ofNumber
  split_ifs with h h0 h1
  · rfl
  · exact h0.symm
  · exact h1.symm
  · show (2 : Int) = n
    omega

/-- The event of the window that the slot of a signal is. -/
def Signal.event : Signal → WindowEvent
  | .serverResponseReceived statusCode message isSuccessful =>
    .receive (.serverResponse ⟨statusCode, message, isSuccessful⟩)
  | .allUsersReceived usernames statuses =>
    .receive (.allUsers ⟨usernames, statuses.map StatusEnum.ofNumber⟩)
  | .forDmReceived senderUsername message => .receive (.forDm ⟨senderUsername, message⟩)
  | .broadcastReceived usernameOrigin message =>
    .receive (.broadcastDelivery ⟨message, usernameOrigin⟩)
  | .userInfoReceived ipAddress username status =>
    .receive (.getUserInfoResponse ⟨ipAddress, username, .ofNumber status⟩)
  | .connectionLost => .connectionLost

namespace ChatWindow

variable {qt : Qt}

/-- The slots of the network are those of the signals. -/
theorem slot_event (w : ChatWindow qt) (s : Signal) : w.slot s.event = some (w.onSignal s) := by
  cases s with
  | allUsersReceived usernames statuses =>
    have hnumbers : (statuses.map StatusEnum.ofNumber).map StatusEnum.number = statuses := by
      rw [List.map_map]
      exact (List.map_congr_left fun n _ => StatusEnum.number_ofNumber n).trans (List.map_id _)
    show some (w.onAllUsers usernames ((statuses.map StatusEnum.ofNumber).map _), []) = _
    rw [hnumbers]
    rfl
  | serverResponseReceived | forDmReceived | broadcastReceived | userInfoReceived
  | connectionLost => rfl

/-- An event of the event loop is one of the window, or it leaves the window alone. -/
theorem handle_slot {w : ChatWindow qt} {e : GuiEvent} {x : ChatWindow qt × List ClientMsg}
    (h : w.handle e = some x) : x = (w, []) ∨ ∃ e', w.slot e' = some x := by
  cases e with
  | user e => exact Or.inr ⟨e, h⟩
  | signal s => exact Or.inr ⟨s.event, (w.slot_event s).trans h⟩
  | close | quit => exact Or.inl (Option.some.inj h).symm

end ChatWindow

/-! ## The window over whole runs -/

/-- Only the event loop touches the window. -/
theorem ClientMemory.exec_window {qt : Qt} {m m' : ClientMemory qt} {t : ClientTid} {o : ClientOp}
    {ch : ClientChoice} {r : o.Resp} (h : m.exec t o ch = some (r, m')) (ho : o ≠ .nextEvent) :
    m'.window = m.window := by
  cases o with
  | recv o => rw [(recv_spec h).2.1]
  | send o =>
    have hm : m.send o ch = (r, m') := Option.some.inj h
    rw [show m' = (m.send o ch).2 by rw [hm]]
    rcases m.send_spec o ch with ⟨_, hspec⟩ | ⟨n, _, _, _, _, hspec⟩ <;> rw [hspec]
  | nextEvent => exact absurd rfl ho
  | lock | started =>
    have ⟨_, h⟩ := Option.ite_none_right_eq_some.1 h
    cases h
    rfl
  | running | stopRunning | unlock | emit | showWindow | shutdownRead | shutdown | close =>
    cases h
    rfl

theorem responses_other {e : ClientEvent} (h : e.op ≠ .nextEvent) : responses [e] = [] := by
  obtain ⟨t, o, r⟩ := e
  cases o with
  | nextEvent => exact absurd rfl h
  | running | stopRunning | recv | send | lock | unlock | emit | showWindow | started
  | shutdownRead | shutdown | close => rfl

variable {cfg : ClientConfig}

/-- The rule for the window of a running client: what each event keeps, with the history
of the events, holds in every reachable state. -/
theorem window_invariant {I : ChatWindow cfg.qt → List (GuiEvent × List ClientMsg) → Prop}
    {C : ClientState cfg.qt → ClientStep → Prop} {p : ClientState cfg.qt}
    (h : (clientSystem cfg).Reaches C p)
    (h0 : I (.setupUi cfg.qt cfg.username cfg.localIp) [])
    (hstep : ∀ w rs e x, I w rs → ChatWindow.handle w e = some x →
      (∀ e', e = .user e' → e'.byUser = true) → I x.1 (rs ++ [(e, x.2)])) :
    I p.shared.window (responses p.log) := by
  refine h.invariant (I := fun p => I p.shared.window (responses p.log)) h0 fun p l p' _ hI _ hs => ?_
  cases l with
  | op t ch =>
    have ⟨o, k, r, m, _, he, hp'⟩ := Machine.step_op.1 hs
    rw [hp']
    show I m.window (responses (p.log ++ [⟨t, o, r⟩]))
    rw [responses_append]
    change p.shared.exec t o ch = some (r, m) at he
    by_cases ho : o = .nextEvent
    · subst ho
      have ⟨hevent, hready, hhandle, _⟩ := ClientMemory.nextEvent_spec he
      have huser : ∀ e', ch.event = .user e' → e'.byUser = true := by
        intro e' he'
        rw [he'] at hready
        exact (Bool.and_eq_true_iff.1 hready).1
      have hr : responses [(⟨t, .nextEvent, r⟩ : ClientEvent)] = [(ch.event, r.2)] := by
        rw [← hevent]
        rfl
      rw [hr]
      exact hstep _ _ _ _ hI hhandle huser
    · have hother : responses [(⟨t, o, r⟩ : ClientEvent)] = [] := responses_other ho
      rw [hother, List.append_nil, ClientMemory.exec_window he ho]
      exact hI
  | jump t =>
    have ⟨c, _, hp'⟩ := Machine.step_jump.1 hs
    rw [hp']
    exact hI
  | env e =>
    have ⟨m, start, he, hp'⟩ := Machine.step_env.1 hs
    have ⟨m', he', hm⟩ := Option.map_eq_some_iff.1 he
    cases hm
    rw [hp']
    have hwindow : m.window = p.shared.window := by
      cases e with
      | arrive bs =>
        have ⟨_, he'⟩ := Option.ite_none_left_eq_some.1 he'
        cases he'
        rfl
      | hangUp =>
        cases he'
        rfl
    show I m.window (responses p.log)
    rw [hwindow]
    exact hI

/-- The window of a running client is a reachable state of `windowSystem`. -/
theorem window_reachable {C : ClientState cfg.qt → ClientStep → Prop} {p : ClientState cfg.qt}
    (h : (clientSystem cfg).Reaches C p) :
    (windowSystem cfg.qt cfg.username cfg.localIp).Reaches Lts.Any p.shared.window := by
  refine window_invariant
    (I := fun w _ => (windowSystem cfg.qt cfg.username cfg.localIp).Reaches Lts.Any w) h .init ?_
  intro w rs e x hw hx _
  rcases ChatWindow.handle_slot hx with rfl | ⟨e', hslot⟩
  · exact hw
  · exact hw.tail (l := e') trivial (ChatWindow.step_iff.2 ⟨x.2, hslot⟩)

/-- The window of "a" after a message. -/
theorem window_reachable_welcome :
    ∃ p : ClientState (sampleClient "a" "10.0.0.1").qt,
      (clientSystem (sampleClient "a" "10.0.0.1")).Reaches Lts.Any p ∧
        (windowSystem .plain "a" "10.0.0.1").Reaches Lts.Any p.shared.window ∧
        p.shared.window.lines ChatWindow.generalChat = [.chat "a" "hi"] := by
  have ⟨p, hp, hrun⟩ := Lts.exists_reaches_of_run (L := clientSystem (sampleClient "a" "10.0.0.1"))
    welcomeRun (fun p => decide (p.shared.window.lines ChatWindow.generalChat = [.chat "a" "hi"]))
    (by decide +kernel)
  exact ⟨p, hp, window_reachable hp, of_decide_eq_true hrun⟩

/-! ## The chats -/

/-- The line of the general chat, if the slot of the signal adds one. -/
def Signal.generalLine : Signal → Option Line
  | .broadcastReceived usernameOrigin message => some (.chat usernameOrigin message)
  | _ => none

/-- The line of a direct message and its peer, if the event adds one: a message of the
peer, or one that the user `me` has sent. -/
def dmLine (me : String) : GuiEvent × List ClientMsg → Option (String × Line)
  | (.signal (.forDmReceived senderUsername message), _) =>
    some (senderUsername, .chat senderUsername message)
  | (.user .sendClicked, [.messageDm m]) => some (m.usernameDes, .chat me m.message)
  | _ => none

/-- The direct messages with a peer. -/
def conversation (me : String) (rs : List (GuiEvent × List ClientMsg)) (peerUser : String) :
    List Line :=
  rs.filterMap fun r => (dmLine me r).bind fun x => if x.1 = peerUser then some x.2 else none

theorem conversation_none {me : String} {rs : List (GuiEvent × List ClientMsg)}
    {r : GuiEvent × List ClientMsg} (h : dmLine me r = none) :
    conversation me (rs ++ [r]) = conversation me rs := by
  funext u
  unfold conversation
  rw [List.filterMap_append]
  simp [h]

theorem conversation_some {me u : String} {rs : List (GuiEvent × List ClientMsg)}
    {r : GuiEvent × List ClientMsg} {line : Line} (h : dmLine me r = some (u, line)) :
    conversation me (rs ++ [r]) =
      update (conversation me rs) u (conversation me rs u ++ [line]) := by
  funext v
  unfold conversation
  rw [List.filterMap_append, update_apply]
  by_cases hv : v = u
  · simp [h, hv]
  · simp [h, hv, Ne.symm hv]

namespace ChatWindow

variable {qt : Qt} (w : ChatWindow qt)

/-- The widgets of the peers, with the lines. -/
def pages : Pages String Line := ⟨w.dmTabs, w.nextWidget, w.lines⟩

theorem pages_getOrCreateDmTab (u : String) :
    (w.getOrCreateDmTab u).1 = w.pages.page u ∧
      (w.getOrCreateDmTab u).2.pages = w.pages.openPage u := by
  unfold getOrCreateDmTab Pages.page Pages.openPage
  cases h : w.dmTabs u with
  | some tab =>
    have hkey : w.pages.keys u = some tab := h
    rw [hkey]
    exact ⟨rfl, rfl⟩
  | none =>
    have hkey : w.pages.keys u = none := h
    rw [hkey]
    exact ⟨rfl, rfl⟩

theorem pages_appendDmChat (u msg : String) (incoming : Bool) :
    (w.appendDmChat u msg incoming).pages =
      w.pages.post u (.chat (if incoming then u else w.username) msg) := by
  have ⟨hpage, hopen⟩ := w.pages_getOrCreateDmTab u
  have hpost : ((w.getOrCreateDmTab u).2.append (w.getOrCreateDmTab u).1
      (.chat (if incoming then u else w.username) msg)).pages =
        w.pages.post u (.chat (if incoming then u else w.username) msg) := by
    rw [Pages.post, ← hopen, ← hpage]
    rfl
  rw [← hpost]
  simp only [appendDmChat]
  split <;> rfl

theorem pages_onUserDoubleClicked (text : String) :
    (w.onUserDoubleClicked text).pages = w.pages ∨
      ∃ u, (w.onUserDoubleClicked text).pages = w.pages.openPage u := by
  unfold onUserDoubleClicked
  split
  · exact Or.inl rfl
  · refine Or.inr ⟨userOf qt text, ?_⟩
    exact And.right <| pages_getOrCreateDmTab _ _

theorem pages_tabCloseRequested (index : Nat) :
    (w.tabCloseRequested index).pages = w.pages ∨
      ∃ u, (w.tabCloseRequested index).pages = w.pages.forget u := by
  unfold tabCloseRequested
  split
  · exact Or.inl rfl
  · exact Or.inr ⟨_, rfl⟩

/-- `onSendClicked` adds a line to the chat of a peer where it sends a direct message. -/
theorem pages_onSendClicked :
    (w.onSendClicked.1.pages = w.pages ∨
        ∃ line, w.onSendClicked.1.pages = w.pages.append systemLog line) ∧
      dmLine w.username (.user .sendClicked, w.onSendClicked.2) = none ∨
    ∃ u line, w.onSendClicked.1.pages = w.pages.post u line ∧
      dmLine w.username (.user .sendClicked, w.onSendClicked.2) = some (u, line) := by
  simp only [onSendClicked, MainWindow.onSendClicked]
  by_cases htext : qt.trimmed w.messageInput = ""
  · rw [if_pos htext, if_pos htext]
    exact Or.inl ⟨Or.inl rfl, rfl⟩
  · simp only [if_neg htext]
    cases hmode : w.modeCombo with
    | general => exact Or.inl ⟨Or.inl rfl, rfl⟩
    | dm =>
      simp only [Mode.index, one_ne_zero, reduceCtorEq, if_false]
      by_cases htarget : qt.currentText w.dmTargetCombo = ""
      · simp only [if_pos htarget]
        exact Or.inl ⟨Or.inr ⟨_, rfl⟩, rfl⟩
      · simp only [if_neg htarget]
        exact Or.inr ⟨qt.currentText w.dmTargetCombo, _, pages_appendDmChat _ _ _ _, rfl⟩

/-- What an event does to the pages: it may change an entry, or add lines. -/
inductive PagesStep (w : ChatWindow qt) (r : GuiEvent × List ClientMsg) : Pages String Line → Prop
  | same (hline : dmLine w.username r = none)
    (hsignal : r.1.asSignal.bind Signal.generalLine = none) : PagesStep w r w.pages
  | openPage (u : String) (hline : dmLine w.username r = none)
    (hsignal : r.1.asSignal.bind Signal.generalLine = none) : PagesStep w r (w.pages.openPage u)
  | forget (u : String) (hline : dmLine w.username r = none)
    (hsignal : r.1.asSignal.bind Signal.generalLine = none) : PagesStep w r (w.pages.forget u)
  | log (line : Line) (hline : dmLine w.username r = none)
    (hsignal : r.1.asSignal.bind Signal.generalLine = none) :
    PagesStep w r (w.pages.append systemLog line)
  | general (line : Line) (hline : dmLine w.username r = none)
    (hsignal : r.1.asSignal.bind Signal.generalLine = some line) :
    PagesStep w r (w.pages.append generalChat line)
  | sent (u : String) (line : Line) (hline : dmLine w.username r = some (u, line))
    (hsignal : r.1.asSignal.bind Signal.generalLine = none) : PagesStep w r (w.pages.post u line)
  | received (u : String) (line entry : Line) (hline : dmLine w.username r = some (u, line))
    (hsignal : r.1.asSignal.bind Signal.generalLine = none) :
    PagesStep w r ((w.pages.post u line).append systemLog entry)

variable {w}

theorem slot_pages {e : WindowEvent} {x : ChatWindow qt × List ClientMsg} (h : w.slot e = some x)
    (huser : e.byUser = true) : PagesStep w (.user e, x.2) x.1.pages := by
  cases e with
  | sendClicked =>
    have ⟨_, he⟩ := Option.ite_none_right_eq_some.1 h
    rw [← Option.some.inj he]
    rcases w.pages_onSendClicked with ⟨hpages | ⟨line, hpages⟩, hline⟩ | ⟨u, line, hpages, hline⟩
    · rw [hpages]
      exact .same hline rfl
    · rw [hpages]
      exact .log line hline rfl
    · rw [hpages]
      exact .sent u line hline rfl
  | doubleClick row =>
    have ⟨text, _, he⟩ := Option.map_eq_some_iff.1 h
    rw [← he]
    rcases w.pages_onUserDoubleClicked text with hpages | ⟨u, hpages⟩
    · rw [hpages]
      exact .same rfl rfl
    · rw [hpages]
      exact .openPage u rfl rfl
  | closeTab index =>
    have ⟨_, he⟩ := Option.ite_none_right_eq_some.1 h
    rw [← Option.some.inj he]
    rcases w.pages_tabCloseRequested index with hpages | ⟨u, hpages⟩
    · rw [hpages]
      exact .same rfl rfl
    · rw [hpages]
      exact .forget u rfl rfl
  | edit | selectTarget | selectTab | pickStatus =>
    have ⟨_, he⟩ := Option.ite_none_right_eq_some.1 h
    rw [← Option.some.inj he]
    exact .same rfl rfl
  | selectMode | refreshUsers | showUserInfo =>
    rw [← Option.some.inj h]
    exact .same rfl rfl
  | receive | connectionLost => cases huser

theorem onSignal_pages (w : ChatWindow qt) (s : Signal) :
    PagesStep w (.signal s, (w.onSignal s).2) (w.onSignal s).1.pages := by
  cases s with
  | serverResponseReceived | connectionLost => exact .log _ rfl rfl
  | allUsersReceived usernames statuses =>
    have ⟨userList, combo, he⟩ := w.onAllUsers_eq usernames statuses
    show PagesStep w _ (w.onAllUsers usernames statuses).pages
    rw [he]
    exact .same rfl rfl
  | forDmReceived u message =>
    have hpages : (w.onSignal (.forDmReceived u message)).1.pages =
        (w.pages.post u (.chat u message)).append systemLog (.system ("📩 DM recibido de " ++ u)) := by
      rw [show w.pages.post u (.chat u message) = _ from
        (w.pages_appendDmChat u message true).symm]
      rfl
    rw [hpages]
    exact .received u _ _ rfl rfl
  | broadcastReceived u message => exact .general _ rfl rfl
  | userInfoReceived => exact .same rfl rfl

/-- The signals have slots of their own, and the user has the others. -/
theorem handle_pages {e : GuiEvent} {x : ChatWindow qt × List ClientMsg} (h : w.handle e = some x)
    (huser : ∀ e', e = .user e' → e'.byUser = true) : PagesStep w (e, x.2) x.1.pages := by
  cases e with
  | user e => exact slot_pages h (huser e rfl)
  | signal s =>
    rw [← Option.some.inj h]
    exact onSignal_pages w s
  | close | quit =>
    rw [← Option.some.inj h]
    exact .same rfl rfl

/-- What the chats show after the events `rs`. -/
structure Shows (w : ChatWindow qt) (me : String) (rs : List (GuiEvent × List ClientMsg)) :
    Prop where
  username : w.username = me
  general : w.pages.lines generalChat =
    (rs.filterMap fun r => r.1.asSignal).filterMap Signal.generalLine
  dms : w.pages.Holds 2 (conversation me rs)

/-- What the pages hold after an event. -/
theorem PagesStep.holds {r : GuiEvent × List ClientMsg} {b : Pages String Line}
    (hstep : PagesStep w r b) {rs : List (GuiEvent × List ClientMsg)}
    (h : w.pages.Holds 2 (conversation w.username rs)) :
    b.lines generalChat =
        w.pages.lines generalChat ++ (r.1.asSignal.bind Signal.generalLine).toList ∧
      b.Holds 2 (conversation w.username (rs ++ [r])) := by
  have hlog : ∀ (b : Pages String Line) line,
      (b.append systemLog line).lines generalChat = b.lines generalChat :=
    fun b line => b.append_lines_of_ne (by decide) line
  cases hstep with
  | same hline hsignal =>
    rw [hsignal, conversation_none hline]
    exact ⟨(List.append_nil _).symm, h⟩
  | openPage u hline hsignal =>
    rw [hsignal, conversation_none hline]
    refine ⟨?_, h.openPage u⟩
    rw [Pages.openPage_lines]
    exact (List.append_nil _).symm
  | forget u hline hsignal =>
    rw [hsignal, conversation_none hline]
    exact ⟨(List.append_nil _).symm, h.forget u⟩
  | log line hline hsignal =>
    rw [hsignal, conversation_none hline, hlog]
    exact ⟨(List.append_nil _).symm, h.append (by decide) line⟩
  | general line hline hsignal =>
    rw [hsignal, conversation_none hline]
    exact ⟨w.pages.append_lines_self generalChat line, h.append (by decide) line⟩
  | sent u line hline hsignal =>
    rw [hsignal, conversation_some hline]
    exact ⟨(h.lines_post u line (by decide)).trans (List.append_nil _).symm, h.post u line⟩
  | received u line entry hline hsignal =>
    rw [hsignal, conversation_some hline, hlog]
    exact ⟨(h.lines_post u line (by decide)).trans (List.append_nil _).symm,
      (h.post u line).append (by decide) entry⟩

/-- An event adds to the chats what it says. -/
theorem Shows.handle {me : String} {rs : List (GuiEvent × List ClientMsg)} {e : GuiEvent}
    {x : ChatWindow qt × List ClientMsg} (h : w.Shows me rs) (hx : w.handle e = some x)
    (huser : ∀ e', e = .user e' → e'.byUser = true) : x.1.Shows me (rs ++ [(e, x.2)]) := by
  have husername : x.1.username = me := by
    rcases handle_slot hx with rfl | ⟨e', hslot⟩
    · exact h.username
    · exact (slot_username hslot).trans h.username
  have hdms := h.dms
  rw [← h.username] at hdms
  have ⟨hgeneral, hholds⟩ := (handle_pages hx huser).holds hdms
  refine ⟨husername, ?_, h.username ▸ hholds⟩
  rw [hgeneral, h.general, List.filterMap_append, List.filterMap_append]
  congr 1
  cases hs : e.asSignal with
  | none => simp [hs]
  | some s => cases hline : s.generalLine <;> simp [hs, hline]

end ChatWindow

theorem guiEvents_eq (log : List ClientEvent) : guiEvents log = (responses log).map Prod.fst := by
  unfold guiEvents responses
  rw [List.map_filterMap]
  refine List.filterMap_congr fun e _ => ?_
  obtain ⟨t, o, r⟩ := e
  cases o <;> rfl

/-- The chats of a running client show what its history says. -/
theorem reachable_shows {C : ClientState cfg.qt → ClientStep → Prop} {p : ClientState cfg.qt}
    (h : (clientSystem cfg).Reaches C p) :
    p.shared.window.Shows cfg.username (responses p.log) :=
  window_invariant (I := fun w rs => w.Shows cfg.username rs) h ⟨rfl, rfl, Pages.holds_empty 2⟩
    fun _ _ _ _ hw hx huser => hw.handle hx huser

/-- The general chat holds the broadcasts whose slots were called. -/
theorem general_lines {C : ClientState cfg.qt → ClientStep → Prop} {p : ClientState cfg.qt}
    (h : (clientSystem cfg).Reaches C p) :
    p.shared.window.lines ChatWindow.generalChat =
      (delivered p.log).filterMap Signal.generalLine := by
  refine (reachable_shows h).general.trans ?_
  rw [delivered, guiEvents_eq, List.filterMap_map]
  rfl

/-- In every reachable state of the client, the general chat holds the broadcasts whose
signals were delivered, one line for each, in order, and the pages that were made for a
peer hold the direct messages from and to this peer, in order, across the tabs that were
closed in between. -/
theorem chats_show {C : ClientState cfg.qt → ClientStep → Prop} {p : ClientState cfg.qt}
    (h : (clientSystem cfg).Reaches C p) :
    p.shared.window.lines ChatWindow.generalChat =
        (delivered p.log).filterMap Signal.generalLine ∧
      p.shared.window.pages.Holds 2 (conversation cfg.username (responses p.log)) :=
  ⟨general_lines h, (reachable_shows h).dms⟩

/-- "b" gets a message to all and a direct message of "a", closes the tab of "a", and gets
another direct message. -/
def reopenedRun : List ClientStep :=
  arrival (response StatusCode.OK_REGISTER "Registration successful. Welcome, b!" true) ::
    clientTurn .main 5 ++ clientTurn .network 1 ++
    arrival (.broadcastDelivery ⟨"hi", "a"⟩) :: clientTurn .network 4 ++
    guiTurn (.signal (.broadcastReceived "a" "hi")) 0 ++
    arrival (.forDm ⟨"a", "hi"⟩) :: clientTurn .network 4 ++
    guiTurn (.signal (.forDmReceived "a" "hi")) 0 ++ guiTurn (.user (.closeTab 2)) 0 ++
    arrival (.forDm ⟨"a", "hi"⟩) :: clientTurn .network 4 ++
    guiTurn (.signal (.forDmReceived "a" "hi")) 0

/-- The page of "a" holds both direct messages, and it is no tab any more. -/
theorem chats_show_welcome :
    ∃ p : ClientState (sampleClient "b" "10.0.0.2").qt,
      (clientSystem (sampleClient "b" "10.0.0.2")).Reaches Lts.Any p ∧
        delivered p.log =
          [.broadcastReceived "a" "hi", .forDmReceived "a" "hi", .forDmReceived "a" "hi"] ∧
        p.shared.window.lines ChatWindow.generalChat =
          (delivered p.log).filterMap Signal.generalLine ∧
        conversation "b" (responses p.log) "a" = [.chat "a" "hi", .chat "a" "hi"] ∧
        p.shared.window.pages.Holds 2 (conversation "b" (responses p.log)) ∧
        p.shared.window.lines 2 = [.chat "a" "hi", .chat "a" "hi"] ∧
        (Qt.plain.tabs p.shared.window.chatTabs).length = 2 := by
  have ⟨p, hp, hrun⟩ := Lts.exists_reaches_of_run (L := clientSystem (sampleClient "b" "10.0.0.2"))
    reopenedRun
    (fun p => decide (delivered p.log =
        [.broadcastReceived "a" "hi", .forDmReceived "a" "hi", .forDmReceived "a" "hi"] ∧
      conversation "b" (responses p.log) "a" = [.chat "a" "hi", .chat "a" "hi"] ∧
      p.shared.window.lines 2 = [.chat "a" "hi", .chat "a" "hi"] ∧
      (Qt.plain.tabs p.shared.window.chatTabs).length = 2))
    (by decide +kernel)
  obtain ⟨hsignals, hconversation, hlines, htabs⟩ := of_decide_eq_true hrun
  obtain ⟨hgeneral, hpages⟩ := chats_show hp
  exact ⟨p, hp, hsignals, hgeneral, hconversation, hpages, hlines, htabs⟩

end SimpleChat
