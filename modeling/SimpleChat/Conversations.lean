import SimpleChat.Chat

/-!
# Conversations

The way of a text: the slot of the send button, a request on the stream, the frame that
a handler dispatches, a delivery on the connection of a listener, its signal, and a line
in the window of the listener.

A client registers under the name that it was started with and under no other
(`registrant_user`), so that the lines under a name are those of its users, as long as
these run the client of this repository.
-/

namespace SimpleChat

open Conc Function Data

/-! ## What the users type -/

/-- What a message of the window asks the server to deliver. -/
def ClientMsg.speech : ClientMsg → Option Speech
  | .messageGeneral m => some ⟨m.message, none⟩
  | .messageDm m => some ⟨m.message, some m.usernameDes⟩
  | _ => none

def ClientRequest.speech : ClientRequest → Option Speech
  | .window m => m.speech
  | _ => none

/-- What the user of a window has sent with the send button. -/
def typed (rs : List (GuiEvent × List ClientMsg)) : List Speech :=
  rs.flatMap fun r => if r.1 = .user .sendClicked then r.2.filterMap ClientMsg.speech else []

theorem MainWindow.onServerResponse_speech (w : MainWindow) (statusCode : Int) :
    (w.onServerResponse statusCode).2.filterMap ClientMsg.speech = [] := by
  unfold onServerResponse
  split_ifs <;> rfl

theorem MainWindow.onChangeStatus_speech (w : MainWindow) (index : Fin 3) :
    (w.onChangeStatus index).filterMap ClientMsg.speech = [] := by
  unfold onChangeStatus
  dsimp only
  split <;> rfl

/-- Only the send button speaks. -/
theorem ChatWindow.handle_speech {qt : Qt} {w : ChatWindow qt} {e : GuiEvent}
    {x : ChatWindow qt × List ClientMsg} (h : w.handle e = some x) (he : e ≠ .user .sendClicked) :
    x.2.filterMap ClientMsg.speech = [] := by
  cases e with
  | user e =>
    cases e with
    | sendClicked => exact absurd rfl he
    | edit | selectTarget | selectTab | closeTab =>
      have ⟨_, h⟩ := Option.ite_none_right_eq_some.1 h
      cases h
      rfl
    | selectMode | refreshUsers | connectionLost =>
      cases h
      rfl
    | doubleClick row =>
      have ⟨_, _, h⟩ := Option.map_eq_some_iff.1 h
      cases h
      rfl
    | showUserInfo ok target =>
      cases h
      show (MainWindow.onShowUserInfo _ _ _).filterMap _ = []
      unfold MainWindow.onShowUserInfo
      split <;> rfl
    | pickStatus index =>
      have ⟨_, h⟩ := Option.ite_none_right_eq_some.1 h
      cases h
      show (w.toMainWindow.pick index).2.filterMap _ = []
      unfold MainWindow.pick
      split
      · rfl
      · exact w.toMainWindow.onChangeStatus_speech index
    | receive msg =>
      cases h
      cases msg with
      | serverResponse m => exact w.toMainWindow.onServerResponse_speech m.statusCode
      | allUsers | forDm | broadcastDelivery | getUserInfoResponse => rfl
  | signal s =>
    cases h
    cases s with
    | serverResponseReceived statusCode => exact w.toMainWindow.onServerResponse_speech statusCode
    | allUsersReceived | forDmReceived | broadcastReceived | userInfoReceived | connectionLost => rfl
  | close | quit =>
    cases h
    rfl

section Client

variable {cfg : ClientConfig} {C : ClientState cfg.qt → ClientStep → Prop} {p : ClientState cfg.qt}

theorem responses_speech (h : (clientSystem cfg).Reaches C p) :
    ∀ r ∈ responses p.log, r.1 ≠ .user .sendClicked → r.2.filterMap ClientMsg.speech = [] := by
  refine window_invariant (I := fun _ rs => ∀ r ∈ rs, r.1 ≠ .user .sendClicked →
    r.2.filterMap ClientMsg.speech = []) h (fun _ hr => nomatch hr) ?_
  intro w rs e x hI hx _ r hr hne
  rcases List.mem_append.1 hr with hr | hr
  · exact hI r hr hne
  · cases List.mem_singleton.1 hr
    exact ChatWindow.handle_speech hx hne

/-- What the main thread sends after an event asks for what the user has sent. -/
theorem afterEvent_speech (h : (clientSystem cfg).Reaches C p) {r : GuiEvent × List ClientMsg}
    (hr : r ∈ responses p.log) :
    (afterEvent cfg r).filterMap ClientRequest.speech =
      if r.1 = .user .sendClicked then r.2.filterMap ClientMsg.speech else [] := by
  unfold afterEvent
  split_ifs with hclose hsend hquit hsend hsend
  · rw [hclose] at hsend
    cases hsend
  · rfl
  · rw [hquit] at hsend
    cases hsend
  · rfl
  · rw [List.filterMap_map]
    rfl
  · rw [List.filterMap_map]
    exact responses_speech h r hr hsend

theorem requests_speech (cfg : ClientConfig) (log : List ClientEvent) :
    (requests cfg log).filterMap ClientRequest.speech =
      (cutAfter closes (responses log)).flatMap fun r =>
        (afterEvent cfg r).filterMap ClientRequest.speech := by
  have hregister : (ClientRequest.register ⟨cfg.username, cfg.localIp⟩).speech = none := rfl
  unfold requests
  rw [List.filterMap_cons_none hregister, List.filterMap_flatMap]

/-- What the requests of a client ask for was typed by its user. -/
theorem requests_typed (h : (clientSystem cfg).Reaches C p) :
    ((requests cfg p.log).filterMap ClientRequest.speech).Sublist (typed (responses p.log)) := by
  have hcut := cutAfter_prefix closes (responses p.log)
  rw [requests_speech]
  refine .trans (.flatMap_right _ fun r hr => ?_) (hcut.sublist.flatMap _)
  rw [afterEvent_speech h (hcut.subset hr)]

end Client

/-! ## What the server makes of it -/

variable {cfg : ChatConfig} {s : ChatState cfg}

/-- The server reads a request as what it asks for. -/
theorem speechOf_request (hl : cfg.Linked) {c : ConnId} {m : ClientRequest} {payload : Bytes}
    (h : (cfg.client c).pb.serialize m = some payload) :
    cfg.server.pb.speechOf (m.msgType, payload) = m.speech := by
  cases m with
  | register m | quit m => rfl
  | window m =>
    cases m with
    | messageGeneral m => exact Protobuf.speechOf_general (hl.general c m payload h)
    | messageDm m => exact Protobuf.speechOf_dm (hl.dm c m payload h)
    | changeStatus | listUsers | getUserInfo => rfl

/-- The frames of requests ask for no more than the requests. -/
theorem speechOf_requests (hl : cfg.Linked) (c : ConnId) (reqs : List ClientRequest) :
    ((reqs.filterMap (cfg.client c).pb.frameOf).filterMap cfg.server.pb.speechOf).Sublist
      (reqs.filterMap ClientRequest.speech) := by
  induction reqs with
  | nil => exact .slnil
  | cons m reqs ih =>
    have hsub : (reqs.filterMap ClientRequest.speech).Sublist
        ((m :: reqs).filterMap ClientRequest.speech) := (List.sublist_cons_self m reqs).filterMap _
    cases hm : (cfg.client c).pb.serialize m with
    | none =>
      have hframe : (cfg.client c).pb.frameOf m = none := by rw [ClientProtobuf.frameOf, hm]; rfl
      rw [List.filterMap_cons_none hframe]
      exact ih.trans hsub
    | some payload =>
      have hframe : (cfg.client c).pb.frameOf m = some (m.msgType, payload) := by
        rw [ClientProtobuf.frameOf, hm]
        rfl
      rw [List.filterMap_cons_some hframe, List.filterMap_cons, List.filterMap_cons,
        speechOf_request hl hm]
      cases m.speech with
      | none => exact ih
      | some sp => exact ih.cons_cons sp

/-- What the server gets to deliver from a client was typed by its user. -/
theorem dispatched_typed (h : (chatSystem cfg).Reaches (ChatFailsForGood cfg) s) (hl : cfg.Linked)
    {c : ConnId} (hc : cfg.foreign c = false) :
    ((dispatched c s.hub.log).filterMap cfg.server.pb.speechOf).Sublist
      (typed (responses (s.peer c).log)) := by
  have hframes := (dispatched_first h hl hc).sublist.filterMap cfg.server.pb.speechOf
  exact (hframes.trans (speechOf_requests hl c _)).trans (requests_typed (chat_client h c))

theorem ClientRequest.of_register {m : ClientRequest} (h : m.msgType = MsgType.REGISTER) :
    ∃ r, m = .register r := by
  cases m with
  | register r => exact ⟨r, rfl⟩
  | quit m => exact absurd h (show MsgType.QUIT ≠ MsgType.REGISTER by decide)
  | window m =>
    cases m with
    | messageGeneral m => exact absurd h (show MsgType.MESSAGE_GENERAL ≠ MsgType.REGISTER by decide)
    | messageDm m => exact absurd h (show MsgType.MESSAGE_DM ≠ MsgType.REGISTER by decide)
    | changeStatus m => exact absurd h (show MsgType.CHANGE_STATUS ≠ MsgType.REGISTER by decide)
    | listUsers m => exact absurd h (show MsgType.LIST_USERS ≠ MsgType.REGISTER by decide)
    | getUserInfo m => exact absurd h (show MsgType.GET_USER_INFO ≠ MsgType.REGISTER by decide)

/-- A client sends one Register message. -/
theorem register_of_requests {cfg : ClientConfig} {log : List ClientEvent} {r : Register}
    (h : .register r ∈ requests cfg log) : r = ⟨cfg.username, cfg.localIp⟩ := by
  rcases List.mem_cons.1 h with h | h
  · cases h
    rfl
  · obtain ⟨x, _, hx⟩ := List.mem_flatMap.1 h
    unfold afterEvent at hx
    split_ifs at hx
    · cases List.mem_singleton.1 hx
    · cases hx
    · obtain ⟨_, _, hx⟩ := List.mem_map.1 hx
      cases hx

/-- A client registers under the name that it was started with. -/
theorem registrant_user (h : (chatSystem cfg).Reaches (ChatFailsForGood cfg) s) (hl : cfg.Linked)
    {c : ConnId} {u : String} (hc : cfg.foreign c = false) (hu : c ∈ registrants u s.hub.log) :
    (cfg.client c).username = u := by
  obtain ⟨fd, a, x, he⟩ := mem_registrants.1 hu
  obtain ⟨L, R, hlog⟩ := List.append_of_mem he
  obtain ⟨payload, reg, hlast, hparse, rfl⟩ := register_quotes (chat_server h) hlog
  -- The frame is one of the requests, and only the first of them is a Register message.
  have hmem : (MsgType.REGISTER, payload) ∈ dispatched c s.hub.log := by
    rw [hlog, dispatched_append]
    exact List.mem_append_left _ (List.mem_of_getLast? hlast)
  obtain ⟨m, hm, hframe⟩ := List.mem_filterMap.1 ((dispatched_first h hl hc).subset hmem)
  obtain ⟨payload', hserialize, hpair⟩ := Option.map_eq_some_iff.1 hframe
  obtain ⟨htype, rfl⟩ := Prod.mk.inj hpair
  obtain ⟨r, rfl⟩ := ClientRequest.of_register htype
  rw [hl.register c r payload' hserialize] at hparse
  cases hparse
  rw [register_of_requests hm]

/-! ## From the server to the windows -/

/-- No user of the name runs another client. -/
def ChatConfig.Ours (cfg : ChatConfig) (s : ChatState cfg) (u : String) : Prop :=
  ∀ c ∈ registrants u s.hub.log, cfg.foreign c = false

/-- The user of a line of a chat. -/
def Line.user : Line → Option String
  | .chat u _ => some u
  | .system _ => none

/-- The signals whose slots were called are those of some of the messages. -/
theorem delivered_sent {C : ChatState cfg → ChatStep → Prop} (h : (chatSystem cfg).Reaches C s)
    (hl : cfg.Linked) (d : ConnId) {α : Type} (f : Signal → Option α)
    (hlost : f .connectionLost = none) :
    ((delivered (s.peer d).log).filterMap f).Sublist
      (((s.hub.shared.out d).map Written.msg).filterMap fun msg => f msg.signal) := by
  have hqueue : (delivered (s.peer d).log).Sublist (emitted (s.peer d).log) := by
    rw [← delivered_posted (chat_client h d)]
    exact List.sublist_append_left _ _
  obtain ⟨signals, hsignals, hemitted⟩ := emitted_signals h hl d
  have hsame : (emitted (s.peer d).log).filterMap f = signals.filterMap f := by
    rcases hemitted with he | he <;> rw [he]
    rw [List.filterMap_append, List.filterMap_cons_none hlost]
    exact List.append_nil _
  refine (hqueue.filterMap f).trans ?_
  rw [hsame, ← Function.comp_def f, ← List.filterMap_map]
  refine List.Sublist.filterMap f (hsignals.sublist.trans ((List.tail_sublist _).trans ?_))
  exact List.filter_sublist.map _

/-- The line that the slot of a signal adds to the tab of `u`. -/
def Signal.dmLineOf (u : String) : Signal → Option Line
  | .forDmReceived v message => if v = u then some (.chat u message) else none
  | _ => none

/-- The lines of a peer in the conversation are those that were received. -/
theorem conversation_received {me u : String} (hu : u ≠ me)
    (rs : List (GuiEvent × List ClientMsg)) :
    ((conversation me rs u).filter fun line => line.user = some u) =
      (rs.filterMap fun r => r.1.asSignal).filterMap (Signal.dmLineOf u) := by
  unfold conversation
  rw [List.filter_filterMap, List.filterMap_filterMap]
  refine List.filterMap_congr fun r _ => ?_
  obtain ⟨e, msgs⟩ := r
  have hme : ∀ m : MessageDM, ((if m.usernameDes = u then some (Line.chat me m.message) else none).filter
      fun line => line.user = some u) = none := by
    intro m
    split_ifs
    · exact if_neg fun heq => hu (Option.some.inj (of_decide_eq_true heq)).symm
    · rfl
  cases e with
  | signal sig =>
    cases sig with
    | forDmReceived v message =>
      show ((if v = u then some (Line.chat v message) else none).filter _) = if v = u then _ else _
      split_ifs with hv
      · rw [hv]
        exact if_pos (decide_eq_true rfl)
      · rfl
    | serverResponseReceived | allUsersReceived | broadcastReceived | userInfoReceived
    | connectionLost => rfl
  | user e =>
    cases e with
    | sendClicked =>
      unfold dmLine
      split
      · rename_i h
        cases h
      · rename_i m h
        cases h
        exact hme m
      · rfl
    | edit | selectMode | selectTarget | selectTab | closeTab | doubleClick | refreshUsers
    | showUserInfo | pickStatus | receive | connectionLost => rfl
  | close | quit => rfl

/-- The lines of a peer in its tab are some of those that were received. -/
theorem tab_lines {cfg : ClientConfig} {C : ClientState cfg.qt → ClientStep → Prop}
    {p : ClientState cfg.qt} (h : (clientSystem cfg).Reaches C p) {u : String} {x : Nat}
    (hx : p.shared.window.dmTabs u = some x) (hu : u ≠ cfg.username) :
    ((p.shared.window.lines x).filter fun line => line.user = some u).Sublist
      ((delivered p.log).filterMap (Signal.dmLineOf u)) := by
  have hdms := (reachable_shows h).dms.lines_sublist hx
  have hsub := hdms.filter fun line => line.user = some u
  rw [conversation_received hu] at hsub
  rw [delivered, guiEvents_eq, List.filterMap_map]
  exact hsub

/-- The server accepts no connection at a descriptor that a thread may still write to. -/
def ChatNoStaleWriter (cfg : ChatConfig) (s : ChatState cfg) : ChatStep → Prop
  | .hub l => NoStaleWriter s.hub l
  | _ => True

/-- What the two ends of a conversation rely on. -/
def ChatSteady (cfg : ChatConfig) (s : ChatState cfg) (l : ChatStep) : Prop :=
  ChatFailsForGood cfg s l ∧ ChatNoStaleWriter cfg s l

theorem steady_fails (h : (chatSystem cfg).Reaches (ChatSteady cfg) s) :
    (chatSystem cfg).Reaches (ChatFailsForGood cfg) s := h.mono fun _ _ hC => hC.1

theorem chat_server_steady (h : (chatSystem cfg).Reaches (ChatSteady cfg) s) :
    (system cfg.server).Reaches NoStaleWriter s.hub :=
  Star.reaches_hub (S := chat cfg) h (fun _ _ hC => hC.2) fun _ _ _ => trivial

/-- While nobody has registered, no thread writes to anybody. -/
theorem calm_steady (h : (chatSystem cfg).Reaches (ChatCalm cfg) s) :
    (chatSystem cfg).Reaches (ChatSteady cfg) s := by
  refine Lts.Reaches.invariant (I := (chatSystem cfg).Reaches (ChatSteady cfg)) h .init
    fun s l s' _ hI hC hs => hI.tail ⟨calm_fails_step hC, ?_⟩ hs
  cases l with
  | peer c l => trivial
  | up c n | down c n => trivial
  | hub l =>
    cases l with
    | op t ch => trivial
    | jump t => trivial
    | env e =>
      cases e with
      | accept fd peerIp =>
        intro t ref hwrites
        have hlt := ((writes_home (chat_server_steady hI)).1 t ref hwrites).allocated
        rw [of_decide_eq_true hC] at hlt
        exact absurd hlt (Nat.not_lt_zero _)
      | clientSend | clientClose | tick => trivial

/-- A frame that went through a session of a client of this repository. -/
theorem via_user (h : (chatSystem cfg).Reaches (ChatSteady cfg) s) (hl : cfg.Linked) {d : ConnId}
    (hd : cfg.foreign d = false) {x : Written} (hx : x ∈ s.hub.shared.out d) {ref : SessionRef}
    (hvia : x.via = some ref) :
    (s.hub.shared.mem.heap ref).username = (cfg.client d).username ∧
      d ∈ registrants (cfg.client d).username s.hub.log := by
  have hserver := chat_server_steady h
  obtain ⟨fd, u, a, he⟩ := (writes_home hserver).2 d x ref hx hvia
  have hu : d ∈ registrants u s.hub.log := mem_registrants.2 ⟨fd, a, ref, he⟩
  have husername := registrant_user (steady_fails h) hl hd hu
  rw [husername]
  exact ⟨(registered_event hserver he).2.2, hu⟩

/-- A direct message on a connection quotes a frame that names the user of the connection. -/
theorem dm_origin (h : (chatSystem cfg).Reaches (ChatSteady cfg) s) (hl : cfg.Linked) {d : ConnId}
    (hd : cfg.foreign d = false) {x : Written} (hx : x ∈ s.hub.shared.out d) {u text : String}
    (hmsg : x.msg = .forDm { usernameDes := u, message := text }) :
    ∃ c ∈ registrants u s.hub.log, ⟨text, some (cfg.client d).username⟩ ∈
      (dispatched c s.hub.log).filterMap cfg.server.pb.speechOf := by
  have hsender : x.msg.sender = some u := by rw [hmsg]; rfl
  have hserver := chat_server h
  obtain ⟨t, ref, r, he, hvia⟩ | ⟨t, fd, r, he, _⟩ | ⟨t, fd, v, a, r, he, hreply⟩ :=
    out_origin hserver d x hx
  · obtain ⟨L, R, hlog⟩ := List.append_of_mem he
    obtain ⟨c, rfl, hc⟩ := delivery_registrant hserver hlog hsender
    obtain ⟨frame, sp, hframe, hsp, hquote, hdest⟩ := delivery_frame hserver hlog hsender
    refine ⟨c, ?_, List.mem_filterMap.2 ⟨frame, ?_, ?_⟩⟩
    · rw [hlog, registrants_append]
      exact List.mem_append_left _ hc
    · rw [hlog, dispatched_append]
      exact List.mem_append_left _ (List.mem_of_getLast? hframe)
    · rw [hsp]
      obtain ⟨text', dest⟩ := sp
      rw [hmsg] at hquote
      cases dest with
      | none => cases hquote
      | some v =>
        cases hquote
        have hname := (hdest v rfl).2
        rw [(via_user h hl hd hx hvia).1] at hname
        rw [hname]
  · obtain ⟨code, reply, hreply⟩ := bare_refuses hserver he
    rw [hmsg] at hreply
    cases hreply
  · have hnone := registerReply_sender v a r
    rw [← congrArg Prod.snd hreply, hsender] at hnone
    cases hnone

/-- A direct message that a window shows in the tab of another user was typed by this
user, and to the user of the window. -/
theorem dm_addressed (h : (chatSystem cfg).Reaches (ChatSteady cfg) s) (hl : cfg.Linked)
    {d : ConnId} (hd : cfg.foreign d = false) {u text : String} (hours : cfg.Ours s u) {x : Nat}
    (hx : (s.peer d).shared.window.dmTabs u = some x) (hu : u ≠ (cfg.client d).username)
    (hline : .chat u text ∈ (s.peer d).shared.window.lines x) :
    ∃ c, (cfg.client c).username = u ∧
      ⟨text, some (cfg.client d).username⟩ ∈ typed (responses (s.peer c).log) := by
  have hline' : Line.chat u text ∈
      ((s.peer d).shared.window.lines x).filter fun line => line.user = some u :=
    List.mem_filter.2 ⟨hline, decide_eq_true rfl⟩
  have hsent := (delivered_sent h hl d (Signal.dmLineOf u) rfl).subset
    ((tab_lines (chat_client h d) hx hu).subset hline')
  obtain ⟨msg, hmsg, hsignal⟩ := List.mem_filterMap.1 hsent
  obtain ⟨w, hw, rfl⟩ := List.mem_map.1 hmsg
  have hdm : w.msg = .forDm { usernameDes := u, message := text } := by
    cases hm : w.msg with
    | forDm m =>
      obtain ⟨v, message⟩ := m
      rw [hm] at hsignal
      obtain ⟨hv, hsome⟩ := Option.ite_none_right_eq_some.1 hsignal
      obtain ⟨_, rfl⟩ := Line.chat.inj (Option.some.inj hsome)
      exact congrArg (fun v => ServerMsg.forDm ⟨v, message⟩) hv
    | serverResponse | allUsers | broadcastDelivery | getUserInfoResponse =>
      rw [hm] at hsignal
      cases hsignal
  obtain ⟨c, hc, hspeech⟩ := dm_origin h hl hd hw hdm
  have hfails := steady_fails h
  exact ⟨c, registrant_user hfails hl (hours c hc) hc,
    (dispatched_typed hfails hl (hours c hc)).subset hspeech⟩

/-- "a" whispers to "b". -/
theorem dm_addressed_whisper :
    ∃ s, (chatSystem sampleChat).Reaches (ChatSteady sampleChat) s ∧
      .chat "a" "hi" ∈ (s.peer 1).shared.window.lines 2 ∧
      ∃ c, (sampleChat.client c).username = "a" ∧
        ⟨"hi", some "b"⟩ ∈ typed (responses (s.peer c).log) := by
  have ⟨s, hs, hrun⟩ := Lts.exists_reaches_of_runIf (L := chatSystem sampleChat)
    (C := ChatCalm sampleChat) whisperRun
    (fun s => decide ((s.peer 1).shared.window.dmTabs "a" = some 2) &&
      decide (.chat "a" "hi" ∈ (s.peer 1).shared.window.lines 2))
    (by decide +kernel)
  rw [Bool.and_eq_true, decide_eq_true_eq, decide_eq_true_eq] at hrun
  have hsteady := calm_steady hs
  exact ⟨s, hsteady, hrun.2, dm_addressed (d := 1) hsteady sampleChat_linked rfl (fun _ _ => rfl)
    hrun.1 (by decide) hrun.2⟩

/-! ## The handshake -/

theorem ClientProtobuf.parse_response (pb : ClientProtobuf) (payload : Bytes) :
    pb.parse MsgType.SERVER_RESPONSE payload =
      (pb.parseServerResponse payload).map .serverResponse := if_pos rfl

/-- The reply that a client takes for its welcome is the first of its connection that can
be sent. -/
theorem welcome_reply {C : ChatState cfg → ChatStep → Prop} (h : (chatSystem cfg).Reaches C s)
    (hl : cfg.Linked) {c : ConnId} (hshown : (s.peer c).shared.shown = true) :
    ∃ x ∈ s.hub.shared.out c, ∃ reply, x.msg = .serverResponse reply ∧ reply.isSuccessful = true := by
  have ⟨fs, hfs⟩ := PrefixCode.exists_isLongest frameCode
    ((s.peer c).shared.received ++ (s.peer c).shared.pending)
  obtain ⟨f, rest, rfl, hwelcome⟩ := shown_welcome (chat_client h c) hfs hshown
  have hmem : f.1 ∈ cfg.server.pb.framesOf (s.hub.shared.out c) :=
    (arrived_frames h hl hfs).subset List.mem_cons_self
  obtain ⟨msg, hmsg, hframe⟩ := List.mem_filterMap.1 hmem
  obtain ⟨x, hx, rfl⟩ := List.mem_map.1 hmsg
  obtain ⟨payload, hserialize, hpair⟩ := Option.map_eq_some_iff.1 hframe
  have hparse := hl.message c x.msg payload hserialize
  rw [← hpair] at hwelcome
  obtain ⟨htype, hall⟩ := hwelcome
  dsimp only at htype hall
  rw [htype, ClientProtobuf.parse_response] at hparse
  obtain ⟨reply, hreply, hx'⟩ := Option.map_eq_some_iff.1 hparse
  rw [hreply] at hall
  exact ⟨x, hx, reply, hx'.symm, hall⟩

/-- The window of a client is shown only after the server has registered its connection
under the name that the client was started with. -/
theorem shown_registered (h : (chatSystem cfg).Reaches (ChatSteady cfg) s) (hl : cfg.Linked)
    {c : ConnId} (hc : cfg.foreign c = false) (hshown : (s.peer c).shared.shown = true) :
    c ∈ registrants (cfg.client c).username s.hub.log := by
  have hserver := chat_server h
  obtain ⟨x, hx, reply, hreply, hsuccess⟩ := welcome_reply h hl hshown
  obtain ⟨t, ref, r, he, hvia⟩ | ⟨t, fd, r, he, _⟩ | ⟨t, fd, v, a, r, he, hreg⟩ :=
    out_origin hserver c x hx
  · exact (via_user h hl hc hx hvia).2
  · obtain ⟨code, text, hno⟩ := bare_refuses hserver he
    rw [hreply] at hno
    cases hno
    cases hsuccess
  · -- Only a registration succeeds, and its reply goes through the new session.
    cases r with
    | alreadyRegistered ref | registered ref =>
      exact (via_user h hl hc hx (congrArg Prod.fst hreg)).2
    | usernameTaken | ipTaken =>
      have hno := congrArg Prod.snd hreg
      rw [hreply] at hno
      cases hno
      cases hsuccess

/-- "b" is registered. -/
theorem shown_registered_whisper :
    ∃ s, (chatSystem sampleChat).Reaches (ChatSteady sampleChat) s ∧
      (s.peer 1).shared.shown = true ∧ 1 ∈ registrants "b" s.hub.log := by
  have ⟨s, hs, hrun⟩ := Lts.exists_reaches_of_runIf (L := chatSystem sampleChat)
    (C := ChatCalm sampleChat) whisperRun (fun s => (s.peer 1).shared.shown) (by decide +kernel)
  have hsteady := calm_steady hs
  exact ⟨s, hsteady, hrun, shown_registered (c := 1) hsteady sampleChat_linked rfl hrun⟩

end SimpleChat
