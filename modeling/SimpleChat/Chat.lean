import SimpleChat.Conc.Star
import SimpleChat.Hearing
import SimpleChat.Slots
import SimpleChat.UserLists

/-!
# The server and its clients

The whole chat: the server as the hub, and at each connection a client, behind a TCP
stream in each direction.  A stream keeps its bytes in order and delivers them with any
delay, in pieces of any size, or not at all.

The peer of a connection need not be the client of this repository.  What a `foreign`
peer sends is up to the environment.
-/

namespace SimpleChat

open Conc Function Data

/-! ## Frames on a stream -/

/-- The frame of a message, if the protobuf code serializes it. -/
def Protobuf.frameOf (pb : Protobuf) (msg : ServerMsg) : Option (UInt8 × Bytes) :=
  (pb.serialize msg).map fun payload => (msg.msgType, payload)

/-- The frames of the messages that were written to a connection. -/
def Protobuf.framesOf (pb : Protobuf) (frames : List Written) : List (UInt8 × Bytes) :=
  (frames.map Written.msg).filterMap pb.frameOf

/-- The bytes of frames. -/
def encodeFrames (fs : List (UInt8 × Bytes)) : Bytes := fs.flatMap fun f => encodeFrame f.1 f.2

theorem encodeFrames_append (fs gs : List (UInt8 × Bytes)) :
    encodeFrames (fs ++ gs) = encodeFrames fs ++ encodeFrames gs := List.flatMap_append

theorem Protobuf.framesOf_append (pb : Protobuf) (l l' : List Written) :
    pb.framesOf (l ++ l') = pb.framesOf l ++ pb.framesOf l' := by
  unfold framesOf
  rw [List.map_append, List.filterMap_append]

/-! ## The system -/

/-- The server, and the client at each connection. -/
structure ChatConfig where
  server : Config
  client : ConnId → ClientConfig
  /-- The connections whose peer is another program. -/
  foreign : ConnId → Bool

/-- The step of the server that is its own: not what the client of the connection sends. -/
def ChatConfig.serverOwn (cfg : ChatConfig) : Step → Bool
  | .env (.clientSend c _) => cfg.foreign c
  | _ => true

/-- The step of a client that is its own: not what the server sends. -/
def clientOwn : ClientStep → Bool
  | .env (.arrive _) => false
  | _ => true

/-- The server with its clients. -/
def chat (cfg : ChatConfig) :
    Star ConnId UInt8 State Step (fun c => ClientState (cfg.client c).qt) fun _ => ClientStep where
  hub := system cfg.server
  peer c := clientSystem (cfg.client c)
  hubPort c :=
    { take := fun bs => .env (.clientSend c bs)
      sent := fun p => encodeFrames (cfg.server.pb.framesOf (p.shared.out c)) }
  peerPort _ :=
    { take := fun bs => .env (.arrive bs)
      sent := fun p => p.shared.wire }
  hubOwn := cfg.serverOwn
  peerOwn _ := clientOwn

abbrev ChatState (cfg : ChatConfig) :=
  StarState ConnId State fun c => ClientState (cfg.client c).qt

abbrev ChatStep := StarLabel ConnId Step fun _ => ClientStep

def chatSystem (cfg : ChatConfig) : Lts (ChatState cfg) ChatStep := (chat cfg).toLts

/-! ## What the components put on the streams -/

variable {cfg : ChatConfig}

theorem server_grows (cfg : ChatConfig) (c : ConnId) : ((chat cfg).hubPort c).Grows (chat cfg).hub := by
  intro p l p' h
  obtain ⟨new, hnew⟩ := out_prefix h c
  show encodeFrames (cfg.server.pb.framesOf (p.shared.out c)) <+:
    encodeFrames (cfg.server.pb.framesOf (p'.shared.out c))
  rw [← hnew, Protobuf.framesOf_append, encodeFrames_append]
  exact List.prefix_append _ _

/-- The bytes of a client that arrive were sent, and no others. -/
theorem ClientMemory.exec_wire {qt : Qt} {m m' : ClientMemory qt} {t : ClientTid} {o : ClientOp}
    {ch : ClientChoice} {r : o.Resp} (h : m.exec t o ch = some (r, m')) :
    m.wire <+: m'.wire ∧ m'.received ++ m'.pending = m.received ++ m.pending := by
  cases o with
  | recv o =>
    have ⟨hpending, hm, _⟩ := recv_spec h
    rw [hm, hpending]
    exact ⟨List.prefix_refl _, List.append_assoc _ _ _⟩
  | send o =>
    have hm : m.send o ch = (r, m') := Option.some.inj h
    rw [show m' = (m.send o ch).2 by rw [hm]]
    rcases m.send_spec o ch with ⟨_, hspec⟩ | ⟨n, _, _, _, _, hspec⟩ <;> rw [hspec]
    · exact ⟨List.prefix_refl _, rfl⟩
    · exact ⟨List.prefix_append _ _, rfl⟩
  | nextEvent =>
    have ⟨_, _, _, _, hm⟩ := nextEvent_spec h
    rw [hm]
    exact ⟨List.prefix_refl _, rfl⟩
  | lock | started =>
    have ⟨_, h⟩ := Option.ite_none_right_eq_some.1 h
    cases h
    exact ⟨List.prefix_refl _, rfl⟩
  | running | stopRunning | unlock | emit | showWindow | shutdownRead | shutdown | close =>
    cases h
    exact ⟨List.prefix_refl _, rfl⟩

theorem client_grows (cfg : ChatConfig) (c : ConnId) :
    ((chat cfg).peerPort c).Grows ((chat cfg).peer c) := by
  intro p l p' h
  show p.shared.wire <+: p'.shared.wire
  cases l with
  | op t ch =>
    have ⟨o, k, r, m, _, he, hp'⟩ := Machine.step_op.1 h
    rw [hp']
    exact (ClientMemory.exec_wire he).1
  | jump t =>
    have ⟨_, _, hp'⟩ := Machine.step_jump.1 h
    rw [hp']
    exact List.prefix_refl _
  | env e =>
    have ⟨m, start, he, hp'⟩ := Machine.step_env.1 h
    have ⟨m', he', hm⟩ := Option.map_eq_some_iff.1 he
    cases hm
    rw [hp']
    cases e with
    | arrive bs =>
      have ⟨_, he'⟩ := Option.ite_none_left_eq_some.1 he'
      cases he'
      exact List.prefix_refl _
    | hangUp =>
      cases he'
      exact List.prefix_refl _

/-! ## What the components get -/

/-- What the server has got from a client of this repository. -/
theorem server_gets (cfg : ChatConfig) {c : ConnId} (hc : cfg.foreign c = false) :
    (chat cfg).HubGets c fun p => p.shared.mem.sentBytes c where
  init := rfl
  take p bs p' hp h := by
    rw [step_sentBytes hp h c]
    exact congrArg (_ ++ ·) (if_pos rfl)
  other p l p' hp hl h := by
    have hnone : arrivals c l = [] := by
      rcases hl with hown | ⟨d, bs, hd, rfl⟩
      · unfold arrivals
        split
        · rename_i d bs
          refine if_neg fun hdc => ?_
          subst hdc
          exact absurd (hown.symm.trans hc) (by decide)
        · rfl
      · exact if_neg hd
    rw [step_sentBytes hp h c, hnone, List.append_nil]

/-- What a client has got from the server. -/
theorem client_gets (cfg : ChatConfig) (c : ConnId) :
    (chat cfg).PeerGets c fun p => p.shared.received ++ p.shared.pending where
  init := rfl
  take p bs p' h := by
    have ⟨m, start, he, hp'⟩ := Machine.step_env.1 h
    have ⟨m', he', hm⟩ := Option.map_eq_some_iff.1 he
    cases hm
    have ⟨_, he'⟩ := Option.ite_none_left_eq_some.1 he'
    cases he'
    rw [hp']
    exact (List.append_assoc _ _ _).symm
  own p l p' hown h := by
    cases l with
    | op t ch =>
      have ⟨o, k, r, m, _, he, hp'⟩ := Machine.step_op.1 h
      rw [hp']
      exact (ClientMemory.exec_wire he).2
    | jump t =>
      have ⟨_, _, hp'⟩ := Machine.step_jump.1 h
      rw [hp']
      rfl
    | env e =>
      have ⟨m, start, he, hp'⟩ := Machine.step_env.1 h
      have ⟨m', he', hm⟩ := Option.map_eq_some_iff.1 he
      cases hm
      cases e with
      | arrive bs => cases hown
      | hangUp =>
        cases he'
        rw [hp']
        rfl

/-! ## Runs -/

/-- No `send` of a client succeeds after one that has failed. -/
def ChatFailsForGood (cfg : ChatConfig) (s : ChatState cfg) : ChatStep → Prop
  | .peer c l => FailsForGood (s.peer c) l
  | _ => True

variable {C : ChatState cfg → ChatStep → Prop} {s : ChatState cfg}

theorem chat_server (h : (chatSystem cfg).Reaches C s) :
    (system cfg.server).Reaches Lts.Any s.hub :=
  Star.reaches_hub h (fun _ _ _ => trivial) fun _ _ _ => trivial

theorem chat_client (h : (chatSystem cfg).Reaches C s) (c : ConnId) :
    (clientSystem (cfg.client c)).Reaches Lts.Any (s.peer c) :=
  Star.reaches_peer h (fun _ _ _ => trivial) fun _ _ => trivial

theorem chat_client_fails (h : (chatSystem cfg).Reaches (ChatFailsForGood cfg) s) (c : ConnId) :
    (clientSystem (cfg.client c)).Reaches FailsForGood (s.peer c) :=
  Star.reaches_peer (S := chat cfg) h (fun _ _ hC => hC) fun _ _ _ _ _ _ hl => nomatch hl

/-! ## The protobuf code on both sides -/

/-- What one of the programs serializes, the other one parses back, and the code refuses
messages of two gigabytes. -/
structure ChatConfig.Linked (cfg : ChatConfig) : Prop where
  register : ∀ c m payload, (cfg.client c).pb.serialize (.register m) = some payload →
    cfg.server.pb.parseRegister payload = some m
  general : ∀ c m payload, (cfg.client c).pb.serialize (.window (.messageGeneral m)) = some payload →
    cfg.server.pb.parseMessageGeneral payload = some m
  dm : ∀ c m payload, (cfg.client c).pb.serialize (.window (.messageDm m)) = some payload →
    cfg.server.pb.parseMessageDM payload = some m
  message : ∀ c msg payload, cfg.server.pb.serialize msg = some payload →
    (cfg.client c).pb.parse msg.msgType payload = some msg
  requestLength : ∀ c m payload, (cfg.client c).pb.serialize m = some payload →
    payload.length < 2 ^ 31
  messageLength : ∀ msg payload, cfg.server.pb.serialize msg = some payload →
    payload.length < 2 ^ 31

/-- The messages that the protobuf code can send. -/
def Protobuf.sendable (pb : Protobuf) (frames : List Written) : List ServerMsg :=
  (frames.map Written.msg).filter fun msg => (pb.serialize msg).isSome

/-- The signals of the frames of messages are those of the messages. -/
theorem signals_framesOf (hl : cfg.Linked) (c : ConnId) (frames : List Written) :
    (cfg.server.pb.framesOf frames).map (fun f => (cfg.client c).pb.signalOf f.1 f.2) =
      (cfg.server.pb.sendable frames).map fun msg => some msg.signal := by
  induction frames with
  | nil => rfl
  | cons x frames ih =>
    unfold Protobuf.framesOf Protobuf.sendable at ih ⊢
    rw [List.map_cons]
    cases hx : cfg.server.pb.serialize x.msg with
    | none =>
      have hframe : cfg.server.pb.frameOf x.msg = none := by rw [Protobuf.frameOf, hx]; rfl
      rw [List.filterMap_cons_none hframe, List.filter_cons_of_neg (by simp [hx]), ih]
    | some payload =>
      have hframe : cfg.server.pb.frameOf x.msg = some (x.msg.msgType, payload) := by
        rw [Protobuf.frameOf, hx]
        rfl
      rw [List.filterMap_cons_some hframe, List.filter_cons_of_pos (by simp [hx]), List.map_cons,
        List.map_cons, ih, ClientProtobuf.signalOf_eq, hl.message c x.msg payload hx]
      rfl

/-! ## A chat to run -/

/-- The protobuf code of a server for the sample clients. -/
def sampleServerProtobuf : Protobuf where
  parseRegister bs :=
    [⟨"a", "10.0.0.1"⟩, ⟨"b", "10.0.0.2"⟩].find? fun m => (ClientRequest.register m).encode = bs
  parseMessageGeneral bs :=
    [⟨"hi", .ACTIVE, "a", "10.0.0.1"⟩].find? fun m => (ClientMsg.messageGeneral m).encode = bs
  parseMessageDM bs :=
    [⟨"hi", .ACTIVE, "b", "10.0.0.1"⟩].find? fun m => (ClientMsg.messageDm m).encode = bs
  parseChangeStatus _ := none
  parseListUsers bs := [⟨"a", "10.0.0.1"⟩].find? fun m => (ClientMsg.listUsers m).encode = bs
  parseGetUserInfo _ := none
  parseQuit bs := [⟨true, "10.0.0.1"⟩].find? fun m => (ClientRequest.quit m).encode = bs
  serialize msg := if msg ∈ sampleReplies then some msg.encode else none

/-- Two users, "a" and "b". -/
def sampleChat : ChatConfig where
  server :=
    { pb := sampleServerProtobuf
      sort := fun users => users.insertionSort fun a b => ¬ stringLt b.1 a.1
      idleTimeoutSec := 180 }
  client c :=
    sampleClient (if c = 0 then "a" else "b") (if c = 0 then "10.0.0.1" else "10.0.0.2")
  foreign _ := false

theorem sampleReplies_parse : ∀ msg ∈ sampleReplies,
    sampleClientProtobuf.parse msg.msgType msg.encode = some msg ∧ msg.encode.length < 2 ^ 31 := by
  decide +kernel

theorem sampleChat_linked : sampleChat.Linked where
  register c m payload h := by
    obtain ⟨hm, h⟩ := Option.ite_none_right_eq_some.1 h
    cases h
    rcases hm with rfl | rfl <;> decide +kernel
  general c m payload h := by
    obtain ⟨rfl, h⟩ := Option.ite_none_right_eq_some.1 h
    cases h
    decide +kernel
  dm c m payload h := by
    obtain ⟨rfl, h⟩ := Option.ite_none_right_eq_some.1 h
    cases h
    decide +kernel
  message c msg payload h := by
    obtain ⟨hmsg, h⟩ := Option.ite_none_right_eq_some.1 h
    cases h
    exact (sampleReplies_parse msg hmsg).1
  requestLength c m payload h := by
    cases m with
    | register m =>
      obtain ⟨hm, h⟩ := Option.ite_none_right_eq_some.1 h
      cases h
      rcases hm with rfl | rfl <;> decide +kernel
    | quit m =>
      obtain ⟨rfl, h⟩ := Option.ite_none_right_eq_some.1 h
      cases h
      decide +kernel
    | window m =>
      cases m with
      | messageGeneral m | messageDm m | listUsers m =>
        obtain ⟨rfl, h⟩ := Option.ite_none_right_eq_some.1 h
        cases h
        decide +kernel
      | changeStatus m | getUserInfo m => cases h
  messageLength msg payload h := by
    obtain ⟨hmsg, h⟩ := Option.ite_none_right_eq_some.1 h
    cases h
    exact (sampleReplies_parse msg hmsg).2

/-- Steps of the client at `c`. -/
def byClient (c : ConnId) (ls : List ClientStep) : List ChatStep := ls.map fun l => .peer c l

/-- A turn of the handler of `c`. -/
def byHandler (c : ConnId) (n : Nat) : List ChatStep := (turn (.handler c) n).map .hub

/-- The client at `c` registers, and the window is shown. -/
def joinRun (c : ConnId) : List ChatStep :=
  byClient c (clientTurn .main 2) ++ .up c 100 :: byHandler c 6 ++
    .down c 100 :: byClient c (List.replicate 3 (.op .main { want := 100 })) ++
    byClient c (clientTurn .network 1)

/-- "a" and "b" meet, and "a" sees who is there. -/
def meetingRun : List ChatStep :=
  .hub (.env (.accept 4 "10.0.0.1")) :: .hub (.env (.accept 5 "10.0.0.2")) ::
    joinRun 0 ++ joinRun 1 ++
    byClient 0 (guiTurn (.user .refreshUsers) 4) ++ .up 0 100 :: byHandler 0 6 ++
    [.hub (.op (.handler 0) { order := [4, 5] }), .hub (.op (.handler 0) {}), .down 0 100] ++
    byClient 0 (clientTurn .network 4 ++
      guiTurn (.signal (.allUsersReceived ["a", "b"] [0, 0])) 0)

/-- "a" sends a direct message to "b". -/
def whisperRun : List ChatStep :=
  meetingRun ++
    byClient 0 (guiTurn (.user (.selectMode .dm)) 0 ++ guiTurn (.user (.selectTarget 0)) 0 ++
      guiTurn (.user (.edit "hi")) 0 ++ guiTurn (.user .sendClicked) 4) ++
    .up 0 100 :: byHandler 0 12 ++
    .down 1 100 :: byClient 1 (clientTurn .network 4 ++
      guiTurn (.signal (.forDmReceived "a" "hi")) 0)

/-- No `send` of a client has failed, and all connections are accepted before a user
registers. -/
def ChatConfig.calm (cfg : ChatConfig) (s : ChatState cfg) : ChatStep → Bool
  | .peer c _ => !(s.peer c).shared.failed
  | .hub (.env (.accept _ _)) => decide (s.hub.shared.mem.nextRef = 0)
  | _ => true

abbrev ChatCalm (cfg : ChatConfig) (s : ChatState cfg) (l : ChatStep) : Prop := cfg.calm s l = true

theorem calm_fails_step {cfg : ChatConfig} {s : ChatState cfg} {l : ChatStep} (h : ChatCalm cfg s l) :
    ChatFailsForGood cfg s l := by
  cases l with
  | peer c l =>
    have hok : (!(s.peer c).shared.failed) = true := h
    rw [Bool.not_eq_true'] at hok
    exact fun hfailed => absurd (hfailed.symm.trans hok) (by decide)
  | hub | up | down => trivial

theorem calm_fails {cfg : ChatConfig} {s : ChatState cfg}
    (h : (chatSystem cfg).Reaches (ChatCalm cfg) s) :
    (chatSystem cfg).Reaches (ChatFailsForGood cfg) s := h.mono fun _ _ => calm_fails_step

/-! ## From the clients to the server -/

/-- A handler that has dispatched a frame was started. -/
theorem lt_of_dispatched {cfg : Config} {p : State} (h : (system cfg).Reaches Lts.Any p) {c : ConnId}
    (hne : dispatched c p.log ≠ []) : c < p.shared.mem.nextConn := by
  obtain ⟨f, rest, hf⟩ := List.exists_cons_of_ne_nil hne
  have hmem : f ∈ dispatched c p.log := hf ▸ List.mem_cons_self
  have ⟨⟨t, o, r⟩, he, hframe⟩ := List.mem_filterMap.1 hmem
  have ⟨L, R, hlog⟩ := List.append_of_mem he
  have ⟨q, k, ch, w, hq, _, _, hprog, _, hstep, hsteps⟩ := event_step h hlog
  have hlater := (step_later hstep).trans (steps_later hsteps)
  have ⟨phases, hown⟩ := reachable_owned hq
  cases t with
  | watchdog => cases hframe
  | handler d =>
    have hd : d = c := by
      cases o with
      | mem o =>
        cases o with
        | dispatch => exact (Option.ite_none_right_eq_some.1 hframe).1
        | recv | running | getPeerIp | getSession | removeSession | aliveSessions | findUser
          | listSessions | read | restore | setStatus | touch | now | markIdle | close => cases hframe
      | sendBare | sendLocked | register => cases hframe
    subst hd
    exact Nat.lt_of_lt_of_le (hown.lt_nextConn hprog) hlater.nextConn

/-- The frames of the requests of a client. -/
def ChatConfig.requestFrames (cfg : ChatConfig) (s : ChatState cfg) (c : ConnId) :
    List (UInt8 × Bytes) :=
  (requests (cfg.client c) (s.peer c).log).filterMap (cfg.client c).pb.frameOf

/-- What the server dispatches of a client are the first of the client's requests. -/
theorem dispatched_first (h : (chatSystem cfg).Reaches (ChatFailsForGood cfg) s)
    (hl : cfg.Linked) {c : ConnId} (hc : cfg.foreign c = false) :
    dispatched c s.hub.log <+: cfg.requestFrames s c := by
  by_cases hnil : dispatched c s.hub.log = []
  · rw [hnil]
    exact List.nil_prefix
  have hserver := chat_server h
  have ⟨fs, hfs, hdispatched, _⟩ := dispatched_cut hserver (lt_of_dispatched hserver hnil)
  have hquit := cutAfter_prefix isQuit fs
  refine hdispatched.trans ((hquit.map _).trans ?_)
  -- The bytes that have arrived are the beginning of those of the requests.
  have htaken : Star.Taken (s.peer c).shared.wire (s.up c) (s.hub.shared.mem.sentBytes c) :=
    Star.hub_got (server_gets cfg hc) (client_grows cfg c) h
  have hwire := wire_first (chat_client_fails h c)
  have hbytes : frameCode.concat fs <+: (cfg.client c).pb.wireOf
      (requests (cfg.client c) (s.peer c).log) := by
    refine (hfs.1.trans ?_).trans hwire
    rw [htaken.2]
    exact List.take_prefix _ _
  refine frames_of_prefix (fun g hg => ?_) hbytes
  have ⟨m, _, hm⟩ := List.mem_filterMap.1 hg
  have ⟨payload, hserialize, hframe⟩ := Option.map_eq_some_iff.1 hm
  have hlen := hl.requestLength c m payload hserialize
  rw [← hframe]
  show payload.length < _
  omega

/-- They are all of them, up to Quit, once everything has arrived. -/
theorem dispatched_all (h : (chatSystem cfg).Reaches (ChatFailsForGood cfg) s)
    {c : ConnId} (hc : cfg.foreign c = false) (hlt : c < s.hub.shared.mem.nextConn)
    (hup : s.up c = (s.peer c).shared.wire.length) (hok : (s.peer c).shared.failed = false)
    (hmain : (s.peer c).prog .main = .ret .events) (hstarved : Starved s.hub c)
    (hfits : ∀ f ∈ cfg.requestFrames s c, f.2.length ≤ MAX_PAYLOAD) :
    dispatched c s.hub.log =
      cutAfter (fun f => f.1 = MsgType.QUIT) (cfg.requestFrames s c) := by
  have ⟨fs, hfs, _, hall⟩ := dispatched_cut (chat_server h) hlt
  have htaken : Star.Taken (s.peer c).shared.wire (s.up c) (s.hub.shared.mem.sentBytes c) :=
    Star.hub_got (server_gets cfg hc) (client_grows cfg c) h
  have hwire := wire_all (chat_client_fails h c) hok (Or.inl hmain)
  rw [htaken.2, hup, List.take_length, hwire] at hfs
  have hframes : fs.map Subtype.val = cfg.requestFrames s c := frames_of_all hfits hfs
  rw [hall (Or.inr hstarved), ← hframes]
  exact (cutAfter_map (fun f => f.1 = MsgType.QUIT) Subtype.val fs).symm

/-- What the server dispatches of a client are the first of the client's requests, in
order.  They are all of them, up to Quit, once all bytes have arrived, if no `send` has
failed, no request is over the limit, and both sides wait for more. -/
theorem server_reads_requests (h : (chatSystem cfg).Reaches (ChatFailsForGood cfg) s)
    (hl : cfg.Linked) {c : ConnId} (hc : cfg.foreign c = false) :
    dispatched c s.hub.log <+: cfg.requestFrames s c ∧
      (c < s.hub.shared.mem.nextConn → s.up c = (s.peer c).shared.wire.length →
        (s.peer c).shared.failed = false → (s.peer c).prog .main = .ret .events →
        Starved s.hub c → (∀ f ∈ cfg.requestFrames s c, f.2.length ≤ MAX_PAYLOAD) →
          dispatched c s.hub.log =
            cutAfter (fun f => f.1 = MsgType.QUIT) (cfg.requestFrames s c)) := by
  refine ⟨dispatched_first h hl hc, fun hlt hup hok hmain hstarved hfits => ?_⟩
  exact dispatched_all h hc hlt hup hok hmain hstarved hfits

/-- What the server has read of "a". -/
theorem server_reads_requests_whisper :
    ∃ s, (chatSystem sampleChat).Reaches (ChatFailsForGood sampleChat) s ∧
      dispatched 0 s.hub.log <+: sampleChat.requestFrames s 0 ∧
      (dispatched 0 s.hub.log).map Prod.fst =
        [MsgType.REGISTER, MsgType.LIST_USERS, MsgType.MESSAGE_DM] := by
  have ⟨s, hs, hrun⟩ := Lts.exists_reaches_of_runIf (L := chatSystem sampleChat)
    (C := ChatCalm sampleChat) whisperRun
    (fun s => decide ((dispatched 0 s.hub.log).map Prod.fst =
      [MsgType.REGISTER, MsgType.LIST_USERS, MsgType.MESSAGE_DM]))
    (by decide +kernel)
  have hfails := calm_fails hs
  exact ⟨s, hfails, (server_reads_requests hfails sampleChat_linked rfl).1, of_decide_eq_true hrun⟩

/-! ## From the server to the clients -/

/-- The signals of the messages on a connection after the first one, which is for `main`. -/
def ChatConfig.signals (cfg : ChatConfig) (s : ChatState cfg) (c : ConnId) : List Signal :=
  ((cfg.server.pb.sendable (s.hub.shared.out c)).map ServerMsg.signal).tail

theorem ClientProtobuf.signals_eq (pb : ClientProtobuf) (gs : List WireFrame) :
    pb.signals gs =
      (((gs.map Subtype.val).map fun f => pb.signalOf f.1 f.2).drop 1).filterMap id := by
  rw [List.drop_one, ← List.map_tail, ← List.map_tail, List.filterMap_map, List.filterMap_map]
  rfl

theorem ChatConfig.signals_eq (hl : cfg.Linked) (s : ChatState cfg) (c : ConnId) :
    cfg.signals s c = (((cfg.server.pb.framesOf (s.hub.shared.out c)).map fun f =>
      (cfg.client c).pb.signalOf f.1 f.2).drop 1).filterMap id := by
  unfold ChatConfig.signals
  rw [signals_framesOf hl, List.drop_one, ← List.map_tail, ← List.map_tail, List.filterMap_map,
    ← List.filterMap_eq_map]
  rfl

/-- The bytes that have arrived at a client are the first of those of the frames. -/
theorem arrived_first (h : (chatSystem cfg).Reaches C s) (c : ConnId) :
    (s.peer c).shared.received ++ (s.peer c).shared.pending =
      (encodeFrames (cfg.server.pb.framesOf (s.hub.shared.out c))).take (s.down c) :=
  (Star.peer_got (client_gets cfg c) (server_grows cfg c) h).2

/-- The frames that a client uses are the first of those written to its connection. -/
theorem arrived_frames (h : (chatSystem cfg).Reaches C s) (hl : cfg.Linked) {c : ConnId}
    {fs : List WireFrame}
    (hfs : frameCode.IsLongest ((s.peer c).shared.received ++ (s.peer c).shared.pending) fs) :
    fs.map Subtype.val <+: cfg.server.pb.framesOf (s.hub.shared.out c) := by
  refine frames_of_prefix (fun g hg => ?_) (hfs.1.trans ?_)
  · have ⟨msg, _, hmsg⟩ := List.mem_filterMap.1 hg
    have ⟨payload, hserialize, hframe⟩ := Option.map_eq_some_iff.1 hmsg
    have hlen := hl.messageLength msg payload hserialize
    rw [← hframe]
    show payload.length < _
    omega
  · rw [arrived_first h c]
    exact List.take_prefix _ _

/-- The signals of a client are the first of those of the messages on its connection. -/
theorem emitted_signals (h : (chatSystem cfg).Reaches C s) (hl : cfg.Linked) (c : ConnId) :
    ∃ signals, signals <+: cfg.signals s c ∧
      (emitted (s.peer c).log = signals ∨
        emitted (s.peer c).log = signals ++ [.connectionLost]) := by
  have ⟨fs, hfs⟩ := PrefixCode.exists_isLongest frameCode
    ((s.peer c).shared.received ++ (s.peer c).shared.pending)
  have ⟨gs, hgs, hemitted⟩ := emitted_first (chat_client h c) hfs
  refine ⟨(cfg.client c).pb.signals gs, ?_, hemitted⟩
  rw [ClientProtobuf.signals_eq, ChatConfig.signals_eq hl]
  have hframes := (hgs.map Subtype.val).trans (arrived_frames h hl hfs)
  exact List.IsPrefix.filterMap id (List.IsPrefix.drop (List.IsPrefix.map _ hframes) 1)

end SimpleChat
