import SimpleChat.Client

/-!
# From the stream of the server to the slots of the window

What the client receives, compared with the bytes that have arrived.  The first
frame is the reply that `main` waits for, and each later one is a signal, if it
parses.  The signals are queued, and the event loop calls their slots.

`receiverMonitor` carries the reader of `recv_message` over the turns of
`NetworkThread::run`.  `Received` is the invariant: the bytes received are the frames
used and what was read since, and the signals are those of the frames, in order.
`signals_follow_stream` is the result for every reachable state.
-/

namespace SimpleChat

open Conc Function Data

/-! ## What the history says -/

abbrev ClientEvent := Event Client ClientTid

/-- The signals that were emitted. -/
def emitted (log : List ClientEvent) : List Signal :=
  log.filterMap fun e =>
    match e.op with
    | .emit s => some s
    | _ => none

/-- The events that were handled. -/
def guiEvents (log : List ClientEvent) : List GuiEvent :=
  log.filterMap fun
    | ⟨_, .nextEvent, r⟩ => some r.1
    | _ => none

def GuiEvent.asSignal : GuiEvent → Option Signal
  | .signal s => some s
  | _ => none

/-- The signals whose slots were called. -/
def delivered (log : List ClientEvent) : List Signal := (guiEvents log).filterMap GuiEvent.asSignal

theorem emitted_append (L R : List ClientEvent) : emitted (L ++ R) = emitted L ++ emitted R :=
  List.filterMap_append

theorem guiEvents_append (L R : List ClientEvent) :
    guiEvents (L ++ R) = guiEvents L ++ guiEvents R := List.filterMap_append

theorem delivered_append (L R : List ClientEvent) :
    delivered (L ++ R) = delivered L ++ delivered R := by
  unfold delivered
  rw [guiEvents_append, List.filterMap_append]

/-- An operation that says nothing to the window. -/
def ClientOp.Silent : ClientOp → Prop
  | .emit _ => False
  | .nextEvent => False
  | _ => True

theorem ClientOp.Silent.emitted {t : ClientTid} {o : ClientOp} {r : o.Resp} (h : o.Silent) :
    SimpleChat.emitted [(⟨t, o, r⟩ : ClientEvent)] = [] := by
  cases o <;> first | rfl | exact h.elim

theorem ClientOp.Silent.guiEvents {t : ClientTid} {o : ClientOp} {r : o.Resp} (h : o.Silent) :
    SimpleChat.guiEvents [(⟨t, o, r⟩ : ClientEvent)] = [] := by
  cases o <;> first | rfl | exact h.elim

/-! ## The discipline of the receivers -/

/-- The reply on which `main` shows the window. -/
def ClientProtobuf.Welcomes (pb : ClientProtobuf) (f : UInt8 × Bytes) : Prop :=
  f.1 = MsgType.SERVER_RESPONSE ∧ (pb.parseServerResponse f.2).all ServerResponse.isSuccessful

/-- What a thread has found out. -/
structure Receiver where
  /-- What was read since the last frame that was used. -/
  reading : Reading := {}
  /-- `running_` was true when it was loaded last, and no signal was emitted since. -/
  sure : Bool := false
  /-- `running_` was true when it was loaded after the last `recv`. -/
  checked : Bool := false
  /-- The window was shown, or the connection was reported as lost. -/
  done : Bool := false
  /-- The thread has begun to run. -/
  begun : Bool := false
  /-- The thread has set `running_` to false. -/
  stopped : Bool := false
  /-- The thread has shut the socket down. -/
  shut : Bool := false

def Receiver.after (q : Receiver) : (o : ClientOp) → o.Resp → Receiver
  | .recv _, r => { q with reading := q.reading.after r, checked := false }
  | .running, b => { q with sure := b, checked := b }
  | .showWindow, _ => { q with reading := {}, done := true }
  | .emit .connectionLost, _ => { q with sure := false, done := true }
  | .emit _, _ => { q with sure := false, reading := {} }
  | .started, _ => { q with begun := true }
  | .stopRunning, _ => { q with stopped := true }
  | .shutdown, _ => { q with shut := true }
  | _, _ => q

/-- A thread uses the frame that it has read, and a lost connection is reported where no
frame can be read. -/
def Receiver.Allows (pb : ClientProtobuf) (t : ClientTid) (q : Receiver) : ClientOp → Prop
  | .recv o =>
    (t = .network → q.begun = true) ∧ q.done = false ∧ readMonitor.guard q.reading o
  | .running => t = .network ∧ q.begun = true
  | .showWindow =>
    t = .main ∧ q.done = false ∧ ∃ f, ReadsFrame (some f) q.reading ∧ pb.Welcomes f
  | .emit s =>
    t = .network ∧ q.begun = true ∧ q.sure = true ∧ q.done = false ∧
      (s = .connectionLost ∧ q.reading.Done ∧ q.checked = true ∨
        ∃ f, ReadsFrame (some f) q.reading ∧ pb.signalOf f.1 f.2 = some s)
  | .started => t = .network
  | .stopRunning => t = .main
  | .shutdownRead => t = .main ∧ q.stopped = true
  | .shutdown => t = .main ∧ q.stopped = true
  | .send _ => t = .main ∧ (q.stopped = true → q.shut = true)
  | .nextEvent => t = .main
  | _ => True

def receiverMonitor (pb : ClientProtobuf) (t : ClientTid) : Prog.Monitor Client Receiver :=
  .det (fun q o => q.Allows pb t o) fun q o r => q.after o r

/-- What a thread has found out where it passes a control point. -/
def ReceiverAt (pb : ClientProtobuf) (t : ClientTid) : ClientCtl → Receiver → Prop
  | .main, q => t = .main ∧ q = {}
  | .events, q =>
    t = .main ∧ q.done = true ∧ q.reading = {} ∧ (q.stopped = true → q.shut = true)
  | .unstarted, q => t = .network ∧ q = {}
  | .run, q =>
    t = .network ∧ q.begun = true ∧ q.done = false ∧
      (q.reading = {} ∨ ∃ f, ReadsFrame (some f) q.reading ∧ pb.signalOf f.1 f.2 = none)
  | .finished, _ => True

section Programs

variable {cfg : ClientConfig} {t : ClientTid}

theorem obeys_receiver_call {α : Type} {o : ClientOp} {k : o.Resp → Prog Client α} {q : Receiver}
    {pb : ClientProtobuf} {post : α → Receiver → Prop} :
    (Prog.call (S := Client) o k).Obeys (receiverMonitor pb t) post q ↔
      q.Allows pb t o ∧ ∀ r, (k r).Obeys (receiverMonitor pb t) post (q.after o r) :=
  Prog.obeys_det_call

/-- No frame of the server is a lost connection. -/
theorem ClientProtobuf.signalOf_ne_lost (pb : ClientProtobuf) (msgType : UInt8) (payload : Bytes) :
    pb.signalOf msgType payload ≠ some .connectionLost := by
  unfold signalOf
  split_ifs <;> simp

/-- An operation of a function of `NetworkSender`. -/
inductive SenderOp : ClientOp → Prop where
  | lock : SenderOp .lock
  | unlock : SenderOp .unlock
  | send (o : SendOp) : SenderOp (.send o)

/-- Sending has nothing to do with receiving. -/
theorem senderOp_obeys {α : Type} {p : Prog Client α} (h : p.Only SenderOp) (pb : ClientProtobuf)
    {q : Receiver} (hstopped : q.stopped = true → q.shut = true) :
    p.Obeys (receiverMonitor pb .main) (fun _ q' => q' = q) q := by
  refine h.obeys (fun o ho => ?_) fun o r ho => ?_
  · cases ho with
    | lock | unlock => trivial
    | send o => exact ⟨rfl, hstopped⟩
  · cases ho <;> rfl

theorem sendRequest_only (cfg : ClientConfig) (msg : ClientRequest) :
    (sendRequest cfg msg).Only SenderOp := by
  have hall : ∀ {α : Type} (p : Prog Send α), p.Only fun _ => True := by
    intro α p
    induction p with
    | ret a => trivial
    | call o k ih => exact ⟨trivial, ih⟩
  exact (hall _).lift fun o _ => .send o

theorem NetworkSender.send_only (cfg : ClientConfig) (msg : ClientRequest) :
    (NetworkSender.send cfg msg).Only SenderOp := by
  refine ⟨.lock, fun _ => ?_⟩
  exact (sendRequest_only cfg msg).bind fun _ => ⟨.unlock, fun _ => trivial⟩

/-- A slot sends its message as it is. -/
theorem sendMsg_eq (cfg : ClientConfig) (msg : ClientMsg) :
    sendMsg cfg msg = (NetworkSender.send cfg (.window msg) >>= fun _ => pure ()) := by
  cases msg <;> rfl

theorem sendMsgs_only (cfg : ClientConfig) (msgs : List ClientMsg) :
    (msgs.forM fun msg => sendMsg cfg msg).Only SenderOp := by
  refine .forM fun msg _ => ?_
  rw [sendMsg_eq]
  exact (NetworkSender.send_only cfg _).bind fun _ => trivial

/-- `recv_message` keeps the discipline. -/
theorem clientRecv_obeys (fd : Fd) (pb : ClientProtobuf) {q : Receiver} (hreading : q.reading = {})
    (hdone : q.done = false) (hbegun : t = .network → q.begun = true) :
    ((recvMessage fd).lift clientRecv).Obeys (receiverMonitor pb t)
      (fun r q' => ReadsFrame r q'.reading ∧ q'.done = false ∧ q'.sure = q.sure ∧
        q'.begun = q.begun ∧ q'.stopped = q.stopped) q := by
  have hlift : ((recvMessage fd).lift clientRecv).Obeys (receiverMonitor pb t)
      (fun r q' => ∃ a, (q'.reading = a ∧ q'.done = false ∧ q'.sure = q.sure ∧
        q'.begun = q.begun ∧ q'.stopped = q.stopped) ∧ ReadsFrame r a) q := by
    refine (recvMessage_obeys fd).lift_along
      (R := fun a (q' : Receiver) => q'.reading = a ∧ q'.done = false ∧ q'.sure = q.sure ∧
        q'.begun = q.begun ∧ q'.stopped = q.stopped) ?_ ?_ ⟨hreading, hdone, rfl, rfl, rfl⟩
    · intro a q' o ⟨ha, hq', _, hb, _⟩ hguard
      exact ⟨fun ht => hb.trans (hbegun ht), hq', ha ▸ hguard⟩
    · intro a q' o r a' ⟨ha, hrest⟩ hnext
      refine ⟨_, rfl, ?_, hrest⟩
      rw [show a' = a.after r from hnext, ← ha]
      rfl
  exact hlift.weaken fun r q' ⟨a, ⟨ha, hrest⟩, hr⟩ => ⟨ha ▸ hr, hrest⟩

theorem clientMain_receives :
    (clientMain cfg).Obeys (receiverMonitor cfg.pb .main) (ReceiverAt cfg.pb .main) {} := by
  unfold clientMain
  have hclose : ∀ q : Receiver, (Prog.perform (S := Client) .close >>= fun _ =>
      (pure .finished : Prog Client ClientCtl)).Obeys (receiverMonitor cfg.pb .main)
        (ReceiverAt cfg.pb .main) q :=
    fun q => obeys_receiver_call.2 ⟨trivial, fun _ => trivial⟩
  have hsend := sendRequest_only cfg (.register ⟨cfg.username, cfg.localIp⟩)
  refine (senderOp_obeys (q := {}) hsend cfg.pb nofun).bind fun ok q hq => ?_
  subst hq
  cases ok with
  | false => exact hclose {}
  | true =>
    show Prog.Obeys _ _ (_ >>= _) _
    refine (clientRecv_obeys (t := .main) (q := {}) cfg.socketFd cfg.pb rfl rfl nofun).bind
      fun frame q hq => ?_
    cases frame with
    | none => exact hclose q
    | some frame =>
      have ⟨hframe, hdone, _, _, hstopped⟩ := hq
      dsimp only
      split
      · rename_i hwelcome
        exact obeys_receiver_call.2
          ⟨⟨rfl, hdone, frame, hframe, hwelcome⟩,
            fun _ => ⟨rfl, rfl, rfl, fun hs => absurd (hstopped.symm.trans hs) (by decide)⟩⟩
      · exact hclose q

theorem eventLoop_receives {q : Receiver} (h : ReceiverAt cfg.pb .main .events q) :
    (eventLoop cfg).Obeys (receiverMonitor cfg.pb .main) (ReceiverAt cfg.pb .main) q := by
  have ⟨_, hdone, hreading, hstopped⟩ := h
  unfold eventLoop
  refine obeys_receiver_call.2 ⟨rfl, fun handled => ?_⟩
  show Prog.Obeys _ _ (if handled.1 = .close then _ else if handled.1 = .quit then _ else _) q
  split_ifs
  · have hquit := NetworkSender.send_only cfg (.quit ⟨true, cfg.localIp⟩)
    unfold closeEvent
    rw [LawfulMonad.bind_assoc]
    refine (senderOp_obeys hquit cfg.pb hstopped).bind fun _ q' hq' => ?_
    subst hq'
    refine obeys_receiver_call.2 ⟨rfl, fun _ => obeys_receiver_call.2 ⟨⟨rfl, rfl⟩, fun _ => ?_⟩⟩
    refine obeys_receiver_call.2 ⟨⟨rfl, rfl⟩, fun _ => obeys_receiver_call.2 ⟨trivial, fun _ => ?_⟩⟩
    exact ⟨rfl, hdone, hreading, fun _ => rfl⟩
  · trivial
  · refine (senderOp_obeys (sendMsgs_only cfg _) cfg.pb hstopped).bind fun _ q' hq' => ?_
    subst hq'
    exact h

theorem networkRun_receives {q : Receiver} (hreading : q.reading = {}) (hdone : q.done = false)
    (hbegun : q.begun = true) :
    (networkRun cfg).Obeys (receiverMonitor cfg.pb .network) (ReceiverAt cfg.pb .network) q := by
  unfold networkRun
  refine obeys_receiver_call.2 ⟨⟨rfl, hbegun⟩, fun running => ?_⟩
  cases running with
  | false => trivial
  | true =>
    have hreading' : (q.after .running true).reading = {} := hreading
    show Prog.Obeys _ _ ((recvMessage cfg.socketFd).lift clientRecv >>= _) (q.after .running true)
    refine (clientRecv_obeys cfg.socketFd cfg.pb hreading' hdone fun _ => hbegun).bind
      fun frame q' hq' => ?_
    have ⟨hframe, hdone', hsure, hb, _⟩ := hq'
    have hbegun' : q'.begun = true := hb.trans hbegun
    cases frame with
    | none =>
      refine obeys_receiver_call.2 ⟨⟨rfl, hbegun'⟩, fun running => ?_⟩
      cases running with
      | false => trivial
      | true =>
        exact obeys_receiver_call.2
          ⟨⟨rfl, hbegun', rfl, hdone', Or.inl ⟨rfl, hframe, rfl⟩⟩, fun _ => trivial⟩
    | some frame =>
      dsimp only
      cases hsignal : cfg.pb.signalOf frame.1 frame.2 with
      | none => exact ⟨rfl, hbegun', hdone', Or.inr ⟨frame, hframe, hsignal⟩⟩
      | some s =>
        refine obeys_receiver_call.2
          ⟨⟨rfl, hbegun', hsure, hdone', Or.inr ⟨frame, hframe, hsignal⟩⟩, fun _ => ?_⟩
        -- The signal of a frame leaves nothing of it.
        cases s with
        | connectionLost => exact absurd hsignal (cfg.pb.signalOf_ne_lost _ _)
        | serverResponseReceived | allUsersReceived | forDmReceived | broadcastReceived
        | userInfoReceived => exact ⟨rfl, hbegun', hdone', Or.inl rfl⟩

/-- Every turn of a thread keeps the discipline, once it has used up what it has read. -/
theorem clientProgram_receives {ctl : ClientCtl} {q : Receiver} (h : ReceiverAt cfg.pb t ctl q)
    (hrun : ctl = .run → q.reading = {}) :
    (ctl.program cfg).Obeys (receiverMonitor cfg.pb t) (ReceiverAt cfg.pb t) q := by
  cases ctl with
  | main =>
    obtain ⟨rfl, rfl⟩ := h
    exact clientMain_receives
  | events =>
    obtain ⟨rfl, -⟩ := id h
    exact eventLoop_receives h
  | unstarted =>
    obtain ⟨rfl, rfl⟩ := h
    exact obeys_receiver_call.2 ⟨rfl, fun _ => ⟨rfl, rfl, rfl, Or.inl rfl⟩⟩
  | run =>
    obtain ⟨rfl, hbegun, hdone, -⟩ := h
    exact networkRun_receives (hrun rfl) hdone hbegun
  | finished => trivial

end Programs

/-! ## One call of `recv` -/

/-- The bytes that a call of `recv` gave. -/
def gotten {n : Nat} (r : Option {bs : Bytes // bs.length ≤ n}) : Bytes := r.elim [] Subtype.val

theorem Reading.after_got {n : Nat} (q : Reading) (r : Option {bs : Bytes // bs.length ≤ n}) :
    (q.after r).got = q.got ++ gotten r := by
  match r with
  | none => exact (List.append_nil _).symm
  | some ⟨[], _⟩ => exact (List.append_nil _).symm
  | some ⟨b :: bs, _⟩ => rfl

/-- A reader stops where `recv` gave nothing. -/
theorem Reading.after_ending {n : Nat} {q : Reading} (h : q.ending = none)
    {r : Option {bs : Bytes // bs.length ≤ n}} {ending : Ending}
    (hend : (q.after r).ending = some ending) :
    ending = .error ∧ r = none ∨ ending = .eof ∧ r ≠ none ∧ gotten r = [] := by
  match r with
  | none => exact Or.inl ⟨(Option.some.inj hend).symm, rfl⟩
  | some ⟨[], _⟩ => exact Or.inr ⟨(Option.some.inj hend).symm, Option.some_ne_none _, rfl⟩
  | some ⟨b :: bs, _⟩ =>
    have hnone : (none : Option Ending) = some ending := h.symm.trans hend
    cases hnone

/-- What `recv` does: it moves bytes from those that have arrived, and gives none if
there are none and none will come. -/
theorem ClientMemory.recv_spec {qt : Qt} {m m' : ClientMemory qt} {o : RecvOp} {ch : ClientChoice}
    {r : Option {bs : Bytes // bs.length ≤ o.len}} (h : m.recv o ch = some (r, m')) :
    m.pending = gotten r ++ m'.pending ∧
      m' = { m with pending := m'.pending, received := m.received ++ gotten r } ∧
      (0 < o.len → r ≠ none → gotten r = [] →
        m.pending = [] ∧ (m.eof = true ∨ m.readShut = true)) := by
  unfold recv at h
  split_ifs at h with hfail hnil hend
  · cases h
    exact ⟨rfl, by simp [gotten], fun _ hr => absurd rfl hr⟩
  · cases h
    exact ⟨rfl, by simp [gotten], fun _ _ _ => ⟨hnil, hend⟩⟩
  · cases h
    refine ⟨?_, rfl, fun hlen _ hgot => ?_⟩
    · exact (List.prefix_iff_eq_append.1 (List.take_prefix _ _)).symm
    · have hpos : 0 < m.pending.length := List.length_pos_iff.2 hnil
      have hzero := congrArg List.length hgot
      simp only [gotten, Option.elim_some, List.length_take, List.length_nil] at hzero
      omega

/-- What the next event does: its slot is called, and a signal leaves the queue. -/
theorem ClientMemory.nextEvent_spec {qt : Qt} {m m' : ClientMemory qt} {event : GuiEvent}
    {r : GuiEvent × List ClientMsg} (h : m.nextEvent event = some (r, m')) :
    r.1 = event ∧ m.ready event = true ∧ m.window.handle event = some (m'.window, r.2) ∧
      m.posted = event.asSignal.toList ++ m'.posted ∧
      m' = { m with
        window := m'.window, posted := m'.posted, closing := m.closing || event = .close } := by
  unfold nextEvent at h
  have ⟨hready, h⟩ := Option.ite_none_right_eq_some.1 h
  have ⟨x, hx, he⟩ := Option.map_eq_some_iff.1 h
  cases he
  refine ⟨rfl, hready, hx, ?_, rfl⟩
  cases event with
  | signal s =>
    cases hposted : m.posted with
    | nil => simp [ready, hposted] at hready
    | cons s' rest =>
      simp only [ready, hposted, List.head?_cons, decide_eq_true_eq, Option.some.injEq] at hready
      rw [hready]
      rfl
  | user | close | quit => rfl

/-- What `send` does: it fails, or it takes some of the bytes. -/
theorem ClientMemory.send_spec {qt : Qt} (m : ClientMemory qt) (o : SendOp) (ch : ClientChoice) :
    ((m.send o ch).1.val ≤ 0 ∧
      (m.send o ch).2 = { m with failed := m.failed || !m.hungUp }) ∨
      (∃ n : Nat, (m.send o ch).1.val = n ∧ n ≤ o.buf.length ∧ (o.buf ≠ [] → 0 < n) ∧
        m.hungUp = false ∧ (m.send o ch).2 = { m with wire := m.wire ++ o.buf.take n }) := by
  unfold send
  split_ifs with hshut hfails
  · have hsame : (m.failed || !m.hungUp) = m.failed := by simp [hshut]
    rw [hsame]
    exact Or.inl ⟨Int.negSucc_le_zero 0, rfl⟩
  · have hopen : (m.failed || !m.hungUp) = true := by simp [hshut]
    rw [hopen]
    exact Or.inl ⟨Int.negSucc_le_zero 0, rfl⟩
  · right
    refine ⟨moved ch.want o.buf.length, rfl, Nat.min_le_right _ _, fun hne => ?_,
      Bool.eq_false_of_not_eq_true hshut, rfl⟩
    exact moved_pos (List.length_pos_iff.2 hne)

/-! ## The invariant -/

/-- The signals of the frames after the first, which is the reply to the Register
message. -/
def ClientProtobuf.signals (pb : ClientProtobuf) (fs : List WireFrame) : List Signal :=
  fs.tail.filterMap fun f => pb.signalOf f.1.1 f.1.2

/-- The client has used the frames `fs`. -/
structure Received {qt : Qt} (pb : ClientProtobuf) (m : ClientMemory qt) (log : List ClientEvent)
    (main net : Receiver) (fs : List WireFrame) : Prop where
  received : m.received = frameCode.concat fs ++ (main.reading.got ++ net.reading.got)
  emitted : emitted log = pb.signals fs ++ if net.done then [.connectionLost] else []
  queued : delivered log ++ m.posted = SimpleChat.emitted log
  unshown : m.shown = false → fs = [] ∧ main.done = false ∧ net = {}
  shown : m.shown = true → main.done = true ∧ main.reading = {} ∧
    ∃ f rest, fs = f :: rest ∧ pb.Welcomes f.1
  stopped : main.stopped = true → m.running = false
  readShut : m.readShut = true → m.running = false
  /-- Nothing comes after the end of the stream, but for the bytes that arrive after
  `stopThread`. -/
  eof : net.reading.ending = some .eof → m.eof = true ∧ m.pending = [] ∨
    m.readShut = true ∧ net.checked = false ∧ net.done = false
  lost : net.done = true → net.reading.Done
  error : net.reading.ending = some .error →
    ∃ o, (⟨.network, .recv o, none⟩ : ClientEvent) ∈ log
  noQuit : net.reading.ending ≠ some .quit

namespace Received

variable {qt : Qt} {pb : ClientProtobuf} {m m' : ClientMemory qt} {log : List ClientEvent}
  {main net : Receiver} {fs : List WireFrame}

/-- An operation that neither receives nor says anything to the window. -/
theorem silent (h : Received pb m log main net fs) {e : ClientEvent} (he : e.op.Silent)
    (hreceived : m'.received = m.received) (hposted : m'.posted = m.posted)
    (hshown : m'.shown = m.shown) (hrunning : m'.running = m.running)
    (hreadShut : m'.readShut = m.readShut) (heof : m'.eof = m.eof)
    (hpending : m'.pending = m.pending) : Received pb m' (log ++ [e]) main net fs where
  received := by rw [hreceived, h.received]
  emitted := by rw [emitted_append, he.emitted, List.append_nil, h.emitted]
  queued := by
    unfold delivered
    rw [emitted_append, guiEvents_append, he.emitted, he.guiEvents, List.append_nil,
      List.append_nil, hposted]
    exact h.queued
  unshown := by rw [hshown]; exact h.unshown
  shown := by rw [hshown]; exact h.shown
  stopped := by rw [hrunning]; exact h.stopped
  readShut := by rw [hreadShut, hrunning]; exact h.readShut
  eof := by rw [heof, hpending, hreadShut]; exact h.eof
  lost := h.lost
  error hend := by
    have ⟨o, ho⟩ := h.error hend
    exact ⟨o, List.mem_append_left _ ho⟩
  noQuit := h.noQuit

/-- A thread has received. -/
theorem recv (h : Received pb m log main net fs) {t : ClientTid} {o : RecvOp} {ch : ClientChoice}
    {r : Option {bs : Bytes // bs.length ≤ o.len}} (he : m.recv o ch = some (r, m'))
    {q : Receiver} (hq : q = if t = .main then main else net) (hguard : q.Allows pb t (.recv o)) :
    Received pb m' (log ++ [⟨t, .recv o, r⟩]) (if t = .main then q.after (.recv o) r else main)
      (if t = .main then net else q.after (.recv o) r) fs := by
  have ⟨hpending, hm, hend⟩ := ClientMemory.recv_spec he
  have ⟨hbegun, hdone, hlen, _, hopen⟩ := hguard
  have hlog : SimpleChat.emitted (log ++ [(⟨t, .recv o, r⟩ : ClientEvent)]) =
      SimpleChat.emitted log := by rw [emitted_append]; exact List.append_nil _
  have hgui : delivered (log ++ [(⟨t, .recv o, r⟩ : ClientEvent)]) = delivered log := by
    rw [delivered_append]
    exact List.append_nil _
  have hrecv : m'.received = m.received ++ gotten r := by rw [hm]
  have hshown : m'.shown = m.shown := by rw [hm]
  have hrunning : m'.running = m.running := by rw [hm]
  have hreadShut : m'.readShut = m.readShut := by rw [hm]
  have heof : m'.eof = m.eof := by rw [hm]
  have hposted : m'.posted = m.posted := by rw [hm]
  cases t with
  | main =>
    rw [if_pos rfl] at hq
    subst hq
    rw [if_pos rfl, if_pos rfl]
    -- `main` receives before the window is shown, and then there is no other receiver.
    have hun : m.shown = false := by
      by_contra hne
      rw [Bool.not_eq_false] at hne
      exact absurd ((h.shown hne).1.symm.trans hdone) (by decide)
    have ⟨hfs, _, hnet⟩ := h.unshown hun
    refine ⟨?_, hlog.trans h.emitted, ?_, fun _ => ⟨hfs, hdone, hnet⟩, fun hs => ?_, ?_, ?_, ?_,
      h.lost, fun herr => ?_, h.noQuit⟩
    · rw [hrecv, h.received, hnet]
      show _ = frameCode.concat fs ++ ((q.reading.after r).got ++ [])
      rw [Reading.after_got]
      simp
    · rw [hgui, hposted, hlog]
      exact h.queued
    · rw [hshown, hun] at hs
      cases hs
    · rw [hrunning]
      exact h.stopped
    · rw [hreadShut, hrunning]
      exact h.readShut
    · rw [hnet]
      exact nofun
    · rw [hnet] at herr
      cases herr
  | network =>
    rw [if_neg nofun] at hq
    subst hq
    rw [if_neg nofun, if_neg nofun]
    have hs : m.shown = true := by
      by_contra hne
      rw [Bool.not_eq_true] at hne
      have hnet := (h.unshown hne).2.2
      have hb := hbegun rfl
      rw [hnet] at hb
      cases hb
    refine ⟨?_, hlog.trans h.emitted, ?_, fun hun => ?_, fun _ => h.shown hs, ?_, ?_, fun hstop => ?_,
      fun hlost => ?_, fun herr => ?_, fun hquit => ?_⟩
    · rw [hrecv, h.received]
      show _ = frameCode.concat fs ++ (main.reading.got ++ (q.reading.after r).got)
      rw [Reading.after_got]
      simp
    · rw [hgui, hposted, hlog]
      exact h.queued
    · rw [hshown, hs] at hun
      cases hun
    · rw [hrunning]
      exact h.stopped
    · rw [hreadShut, hrunning]
      exact h.readShut
    · rcases Reading.after_ending hopen hstop with ⟨hne, _⟩ | ⟨_, hr, hgot⟩
      · cases hne
      · have ⟨hnil, hwhy⟩ := hend hlen hr hgot
        have hnil' : m'.pending = [] := by
          rw [hpending, List.append_eq_nil_iff] at hnil
          exact hnil.2
        rcases hwhy with hwhy | hwhy
        · exact Or.inl ⟨heof.trans hwhy, hnil'⟩
        · exact Or.inr ⟨hreadShut.trans hwhy, rfl, hdone⟩
    · exact absurd (hdone.symm.trans hlost) (by decide)
    · rcases Reading.after_ending hopen herr with ⟨_, hr⟩ | ⟨hne, _⟩
      · subst hr
        exact ⟨o, List.mem_append_right _ List.mem_cons_self⟩
      · cases hne
    · rcases Reading.after_ending hopen hquit with ⟨hne, _⟩ | ⟨hne, _⟩ <;> cases hne

/-- The window is shown on the reply that was read. -/
theorem showWindow (h : Received pb m log main net fs)
    (hguard : main.Allows pb .main .showWindow) :
    ∃ fs', Received pb { m with shown := true } (log ++ [⟨.main, .showWindow, ()⟩])
      (main.after .showWindow ()) net fs' := by
  have ⟨_, hdone, f, ⟨hmax, hread⟩, hwelcome⟩ := hguard
  have hun : m.shown = false := by
    by_contra hne
    rw [Bool.not_eq_false] at hne
    exact absurd ((h.shown hne).1.symm.trans hdone) (by decide)
  have ⟨hfs, _, hnet⟩ := h.unshown hun
  have hsilent : Received pb m (log ++ [⟨.main, .showWindow, ()⟩]) main net fs :=
    h.silent trivial rfl rfl rfl rfl rfl rfl rfl
  refine ⟨[⟨f, hmax⟩], ?_, ?_, hsilent.queued, nofun, fun _ => ⟨rfl, rfl, _, _, rfl, hwelcome⟩,
    h.stopped, h.readShut, h.eof, h.lost, hsilent.error, h.noQuit⟩
  · show m.received = _
    rw [h.received, hfs, hread]
    simp [frameCode, Receiver.after]
  · rw [hsilent.emitted, hfs]
    rfl

/-- The other thread has begun. -/
theorem started (h : Received pb m log main net fs) (hshown : m.shown = true) :
    Received pb m (log ++ [⟨.network, .started, ()⟩]) main (net.after .started ()) fs := by
  have hsilent : Received pb m (log ++ [⟨.network, .started, ()⟩]) main net fs :=
    h.silent trivial rfl rfl rfl rfl rfl rfl rfl
  exact ⟨hsilent.received, hsilent.emitted, hsilent.queued,
    fun hun => absurd (hshown.symm.trans hun) (by decide), hsilent.shown, hsilent.stopped,
    hsilent.readShut, hsilent.eof, hsilent.lost, hsilent.error, hsilent.noQuit⟩

/-- The other thread has loaded `running_`. -/
theorem running (h : Received pb m log main net fs) (hbegun : net.begun = true) :
    Received pb m (log ++ [⟨.network, .running, m.running⟩]) main
      (net.after .running m.running) fs := by
  have hsilent : Received pb m (log ++ [⟨.network, .running, m.running⟩]) main net fs :=
    h.silent trivial rfl rfl rfl rfl rfl rfl rfl
  refine ⟨hsilent.received, hsilent.emitted, hsilent.queued, fun hun => ?_, hsilent.shown,
    hsilent.stopped, hsilent.readShut, fun hend => ?_, hsilent.lost, hsilent.error, hsilent.noQuit⟩
  · have hnet := (hsilent.unshown hun).2.2
    rw [hnet] at hbegun
    cases hbegun
  · -- If the stream ended by `stopThread`, then `running_` is false.
    rcases h.eof hend with hleft | ⟨hshut, _, hdone⟩
    · exact Or.inl hleft
    · exact Or.inr ⟨hshut, h.readShut hshut, hdone⟩

/-- A signal was queued. -/
theorem emit (h : Received pb m log main net fs) {s : Signal}
    (hguard : net.Allows pb .network (.emit s)) :
    ∃ fs', Received pb { m with posted := m.posted ++ [s] } (log ++ [⟨.network, .emit s, ()⟩]) main
      (net.after (.emit s) ()) fs' := by
  have ⟨_, hbegun, _, hdone, hwhy⟩ := hguard
  have hs : m.shown = true := by
    by_contra hne
    rw [Bool.not_eq_true] at hne
    have hnet := (h.unshown hne).2.2
    rw [hnet] at hbegun
    cases hbegun
  have hemitted : SimpleChat.emitted (log ++ [(⟨.network, .emit s, ()⟩ : ClientEvent)]) =
      pb.signals fs ++ [s] := by
    rw [emitted_append, h.emitted, hdone]
    simp [SimpleChat.emitted]
  have hqueued : delivered (log ++ [(⟨.network, .emit s, ()⟩ : ClientEvent)]) ++ (m.posted ++ [s]) =
      SimpleChat.emitted (log ++ [(⟨.network, .emit s, ()⟩ : ClientEvent)]) := by
    have hsame : delivered (log ++ [(⟨.network, .emit s, ()⟩ : ClientEvent)]) = delivered log := by
      rw [delivered_append]
      exact List.append_nil _
    rw [hsame, ← List.append_assoc, h.queued, emitted_append]
    rfl
  have herror : ∀ {o}, (⟨.network, .recv o, none⟩ : ClientEvent) ∈ log →
      (⟨.network, .recv o, none⟩ : ClientEvent) ∈ log ++ [⟨.network, .emit s, ()⟩] :=
    fun ho => List.mem_append_left _ ho
  rcases hwhy with ⟨hlost, hread, hchecked⟩ | ⟨f, ⟨hmax, hread⟩, hsignal⟩
  · subst hlost
    refine ⟨fs, h.received, hemitted, hqueued, fun hun => absurd (hs.symm.trans hun) (by decide),
      h.shown, h.stopped, h.readShut, fun hend => ?_, fun _ => hread, fun hend => ?_, h.noQuit⟩
    · rcases h.eof hend with hleft | ⟨_, hno, _⟩
      · exact Or.inl hleft
      · exact absurd (hchecked.symm.trans hno) (by decide)
    · have ⟨o, ho⟩ := h.error hend
      exact ⟨o, herror ho⟩
  · have hne : s ≠ .connectionLost := fun heq => pb.signalOf_ne_lost _ _ (heq ▸ hsignal)
    have hafter : net.after (.emit s) () = { net with sure := false, reading := {} } := by
      cases s with
      | connectionLost => exact absurd rfl hne
      | serverResponseReceived | allUsersReceived | forDmReceived | broadcastReceived
      | userInfoReceived => rfl
    have ⟨hmain, hmainRead, g, rest, hfs, hwelcome⟩ := h.shown hs
    rw [hafter]
    refine ⟨fs ++ [⟨f, hmax⟩], ?_, ?_, hqueued, fun hun => absurd (hs.symm.trans hun) (by decide),
      fun _ => ⟨hmain, hmainRead, g, rest ++ [⟨f, hmax⟩], by rw [hfs]; rfl, hwelcome⟩, h.stopped,
      h.readShut, nofun, fun hd => absurd (hdone.symm.trans hd) (by decide), nofun, nofun⟩
    · show m.received = _
      rw [h.received, hread, hmainRead, PrefixCode.concat_append]
      simp [frameCode]
    · rw [hemitted]
      show _ = _ ++ if net.done = true then _ else _
      rw [hdone, hfs]
      simp [ClientProtobuf.signals, hsignal]

/-- An event was handled. -/
theorem nextEvent (h : Received pb m log main net fs) {t : ClientTid} {event : GuiEvent}
    {r : GuiEvent × List ClientMsg} (he : m.nextEvent event = some (r, m')) :
    Received pb m' (log ++ [⟨t, .nextEvent, r⟩]) main net fs := by
  have hlog : SimpleChat.emitted (log ++ [(⟨t, .nextEvent, r⟩ : ClientEvent)]) =
      SimpleChat.emitted log := by rw [emitted_append]; exact List.append_nil _
  have hgui : delivered (log ++ [(⟨t, .nextEvent, r⟩ : ClientEvent)]) =
      delivered log ++ r.1.asSignal.toList := by
    rw [delivered_append]
    cases hsignal : r.1.asSignal <;> simp [delivered, guiEvents, hsignal]
  have ⟨hevent, _, _, hposted, hm⟩ := ClientMemory.nextEvent_spec he
  rw [← hevent] at hposted
  rw [hm]
  refine ⟨h.received, hlog.trans h.emitted, ?_, h.unshown, h.shown, h.stopped, h.readShut, h.eof,
    h.lost, fun hend => ?_, h.noQuit⟩
  · rw [hgui, hlog, List.append_assoc, ← hposted]
    exact h.queued
  · have ⟨o, ho⟩ := h.error hend
    exact ⟨o, List.mem_append_left _ ho⟩

/-- `running_` was set to false. -/
theorem stopRunning (h : Received pb m log main net fs) :
    Received pb { m with running := false } (log ++ [⟨.main, .stopRunning, ()⟩])
      (main.after .stopRunning ()) net fs := by
  have hsilent : Received pb m (log ++ [⟨.main, .stopRunning, ()⟩]) main net fs :=
    h.silent trivial rfl rfl rfl rfl rfl rfl rfl
  exact ⟨hsilent.received, hsilent.emitted, hsilent.queued, hsilent.unshown, hsilent.shown,
    fun _ => rfl, fun _ => rfl, hsilent.eof, hsilent.lost, hsilent.error, hsilent.noQuit⟩

/-- The receiving side was shut, by the thread that has set `running_` to false. -/
theorem shut (h : Received pb m log main net fs) {e : ClientEvent} (he : e.op.Silent)
    (hstopped : main.stopped = true) (hungUp shut : Bool) :
    Received pb { m with readShut := true, hungUp := hungUp } (log ++ [e])
      { main with shut := shut } net fs := by
  have hsilent : Received pb m (log ++ [e]) main net fs := h.silent he rfl rfl rfl rfl rfl rfl rfl
  refine ⟨hsilent.received, hsilent.emitted, hsilent.queued, hsilent.unshown, hsilent.shown,
    hsilent.stopped, fun _ => h.stopped hstopped, fun hend => ?_, hsilent.lost, hsilent.error,
    hsilent.noQuit⟩
  exact (h.eof hend).imp_right fun hshut => ⟨rfl, hshut.2⟩

/-- The other thread goes on with the loop, and drops a frame that has no signal. -/
theorem loop (h : Received pb m log main net fs) (hshown : m.shown = true)
    (hrun : net.done = false ∧ (net.reading = {} ∨
      ∃ f, ReadsFrame (some f) net.reading ∧ pb.signalOf f.1 f.2 = none)) :
    ∃ fs', Received pb m log main { net with reading := {} } fs' := by
  obtain ⟨hdone, hempty | ⟨f, ⟨hmax, hread⟩, hsignal⟩⟩ := hrun
  · have hsame : { net with reading := {} } = net := by rw [← hempty]
    rw [hsame]
    exact ⟨fs, h⟩
  · have ⟨hmain, hmainRead, g, rest, hfs, hwelcome⟩ := h.shown hshown
    refine ⟨fs ++ [⟨f, hmax⟩], ?_, ?_, h.queued,
      fun hun => absurd (hshown.symm.trans hun) (by decide),
      fun _ => ⟨hmain, hmainRead, g, rest ++ [⟨f, hmax⟩], by rw [hfs]; rfl, hwelcome⟩, h.stopped,
      h.readShut, nofun, fun hd => absurd (hdone.symm.trans hd) (by decide), nofun, nofun⟩
    · rw [h.received, hread, hmainRead, PrefixCode.concat_append]
      simp [frameCode]
    · rw [h.emitted, hfs]
      simp [ClientProtobuf.signals, hsignal]

end Received

/-! ## The invariant over whole runs -/

/-- The invariant of the receivers. -/
def Follows {qt : Qt} (pb : ClientProtobuf) (p : ClientState qt) (qs : ClientTid → Receiver) : Prop :=
  ∃ fs, Received pb p.shared p.log (qs .main) (qs .network) fs

theorem follows_main {qt : Qt} {pb : ClientProtobuf} {p : ClientState qt} {qs : ClientTid → Receiver}
    {q : Receiver} {fs : List WireFrame} (h : Received pb p.shared p.log q (qs .network) fs) :
    Follows pb p (update qs .main q) := by
  refine ⟨fs, ?_⟩
  rw [update_self, update_of_ne ClientTid.noConfusion]
  exact h

theorem follows_network {qt : Qt} {pb : ClientProtobuf} {p : ClientState qt}
    {qs : ClientTid → Receiver} {q : Receiver} {fs : List WireFrame}
    (h : Received pb p.shared p.log (qs .main) q fs) : Follows pb p (update qs .network q) := by
  refine ⟨fs, ?_⟩
  rw [update_self, update_of_ne ClientTid.noConfusion]
  exact h

variable {cfg : ClientConfig}

/-- What an operation does to the receivers. -/
theorem receivers_op {p : ClientState cfg.qt} {qs : ClientTid → Receiver} {t : ClientTid}
    {o : ClientOp} {k : o.Resp → Prog Client ClientCtl} {ch : ClientChoice} {r : o.Resp}
    {m : ClientMemory cfg.qt} (h : Follows cfg.pb p qs)
    (he : p.shared.exec t o ch = some (r, m)) (hguard : (qs t).Allows cfg.pb t o) :
    Follows cfg.pb (p.afterOp (S := Client) t o k r m) (update qs t ((qs t).after o r)) := by
  obtain ⟨fs, hJ⟩ := h
  -- The operations that no receiver takes notice of.
  have hsilent : o.Silent → (qs t).after o r = qs t → m.received = p.shared.received →
      m.posted = p.shared.posted → m.shown = p.shared.shown → m.running = p.shared.running →
      m.readShut = p.shared.readShut → m.eof = p.shared.eof → m.pending = p.shared.pending →
      Follows cfg.pb (p.afterOp (S := Client) t o k r m) (update qs t ((qs t).after o r)) := by
    intro ho hsame h1 h2 h3 h4 h5 h6 h7
    rw [hsame, update_eq_self]
    exact ⟨fs, hJ.silent ho h1 h2 h3 h4 h5 h6 h7⟩
  cases o with
  | recv o =>
    cases t with
    | main => exact follows_main (hJ.recv (t := .main) he rfl hguard)
    | network => exact follows_network (hJ.recv (t := .network) he rfl hguard)
  | running =>
    obtain ⟨rfl, hbegun⟩ := hguard
    cases he
    exact follows_network (hJ.running hbegun)
  | showWindow =>
    obtain ⟨rfl, -⟩ := id hguard
    cases he
    have ⟨fs', hJ'⟩ := hJ.showWindow hguard
    exact follows_main hJ'
  | emit s =>
    obtain ⟨rfl, -⟩ := id hguard
    cases he
    have ⟨fs', hJ'⟩ := hJ.emit hguard
    exact follows_network hJ'
  | started =>
    obtain rfl := hguard
    have ⟨hshown, he⟩ := Option.ite_none_right_eq_some.1 he
    cases he
    exact follows_network (hJ.started hshown)
  | nextEvent =>
    show Follows _ _ (update qs t (qs t))
    rw [update_eq_self]
    exact ⟨fs, hJ.nextEvent he⟩
  | stopRunning =>
    obtain rfl := hguard
    cases he
    exact follows_main hJ.stopRunning
  | shutdownRead =>
    obtain ⟨rfl, hstopped⟩ := hguard
    cases he
    exact follows_main (hJ.shut (e := ⟨.main, .shutdownRead, ()⟩) trivial hstopped p.shared.hungUp
      (qs .main).shut)
  | shutdown =>
    obtain ⟨rfl, hstopped⟩ := hguard
    cases he
    exact follows_main (hJ.shut (e := ⟨.main, .shutdown, ()⟩) trivial hstopped true true)
  | send o =>
    have hm : p.shared.send o ch = (r, m) := Option.some.inj he
    unfold ClientMemory.send at hm
    split_ifs at hm <;> cases hm <;> exact hsilent trivial rfl rfl rfl rfl rfl rfl rfl rfl
  | lock =>
    have ⟨_, he⟩ := Option.ite_none_right_eq_some.1 he
    cases he
    exact hsilent trivial rfl rfl rfl rfl rfl rfl rfl rfl
  | unlock | close =>
    cases he
    exact hsilent trivial rfl rfl rfl rfl rfl rfl rfl rfl

theorem receivers_keep (cfg : ClientConfig) :
    Machine.Keeps (clientMachine cfg) (receiverMonitor cfg.pb) (ReceiverAt cfg.pb) (Follows cfg.pb)
      Lts.Any where
  op p qs t ch o k r m q' hJ _ _ he hguard hnext := by
    rw [show q' = (qs t).after o r from hnext]
    exact receivers_op hJ he hguard
  jump p qs t ctl hJ _ _ hpost := by
    by_cases hrun : ctl = .run
    · subst hrun
      obtain ⟨rfl, hbegun, hdone, hread⟩ := hpost
      obtain ⟨fs, hJ⟩ := hJ
      have hshown : p.shared.shown = true := by
        by_contra hne
        rw [Bool.not_eq_true] at hne
        rw [(hJ.unshown hne).2.2] at hbegun
        cases hbegun
      have ⟨fs', hJ'⟩ := hJ.loop hshown ⟨hdone, hread⟩
      have hclean : ReceiverAt cfg.pb .network .run { qs .network with reading := {} } :=
        ⟨rfl, hbegun, hdone, Or.inl rfl⟩
      exact ⟨_, clientProgram_receives hclean fun _ => rfl, follows_network hJ'⟩
    · refine ⟨qs t, clientProgram_receives hpost fun heq => absurd heq hrun, ?_⟩
      rw [update_eq_self]
      exact hJ
  env p qs e m start hJ _ he := by
    have ⟨m', he', hm⟩ := Option.map_eq_some_iff.1 he
    cases hm
    obtain ⟨fs, hJ⟩ := hJ
    refine ⟨qs, fun _ _ => rfl, nofun, fs, ?_⟩
    cases e with
    | arrive bs =>
      have ⟨hopen, he'⟩ := Option.ite_none_left_eq_some.1 he'
      cases he'
      refine ⟨hJ.received, hJ.emitted, hJ.queued, hJ.unshown, hJ.shown, hJ.stopped, hJ.readShut,
        fun hend => ?_, hJ.lost, hJ.error, hJ.noQuit⟩
      exact (hJ.eof hend).imp_left fun hleft => absurd hleft.1 hopen
    | hangUp =>
      cases he'
      refine ⟨hJ.received, hJ.emitted, hJ.queued, hJ.unshown, hJ.shown, hJ.stopped, hJ.readShut,
        fun hend => ?_, hJ.lost, hJ.error, hJ.noQuit⟩
      exact (hJ.eof hend).imp_left fun hleft => ⟨rfl, hleft.2⟩

/-- In every reachable state the client has used the frames that it has read. -/
theorem reachable_follows {p : ClientState cfg.qt} {C : ClientState cfg.qt → ClientStep → Prop}
    (h : (clientSystem cfg).Reaches C p) :
    ∃ qs, Machine.Monitored (receiverMonitor cfg.pb) (ReceiverAt cfg.pb) (Follows cfg.pb) p qs := by
  have hinit : Machine.Monitored (receiverMonitor cfg.pb) (ReceiverAt cfg.pb) (Follows cfg.pb)
      (clientSystem cfg).init fun _ => {} := by
    refine ⟨fun t => ?_, [], rfl, rfl, rfl, fun _ => ⟨rfl, rfl, rfl⟩, nofun, nofun, nofun, nofun,
      nofun, nofun, nofun⟩
    cases t <;> exact ⟨rfl, rfl⟩
  exact (receivers_keep cfg).steps h.any hinit

/-! ## The result -/

/-- The other thread waits in `recv`, and nothing has arrived. -/
def AwaitsBytes {qt : Qt} (p : ClientState qt) : Prop :=
  p.shared.pending = [] ∧ ∃ o k, p.prog .network = .call (S := Client) (.recv o) k

theorem lost_not_mem_signals (pb : ClientProtobuf) (fs : List WireFrame) :
    .connectionLost ∉ pb.signals fs := by
  intro h
  have ⟨f, _, hf⟩ := List.mem_filterMap.1 h
  exact pb.signalOf_ne_lost _ _ hf

/-- Where a receiver has given up, no frame follows those that were used. -/
theorem Received.longest {qt : Qt} {pb : ClientProtobuf} {m : ClientMemory qt}
    {log : List ClientEvent} {main net : Receiver} {fs : List WireFrame}
    (h : Received pb m log main net fs) (hshown : m.shown = true)
    (hstuck : frameCode.Stuck (net.reading.got ++ m.pending)) :
    frameCode.IsLongest (m.received ++ m.pending) fs := by
  have hmain := (h.shown hshown).2.1
  have hstream : m.received ++ m.pending =
      frameCode.concat fs ++ (net.reading.got ++ m.pending) := by
    rw [h.received, hmain, List.append_assoc]
    rfl
  rw [hstream]
  exact PrefixCode.isLongest_of_stuck hstuck

section Stream

variable {p : ClientState cfg.qt} {fs : List WireFrame}

/-- A thread that has begun has a window. -/
theorem Received.shown_of_net {qt : Qt} {pb : ClientProtobuf} {m : ClientMemory qt}
    {log : List ClientEvent} {main net : Receiver} {gs : List WireFrame}
    (h : Received pb m log main net gs) (hnet : net.begun = true ∨ net.done = true) :
    m.shown = true := by
  by_contra hne
  rw [Bool.not_eq_true] at hne
  rw [(h.unshown hne).2.2] at hnet
  rcases hnet with hnet | hnet <;> cases hnet

/-- The frames that were used are the first of those that have arrived. -/
theorem Received.prefix_stream {qt : Qt} {pb : ClientProtobuf} {m : ClientMemory qt}
    {log : List ClientEvent} {main net : Receiver} {gs : List WireFrame}
    (h : Received pb m log main net gs) (hfs : frameCode.IsLongest (m.received ++ m.pending) fs) :
    gs <+: fs := by
  refine hfs.prefix_of ?_
  rw [h.received, List.append_assoc]
  exact List.prefix_append _ _

/-- The signals are those of the frames up to some frame. -/
theorem emitted_first (h : (clientSystem cfg).Reaches Lts.Any p)
    (hfs : frameCode.IsLongest (p.shared.received ++ p.shared.pending) fs) :
    ∃ gs, gs <+: fs ∧ (emitted p.log = cfg.pb.signals gs ∨
      emitted p.log = cfg.pb.signals gs ++ [.connectionLost]) := by
  obtain ⟨qs, _, gs, hJ⟩ := reachable_follows h
  refine ⟨gs, hJ.prefix_stream hfs, ?_⟩
  rw [hJ.emitted]
  cases (qs .network).done with
  | false => exact Or.inl (List.append_nil _)
  | true => exact Or.inr rfl

/-- A thread that waits for bytes has a window. -/
theorem shown_of_awaits (h : (clientSystem cfg).Reaches Lts.Any p) (hawaits : AwaitsBytes p) :
    p.shared.shown = true := by
  obtain ⟨qs, hobeys, gs, hJ⟩ := reachable_follows h
  have ⟨_, o, k, hprog⟩ := hawaits
  have hguard := hobeys .network
  rw [hprog] at hguard
  exact hJ.shown_of_net (Or.inl ((obeys_receiver_call.1 hguard).1.1 rfl))

/-- None is missing while the thread waits for more. -/
theorem emitted_all (h : (clientSystem cfg).Reaches Lts.Any p)
    (hfs : frameCode.IsLongest (p.shared.received ++ p.shared.pending) fs)
    (hawaits : AwaitsBytes p) : emitted p.log = cfg.pb.signals fs := by
  have hshown := shown_of_awaits h hawaits
  obtain ⟨qs, hobeys, gs, hJ⟩ := reachable_follows h
  have ⟨hnil, o, k, hprog⟩ := hawaits
  have hguard := hobeys .network
  rw [hprog] at hguard
  obtain ⟨_, hdone, _, hstuck, _⟩ := (obeys_receiver_call.1 hguard).1
  have hlongest := hJ.longest hshown (by rwa [hnil, List.append_nil])
  rw [hJ.emitted, hdone, hfs.unique hlongest]
  exact List.append_nil _

/-- `connectionLost` comes after all the other signals, or after a call of `recv` that
has failed. -/
theorem emitted_lost (h : (clientSystem cfg).Reaches Lts.Any p)
    (hfs : frameCode.IsLongest (p.shared.received ++ p.shared.pending) fs)
    (hmem : .connectionLost ∈ emitted p.log) :
    emitted p.log = cfg.pb.signals fs ++ [.connectionLost] ∨
      ∃ o, (⟨.network, .recv o, none⟩ : ClientEvent) ∈ p.log := by
  obtain ⟨qs, _, gs, hJ⟩ := reachable_follows h
  have hdone : (qs .network).done = true := by
    by_contra hne
    rw [Bool.not_eq_true] at hne
    rw [hJ.emitted, hne] at hmem
    exact lost_not_mem_signals _ _ ((List.append_nil _) ▸ hmem)
  have hlost := hJ.lost hdone
  unfold Reading.Done at hlost
  have hall : frameCode.Stuck ((qs .network).reading.got ++ p.shared.pending) →
      emitted p.log = cfg.pb.signals fs ++ [.connectionLost] := by
    intro hstuck
    rw [hJ.emitted, hdone, hfs.unique (hJ.longest (hJ.shown_of_net (Or.inr hdone)) hstuck)]
    rfl
  split at hlost
  · exact Or.inl (hall (hlost _))
  · rename_i hend
    rcases hJ.eof hend with ⟨_, hnil⟩ | ⟨_, _, hno⟩
    · exact Or.inl (hall (by rwa [hnil, List.append_nil]))
    · exact absurd (hdone.symm.trans hno) (by decide)
  · rename_i hend
    exact Or.inr (hJ.error hend)
  · rename_i hend
    exact absurd hend hJ.noQuit

/-- A signal waits in the queue until its slot is called. -/
theorem delivered_posted (h : (clientSystem cfg).Reaches Lts.Any p) :
    delivered p.log ++ p.shared.posted = emitted p.log := by
  obtain ⟨qs, _, gs, hJ⟩ := reachable_follows h
  exact hJ.queued

/-- The first frame was one on which `main` goes on. -/
theorem shown_welcome (h : (clientSystem cfg).Reaches Lts.Any p)
    (hfs : frameCode.IsLongest (p.shared.received ++ p.shared.pending) fs)
    (hshown : p.shared.shown = true) : ∃ f rest, fs = f :: rest ∧ cfg.pb.Welcomes f.1 := by
  obtain ⟨qs, _, gs, hJ⟩ := reachable_follows h
  have ⟨_, _, f, rest, hgs, hwelcome⟩ := hJ.shown hshown
  have ⟨more, hmore⟩ := hJ.prefix_stream hfs
  exact ⟨f, rest ++ more, by rw [← hmore, hgs]; rfl, hwelcome⟩

/-- In every reachable state of the client, let `fs` be the frames that the bytes that
have arrived start with.  The signals emitted are those of the frames after the first,
in order and up to some frame, and none is missing while the thread waits for more.
`connectionLost` is emitted at most once and as the last; a frame before it is missing
only if a call of `recv` has failed.  The slots of the window are called once for each
signal, in order.  The window is shown only after a reply on which `main` goes on. -/
theorem signals_follow_stream {p : ClientState cfg.qt} (h : (clientSystem cfg).Reaches Lts.Any p)
    {fs : List WireFrame} (hfs : frameCode.IsLongest (p.shared.received ++ p.shared.pending) fs) :
    (∃ gs, gs <+: fs ∧ (emitted p.log = cfg.pb.signals gs ∨
      emitted p.log = cfg.pb.signals gs ++ [.connectionLost])) ∧
    (AwaitsBytes p → emitted p.log = cfg.pb.signals fs) ∧
    (.connectionLost ∈ emitted p.log →
      emitted p.log = cfg.pb.signals fs ++ [.connectionLost] ∨
        ∃ o, (⟨.network, .recv o, none⟩ : ClientEvent) ∈ p.log) ∧
    delivered p.log ++ p.shared.posted = emitted p.log ∧
    (p.shared.shown = true → ∃ f rest, fs = f :: rest ∧ cfg.pb.Welcomes f.1) :=
  ⟨emitted_first h hfs, emitted_all h hfs, emitted_lost h hfs, delivered_posted h,
    shown_welcome h hfs⟩

/-- "a" has its welcome and a message, and waits for more. -/
theorem signals_follow_stream_welcome :
    ∃ (p : ClientState (sampleClient "a" "10.0.0.1").qt) (fs : List WireFrame),
      (clientSystem (sampleClient "a" "10.0.0.1")).Reaches Lts.Any p ∧
        frameCode.IsLongest (p.shared.received ++ p.shared.pending) fs ∧
        emitted p.log = [.broadcastReceived "a" "hi"] ∧
        delivered p.log ++ p.shared.posted = emitted p.log ∧
        ∃ f rest, fs = f :: rest ∧ sampleClientProtobuf.Welcomes f.1 := by
  have ⟨p, hp, hrun⟩ := Lts.exists_reaches_of_run (L := clientSystem (sampleClient "a" "10.0.0.1"))
    welcomeRun (fun p => p.shared.shown && decide (emitted p.log = [.broadcastReceived "a" "hi"]))
    (by decide +kernel)
  rw [Bool.and_eq_true, decide_eq_true_eq] at hrun
  have ⟨fs, hfs⟩ := PrefixCode.exists_isLongest frameCode (p.shared.received ++ p.shared.pending)
  have ⟨_, _, _, hqueue, hwelcome⟩ := signals_follow_stream hp hfs
  exact ⟨p, fs, hp, hfs, hrun.2, hqueue, hwelcome hrun.1⟩

end Stream

/-! ## After `stopThread` -/

theorem Receiver.after_stopped {q : Receiver} (h : q.stopped = true) (o : ClientOp) (r : o.Resp) :
    (q.after o r).stopped = true := by
  cases o with
  | emit s => cases s <;> exact h
  | stopRunning => rfl
  | recv | running | send | lock | unlock | showWindow | started | nextEvent | shutdownRead
  | shutdown | close => exact h

/-- Only `stopThread` changes `running_`. -/
theorem ClientMemory.exec_running {qt : Qt} {m m' : ClientMemory qt} {t : ClientTid} {o : ClientOp}
    {ch : ClientChoice} {r : o.Resp} (h : m.exec t o ch = some (r, m')) (ho : o ≠ .stopRunning) :
    m'.running = m.running := by
  cases o with
  | recv o => rw [(recv_spec h).2.1]
  | send o =>
    have hm : m.send o ch = (r, m') := Option.some.inj h
    rw [show m' = (m.send o ch).2 by rw [hm]]
    rcases m.send_spec o ch with ⟨_, hspec⟩ | ⟨n, _, _, _, _, hspec⟩ <;> rw [hspec]
  | nextEvent =>
    have ⟨_, _, _, _, hm⟩ := nextEvent_spec h
    rw [hm]
  | lock | started =>
    have ⟨_, h⟩ := Option.ite_none_right_eq_some.1 h
    cases h
    rfl
  | stopRunning => exact absurd rfl ho
  | running | unlock | emit | showWindow | shutdownRead | shutdown | close =>
    cases h
    rfl

/-- What is left to happen once `running_` is false. -/
structure Late {qt : Qt} (p : ClientState qt) (qs : ClientTid → Receiver) : Prop where
  stopped : (∃ e ∈ p.log, e.op = .stopRunning) →
    p.shared.running = false ∧ (qs .main).stopped = true
  shut : (qs .main).shut = true → p.shared.hungUp = true
  few : ∀ L R e, p.log = L ++ e :: R → e.op = .stopRunning →
    (emitted R).length + (qs .network).sure.toNat ≤ 1 ∧
      ∀ t o n, (⟨t, .send o, n⟩ : ClientEvent) ∈ R → n.val ≤ 0

/-- The sending side stays shut. -/
theorem ClientMemory.exec_hungUp {qt : Qt} {m m' : ClientMemory qt} {t : ClientTid} {o : ClientOp}
    {ch : ClientChoice} {r : o.Resp} (h : m.exec t o ch = some (r, m')) (hshut : m.hungUp = true) :
    m'.hungUp = true := by
  cases o with
  | recv o => rw [(recv_spec h).2.1, hshut]
  | send o =>
    have hm : m.send o ch = (r, m') := Option.some.inj h
    rw [show m' = (m.send o ch).2 by rw [hm]]
    rcases m.send_spec o ch with ⟨_, hspec⟩ | ⟨n, _, _, _, _, hspec⟩ <;> rw [hspec, hshut]
  | nextEvent =>
    have ⟨_, _, _, _, hm⟩ := nextEvent_spec h
    rw [hm, hshut]
  | lock | started =>
    have ⟨_, h⟩ := Option.ite_none_right_eq_some.1 h
    cases h
    exact hshut
  | shutdown | close =>
    cases h
    rfl
  | running | stopRunning | unlock | emit | showWindow | shutdownRead =>
    cases h
    exact hshut

/-- What a thread knows to be shut is shut. -/
theorem late_shut {p : ClientState cfg.qt} {qs : ClientTid → Receiver} {t : ClientTid}
    {o : ClientOp} {ch : ClientChoice} {r : o.Resp} {m : ClientMemory cfg.qt} (h : Late p qs)
    (he : p.shared.exec t o ch = some (r, m))
    (hshut : (update qs t ((qs t).after o r) .main).shut = true) : m.hungUp = true := by
  by_cases ho : o = .shutdown
  · subst ho
    cases he
    rfl
  · refine ClientMemory.exec_hungUp he (h.shut ?_)
    cases t with
    | network => rwa [update_of_ne ClientTid.noConfusion] at hshut
    | main =>
      rw [update_self] at hshut
      cases o with
      | shutdown => exact absurd rfl ho
      | emit s => cases s <;> exact hshut
      | recv | running | send | lock | unlock | showWindow | started | nextEvent | stopRunning
      | shutdownRead | close => exact hshut

/-- What an operation leaves to happen. -/
theorem late_op {p : ClientState cfg.qt} {qs : ClientTid → Receiver} {t : ClientTid}
    {o : ClientOp} {k : o.Resp → Prog Client ClientCtl} {ch : ClientChoice} {r : o.Resp}
    {m : ClientMemory cfg.qt} (h : Late p qs) (he : p.shared.exec t o ch = some (r, m))
    (hguard : (qs t).Allows cfg.pb t o) :
    Late (p.afterOp (S := Client) t o k r m) (update qs t ((qs t).after o r)) := by
  refine ⟨fun ⟨e, hmem, hstop⟩ => ?_, fun hshut => late_shut h he hshut, fun L R e hlog hstop => ?_⟩
  · by_cases ho : o = .stopRunning
    · subst ho
      obtain rfl := hguard
      cases he
      rw [update_self]
      exact ⟨rfl, rfl⟩
    · rw [Pool.afterOp_log, List.mem_append, List.mem_singleton] at hmem
      rcases hmem with hmem | rfl
      · have ⟨hrunning, hstopped⟩ := h.stopped ⟨e, hmem, hstop⟩
        refine ⟨(ClientMemory.exec_running he ho).trans hrunning, ?_⟩
        cases t with
        | main =>
          rw [update_self]
          exact Receiver.after_stopped hstopped o r
        | network =>
          rw [update_of_ne ClientTid.noConfusion]
          exact hstopped
      · exact absurd hstop ho
  · rw [Pool.afterOp_log] at hlog
    rcases List.eq_nil_or_concat R with rfl | ⟨R', e', rfl⟩
    · -- `running_` was set just now, and there may be one signal on its way.
      refine ⟨?_, fun _ _ _ hmem => nomatch hmem⟩
      show 0 + Bool.toNat _ ≤ 1
      rw [Nat.zero_add]
      exact Bool.toNat_le _
    · rw [List.concat_eq_append, ← List.cons_append, ← List.append_assoc] at hlog
      have ⟨hold, hnew⟩ := List.append_inj' hlog rfl
      have hmem : ∃ e ∈ p.log, e.op = .stopRunning :=
        ⟨e, by rw [hold]; exact List.mem_append_right _ List.mem_cons_self, hstop⟩
      have ⟨hrunning, hstopped⟩ := h.stopped hmem
      have ⟨hfew, hsend⟩ := h.few L R' e hold hstop
      rw [List.concat_eq_append, ← List.singleton_inj.1 hnew, emitted_append, List.length_append]
      -- An operation that sends nothing.
      have hunsent : (∀ o', o ≠ .send o') → ∀ t' o' n,
          (⟨t', .send o', n⟩ : ClientEvent) ∈ R' ++ [⟨t, o, r⟩] → n.val ≤ 0 := by
        intro ho t' o' n hn
        rcases List.mem_append.1 hn with hn | hn
        · exact hsend t' o' n hn
        · exact absurd (congrArg Event.op (List.mem_singleton.1 hn)).symm (ho o')
      -- An operation that emits nothing leaves the other thread no surer than it was.
      have hquiet : o.Silent →
          (update qs t ((qs t).after o r) .network).sure.toNat ≤ (qs .network).sure.toNat →
          (emitted R').length + (emitted [(⟨t, o, r⟩ : ClientEvent)]).length +
            (update qs t ((qs t).after o r) .network).sure.toNat ≤ 1 := by
        intro ho hsure
        rw [ho.emitted, List.length_nil]
        omega
      have hkept : (qs t).after o r = qs t →
          (update qs t ((qs t).after o r) .network).sure.toNat ≤ (qs .network).sure.toNat := by
        intro hsame
        rw [hsame, update_eq_self]
      cases o with
      | emit s =>
        obtain ⟨rfl, -, hsure, -⟩ := hguard
        have hafter : ((qs .network).after (.emit s) r).sure = false := by cases s <;> rfl
        refine ⟨?_, hunsent fun _ => ClientOp.noConfusion⟩
        rw [hsure, Bool.toNat_true] at hfew
        rw [update_self, hafter]
        show (emitted R').length + 1 + 0 ≤ 1
        omega
      | running =>
        obtain ⟨rfl, -⟩ := hguard
        have hr : r = false := (congrArg Prod.fst (Option.some.inj he)).symm.trans hrunning
        refine ⟨hquiet trivial ?_, hunsent fun _ => ClientOp.noConfusion⟩
        rw [update_self, hr]
        exact Nat.zero_le _
      | nextEvent =>
        refine ⟨?_, hunsent fun _ => ClientOp.noConfusion⟩
        show (emitted R').length + 0 + (update qs t (qs t) .network).sure.toNat ≤ 1
        rw [update_eq_self]
        exact hfew
      | send o =>
        obtain ⟨rfl, hshut⟩ := hguard
        refine ⟨hquiet trivial (hkept rfl), fun t' o' n hn => ?_⟩
        rcases List.mem_append.1 hn with hn | hn
        · exact hsend t' o' n hn
        · -- The socket is shut by now.
          have hungUp := h.shut (hshut hstopped)
          have hr : r = (p.shared.send o ch).1 := congrArg Prod.fst (Option.some.inj he).symm
          cases List.mem_singleton.1 hn
          rcases p.shared.send_spec o ch with ⟨hle, _⟩ | ⟨n', _, _, _, hopen, _⟩
          · rw [hr]
            exact hle
          · exact absurd (hungUp.symm.trans hopen) (by decide)
      | recv o | showWindow | started | stopRunning | shutdown =>
        refine ⟨hquiet trivial ?_, hunsent fun _ => ClientOp.noConfusion⟩
        cases t <;> simp [Receiver.after]
      | lock | unlock | shutdownRead | close =>
        exact ⟨hquiet trivial (hkept rfl), hunsent fun _ => ClientOp.noConfusion⟩

theorem late_keeps (cfg : ClientConfig) :
    Machine.Keeps (clientMachine cfg) (receiverMonitor cfg.pb) (ReceiverAt cfg.pb) Late Lts.Any where
  op p qs t ch o k r m q' hJ _ _ he hguard hnext := by
    rw [show q' = (qs t).after o r from hnext]
    exact late_op hJ he hguard
  jump p qs t ctl hJ _ _ hpost := by
    by_cases hrun : ctl = .run
    · subst hrun
      obtain ⟨rfl, hbegun, hdone, -⟩ := hpost
      have hclean : ReceiverAt cfg.pb .network .run { qs .network with reading := {} } :=
        ⟨rfl, hbegun, hdone, Or.inl rfl⟩
      refine ⟨_, clientProgram_receives hclean fun _ => rfl, fun hs => ?_, fun hs => ?_,
        fun L R e hlog hs => ?_⟩
      · rw [update_of_ne ClientTid.noConfusion]
        exact hJ.stopped hs
      · rw [update_of_ne ClientTid.noConfusion] at hs
        exact hJ.shut hs
      · rw [update_self]
        exact hJ.few L R e hlog hs
    · refine ⟨qs t, clientProgram_receives hpost fun heq => absurd heq hrun, ?_⟩
      rw [update_eq_self]
      exact ⟨hJ.stopped, hJ.shut, hJ.few⟩
  env p qs e m start hJ _ he := by
    have ⟨m', he', hm⟩ := Option.map_eq_some_iff.1 he
    cases hm
    have ⟨hrunning, hungUp⟩ : m.running = p.shared.running ∧ m.hungUp = p.shared.hungUp := by
      cases e with
      | arrive bs =>
        have ⟨_, he'⟩ := Option.ite_none_left_eq_some.1 he'
        cases he'
        exact ⟨rfl, rfl⟩
      | hangUp =>
        cases he'
        exact ⟨rfl, rfl⟩
    refine ⟨qs, fun _ _ => rfl, nofun, fun hs => ?_, fun hs => hungUp.trans (hJ.shut hs), hJ.few⟩
    exact ⟨hrunning.trans (hJ.stopped hs).1, (hJ.stopped hs).2⟩

/-- After `stopThread` has set `running_` to false, the other thread emits at most one
more signal, and nothing more is sent: every call of `send` fails, for the slots that
are called before the application quits, too. -/
theorem stop_is_final {p : ClientState cfg.qt} (h : (clientSystem cfg).Reaches Lts.Any p)
    {L R : List ClientEvent} {e : ClientEvent} (hlog : p.log = L ++ e :: R)
    (he : e.op = .stopRunning) :
    (emitted R).length ≤ 1 ∧ ∀ t o n, (⟨t, .send o, n⟩ : ClientEvent) ∈ R → n.val ≤ 0 := by
  have hinit : Machine.Monitored (receiverMonitor cfg.pb) (ReceiverAt cfg.pb) Late
      (clientSystem cfg).init fun _ => {} := by
    refine ⟨fun t => ?_, fun hmem => ?_, nofun, fun L R e hnil => ?_⟩
    · cases t <;> exact ⟨rfl, rfl⟩
    · obtain ⟨e, hmem, -⟩ := hmem
      cases hmem
    · have hlen := congrArg List.length hnil
      simp [clientSystem, Machine.toLts] at hlen
  obtain ⟨qs, -, hlate⟩ := (late_keeps cfg).steps h hinit
  obtain ⟨hfew, hsend⟩ := hlate.few L R e hlog he
  exact ⟨by omega, hsend⟩

/-- "a" closes the window while a message is being received, and the timer calls a slot
after that. -/
def closeRun : List ClientStep :=
  welcomeRun ++
    arrival (.broadcastDelivery ⟨"hi", "a"⟩) :: List.replicate 2 (.op .network { want := 100 }) ++
    guiTurn .close 5 ++ .op .network {} :: List.replicate 3 (.op .main {}) ++
    guiTurn (.user .refreshUsers) 2

/-- One signal is emitted after the stop. -/
theorem stop_is_final_close :
    ∃ (p : ClientState (sampleClient "a" "10.0.0.1").qt) (L R : List ClientEvent) (e : ClientEvent),
      (clientSystem (sampleClient "a" "10.0.0.1")).Reaches Lts.Any p ∧ p.log = L ++ e :: R ∧
        e.op = .stopRunning ∧ emitted R = [.broadcastReceived "a" "hi"] ∧
        ∀ t o n, (⟨t, .send o, n⟩ : ClientEvent) ∈ R → n.val ≤ 0 := by
  have ⟨p, hp, hrun⟩ := Lts.exists_reaches_of_run (L := clientSystem (sampleClient "a" "10.0.0.1"))
    closeRun (fun p => ((p.log[19]?).any fun e : ClientEvent => decide (e.op = .stopRunning)) &&
      decide (emitted (p.log.drop 20) = [.broadcastReceived "a" "hi"]))
    (by decide +kernel)
  rw [Bool.and_eq_true, Option.any_eq_true, decide_eq_true_eq] at hrun
  obtain ⟨⟨e, he, hop⟩, hemitted⟩ := hrun
  obtain ⟨hlt, he⟩ := List.getElem?_eq_some_iff.1 he
  have hlog : p.log = p.log.take 19 ++ e :: p.log.drop 20 := by
    rw [← he, ← List.drop_eq_getElem_cons hlt, List.take_append_drop]
  have hop := of_decide_eq_true hop
  exact ⟨p, _, _, e, hp, hlog, hop, hemitted, (stop_is_final hp hlog hop).2⟩

end SimpleChat
