import SimpleChat.Signals

/-!
# The requests of the client on the wire

What the client has to send is settled by its history: the Register message, the
messages of the slots in the order of the events, and Quit when the window is closed.
`senderMonitor` carries what is left of their frames over the calls of `send`.

The slots do not look at the result of the functions of `net_sender_`, so that the
window sends on after a frame that was sent in part.  `requests_sent` is about the
runs in which no `send` succeeds after one that has failed.  `frames_of_prefix` says
that a receiver finds in the bytes those frames and no others.
-/

namespace SimpleChat

open Conc Function Data

/-! ## What there is to send -/

/-- The frame of a request, if the protobuf code serializes it. -/
def ClientProtobuf.frameOf (pb : ClientProtobuf) (msg : ClientRequest) : Option (UInt8 × Bytes) :=
  (pb.serialize msg).map fun payload => (msg.msgType, payload)

/-- The bytes of the frames of requests. -/
def ClientProtobuf.wireOf (pb : ClientProtobuf) (msgs : List ClientRequest) : Bytes :=
  (msgs.filterMap pb.frameOf).flatMap fun f => encodeFrame f.1 f.2

/-- The events that were handled, with the messages of their slots. -/
def responses (log : List ClientEvent) : List (GuiEvent × List ClientMsg) :=
  log.filterMap fun
    | ⟨_, .nextEvent, r⟩ => some r
    | _ => none

/-- The event closes the window. -/
def closes (r : GuiEvent × List ClientMsg) : Bool := r.1 = .close

/-- What the main thread sends after an event. -/
def afterEvent (cfg : ClientConfig) (r : GuiEvent × List ClientMsg) : List ClientRequest :=
  if r.1 = .close then [.quit ⟨true, cfg.localIp⟩]
  else if r.1 = .quit then []
  else r.2.map .window

/-- The requests of the client, in order.  The slots that are called after the window was
closed find the socket shut. -/
def requests (cfg : ClientConfig) (log : List ClientEvent) : List ClientRequest :=
  .register ⟨cfg.username, cfg.localIp⟩ ::
    (cutAfter closes (responses log)).flatMap (afterEvent cfg)

theorem responses_append (L R : List ClientEvent) :
    responses (L ++ R) = responses L ++ responses R := List.filterMap_append

/-- The requests of an event that comes while the window is open. -/
theorem requests_event (cfg : ClientConfig) {log : List ClientEvent} {t : ClientTid}
    {r : GuiEvent × List ClientMsg} (h : ∀ r' ∈ responses log, closes r' = false) :
    requests cfg (log ++ [⟨t, .nextEvent, r⟩]) = requests cfg log ++ afterEvent cfg r := by
  unfold requests
  rw [responses_append, cutAfter_append h, cutAfter_eq_self h, List.flatMap_append]
  have hone : cutAfter closes (responses [(⟨t, .nextEvent, r⟩ : ClientEvent)]) = [r] := by
    show (if closes r then [r] else [r]) = [r]
    exact ite_self _
  rw [hone, List.flatMap_singleton]
  rfl

/-- No request comes of an event after the window was closed. -/
theorem requests_closed (cfg : ClientConfig) {log : List ClientEvent} (e : ClientEvent)
    (h : ∃ r ∈ responses log, closes r = true) : requests cfg (log ++ [e]) = requests cfg log := by
  unfold requests
  rw [responses_append, cutAfter_append_of_mem h]

theorem ClientProtobuf.wireOf_append (pb : ClientProtobuf) (l l' : List ClientRequest) :
    pb.wireOf (l ++ l') = pb.wireOf l ++ pb.wireOf l' := by
  unfold wireOf
  rw [List.filterMap_append, List.flatMap_append]

theorem ClientProtobuf.wireOf_cons (pb : ClientProtobuf) (msg : ClientRequest) (l : List ClientRequest) :
    pb.wireOf (msg :: l) = pb.wireOf [msg] ++ pb.wireOf l := pb.wireOf_append [msg] l

/-! ## The discipline of the main thread -/

/-- What the main thread still has to send of what it has begun. -/
structure Sender where
  todo : Bytes := []
  /-- No `send` has failed. -/
  ok : Bool := true
  /-- The window was closed. -/
  closing : Bool := false
  /-- The socket is shut. -/
  done : Bool := false

variable (cfg : ClientConfig)

def Sender.after (q : Sender) : (o : ClientOp) → o.Resp → Sender
  | .send _, n =>
    if q.done then q
    else if n.val ≤ 0 then { q with ok := false }
    else { q with todo := q.todo.drop n.val.toNat }
  | .nextEvent, r =>
    if q.done then q else { q with todo := cfg.pb.wireOf (afterEvent cfg r), closing := closes r }
  | .shutdown, _ => { q with done := true }
  | .close, _ => { q with done := true }
  | _, _ => q

/-- A call of `send` offers the bytes that come next, and an event comes only where none
are left.  Nothing is said about a socket that is shut. -/
def Sender.Allows (t : ClientTid) (q : Sender) : ClientOp → Prop
  | .send o => t = .main ∧ (q.done = false → q.ok = true → o.buf ≠ [] ∧ o.buf <+: q.todo)
  | .nextEvent => t = .main ∧ q.closing = q.done ∧ (q.ok = true → q.todo = [])
  | .shutdown => t = .main
  | .close => t = .main
  | _ => True

def senderMonitor (t : ClientTid) : Prog.Monitor Client Sender :=
  .det (fun q o => q.Allows t o) fun q o r => q.after cfg o r

/-- What is left to send where a thread passes a control point. -/
def SenderAt (t : ClientTid) : ClientCtl → Sender → Prop
  | .main, q =>
    t = .main ∧ q.closing = false ∧ q.done = false ∧
      q.todo = cfg.pb.wireOf [.register ⟨cfg.username, cfg.localIp⟩]
  | .events, q => t = .main ∧ q.closing = q.done ∧ (q.ok = true → q.todo = [])
  | .unstarted, _ => t = .network
  | .run, _ => t = .network
  | .finished, q => t = .main → q.ok = true → q.todo = []

section Programs

variable {cfg} {t : ClientTid}

theorem obeys_sender_call {α : Type} {o : ClientOp} {k : o.Resp → Prog Client α} {q : Sender}
    {post : α → Sender → Prop} :
    (Prog.call (S := Client) o k).Obeys (senderMonitor cfg t) post q ↔
      q.Allows t o ∧ ∀ r, (k r).Obeys (senderMonitor cfg t) post (q.after cfg o r) :=
  Prog.obeys_det_call

/-- What is left once a request is sent, or has failed. -/
abbrev Sender.Left (q : Sender) (rest : Bytes) (q' : Sender) : Prop :=
  q'.closing = q.closing ∧ q'.done = q.done ∧ (q'.ok = true → q'.todo = rest)

/-- How a writer of `frame` and what is left to send fit together.  `rest` comes after
the frame. -/
def Sender.Writes (q : Sender) (frame rest : Bytes) (a : Writing) (q' : Sender) : Prop :=
  q'.closing = q.closing ∧ q'.done = false ∧ (q'.ok = true → a.failed = false ∧
    (a.sent <+: frame → q'.todo = frame.drop a.sent.length ++ rest))

theorem Sender.Writes.after {q q' : Sender} {frame rest : Bytes} {a : Writing}
    (h : q.Writes frame rest a q') (o : SendOp) (n : {n : Int // n ≤ o.buf.length}) :
    q.Writes frame rest (a.after o n) (q'.after cfg (.send o) n) := by
  have ⟨hclosing, hdone, hok⟩ := h
  unfold Writing.after Sender.after
  dsimp only
  rw [if_neg (show ¬ q'.done = true by rw [hdone]; decide)]
  split
  · exact ⟨hclosing, hdone, nofun⟩
  · refine ⟨hclosing, hdone, fun hnow => ⟨(hok hnow).1, fun hsent => ?_⟩⟩
    have hle := hsent.length_le
    have hcount : (o.buf.take n.val.toNat).length = n.val.toNat := by
      have hmax := n.property
      rw [List.length_take]
      omega
    dsimp only at hsent hle ⊢
    rw [List.length_append, hcount] at hle ⊢
    rw [(hok hnow).2 ((List.prefix_append _ _).trans hsent), List.drop_append_of_le_length,
      List.drop_drop]
    rw [List.length_drop]
    omega

/-- `send_message` sends the frame of the request. -/
theorem sendRequest_sends (msg : ClientRequest) {q : Sender} {rest : Bytes} (hdone : q.done = false)
    (hq : q.ok = true → q.todo = cfg.pb.wireOf [msg] ++ rest) :
    (sendRequest cfg msg).Obeys (senderMonitor cfg .main) (fun _ q' => q.Left rest q') q := by
  unfold sendRequest
  cases hpayload : cfg.pb.serialize msg with
  | none =>
    have hnone : cfg.pb.wireOf [msg] = [] := by
      simp [ClientProtobuf.wireOf, ClientProtobuf.frameOf, hpayload]
    rw [hnone] at hq
    exact ⟨rfl, rfl, hq⟩
  | some payload =>
    have hframe : cfg.pb.wireOf [msg] = encodeFrame msg.msgType payload := by
      simp [ClientProtobuf.wireOf, ClientProtobuf.frameOf, hpayload]
    rw [hframe] at hq
    have hstart : q.Writes (encodeFrame msg.msgType payload) rest ⟨[], false⟩ q :=
      ⟨rfl, hdone, fun hok => ⟨rfl, fun _ => hq hok⟩⟩
    refine ((sendMessage_obeys cfg.socketFd msg.msgType payload).lift_along ?_ ?_ hstart).weaken ?_
    · intro a q' o ⟨_, _, hR⟩ ⟨hne, _, hprefix⟩
      refine ⟨rfl, fun _ hok => ⟨hne, ?_⟩⟩
      have ⟨more, hmore⟩ := hprefix
      rw [(hR hok).2 ((List.prefix_append _ _).trans hprefix), ← hmore, List.append_assoc,
        List.drop_left, List.append_assoc]
      exact List.prefix_append _ _
    · intro a q' o n a' hR hnext
      rw [show a' = a.after o n from hnext]
      exact ⟨_, rfl, hR.after o n⟩
    · intro ok q' ⟨a, ⟨hclosing, hopen, hR⟩, hwrote⟩
      refine ⟨hclosing, hopen.trans hdone.symm, fun hok => ?_⟩
      have ⟨hfailed, htodo⟩ := hR hok
      unfold Writes.exact at hwrote
      split at hwrote
      · rw [hwrote] at htodo
        rw [htodo (List.prefix_refl _), List.drop_length, List.nil_append]
      · exact absurd (hfailed.symm.trans hwrote) (by decide)

theorem NetworkSender.send_sends (msg : ClientRequest) {q : Sender} {rest : Bytes}
    (hdone : q.done = false) (hq : q.ok = true → q.todo = cfg.pb.wireOf [msg] ++ rest) :
    (NetworkSender.send cfg msg).Obeys (senderMonitor cfg .main) (fun _ q' => q.Left rest q') q := by
  refine obeys_sender_call.2 ⟨trivial, fun _ => ?_⟩
  show Prog.Obeys _ _ (sendRequest cfg msg >>= _) q
  refine (sendRequest_sends msg hdone hq).bind fun ok q' hq' => ?_
  exact obeys_sender_call.2 ⟨trivial, fun _ => hq'⟩

/-- The messages of a slot go out one after the other. -/
theorem sendMsgs_sends (msgs : List ClientMsg) {q : Sender} (hdone : q.done = false)
    (hq : q.ok = true → q.todo = cfg.pb.wireOf (msgs.map .window)) :
    (msgs.forM fun msg => sendMsg cfg msg).Obeys (senderMonitor cfg .main)
      (fun _ q' => q.Left [] q') q := by
  induction msgs generalizing q with
  | nil => exact ⟨rfl, rfl, hq⟩
  | cons msg msgs ih =>
    have hfirst : q.ok = true →
        q.todo = cfg.pb.wireOf [.window msg] ++ cfg.pb.wireOf (msgs.map .window) :=
      fun hok => (hq hok).trans (cfg.pb.wireOf_cons _ _)
    rw [Prog.forM_cons, sendMsg_eq, LawfulMonad.bind_assoc]
    refine (NetworkSender.send_sends (.window msg) hdone hfirst).bind fun _ q' hq' => ?_
    have ⟨hclosing', hdone', htodo'⟩ := hq'
    refine (ih (hdone'.trans hdone) htodo').weaken fun _ q'' ⟨hclosing, hshut, htodo⟩ => ?_
    exact ⟨hclosing.trans hclosing', hshut.trans hdone', htodo⟩

/-- What is sent after the socket was shut. -/
theorem senderOp_late {α : Type} {p : Prog Client α} (h : p.Only SenderOp) {q : Sender}
    (hdone : q.done = true) : p.Obeys (senderMonitor cfg .main) (fun _ q' => q' = q) q := by
  refine h.obeys (fun o ho => ?_) fun o r ho => ?_
  · cases ho with
    | lock | unlock => trivial
    | send o => exact ⟨rfl, fun hno => absurd (hdone.symm.trans hno) (by decide)⟩
  · cases ho with
    | lock | unlock => rfl
    | send o =>
      show q = if q.done then q else _
      rw [if_pos hdone]

/-- What a receiver does. -/
inductive NetworkOp : ClientOp → Prop where
  | running : NetworkOp .running
  | recv (o : RecvOp) : NetworkOp (.recv o)
  | emit (s : Signal) : NetworkOp (.emit s)

theorem clientRecv_only (fd : Fd) : ((recvMessage fd).lift clientRecv).Only NetworkOp :=
  (recvMessage_reads fd).lift fun o _ => .recv o

/-- Receiving has nothing to do with sending. -/
theorem networkOp_obeys {α : Type} {p : Prog Client α} (h : p.Only NetworkOp) (q : Sender) :
    p.Obeys (senderMonitor cfg t) (fun _ q' => q' = q) q :=
  h.obeys (fun _ ho => by cases ho <;> trivial) fun _ _ ho => by cases ho <;> rfl

theorem clientMain_sends {q : Sender} (h : SenderAt cfg .main .main q) :
    (clientMain cfg).Obeys (senderMonitor cfg .main) (SenderAt cfg .main) q := by
  obtain ⟨-, hclosing, hdone, htodo⟩ := h
  have hq : q.ok = true →
      q.todo = cfg.pb.wireOf [.register ⟨cfg.username, cfg.localIp⟩] ++ [] :=
    fun _ => htodo.trans (List.append_nil _).symm
  have hclose : ∀ q' : Sender, q.Left [] q' → (Prog.perform (S := Client) .close >>= fun _ =>
      (pure .finished : Prog Client ClientCtl)).Obeys (senderMonitor cfg .main)
        (SenderAt cfg .main) q' :=
    fun q' hq' => obeys_sender_call.2 ⟨rfl, fun _ _ => hq'.2.2⟩
  unfold clientMain
  refine (sendRequest_sends _ hdone hq).bind fun ok q' hq' => ?_
  cases ok with
  | false => exact hclose q' hq'
  | true =>
    show Prog.Obeys _ _ (_ >>= _) _
    refine (networkOp_obeys (clientRecv_only cfg.socketFd) q').bind fun frame q'' hq'' => ?_
    subst hq''
    cases frame with
    | none => exact hclose q'' hq'
    | some frame =>
      have ⟨hclosing', hdone', htodo'⟩ := hq'
      dsimp only
      split
      · refine obeys_sender_call.2 ⟨trivial, fun _ => ⟨rfl, ?_, htodo'⟩⟩
        show q''.closing = q''.done
        rw [hclosing', hdone', hclosing, hdone]
      · exact hclose q'' hq'

/-- After the Quit message, `closeEvent` shuts the socket. -/
theorem shut_sends {q : Sender} (hclosing : q.closing = true) (htodo : q.ok = true → q.todo = []) :
    (stopThread >>= fun _ => Prog.perform (S := Client) .shutdown >>= fun _ =>
      Prog.perform (S := Client) .close >>= fun _ =>
        (pure .events : Prog Client ClientCtl)).Obeys (senderMonitor cfg .main)
          (SenderAt cfg .main) q := by
  refine obeys_sender_call.2 ⟨trivial, fun _ => obeys_sender_call.2 ⟨trivial, fun _ => ?_⟩⟩
  refine obeys_sender_call.2 ⟨rfl, fun _ => obeys_sender_call.2 ⟨rfl, fun _ => ?_⟩⟩
  exact ⟨rfl, hclosing, htodo⟩

theorem eventLoop_sends {q : Sender} (h : SenderAt cfg .main .events q) :
    (eventLoop cfg).Obeys (senderMonitor cfg .main) (SenderAt cfg .main) q := by
  have ⟨_, hclosing, htodo⟩ := h
  unfold eventLoop
  refine obeys_sender_call.2 ⟨h, fun handled => ?_⟩
  show Prog.Obeys _ _ (if handled.1 = .close then _ else if handled.1 = .quit then _ else _)
    (q.after cfg .nextEvent handled)
  cases hdone : q.done with
  | true =>
    have hsame : q.after cfg .nextEvent handled = q := if_pos hdone
    rw [hsame]
    split_ifs
    · unfold closeEvent
      rw [LawfulMonad.bind_assoc]
      refine (senderOp_late (NetworkSender.send_only cfg _) hdone).bind fun _ q' hq' => ?_
      subst hq'
      exact shut_sends (hclosing.trans hdone) htodo
    · exact fun _ => htodo
    · refine (senderOp_late (sendMsgs_only cfg _) hdone).bind fun _ q' hq' => ?_
      subst hq'
      exact h
  | false =>
    have hnext : q.after cfg .nextEvent handled =
        { q with todo := cfg.pb.wireOf (afterEvent cfg handled), closing := closes handled } :=
      if_neg (by rw [hdone]; decide)
    have hopen : (q.after cfg .nextEvent handled).done = false := by rw [hnext, hdone]
    have hcloses : (q.after cfg .nextEvent handled).closing = closes handled := by rw [hnext]
    have hleft : (q.after cfg .nextEvent handled).todo = cfg.pb.wireOf (afterEvent cfg handled) := by
      rw [hnext]
    split_ifs with hclose hquit
    · rw [afterEvent, if_pos hclose, ← List.append_nil (cfg.pb.wireOf _)] at hleft
      unfold closeEvent
      rw [LawfulMonad.bind_assoc]
      refine (NetworkSender.send_sends _ hopen fun _ => hleft).bind fun _ q' hq' => ?_
      exact shut_sends (hq'.1.trans (hcloses.trans (decide_eq_true hclose))) hq'.2.2
    · rw [afterEvent, if_neg hclose, if_pos hquit] at hleft
      exact fun _ _ => hleft
    · rw [afterEvent, if_neg hclose, if_neg hquit] at hleft
      refine (sendMsgs_sends handled.2 hopen fun _ => hleft).bind fun _ q' hq' => ?_
      have ⟨hclosing', hdone', htodo'⟩ := hq'
      refine ⟨rfl, ?_, htodo'⟩
      rw [hclosing', hdone', hcloses, hopen]
      exact decide_eq_false hclose

theorem networkRun_sends (q : Sender) :
    (networkRun cfg).Obeys (senderMonitor cfg .network) (SenderAt cfg .network) q := by
  have hfinished : ∀ q', SenderAt cfg .network .finished q' := fun _ ht => nomatch ht
  unfold networkRun
  refine obeys_sender_call.2 ⟨trivial, fun running => ?_⟩
  cases running with
  | false => exact hfinished q
  | true =>
    show Prog.Obeys _ _ (_ >>= _) _
    refine (networkOp_obeys (clientRecv_only cfg.socketFd) q).bind fun frame q' _ => ?_
    cases frame with
    | none =>
      refine obeys_sender_call.2 ⟨trivial, fun running => ?_⟩
      cases running with
      | false => exact hfinished q'
      | true => exact obeys_sender_call.2 ⟨trivial, fun _ => hfinished _⟩
    | some frame =>
      dsimp only
      split
      · exact obeys_sender_call.2 ⟨trivial, fun _ => rfl⟩
      · exact rfl

/-- Every turn of a thread keeps the discipline. -/
theorem clientProgram_sends {ctl : ClientCtl} {q : Sender} (h : SenderAt cfg t ctl q) :
    (ctl.program cfg).Obeys (senderMonitor cfg t) (SenderAt cfg t) q := by
  cases ctl with
  | main =>
    obtain ⟨rfl, -⟩ := id h
    exact clientMain_sends h
  | events =>
    obtain ⟨rfl, -⟩ := id h
    exact eventLoop_sends h
  | unstarted => exact obeys_sender_call.2 ⟨trivial, fun _ => h⟩
  | run =>
    obtain rfl := h
    exact networkRun_sends q
  | finished => exact h

end Programs

/-! ## The invariant over whole runs -/

/-- What was sent, and what is left of the requests so far. -/
structure Sent {qt : Qt} (m : ClientMemory qt) (log : List ClientEvent) (q : Sender) : Prop where
  wire : q.ok = true → m.wire ++ q.todo = cfg.pb.wireOf (requests cfg log)
  isPrefix : m.wire <+: cfg.pb.wireOf (requests cfg log)
  failed : q.ok = false ↔ m.failed = true
  done : m.hungUp = q.done
  closing : q.closing = true ↔ ∃ r ∈ responses log, closes r = true

/-- No `send` succeeds after one that has failed. -/
def FailsForGood {qt : Qt} (p : ClientState qt) (l : ClientStep) : Prop :=
  p.shared.failed = true → ∀ ch o k, l = .op .main ch →
    p.prog .main = .call (S := Client) (.send o) k → (p.shared.send o ch).1.val ≤ 0

variable {cfg}

namespace Sent

variable {qt : Qt} {m m' : ClientMemory qt} {log : List ClientEvent} {q : Sender}

/-- An operation other than `send` and an event. -/
theorem silent (h : Sent cfg m log q) {e : ClientEvent} (he : responses [e] = [])
    (hwire : m'.wire = m.wire) (hfailed : m'.failed = m.failed) (hungUp : m'.hungUp = m.hungUp) :
    Sent cfg m' (log ++ [e]) q := by
  have hlog : responses (log ++ [e]) = responses log := by
    rw [responses_append, he, List.append_nil]
  have hrequests : requests cfg (log ++ [e]) = requests cfg log := by rw [requests, hlog, requests]
  refine ⟨?_, ?_, ?_, hungUp.trans h.done, ?_⟩
  · rw [hwire, hrequests]
    exact h.wire
  · rw [hwire, hrequests]
    exact h.isPrefix
  · rw [hfailed]
    exact h.failed
  · rw [hlog]
    exact h.closing

/-- The socket is shut. -/
theorem shut (h : Sent cfg m log q) {e : ClientEvent} (he : responses [e] = [])
    (hwire : m'.wire = m.wire) (hfailed : m'.failed = m.failed) (hungUp : m'.hungUp = true) :
    Sent cfg m' (log ++ [e]) { q with done := true } := by
  have hsilent : Sent cfg m (log ++ [e]) q := h.silent he rfl rfl rfl
  refine ⟨?_, ?_, ?_, hungUp, hsilent.closing⟩
  · rw [hwire]
    exact hsilent.wire
  · rw [hwire]
    exact hsilent.isPrefix
  · rw [hfailed]
    exact hsilent.failed

/-- A call of `send`. -/
theorem send (h : Sent cfg m log q) {o : SendOp} {ch : ClientChoice}
    (hguard : q.Allows .main (.send o)) (hC : m.failed = true → (m.send o ch).1.val ≤ 0) :
    Sent cfg (m.send o ch).2 (log ++ [⟨.main, .send o, (m.send o ch).1⟩])
      (q.after cfg (.send o) (m.send o ch).1) := by
  have hsilent : Sent cfg m (log ++ [⟨.main, .send o, (m.send o ch).1⟩]) q :=
    h.silent rfl rfl rfl rfl
  cases hdone : q.done with
  | true =>
    have hungUp : m.hungUp = true := h.done.trans hdone
    have hm : (m.send o ch).2 = m := by
      unfold ClientMemory.send
      rw [if_pos hungUp]
    rw [hm, show q.after cfg (.send o) (m.send o ch).1 = q from if_pos hdone]
    exact hsilent
  | false =>
    have hopen : m.hungUp = false := h.done.trans hdone
    have hafter : q.after cfg (.send o) (m.send o ch).1 =
        if (m.send o ch).1.val ≤ 0 then { q with ok := false }
        else { q with todo := q.todo.drop (m.send o ch).1.val.toNat } :=
      if_neg (by rw [hdone]; decide)
    rw [hafter]
    rcases m.send_spec o ch with ⟨hn, hm⟩ | ⟨n, hn, hle, hpos, _, hm⟩
    · have hnow : (m.failed || !m.hungUp) = true := by simp [hopen]
      rw [hm, hnow, if_pos hn]
      exact ⟨nofun, hsilent.isPrefix, ⟨fun _ => rfl, fun _ => rfl⟩, hsilent.done, hsilent.closing⟩
    · rw [hm]
      cases hok : q.ok with
      | true =>
        have ⟨hne, hprefix⟩ := hguard.2 hdone hok
        have hgt : ¬ (m.send o ch).1.val ≤ 0 := by
          have := hpos hne
          omega
        rw [if_neg hgt, hn, Int.toNat_natCast]
        -- The bytes that `send` took are the first of those that were left.
        have htake : o.buf.take n ++ q.todo.drop n = q.todo := by
          have ⟨more, hmore⟩ := hprefix
          rw [← hmore, List.drop_append_of_le_length hle, ← List.append_assoc,
            List.take_append_drop]
        have hall : m.wire ++ o.buf.take n ++ q.todo.drop n =
            cfg.pb.wireOf (requests cfg (log ++ [⟨.main, .send o, (m.send o ch).1⟩])) := by
          rw [List.append_assoc, htake]
          exact hsilent.wire hok
        have hfailed := hsilent.failed
        rw [hok] at hfailed
        exact ⟨fun _ => hall, ⟨_, hall⟩, hfailed, hsilent.done, hsilent.closing⟩
      | false =>
        have hfailed := h.failed.1 hok
        have hle0 := hC hfailed
        have hzero : n = 0 := by omega
        rw [if_pos hle0, hzero, List.take_zero, List.append_nil]
        exact ⟨nofun, hsilent.isPrefix, ⟨fun _ => hfailed, fun _ => rfl⟩, hsilent.done,
          hsilent.closing⟩

/-- An event, after which the messages of its slot are left to send. -/
theorem nextEvent (h : Sent cfg m log q) {t : ClientTid} {r : GuiEvent × List ClientMsg}
    (hguard : q.Allows t .nextEvent) (hwire : m'.wire = m.wire) (hfailed : m'.failed = m.failed)
    (hungUp : m'.hungUp = m.hungUp) :
    Sent cfg m' (log ++ [⟨t, .nextEvent, r⟩]) (q.after cfg .nextEvent r) := by
  have ⟨_, hclosing, htodo⟩ := hguard
  have hnew : responses (log ++ [(⟨t, .nextEvent, r⟩ : ClientEvent)]) = responses log ++ [r] :=
    responses_append _ _
  cases hdone : q.done with
  | true =>
    have hclosed : ∃ r ∈ responses log, closes r = true := h.closing.1 (hclosing.trans hdone)
    have hrequests : requests cfg (log ++ [(⟨t, .nextEvent, r⟩ : ClientEvent)]) =
        requests cfg log := requests_closed cfg _ hclosed
    rw [show q.after cfg .nextEvent r = q from if_pos hdone]
    refine ⟨?_, ?_, ?_, hungUp.trans h.done, fun _ => ?_, fun _ => hclosing.trans hdone⟩
    · rw [hwire, hrequests]
      exact h.wire
    · rw [hwire, hrequests]
      exact h.isPrefix
    · rw [hfailed]
      exact h.failed
    · have ⟨r', hmem, hr'⟩ := hclosed
      exact ⟨r', by rw [hnew]; exact List.mem_append_left _ hmem, hr'⟩
  | false =>
    have hopen : ∀ r' ∈ responses log, closes r' = false := by
      intro r' hmem
      by_contra hne
      have := h.closing.2 ⟨r', hmem, Bool.eq_true_of_not_eq_false hne⟩
      exact absurd ((this.symm.trans hclosing).trans hdone) (by decide)
    have hrequests : requests cfg (log ++ [(⟨t, .nextEvent, r⟩ : ClientEvent)]) =
        requests cfg log ++ afterEvent cfg r := requests_event cfg hopen
    have hafter : q.after cfg .nextEvent r =
        { q with todo := cfg.pb.wireOf (afterEvent cfg r), closing := closes r } :=
      if_neg (by rw [hdone]; decide)
    rw [hafter]
    refine ⟨fun hok => ?_, ?_, ?_, hungUp.trans h.done, fun hr => ?_, fun ⟨r', hmem, hr'⟩ => ?_⟩
    · have hall := h.wire hok
      rw [htodo hok, List.append_nil] at hall
      rw [hwire, hrequests, cfg.pb.wireOf_append, ← hall]
    · rw [hwire, hrequests, cfg.pb.wireOf_append]
      exact h.isPrefix.trans (List.prefix_append _ _)
    · rw [hfailed]
      exact h.failed
    · exact ⟨r, by rw [hnew]; exact List.mem_append_right _ List.mem_cons_self, hr⟩
    · rw [hnew, List.mem_append, List.mem_singleton] at hmem
      rcases hmem with hmem | rfl
      · exact absurd ((hopen r' hmem).symm.trans hr') (by decide)
      · exact hr'

end Sent

theorem sender_keeps (cfg : ClientConfig) :
    Machine.Keeps (clientMachine cfg) (senderMonitor cfg) (SenderAt cfg)
      (fun p qs => Sent cfg p.shared p.log (qs .main)) FailsForGood where
  op p qs t ch o k r m q' hJ hC hprog he hguard hnext := by
    rw [show q' = (qs t).after cfg o r from hnext]
    change p.shared.exec t o ch = some (r, m) at he
    -- The operations that the sender takes no notice of.
    have hsilent : (qs t).after cfg o r = qs t → responses [(⟨t, o, r⟩ : ClientEvent)] = [] →
        m.wire = p.shared.wire → m.failed = p.shared.failed → m.hungUp = p.shared.hungUp →
        Sent cfg m (p.log ++ [⟨t, o, r⟩]) (update qs t ((qs t).after cfg o r) .main) := by
      intro hsame hlog hwire hfailed hungUp
      rw [hsame, update_eq_self]
      exact hJ.silent hlog hwire hfailed hungUp
    cases o with
    | send o =>
      obtain ⟨rfl, hsend⟩ := hguard
      have hm : p.shared.send o ch = (r, m) := Option.some.inj he
      have hsent := hJ.send ⟨rfl, hsend⟩ fun hfailed => hC hfailed ch o k rfl hprog
      rw [hm] at hsent
      rw [update_self]
      exact hsent
    | nextEvent =>
      obtain ⟨rfl, hnext⟩ := hguard
      rw [update_self]
      have ⟨_, _, _, _, hm⟩ := ClientMemory.nextEvent_spec he
      have hwire : m.wire = p.shared.wire := by rw [hm]
      have hfailed : m.failed = p.shared.failed := by rw [hm]
      have hungUp : m.hungUp = p.shared.hungUp := by rw [hm]
      exact hJ.nextEvent ⟨rfl, hnext⟩ hwire hfailed hungUp
    | recv o =>
      have hm := (ClientMemory.recv_spec he).2.1
      exact hsilent rfl rfl (by rw [hm]) (by rw [hm]) (by rw [hm])
    | lock | started =>
      have ⟨_, he⟩ := Option.ite_none_right_eq_some.1 he
      cases he
      exact hsilent rfl rfl rfl rfl rfl
    | shutdown | close =>
      obtain rfl := hguard
      cases he
      rw [update_self]
      exact hJ.shut rfl rfl rfl rfl
    | running | stopRunning | unlock | emit | showWindow | shutdownRead =>
      cases he
      exact hsilent rfl rfl rfl rfl rfl
  jump p qs t ctl hJ _ _ hpost := by
    refine ⟨qs t, clientProgram_sends hpost, ?_⟩
    rw [update_eq_self]
    exact hJ
  env p qs e m start hJ _ he := by
    have ⟨m', he', hm⟩ := Option.map_eq_some_iff.1 he
    cases hm
    refine ⟨qs, fun _ _ => rfl, nofun, ?_⟩
    cases e with
    | arrive bs =>
      have ⟨_, he'⟩ := Option.ite_none_left_eq_some.1 he'
      cases he'
      exact ⟨hJ.wire, hJ.isPrefix, hJ.failed, hJ.done, hJ.closing⟩
    | hangUp =>
      cases he'
      exact ⟨hJ.wire, hJ.isPrefix, hJ.failed, hJ.done, hJ.closing⟩

theorem reachable_sends {p : ClientState cfg.qt} (h : (clientSystem cfg).Reaches FailsForGood p) :
    ∃ qs, Machine.Monitored (senderMonitor cfg) (SenderAt cfg)
      (fun p qs => Sent cfg p.shared p.log (qs .main)) p qs := by
  have hinit : Machine.Monitored (senderMonitor cfg) (SenderAt cfg)
      (fun p qs => Sent cfg p.shared p.log (qs .main)) (clientSystem cfg).init
      fun _ => { todo := cfg.pb.wireOf [.register ⟨cfg.username, cfg.localIp⟩] } := by
    refine ⟨fun t => ?_, fun _ => rfl, List.nil_prefix, ⟨nofun, nofun⟩, rfl,
      ⟨nofun, fun ⟨_, hmem, _⟩ => (nomatch hmem)⟩⟩
    cases t with
    | main => exact ⟨rfl, rfl, rfl, rfl⟩
    | network => exact rfl
  exact (sender_keeps cfg).steps h hinit

/-- What went out is the beginning of the frames of the requests. -/
theorem wire_first {p : ClientState cfg.qt} (h : (clientSystem cfg).Reaches FailsForGood p) :
    p.shared.wire <+: cfg.pb.wireOf (requests cfg p.log) := by
  have ⟨_, _, hsent⟩ := reachable_sends h
  exact hsent.isPrefix

/-- It is all of them between two events, if no `send` has failed. -/
theorem wire_all {p : ClientState cfg.qt} (h : (clientSystem cfg).Reaches FailsForGood p)
    (hok : p.shared.failed = false)
    (hends : p.prog .main = .ret .events ∨ p.prog .main = .ret .finished) :
    p.shared.wire = cfg.pb.wireOf (requests cfg p.log) := by
  have ⟨qs, hobeys, hsent⟩ := reachable_sends h
  have hok' : (qs .main).ok = true := by
    by_contra hne
    rw [Bool.not_eq_true] at hne
    exact absurd (hok.symm.trans (hsent.failed.1 hne)) (by decide)
  have htodo : (qs .main).todo = [] := by
    have hpost := hobeys .main
    rcases hends with hend | hend
    · rw [hend] at hpost
      exact hpost.2.2 hok'
    · rw [hend] at hpost
      exact hpost rfl hok'
  have hall := hsent.wire hok'
  rwa [htodo, List.append_nil] at hall

/-- In every run in which no `send` succeeds after one that has failed, the bytes that
went out are the beginning of the frames of the requests: the Register message, the
messages of the slots in the order of the events, and Quit at the end if the window was
closed.  They are all of them where no `send` has failed and the main thread is between
two events. -/
theorem requests_sent {p : ClientState cfg.qt} (h : (clientSystem cfg).Reaches FailsForGood p) :
    p.shared.wire <+: cfg.pb.wireOf (requests cfg p.log) ∧
      (p.shared.failed = false →
        p.prog .main = .ret .events ∨ p.prog .main = .ret .finished →
          p.shared.wire = cfg.pb.wireOf (requests cfg p.log)) :=
  ⟨wire_first h, wire_all h⟩

/-- "a" sends a message to all and closes the window. -/
def sayRun : List ClientStep :=
  welcomeRun ++ guiTurn (.user (.edit "hi")) 0 ++ guiTurn (.user .sendClicked) 4 ++ guiTurn .close 8

/-- What "a" has sent. -/
theorem requests_sent_say :
    ∃ p : ClientState (sampleClient "a" "10.0.0.1").qt,
      (clientSystem (sampleClient "a" "10.0.0.1")).Reaches FailsForGood p ∧
        p.shared.wire = sampleClientProtobuf.wireOf (requests (sampleClient "a" "10.0.0.1") p.log) ∧
        (requests (sampleClient "a" "10.0.0.1") p.log).map ClientRequest.msgType =
          [MsgType.REGISTER, MsgType.MESSAGE_GENERAL, MsgType.QUIT] := by
  have ⟨p, hp, hrun⟩ := Lts.exists_reaches_of_runIf (L := clientSystem (sampleClient "a" "10.0.0.1"))
    (C := fun p _ => p.shared.failed = false) sayRun
    (fun p => !p.shared.failed && decide ((p.prog .main).returned = some .events) &&
      decide ((requests (sampleClient "a" "10.0.0.1") p.log).map ClientRequest.msgType =
        [MsgType.REGISTER, MsgType.MESSAGE_GENERAL, MsgType.QUIT]))
    (by decide +kernel)
  rw [Bool.and_eq_true, Bool.and_eq_true, Bool.not_eq_true', decide_eq_true_eq, decide_eq_true_eq] at hrun
  obtain ⟨⟨hok, hreturned⟩, hrequests⟩ := hrun
  have hgood : (clientSystem (sampleClient "a" "10.0.0.1")).Reaches FailsForGood p :=
    hp.mono fun _ _ hC hfailed => absurd (hC.symm.trans hfailed) (by decide)
  have hend := Prog.returned_eq_some.1 hreturned
  exact ⟨p, hgood, (requests_sent hgood).2 hok (Or.inl hend), hrequests⟩

/-! ## What a receiver finds -/

/-- The frames that a stream of frames starts with are the first of them.  A frame that
is too large for the receiver stops it. -/
theorem frames_of_prefix {gs : List (UInt8 × Bytes)} (hgs : ∀ g ∈ gs, g.2.length < 2 ^ 32)
    {fs : List WireFrame}
    (h : frameCode.concat fs <+: gs.flatMap fun g => encodeFrame g.1 g.2) :
    fs.map Subtype.val <+: gs := by
  induction fs generalizing gs with
  | nil => exact List.nil_prefix
  | cons f fs ih =>
    rw [PrefixCode.concat_cons] at h
    have hword : frameCode.word f <+: gs.flatMap fun g => encodeFrame g.1 g.2 :=
      (List.prefix_append _ _).trans h
    cases gs with
    | nil => exact absurd (List.prefix_nil.1 hword) (frameCode.word_ne_nil f)
    | cons g gs =>
      rw [List.flatMap_cons] at h hword
      have hg : g.2.length ≤ MAX_PAYLOAD := by
        -- The length field of the first frame says how long it is.
        have hlen := And.left <| headerLen_of_prefix f.2 hword
        have hlt := hgs g List.mem_cons_self
        rw [encodeFrame, List.append_assoc, headerLen_header,
          UInt32.toNat_ofNat', Nat.mod_eq_of_lt hlt] at hlen
        rw [hlen]
        exact f.2
      have hfg : f = ⟨g, hg⟩ := PrefixCode.word_unique hword (List.prefix_append _ _)
      subst hfg
      have hrest := (List.prefix_append_right_inj _).1 h
      exact List.cons_prefix_cons.2
        ⟨rfl, ih (fun g' hg' => hgs g' (List.mem_cons_of_mem _ hg')) hrest⟩

/-- A stream of frames within the limit is read as these frames. -/
theorem frames_of_all {gs : List (UInt8 × Bytes)} (hgs : ∀ g ∈ gs, g.2.length ≤ MAX_PAYLOAD)
    {fs : List WireFrame}
    (h : frameCode.IsLongest (gs.flatMap fun g => encodeFrame g.1 g.2) fs) :
    fs.map Subtype.val = gs := by
  lift gs to List WireFrame using hgs
  have hstream : ((gs.map Subtype.val).flatMap fun g => encodeFrame g.1 g.2) = frameCode.concat gs :=
    List.flatMap_map _ _ _
  have hall : frameCode.IsLongest (frameCode.concat gs ++ []) gs :=
    PrefixCode.isLongest_of_stuck fun f hf => frameCode.word_ne_nil f (List.prefix_nil.1 hf)
  rw [hstream] at h
  rw [List.append_nil] at hall
  rw [h.unique hall]

end SimpleChat
