import SimpleChat.Framing
import SimpleChat.Registry

/-!
# Sends that fail

In `SimpleChat.System` every frame is written.  Here the calls of `send` that
write it return what the system likes: they may take some bytes, and they may
fail.  `send_message` reports that, and nothing that calls it looks at the
report, so the server goes on to write the next frame.

An `Attempt` is a frame with the bytes of it that went out.  `Intact` says that
nothing goes out after a frame that was cut off, and then what the client reads
are the frames that the server sent (`intact_reads`).  It is so just in the runs
in which the system fails every `send` after the one that failed in the middle of
a frame (`sends_intact_iff`).
-/

namespace SimpleChat

open Conc Function Data

/-! ## One frame -/

/-- `send`, where `takes` says for each call how many bytes it would like to take,
or that it fails. -/
def Sink.trySend (takes : Nat → Option Nat) (o : SendOp) :
    StateM Sink {n : Int // n ≤ o.buf.length} :=
  fun s =>
    match takes s.calls with
    | none => (⟨-1, by omega⟩, { s with calls := s.calls + 1 })
    | some want =>
      let n := moved want o.buf.length
      (⟨n, Int.ofNat_le.2 (Nat.min_le_right _ _)⟩, ⟨s.wire ++ o.buf.take n, s.calls + 1⟩)

/-- How the stream and a writer of `frame` fit together. -/
structure Sink.Tried (takes : Nat → Option Nat) (frame : Bytes) (q : Writing) (t : Sink) : Prop where
  wire : t.wire = q.sent
  part : q.sent <+: frame
  fresh : t.calls = 0 → q = ⟨[], false⟩
  failed : t.calls ≠ 0 → takes 0 = none → q.failed = true ∧ q.sent = []
  took : t.calls ≠ 0 → takes 0 ≠ none → q.sent ≠ []

theorem tried_trySend (takes : Nat → Option Nat) {frame : Bytes} (q : Writing) (t : Sink)
    (o : SendOp) (q' : Writing) (h : Sink.Tried takes frame q t)
    (hguard : (writeMonitor frame).guard q o)
    (hnext : (writeMonitor frame).next q o (Sink.trySend takes o t).1 q') :
    Sink.Tried takes frame q' (Sink.trySend takes o t).2 := by
  have ⟨hbuf, hrunning, hpart⟩ := hguard
  have hq' : q' = q.after o (Sink.trySend takes o t).1 := hnext
  subst hq'
  unfold Sink.trySend
  cases htake : takes t.calls with
  | none =>
    dsimp only
    have hfail : q.after o ⟨-1, by omega⟩ = { q with failed := true } :=
      if_pos (show (-1 : Int) ≤ 0 by decide)
    rw [hfail]
    refine ⟨h.wire, h.part, fun hzero => by simp at hzero, fun _ hnone => ⟨rfl, ?_⟩, fun _ hsome => ?_⟩
    · by_cases hcalls : t.calls = 0
      · rw [h.fresh hcalls]
      · exact (h.failed hcalls hnone).2
    · by_cases hcalls : t.calls = 0
      · rw [hcalls] at htake
        exact absurd htake hsome
      · exact h.took hcalls hsome
  | some want =>
    dsimp only
    have hpos : 0 < moved want o.buf.length := moved_pos (List.length_pos_iff.2 hbuf)
    have hsent : q.after o ⟨moved want o.buf.length, Int.ofNat_le.2 (Nat.min_le_right _ _)⟩ =
        { q with sent := q.sent ++ o.buf.take (moved want o.buf.length) } :=
      if_neg (show ¬ ((moved want o.buf.length : Nat) : Int) ≤ 0 by omega)
    have htaken : o.buf.take (moved want o.buf.length) ≠ [] := by
      intro hnil
      rcases List.take_eq_nil_iff.1 hnil with hzero | hnil
      · omega
      · exact hbuf hnil
    rw [hsent]
    refine ⟨by rw [h.wire], ?_, fun hzero => by simp at hzero, fun _ hnone => ?_,
      fun _ _ hnil => htaken (List.append_eq_nil_iff.1 hnil).2⟩
    · exact ((List.prefix_append_right_inj q.sent).2 (List.take_prefix _ _)).trans hpart
    · by_cases hcalls : t.calls = 0
      · rw [hcalls, hnone] at htake
        cases htake
      · rw [(h.failed hcalls hnone).1] at hrunning
        cases hrunning

/-- `send_message` of a frame on a stream of its own. -/
def trySendMessage (takes : Nat → Option Nat) (fd : Fd) (msgType : UInt8) (payload : Bytes) :
    Bool × Sink :=
  (sendMessage fd msgType (some payload)).interp (Sink.trySend takes) ⟨[], 0⟩

/-- `send_message` writes its frame from the first byte on, nothing if the first
call of `send` fails, and all of it if it returns `true`. -/
theorem trySendMessage_wire (takes : Nat → Option Nat) (fd : Fd) (msgType : UInt8)
    (payload : Bytes) :
    (trySendMessage takes fd msgType payload).2.wire <+: encodeFrame msgType payload ∧
      ((trySendMessage takes fd msgType payload).2.wire = [] ↔ takes 0 = none) ∧
      ((trySendMessage takes fd msgType payload).1 = true →
        (trySendMessage takes fd msgType payload).2.wire = encodeFrame msgType payload) := by
  have hstart : Sink.Tried takes (encodeFrame msgType payload) ⟨[], false⟩ ⟨[], 0⟩ :=
    ⟨rfl, List.nil_prefix, fun _ => rfl, fun h => absurd rfl h, fun h => absurd rfl h⟩
  have ⟨q, hpost, htried⟩ := (sendMessage_obeys fd msgType payload).interp (tried_trySend takes)
    hstart
  change Writes.exact _ (trySendMessage takes fd msgType payload).1 q at hpost
  change Sink.Tried _ _ q (trySendMessage takes fd msgType payload).2 at htried
  have hcalls : (trySendMessage takes fd msgType payload).2.calls ≠ 0 := by
    intro hzero
    rw [htried.fresh hzero, Writes.exact] at hpost
    split at hpost
    · exact encodeFrame_ne_nil msgType payload (congrArg Writing.sent hpost).symm
    · cases hpost
  rw [htried.wire]
  refine ⟨htried.part, ⟨fun hnil => ?_, fun hnone => (htried.failed hcalls hnone).2⟩, fun hok => ?_⟩
  · by_contra hsome
    exact htried.took hcalls hsome hnil
  · rw [Writes.exact, if_pos hok] at hpost
    rw [hpost]

/-! ## The frames on a connection -/

/-- A frame that the server tried to send, and the bytes of it that `send`
took. -/
structure Attempt where
  msgType : UInt8
  payload : Bytes
  wrote : Bytes
  part : wrote <+: encodeFrame msgType payload

namespace Attempt

/-- The bytes of the frame. -/
def frame (a : Attempt) : Bytes := encodeFrame a.msgType a.payload

/-- A part of the frame went out, and not all of it. -/
def Torn (a : Attempt) : Prop := a.wrote ≠ [] ∧ a.wrote ≠ a.frame

instance (a : Attempt) : Decidable a.Torn := inferInstanceAs (Decidable (_ ∧ _))

end Attempt

/-- What went out on the connection. -/
def wireOf (l : List Attempt) : Bytes := l.flatMap Attempt.wrote

/-- The frames that went out, or at least a part of them. -/
def sentFrames (l : List Attempt) : List Bytes :=
  (l.filter fun a => a.wrote ≠ []).map Attempt.frame

/-- Some frame was cut off. -/
def Broken (l : List Attempt) : Prop := ∃ a ∈ l, a.Torn

instance (l : List Attempt) : Decidable (Broken l) :=
  inferInstanceAs (Decidable (∃ a ∈ l, a.Torn))

/-- Once a frame was cut off, no byte of a later one goes out. -/
def Intact (l : List Attempt) : Prop :=
  ∀ before a after, l = before ++ a :: after → a.Torn → ∀ b ∈ after, b.wrote = []

/-- Whatever `recv` returns, the frames that the client reads are the first of those
that the server sent. -/
def ReadsSent (l : List Attempt) : Prop :=
  ∀ (gives : Nat → Nat) (fd : Fd) (fs : List (UInt8 × Bytes)) (source : Source),
    (recvMessages fd fs.length).interp (Source.recv gives) ⟨wireOf l, 0⟩ = (fs.map some, source) →
      fs.map (fun f => encodeFrame f.1 f.2) <+: sentFrames l

theorem intact_nil : Intact [] := by
  intro before a after h
  simp at h

/-- One more frame. -/
theorem intact_concat {l : List Attempt} {a : Attempt} :
    Intact (l ++ [a]) ↔ Intact l ∧ (Broken l → a.wrote = []) := by
  constructor
  · intro h
    refine ⟨fun before b after hl hb c hc => ?_, fun ⟨b, hb, htorn⟩ => ?_⟩
    · refine h before b (after ++ [a]) ?_ hb c (List.mem_append_left _ hc)
      rw [hl, List.append_assoc]
      rfl
    · have ⟨before, after, hl⟩ := List.append_of_mem hb
      refine h before b (after ++ [a]) ?_ htorn a ?_
      · rw [hl, List.append_assoc]
        rfl
      · exact List.mem_append_right _ List.mem_cons_self
  · intro ⟨h, hlast⟩ before b after hl hb c hc
    rcases List.eq_nil_or_concat after with hnil | ⟨after', d, hd⟩
    · rw [hnil] at hc
      cases hc
    · rw [hd, List.concat_eq_append] at hl hc
      rw [← List.cons_append, ← List.append_assoc] at hl
      have ⟨hl', hd'⟩ := List.append_inj' hl rfl
      rcases List.mem_append.1 hc with hc | hc
      · exact h before b after' hl' hb c hc
      · rw [List.mem_singleton.1 hc, ← List.singleton_inj.1 hd']
        exact hlast ⟨b, hl' ▸ List.mem_append_right _ List.mem_cons_self, hb⟩

theorem Intact.tail {l : List Attempt} {a : Attempt} (h : Intact (a :: l)) : Intact l := by
  intro before b after hl
  exact h (a :: before) b after (by rw [hl]; rfl)

theorem length_encodeFrame (msgType : UInt8) (payload : Bytes) :
    (encodeFrame msgType payload).length =
      HEADER_SIZE + (UInt32.ofNat payload.length).toNat := by
  have hle : (UInt32.ofNat payload.length).toNat ≤ payload.length := by
    rw [UInt32.toNat_ofNat']
    exact Nat.mod_le _ _
  rw [encodeFrame, List.length_append, length_header, List.length_take, Nat.min_eq_left hle]

/-- A stream that starts with a frame that `recv_message` accepts, and with a frame
of the server, starts with the same frame twice. -/
theorem frame_unique {f : UInt8 × Bytes} {msgType : UInt8} {payload s : Bytes}
    (hf : f.2.length ≤ MAX_PAYLOAD) (h : encodeFrame f.1 f.2 <+: s)
    (h' : encodeFrame msgType payload <+: s) :
    encodeFrame f.1 f.2 = encodeFrame msgType payload := by
  have hread := And.left <| headerLen_of_prefix hf h
  have hlen : headerLen s = UInt32.ofNat payload.length := by
    have ⟨rest, hrest⟩ := h'
    rw [← hrest, encodeFrame, List.append_assoc, headerLen_header]
  have heq : (encodeFrame f.1 f.2).length = (encodeFrame msgType payload).length := by
    rw [length_encodeFrame, length_encodeFrame, toNat_payload_length hf, ← hread, hlen]
  exact (List.prefix_of_prefix_length_le h h' heq.le).eq_of_length heq

/-- The frames that a list of calls of `recv_message` returned, as a part of the
stream. -/
theorem recvMessages_some (gives : Nat → Nat) (fd : Fd) {fs : List (UInt8 × Bytes)}
    {s source : Source}
    (h : (recvMessages fd fs.length).interp (Source.recv gives) s = (fs.map some, source)) :
    (∀ f ∈ fs, f.2.length ≤ MAX_PAYLOAD) ∧
      (fs.flatMap fun f => encodeFrame f.1 f.2) <+: s.rest := by
  induction fs generalizing s source with
  | nil => exact ⟨fun f hf => (nomatch hf), List.nil_prefix⟩
  | cons f fs ih =>
    rw [List.length_cons, recvMessages, Prog.interp_bind_state, Prog.interp_bind_state] at h
    have hfst := congrArg Prod.fst h
    change _ :: _ = some f :: fs.map some at hfst
    obtain ⟨hf, hmore⟩ := List.cons.inj hfst
    have hrun := recvMessage_run gives fd s
    split at hrun
    · rename_i g s' heq
      rw [heq] at hf hmore
      cases hf
      obtain ⟨hmax, hs⟩ := hrun
      obtain ⟨hfs, hpre⟩ := ih (Prod.ext hmore rfl)
      refine ⟨List.forall_mem_cons.2 ⟨hmax, hfs⟩, ?_⟩
      rw [hs, List.flatMap_cons, List.prefix_append_right_inj]
      exact hpre
    · rename_i s' heq
      rw [heq] at hf
      cases hf

/-- What goes out on a connection is what the client reads the frames from. -/
theorem intact_words {l : List Attempt} (h : Intact l) {fs : List (UInt8 × Bytes)}
    (hfs : ∀ f ∈ fs, f.2.length ≤ MAX_PAYLOAD)
    (hwire : (fs.flatMap fun f => encodeFrame f.1 f.2) <+: wireOf l) :
    fs.map (fun f => encodeFrame f.1 f.2) <+: sentFrames l := by
  induction l generalizing fs with
  | nil =>
    cases fs with
    | nil => exact List.nil_prefix
    | cons f fs =>
      have hnil := List.prefix_nil.1 hwire
      rw [List.flatMap_cons, List.append_eq_nil_iff] at hnil
      exact absurd hnil.1 (encodeFrame_ne_nil f.1 f.2)
  | cons a l ih =>
    by_cases hnone : a.wrote = []
    · have hw : wireOf (a :: l) = wireOf l := by
        rw [wireOf, List.flatMap_cons, hnone]
        rfl
      have hs : sentFrames (a :: l) = sentFrames l := by
        simp [sentFrames, hnone]
      rw [hs]
      exact ih h.tail hfs (hw ▸ hwire)
    have hs : sentFrames (a :: l) = a.frame :: sentFrames l := by
      simp [sentFrames, hnone]
    rw [hs]
    cases fs with
    | nil => exact List.nil_prefix
    | cons f fs =>
      have hf := hfs f List.mem_cons_self
      rw [List.flatMap_cons, wireOf, List.flatMap_cons] at hwire
      have hword : encodeFrame f.1 f.2 <+: a.wrote ++ l.flatMap Attempt.wrote :=
        (List.prefix_append _ _).trans hwire
      by_cases hall : a.wrote = a.frame
      · have heq : encodeFrame f.1 f.2 = a.frame := by
          refine frame_unique hf hword ?_
          rw [hall]
          exact List.prefix_append _ _
        rw [hall, heq, List.prefix_append_right_inj] at hwire
        rw [List.map_cons, heq, List.cons_prefix_cons]
        exact ⟨rfl, ih h.tail (fun g hg => hfs g (List.mem_cons_of_mem f hg)) hwire⟩
      · -- The frame was cut off, so it is the end of the stream.
        have hrest : l.flatMap Attempt.wrote = [] :=
          List.flatMap_eq_nil_iff.2 (h [] a l rfl ⟨hnone, hall⟩)
        rw [hrest, List.append_nil] at hword
        have heq : encodeFrame f.1 f.2 = a.frame :=
          frame_unique hf (hword.trans a.part) List.prefix_rfl
        rw [heq] at hword
        exact absurd (a.part.eq_of_length_le hword.length_le) hall

/-- Where nothing goes out after a frame that was cut off, the client reads the
frames that the server sent. -/
theorem intact_reads {l : List Attempt} (h : Intact l) : ReadsSent l := by
  intro gives fd fs source hread
  have ⟨hfs, hwire⟩ := recvMessages_some gives fd hread
  exact intact_words h hfs hwire

/-! ## The server -/

variable (cfg : Config)

/-- The state of the server, and for each connection the frames that it tried to
send. -/
structure SendWorld where
  base : World
  attempts : ConnId → List Attempt

/-- What an operation leaves open, with the results of the calls of `send`. -/
structure SendChoice where
  base : Choice := {}
  takes : Nat → Option Nat := fun _ => some 0

/-- The frame that an operation of thread `t` sends, and to which descriptor. -/
def World.sends (w : World) (t : Tid) : ServerOp → Option (Fd × ServerMsg)
  | .mem _ => none
  | .sendBare fd msg => some (fd, msg)
  | .sendLocked s msg => some ((w.mem.heap s).socketFd, msg)
  | .register fd username peerIp =>
    match t with
    | .watchdog => none
    | .handler c =>
      let x := w.mem.register c fd username peerIp
      let reply := registerReply username peerIp x.1
      match reply.1 with
      | none => some (fd, reply.2)
      | some s => some ((x.2.heap s).socketFd, reply.2)

/-- The frame in bytes, with its connection and descriptor, if the descriptor is
open and `SerializeToString` succeeds. -/
def World.sendsOn (w : World) (t : Tid) (o : ServerOp) : Option (ConnId × Fd × UInt8 × Bytes) := do
  let (fd, msg) ← w.sends t o
  let c ← w.mem.fds fd
  let payload ← cfg.pb.serialize msg
  some (c, fd, msg.msgType, payload)

/-- The attempt to send a frame, with the results `takes` of the calls of `send`. -/
def attempt (takes : Nat → Option Nat) (fd : Fd) (msgType : UInt8) (payload : Bytes) : Attempt where
  msgType := msgType
  payload := payload
  wrote := (trySendMessage takes fd msgType payload).2.wire
  part := (trySendMessage_wire takes fd msgType payload).1

namespace SendWorld

variable (w : SendWorld)

/-- The attempts after an operation of thread `t`. -/
def attempted (t : Tid) (o : ServerOp) (takes : Nat → Option Nat) : ConnId → List Attempt :=
  match w.base.sendsOn cfg t o with
  | none => w.attempts
  | some (c, fd, msgType, payload) =>
    update w.attempts c (w.attempts c ++ [attempt takes fd msgType payload])

/-- The effect and the response of an operation of thread `t`.  The result of
`send_message` is not part of it. -/
def exec (t : Tid) (o : ServerOp) (ch : SendChoice) : Option (o.Resp × SendWorld) :=
  (w.base.exec cfg t o ch.base).map fun x => (x.1, ⟨x.2, w.attempted cfg t o ch.takes⟩)

def env (e : Env) : Option (SendWorld × Option (Tid × Ctl)) :=
  (w.base.env e).map fun x => ({ w with base := x.1 }, x.2)

end SendWorld

/-- How the threads run when `send` may fail. -/
def sendMachine : Machine Server Tid Ctl SendWorld SendChoice Env where
  exec t w o ch := w.exec cfg t o ch
  resume _ c := c.program cfg
  env e w := w.env e

abbrev SendState := Pool Server Tid Ctl SendWorld

abbrev SendStep := Label Tid SendChoice Env

/-- The server when `send` may fail. -/
def sendSystem : Lts SendState SendStep :=
  (sendMachine cfg).toLts ⟨⟨.init, fun _ => []⟩, fun _ => []⟩ fun
    | .watchdog => .watchdog
    | .handler _ => .ended

variable {cfg}

/-! ## The frames are those of the server -/

/-- The server without the results of `send`. -/
def baseOf (p : SendState) : State := ⟨p.shared.base, p.prog, p.log⟩

/-- The server takes the same steps whatever `send` returns. -/
theorem reaches_base {C : SendState → SendStep → Prop} {p : SendState}
    (h : (sendSystem cfg).Reaches C p) : (system cfg).Reaches Lts.Any (baseOf p) := by
  refine h.invariant (I := fun p => (system cfg).Reaches Lts.Any (baseOf p)) .init
    fun p l p' _ hp _ hs => ?_
  cases l with
  | op t ch =>
    have ⟨o, k, r, w, hprog, he, hp'⟩ := Machine.step_op.1 hs
    have ⟨x, hx, heq⟩ := Option.map_eq_some_iff.1 he
    cases heq
    have hstep : (system cfg).step (baseOf p) (.op t ch.base) = some (baseOf p') :=
      Machine.step_op.2 ⟨o, k, x.1, x.2, hprog, hx, by rw [hp']; rfl⟩
    exact hp.tail trivial hstep
  | jump t =>
    have ⟨c, hprog, hp'⟩ := Machine.step_jump.1 hs
    have hstep : (system cfg).step (baseOf p) (.jump t) = some (baseOf p') :=
      Machine.step_jump.2 ⟨c, hprog, by rw [hp']; rfl⟩
    exact hp.tail trivial hstep
  | env e =>
    have ⟨w, start, he, hp'⟩ := Machine.step_env.1 hs
    have ⟨x, hx, heq⟩ := Option.map_eq_some_iff.1 he
    cases heq
    have hstep : (system cfg).step (baseOf p) (.env e) = some (baseOf p') := by
      refine Machine.step_env.2 ⟨x.1, x.2, hx, ?_⟩
      rw [hp']
      cases x.2 <;> rfl
    exact hp.tail trivial hstep

/-- What an operation writes at the level of whole frames. -/
theorem exec_sends {t : Tid} {w w' : World} {o : ServerOp} {ch : Choice} {r : o.Resp}
    (h : w.exec cfg t o ch = some (r, w')) :
    match w.sends t o with
    | none => w'.out = w.out
    | some (fd, msg) => ∃ via, w'.out = (w.write fd via msg).out := by
  cases o with
  | mem o =>
    have ⟨x, _, heq⟩ := Option.map_eq_some_iff.1 h
    cases heq
    rfl
  | sendBare fd msg =>
    cases h
    exact ⟨none, rfl⟩
  | sendLocked s msg =>
    cases h
    exact ⟨some s, rfl⟩
  | register fd username peerIp =>
    cases t with
    | watchdog => cases h
    | handler c =>
      have ⟨hr, hw⟩ := World.exec_register.1 h
      have hfds := Memory.register_fds w.mem c fd username peerIp
      subst hw hr
      unfold World.sends World.reply World.write
      dsimp only
      cases hvia : (registerReply username peerIp (w.mem.register c fd username peerIp).1).1 with
      | none =>
        refine ⟨none, ?_⟩
        dsimp only
        rw [hfds]
        cases w.mem.fds fd <;> rfl
      | some s =>
        refine ⟨some s, ?_⟩
        dsimp only
        rw [hfds]
        cases w.mem.fds ((w.mem.register c fd username peerIp).2.heap s).socketFd <;> rfl

/-- The bytes of a frame that was written. -/
def Written.bytes (cfg : Config) (x : Written) : Option Bytes :=
  (cfg.pb.serialize x.msg).map (encodeFrame x.msg.msgType)

/-- The attempts on every connection are the frames that the server wrote there. -/
def SendWorld.SameFrames (cfg : Config) (w : SendWorld) : Prop :=
  ∀ c, (w.attempts c).map Attempt.frame = (w.base.out c).filterMap (Written.bytes cfg)

theorem sameFrames_op {t : Tid} {w : SendWorld} {w' : World} {o : ServerOp} {ch : Choice}
    {r : o.Resp} (takes : Nat → Option Nat) (hw : w.SameFrames cfg)
    (h : w.base.exec cfg t o ch = some (r, w')) :
    SendWorld.SameFrames cfg ⟨w', w.attempted cfg t o takes⟩ := by
  have hout := exec_sends h
  unfold SendWorld.SameFrames SendWorld.attempted World.sendsOn
  cases hsends : w.base.sends t o with
  | none =>
    rw [hsends] at hout
    dsimp only [Option.bind_eq_bind, Option.bind_none] at hout ⊢
    rw [hout]
    exact hw
  | some x =>
    have ⟨fd, msg⟩ := x
    rw [hsends] at hout
    have ⟨via, hout⟩ := hout
    cases hfd : w.base.mem.fds fd with
    | none =>
      rw [World.write, hfd] at hout
      simp only [Option.bind_eq_bind, Option.bind_some, hfd, Option.bind_none]
      rw [hout]
      exact hw
    | some c =>
      rw [World.write_out _ hfd] at hout
      cases hser : cfg.pb.serialize msg with
      | none =>
        simp only [Option.bind_eq_bind, Option.bind_some, hfd, hser, Option.bind_none]
        intro d
        rw [hout]
        by_cases hd : d = c
        · subst hd
          rw [update_self, List.filterMap_append, ← hw d]
          simp [Written.bytes, hser]
        · rw [update_of_ne hd]
          exact hw d
      | some payload =>
        simp only [Option.bind_eq_bind, Option.bind_some, hfd, hser]
        intro d
        rw [hout]
        by_cases hd : d = c
        · subst hd
          rw [update_self, update_self, List.filterMap_append, List.map_append, ← hw d]
          simp [Written.bytes, hser, Attempt.frame, attempt]
        · rw [update_of_ne hd, update_of_ne hd]
          exact hw d

theorem attempts_frames {C : SendState → SendStep → Prop} {p : SendState}
    (h : (sendSystem cfg).Reaches C p) : p.shared.SameFrames cfg := by
  refine h.invariant (I := fun p => p.shared.SameFrames cfg) (fun _ => rfl) fun p l p' _ hp _ hs => ?_
  cases l with
  | op t ch =>
    have ⟨o, k, r, w, _, he, hp'⟩ := Machine.step_op.1 hs
    have ⟨x, hx, heq⟩ := Option.map_eq_some_iff.1 he
    cases heq
    rw [hp']
    exact sameFrames_op ch.takes hp hx
  | jump t =>
    have ⟨c, _, hp'⟩ := Machine.step_jump.1 hs
    rw [hp']
    exact hp
  | env e =>
    have ⟨w, start, he, hp'⟩ := Machine.step_env.1 hs
    have ⟨x, hx, heq⟩ := Option.map_eq_some_iff.1 he
    cases heq
    rw [hp', Pool.afterEnv_shared]
    have hout : x.1.out = p.shared.base.out := by
      rcases World.env_mem_cases hx with ⟨_, _, hout⟩ | ⟨fd, peerIp, _, _, _, hw⟩
      · exact hout
      · rw [hw]
    intro c
    show (p.shared.attempts c).map _ = (x.1.out c).filterMap _
    rw [hout]
    exact hp c

/-! ## When nothing follows a frame that was cut off -/

/-- Once `send` has failed on the connection in the middle of a frame, it fails. -/
def SendsStayFailed (cfg : Config) (p : SendState) : SendStep → Prop
  | .op t ch => ∀ o ∈ p.next t, ∀ x ∈ p.shared.base.sendsOn cfg t o,
    Broken (p.shared.attempts x.1) → ch.takes 0 = none
  | _ => True

instance (p : SendState) (l : SendStep) : Decidable (SendsStayFailed cfg p l) :=
  match l with
  | .op t ch => inferInstanceAs (Decidable (∀ o ∈ p.next t,
      ∀ x ∈ p.shared.base.sendsOn cfg t o, Broken (p.shared.attempts x.1) → ch.takes 0 = none))
  | .jump _ => inferInstanceAs (Decidable True)
  | .env _ => inferInstanceAs (Decidable True)

theorem attempt_wrote_nil (takes : Nat → Option Nat) (fd : Fd) (msgType : UInt8) (payload : Bytes) :
    (attempt takes fd msgType payload).wrote = [] ↔ takes 0 = none :=
  (trySendMessage_wire takes fd msgType payload).2.1

/-- A step keeps the connections intact if and only if it meets the condition. -/
theorem intact_step {p p' : SendState} {l : SendStep} (h : (sendSystem cfg).step p l = some p') :
    (∀ c, Intact (p'.shared.attempts c)) ↔
      (∀ c, Intact (p.shared.attempts c)) ∧ SendsStayFailed cfg p l := by
  cases l with
  | op t ch =>
    have ⟨o, k, r, w, hprog, he, hp'⟩ := Machine.step_op.1 h
    have ⟨x, hx, heq⟩ := Option.map_eq_some_iff.1 he
    cases heq
    subst hp'
    have hnext : p.next t = some o := Pool.next_of_call hprog
    show (∀ c, Intact (p.shared.attempted cfg t o ch.takes c)) ↔ _
    unfold SendWorld.attempted
    cases hsends : p.shared.base.sendsOn cfg t o with
    | none =>
      refine ⟨fun hI => ⟨hI, fun o' ho' y hy => ?_⟩, fun hI => hI.1⟩
      rw [hnext, Option.mem_some_iff] at ho'
      rw [← ho', hsends] at hy
      cases hy
    | some y =>
      have ⟨c, fd, msgType, payload⟩ := y
      have hC : SendsStayFailed cfg p (.op t ch) ↔
          (Broken (p.shared.attempts c) → (attempt ch.takes fd msgType payload).wrote = []) := by
        rw [attempt_wrote_nil]
        constructor
        · exact fun hall => hall o hnext _ hsends
        · intro hone o' ho' z hz
          rw [hnext, Option.mem_some_iff] at ho'
          rw [← ho', hsends, Option.mem_some_iff] at hz
          exact hz ▸ hone
      rw [hC]
      dsimp only
      constructor
      · intro hI
        have hc := hI c
        rw [update_self, intact_concat] at hc
        refine ⟨fun d => ?_, hc.2⟩
        by_cases hd : d = c
        · exact hd ▸ hc.1
        · have hother := hI d
          rwa [update_of_ne hd] at hother
      · intro ⟨hI, hlast⟩ d
        by_cases hd : d = c
        · rw [hd, update_self, intact_concat]
          exact ⟨hI c, hlast⟩
        · rw [update_of_ne hd]
          exact hI d
  | jump t =>
    have ⟨c, _, hp'⟩ := Machine.step_jump.1 h
    rw [hp']
    exact ⟨fun hI => ⟨hI, trivial⟩, fun hI => hI.1⟩
  | env e =>
    have ⟨w, start, he, hp'⟩ := Machine.step_env.1 h
    have ⟨x, _, heq⟩ := Option.map_eq_some_iff.1 he
    cases heq
    rw [hp', Pool.afterEnv_shared]
    exact ⟨fun hI => ⟨hI, trivial⟩, fun hI => hI.1⟩

/-- In a run, nothing follows a frame that was cut off, and the clients read the
frames that the server sent, if and only if every `send` fails after the one that
failed in the middle of a frame. -/
theorem sends_intact_iff {ls : List SendStep} {p : SendState}
    (hrun : (sendSystem cfg).run (sendSystem cfg).init ls = some p) :
    (∀ c, Intact (p.shared.attempts c) ∧ ReadsSent (p.shared.attempts c)) ↔
      (sendSystem cfg).Meets (SendsStayFailed cfg) (sendSystem cfg).init ls := by
  have hiff := Lts.run_iff (I := fun p : SendState => ∀ c, Intact (p.shared.attempts c))
    (fun _ _ _ hs => intact_step hs) hrun
  have hinit : ∀ c, Intact ((sendSystem cfg).init.shared.attempts c) := fun _ => intact_nil
  constructor
  · exact fun h => (hiff.1 fun c => (h c).1).2
  · intro h c
    have hc := hiff.2 ⟨hinit, h⟩ c
    exact ⟨hc, intact_reads hc⟩

/-! ## A run in which a frame is cut off -/

/-- Thread `t` passes a control point and performs `n` operations, the last of
which sends with the results `takes`. -/
def sendTurn (t : Tid) (n : Nat) (takes : Nat → Option Nat) : List SendStep :=
  .jump t :: List.replicate n (.op t ⟨{ want := 100 }, takes⟩)

/-- Client 0 registers, and `send` takes four bytes of the reply and fails, as
when a signal interrupts it.  Then client 0 sends a frame of type 99, and the
calls of `send` for the reply return what `takes` says. -/
def cutRun (takes : Nat → Option Nat) : List SendStep :=
  [.env (.accept 4 "10.0.0.1"), .env (.clientSend 0 [1, 0, 0, 0, 3, 10, 1, 97])] ++
    sendTurn (.handler 0) 6 (fun n => if n = 0 then some 4 else none) ++
  [.env (.clientSend 0 [99, 0, 0, 0, 0])] ++ sendTurn (.handler 0) 4 takes

/-- The second reply follows four bytes of the first, and the client reads a frame
that the server did not send. -/
theorem sends_not_intact : ∃ p, (sendSystem sampleConfig).Reaches Lts.Any p ∧
    ¬ Intact (p.shared.attempts 0) ∧ ¬ ReadsSent (p.shared.attempts 0) := by
  have ⟨p, hp, hrun⟩ := Lts.exists_reaches_of_run (L := sendSystem sampleConfig)
    (cutRun fun _ => some 1000)
    (fun p => decide (
      (p.shared.attempts 0).map (fun a => (decide a.Torn, decide (a.wrote = []))) =
        [(true, false), (false, false)] ∧
      ((recvMessages 4 1).interp (Source.recv fun _ => 1000)
        ⟨wireOf (p.shared.attempts 0), 0⟩).1 = [some (10, [0, 0, 0, 25, 8, 144, 3, 18, 20, 85])] ∧
      ¬ [encodeFrame 10 [0, 0, 0, 25, 8, 144, 3, 18, 20, 85]] <+:
        sentFrames (p.shared.attempts 0))) (by decide +kernel)
  have ⟨hcut, hread, hother⟩ := of_decide_eq_true hrun
  refine ⟨p, hp, fun hI => ?_, fun hR => hother ?_⟩
  · have ⟨a, rest, hl, ha, hrest⟩ := List.map_eq_cons_iff.1 hcut
    have ⟨b, rest', hl', hb, _⟩ := List.map_eq_cons_iff.1 hrest
    have htorn : a.Torn := of_decide_eq_true (congrArg Prod.fst ha)
    have hwrote : b.wrote ≠ [] := of_decide_eq_false (congrArg Prod.snd hb)
    exact hwrote (hI [] a rest hl htorn b (hl' ▸ List.mem_cons_self))
  · exact hR (fun _ => 1000) 4 [(10, [0, 0, 0, 25, 8, 144, 3, 18, 20, 85])] _ (Prod.ext hread rfl)

/-- If `send` fails for the second reply too, the client reads nothing that the
server did not send. -/
theorem sends_intact_iff_failing : ∃ p,
    (sendSystem sampleConfig).run (sendSystem sampleConfig).init (cutRun fun _ => none) = some p ∧
      Broken (p.shared.attempts 0) ∧
      ∀ c, Intact (p.shared.attempts c) ∧ ReadsSent (p.shared.attempts c) := by
  have hrun : ((sendSystem sampleConfig).runIf (SendsStayFailed sampleConfig)
      (sendSystem sampleConfig).init (cutRun fun _ => none)).any
        (fun p => decide (Broken (p.shared.attempts 0))) = true := by
    decide +kernel
  rw [Option.any_eq_true] at hrun
  have ⟨p, hp, hbroken⟩ := hrun
  have ⟨hmeets, hp⟩ := Lts.Meets.of_runIf hp
  exact ⟨p, hp, of_decide_eq_true hbroken, (sends_intact_iff hp).2 hmeets⟩

end SimpleChat
