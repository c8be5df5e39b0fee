import SimpleChat.Conc.Twins
import SimpleChat.FrameSystem
import SimpleChat.Ownership

/-!
# Direct messages are confidential

Two runs of the server under one schedule, in which the peers send the same
frames but for the texts of the direct messages to one user.  `AlikeFrame` says
which frames may differ and how.  The two servers are kept equal but for what is
written through sessions of that user (`Alike`), because a handler uses the text
for nothing but the delivery, and delivers to a session that it found under the
name (`dm_confidential`).
-/

namespace SimpleChat

open Conc Function

/-! ## Frames and operations side by side -/

/-- The frame is a direct message to `u`. -/
structure IsDm (cfg : Config) (u : String) (f : RecvFrame) (msg : MessageDM) : Prop where
  msgType : f.1 = MsgType.MESSAGE_DM
  parses : cfg.pb.parseMessageDM f.2 = some msg
  dest : msg.usernameDes = u
  fits : f.2.length ≤ MAX_PAYLOAD

/-- The frames are the same, or direct messages to `u` that differ in the text. -/
def AlikeFrame (cfg : Config) (u : String) (f f' : RecvFrame) : Prop :=
  f' = f ∨ ∃ msg text, IsDm cfg u f msg ∧ IsDm cfg u f' { msg with message := text }

/-- The peers send frames that are alike, and all else is the same. -/
def AlikeEnv (cfg : Config) (u : String) : FrameEnv → FrameEnv → Prop
  | .frame c f, .frame c' f' => c' = c ∧ AlikeFrame cfg u f f'
  | e, e' => e' = e

theorem AlikeEnv.refl (cfg : Config) (u : String) (e : FrameEnv) : AlikeEnv cfg u e e := by
  cases e with
  | frame c f => exact ⟨rfl, Or.inl rfl⟩
  | accept fd peerIp | clientClose c | tick d => rfl

/-- No session is entered under the empty name. -/
def NamesSessions : ServerOp → Prop
  | .register _ username _ => username ≠ ""
  | _ => True

/-- Operations side by side, for threads that know the sessions `known` of the
user. -/
inductive AlikeOp (cfg : Config) (u : String) (known : SessionRef → Prop) :
    FrameOp → FrameOp → Prop
  | recvMessage (fd : Fd) : AlikeOp cfg u known (.recvMessage fd) (.recvMessage fd)
  | same (o : ServerOp) (h : NamesSessions o) : AlikeOp cfg u known (.server o) (.server o)
  | dispatch (f f' : RecvFrame) (h : AlikeFrame cfg u f f') :
    AlikeOp cfg u known (.server (.mem (.dispatch f.1 f.2)))
      (.server (.mem (.dispatch f'.1 f'.2)))
  | deliver (s : SessionRef) (msg msg' : ServerMsg) (h : known s) :
    AlikeOp cfg u known (.server (.sendLocked s msg)) (.server (.sendLocked s msg'))

/-- The response gives a session that was found under the name. -/
def FoundUnder (u : String) : (o : ServerOp) → o.Resp → SessionRef → Prop
  | .mem (.findUser v), r, s => v = u ∧ r = some s
  | _, _, _ => False

/-- Responses side by side, and what the threads know then. -/
def AlikeResp (cfg : Config) (u : String) (known : SessionRef → Prop) :
    (o o' : FrameOp) → o.Resp → o'.Resp → (SessionRef → Prop) → Prop
  | .recvMessage _, .recvMessage _, r, r', known' =>
    Option.Rel (AlikeFrame cfg u) r r' ∧ known' = known
  | .server o, .server _, r, r', known' =>
    HEq r' r ∧ known' = fun s => known s ∨ FoundUnder u o r s
  | _, _, _, _, _ => False

/-- How two threads of the server go on side by side. -/
def dmCoupling (cfg : Config) (u : String) : Coupling Framed (SessionRef → Prop) where
  ops := AlikeOp cfg u
  next := AlikeResp cfg u

/-! ## The programs -/

section Programs

variable {cfg : Config} {u : String} {known : SessionRef → Prop}

/-- The programs end in the same control point. -/
abbrev SameEnd {α : Type} (a a' : α) (_ : SessionRef → Prop) : Prop := a' = a

theorem alike_server_call {α : Type} {o : ServerOp} {k k' : o.Resp → Prog Framed α}
    {post : α → α → (SessionRef → Prop) → Prop} :
    (∀ r, (k r).Coupled (dmCoupling cfg u) post (k' r) fun s => known s ∨ FoundUnder u o r s) →
    NamesSessions o →
      (Prog.call (S := Framed) (.server o) k).Coupled (dmCoupling cfg u) post
        (.call (S := Framed) (.server o) k') known := by
  intro hk ho
  refine ⟨.same o ho, fun r r' known' hnext => ?_⟩
  have ⟨hr, hknown⟩ : HEq r' r ∧ known' = fun s => known s ∨ FoundUnder u o r s := hnext
  rw [eq_of_heq hr, hknown]
  exact hk r

/-- A program that receives no frame does the same in both runs. -/
theorem lift_alike {α : Type} {p : Prog Server α} (h : p.Only NamesSessions) :
    (p.lift framedEmbedding).Coupled (dmCoupling cfg u) SameEnd (p.lift framedEmbedding) known := by
  induction p generalizing known with
  | ret a => rfl
  | call o k ih => exact alike_server_call (fun r => ih r (h.2 r)) h.1

theorem ServesOp.names {fd : Fd} {o : ServerOp} (h : ServesOp fd o) : NamesSessions o := by
  cases o with
  | register fd' username peerIp => exact h.2
  | mem o => trivial
  | sendBare fd' msg => trivial
  | sendLocked s msg => trivial

theorem SessionOp.names {o : ServerOp} (h : SessionOp o) : NamesSessions o := (h.serves 0).names

theorem WatchdogOp.names {o : ServerOp} (h : WatchdogOp o) : NamesSessions o := by
  cases o with
  | register fd username peerIp => exact h.elim
  | mem o => trivial
  | sendBare fd msg => trivial
  | sendLocked s msg => trivial

/-- Two direct messages to the user that differ in the text. -/
theorem handleMessageDm_alike (fd : Fd) {payload payload' : Bytes} {msg : MessageDM} {text : String}
    (h : cfg.pb.parseMessageDM payload = some msg)
    (h' : cfg.pb.parseMessageDM payload' = some { msg with message := text })
    (hu : msg.usernameDes = u) :
    ((handleMessageDm cfg fd payload).lift framedEmbedding).Coupled (dmCoupling cfg u) SameEnd
      ((handleMessageDm cfg fd payload').lift framedEmbedding) known := by
  simp only [handleMessageDm, withSession, mem_eq, Prog.call_bind, Prog.ret_bind, h, h',
    Prog.lift_call]
  refine alike_server_call (fun session => ?_) trivial
  cases session with
  | none => exact lift_alike ⟨trivial, fun _ => trivial⟩
  | some s =>
    show (Prog.lift _ (_ >>= _)).Coupled _ _ (Prog.lift _ (_ >>= _)) _
    rw [Prog.lift_bind, Prog.lift_bind]
    refine (lift_alike ((maybeRestoreActivity_session s).mono fun _ ho => ho.names)).bind
      fun _ _ known _ => ?_
    refine alike_server_call (fun i => ?_) trivial
    refine alike_server_call (fun dest => ?_) trivial
    cases dest with
    | none => exact lift_alike ⟨trivial, fun _ => trivial⟩
    | some d =>
      refine alike_server_call (fun j => ?_) trivial
      dsimp only
      split
      · -- The one pair of frames that may differ goes to the session just found.
        refine ⟨.deliver d _ _ ?_, fun r r' known' hnext => ?_⟩
        · exact Or.inl (Or.inr ⟨hu, rfl⟩)
        · exact lift_alike ⟨trivial, fun _ => trivial⟩
      · exact lift_alike ⟨trivial, fun _ => trivial⟩

theorem handleFrame_alike (fd : Fd) {f f' : RecvFrame} (h : AlikeFrame cfg u f f') :
    ((handleFrame cfg fd f.1 f.2).lift framedEmbedding).Coupled (dmCoupling cfg u) SameEnd
      ((handleFrame cfg fd f'.1 f'.2).lift framedEmbedding) known := by
  rcases h with h | ⟨msg, text, hf, hf'⟩
  · rw [h]
    exact lift_alike ((handleFrame_serves cfg fd f.2 f.1).mono fun _ ho => ho.names)
  · have hdm : ∀ payload, handleFrame cfg fd MsgType.MESSAGE_DM payload =
        handleMessageDm cfg fd payload := fun _ => rfl
    rw [hf.msgType, hf'.msgType, hdm, hdm]
    exact handleMessageDm_alike fd hf.parses hf'.parses hf.dest

theorem framedHandleClient_alike (fd : Fd) :
    (framedHandleClient cfg fd).Coupled (dmCoupling cfg u) SameEnd (framedHandleClient cfg fd)
      known := by
  refine alike_server_call (fun running => ?_) trivial
  cases running with
  | false => rfl
  | true =>
    refine ⟨.recvMessage fd, fun r r' known' hnext => ?_⟩
    have ⟨hframes, _⟩ : Option.Rel (AlikeFrame cfg u) r r' ∧ _ := hnext
    cases hframes with
    | none => rfl
    | @some f f' hf =>
      refine ⟨.dispatch f f' hf, fun _ _ known' _ => ?_⟩
      show ((dispatch cfg fd f.1 f.2).lift framedEmbedding).Coupled _ _
        ((dispatch cfg fd f'.1 f'.2).lift framedEmbedding) _
      have htype : f'.1 = f.1 := by
        rcases hf with h | ⟨msg, text, h, h'⟩
        · rw [h]
        · rw [h.msgType, h'.msgType]
      rw [dispatch_eq, dispatch_eq, Prog.lift_bind, Prog.lift_bind, htype]
      refine (htype ▸ handleFrame_alike fd hf).bind fun _ _ _ _ => rfl

/-- The program of a control point does the same in both runs. -/
theorem framedProgram_alike (c : Ctl) :
    (c.framedProgram cfg).Coupled (dmCoupling cfg u) SameEnd (c.framedProgram cfg) known := by
  cases c with
  | loop fd => exact framedHandleClient_alike fd
  | cleanup fd =>
    have honly : (handleClientCleanup fd).Only NamesSessions :=
      ⟨trivial, fun _ => ⟨trivial, fun _ => trivial⟩⟩
    exact lift_alike honly
  | watchdog =>
    have honly := (watchdogLoop_obeys cfg ⟨0, .serving⟩).only fun _ _ ho => WatchdogOp.names ho
    exact lift_alike honly
  | ended => rfl

end Programs

/-! ## The shared state -/

/-- The session was registered under the name. -/
def Memory.HasName (m : Memory) (u : String) (s : SessionRef) : Prop :=
  s < m.nextRef ∧ (m.heap s).username = u

theorem Memory.HasName.later {m m' : Memory} {u : String} {s : SessionRef} (h : m.HasName u s)
    (hlater : m.Later m') : m'.HasName u s :=
  ⟨Nat.lt_of_lt_of_le h.1 hlater.nextRef, (hlater.username s h.1).trans h.2⟩

/-- The frames written through `via` among those on a connection. -/
def writtenVia (via : Option SessionRef) (l : List Written) : List Written :=
  l.filter fun x => x.via = via

/-- The shared states of the two runs: they differ in the frames written through
sessions with the name. -/
structure World.Alike (u : String) (w w' : World) : Prop where
  mem : w'.mem = w.mem
  out : ∀ c via, (∀ s, via = some s → ¬ w.mem.HasName u s) →
    writtenVia via (w'.out c) = writtenVia via (w.out c)

namespace World.Alike

variable {cfg : Config} {u : String} {w w' : World}

theorem withMem (h : w.Alike u w') {m : Memory} (hlater : w.mem.Later m) :
    World.Alike u { w with mem := m } { w' with mem := m } :=
  ⟨rfl, fun c via hvia => h.out c via fun s hs hname => hvia s hs (hname.later hlater)⟩

/-- A frame written in both runs, with another message only through a session with
the name. -/
theorem write (h : w.Alike u w') (fd : Fd) {via : Option SessionRef} {msg msg' : ServerMsg}
    (hmsg : msg' = msg ∨ ∃ s, via = some s ∧ w.mem.HasName u s) :
    (w.write fd via msg).Alike u (w'.write fd via msg') := by
  refine ⟨by rw [write_mem, write_mem, h.mem], fun c v hv => ?_⟩
  rw [write_mem] at hv
  have hout := h.out c v hv
  cases hfd : w.mem.fds fd with
  | none =>
    rw [World.write, World.write, h.mem, hfd]
    exact hout
  | some d =>
    have hfd' : w'.mem.fds fd = some d := by rw [h.mem, hfd]
    rw [write_out _ hfd, write_out _ hfd']
    by_cases hc : c = d
    · subst hc
      rw [update_self, update_self]
      unfold writtenVia at hout ⊢
      rw [List.filter_append, List.filter_append, hout]
      rcases hmsg with hmsg | ⟨s, hs, hname⟩
      · rw [hmsg]
      · have hne : via ≠ v := fun heq => hv s (heq ▸ hs) hname
        simp [hne]
    · rw [update_of_ne hc, update_of_ne hc]
      exact hout

theorem reply (h : w.Alike u w') (fd : Fd) (r : Option SessionRef × ServerMsg) :
    (w.reply fd r).Alike u (w'.reply fd r) := by
  unfold World.reply
  split
  · exact h.write fd (Or.inl rfl)
  · rw [h.mem]
    exact h.write _ (Or.inl rfl)

/-- The same operation has the same response and the same effect. -/
theorem exec (h : w.Alike u w') {t : Tid} {o : ServerOp} {ch : Choice} {r : o.Resp} {w₁ : World}
    (he : w.exec cfg t o ch = some (r, w₁)) :
    ∃ w₁', w'.exec cfg t o ch = some (r, w₁') ∧ w₁.Alike u w₁' := by
  have hlater := exec_later he
  cases o with
  | mem o =>
    have ⟨⟨r₁, m⟩, hm, hx⟩ := Option.map_eq_some_iff.1 he
    cases hx
    refine ⟨{ w' with mem := m }, Option.map_eq_some_iff.2 ⟨(r₁, m), ?_, rfl⟩, h.withMem hlater⟩
    rw [h.mem, hm]
  | sendBare fd msg =>
    cases he
    exact ⟨_, rfl, h.write fd (Or.inl rfl)⟩
  | sendLocked s msg =>
    cases he
    refine ⟨_, rfl, ?_⟩
    rw [h.mem]
    exact h.write _ (Or.inl rfl)
  | register fd username peerIp =>
    cases t with
    | watchdog => cases he
    | handler c =>
      have ⟨hr, hw⟩ := exec_register.1 he
      subst hw
      refine ⟨_, exec_register.2 ⟨?_, rfl⟩, ?_⟩
      · rw [h.mem, hr]
      · rw [h.mem]
        rw [reply_mem] at hlater
        exact (h.withMem hlater).reply fd _

end World.Alike

/-! ## The two servers -/

/-- The frame that an event writes through the session. -/
def Event.through (s : SessionRef) : Event Framed Tid → Option ServerMsg
  | ⟨_, .server (.sendLocked t msg), _⟩ => if t = s then some msg else none
  | ⟨_, .server (.register _ username peerIp), r⟩ =>
    let reply := registerReply username peerIp r
    if reply.1 = some s then some reply.2 else none
  | _ => none

/-- The frames written through the session, oldest first. -/
def framesThrough (s : SessionRef) (log : List (Event Framed Tid)) : List ServerMsg :=
  log.filterMap (Event.through s)

theorem framesThrough_append (s : SessionRef) (log : List (Event Framed Tid))
    (e : Event Framed Tid) :
    framesThrough s (log ++ [e]) = framesThrough s log ++ (Event.through s e).toList := by
  unfold framesThrough
  rw [List.filterMap_append]
  cases he : Event.through s e <;> simp [he]

/-- How the two servers stay alike.  `known` are the sessions that a thread has
found under the name. -/
structure Alike (cfg : Config) (u : String) (p p' : FrameState)
    (known : Tid → SessionRef → Prop) : Prop where
  base : p.shared.base.Alike u p'.shared.base
  inbox : ∀ c, List.Forall₂ (AlikeFrame cfg u) (p.shared.inbox c) (p'.shared.inbox c)
  frames : ∀ s, ¬ p.shared.mem.HasName u s → framesThrough s p'.log = framesThrough s p.log
  consistent : p.shared.mem.Consistent
  known : ∀ t s, known t s → p.shared.mem.HasName u s

variable {cfg : Config} {u : String}

theorem exec_consistent {t : Tid} {w w' : World} {o : ServerOp} {ch : Choice} {r : o.Resp}
    (hc : w.mem.Consistent) (ho : NamesSessions o) (h : w.exec cfg t o ch = some (r, w')) :
    w'.mem.Consistent := by
  rcases World.exec_mem_cases h with ⟨hf, _⟩ | ⟨fd, _, hm⟩ | ⟨fd, _, hm⟩ | ⟨c, fd, v, a, _, hop, hm⟩
  · exact hc.frame hf
  · rw [hm]
    exact hc.removeSession fd
  · rw [hm]
    exact ⟨hc.allocated, hc.socketFd, hc.nonempty, hc.names, hc.ips⟩
  · subst hop
    rw [hm]
    exact hc.register ho

/-- A session that a lookup gives was registered under the name. -/
theorem foundUnder_hasName {t : Tid} {w w' : World} {o : ServerOp} {ch : Choice} {r : o.Resp}
    (hc : w.mem.Consistent) (h : w.exec cfg t o ch = some (r, w')) {s : SessionRef}
    (hs : FoundUnder u o r s) : w.mem.HasName u s := by
  unfold FoundUnder at hs
  split at hs
  · have ⟨hv, hr⟩ := hs
    subst hv hr
    have hfind : w.mem.findUser _ = some s := congrArg Prod.fst (Option.some.inj h)
    have ⟨fd, hlook, hname⟩ := hc.findUser_eq_some.1 hfind
    exact ⟨hc.allocated fd s hlook, hname⟩
  · exact hs.elim

/-- `recv_message` takes alike frames off alike streams. -/
theorem recvMessage_alike {w w' w₁ : FrameWorld} {fd : Fd} {r : Option RecvFrame}
    (hmem : w'.mem = w.mem)
    (hinbox : ∀ c, List.Forall₂ (AlikeFrame cfg u) (w.inbox c) (w'.inbox c))
    (h : w.recvMessage fd = some (r, w₁)) :
    ∃ r' w₁', w'.recvMessage fd = some (r', w₁') ∧ Option.Rel (AlikeFrame cfg u) r r' ∧
      w₁.base = w.base ∧ w₁'.base = w'.base ∧
      ∀ c, List.Forall₂ (AlikeFrame cfg u) (w₁.inbox c) (w₁'.inbox c) := by
  unfold FrameWorld.recvMessage at h ⊢
  rw [hmem]
  cases hfd : w.mem.fds fd with
  | none =>
    rw [hfd] at h
    cases h
    exact ⟨none, w', rfl, .none, rfl, rfl, hinbox⟩
  | some c =>
    rw [hfd] at h
    dsimp only at h ⊢
    have hc := hinbox c
    cases hw : w.inbox c with
    | nil =>
      rw [hw] at h hc
      rw [List.forall₂_nil_left_iff.1 hc]
      dsimp only at h ⊢
      split at h
      · rename_i heof
        cases h
        rw [if_pos heof]
        exact ⟨none, w', rfl, .none, rfl, rfl, hinbox⟩
      · cases h
    | cons f rest =>
      rw [hw] at h hc
      have ⟨f', rest', hf, hrest, hw'⟩ := List.forall₂_cons_left_iff.1 hc
      rw [hw']
      cases h
      refine ⟨some f', _, rfl, .some hf, rfl, rfl, fun d => ?_⟩
      by_cases hd : d = c
      · subst hd
        simpa using hrest
      · simpa [hd] using hinbox d

theorem World.Alike.env {w w' w₁ : World} {e : Env} {start : Option (Tid × Ctl)}
    (h : w.Alike u w') (he : w.env e = some (w₁, start)) :
    ∃ w₁', w'.env e = some (w₁', start) ∧ w₁.Alike u w₁' := by
  have hsame : ∀ m, w.mem.heap = m.heap → w.mem.nextRef = m.nextRef →
      World.Alike u { w with mem := m } { w' with mem := m } := by
    intro m hheap hnext
    refine ⟨rfl, fun c via hvia => h.out c via fun s hs hname => hvia s hs ?_⟩
    exact ⟨hnext ▸ hname.1, hheap ▸ hname.2⟩
  cases e with
  | accept fd peerIp | clientSend c bs | clientClose c =>
    rw [World.env] at he ⊢
    rw [h.mem]
    split at he
    · rename_i hguard
      cases he
      rw [if_pos hguard]
      exact ⟨_, rfl, hsame _ rfl rfl⟩
    · cases he
  | tick d =>
    cases he
    refine ⟨_, rfl, ?_⟩
    rw [h.mem]
    exact hsame _ rfl rfl

theorem env_keeps {w w₁ : World} {e : Env} {start : Option (Tid × Ctl)}
    (he : w.env e = some (w₁, start)) :
    w.mem.Later w₁.mem ∧ (w.mem.Consistent → w₁.mem.Consistent) := by
  rcases World.env_mem_cases he with ⟨_, hf, _⟩ | ⟨fd, peerIp, _, _, _, hw⟩
  · exact ⟨hf.later, fun hc => hc.frame hf⟩
  · rw [hw]
    refine ⟨⟨Nat.le_succ _, Nat.le_refl _, fun _ _ => rfl, fun _ _ => rfl, fun _ _ => rfl,
      fun _ _ => rfl⟩, fun hc => ?_⟩
    exact ⟨hc.allocated, hc.socketFd, hc.nonempty, hc.names, hc.ips⟩

/-- A step of the environment that touches no stream of frames. -/
theorem baseEnv_alike {w w' w₁ : FrameWorld} {e : Env} {start : Option (Tid × Ctl)}
    (hbase : w.base.Alike u w'.base)
    (hinbox : ∀ c, List.Forall₂ (AlikeFrame cfg u) (w.inbox c) (w'.inbox c))
    (he : (w.base.env e).map (fun x => ({ w with base := x.1 }, x.2)) = some (w₁, start)) :
    ∃ w₁', (w'.base.env e).map (fun x => ({ w' with base := x.1 }, x.2)) = some (w₁', start) ∧
      w₁.base.Alike u w₁'.base ∧ w.mem.Later w₁.mem ∧ (w.mem.Consistent → w₁.mem.Consistent) ∧
      ∀ c, List.Forall₂ (AlikeFrame cfg u) (w₁.inbox c) (w₁'.inbox c) := by
  have ⟨x, hx, heq⟩ := Option.map_eq_some_iff.1 he
  cases heq
  have ⟨v, hv, halike⟩ := hbase.env hx
  have ⟨hlater, hcons⟩ := env_keeps hx
  exact ⟨_, Option.map_eq_some_iff.2 ⟨_, hv, rfl⟩, halike, hlater, hcons, hinbox⟩

/-- Alike steps of the environment have alike effects. -/
theorem env_alike {w w' w₁ : FrameWorld} {e e' : FrameEnv} {start : Option (Tid × Ctl)}
    (hbase : w.base.Alike u w'.base)
    (hinbox : ∀ c, List.Forall₂ (AlikeFrame cfg u) (w.inbox c) (w'.inbox c))
    (he : AlikeEnv cfg u e e') (h : w.env e = some (w₁, start)) :
    ∃ w₁', w'.env e' = some (w₁', start) ∧ w₁.base.Alike u w₁'.base ∧
      w.mem.Later w₁.mem ∧ (w.mem.Consistent → w₁.mem.Consistent) ∧
      ∀ c, List.Forall₂ (AlikeFrame cfg u) (w₁.inbox c) (w₁'.inbox c) := by
  have hmem : w'.mem = w.mem := hbase.mem
  cases e with
  | accept fd peerIp =>
    have heq : e' = .accept fd peerIp := he
    subst heq
    exact baseEnv_alike (e := .accept fd peerIp) hbase hinbox h
  | clientClose c =>
    have heq : e' = .clientClose c := he
    subst heq
    exact baseEnv_alike (e := .clientClose c) hbase hinbox h
  | tick d =>
    have heq : e' = .tick d := he
    subst heq
    exact baseEnv_alike (e := .tick d) hbase hinbox h
  | frame c f =>
    cases e' with
    | accept fd peerIp | clientClose c' | tick d => cases he
    | frame c' f' =>
      have ⟨hc, hf⟩ : c' = c ∧ AlikeFrame cfg u f f' := he
      subst hc
      unfold FrameWorld.env at h ⊢
      dsimp only at h ⊢
      rw [hmem]
      split at h
      · rename_i hguard
        cases h
        have hfits : f'.2.length ≤ MAX_PAYLOAD := by
          rcases hf with heq | ⟨msg, text, _, hdm⟩
          · rw [heq]
            exact hguard.2.2
          · exact hdm.fits
        rw [if_pos ⟨hguard.1, hguard.2.1, hfits⟩]
        refine ⟨_, rfl, hbase, .refl _, fun hcons => hcons, fun d => ?_⟩
        show List.Forall₂ _ (update w.inbox c' _ d) (update w'.inbox c' _ d)
        by_cases hd : d = c'
        · subst hd
          rw [update_self, update_self]
          exact List.rel_append (hinbox d) (.cons hf .nil)
        · rw [update_of_ne hd, update_of_ne hd]
          exact hinbox d
      · cases h

/-! ## The two runs -/

/-- The two servers after operations side by side. -/
theorem Alike.afterOp {p p' : FrameState} {known : Tid → SessionRef → Prop}
    (h : Alike cfg u p p' known) {t : Tid} {o o' : FrameOp} {k : o.Resp → Prog Framed Ctl}
    {k' : o'.Resp → Prog Framed Ctl} {r : o.Resp} {r' : o'.Resp} {w₁ w₁' : FrameWorld}
    {known' : SessionRef → Prop} (hbase : w₁.base.Alike u w₁'.base)
    (hinbox : ∀ c, List.Forall₂ (AlikeFrame cfg u) (w₁.inbox c) (w₁'.inbox c))
    (hlater : p.shared.mem.Later w₁.mem) (hcons : w₁.mem.Consistent)
    (hframes : ∀ s, ¬ p.shared.mem.HasName u s →
      Event.through s ⟨t, o', r'⟩ = Event.through s ⟨t, o, r⟩)
    (hknown : ∀ s, known' s → w₁.mem.HasName u s) :
    Alike cfg u (p.afterOp (S := Framed) t o k r w₁) (p'.afterOp (S := Framed) t o' k' r' w₁')
      (update known t known') where
  base := hbase
  inbox := hinbox
  frames s hs := by
    have hold : ¬ p.shared.mem.HasName u s := fun hname => hs (hname.later hlater)
    show framesThrough s (p'.log ++ _) = framesThrough s (p.log ++ _)
    rw [framesThrough_append, framesThrough_append, h.frames s hold, hframes s hold]
  consistent := hcons
  known v s hs := by
    by_cases hv : v = t
    · subst hv
      rw [update_self] at hs
      exact hknown s hs
    · rw [update_of_ne hv] at hs
      exact (h.known v s hs).later hlater

/-- What a thread knows stays so, and what it is given is so. -/
theorem Alike.known_after {p p' : FrameState} {known : Tid → SessionRef → Prop}
    (h : Alike cfg u p p' known) {t : Tid} {o : ServerOp} {ch : Choice} {r : o.Resp} {w : World}
    (he : p.shared.base.exec cfg t o ch = some (r, w)) {s : SessionRef}
    (hs : known t s ∨ FoundUnder u o r s) : w.mem.HasName u s := by
  have hlater := exec_later he
  rcases hs with hs | hs
  · exact (h.known t s hs).later hlater
  · exact (foundUnder_hasName h.consistent he hs).later hlater

theorem frameMachine_couples (cfg : Config) (u : String) :
    (frameMachine cfg).Couples (dmCoupling cfg u) SameEnd (Alike cfg u) (AlikeEnv cfg u) where
  op p p' known t ch o o' k k' r w₁ h hprog hprog' hops he := by
    have hop : AlikeOp cfg u (known t) o o' := hops
    cases hop with
    | recvMessage fd =>
      have ⟨r', w₁', he', hr, hbase, hbase', hinbox⟩ := recvMessage_alike h.base.mem h.inbox he
      refine ⟨r', w₁', known t, he', ⟨hr, rfl⟩, h.afterOp ?_ hinbox ?_ ?_ (fun _ _ => rfl) ?_⟩
      · rw [hbase, hbase']
        exact h.base
      · unfold FrameWorld.mem
        rw [hbase]
        exact .refl _
      · unfold FrameWorld.mem
        rw [hbase]
        exact h.consistent
      · unfold FrameWorld.mem
        rw [hbase]
        exact h.known t
    | same o ho =>
      have ⟨x, hx, heq⟩ := Option.map_eq_some_iff.1 he
      cases heq
      have ⟨w', hw', halike⟩ := h.base.exec hx
      refine ⟨x.1, { p'.shared with base := w' }, _, ?_, ⟨HEq.rfl, rfl⟩,
        h.afterOp halike h.inbox (exec_later hx) (exec_consistent h.consistent ho hx)
          (fun _ _ => rfl) fun s hs => h.known_after hx hs⟩
      exact Option.map_eq_some_iff.2 ⟨_, hw', rfl⟩
    | dispatch f f' hf =>
      cases he
      refine ⟨(), p'.shared, _, ?_, ⟨HEq.rfl, rfl⟩,
        h.afterOp h.base h.inbox (.refl _) h.consistent (fun _ _ => rfl) fun s hs => ?_⟩
      · rfl
      · exact hs.elim (h.known t s) False.elim
    | deliver s msg msg' hs =>
      cases he
      have hname := h.known t s hs
      have hx : p.shared.base.exec cfg t (.sendLocked s msg) ch =
        some ((), p.shared.base.write (p.shared.mem.heap s).socketFd (some s) msg) := rfl
      refine ⟨(), { p'.shared with
        base := p'.shared.base.write (p'.shared.mem.heap s).socketFd (some s) msg' }, _, rfl,
        ⟨HEq.rfl, rfl⟩, h.afterOp ?_ h.inbox (exec_later hx) ?_ (fun d hd => ?_) fun d hd => ?_⟩
      · have hmem : p'.shared.mem = p.shared.mem := h.base.mem
        rw [hmem]
        exact h.base.write _ (Or.inr ⟨s, rfl, hname⟩)
      · exact exec_consistent (o := .sendLocked s msg) h.consistent trivial hx
      · have hne : s ≠ d := fun heq => hd (heq ▸ hname)
        simp [Event.through, hne]
      · exact h.known_after hx (hd.imp_right False.elim)
  jump p p' known t c c' h hpost := by
    have hc : c' = c := hpost
    rw [hc]
    refine ⟨fun _ => False, framedProgram_alike c, h.base, h.inbox, h.frames, h.consistent,
      fun v s hs => ?_⟩
    by_cases hv : v = t
    · subst hv
      rw [update_self] at hs
      exact hs.elim
    · rw [update_of_ne hv] at hs
      exact h.known v s hs
  env p p' known e e' w₁ start h he hw := by
    have ⟨w₁', hw', hbase, hlater, hcons, hinbox⟩ := env_alike h.base h.inbox he hw
    refine ⟨w₁', known, hw', fun _ _ => rfl, fun _ _ _ => rfl, ?_⟩
    refine ⟨?_, ?_, ?_, ?_, ?_⟩
    · rw [Pool.afterEnv_shared, Pool.afterEnv_shared]
      exact hbase
    · rw [Pool.afterEnv_shared, Pool.afterEnv_shared]
      exact hinbox
    · rw [Pool.afterEnv_shared, Pool.afterEnv_log, Pool.afterEnv_log]
      exact fun s hs => h.frames s fun hname => hs (hname.later hlater)
    · rw [Pool.afterEnv_shared]
      exact hcons h.consistent
    · rw [Pool.afterEnv_shared]
      exact fun t s hs => (h.known t s hs).later hlater

/-- What the two servers have in common at a step.  The memory is the registry and
every field of every session, among others. -/
structure Indistinct (u : String) (p p' : FrameState) : Prop where
  mem : p'.shared.mem = p.shared.mem
  frames : ∀ s, (p.shared.mem.heap s).username ≠ u →
    framesThrough s p'.log = framesThrough s p.log
  /-- On each connection, the frames written through the session, or through
  none. -/
  written : ∀ c via, (∀ s, via = some s → (p.shared.mem.heap s).username ≠ u) →
    writtenVia via (p'.shared.base.out c) = writtenVia via (p.shared.base.out c)

theorem Alike.indistinct {p p' : FrameState} {known : Tid → SessionRef → Prop}
    (h : Alike cfg u p p' known) : Indistinct u p p' where
  mem := h.base.mem
  frames s hs := h.frames s fun hname => hs hname.2
  written c via hvia := h.base.out c via fun s hs hname => hvia s hs hname.2

theorem coupled_init (cfg : Config) (u : String) :
    Machine.Coupled (dmCoupling cfg u) SameEnd (Alike cfg u) (frameSystem cfg).init
      (frameSystem cfg).init fun _ _ => False := by
  refine ⟨fun t => ?_, ⟨rfl, fun _ _ _ => rfl⟩, fun _ => .nil, fun _ _ => rfl,
    Memory.consistent_init, fun _ _ h => h.elim⟩
  exact rfl

/-- Direct messages are confidential: when the peers send the same frames but for
the texts of direct messages to `u`, the server takes the same steps, its memory is
the same after each of them, and so are the frames that it has written through
every session with another name. -/
theorem dm_confidential (cfg : Config) (u : String) {ls ls' : List FrameStep} {p : FrameState}
    (hls : List.Forall₂ (Machine.SideBySide (AlikeEnv cfg u)) ls ls')
    (hrun : (frameSystem cfg).run (frameSystem cfg).init ls = some p) (n : Nat) :
    ∃ q q', (frameSystem cfg).run (frameSystem cfg).init (ls.take n) = some q ∧
      (frameSystem cfg).run (frameSystem cfg).init (ls'.take n) = some q' ∧
      Indistinct u q q' := by
  rw [← List.take_append_drop n ls, Lts.run_append, Option.bind_eq_some_iff] at hrun
  have ⟨q, hq, _⟩ := hrun
  have ⟨q', known, hq', _, halike⟩ :=
    (frameMachine_couples cfg u).run (List.forall₂_take n hls) (coupled_init cfg u) hq
  exact ⟨q, q', hq, hq', halike.indistinct⟩

/-! ## A message in two versions -/

/-- The server of the runs, with a second text of the direct message. -/
def twoTexts : Config :=
  { sampleConfig with
    pb := { sampleProtobuf with
      parseMessageDM := fun bs =>
        if bs = [10, 2, 104, 105, 26, 1, 98] then some ⟨"hi", .ACTIVE, "b", ""⟩
        else if bs = [10, 2, 104, 111, 26, 1, 98] then some ⟨"ho", .ACTIVE, "b", ""⟩
        else none } }

/-- Thread `t` passes a control point and performs `n` operations. -/
def frameTurn (t : Tid) (n : Nat) : List FrameStep := .jump t :: List.replicate n (.op t {})

/-- "a" and "b" register. -/
def meetRun : List FrameStep :=
  [.env (.accept 4 "10.0.0.1"), .env (.frame 0 (MsgType.REGISTER, [10, 1, 97]))] ++
    frameTurn (.handler 0) 5 ++
    [.env (.accept 5 "10.0.0.2"), .env (.frame 1 (MsgType.REGISTER, [10, 1, 98]))] ++
    frameTurn (.handler 1) 5

/-- "a" sends a direct message to "b". -/
def dmRun (payload : Bytes) : List FrameStep :=
  meetRun ++ .env (.frame 0 (MsgType.MESSAGE_DM, payload)) :: frameTurn (.handler 0) 11

theorem dmRun_alike : List.Forall₂ (Machine.SideBySide (AlikeEnv twoTexts "b"))
    (dmRun [10, 2, 104, 105, 26, 1, 98]) (dmRun [10, 2, 104, 111, 26, 1, 98]) := by
  have hsame : ∀ ls : List FrameStep,
      List.Forall₂ (Machine.SideBySide (AlikeEnv twoTexts "b")) ls ls := fun ls =>
    List.forall₂_same.2 fun l _ => .refl (AlikeEnv.refl twoTexts "b") l
  refine List.rel_append (hsame _) (.cons ⟨rfl, Or.inr ⟨⟨"hi", .ACTIVE, "b", ""⟩, "ho", ?_, ?_⟩⟩
    (hsame _))
  · exact ⟨rfl, rfl, rfl, by decide⟩
  · exact ⟨rfl, rfl, rfl, by decide⟩

/-- "b" reads one text or the other, and "a" the same reply. -/
theorem dm_confidential_delivered : ∃ p p',
    (frameSystem twoTexts).run (frameSystem twoTexts).init (dmRun [10, 2, 104, 105, 26, 1, 98]) =
      some p ∧
    (frameSystem twoTexts).run (frameSystem twoTexts).init (dmRun [10, 2, 104, 111, 26, 1, 98]) =
      some p' ∧
    Indistinct "b" p p' ∧ framesThrough 0 p.log ≠ [] ∧
    framesThrough 1 p'.log ≠ framesThrough 1 p.log := by
  have hrun : ((frameSystem twoTexts).run (frameSystem twoTexts).init
      (dmRun [10, 2, 104, 105, 26, 1, 98])).any (fun p =>
        framesThrough 0 p.log ≠ [] ∧ ServerMsg.forDm ⟨"a", "hi"⟩ ∈ framesThrough 1 p.log) := by
    decide +kernel
  have hrun' : ((frameSystem twoTexts).run (frameSystem twoTexts).init
      (dmRun [10, 2, 104, 111, 26, 1, 98])).all (fun p =>
        ServerMsg.forDm ⟨"a", "hi"⟩ ∉ framesThrough 1 p.log) := by
    decide +kernel
  rw [Option.any_eq_true] at hrun
  have ⟨p, hp, hprop⟩ := hrun
  have ⟨hreply, htext⟩ := of_decide_eq_true hprop
  have ⟨q, p', hq, hp', hsame⟩ :=
    dm_confidential twoTexts "b" dmRun_alike hp (dmRun [10, 2, 104, 105, 26, 1, 98]).length
  rw [List.take_length, hp] at hq
  cases hq
  have hp'' : (frameSystem twoTexts).run (frameSystem twoTexts).init
      (dmRun [10, 2, 104, 111, 26, 1, 98]) = some p' := hp'
  rw [hp''] at hrun'
  exact ⟨p, p', hp, hp'', hsame, hreply, fun heq => of_decide_eq_true hrun' (heq ▸ htext)⟩

end SimpleChat
