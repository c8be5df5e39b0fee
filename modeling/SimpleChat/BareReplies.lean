import SimpleChat.Delivery

/-!
# Replies without a mutex

`send_response_bare` locks nothing, so it is safe only as long as its connection
has no session: then the handler of the connection is the only writer.

`RepliesLocked` is the condition that no registered client sends a frame that
the handler answers bare before it has looked the session up.  In a run that
meets it, bare replies go to connections without a session
(`sendBare_unregistered`).
-/

namespace SimpleChat

open Conc Function

/-! ## The condition -/

/-- The frame is answered by `send_response_bare` before the handler has looked
the session of its descriptor up. -/
def repliesBare (cfg : Config) (msgType : UInt8) (payload : Bytes) : Bool :=
  if msgType = MsgType.REGISTER then
    match cfg.pb.parseRegister payload with
    | none => true
    | some reg => reg.username = ""
  else
    msgType ∉ [MsgType.MESSAGE_GENERAL, MsgType.MESSAGE_DM, MsgType.CHANGE_STATUS,
      MsgType.LIST_USERS, MsgType.GET_USER_INFO, MsgType.QUIT]

/-- The condition on the next operation of the handler of connection `c`: a
frame that is answered bare comes from a connection without a session. -/
def Memory.BareAllowed (cfg : Config) (m : Memory) (c : ConnId) : MemOp → Prop
  | .dispatch msgType payload =>
    repliesBare cfg msgType payload = true →
      m.registry.sessions.lookup (m.conns c).fd = none
  | _ => True

instance (cfg : Config) (m : Memory) (c : ConnId) (o : MemOp) :
    Decidable (m.BareAllowed cfg c o) := by
  unfold Memory.BareAllowed
  split <;> infer_instance

/-- The condition on the steps of a run: of `SimpleChat.Delivery`, and that no
registered client sends a frame that is answered bare. -/
def RepliesLocked (cfg : Config) (p : State) (l : Step) : Prop :=
  NoStaleWriter p l ∧ ∀ c ch o k, l = .op (.handler c) ch →
    p.prog (.handler c) = .call (S := Server) (.mem o) k → p.shared.mem.BareAllowed cfg c o

/-- What a handler knows after an operation: that its connection has no
session. -/
def knowsNone (cfg : Config) (known : Bool) : (o : ServerOp) → o.Resp → Bool
  | .mem (.dispatch msgType payload), _ => repliesBare cfg msgType payload
  | .mem (.getSession _), r => r.isNone
  | .register _ _ _, _ => false
  | _, _ => known

def NoBare : ServerOp → Prop
  | .sendBare _ _ => False
  | _ => True

/-- A handler replies bare only if it knows that its connection has no session,
and the watchdog never does. -/
def MayReplyBare (t : Tid) (known : Bool) : ServerOp → Prop
  | .sendBare _ _ => known = true ∧ t ≠ .watchdog
  | _ => True

def bareMonitor (cfg : Config) (t : Tid) : Prog.Monitor Server Bool where
  guard known o := MayReplyBare t known o
  next known o r known' := known' = knowsNone cfg known o r

section Programs

variable {cfg : Config} {t : Tid} {fd : Fd} {payload : Bytes}

/-- The program replies bare only if it knows that there is no session. -/
abbrev Careful {α : Type} (cfg : Config) (t : Tid) (p : Prog Server α) (known : Bool) : Prop :=
  p.Obeys (bareMonitor cfg t) (fun _ _ => True) known

theorem obeys_bare_call {α : Type} {o : ServerOp} {k : o.Resp → Prog Server α} {known : Bool}
    {post : α → Bool → Prop} :
    (Prog.call (S := Server) o k).Obeys (bareMonitor cfg t) post known ↔
      MayReplyBare t known o ∧
        ∀ r, (k r).Obeys (bareMonitor cfg t) post (knowsNone cfg known o r) :=
  Prog.obeys_det_call

theorem NoBare.mayReplyBare {o : ServerOp} (h : NoBare o) (known : Bool) :
    MayReplyBare t known o := by
  cases o <;> first | exact h.elim | trivial

theorem SessionOp.noBare {o : ServerOp} (h : SessionOp o) : NoBare o := by
  cases o <;> first | exact h.elim | trivial

/-- A program that never replies bare. -/
theorem careful_of_only {α : Type} {p : Prog Server α} (h : p.Only NoBare) (known : Bool) :
    Careful cfg t p known := by
  induction p generalizing known with
  | ret a => trivial
  | call o k ih =>
    exact obeys_bare_call.2 ⟨h.1.mayReplyBare known, fun r => ih r (h.2 r) _⟩

variable {c : ConnId}

theorem sendBare_careful (msg : ServerMsg) :
    Careful cfg (.handler c) (.call (S := Server) (.sendBare fd msg) .ret) true :=
  obeys_bare_call.2 ⟨⟨rfl, Tid.noConfusion⟩, fun _ => trivial⟩

theorem ForSession.careful {p : Prog Server Unit} (h : ForSession fd p) (known : Bool) :
    Careful cfg (.handler c) p known := by
  have ⟨body, hp, hbody⟩ := h
  subst hp
  simp only [withSession, mem_eq, Prog.call_bind, Prog.ret_bind]
  refine obeys_bare_call.2 ⟨trivial, fun r => ?_⟩
  cases r with
  | none => exact sendBare_careful _
  | some s => exact careful_of_only ((hbody s).mono fun _ ho => ho.noBare) _

theorem handleRegister_careful :
    Careful cfg (.handler c) (handleRegister cfg fd payload)
      (repliesBare cfg MsgType.REGISTER payload) := by
  unfold handleRegister repliesBare
  rw [if_pos rfl]
  cases cfg.pb.parseRegister payload with
  | none => exact sendBare_careful _
  | some reg =>
    simp only [mem_eq, Prog.call_bind, Prog.ret_bind]
    refine obeys_bare_call.2 ⟨trivial, fun peerIp => ?_⟩
    split
    · rename_i hempty
      have hknown : knowsNone cfg (decide (reg.username = "")) (.mem (.getPeerIp fd)) peerIp = true :=
        decide_eq_true hempty
      rw [hknown]
      exact sendBare_careful _
    · exact obeys_bare_call.2 ⟨trivial, fun _ => trivial⟩

theorem handleQuit_careful (known : Bool) :
    Careful cfg (.handler c) (handleQuit cfg fd payload) known := by
  simp only [handleQuit, mem_eq, Prog.call_bind, Prog.ret_bind]
  refine obeys_bare_call.2 ⟨trivial, fun session => ?_⟩
  split
  · trivial
  · cases session with
    | none => trivial
    | some s => exact obeys_bare_call.2 ⟨trivial, fun _ => trivial⟩

theorem handleFrame_careful (msgType : UInt8) :
    Careful cfg (.handler c) (handleFrame cfg fd msgType payload)
      (repliesBare cfg msgType payload) := by
  refine handleFrame_session (R := fun p => Careful cfg (.handler c) p
    (repliesBare cfg msgType payload)) cfg fd payload msgType ?_ ?_ ?_ ?_
  · intro htype
    rw [htype]
    exact handleRegister_careful
  · exact fun p hp => hp.careful _
  · exact handleQuit_careful _
  · intro hunknown
    rw [List.mem_cons, not_or] at hunknown
    have hbare : repliesBare cfg msgType payload = true := by
      rw [repliesBare, if_neg hunknown.1]
      exact decide_eq_true hunknown.2
    rw [hbare]
    exact sendBare_careful _

theorem handleClient_careful (known : Bool) : Careful cfg (.handler c) (handleClient cfg fd) known := by
  simp only [handleClient, mem_eq, Prog.call_bind, Prog.ret_bind]
  refine obeys_bare_call.2 ⟨trivial, fun running => ?_⟩
  cases running with
  | false => trivial
  | true =>
    show Careful cfg _ (_ >>= _) _
    have hrecv : ((recvMessage fd).lift recvEmbedding).Only NoBare :=
      (recvMessage_reads fd).lift fun _ _ => trivial
    refine (careful_of_only hrecv _).bind fun frame known' _ => ?_
    cases frame with
    | none => trivial
    | some frame =>
      obtain ⟨msgType, payload⟩ := frame
      refine obeys_bare_call.2 ⟨trivial, fun _ => ?_⟩
      rw [dispatch_eq]
      exact (handleFrame_careful msgType).bind fun _ _ _ => trivial

theorem watchdogLoop_noBare : (watchdogLoop cfg).Only NoBare :=
  (watchdogLoop_only cfg).mono fun _ ho => by cases ho <;> trivial

theorem program_careful {ctl : Ctl} {q : Phase} (h : PhaseAt t ctl q) (known : Bool) :
    Careful cfg t (ctl.program cfg) known := by
  match t, ctl, h with
  | .watchdog, .watchdog, _ => exact careful_of_only watchdogLoop_noBare _
  | .watchdog, .ended, _ => trivial
  | .handler c, .loop fd, _ => exact handleClient_careful _
  | .handler c, .cleanup fd, _ =>
    exact obeys_bare_call.2 ⟨trivial, fun _ =>
      obeys_bare_call.2 ⟨trivial, fun _ => trivial⟩⟩
  | .handler _, .ended, _ => trivial

end Programs

/-! ## Connections without a session -/

/-- No session was registered on the connection. -/
def Memory.Unregistered (m : Memory) (c : ConnId) : Prop :=
  ∀ s, s < m.nextRef → m.registeredOn s ≠ c

/-- A handler that serves a descriptor without a session has never registered
one. -/
theorem Memory.Owned.unregistered {m : Memory} {qs : Tid → Phase} (h : m.Owned qs) {c : ConnId}
    (hserving : (qs (.handler c)).life = .serving)
    (hnone : m.registry.sessions.lookup (m.conns c).fd = none) : m.Unregistered c := by
  intro s hs hc
  have hlive := h.live s hs
  have hfd := (h.registered s hs).2.1
  rw [hc] at hlive hfd
  rw [hfd, hnone] at hlive
  exact absurd (hlive hserving) (by simp)

/-- Only the handler of a connection registers sessions on it. -/
theorem exec_unregistered {cfg : Config} {t : Tid} {w w' : World} {o : ServerOp} {ch : Choice}
    {r : o.Resp} {c : ConnId} (he : w.exec cfg t o ch = some (r, w'))
    (hother : t ≠ .handler c ∨ ∀ fd u a, o ≠ .register fd u a) (h : w.mem.Unregistered c) :
    w'.mem.Unregistered c := by
  rcases World.exec_mem_cases he with ⟨hf, _⟩ | ⟨fd, _, hm⟩ | ⟨fd, _, hm⟩ |
    ⟨d, fd, u, a, ht, ho, hm⟩
  · intro s hs
    rw [hf.registeredOn]
    exact h s (hf.nextRef ▸ hs)
  · intro s hs
    rw [hm, Memory.removeSession_nextRef] at hs
    rw [hm, Memory.removeSession_registeredOn]
    exact h s hs
  · rw [hm]
    exact h
  · rw [hm]
    have hdc : d ≠ c := by
      intro hdc
      rcases hother with hother | hother
      · exact hother (by rw [ht, hdc])
      · exact hother fd u a ho
    rcases Memory.register_cases_created w.mem d fd u a with ⟨_, hr⟩ | ⟨_, _, _, hr⟩ <;> rw [hr]
    · exact h
    · intro s hs
      dsimp only at hs ⊢
      rcases Nat.lt_succ_iff_lt_or_eq.1 hs with hlt | heq
      · rw [update_of_ne (Nat.ne_of_lt hlt)]
        exact h s hlt
      · rw [heq, update_self]
        exact hdc

/-- What a handler knows is so. -/
def KnowsRight (p : State) (known : Tid → Bool) : Prop :=
  ∀ c, known (.handler c) = true → p.shared.mem.Unregistered c

theorem knowsRight_own {cfg : Config} {p : State} {known : Bool} {c : ConnId} {o : ServerOp}
    {k : o.Resp → Prog Server Ctl} {ch : Choice} {r : o.Resp} {w : World}
    (hr : (system cfg).Reaches Lts.Any p) (hprog : p.prog (.handler c) = .call (S := Server) o k)
    (he : p.shared.exec cfg (.handler c) o ch = some (r, w))
    (hallowed : ∀ o', o = .mem o' → p.shared.mem.BareAllowed cfg c o')
    (h : known = true → p.shared.mem.Unregistered c) (hknown : knowsNone cfg known o r = true) :
    w.mem.Unregistered c := by
  have ⟨qs, hq⟩ := reachable_owned hr
  have hown := hq.2.1
  have hallows : (qs (.handler c)).Allows o := hq.allows hprog
  unfold knowsNone at hknown
  split at hknown
  · rename_i msgType payload r
    cases he
    exact hown.unregistered hallows (hallowed _ rfl hknown)
  · rename_i fd r
    cases he
    have ⟨hserving, hfd⟩ : (qs (.handler c)).life = .serving ∧ fd = (qs (.handler c)).fd := hallows
    have hconn := (hown.serves c (by rw [hserving]; decide)).1
    refine hown.unregistered hserving ?_
    rw [← hconn, ← hfd]
    exact Option.isNone_iff_eq_none.1 hknown
  · cases hknown
  · rename_i hregister
    refine exec_unregistered he (Or.inr fun fd u a ho => ?_) (h hknown)
    subst ho
    exact hregister fd u a r rfl HEq.rfl

theorem careful_keeps (cfg : Config) :
    Machine.Keeps (machine cfg) (bareMonitor cfg) (fun _ _ _ => True) KnowsRight
      (fun p l => RepliesLocked cfg p l ∧ (system cfg).Reaches Lts.Any p) where
  op p known t ch o k r w known' hJ hC hprog he _ hnext := by
    change p.shared.exec cfg t o ch = some (r, w) at he
    rw [show known' = knowsNone cfg (known t) o r from hnext]
    intro c hknown
    by_cases ht : t = .handler c
    · subst ht
      rw [update_self] at hknown
      refine knowsRight_own hC.2 hprog he (fun o' ho => ?_) (hJ c) hknown
      subst ho
      exact hC.1.2 c ch o' k rfl hprog
    · rw [update_of_ne (Ne.symm ht)] at hknown
      exact exec_unregistered he (Or.inl ht) (hJ c hknown)
  jump p known t ctl hJ hC hprog _ := by
    have ⟨qs, hown⟩ := reachable_owned hC.2
    have hphase := hown.1 t
    rw [hprog] at hphase
    refine ⟨known t, program_careful hphase (known t), ?_⟩
    rw [update_eq_self]
    exact hJ
  env p known e w start hJ hC he := by
    change p.shared.env e = some (w, start) at he
    refine ⟨known, fun _ _ => rfl, fun _ _ _ => trivial, fun c hknown s hs => ?_⟩
    rw [Pool.afterEnv_shared] at hs ⊢
    rcases World.env_mem_cases he with ⟨_, hf, _⟩ | ⟨fd, peerIp, _, _, _, hw⟩
    · rw [hf.registeredOn]
      exact hJ c hknown s (hf.nextRef ▸ hs)
    · subst hw
      exact hJ c hknown s hs

/-- In a run that meets the condition, only handlers reply bare, and only on
connections without a session. -/
theorem sendBare_unregistered {cfg : Config} {p : State}
    (h : (system cfg).Reaches (RepliesLocked cfg) p) {t : Tid} {fd : Fd} {msg : ServerMsg}
    {k : Unit → Prog Server Ctl} (hprog : p.prog t = .call (S := Server) (.sendBare fd msg) k) :
    ∃ c, t = .handler c ∧ p.shared.mem.fds fd = some c ∧ p.shared.mem.Unregistered c := by
  have hrun : (system cfg).Reaches
      (fun q l => RepliesLocked cfg q l ∧ (system cfg).Reaches Lts.Any q) p :=
    Lts.Steps.strengthen h fun q _ _ hq hC _ => ⟨hC, Lts.Steps.any hq⟩
  have hinit : Machine.Monitored (bareMonitor cfg) (fun _ _ _ => True) KnowsRight
      (system cfg).init fun _ => false := ⟨fun _ => trivial, fun _ hknown => nomatch hknown⟩
  have ⟨known, hobeys, hright⟩ := (careful_keeps cfg).steps hrun hinit
  have hmay := hobeys t
  rw [hprog] at hmay
  have ⟨hknown, hne⟩ := hmay.1
  cases t with
  | watchdog => exact absurd rfl hne
  | handler c =>
    have ⟨qs, hq⟩ := reachable_owned h
    have hallows : (qs (.handler c)).Allows (.sendBare fd msg) := hq.allows hprog
    have ⟨hserving, hfd⟩ : (qs (.handler c)).life = .serving ∧ fd = (qs (.handler c)).fd := hallows
    have ⟨hconn, hopen⟩ := hq.2.1.serves c (by rw [hserving]; decide)
    refine ⟨c, rfl, ?_, hright c hknown⟩
    rw [hfd, hconn]
    exact hopen

end SimpleChat
