import SimpleChat.Authentic
import SimpleChat.DirectMessages

/-!
# Broadcasts

`handle_message_general` collects its targets under `sessions_mutex_` and writes
to them afterwards, while other threads register, leave and send.  What one call
delivers is exactly what its snapshot says: one frame through each session that
was in the registry, in the order of the snapshot.

`deliveryNumbers` reads off the history in which order the messages of one
connection were delivered through one session.  Each message has the number of
frames that the handler had dispatched before it was sent.  `general_delivers` and
`deliveryNumbers_sorted` say what one call and all of them do.
-/

namespace SimpleChat

open Conc Function Data

/-! ## The snapshot -/

/-- The targets of a broadcast are the sessions in the registry, each once. -/
theorem Memory.Owned.aliveSessions {m : Memory} {qs : Tid → Phase} (h : m.Owned qs)
    {order : List Fd} (horder : m.IterationOrder order) :
    (m.aliveSessions order).Nodup ∧
      ∀ x, x ∈ m.aliveSessions order ↔ ∃ fd, m.registry.sessions.lookup fd = some x := by
  obtain ⟨hnodup, hmem⟩ := h.consistent.visited horder
  refine ⟨hnodup.filter _, fun x => ?_⟩
  rw [Memory.aliveSessions, List.mem_filter, hmem]
  constructor
  · exact fun hx => hx.1
  · rintro ⟨fd, hfd⟩
    refine ⟨⟨fd, hfd⟩, ?_⟩
    rw [h.alive x (h.consistent.allocated fd x hfd), h.consistent.socketFd fd x hfd]
    exact hfd

variable {cfg : Config}

/-- The response to the operation that collects the targets. -/
theorem exec_aliveSessions {qs : Tid → Phase} {t : Tid} {w w' : World} {ch : Choice}
    {targets : List SessionRef} (hown : w.mem.Owned qs)
    (he : w.exec cfg t (.mem .aliveSessions) ch = some (targets, w')) :
    targets.Nodup ∧ ∀ x, x ∈ targets ↔ ∃ fd, w.mem.registry.sessions.lookup fd = some x := by
  rw [World.exec, Option.map_eq_some_iff] at he
  obtain ⟨⟨r, m'⟩, hexec, hx⟩ := he
  obtain ⟨hr, _⟩ := Prod.mk.inj hx
  subst hr
  rw [Memory.exec] at hexec
  split at hexec
  · rename_i horder
    cases hexec
    exact hown.aliveSessions horder
  · cases hexec

/-! ## One call -/

/-- The deliveries among the frames that a thread wrote through sessions. -/
def deliveriesOf (l : List (Prog.Act Server)) : List (SessionRef × ServerMsg) :=
  (framesOf l).filter fun x => x.2.sender.isSome

/-- The frames that go to the targets, one after the other. -/
theorem sendAll_acts {targets : List SessionRef} {msg : ServerMsg} {rest : Prog Server Ctl}
    {ctl : Ctl} {l : List (Prog.Act Server)}
    (h : ((targets.forM fun t => sendLocked t msg) >>= fun _ => rest).Trace l (.ret ctl)) :
    ∃ l', l = (targets.map fun t => ⟨.sendLocked t msg, ()⟩) ++ l' ∧ rest.Trace l' (.ret ctl) := by
  induction targets generalizing l with
  | nil => exact ⟨l, rfl, h⟩
  | cons t targets ih =>
    rw [Prog.forM_cons, sendLocked_eq, Prog.call_bind, Prog.call_bind] at h
    have ⟨_, l₁, hl, h₁⟩ := Prog.Trace.of_call (S := Server) h
    have ⟨l₂, hl₁, h₂⟩ := ih h₁
    refine ⟨l₂, ?_, h₂⟩
    rw [hl, hl₁]
    rfl

/-- Everything `handle_message_general` can do with a well-formed message from a
registered sender. -/
theorem handleMessageGeneral_acts {fd : Fd} {payload : Bytes} {msg : MessageGeneral}
    {ctl ctl' : Ctl} {l : List (Prog.Act Server)}
    (hparse : cfg.pb.parseMessageGeneral payload = some msg)
    (h : (handleMessageGeneral cfg fd payload >>= fun _ => pure ctl).Trace l (.ret ctl')) :
    ∃ r l', l = ⟨.mem (.getSession fd), r⟩ :: l' ∧ ∀ s, r = some s → ∃ b i targets,
      l' = restoreActs s b ++ ⟨.mem (.read s), i⟩ :: ⟨.mem .aliveSessions, targets⟩ ::
        targets.map fun t =>
          ⟨.sendLocked t (.broadcastDelivery ⟨msg.message, i.username⟩), ()⟩ := by
  simp only [handleMessageGeneral, withSession, mem_eq, Prog.call_bind, Prog.ret_bind, hparse] at h
  obtain ⟨r, l₁, hl, h₁⟩ := Prog.Trace.of_call (S := Server) h
  refine ⟨r, l₁, hl, fun s hs => ?_⟩
  subst hs
  dsimp only at h₁
  rw [LawfulMonad.bind_assoc] at h₁
  obtain ⟨b, l₂, hl₁, h₂⟩ := maybeRestoreActivity_acts h₁
  obtain ⟨i, l₃, hl₂, h₃⟩ := Prog.Trace.of_call (S := Server) h₂
  obtain ⟨targets, l₄, hl₃, h₄⟩ := Prog.Trace.of_call (S := Server) h₃
  obtain ⟨l₅, hl₄, h₅⟩ := sendAll_acts h₄
  obtain ⟨hl₅, _⟩ := h₅.of_ret
  refine ⟨b, i, targets, ?_⟩
  rw [hl₁, hl₂, hl₃, hl₄, hl₅, List.append_nil]

/-- The deliveries of such a call. -/
theorem deliveriesOf_general (fd : Fd) (s : SessionRef) (b : Bool) (i : SessionInfo)
    (targets : List SessionRef) (text : String) :
    deliveriesOf (⟨.mem (.getSession fd), some s⟩ :: (restoreActs s b ++ ⟨.mem (.read s), i⟩ ::
      ⟨.mem .aliveSessions, targets⟩ :: targets.map fun t =>
        ⟨.sendLocked t (.broadcastDelivery ⟨text, i.username⟩), ()⟩)) =
      targets.map fun t => (t, .broadcastDelivery ⟨text, i.username⟩) := by
  have htargets : ∀ ts : List SessionRef, deliveriesOf (ts.map fun t =>
      (⟨.sendLocked t (.broadcastDelivery ⟨text, i.username⟩), ()⟩ : Prog.Act Server)) =
        ts.map fun t => (t, .broadcastDelivery ⟨text, i.username⟩) := by
    intro ts
    induction ts with
    | nil => rfl
    | cons t ts ih => exact congrArg ((t, ServerMsg.broadcastDelivery ⟨text, i.username⟩) :: ·) ih
  cases b <;> exact htargets targets

section Call

variable {p p' : State} {c : ConnId} {fd : Fd} {payload : Bytes} {msg : MessageGeneral}
  {s : SessionRef} {R : List (Event Server Tid)}

/-- The operations of a whole call, in any interleaving. -/
theorem general_call (h : (system cfg).Reaches Lts.Any p)
    (hprog : p.prog (.handler c) = handleMessageGeneral cfg fd payload >>= fun _ => pure (.loop fd))
    (hparse : cfg.pb.parseMessageGeneral payload = some msg)
    (hs : p.shared.mem.getSession fd = some s)
    (hrun : (system cfg).Steps (fun _ l => l ≠ .jump (.handler c)) p p')
    (hret : p'.prog (.handler c) = .ret (.loop fd)) (hlog : p'.log = p.log ++ R) :
    RegisteredOn p.log s c ∧ ¬ HasLeft p.log c ∧ ∃ b i targets,
      i.username = (p'.shared.mem.heap s).username ∧
      Machine.ownActs (.handler c) R = ⟨.mem (.getSession fd), some s⟩ ::
        (restoreActs s b ++ ⟨.mem (.read s), i⟩ :: ⟨.mem .aliveSessions, targets⟩ ::
          targets.map fun t =>
            ⟨.sendLocked t (.broadcastDelivery ⟨msg.message, i.username⟩), ()⟩) := by
  have ⟨hreg, hleft, l, hacts, htrace⟩ := session_call h hprog hs hrun hret hlog
  have ⟨r, l', hl, hshape⟩ := handleMessageGeneral_acts hparse (.cons htrace)
  cases hl
  have ⟨b, i, targets, hl'⟩ := hshape s rfl
  rw [hl'] at hacts
  refine ⟨hreg, hleft, b, i, targets, ?_, hacts⟩
  have hread : Machine.ownActs (.handler c) R =
      (⟨.mem (.getSession fd), some s⟩ :: restoreActs s b) ++ ⟨.mem (.read s), i⟩ :: _ := hacts
  exact read_own (h.steps hrun.any) hlog hreg hread

/-- The handler does not leave before it collects its targets. -/
theorem not_left_before_snapshot {A : List (Event Server Tid)} {b : Bool} {i : SessionInfo}
    (hleft : ¬ HasLeft p.log c)
    (hA : Machine.ownActs (.handler c) A = ⟨.mem (.getSession fd), some s⟩ ::
      (restoreActs s b ++ [⟨.mem (.read s), i⟩])) : ¬ HasLeft (p.log ++ A) c := by
  intro ⟨e, he, hc⟩
  rcases List.mem_append.1 he with he | he
  · exact hleft ⟨e, he, hc⟩
  · have ⟨t, o, r⟩ := e
    have ⟨ht, fd', ho⟩ := hc
    have hmem := Machine.mem_ownActs he
    rw [show t = .handler c from ht, hA] at hmem
    subst ho
    cases b <;> simp [restoreActs] at hmem

end Call

/-- One snapshot: in the state in which it is taken, the targets are the sessions
in the registry, each once. -/
theorem aliveSessions_event {C : State → Step → Prop} {p : State} {t : Tid}
    {L R : List (Event Server Tid)} {targets : List SessionRef} (h : (system cfg).Reaches C p)
    (hlog : p.log = L ++ ⟨t, .mem .aliveSessions, targets⟩ :: R) :
    ∃ q p₁ ch, (system cfg).Reaches C q ∧ q.log = L ∧ (system cfg).step q (.op t ch) = some p₁ ∧
      p₁.log = L ++ [⟨t, .mem .aliveSessions, targets⟩] ∧ (system cfg).Steps C p₁ p ∧
      targets.Nodup ∧ ∀ x, x ∈ targets ↔ ∃ fd, q.shared.mem.registry.sessions.lookup fd = some x := by
  have ⟨q, k, ch, w, hq, hqlog, _, _, he, hstep, hsteps⟩ := event_step h hlog
  have ⟨qs, hown⟩ := reachable_owned hq
  have ⟨hnodup, hmem⟩ := exec_aliveSessions hown.2.1 he
  refine ⟨q, _, ch, hq, hqlog, hstep, ?_, hsteps, hnodup, hmem⟩
  rw [Pool.afterOp_log, hqlog]

/-! ## The order of the messages of one connection -/

/-- Count a dispatched frame, or put down the number of the message that was
delivered through `x`. -/
def countDelivery (x : SessionRef) (a : Nat × List Nat) : Prog.Act Server → Nat × List Nat
  | ⟨.mem (.dispatch _ _), _⟩ => (a.1 + 1, a.2)
  | ⟨.sendLocked y msg, _⟩ => if y = x ∧ msg.sender ≠ none then (a.1, a.2 ++ [a.1]) else a
  | _ => a

/-- How many frames the handler of `c` has dispatched, and the messages among
them that it has delivered through `x`. -/
def tally (c : ConnId) (x : SessionRef) (log : List (Event Server Tid)) : Nat × List Nat :=
  (Machine.ownActs (.handler c) log).foldl (countDelivery x) (0, [])

/-- The messages of connection `c` that were delivered through `x`, in the order
of the deliveries.  A message is known by its number among the frames that the
handler has dispatched. -/
def deliveryNumbers (c : ConnId) (x : SessionRef) (log : List (Event Server Tid)) : List Nat :=
  (tally c x log).2

theorem tally_own (c : ConnId) (x : SessionRef) (log : List (Event Server Tid)) (o : ServerOp)
    (r : o.Resp) :
    tally c x (log ++ [⟨.handler c, o, r⟩]) = countDelivery x (tally c x log) ⟨o, r⟩ := by
  rw [tally, Machine.ownActs_append, Machine.ownActs_cons, if_pos rfl, Machine.ownActs_nil,
    List.foldl_append]
  rfl

theorem tally_other {c : ConnId} (x : SessionRef) (log : List (Event Server Tid))
    {e : Event Server Tid} (h : e.tid ≠ .handler c) : tally c x (log ++ [e]) = tally c x log := by
  rw [tally, Machine.ownActs_append, Machine.ownActs_cons, if_neg h, Machine.ownActs_nil,
    List.append_nil]
  rfl

/-- The deliveries of one message: the sessions that it was delivered through,
and those that it still may be. -/
structure Round where
  done : List SessionRef := []
  owed : List SessionRef := []

def Round.after (q : Round) : (o : ServerOp) → o.Resp → Round
  | .mem (.dispatch _ _), _ => {}
  | .mem .aliveSessions, targets => { q with owed := targets.filter (· ∉ q.done) }
  | .mem (.findUser _), dest => { q with owed := dest.toList.filter (· ∉ q.done) }
  | .sendLocked x msg, _ =>
    if msg.sender = none then q else { done := q.done ++ [x], owed := q.owed.tail }
  | _, _ => q

/-- The targets are served in their order. -/
def Round.Allows (q : Round) : ServerOp → Prop
  | .sendLocked x msg => msg.sender = none ∨ q.owed.head? = some x
  | _ => True

def roundMonitor : Prog.Monitor Server Round := .det Round.Allows fun q o r => q.after o r

/-- The program delivers only to targets that it was given. -/
abbrev Delivers {α : Type} (p : Prog Server α) (q : Round) : Prop :=
  p.Obeys roundMonitor (fun _ _ => True) q

section Programs

variable {fd : Fd} {payload : Bytes}

theorem obeys_round_call {α : Type} {o : ServerOp} {k : o.Resp → Prog Server α} {q : Round}
    {post : α → Round → Prop} :
    (Prog.call (S := Server) o k).Obeys roundMonitor post q ↔
      q.Allows o ∧ ∀ r, (k r).Obeys roundMonitor post (q.after o r) :=
  Prog.obeys_det_call

theorem delivers_of_only {α : Type} {p : Prog Server α} (h : p.Only NoDelivery) (q : Round) :
    Delivers p q := by
  induction p generalizing q with
  | ret a => trivial
  | call o k ih =>
    refine obeys_round_call.2 ⟨?_, fun r => ih r (h.2 r) _⟩
    have ho := h.1
    cases o with
    | sendLocked s msg => exact Or.inl ho
    | mem o | sendBare fd msg | register fd u a => trivial

/-- `maybe_restore_activity` delivers nothing. -/
theorem maybeRestoreActivity_delivers (s : SessionRef) (q : Round) :
    (maybeRestoreActivity s).Obeys roundMonitor (fun _ q' => q' = q) q := by
  simp only [maybeRestoreActivity, mem_eq, Prog.call_bind, Prog.ret_bind]
  refine obeys_round_call.2 ⟨trivial, fun restored => ?_⟩
  cases restored with
  | false => exact obeys_round_call.2 ⟨trivial, fun _ => rfl⟩
  | true =>
    refine obeys_round_call.2 ⟨Or.inl rfl, fun _ => ?_⟩
    exact obeys_round_call.2 ⟨trivial, fun _ => rfl⟩

/-- The loop over the targets delivers to each of them. -/
theorem sendAll_delivers (targets done : List SessionRef) {msg : ServerMsg} (h : msg.sender ≠ none) :
    Delivers (targets.forM fun t => sendLocked t msg) ⟨done, targets⟩ := by
  induction targets generalizing done with
  | nil => trivial
  | cons t targets ih =>
    rw [Prog.forM_cons, sendLocked_eq, Prog.call_bind, Delivers, obeys_round_call]
    refine ⟨Or.inr rfl, fun _ => ?_⟩
    rw [show Round.after ⟨done, t :: targets⟩ (.sendLocked t msg) _ = _ from if_neg h]
    exact ih _

theorem handleMessageGeneral_delivers : Delivers (handleMessageGeneral cfg fd payload) {} := by
  simp only [handleMessageGeneral, withSession, mem_eq, Prog.call_bind, Prog.ret_bind]
  refine obeys_round_call.2 ⟨trivial, fun session => ?_⟩
  cases session with
  | none => exact delivers_of_only (sendBare_noDelivery rfl) _
  | some s =>
    dsimp only
    split
    · exact delivers_of_only (sendLocked_noDelivery rfl) _
    · refine (maybeRestoreActivity_delivers s _).bind fun _ q hq => ?_
      subst hq
      refine obeys_round_call.2 ⟨trivial, fun i => obeys_round_call.2 ⟨trivial, fun targets => ?_⟩⟩
      have htargets : targets.filter (· ∉ ([] : List SessionRef)) = targets := by simp
      show Delivers _ ⟨[], targets.filter (· ∉ ([] : List SessionRef))⟩
      rw [htargets]
      exact sendAll_delivers targets [] (Option.some_ne_none _)

theorem handleMessageDm_delivers : Delivers (handleMessageDm cfg fd payload) {} := by
  simp only [handleMessageDm, withSession, mem_eq, Prog.call_bind, Prog.ret_bind]
  refine obeys_round_call.2 ⟨trivial, fun session => ?_⟩
  cases session with
  | none => exact delivers_of_only (sendBare_noDelivery rfl) _
  | some s =>
    dsimp only
    split
    · exact delivers_of_only (sendLocked_noDelivery rfl) _
    · refine (maybeRestoreActivity_delivers s _).bind fun _ q hq => ?_
      subst hq
      refine obeys_round_call.2 ⟨trivial, fun i => obeys_round_call.2 ⟨trivial, fun dest => ?_⟩⟩
      cases dest with
      | none => exact delivers_of_only (sendLocked_noDelivery rfl) _
      | some d =>
        refine obeys_round_call.2 ⟨trivial, fun j => ?_⟩
        split
        · exact obeys_round_call.2 ⟨Or.inr rfl, fun _ =>
            delivers_of_only (sendLocked_noDelivery rfl) _⟩
        · exact delivers_of_only (sendLocked_noDelivery rfl) _

theorem handleFrame_delivers (msgType : UInt8) : Delivers (handleFrame cfg fd msgType payload) {} := by
  refine handleFrame_cases (R := fun p => Delivers p {}) msgType ?_ ?_ ?_ ?_ ?_ ?_ ?_ ?_
  · exact delivers_of_only handleRegister_noDelivery _
  · exact handleMessageGeneral_delivers
  · exact handleMessageDm_delivers
  · exact delivers_of_only handleChangeStatus_noDelivery _
  · exact delivers_of_only handleListUsers_noDelivery _
  · exact delivers_of_only handleGetUserInfo_noDelivery _
  · exact delivers_of_only handleQuit_noDelivery _
  · exact delivers_of_only (sendBare_noDelivery rfl) _

theorem handleClient_delivers (q : Round) : Delivers (handleClient cfg fd) q := by
  simp only [handleClient, mem_eq, Prog.call_bind, Prog.ret_bind]
  refine obeys_round_call.2 ⟨trivial, fun running => ?_⟩
  cases running with
  | false => trivial
  | true =>
    show Delivers (_ >>= _) _
    have hrecv : ((recvMessage fd).lift recvEmbedding).Only NoDelivery :=
      (recvMessage_reads fd).lift fun _ _ => trivial
    refine (delivers_of_only hrecv _).bind fun frame q' _ => ?_
    cases frame with
    | none => trivial
    | some frame =>
      obtain ⟨msgType, payload⟩ := frame
      refine obeys_round_call.2 ⟨trivial, fun _ => ?_⟩
      rw [dispatch_eq]
      exact (handleFrame_delivers msgType).bind fun _ _ _ => trivial

theorem program_delivers (ctl : Ctl) (q : Round) : Delivers (ctl.program cfg) q := by
  cases ctl with
  | loop fd => exact handleClient_delivers q
  | cleanup fd =>
    exact delivers_of_only (p := handleClientCleanup fd) ⟨trivial, fun _ => ⟨trivial, fun _ => trivial⟩⟩ _
  | watchdog => exact delivers_of_only watchdogLoop_noDelivery _
  | ended => trivial

end Programs

/-- The deliveries of the handler of `c` so far are in the order of its messages,
and those of the last message are the ones of the round. -/
structure Round.Right (log : List (Event Server Tid)) (c : ConnId) (q : Round) : Prop where
  nodup : (q.done ++ q.owed).Nodup
  sorted : ∀ x, (tally c x log).2.Pairwise (· < ·)
  bound : ∀ x, ∀ n ∈ (tally c x log).2, n ≤ (tally c x log).1
  last : ∀ x, (tally c x log).1 ∈ (tally c x log).2 → x ∈ q.done

theorem Round.Right.congr {log log' : List (Event Server Tid)} {c : ConnId} {q : Round}
    (h : q.Right log c) (htally : ∀ x, tally c x log' = tally c x log) : q.Right log' c := by
  refine ⟨h.nodup, fun x => ?_, fun x => ?_, fun x => ?_⟩ <;> rw [htally x]
  · exact h.sorted x
  · exact h.bound x
  · exact h.last x

/-- A new list of targets. -/
theorem Round.Right.targets {log : List (Event Server Tid)} {c : ConnId} {q : Round}
    {targets : List SessionRef} (h : q.Right log c) (hnodup : targets.Nodup) :
    Round.Right log c { q with owed := targets.filter (· ∉ q.done) } := by
  refine ⟨?_, h.sorted, h.bound, h.last⟩
  refine List.nodup_append.2 ⟨(List.nodup_append.1 h.nodup).1, hnodup.filter _, fun a ha b hb => ?_⟩
  intro hab
  have hnot := (List.mem_filter.1 hb).2
  rw [decide_eq_true_eq, ← hab] at hnot
  exact hnot ha

theorem Round.Right.dispatch {log : List (Event Server Tid)} {c : ConnId} {q : Round}
    (msgType : UInt8) (payload : Bytes) (h : q.Right log c) :
    Round.Right (log ++ [⟨.handler c, .mem (.dispatch msgType payload), ()⟩]) c {} := by
  refine ⟨List.nodup_nil, fun x => ?_, fun x n hn => ?_, fun x hlast => ?_⟩
  · rw [tally_own]
    exact h.sorted x
  · rw [tally_own] at hn ⊢
    exact Nat.le_succ_of_le (h.bound x n hn)
  · rw [tally_own] at hlast
    exact absurd (h.bound x _ hlast) (Nat.not_succ_le_self _)

/-- A delivery to the next target. -/
theorem Round.Right.deliver {log : List (Event Server Tid)} {c : ConnId} {q : Round}
    {y : SessionRef} (msg : ServerMsg) (h : q.Right log c)
    (hnext : q.owed.head? = some y) :
    Round.Right (log ++ [⟨.handler c, .sendLocked y msg, ()⟩]) c
      { done := q.done ++ [y], owed := q.owed.tail } := by
  have howed : q.owed = y :: q.owed.tail := (List.cons_head?_tail hnext).symm
  have hnodup := h.nodup
  rw [howed, List.append_cons] at hnodup
  have hnew : y ∉ q.done := fun hy =>
    (List.nodup_append.1 (List.nodup_append.1 hnodup).1).2.2 y hy y (List.mem_singleton_self y) rfl
  refine ⟨hnodup, fun x => ?_, fun x n hn => ?_, fun x hlast => ?_⟩
  · rw [tally_own, countDelivery]
    split
    · rename_i hyx
      refine List.pairwise_append.2 ⟨h.sorted x, List.pairwise_singleton _ _, fun n hn k hk => ?_⟩
      rw [List.mem_singleton.1 hk]
      refine Nat.lt_of_le_of_ne (h.bound x n hn) fun heq => ?_
      rw [heq] at hn
      exact hnew (hyx.1 ▸ h.last x hn)
    · exact h.sorted x
  · rw [tally_own, countDelivery] at hn ⊢
    split at hn
    · rename_i hyx
      rw [if_pos hyx]
      rcases List.mem_append.1 hn with hn | hn
      · exact h.bound x n hn
      · exact Nat.le_of_eq (List.mem_singleton.1 hn)
    · rename_i hyx
      rw [if_neg hyx]
      exact h.bound x n hn
  · rw [tally_own, countDelivery] at hlast
    split at hlast
    · rename_i hyx
      rw [← hyx.1]
      exact List.mem_append_right _ (List.mem_singleton_self y)
    · exact List.mem_append_left _ (h.last x hlast)

/-- An operation of the handler itself. -/
theorem round_own {w w' : World} {phases : Tid → Phase} {log : List (Event Server Tid)} {c : ConnId}
    {q : Round} {o : ServerOp} {ch : Choice} {r : o.Resp} (hown : w.mem.Owned phases)
    (h : q.Right log c) (he : w.exec cfg (.handler c) o ch = some (r, w')) (hguard : q.Allows o) :
    (q.after o r).Right (log ++ [⟨.handler c, o, r⟩]) c := by
  have hsame : (∀ x, countDelivery x (tally c x log) ⟨o, r⟩ = tally c x log) →
      q.Right (log ++ [⟨.handler c, o, r⟩]) c :=
    fun hcount => h.congr fun x => by rw [tally_own, hcount x]
  cases o with
  | sendBare fd msg => exact hsame fun _ => rfl
  | register fd u a => exact hsame fun _ => rfl
  | sendLocked y msg =>
    by_cases hmsg : msg.sender = none
    · rw [show q.after (.sendLocked y msg) r = q from if_pos hmsg]
      exact hsame fun x => if_neg fun hyx => hyx.2 hmsg
    · rw [show q.after (.sendLocked y msg) r = _ from if_neg hmsg]
      exact h.deliver msg (Or.resolve_left hguard hmsg)
  | mem o =>
    cases o with
    | dispatch msgType payload => exact h.dispatch msgType payload
    | aliveSessions => exact (hsame fun _ => rfl).targets (exec_aliveSessions hown he).1
    | findUser u =>
      refine (hsame fun _ => rfl).targets ?_
      cases r with
      | none => exact List.nodup_nil
      | some d => exact List.nodup_singleton d
    | recv | running | getPeerIp | getSession | removeSession | read | listSessions | restore
      | setStatus | touch | now | markIdle | close => exact hsame fun _ => rfl

theorem round_keeps (cfg : Config) :
    Machine.Keeps (machine cfg) (fun _ => roundMonitor) (fun _ _ _ => True)
      (fun p qs => ∀ c, (qs (.handler c)).Right p.log c)
      (fun p _ => (system cfg).Reaches Lts.Any p) where
  op p qs t ch o k r w q' hJ hC hprog he hguard hnext c := by
    rw [show q' = (qs t).after o r from hnext, Pool.afterOp_log]
    have ⟨phases, hown⟩ := reachable_owned hC
    by_cases ht : t = .handler c
    · subst ht
      rw [update_self]
      exact round_own hown.2.1 (hJ c) he hguard
    · rw [update_of_ne (Ne.symm ht)]
      exact (hJ c).congr fun x => tally_other x p.log ht
  jump p qs t ctl hJ _ _ _ := by
    refine ⟨qs t, program_delivers ctl (qs t), fun c => ?_⟩
    rw [update_eq_self]
    exact hJ c
  env p qs e w start hJ _ _ := by
    refine ⟨qs, fun _ _ => rfl, fun _ _ _ => trivial, fun c => ?_⟩
    rw [Pool.afterEnv_log]
    exact hJ c

/-- The messages of one connection are delivered through a session in the order
in which the handler dispatched them, and each at most once. -/
theorem deliveryNumbers_sorted {p : State} (h : (system cfg).Reaches Lts.Any p) (c : ConnId)
    (x : SessionRef) : (deliveryNumbers c x p.log).Pairwise (· < ·) := by
  have hrun : (system cfg).Reaches (fun q _ => (system cfg).Reaches Lts.Any q) p :=
    Lts.Steps.strengthen h fun q _ _ hq _ _ => hq
  have hinit : Machine.Monitored (fun _ => roundMonitor) (fun _ _ _ => True)
      (fun p qs => ∀ c, (qs (.handler c)).Right p.log c) (system cfg).init fun _ => {} :=
    ⟨fun _ => trivial, fun c => ⟨List.nodup_nil, fun _ => .nil, fun _ _ hn => (nomatch hn),
      fun _ hn => (nomatch hn)⟩⟩
  have ⟨qs, _, hright⟩ := (round_keeps cfg).steps hrun hinit
  exact (hright c).sorted x

/-! ## The numbers of a call -/

/-- The number of a message is how many frames were dispatched before. -/
theorem tally_fst (c : ConnId) (x : SessionRef) (log : List (Event Server Tid)) :
    (tally c x log).1 = (dispatched c log).length := by
  induction log using List.reverseRecOn with
  | nil => rfl
  | append_singleton log e ih =>
    have ⟨t, o, r⟩ := e
    by_cases ht : t = .handler c
    · subst ht
      rw [tally_own, dispatched_append, List.length_append, ← ih]
      cases o with
      | sendBare fd msg => rfl
      | register fd u a => rfl
      | sendLocked y msg =>
        rw [countDelivery]
        split <;> rfl
      | mem o =>
        cases o with
        | dispatch msgType payload => simp [countDelivery, dispatched]
        | recv | running | getPeerIp | getSession | removeSession | aliveSessions | findUser | read
          | listSessions | restore | setStatus | touch | now | markIdle | close => rfl
    · rw [tally_other x log ht, dispatched_other fun _ _ htid => absurd htid ht, ih]

theorem countDelivery_restore (x s : SessionRef) (b : Bool) (a : Nat × List Nat) :
    (restoreActs s b).foldl (countDelivery x) a = a := by
  cases b with
  | false => rfl
  | true => exact if_neg fun hc => hc.2 rfl

/-- The deliveries of one loop over the targets all have the same number. -/
theorem countDelivery_sendAll (x : SessionRef) (targets : List SessionRef) (n : Nat)
    (ns : List Nat) {msg : ServerMsg} (h : msg.sender ≠ none) :
    (targets.map fun t => (⟨.sendLocked t msg, ()⟩ : Prog.Act Server)).foldl (countDelivery x)
      (n, ns) = (n, ns ++ List.replicate (targets.count x) n) := by
  induction targets generalizing ns with
  | nil => rw [List.count_nil, List.replicate_zero, List.append_nil]; rfl
  | cons t targets ih =>
    rw [List.map_cons, List.foldl_cons, countDelivery]
    by_cases ht : t = x
    · subst ht
      rw [if_pos ⟨rfl, h⟩, ih, List.count_cons_self, List.replicate_succ, List.append_assoc]
      rfl
    · rw [if_neg fun hc => ht hc.1, ih, List.count_cons_of_ne ht]

/-- The numbers after one more event. -/
theorem mem_deliveryNumbers_append {c : ConnId} {x : SessionRef} {log : List (Event Server Tid)}
    {e : Event Server Tid} {n : Nat} :
    n ∈ deliveryNumbers c x (log ++ [e]) ↔ n ∈ deliveryNumbers c x log ∨
      ∃ msg, e = ⟨.handler c, .sendLocked x msg, ()⟩ ∧ msg.sender ≠ none ∧
        (dispatched c log).length = n := by
  obtain ⟨t, o, r⟩ := e
  by_cases ht : t = .handler c
  · subst ht
    rw [deliveryNumbers, deliveryNumbers, tally_own, ← tally_fst c x log]
    cases o with
    | sendLocked y msg =>
      rw [countDelivery]
      split
      · rename_i hy
        obtain ⟨rfl, hsender⟩ := hy
        rw [List.mem_append, List.mem_singleton]
        refine or_congr_right ⟨fun hn => ⟨msg, rfl, hsender, hn.symm⟩, ?_⟩
        rintro ⟨_, -, -, hn⟩
        exact hn.symm
      · rename_i hy
        refine (or_iff_left ?_).symm
        rintro ⟨_, he, hsender, -⟩
        cases he
        exact hy ⟨rfl, hsender⟩
    | sendBare fd msg =>
      exact (or_iff_left fun ⟨_, he, _⟩ => (nomatch he)).symm
    | register fd u a =>
      exact (or_iff_left fun ⟨_, he, _⟩ => (nomatch he)).symm
    | mem o =>
      have hsame : (countDelivery x (tally c x log) ⟨.mem o, r⟩).2 = (tally c x log).2 := by
        cases o <;> rfl
      rw [hsame]
      exact (or_iff_left fun ⟨_, he, _⟩ => (nomatch he)).symm
  · rw [deliveryNumbers, tally_other x log ht]
    refine (or_iff_left ?_).symm
    rintro ⟨_, he, -⟩
    cases he
    exact ht rfl

/-- A number stands for a delivery after so many frames. -/
theorem mem_deliveryNumbers {c : ConnId} {x : SessionRef} {log : List (Event Server Tid)} {n : Nat} :
    n ∈ deliveryNumbers c x log ↔ ∃ L R msg, log = L ++ ⟨.handler c, .sendLocked x msg, ()⟩ :: R ∧
      msg.sender ≠ none ∧ (dispatched c L).length = n := by
  constructor
  · intro h
    induction log using List.reverseRecOn with
    | nil => cases h
    | append_singleton log e ih =>
      rcases mem_deliveryNumbers_append.1 h with hold | ⟨msg, rfl, hsender, hn⟩
      · obtain ⟨L, R, msg, rfl, hrest⟩ := ih hold
        exact ⟨L, R ++ [e], msg, by simp, hrest⟩
      · exact ⟨log, [], msg, rfl, hsender, hn⟩
  · rintro ⟨L, R, msg, rfl, hsender, hn⟩
    induction R using List.reverseRecOn with
    | nil => exact mem_deliveryNumbers_append.2 (Or.inr ⟨msg, rfl, hsender, hn⟩)
    | append_singleton R e ih =>
      rw [← List.cons_append, ← List.append_assoc]
      exact mem_deliveryNumbers_append.2 (Or.inl ih)

section Call

variable {p p' : State} {c : ConnId} {fd : Fd} {payload : Bytes} {msg : MessageGeneral}
  {s : SessionRef} {R : List (Event Server Tid)}

/-- One call: what it delivers, and the numbers of its deliveries. -/
theorem general_delivers (h : (system cfg).Reaches Lts.Any p)
    (hprog : p.prog (.handler c) = handleMessageGeneral cfg fd payload >>= fun _ => pure (.loop fd))
    (hparse : cfg.pb.parseMessageGeneral payload = some msg)
    (hs : p.shared.mem.getSession fd = some s)
    (hrun : (system cfg).Steps (fun _ l => l ≠ .jump (.handler c)) p p')
    (hret : p'.prog (.handler c) = .ret (.loop fd)) (hlog : p'.log = p.log ++ R) :
    ∃ A B targets q p₁ ch, R = A ++ ⟨.handler c, .mem .aliveSessions, targets⟩ :: B ∧
      (system cfg).Reaches Lts.Any q ∧ q.log = p.log ++ A ∧
      (system cfg).step q (.op (.handler c) ch) = some p₁ ∧ (system cfg).Steps Lts.Any p₁ p' ∧
      targets.Nodup ∧
      (∀ x, x ∈ targets ↔ ∃ fd', q.shared.mem.registry.sessions.lookup fd' = some x) ∧
      s ∈ targets ∧
      deliveriesOf (Machine.ownActs (.handler c) R) = (targets.map fun x =>
        (x, .broadcastDelivery ⟨msg.message, (p'.shared.mem.heap s).username⟩)) ∧
      ∀ x, deliveryNumbers c x p'.log = deliveryNumbers c x p.log ++
        if x ∈ targets then [(dispatched c p.log).length] else [] := by
  have h' : (system cfg).Reaches Lts.Any p' := h.steps hrun.any
  have ⟨hreg, hleft, b, i, targets, hname, hacts⟩ := general_call h hprog hparse hs hrun hret hlog
  have hsplit : Machine.ownActs (.handler c) R =
      (⟨.mem (.getSession fd), some s⟩ :: (restoreActs s b ++ [⟨.mem (.read s), i⟩])) ++
        ⟨.mem .aliveSessions, targets⟩ :: targets.map fun t =>
          ⟨.sendLocked t (.broadcastDelivery ⟨msg.message, i.username⟩), ()⟩ := by
    rw [hacts, List.cons_append, List.append_assoc]
    rfl
  have ⟨A, B, hRA, hA, hB⟩ := Machine.ownActs_eq_append hsplit
  have ⟨A', B', hBA, hA', _⟩ := Machine.ownActs_eq_cons hB
  have hbefore : Machine.ownActs (.handler c) (A ++ A') =
      ⟨.mem (.getSession fd), some s⟩ :: (restoreActs s b ++ [⟨.mem (.read s), i⟩]) := by
    rw [Machine.ownActs_append, hA, hA', List.append_nil]
  have hlog' : p'.log = (p.log ++ (A ++ A')) ++ ⟨.handler c, .mem .aliveSessions, targets⟩ :: B' := by
    rw [hlog, hRA, hBA]
    simp
  have ⟨q, p₁, ch, hq, hqlog, hstep, _, hsteps, hnodup, hmem⟩ := aliveSessions_event h' hlog'
  refine ⟨A ++ A', B', targets, q, p₁, ch, ?_, hq, hqlog, hstep, hsteps, hnodup, hmem, ?_, ?_,
    fun x => ?_⟩
  · rw [hRA, hBA, List.append_assoc]
  · -- The sender has not left when the snapshot is taken.
    have hregq : RegisteredOn q.log s c := by
      rw [hqlog]
      exact hreg.append _
    have ⟨hlt, hc⟩ := (registeredOn_iff hq s c).1 hregq
    have hstay : ¬ HasLeft q.log (q.shared.mem.registeredOn s) := by
      rw [hqlog, hc]
      exact not_left_before_snapshot hleft hbefore
    exact (hmem s).2 ⟨_, (lookup_iff_not_left hq hlt).2 hstay⟩
  · rw [hacts, deliveriesOf_general, hname]
  · have hbase : tally c x (p.log ++ R) = (Machine.ownActs (.handler c) R).foldl (countDelivery x)
        (tally c x p.log) := by
      rw [tally, Machine.ownActs_append, List.foldl_append]
      rfl
    have hcount : (Machine.ownActs (.handler c) R).foldl (countDelivery x) (tally c x p.log) =
        ((tally c x p.log).1, (tally c x p.log).2 ++
          List.replicate (targets.count x) (tally c x p.log).1) := by
      have hmsg : (ServerMsg.broadcastDelivery ⟨msg.message, i.username⟩).sender ≠ none :=
        Option.some_ne_none _
      rw [hacts, List.foldl_cons, List.foldl_append, countDelivery_restore]
      exact countDelivery_sendAll x targets _ _ hmsg
    rw [deliveryNumbers, hlog, hbase, hcount, hnodup.count, ← tally_fst c x p.log]
    split <;> rfl
end Call

end SimpleChat
