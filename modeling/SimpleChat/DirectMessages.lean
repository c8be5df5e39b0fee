import SimpleChat.Delivery

/-!
# Direct messages

`handle_message_dm` looks the destination up under `sessions_mutex_`, reads its
`alive` flag afterwards without it, and confirms with 202 on a path common to
both outcomes of the test.  `dm_answered_iff` says exactly when the answer is
right: unless the destination leaves between the lookup and the test.

The proofs read the operations of one call off its program
(`handleMessageDm_acts`) and what each of them returned off the state in which
it was performed.
-/

namespace SimpleChat

open Conc Function

/-! ## What an operation returned -/

section Events

variable {cfg : Config} {C : State → Step → Prop} {p : State} {L R : List (Event Server Tid)}
  {t : Tid} {s : SessionRef} {c : ConnId}

theorem RegisteredOn.append {log : List (Event Server Tid)} (h : RegisteredOn log s c)
    (R : List (Event Server Tid)) : RegisteredOn (log ++ R) s c := by
  obtain ⟨fd, u, a, he⟩ := h
  exact ⟨fd, u, a, List.mem_append_left _ he⟩

/-- The state in which an operation without output was performed. -/
theorem mem_event {o : MemOp} {r : o.Resp} (h : (system cfg).Reaches C p)
    (hlog : p.log = L ++ ⟨t, .mem o, r⟩ :: R) :
    ∃ q ch m', (system cfg).Reaches C q ∧ q.log = L ∧
      q.shared.mem.exec cfg.idleTimeoutSec o ch = some (r, m') ∧
      q.shared.mem.Later p.shared.mem := by
  obtain ⟨q, k, ch, w, hq, hqlog, -, -, he, hs, hsteps⟩ := event_step h hlog
  rw [World.exec, Option.map_eq_some_iff] at he
  obtain ⟨⟨r', m'⟩, he, hx⟩ := he
  obtain ⟨rfl, -⟩ := Prod.mk.inj hx
  exact ⟨q, ch, m', hq, hqlog, he, (step_later hs).trans (steps_later hsteps)⟩

/-- `get_session` finds the session of a descriptor unless its owner left. -/
theorem getSession_event {fd : Fd} {r : Option SessionRef} (h : (system cfg).Reaches C p)
    (hlog : p.log = L ++ ⟨t, .mem (.getSession fd), r⟩ :: R) (hs : RegisteredOn L s c)
    (hleft : ¬ HasLeft L c) (hfd : (p.shared.mem.heap s).socketFd = fd) : r = some s := by
  obtain ⟨q, ch, m', hq, rfl, he, hlater⟩ := mem_event h hlog
  cases he
  obtain ⟨hlt, rfl⟩ := (registeredOn_iff hq s c).1 hs
  rw [Memory.getSession, ← hfd, hlater.socketFd s hlt]
  exact (lookup_iff_not_left hq hlt).2 hleft

/-- The two-step lookup finds a session of the name whose owner has not left. -/
theorem findUser_event {u : String} (h : (system cfg).Reaches C p)
    (hlog : p.log = L ++ ⟨t, .mem (.findUser u), some s⟩ :: R) :
    ∃ c, RegisteredOn L s c ∧ ¬ HasLeft L c ∧ (p.shared.mem.heap s).username = u := by
  obtain ⟨q, ch, m', hq, rfl, he, hlater⟩ := mem_event h hlog
  rw [Memory.exec, Option.some.injEq, Prod.mk.injEq] at he
  obtain ⟨qs, -, hown, -⟩ := reachable_owned hq
  obtain ⟨fd, hlook, hname⟩ := hown.consistent.findUser_eq_some.1 he.1
  have hlt := hown.consistent.allocated fd s hlook
  refine ⟨q.shared.mem.registeredOn s, (registeredOn_iff hq s _).2 ⟨hlt, rfl⟩, ?_, ?_⟩
  · rw [← lookup_iff_not_left hq hlt, hown.consistent.socketFd fd s hlook]
    exact hlook
  · rw [hlater.username s hlt, hname]

/-- The fields of a session that a thread reads: the name, and whether the
owner has left. -/
theorem read_event {i : SessionInfo} (h : (system cfg).Reaches C p)
    (hlog : p.log = L ++ ⟨t, .mem (.read s), i⟩ :: R) (hs : RegisteredOn L s c) :
    i.username = (p.shared.mem.heap s).username ∧ (i.alive = true ↔ ¬ HasLeft L c) := by
  obtain ⟨q, ch, m', hq, rfl, he, hlater⟩ := mem_event h hlog
  cases he
  obtain ⟨hlt, rfl⟩ := (registeredOn_iff hq s c).1 hs
  exact ⟨(hlater.username s hlt).symm, alive_iff_not_left hq hlt⟩

end Events

/-! ## The operations of one call -/

/-- What `maybe_restore_activity` does.  `b` says whether it restores. -/
def restoreActs (s : SessionRef) (b : Bool) : List (Prog.Act Server) :=
  ⟨.mem (.restore s), b⟩ ::
    ((if b then [⟨.sendLocked s (response StatusCode.STATUS_RESTORED
      "Status restored to ACTIVO after inactivity period" true), ()⟩] else []) ++
      [⟨.mem (.touch s), ()⟩])

theorem maybeRestoreActivity_acts {s : SessionRef} {rest : Prog Server Ctl} {ctl : Ctl}
    {l : List (Prog.Act Server)}
    (h : (maybeRestoreActivity s >>= fun _ => rest).Trace l (.ret ctl)) :
    ∃ b l', l = restoreActs s b ++ l' ∧ rest.Trace l' (.ret ctl) := by
  simp only [maybeRestoreActivity, mem_eq, Prog.call_bind, Prog.ret_bind] at h
  obtain ⟨b, l, rfl, h1⟩ := Prog.Trace.of_call (S := Server) h
  cases b with
  | false =>
    obtain ⟨_, l, rfl, h2⟩ := Prog.Trace.of_call (S := Server) h1
    exact ⟨false, l, rfl, h2⟩
  | true =>
    obtain ⟨_, l, rfl, h2⟩ := Prog.Trace.of_call (S := Server) h1
    obtain ⟨_, l, rfl, h3⟩ := Prog.Trace.of_call (S := Server) h2
    exact ⟨true, l, rfl, h3⟩

/-- What `handle_message_dm` does after the lookup of the destination. -/
def dmAnswerActs (s : SessionRef) (sender : String) (msg : MessageDM) :
    Option (SessionRef × SessionInfo) → List (Prog.Act Server)
  | none =>
    [⟨.mem (.findUser msg.usernameDes), none⟩,
      ⟨.sendLocked s (response StatusCode.USER_NOT_FOUND
        ("User '" ++ msg.usernameDes ++ "' not found") false), ()⟩]
  | some (d, j) =>
    [⟨.mem (.findUser msg.usernameDes), some d⟩, ⟨.mem (.read d), j⟩] ++
      (if j.alive then
        [⟨.sendLocked d (.forDm { usernameDes := sender, message := msg.message }), ()⟩] else []) ++
      [⟨.sendLocked s (response StatusCode.OK_DM_SENT ("DM sent to " ++ msg.usernameDes) true), ()⟩]

/-- Everything `handle_message_dm` can do with a well-formed message from a
registered sender. -/
theorem handleMessageDm_acts {cfg : Config} {fd : Fd} {payload : Bytes} {msg : MessageDM}
    {ctl ctl' : Ctl} {l : List (Prog.Act Server)}
    (hparse : cfg.pb.parseMessageDM payload = some msg)
    (h : (handleMessageDm cfg fd payload >>= fun _ => pure ctl).Trace l (.ret ctl')) :
    ∃ r l', l = ⟨.mem (.getSession fd), r⟩ :: l' ∧ ∀ s, r = some s → ∃ b i x,
      l' = restoreActs s b ++ ⟨.mem (.read s), i⟩ :: dmAnswerActs s i.username msg x := by
  simp only [handleMessageDm, withSession, mem_eq, Prog.call_bind, Prog.ret_bind, hparse] at h
  obtain ⟨r, l, rfl, h1⟩ := Prog.Trace.of_call (S := Server) h
  refine ⟨r, l, rfl, ?_⟩
  rintro s rfl
  dsimp only at h1
  rw [LawfulMonad.bind_assoc] at h1
  obtain ⟨b, l, rfl, h2⟩ := maybeRestoreActivity_acts h1
  obtain ⟨i, l, rfl, h3⟩ := Prog.Trace.of_call (S := Server) h2
  obtain ⟨dest, l, rfl, h4⟩ := Prog.Trace.of_call (S := Server) h3
  cases dest with
  | none =>
    obtain ⟨_, l, rfl, h5⟩ := Prog.Trace.of_call (S := Server) h4
    obtain ⟨rfl, -⟩ := h5.of_ret
    exact ⟨b, i, none, rfl⟩
  | some d =>
    obtain ⟨j, l, rfl, h5⟩ := Prog.Trace.of_call (S := Server) h4
    refine ⟨b, i, some (d, j), ?_⟩
    dsimp only at h5
    by_cases hj : j.alive = true
    · rw [if_pos hj] at h5
      obtain ⟨_, l, rfl, h6⟩ := Prog.Trace.of_call (S := Server) h5
      obtain ⟨_, l, rfl, h7⟩ := Prog.Trace.of_call (S := Server) h6
      obtain ⟨rfl, -⟩ := h7.of_ret
      simp [dmAnswerActs, hj]
    · rw [if_neg hj] at h5
      obtain ⟨_, l, rfl, h6⟩ := Prog.Trace.of_call (S := Server) h5
      obtain ⟨rfl, -⟩ := h6.of_ret
      simp [dmAnswerActs, hj]

/-! ## The answer and the forwarded frame -/

/-- The frames that a thread wrote through sessions. -/
def framesOf (l : List (Prog.Act Server)) : List (SessionRef × ServerMsg) :=
  l.filterMap fun
    | ⟨.sendLocked s msg, _⟩ => some (s, msg)
    | _ => none

/-- The frame is the message `msg` of sender `s`, written through a session
that is registered as its destination. -/
def forwards (m : Memory) (s : SessionRef) (msg : MessageDM) (x : SessionRef × ServerMsg) : Bool :=
  x.2 == .forDm { usernameDes := (m.heap s).username, message := msg.message } &&
    (m.heap x.1).username == msg.usernameDes

/-- The sender is answered 202 exactly if one frame was forwarded, and 404
exactly if none was. -/
structure DmAnswered (m : Memory) (s : SessionRef) (msg : MessageDM)
    (frames : List (SessionRef × ServerMsg)) : Prop where
  confirmed : (∃ text success, (s, response StatusCode.OK_DM_SENT text success) ∈ frames) ↔
    frames.countP (forwards m s msg) = 1
  notFound : (∃ text success, (s, response StatusCode.USER_NOT_FOUND text success) ∈ frames) ↔
    frames.countP (forwards m s msg) = 0

/-- The frames that `handle_message_dm` writes after the lookup. -/
theorem framesOf_dmAnswerActs (s : SessionRef) (sender : String) (msg : MessageDM)
    (x : Option (SessionRef × SessionInfo)) :
    framesOf (dmAnswerActs s sender msg x) =
      match x with
      | none => [(s, response StatusCode.USER_NOT_FOUND
          ("User '" ++ msg.usernameDes ++ "' not found") false)]
      | some (d, j) =>
        (if j.alive then [(d, .forDm { usernameDes := sender, message := msg.message })] else []) ++
          [(s, response StatusCode.OK_DM_SENT ("DM sent to " ++ msg.usernameDes) true)] := by
  cases x with
  | none => rfl
  | some y =>
    obtain ⟨d, j⟩ := y
    cases hj : j.alive <;> simp [dmAnswerActs, framesOf, hj]

@[simp] theorem not_forwards_response (m : Memory) (s t : SessionRef) (msg : MessageDM)
    (code : Int) (text : String) (b : Bool) :
    forwards m s msg (t, response code text b) = false := by
  simp [forwards]

/-- The frames of one call, by what it did after the lookup. -/
theorem dmAnswered_acts {m : Memory} {s : SessionRef} {fd : Fd} {b : Bool} {i : SessionInfo}
    {msg : MessageDM} {x : Option (SessionRef × SessionInfo)}
    (hi : i.username = (m.heap s).username)
    (hx : ∀ d j, x = some (d, j) → (m.heap d).username = msg.usernameDes) :
    DmAnswered m s msg (framesOf (⟨.mem (.getSession fd), some s⟩ ::
        (restoreActs s b ++ ⟨.mem (.read s), i⟩ :: dmAnswerActs s i.username msg x))) ↔
      ∀ d j, x = some (d, j) → j.alive = true := by
  have h603 : (if b = true then [(s, response StatusCode.STATUS_RESTORED
      "Status restored to ACTIVO after inactivity period" true)] else []).countP
      (forwards m s msg) = 0 := by
    cases b <;> simp
  have hframes : framesOf (⟨.mem (.getSession fd), some s⟩ ::
      (restoreActs s b ++ ⟨.mem (.read s), i⟩ :: dmAnswerActs s i.username msg x)) =
      (if b = true then [(s, response StatusCode.STATUS_RESTORED
        "Status restored to ACTIVO after inactivity period" true)] else []) ++
        framesOf (dmAnswerActs s i.username msg x) := by
    cases b <;> simp [restoreActs, framesOf]
  rw [hframes]
  have hmem : ∀ code text success, code ≠ StatusCode.STATUS_RESTORED →
      ((s, response code text success) ∈
        (if b = true then [(s, response StatusCode.STATUS_RESTORED
          "Status restored to ACTIVO after inactivity period" true)] else []) ++
          framesOf (dmAnswerActs s i.username msg x) ↔
        (s, response code text success) ∈ framesOf (dmAnswerActs s i.username msg x)) := by
    intro code text success hcode
    cases b <;> simp [hcode]
  have h202 : StatusCode.OK_DM_SENT ≠ StatusCode.STATUS_RESTORED := by decide
  have h404 : StatusCode.USER_NOT_FOUND ≠ StatusCode.STATUS_RESTORED := by decide
  have hne : StatusCode.OK_DM_SENT ≠ StatusCode.USER_NOT_FOUND := by decide
  constructor
  · rintro ⟨hconfirmed, -⟩ d j rfl
    simp only [hmem _ _ _ h202, List.countP_append, h603, Nat.zero_add] at hconfirmed
    by_contra hj
    simp [framesOf_dmAnswerActs, hj] at hconfirmed
  · intro halive
    refine ⟨?_, ?_⟩
    · simp only [hmem _ _ _ h202, List.countP_append, h603, Nat.zero_add]
      cases x with
      | none => simp [framesOf_dmAnswerActs, hne]
      | some y =>
        obtain ⟨d, j⟩ := y
        simp [framesOf_dmAnswerActs, halive d j rfl, forwards, hi, hx d j rfl]
    · simp only [hmem _ _ _ h404, List.countP_append, h603, Nat.zero_add]
      cases x with
      | none => simp [framesOf_dmAnswerActs]
      | some y =>
        obtain ⟨d, j⟩ := y
        simp [framesOf_dmAnswerActs, halive d j rfl, forwards, hi, hx d j rfl, hne.symm]

/-! ## Every interleaving -/

/-- While the handler of `c` runs `handle_message_dm`, the owner of the session
it finds for `u` leaves between the lookup and the test of `alive`. -/
def DestinationLeaves (log R : List (Event Server Tid)) (c : ConnId) (u : String) : Prop :=
  ∃ A B D d i c', R = A ++ ⟨.handler c, .mem (.findUser u), some d⟩ ::
      (B ++ ⟨.handler c, .mem (.read d), i⟩ :: D) ∧
    RegisteredOn log d c' ∧ ∃ e ∈ B, Leaves e c'

section Acts

variable {s d : SessionRef} {fd fd' : Fd} {b : Bool} {i j : SessionInfo} {sender : String}
  {msg : MessageDM} {x : Option (SessionRef × SessionInfo)}

theorem removeSession_notMem_dmActs (r : Unit) :
    (⟨.mem (.removeSession fd'), r⟩ : Prog.Act Server) ∉ (⟨.mem (.getSession fd), some s⟩ ::
      (restoreActs s b ++ ⟨.mem (.read s), i⟩ :: dmAnswerActs s sender msg x) :
        List (Prog.Act Server)) := by
  rcases x with _ | ⟨d', j'⟩
  · cases b <;> simp [restoreActs, dmAnswerActs]
  · cases b <;> cases hj : j'.alive <;> simp [restoreActs, dmAnswerActs, hj]

theorem findUser_mem_dmActs {u : String}
    (h : (⟨.mem (.findUser u), some d⟩ : Prog.Act Server) ∈ (⟨.mem (.getSession fd), some s⟩ ::
      (restoreActs s b ++ ⟨.mem (.read s), i⟩ :: dmAnswerActs s sender msg x) :
        List (Prog.Act Server))) : ∃ j, x = some (d, j) := by
  rcases x with _ | ⟨d', j'⟩
  · cases b <;> simp [restoreActs, dmAnswerActs] at h
  · refine ⟨j', ?_⟩
    cases b <;> cases hj : j'.alive <;> simp [restoreActs, dmAnswerActs, hj] at h <;> simp [h.2]

theorem read_mem_dmActs (hne : d ≠ s)
    (h : (⟨.mem (.read d), j⟩ : Prog.Act Server) ∈ (⟨.mem (.getSession fd), some s⟩ ::
      (restoreActs s b ++ ⟨.mem (.read s), i⟩ :: dmAnswerActs s sender msg x) :
        List (Prog.Act Server))) : ∃ d', x = some (d', j) := by
  rcases x with _ | ⟨d', j'⟩
  · cases b <;> simp [restoreActs, dmAnswerActs, hne] at h
  · refine ⟨d', ?_⟩
    cases b <;> cases hj : j'.alive <;> simp [restoreActs, dmAnswerActs, hj, hne] at h <;>
      rw [h.2]

end Acts

section Call

variable {cfg : Config} {p p' : State} {c : ConnId} {fd : Fd} {payload : Bytes}
  {msg : MessageDM} {s : SessionRef} {R : List (Event Server Tid)}

/-- The call of a handler that needs a registration, in any interleaving: its
first operation finds the session of its own connection. -/
theorem session_call {k : Option SessionRef → Prog Server Ctl} {ctl : Ctl}
    (h : (system cfg).Reaches Lts.Any p)
    (hprog : p.prog (.handler c) = .call (S := Server) (.mem (.getSession fd)) k)
    (hs : p.shared.mem.getSession fd = some s)
    (hrun : (system cfg).Steps (fun _ l => l ≠ .jump (.handler c)) p p')
    (hret : p'.prog (.handler c) = .ret ctl) (hlog : p'.log = p.log ++ R) :
    RegisteredOn p.log s c ∧ ¬ HasLeft p.log c ∧ ∃ l,
      Machine.ownActs (.handler c) R = ⟨.mem (.getSession fd), some s⟩ :: l ∧
        (k (some s)).Trace l (.ret ctl) := by
  obtain ⟨qs, hq⟩ := reachable_owned h
  -- The sender serves its connection when it begins.
  obtain ⟨hl, hfd⟩ := hq.allows hprog
  have hphase : qs (.handler c) = ⟨fd, .serving⟩ := by rw [← hl, hfd]
  have hlt := hq.2.1.consistent.allocated fd s hs
  have hreg : RegisteredOn p.log s c := (registeredOn_iff h s c).2
    ⟨hlt, (hq.2.1.registeredOn_eq_iff hphase hs).2 rfl⟩
  have hleft : ¬ HasLeft p.log c := fun hleft => ((hq.2.2 c).1 hleft).2 hl
  have hsock : (p'.shared.mem.heap s).socketFd = fd :=
    ((steps_later hrun).socketFd s hlt).trans (hq.2.1.consistent.socketFd fd s hs)
  -- What it does is a trace of the program.
  obtain ⟨R', hlog', htrace⟩ := handler_trace (hq.2.1.lt_nextConn (by rw [hl]; decide)) hrun
    fun _ hne => hne rfl
  obtain rfl : R' = R := List.append_cancel_left (hlog'.symm.trans hlog)
  rw [hprog, hret] at htrace
  obtain ⟨r, l, hacts, hrest⟩ := Prog.Trace.of_call (S := Server) htrace
  obtain ⟨A, B, hRA, hA, hB⟩ := Machine.ownActs_eq_cons hacts
  obtain rfl : r = some s := by
    refine getSession_event (L := p.log ++ A) (R := B) (t := .handler c) (h.steps hrun.any) ?_
      (hreg.append A) (not_hasLeft_append hleft hA) hsock
    rw [hlog, hRA, List.append_assoc]
  exact ⟨hreg, hleft, l, hacts, hrest⟩

/-- The name that a handler reads from its own session. -/
theorem read_own {i : SessionInfo} {l₁ l₂ : List (Prog.Act Server)}
    (h' : (system cfg).Reaches Lts.Any p') (hlog : p'.log = p.log ++ R)
    (hreg : RegisteredOn p.log s c)
    (hacts : Machine.ownActs (.handler c) R = l₁ ++ ⟨.mem (.read s), i⟩ :: l₂) :
    i.username = (p'.shared.mem.heap s).username := by
  obtain ⟨A, B, rfl, -, hB⟩ := Machine.ownActs_eq_append hacts
  obtain ⟨A', B', rfl, -, -⟩ := Machine.ownActs_eq_cons hB
  refine (read_event (L := p.log ++ A ++ A') (R := B') (t := .handler c) (c := c) h' ?_
    ((hreg.append A).append A')).1
  rw [hlog, List.append_assoc, List.append_assoc]

/-- The operations of a whole call, in any interleaving. -/
theorem dm_call (h : (system cfg).Reaches Lts.Any p)
    (hprog : p.prog (.handler c) = handleMessageDm cfg fd payload >>= fun _ => pure (.loop fd))
    (hparse : cfg.pb.parseMessageDM payload = some msg)
    (hs : p.shared.mem.getSession fd = some s)
    (hrun : (system cfg).Steps (fun _ l => l ≠ .jump (.handler c)) p p')
    (hret : p'.prog (.handler c) = .ret (.loop fd)) (hlog : p'.log = p.log ++ R) :
    RegisteredOn p.log s c ∧ ∃ b i x, i.username = (p'.shared.mem.heap s).username ∧
      Machine.ownActs (.handler c) R = ⟨.mem (.getSession fd), some s⟩ ::
        (restoreActs s b ++ ⟨.mem (.read s), i⟩ :: dmAnswerActs s i.username msg x) := by
  obtain ⟨hreg, -, l, hacts, htrace⟩ := session_call h hprog hs hrun hret hlog
  obtain ⟨r, l', hl, hshape⟩ := handleMessageDm_acts hparse (.cons htrace)
  cases hl
  obtain ⟨b, i, x, rfl⟩ := hshape s rfl
  refine ⟨hreg, b, i, x, ?_, hacts⟩
  have hread : Machine.ownActs (.handler c) R =
      (⟨.mem (.getSession fd), some s⟩ :: restoreActs s b) ++
        ⟨.mem (.read s), i⟩ :: dmAnswerActs s i.username msg x := hacts
  exact read_own (h.steps hrun.any) hlog hreg hread

/-- The lookup finds a session of the name, and the test of `alive` fails
exactly if its owner left in between. -/
theorem dm_lookup {t : Tid} {A B D : List (Event Server Tid)} {u : String} {d : SessionRef}
    {j : SessionInfo} (h : (system cfg).Reaches Lts.Any p)
    (hlog : p.log = A ++ ⟨t, .mem (.findUser u), some d⟩ :: (B ++ ⟨t, .mem (.read d), j⟩ :: D)) :
    (p.shared.mem.heap d).username = u ∧ ∃ c', RegisteredOn p.log d c' ∧
      (j.alive = true ↔ ¬ ∃ e ∈ B, Leaves e c') := by
  obtain ⟨c', hreg, hleft, hname⟩ := findUser_event h hlog
  have hlog' : p.log = (A ++ ⟨t, .mem (.findUser u), some d⟩ :: B) ++ ⟨t, .mem (.read d), j⟩ :: D := by
    rw [hlog, List.append_assoc, List.cons_append]
  obtain ⟨-, halive⟩ := read_event h hlog' (hreg.append _)
  refine ⟨hname, c', hlog ▸ hreg.append _, ?_⟩
  rw [halive, not_iff_not]
  constructor
  · rintro ⟨e, he, hc⟩
    rcases List.mem_append.1 he with he | he
    · exact absurd ⟨e, he, hc⟩ hleft
    · rcases List.mem_cons.1 he with rfl | he
      · obtain ⟨-, fd', hfd'⟩ := hc
        cases hfd'
      · exact ⟨e, he, hc⟩
  · rintro ⟨e, he, hc⟩
    exact ⟨e, List.mem_append_right _ (List.mem_cons_of_mem _ he), hc⟩

/-- The sender of a well-formed MessageDM is answered 202 exactly if one frame
was forwarded and 404 exactly if none was, unless the destination leaves
between the lookup and the test of `alive`, and only then.  The run goes from
where the handler begins `handle_message_dm` to where it returns. -/
theorem dm_answered_iff (h : (system cfg).Reaches Lts.Any p)
    (hprog : p.prog (.handler c) = handleMessageDm cfg fd payload >>= fun _ => pure (.loop fd))
    (hparse : cfg.pb.parseMessageDM payload = some msg)
    (hs : p.shared.mem.getSession fd = some s)
    (hrun : (system cfg).Steps (fun _ l => l ≠ .jump (.handler c)) p p')
    (hret : p'.prog (.handler c) = .ret (.loop fd)) (hlog : p'.log = p.log ++ R) :
    DmAnswered p'.shared.mem s msg (framesOf (Machine.ownActs (.handler c) R)) ↔
      ¬ DestinationLeaves p'.log R c msg.usernameDes := by
  have h' : (system cfg).Reaches Lts.Any p' := h.steps hrun.any
  obtain ⟨hreg, b, i, x, hi, hacts⟩ := dm_call h hprog hparse hs hrun hret hlog
  -- Where the lookup and the test are in the history.
  have hx : ∀ d j, x = some (d, j) → ∃ A B D,
      R = A ++ ⟨.handler c, .mem (.findUser msg.usernameDes), some d⟩ ::
        (B ++ ⟨.handler c, .mem (.read d), j⟩ :: D) := by
    rintro d j rfl
    have hsplit : Machine.ownActs (.handler c) R = (⟨.mem (.getSession fd), some s⟩ ::
        (restoreActs s b ++ [⟨.mem (.read s), i⟩])) ++
          dmAnswerActs s i.username msg (some (d, j)) := by
      rw [hacts]
      simp
    obtain ⟨A, B, rfl, -, hB⟩ := Machine.ownActs_eq_append hsplit
    obtain ⟨A', B', rfl, -, hB'⟩ := Machine.ownActs_eq_cons hB
    obtain ⟨A'', B'', rfl, -, -⟩ := Machine.ownActs_eq_cons hB'
    exact ⟨A ++ A', A'', B'', by rw [List.append_assoc]⟩
  have hlookup : ∀ A B D d j, R = A ++ ⟨.handler c, .mem (.findUser msg.usernameDes), some d⟩ ::
      (B ++ ⟨.handler c, .mem (.read d), j⟩ :: D) →
      (p'.shared.mem.heap d).username = msg.usernameDes ∧ ∃ c', RegisteredOn p'.log d c' ∧
        (j.alive = true ↔ ¬ ∃ e ∈ B, Leaves e c') := by
    rintro A B D d j rfl
    rw [← List.append_assoc] at hlog
    exact dm_lookup h' hlog
  have hname : ∀ d j, x = some (d, j) → (p'.shared.mem.heap d).username = msg.usernameDes := by
    intro d j hxd
    obtain ⟨A, B, D, hR⟩ := hx d j hxd
    exact (hlookup A B D d j hR).1
  rw [hacts, dmAnswered_acts hi hname]
  constructor
  · rintro halive ⟨A, B, D, d, j, c', hR, hc', e, he, hleave⟩
    obtain ⟨-, c'', hc'', hiff⟩ := hlookup A B D d j hR
    obtain rfl : c'' = c' := ((registeredOn_iff h' d c'').1 hc'').2.symm.trans
      ((registeredOn_iff h' d c').1 hc').2
    have hj : j.alive ≠ true := fun hj => hiff.1 hj ⟨e, he, hleave⟩
    have hfind : (⟨.mem (.findUser msg.usernameDes), some d⟩ : Prog.Act Server) ∈
        Machine.ownActs (.handler c) R := Machine.mem_ownActs (by rw [hR]; simp)
    have hread : (⟨.mem (.read d), j⟩ : Prog.Act Server) ∈
        Machine.ownActs (.handler c) R := Machine.mem_ownActs (by rw [hR]; simp)
    rw [hacts] at hfind hread
    -- The owner of `d` is another handler, since this one has not left.
    have hne : d ≠ s := by
      rintro rfl
      obtain ⟨-, hcc⟩ := (registeredOn_iff h d c).1 hreg
      have hc := (registeredOn_iff h' d c'').1 hc''
      rw [(steps_later hrun).registeredOn d ((registeredOn_iff h d c).1 hreg).1, hcc] at hc
      obtain rfl := hc.2
      obtain ⟨ht, fd', hop⟩ := hleave
      obtain ⟨t, o, r⟩ := e
      subst ht hop
      have hmemR : (⟨.handler c, .mem (.removeSession fd'), r⟩ : Event Server Tid) ∈ R := by
        rw [hR]
        simp [he]
      have hmem := Machine.mem_ownActs hmemR
      rw [hacts] at hmem
      exact removeSession_notMem_dmActs _ hmem
    obtain ⟨j', rfl⟩ := findUser_mem_dmActs hfind
    obtain ⟨d', hd'⟩ := read_mem_dmActs hne hread
    cases hd'
    exact hj (halive _ _ rfl)
  · intro hno d j hxd
    by_contra hj
    obtain ⟨A, B, D, hR⟩ := hx d j hxd
    obtain ⟨-, c', hc', hiff⟩ := hlookup A B D d j hR
    have hleave := mt hiff.2 hj
    rw [not_not] at hleave
    exact hno ⟨A, B, D, d, j, c', hR, hc', hleave⟩

end Call

/-! ## A lost message -/

/-- "a" and "b" are registered, and the handler of "a" is about to handle a
MessageDM to "b". -/
def dmSetup : List Step :=
  registerRun ++
    [.env (.accept 5 "10.0.0.2"), .env (.clientSend 1 [1, 0, 0, 0, 3, 10, 1, 98])] ++
    turn (.handler 1) 6 ++
    [.env (.clientSend 0 [3, 0, 0, 0, 7, 10, 2, 104, 105, 26, 1, 98])] ++ turn (.handler 0) 4

/-- "b" stays. -/
def dmForwarded : List Step := List.replicate 8 (.op (.handler 0) {})

/-- "b" leaves after the lookup. -/
def dmLost : List Step :=
  List.replicate 5 (.op (.handler 0) {}) ++ .env (.clientClose 1) :: turn (.handler 1) 2 ++
    turn (.handler 1) 1 ++ List.replicate 2 (.op (.handler 0) {})

/-- What is read off such a run: the handler has returned, and the frames that
it wrote. -/
def dmOutcome (frames : List (SessionRef × ServerMsg)) (p p' : State) : Bool :=
  decide (p.shared.mem.nextConn = 2) && decide (p.shared.mem.getSession 4 = some 0) &&
    decide ((p'.prog (.handler 0)).returned = some (.loop 4)) &&
    decide ((p'.shared.mem.heap 0).username = "a" ∧ (p'.shared.mem.heap 1).username = "b") &&
    decide (framesOf (Machine.ownActs (.handler 0) (p'.log.drop p.log.length)) = frames)

theorem dm_run (ls : List Step) (frames : List (SessionRef × ServerMsg))
    (hne : ∀ l ∈ ls, l ≠ .jump (.handler 0))
    (h : ((system sampleConfig).run (system sampleConfig).init dmSetup).any (fun p =>
      ((system sampleConfig).run p ls).any (dmOutcome frames p)) = true) :
    ∃ (p p' : State) (R : List (Event Server Tid)), (system sampleConfig).Reaches Lts.Any p ∧
      p.prog (.handler 0) = (handleMessageDm sampleConfig 4 [10, 2, 104, 105, 26, 1, 98] >>=
        fun _ => pure (.loop 4)) ∧
      p.shared.mem.getSession 4 = some 0 ∧
      (system sampleConfig).Steps (fun _ l => l ≠ .jump (.handler 0)) p p' ∧
      p'.prog (.handler 0) = .ret (.loop 4) ∧ p'.log = p.log ++ R ∧
      ((p'.shared.mem.heap 0).username = "a" ∧ (p'.shared.mem.heap 1).username = "b") ∧
      framesOf (Machine.ownActs (.handler 0) R) = frames := by
  rw [Option.any_eq_true] at h
  obtain ⟨p, hp, h⟩ := h
  rw [Option.any_eq_true] at h
  obtain ⟨p', hp', hq⟩ := h
  simp only [dmOutcome, Bool.and_eq_true, decide_eq_true_eq] at hq
  obtain ⟨⟨⟨⟨hconn, hget⟩, hret⟩, hnames⟩, hframes⟩ := hq
  have hrun : (system sampleConfig).Steps (fun _ l => l ≠ .jump (.handler 0)) p p' :=
    .of_run hp' fun l hl _ => hne l hl
  have hprog : ((system sampleConfig).run (system sampleConfig).init dmSetup).map
      (fun p => p.prog (.handler 0)) =
        some (handleMessageDm sampleConfig 4 [10, 2, 104, 105, 26, 1, 98] >>=
          fun _ => pure (.loop 4)) := rfl
  rw [hp] at hprog
  obtain ⟨R, hlog, -⟩ := handler_trace (c := 0) (by rw [hconn]; decide) hrun fun _ hj => hj rfl
  rw [hlog, List.drop_left] at hframes
  exact ⟨p, p', R, .of_run hp, Option.some.inj hprog, hget, hrun,
    Prog.returned_eq_some.1 hret, hlog, hnames, hframes⟩

/-- Where "b" stays, one frame is forwarded and the answer is 202. -/
theorem dm_answered_iff_forwarded :
    ∃ p p' R, (system sampleConfig).Steps (fun _ l => l ≠ .jump (.handler 0)) p p' ∧
      p'.log = p.log ++ R ∧ ¬ DestinationLeaves p'.log R 0 "b" := by
  obtain ⟨p, p', R, hp, hprog, hget, hrun, hret, hlog, ⟨ha, hb⟩, hframes⟩ :=
    dm_run dmForwarded [(1, .forDm { usernameDes := "a", message := "hi" }),
      (0, response StatusCode.OK_DM_SENT "DM sent to b" true)] (by simp [dmForwarded])
      (by decide +kernel)
  refine ⟨p, p', R, hrun, hlog, ?_⟩
  have hparse : sampleConfig.pb.parseMessageDM [10, 2, 104, 105, 26, 1, 98] =
      some ⟨"hi", .ACTIVE, "b", ""⟩ := by decide
  have hiff := dm_answered_iff hp hprog hparse hget hrun hret hlog
  refine hiff.1 ?_
  rw [hframes]
  constructor <;> simp [forwards, ha, hb, StatusCode.OK_DM_SENT, StatusCode.USER_NOT_FOUND]

/-- Where "b" leaves after the lookup, the answer is 202 and nothing is
forwarded. -/
theorem dm_confirmed_but_lost :
    ¬ ∀ (p p' : State) (c : ConnId) (fd : Fd) (payload : Bytes) (msg : MessageDM)
      (s : SessionRef) (R : List (Event Server Tid)), (system sampleConfig).Reaches Lts.Any p →
      p.prog (.handler c) = (handleMessageDm sampleConfig fd payload >>=
        fun _ => pure (.loop fd)) →
      sampleConfig.pb.parseMessageDM payload = some msg → p.shared.mem.getSession fd = some s →
      (system sampleConfig).Steps (fun _ l => l ≠ .jump (.handler c)) p p' →
      p'.prog (.handler c) = .ret (.loop fd) → p'.log = p.log ++ R →
      DmAnswered p'.shared.mem s msg (framesOf (Machine.ownActs (.handler c) R)) := by
  intro hall
  obtain ⟨p, p', R, hp, hprog, hget, hrun, hret, hlog, -, hframes⟩ :=
    dm_run dmLost [(0, response StatusCode.OK_DM_SENT "DM sent to b" true)]
      (by simp [dmLost, turn]) (by decide +kernel)
  have hans := (hall p p' 0 4 _ ⟨"hi", .ACTIVE, "b", ""⟩ 0 R hp hprog (by decide) hget hrun hret
    hlog).confirmed
  rw [hframes] at hans
  simp at hans

end SimpleChat
