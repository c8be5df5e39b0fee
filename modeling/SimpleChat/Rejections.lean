import SimpleChat.HandlerTurns
import SimpleChat.Isolation

/-!
# Requests that are refused

A request is refused with one of five codes: 400, 401, 404, 409 and 410.  All but 404
come before the handler writes to the shared state.  404 comes after the handler has
recorded the activity of its user, and in `handle_message_dm` after
`maybe_restore_activity` has restored the status.

`Handled.refused` and `Handled.notFound` read this off the list of what a handler
execution can do, and `rejections_change_nothing` states it for the handler executions
from every reachable state of the whole program.
-/

namespace SimpleChat

open Conc Function

/-- Among the frames is an unsuccessful `ServerResponse` with the code. -/
def Refuses (ws : List Written) (code : Int) : Prop :=
  ∃ via text, (⟨via, response code text false⟩ : Written) ∈ ws

theorem refuses_singleton {w : Written} {code : Int} :
    Refuses [w] code ↔ ∃ via text, w = ⟨via, response code text false⟩ := by
  unfold Refuses
  simp only [List.mem_singleton, eq_comm]

theorem refuses_reply {s : SessionRef} {code code' : Int} {text : String} {success : Bool} :
    Refuses [.reply s code' text success] code ↔ code' = code ∧ success = false := by
  rw [refuses_singleton]
  constructor
  · intro ⟨via, text', heq⟩
    have hmsg := response_inj.1 (Written.mk.inj heq).2
    exact ⟨hmsg.1, hmsg.2.2⟩
  · intro ⟨hcode, hsuccess⟩
    rw [hcode, hsuccess]
    exact ⟨some s, text, rfl⟩

theorem refuses_append {ws ws' : List Written} {code : Int} :
    Refuses (ws ++ ws') code ↔ Refuses ws code ∨ Refuses ws' code := by
  simp only [Refuses, List.mem_append, exists_or]

/-- The 603 refuses nothing. -/
theorem not_refuses_restoredNotice (m : Memory) (s : SessionRef) (code : Int) :
    ¬ Refuses (m.restoredNotice s) code := by
  unfold Memory.restoredNotice
  split
  · exact fun h => Bool.noConfusion (refuses_reply.1 h).2
  · exact fun ⟨_, _, h⟩ => (nomatch h)

/-- A delivery refuses nothing. -/
theorem not_refuses_map {targets : List SessionRef} {msg : ServerMsg} {code : Int}
    (h : ∀ text, msg ≠ response code text false) :
    ¬ Refuses (targets.map fun t => ⟨some t, msg⟩) code := by
  intro ⟨via, text, hmem⟩
  have ⟨t, _, heq⟩ := List.mem_map.1 hmem
  exact h text (Written.mk.inj heq).2

/-- The codes of the replies that come before any write to the shared state. -/
def earlyCodes : List Int :=
  [StatusCode.BAD_REQUEST, StatusCode.NOT_REGISTERED, StatusCode.USERNAME_TAKEN,
    StatusCode.IP_TAKEN]

/-- The user named in the request is not registered: the handler has restored its own
session if the request is a private message, and has recorded the activity. -/
inductive NotFound (m : Memory) (s : SessionRef) : UInt8 → List Written → Memory → Prop
  | dm (text : String) : NotFound m s MsgType.MESSAGE_DM
    (m.restoredNotice s ++ [.reply s StatusCode.USER_NOT_FOUND text false]) (m.active s)
  | userInfo (text : String) : NotFound m s MsgType.GET_USER_INFO
    [.reply s StatusCode.USER_NOT_FOUND text false] (m.touch s)

section Handled

variable {cfg : Config} {c : ConnId} {fd : Fd} {payload : Bytes} {m m' : Memory} {msgType : UInt8}
  {ws : List Written} {code : Int}

/-- Everything that a handler execution which refuses its request can do.  Before an
early code it has left the shared state as it is, and it writes one frame: bare, or
through the session of its descriptor. -/
theorem Handled.refuses (h : Handled cfg c fd payload m msgType ws m') (hr : Refuses ws code) :
    (code ∈ earlyCodes ∧ m' = m ∧
        ∃ w, ws = [w] ∧ ∀ s, w.via = some s → m.getSession fd = some s) ∨
      code = StatusCode.USER_NOT_FOUND ∧ ∃ s, m.getSession fd = some s ∧ NotFound m s msgType ws m' := by
  have hbare : ∀ {code' : Int} {text : String}, code' ∈ earlyCodes →
      Refuses [(⟨none, response code' text false⟩ : Written)] code →
      code ∈ earlyCodes ∧ m = m ∧ ∃ w, [(⟨none, response code' text false⟩ : Written)] = [w] ∧
        ∀ s, w.via = some s → m.getSession fd = some s := by
    intro code' text hcode hr
    have ⟨via, text', heq⟩ := refuses_singleton.1 hr
    rw [← (response_inj.1 (Written.mk.inj heq).2).1]
    exact ⟨hcode, rfl, _, rfl, fun s hs => (nomatch hs)⟩
  have hlocked : ∀ {s : SessionRef} {code' : Int} {text : String}, code' ∈ earlyCodes →
      m.getSession fd = some s → Refuses [.reply s code' text false] code →
      code ∈ earlyCodes ∧ m = m ∧ ∃ w, [Written.reply s code' text false] = [w] ∧
        ∀ s, w.via = some s → m.getSession fd = some s := by
    intro s code' text hcode hs hr
    rw [← (refuses_reply.1 hr).1]
    refine ⟨hcode, rfl, _, rfl, fun s' hs' => ?_⟩
    rw [← hs']
    exact hs
  have hsuccess : ∀ {s : SessionRef} {code' : Int} {text : String},
      ¬ Refuses [.reply s code' text true] code := fun h => Bool.noConfusion (refuses_reply.1 h).2
  cases h with
  | unknown _ => exact Or.inl (hbare (by decide) hr)
  | registerMalformed _ => exact Or.inl (hbare (by decide) hr)
  | registerEmpty _ _ => exact Or.inl (hbare (by decide) hr)
  | notRegistered _ _ => exact Or.inl (hbare (by decide) hr)
  | malformed hs _ => exact Or.inl (hlocked (by decide) hs hr)
  | invalidStatus hs _ _ => exact Or.inl (hlocked (by decide) hs hr)
  | @register reg peerIp hparse hname hip =>
    rcases Memory.register_cases m c fd reg.username peerIp with ⟨s, hs, he⟩ | ⟨_, _, he⟩ |
      ⟨_, _, _, he⟩ | ⟨_, _, _, he⟩
    · rw [he] at hr ⊢
      exact Or.inl (hlocked (by decide) hs hr)
    · rw [he] at hr ⊢
      exact Or.inl (hbare (by decide) hr)
    · rw [he] at hr ⊢
      exact Or.inl (hbare (by decide) hr)
    · rw [he] at hr
      exact absurd hr hsuccess
  | general _ _ _ =>
    rcases refuses_append.1 hr with hr | hr
    · exact absurd hr (not_refuses_restoredNotice _ _ _)
    · exact absurd hr (not_refuses_map fun _ heq => by cases heq)
  | dmNotFound hs _ _ =>
    rcases refuses_append.1 hr with hr | hr
    · exact absurd hr (not_refuses_restoredNotice _ _ _)
    · exact Or.inr ⟨(refuses_reply.1 hr).1.symm, _, hs, .dm _⟩
  | dm _ _ _ =>
    rcases refuses_append.1 hr with hr | hr
    · exact absurd hr (not_refuses_restoredNotice _ _ _)
    · rcases refuses_append.1 hr with hr | hr
      · split at hr
        · have ⟨_, _, heq⟩ := refuses_singleton.1 hr
          cases heq
        · have ⟨_, _, hmem⟩ := hr
          cases hmem
      · exact absurd hr hsuccess
  | changeStatus _ _ _ => exact absurd hr hsuccess
  | listUsers _ _ _ =>
    have ⟨_, _, heq⟩ := refuses_singleton.1 hr
    cases heq
  | userNotFound hs _ _ => exact Or.inr ⟨(refuses_reply.1 hr).1.symm, _, hs, .userInfo _⟩
  | userInfo _ _ _ =>
    have ⟨_, _, heq⟩ := refuses_singleton.1 hr
    cases heq
  | quitSilent _ =>
    have ⟨_, _, hmem⟩ := hr
    cases hmem
  | quit _ _ => exact absurd hr hsuccess

end Handled

/-! ## Where the replies go -/

/-- A frame that the operation writes without a session goes to `fd`. -/
def BareOn (fd : Fd) : ServerOp → Prop
  | .sendBare fd' _ => fd' = fd
  | .register fd' _ _ => fd' = fd
  | _ => True

theorem handleClient_bareOn (cfg : Config) (fd : Fd) : (handleClient cfg fd).Only (BareOn fd) := by
  simp only [handleClient, mem_eq, Prog.call_bind, Prog.ret_bind, Prog.only_call]
  refine ⟨trivial, fun running => ?_⟩
  split
  · trivial
  · refine (recvMessage_only fd (BareOn fd) fun _ => trivial).bind fun frame => ?_
    match frame with
    | none => trivial
    | some (msgType, payload) =>
      refine ⟨trivial, fun _ => ?_⟩
      rw [dispatch_eq]
      refine ((handleFrame_serves cfg fd payload msgType).mono fun o ho => ?_).bind fun _ => trivial
      match o, ho with
      | .mem _, _ => exact trivial
      | .sendBare _ _, ho => exact ho
      | .sendLocked _ _, _ => exact trivial
      | .register _ _ _, ho => exact ho.1

section Out

variable {cfg : Config} {t : Tid} {w w' : World} {fd : Fd} {d : ConnId}

theorem write_out_of_ne (w : World) (via : Option SessionRef) (msg : ServerMsg)
    (h : w.mem.fds fd ≠ some d) : (w.write fd via msg).out d = w.out d := by
  rw [World.write]
  split
  · rfl
  · rename_i c hc
    refine update_of_ne ?_ _ _
    rintro rfl
    exact h hc

/-- An operation that writes to `fd`, or through sessions that have it, writes nothing
to a connection that is not open under it. -/
theorem exec_out_of_ne {o : ServerOp} {ch : Choice} {r : o.Resp}
    (he : w.exec cfg t o ch = some (r, w')) (hbare : BareOn fd o)
    (hvia : ∀ x ∈ writtenBy [⟨o, r⟩], ∀ s, x.via = some s → (w'.mem.heap s).socketFd = fd)
    (hd : w'.mem.fds fd ≠ some d) : w'.out d = w.out d := by
  cases o with
  | mem o =>
    have ⟨_, _, hx⟩ := Option.map_eq_some_iff.1 he
    cases hx
    rfl
  | sendBare fd' msg =>
    cases he
    rw [World.write_mem] at hd
    exact write_out_of_ne w none msg (show w.mem.fds fd' ≠ some d from hbare ▸ hd)
  | sendLocked s msg =>
    cases he
    have hfd := hvia ⟨some s, msg⟩ List.mem_cons_self s rfl
    rw [World.write_mem] at hfd hd
    exact write_out_of_ne w (some s) msg (hfd ▸ hd)
  | register fd' u a =>
    cases t with
    | watchdog => cases he
    | handler c =>
      have ⟨hr, hw'⟩ := World.exec_register.1 he
      have hmem : w'.mem = (w.mem.register c fd' u a).2 := by
        rw [hw', World.reply_mem]
      rw [hmem] at hd
      rw [hw', World.reply]
      split
      · exact write_out_of_ne _ none _ (show _ ≠ _ from hbare ▸ hd)
      · rename_i s hs
        have hfd := hvia ⟨some s, (registerReply u a r).2⟩ (by
          rw [← hs]
          exact List.mem_cons_self) s rfl
        rw [hmem] at hfd
        exact write_out_of_ne _ (some s) _ (hfd ▸ hd)

/-- A program that writes to `fd`, or through sessions that have it. -/
theorem runs_out_of_ne {α : Type} {q : Prog Server α} {l : List (Prog.Act Server)} {a : α}
    (h : (machine cfg).Runs t q w l a w') (hbare : ∀ x ∈ l, BareOn fd x.1)
    (hvia : ∀ x ∈ writtenBy l, ∀ s, x.via = some s →
      s < w.mem.nextRef ∧ (w.mem.heap s).socketFd = fd)
    (hd : w.mem.fds fd ≠ some d) : w'.out d = w.out d := by
  induction h with
  | ret a w => rfl
  | @call o k w w₁ w' r l a ch he hk ih =>
    have hsplit : writtenBy (⟨o, r⟩ :: l) = writtenBy [⟨o, r⟩] ++ writtenBy l :=
      writtenBy_append [⟨o, r⟩] l
    rw [hsplit] at hvia
    have hlater := exec_later he
    have hkept : ∀ s, s < w.mem.nextRef ∧ (w.mem.heap s).socketFd = fd →
        s < w₁.mem.nextRef ∧ (w₁.mem.heap s).socketFd = fd := fun s hs =>
      ⟨Nat.lt_of_lt_of_le hs.1 hlater.nextRef, (hlater.socketFd s hs.1).trans hs.2⟩
    have hd₁ : w₁.mem.fds fd ≠ some d := by
      rcases (exec_descriptors he).2 with hsame | ⟨fd', _, hclose⟩
      · rw [hsame]
        exact hd
      · rw [hclose]
        by_cases hfd : fd = fd'
        · rw [hfd, update_self]
          exact fun hx => (nomatch hx)
        · rw [update_of_ne hfd]
          exact hd
    have hone : w₁.out d = w.out d :=
      exec_out_of_ne he (hbare _ List.mem_cons_self)
        (fun x hx s hs => (hkept s (hvia x (List.mem_append_left _ hx) s hs)).2) hd₁
    have hrest := ih (fun x hx => hbare x (List.mem_cons_of_mem _ hx))
      (fun x hx s hs => hkept s (hvia x (List.mem_append_right _ hx) s hs)) hd₁
    exact hrest.trans hone

end Out

/-! ## Handler executions -/

/-- The memory differs from `m` in the time of the last activity of `s` at most, or
in its status as well: `maybe_restore_activity` has set both fields to ACTIVE. -/
def OnlyTouched (m m' : Memory) (s : SessionRef) (restored : Bool) : Prop :=
  m'.registry = m.registry ∧ (∀ t, t ≠ s → m'.heap t = m.heap t) ∧
    m'.heap s = if restored then
      { m.heap s with status := .ACTIVE, manualStatus := .ACTIVE, lastActivity := m.clock }
    else { m.heap s with lastActivity := m.clock }

theorem onlyTouched_touch (m : Memory) (s : SessionRef) : OnlyTouched m (m.touch s) s false :=
  ⟨rfl, fun _ ht => update_of_ne ht _ _, update_self _ _ _⟩

theorem onlyTouched_active (m : Memory) (s : SessionRef) :
    OnlyTouched m (m.active s) s (Memory.autoInactive (m.heap s)) := by
  unfold Memory.active Memory.restore
  split
  · rename_i hauto
    rw [hauto]
    refine ⟨rfl, fun t ht => ?_, ?_⟩
    · simp [Memory.touch, Memory.modify, ht]
    · simp [Memory.touch, Memory.modify]
  · rename_i hauto
    rw [Bool.eq_false_of_not_eq_true hauto]
    exact onlyTouched_touch m s

/-- For each handler execution from a reachable state of the whole program: if it
refuses its frame with an early code, the registry and the sessions are what they were,
and no other connection is written to.  If it refuses it with 404, the registry and the
other sessions are what they were, and so is its own session, but for the time of the
last activity, and but for the status if the session was auto-inactive and the frame is
a private message; then a 603 precedes the 404. -/
theorem rejections_change_nothing {cfg : Config} {p : RunState} {c : ConnId} {fd : Fd}
    {l : List (Prog.Act Server)} {ctl : Ctl} {w' : World}
    (h : (runSystem cfg).Reaches Lts.Any p)
    (hat : p.prog (.server (.handler c)) = .ret (.server (.loop fd)))
    (hruns : (machine cfg).Runs (.handler c) (handleClient cfg fd) p.shared.base l ctl w') :
    (∀ code ∈ earlyCodes, Refuses (writtenBy l) code →
      w'.mem.registry = p.shared.mem.registry ∧ w'.mem.heap = p.shared.mem.heap ∧
        ∀ d, d ≠ c → w'.out d = p.shared.base.out d) ∧
    (Refuses (writtenBy l) StatusCode.USER_NOT_FOUND →
      ∃ s text restored, p.shared.mem.getSession fd = some s ∧
        p.shared.mem.registeredOn s = c ∧ OnlyTouched p.shared.mem w'.mem s restored ∧
        (restored = true → Memory.autoInactive (p.shared.mem.heap s) = true ∧
          (∃ payload, dispatchedBy l = [(MsgType.MESSAGE_DM, payload)]) ∧
          writtenBy l = [.reply s StatusCode.STATUS_RESTORED
            "Status restored to ACTIVO after inactivity period" true,
            .reply s StatusCode.USER_NOT_FOUND text false])) := by
  obtain ⟨qs, hobeys, hsound, hreg⟩ := reachable_registered h
  have hphase : phasesOf qs c = ⟨fd, .serving⟩ := by
    have hpost := hobeys (.server (.handler c))
    rw [hat] at hpost
    exact hpost
  have hstarted : p.shared.started c = true := by
    by_contra hnot
    have hrests := hsound.rests c (Bool.eq_false_of_not_eq_true hnot)
    rw [hat] at hrests
    cases hrests
  obtain ⟨hc, hserves⟩ := hsound.handlers.started c hstarted
  have hlife : (phasesOf qs c).life ≠ .closed := by
    rw [hphase]
    intro hclosed
    cases hclosed
  have hfd : (p.shared.mem.conns c).fd = fd := hserves.symm.trans (congrArg Phase.fd hphase)
  have hsession : ∀ s, p.shared.mem.getSession fd = some s → s < p.shared.mem.nextRef ∧
      (p.shared.mem.heap s).socketFd = fd ∧ p.shared.mem.registeredOn s = c := fun s hs =>
    ⟨hreg.consistent.allocated fd s hs, hreg.consistent.socketFd fd s hs,
      hreg.owner_eq hc hlife hfd hs⟩
  have hnone : ¬ ∃ code, Refuses [] code := by
    rintro ⟨_, _, _, hmem⟩
    cases hmem
  cases handleClient_runs hruns with
  | lost _ hwritten _ | cleanup _ hwritten _ =>
    rw [hwritten]
    exact ⟨fun code _ hr => absurd ⟨code, hr⟩ hnone, fun hr => absurd ⟨_, hr⟩ hnone⟩
  | @handled m₁ msgType payload hm hdispatched hhandled =>
    have hheap : m₁.heap = p.shared.mem.heap := by rw [hm.eq]
    have hclock : m₁.clock = p.shared.mem.clock := by rw [hm.eq]
    have hget : m₁.getSession fd = p.shared.mem.getSession fd := by
      unfold Memory.getSession
      rw [hm.frame.registry]
    refine ⟨fun code hcode hr => ?_, fun hr => ?_⟩
    · rcases hhandled.refuses hr with ⟨_, hw', w, hwritten, hvia⟩ | ⟨hcode', _⟩
      · refine ⟨by rw [hw', hm.frame.registry], by rw [hw', hheap], fun d hd => ?_⟩
        refine runs_out_of_ne hruns (hruns.only (handleClient_bareOn cfg fd))
          (fun x hx s hs => ?_) fun hopen => hd (hreg.opened_eq hc hlife hfd hopen)
        rw [hwritten, List.mem_singleton] at hx
        obtain ⟨hlt, hsocket, _⟩ := hsession s (hget.symm.trans (hvia s (hx ▸ hs)))
        exact ⟨hlt, hsocket⟩
      · rw [hcode'] at hcode
        exact absurd hcode (by decide)
    · rcases hhandled.refuses hr with ⟨hcode, _⟩ | ⟨_, s, hs, hnotFound⟩
      · exact absurd hcode (by decide)
      · have hs' : p.shared.mem.getSession fd = some s := hget.symm.trans hs
        have howner := (hsession s hs').2.2
        -- The bytes that were received change no session.
        have htouched : ∀ {m' : Memory} {restored : Bool}, OnlyTouched m₁ m' s restored →
            OnlyTouched p.shared.mem m' s restored := by
          rintro m' restored ⟨hregistry, hothers, hown⟩
          rw [hheap] at hothers hown
          rw [hclock] at hown
          exact ⟨hregistry.trans hm.frame.registry, hothers, hown⟩
        rw [hdispatched]
        generalize writtenBy l = ws at hnotFound ⊢
        generalize w'.mem = m' at hnotFound ⊢
        cases hnotFound with
        | dm text =>
          refine ⟨s, text, _, hs', howner, htouched (onlyTouched_active m₁ s), fun hauto => ?_⟩
          refine ⟨by rw [← hheap]; exact hauto, ⟨payload, rfl⟩, ?_⟩
          rw [Memory.restoredNotice, if_pos hauto]
          rfl
        | userInfo text =>
          exact ⟨s, text, false, hs', howner, htouched (onlyTouched_touch m₁ s),
            fun hx => by cases hx⟩

/-- "a" registers and is marked by the watchdog, and sends a private message to "b", whom
nobody has registered as.  A second client asks for the name "a". -/
def strangerRun : List RunStep :=
  [.jump .main, .op .main {}, .op .main { conn := some (4, "10.0.0.1") }, .op .main {},
    .op .main {}, .env (.start 0), .env (.net (.clientSend 0 [1, 0, 0, 0, 3, 10, 1, 97])),
    .jump (.server (.handler 0))] ++
  List.replicate 6 (.op (.server (.handler 0)) { want := 100 }) ++
  [.env (.net (.tick 180000000000)), .jump (.server .watchdog)] ++
  List.replicate 5 (.op (.server .watchdog) { order := [4] }) ++
  [.env (.net (.clientSend 0 [3, 0, 0, 0, 7, 10, 2, 104, 105, 26, 1, 98])),
    .jump .main, .op .main {}, .op .main { conn := some (5, "10.0.0.2") }, .op .main {},
    .op .main {}, .env (.start 1), .env (.net (.clientSend 1 [1, 0, 0, 0, 3, 10, 1, 97]))]

/-- The 409 for the second client leaves the session of "a" alone, and the 404 for "a"
brings it back. -/
theorem rejections_change_nothing_stranger :
    ∃ p l ctl w l' ctl' w', (runSystem sampleConfig).Reaches Lts.Any p ∧
      p.shared.mem.getSession 4 = some 0 ∧ Memory.autoInactive (p.shared.mem.heap 0) = true ∧
      (machine sampleConfig).Runs (.handler 1) (handleClient sampleConfig 5) p.shared.base l ctl w ∧
      Refuses (writtenBy l) StatusCode.USERNAME_TAKEN ∧
      (w.mem.registry = p.shared.mem.registry ∧ w.mem.heap = p.shared.mem.heap ∧
        w.out 0 = p.shared.base.out 0) ∧
      (machine sampleConfig).Runs (.handler 0) (handleClient sampleConfig 4) p.shared.base l' ctl' w' ∧
      Refuses (writtenBy l') StatusCode.USER_NOT_FOUND ∧
      OnlyTouched p.shared.mem w'.mem 0 true := by
  have hrun : ((runSystem sampleConfig).run (runSystem sampleConfig).init strangerRun).any
      (fun p => decide ((p.prog (.server (.handler 0))).returned = some (.server (.loop 4)) ∧
          (p.prog (.server (.handler 1))).returned = some (.server (.loop 5)) ∧
          p.shared.mem.getSession 4 = some 0 ∧ (p.shared.mem.heap 0).status = .INVISIBLE ∧
          Memory.autoInactive (p.shared.mem.heap 0) = true) &&
        ((machine sampleConfig).runAlone (.handler 1) (List.replicate 6 { want := 100 })
          (handleClient sampleConfig 5) p.shared.base).any (fun x => decide (writtenBy x.1 =
            [⟨none, response StatusCode.USERNAME_TAKEN "Username 'a' is already taken" false⟩])) &&
        ((machine sampleConfig).runAlone (.handler 0) (List.replicate 11 { want := 100 })
          (handleClient sampleConfig 4) p.shared.base).any fun x => decide (writtenBy x.1 =
            [.reply 0 StatusCode.STATUS_RESTORED
              "Status restored to ACTIVO after inactivity period" true,
              .reply 0 StatusCode.USER_NOT_FOUND "User 'b' not found" false] ∧
            (x.2.2.mem.heap 0).status = .ACTIVE)) = true := by
    decide +kernel
  rw [Option.any_eq_true] at hrun
  have ⟨p, hp, hfacts⟩ := hrun
  simp only [Bool.and_eq_true, decide_eq_true_eq, Option.any_eq_true, Prog.returned_eq_some] at hfacts
  obtain ⟨⟨⟨hat, hat', hget, hstatus, hauto⟩, ⟨l, ctl, w⟩, hx, hwritten⟩, ⟨l', ctl', w'⟩, hx',
    hwritten', hback⟩ := hfacts
  have hreach : (runSystem sampleConfig).Reaches Lts.Any p := .of_run hp
  have hruns := Machine.runAlone_runs hx
  have hruns' := Machine.runAlone_runs hx'
  have htaken : Refuses (writtenBy l) StatusCode.USERNAME_TAKEN := by
    rw [hwritten]
    exact refuses_singleton.2 ⟨_, _, rfl⟩
  have hnotFound : Refuses (writtenBy l') StatusCode.USER_NOT_FOUND := by
    rw [hwritten']
    exact ⟨_, _, List.mem_cons_of_mem _ List.mem_cons_self⟩
  obtain ⟨hearly, -⟩ := rejections_change_nothing hreach hat' hruns
  obtain ⟨hregistry, hheap, hout⟩ := hearly _ (by decide) htaken
  obtain ⟨-, hlate⟩ := rejections_change_nothing hreach hat hruns'
  obtain ⟨s, text, restored, hs, -, htouched, -⟩ := hlate hnotFound
  cases hget.symm.trans hs
  have hrestored : restored = true := by
    cases restored with
    | true => rfl
    | false =>
      have hown : w'.mem.heap 0 = _ := htouched.2.2
      rw [hown] at hback
      cases hback.symm.trans hstatus
  subst hrestored
  exact ⟨p, l, ctl, w, l', ctl', w', hreach, hget, hauto, hruns, htaken,
    ⟨hregistry, hheap, hout 0 (by decide)⟩, hruns', hnotFound, htouched⟩

end SimpleChat
