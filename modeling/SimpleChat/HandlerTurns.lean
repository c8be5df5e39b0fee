import SimpleChat.HandleClient
import SimpleChat.Handling

/-!
# The server a turn at a time

`turnSystem` is the server in which each handler execution, with the `recv` calls
that read its frame, and each scan of the watchdog is one step.  Its runs are
runs of `system`, so that every invariant of the server holds of them.

`handler_turn` and `watchdog_turn` say everything that such a step does: to the
shared state, to the frames that are written, and to the frames that are
dispatched.
-/

namespace SimpleChat

open Conc Function

/-- The server whose threads take their turns in one step. -/
def turnSystem (cfg : Config) : Lts State (TurnLabel Tid Choice Env) :=
  (machine cfg).toTurns ⟨.init, fun _ => []⟩ fun
    | .watchdog => .watchdog
    | .handler _ => .ended

section Reach

variable {cfg : Config} {C : State → TurnLabel Tid Choice Env → Prop} {p : State}

theorem reaches_system (h : (turnSystem cfg).Reaches C p) : (system cfg).Reaches Lts.Any p :=
  Machine.reaches_of_turns h

theorem turn_running (h : (turnSystem cfg).Reaches C p) : p.shared.mem.running = true := by
  have ⟨_, _, hread⟩ := reachable_allRead (reaches_system h)
  exact hread.running

/-- Where a handler stands between two turns, and the phase it is in there. -/
theorem handler_at (h : (turnSystem cfg).Reaches C p) (c : ConnId) :
    ∃ qs, Owned p qs ∧
      ((∃ fd, p.prog (.handler c) = .ret (.loop fd) ∧ qs (.handler c) = ⟨fd, .serving⟩) ∨
        (∃ fd, p.prog (.handler c) = .ret (.cleanup fd) ∧ qs (.handler c) = ⟨fd, .serving⟩) ∨
        p.prog (.handler c) = .ret .ended) := by
  have ⟨qs, hown⟩ := reachable_owned (reaches_system h)
  have ⟨ctl, hctl⟩ := Machine.atControl h (.handler c)
  have hphase : PhaseAt (.handler c) ctl (qs (.handler c)) := by
    have hobeys := hown.1 (.handler c)
    rw [hctl] at hobeys
    exact hobeys
  refine ⟨qs, hown, ?_⟩
  cases ctl with
  | loop fd => exact Or.inl ⟨fd, hctl, hphase⟩
  | cleanup fd => exact Or.inr (Or.inl ⟨fd, hctl, hphase⟩)
  | watchdog => exact hphase.elim
  | ended => exact Or.inr (Or.inr hctl)

end Reach

/-! ## What a turn does -/

/-- The frames that operations dispatch. -/
def dispatchedBy (l : List (Prog.Act Server)) : List (UInt8 × Bytes) :=
  l.filterMap fun a =>
    match a.1 with
    | .mem (.dispatch msgType payload) => some (msgType, payload)
    | _ => none

theorem dispatchedBy_append (l l' : List (Prog.Act Server)) :
    dispatchedBy (l ++ l') = dispatchedBy l ++ dispatchedBy l' := List.filterMap_append

/-- The events of a turn of a handler dispatch the frames of its operations. -/
theorem dispatched_turn (c d : ConnId) (l : List (Prog.Act Server)) :
    dispatched c (l.map fun a => (⟨.handler d, a.1, a.2⟩ : Event Server Tid)) =
      if d = c then dispatchedBy l else [] := by
  unfold dispatched dispatchedBy
  rw [List.filterMap_map]
  split
  · rename_i heq
    refine List.filterMap_congr fun a _ => ?_
    match a with
    | ⟨.mem o, _⟩ => cases o <;> simp [heq]
    | ⟨.sendBare _ _, _⟩ => rfl
    | ⟨.sendLocked _ _, _⟩ => rfl
    | ⟨.register _ _ _, _⟩ => rfl
  · rename_i hne
    refine List.filterMap_eq_nil_iff.2 fun a _ => ?_
    match a with
    | ⟨.mem o, _⟩ => cases o <;> simp [hne]
    | ⟨.sendBare _ _, _⟩ => rfl
    | ⟨.sendLocked _ _, _⟩ => rfl
    | ⟨.register _ _ _, _⟩ => rfl

/-- The events of a turn of the watchdog dispatch nothing. -/
theorem dispatched_scan (c : ConnId) (l : List (Prog.Act Server)) :
    dispatched c (l.map fun a => (⟨.watchdog, a.1, a.2⟩ : Event Server Tid)) = [] := by
  unfold dispatched
  rw [List.filterMap_map]
  exact List.filterMap_eq_nil_iff.2 fun _ _ => rfl

/-- The memory after bytes have moved between the client and the handler. -/
structure Memory.Received (m m' : Memory) : Prop where
  eq : m' = { m with conns := m'.conns }
  frame : m.Frame m'

/-- Everything the turn of a handler can do, by its operations. -/
inductive HandlerTurn (cfg : Config) (c : ConnId) (fd : Fd) (m : Memory)
    (l : List (Prog.Act Server)) (m' : Memory) : Prop
  /-- It received no frame, and goes to the label `cleanup`. -/
  | lost (hm : m.Received m') (hwritten : writtenBy l = []) (hdispatched : dispatchedBy l = [])
  /-- It ran the cleanup. -/
  | cleanup (hm : m' = (m.removeSession fd).close fd) (hwritten : writtenBy l = [])
    (hdispatched : dispatchedBy l = [])
  /-- It received a frame and handled it. -/
  | handled {m₁ : Memory} {msgType : UInt8} {payload : Bytes} (hm : m.Received m₁)
    (hdispatched : dispatchedBy l = [(msgType, payload)])
    (h : Handled cfg c fd payload m₁ msgType (writtenBy l) m')

/-- The 602 of the watchdog. -/
def autoInactiveNotice (cfg : Config) : ServerMsg :=
  response StatusCode.AUTO_INACTIVE
    ("You have been marked INACTIVO due to inactivity (" ++ toString cfg.idleTimeoutSec ++ "s)")
    true

/-- What a scan of the watchdog does. -/
structure Scan (cfg : Config) (m : Memory) (l : List (Prog.Act Server)) (m' : Memory)
    (order : List Fd) : Prop where
  iterates : m.IterationOrder order
  written : writtenBy l = (Memory.markIdle cfg.idleTimeoutSec m.clock (m.visited order) m).1.map
    fun s => ⟨some s, autoInactiveNotice cfg⟩
  dispatched : dispatchedBy l = []
  mem : m' = (Memory.markIdle cfg.idleTimeoutSec m.clock (m.visited order) m).2

theorem Memory.Received.refl (m : Memory) : m.Received m := ⟨rfl, .refl m⟩

theorem Memory.Received.trans {m m' m'' : Memory} (h : m.Received m') (h' : m'.Received m'') :
    m.Received m'' := by
  refine ⟨?_, h.frame.trans h'.frame⟩
  rw [h'.eq, h.eq]

/-- An operation that touches nothing but the history. -/
def Silent : ServerOp → Prop
  | .mem (.dispatch _ _) => False
  | .mem _ => True
  | _ => False

theorem silent_acts {l : List (Prog.Act Server)} (h : ∀ x ∈ l, Silent x.1) :
    writtenBy l = [] ∧ dispatchedBy l = [] := by
  refine ⟨List.filterMap_eq_nil_iff.2 fun x hx => ?_, List.filterMap_eq_nil_iff.2 fun x hx => ?_⟩
  · match x, h x hx with
    | ⟨.mem _, _⟩, _ => rfl
  · have hs := h x hx
    revert hs
    match x with
    | ⟨.mem o, _⟩ =>
      intro hs
      cases o with
      | dispatch => exact hs.elim
      | _ => rfl
    | ⟨.sendBare _ _, _⟩ => exact fun hs => hs.elim
    | ⟨.sendLocked _ _, _⟩ => exact fun hs => hs.elim
    | ⟨.register _ _ _, _⟩ => exact fun hs => hs.elim

/-- What the handler of a frame performs dispatches nothing. -/
theorem serves_dispatches_nothing {fd : Fd} {l : List (Prog.Act Server)}
    (h : ∀ x ∈ l, ServesOp fd x.1) : dispatchedBy l = [] := by
  refine List.filterMap_eq_nil_iff.2 fun x hx => ?_
  have hs := h x hx
  revert hs
  match x with
  | ⟨.mem o, _⟩ =>
    intro hs
    cases o with
    | dispatch => exact hs.elim
    | _ => rfl
  | ⟨.sendBare _ _, _⟩ => exact fun _ => rfl
  | ⟨.sendLocked _ _, _⟩ => exact fun _ => rfl
  | ⟨.register _ _ _, _⟩ => exact fun _ => rfl

section Turns

variable {cfg : Config} {t : Tid} {fd : Fd} {w w' : World} {l : List (Prog.Act Server)}

theorem received_recv {m m' : Memory} {len want : Nat} {r : Option {bs : Bytes // bs.length ≤ len}}
    (h : m.recv fd len want = some (r, m')) : m.Received m' := by
  refine ⟨?_, Memory.frame_recv h⟩
  rcases Memory.recv_cases h with ⟨_, _, he⟩ | ⟨_, _, _, _, _, he⟩ | ⟨_, _, _, _, _, _, he⟩
  · rw [he]
  · rw [he]
  · rw [he]
    rfl

/-- Receiving a frame. -/
theorem recvMessage_runs {r : Option (UInt8 × Bytes)}
    (h : (machine cfg).Runs t ((recvMessage fd).lift recvEmbedding) w l r w') :
    w.mem.Received w'.mem ∧ writtenBy l = [] ∧ dispatchedBy l = [] := by
  have hreads := liftedRecv_reads fd
  let M : Prog.Monitor Server Unit :=
    ⟨fun _ o => ∃ len, o = .mem (.recv fd len), fun _ _ _ _ => True⟩
  have hobeys : ((recvMessage fd).lift recvEmbedding).Obeys M (fun _ q => q = ()) () :=
    hreads.obeys (fun _ ho => ho) fun _ _ _ => trivial
  have ⟨_, _, hreceived⟩ := h.obeys (R := fun _ u => w.mem.Received u.mem) ?_ hobeys (.refl _)
  · refine ⟨hreceived, silent_acts fun x hx => ?_⟩
    have ⟨len, hlen⟩ := h.only hreads x hx
    rw [hlen]
    trivial
  · intro _ u o ch r u' _ hu ⟨len, hlen⟩ he _
    subst hlen
    change (u.mem.exec cfg.idleTimeoutSec (.recv fd len) ch).map _ = _ at he
    rw [Option.map_eq_some_iff] at he
    have ⟨⟨r', m'⟩, hexec, hx⟩ := he
    cases hx
    exact hu.trans (received_recv hexec)

/-- One turn of the loop of `handle_client`. -/
theorem handleClient_runs {c : ConnId} {ctl : Ctl}
    (h : (machine cfg).Runs (.handler c) (handleClient cfg fd) w l ctl w') :
    HandlerTurn cfg c fd w.mem l w'.mem := by
  simp only [handleClient, mem_eq, Prog.call_bind, Prog.ret_bind] at h
  obtain ⟨_, running, w₁, l₁, he, hl, hk⟩ := h.of_call
  cases he
  rw [hl]
  split at hk
  · obtain ⟨hnil, _, hw⟩ := hk.of_ret
    rw [hw, hnil]
    exact .lost (.refl _) rfl rfl
  · obtain ⟨frame, w₂, l₂, l₃, hl₁, hrecv, hk⟩ := hk.of_bind
    obtain ⟨hreceived, hwritten, hdispatched⟩ := recvMessage_runs hrecv
    rw [hl₁]
    cases frame with
    | none =>
      obtain ⟨hnil, _, hw⟩ := hk.of_ret
      rw [hw, hnil, List.append_nil]
      exact .lost hreceived hwritten hdispatched
    | some f =>
      obtain ⟨msgType, payload⟩ := f
      obtain ⟨_, _, w₃, l₄, he, hl₃, hk⟩ := hk.of_call
      cases he
      rw [dispatch_eq] at hk
      obtain ⟨_, w₄, l₅, l₆, hl₄, hframe, hret⟩ := hk.of_bind
      obtain ⟨hnil, _, hw⟩ := hret.of_ret
      have hserves := serves_dispatches_nothing
        (hframe.only (handleFrame_serves cfg fd payload msgType))
      have hhandled := handled_of_runs hframe
      rw [hl₃, hl₄, hnil, List.append_nil, hw]
      refine @HandlerTurn.handled cfg c fd _ _ _ _ msgType payload hreceived ?_ ?_
      · show dispatchedBy (l₂ ++ ⟨.mem (.dispatch msgType payload), ()⟩ :: l₅) = _
        rw [dispatchedBy_append, hdispatched]
        show (msgType, payload) :: dispatchedBy l₅ = _
        rw [hserves]
      · show Handled _ _ _ _ _ _ (writtenBy (l₂ ++ ⟨.mem (.dispatch msgType payload), ()⟩ :: l₅)) _
        rw [writtenBy_append, hwritten]
        exact hhandled

theorem handleClientCleanup_runs {c : ConnId} {ctl : Ctl}
    (h : (machine cfg).Runs (.handler c) (handleClientCleanup fd) w l ctl w') :
    HandlerTurn cfg c fd w.mem l w'.mem := by
  have ⟨_, _, w₁, l₁, he, hl, hk⟩ := h.of_call
  cases he
  have ⟨_, _, w₂, l₂, he, hl₁, hk⟩ := hk.of_call
  cases he
  have ⟨hnil, _, hw⟩ := hk.of_ret
  rw [hl, hl₁, hnil, hw]
  exact .cleanup rfl rfl rfl

/-- The operations of one turn of the loop of `watchdog_loop`, while the server runs. -/
theorem watchdogLoop_acts {ctl : Ctl} (hrunning : w.mem.running = true)
    (h : (machine cfg).Runs t (watchdogLoop cfg) w l ctl w') :
    ctl = .watchdog ∧ ∃ order l₂, w.mem.IterationOrder order ∧
      l = [⟨.mem .running, true⟩, ⟨.mem .running, true⟩, ⟨.mem .now, w.mem.clock⟩,
        ⟨.mem (.markIdle w.mem.clock),
          (Memory.markIdle cfg.idleTimeoutSec w.mem.clock (w.mem.visited order) w.mem).1⟩] ++ l₂ ∧
      writtenBy l₂ = (Memory.markIdle cfg.idleTimeoutSec w.mem.clock (w.mem.visited order) w.mem).1.map
        (fun s => ⟨some s, autoInactiveNotice cfg⟩) ∧
      dispatchedBy l₂ = [] ∧
      w'.mem = (Memory.markIdle cfg.idleTimeoutSec w.mem.clock (w.mem.visited order) w.mem).2 := by
  simp only [watchdogLoop, mem_eq, Prog.call_bind, Prog.ret_bind] at h
  obtain ⟨_, r, w₁, l₁, he, hl, hk⟩ := h.of_call
  cases he
  rw [hl, hrunning]
  split at hk
  · rename_i hstop
    rw [hrunning] at hstop
    cases hstop
  obtain ⟨_, r₂, w₂, l₂, he, hl₁, hk⟩ := hk.of_call
  cases he
  rw [hl₁, hrunning]
  dsimp only [Prog.ret_bind] at hk
  split at hk
  · rename_i hstop
    rw [hrunning] at hstop
    cases hstop
  obtain ⟨_, now, w₃, l₃, he, hl₂, hk⟩ := hk.of_call
  cases he
  obtain ⟨ch, marked, w₄, l₄, he, hl₃, hk⟩ := hk.of_call
  change ((if w.mem.IterationOrder ch.order then _ else _ : Option _).map _) = _ at he
  split at he
  · rename_i horder
    cases he
    obtain ⟨_, w₅, l₅, l₆, hl₄, hsends, hret⟩ := hk.of_bind
    obtain ⟨hnil, hctl, hw⟩ := hret.of_ret
    obtain ⟨hwritten, hmem⟩ := runs_sendEach hsends
    have hsilent : dispatchedBy l₅ = [] := by
      have hserves : ∀ x ∈ l₅, ServesOp 0 x.1 := by
        intro x hx
        have honly := hsends.only (P := fun o : ServerOp => ∃ s msg, o = .sendLocked s msg)
          (Prog.Only.forM fun s _ => .perform ⟨_, _, rfl⟩) x hx
        obtain ⟨s, msg, hop⟩ := honly
        rw [hop]
        trivial
      exact serves_dispatches_nothing hserves
    rw [hl₂, hl₃, hl₄, hnil, List.append_nil, hw]
    exact ⟨hctl, ch.order, l₅, horder, rfl, hwritten, hsilent, hmem⟩
  · cases he

/-- One turn of the loop of `watchdog_loop`, while the server runs. -/
theorem watchdogLoop_runs {ctl : Ctl} (hrunning : w.mem.running = true)
    (h : (machine cfg).Runs t (watchdogLoop cfg) w l ctl w') :
    ctl = .watchdog ∧ ∃ order, Scan cfg w.mem l w'.mem order := by
  have ⟨hctl, order, l₂, horder, hl, hwritten, hdispatched, hmem⟩ := watchdogLoop_acts hrunning h
  refine ⟨hctl, order, horder, ?_, ?_, hmem⟩
  · rw [hl, writtenBy_append]
    exact hwritten
  · rw [hl, dispatchedBy_append]
    exact hdispatched

end Turns

/-! ## The steps -/

section Steps

variable {cfg : Config} {C : State → TurnLabel Tid Choice Env → Prop} {p p' : State}

/-- Everything the turn of a handler can do. -/
theorem handler_turn (h : (turnSystem cfg).Reaches C p) {c : ConnId} {chs : List Choice}
    (hs : (turnSystem cfg).step p (.turn (.handler c) chs) = some p') :
    ∃ l, p'.log = p.log ++ l.map (fun a => ⟨.handler c, a.1, a.2⟩) ∧
      ((writtenBy l = [] ∧ dispatchedBy l = [] ∧ p'.shared.mem = p.shared.mem) ∨
        ∃ fd qs, Owned p qs ∧ qs (.handler c) = ⟨fd, .serving⟩ ∧
          HandlerTurn cfg c fd p.shared.mem l p'.shared.mem) := by
  have ⟨ctl, l, ctl', hctl, hruns, _, hlog⟩ := Machine.turnStep_turn hs
  have ⟨qs, hown, hat⟩ := handler_at h c
  refine ⟨l, hlog, ?_⟩
  rcases hat with ⟨fd, hprog, hphase⟩ | ⟨fd, hprog, hphase⟩ | hprog
  · cases hctl.symm.trans hprog
    exact Or.inr ⟨fd, qs, hown, hphase, handleClient_runs hruns⟩
  · cases hctl.symm.trans hprog
    exact Or.inr ⟨fd, qs, hown, hphase, handleClientCleanup_runs hruns⟩
  · cases hctl.symm.trans hprog
    have ⟨hnil, _, hw⟩ := hruns.of_ret
    rw [hnil, hw]
    exact Or.inl ⟨rfl, rfl, rfl⟩

/-- The watchdog stands at the head of its loop between two turns. -/
theorem watchdog_at (h : (turnSystem cfg).Reaches C p) : p.prog .watchdog = .ret .watchdog := by
  refine h.invariant (I := fun p => p.prog .watchdog = .ret .watchdog) rfl ?_
  intro q l q' hq hI _ hs
  cases l with
  | turn t chs =>
    have ⟨ctl, l, ctl', hctl, hruns, hprog, _⟩ := Machine.turnStep_turn hs
    rw [hprog]
    by_cases ht : t = .watchdog
    · subst ht
      cases hctl.symm.trans hI
      rw [update_self, (watchdogLoop_runs (turn_running hq) hruns).1]
    · rw [update_of_ne (Ne.symm ht)]
      exact hI
  | env e =>
    have ⟨w, start, he, hq'⟩ := Machine.step_env.1 hs
    subst hq'
    rcases World.env_mem_cases he with ⟨hstart, _⟩ | ⟨fd, peerIp, _, _, hstart, _⟩
    · rw [hstart]
      exact hI
    · rw [hstart, Pool.afterEnv_some_prog]
      exact (update_of_ne (by simp) _ _).trans hI

/-- A turn of the watchdog is a scan. -/
theorem watchdog_turn (h : (turnSystem cfg).Reaches C p) {chs : List Choice}
    (hs : (turnSystem cfg).step p (.turn .watchdog chs) = some p') :
    ∃ l order, p'.log = p.log ++ l.map (fun a => ⟨.watchdog, a.1, a.2⟩) ∧
      Scan cfg p.shared.mem l p'.shared.mem order := by
  have ⟨ctl, l, ctl', hctl, hruns, _, hlog⟩ := Machine.turnStep_turn hs
  cases hctl.symm.trans (watchdog_at h)
  have ⟨_, order, hscan⟩ := watchdogLoop_runs (turn_running h) hruns
  exact ⟨l, order, hlog, hscan⟩

end Steps

end SimpleChat
