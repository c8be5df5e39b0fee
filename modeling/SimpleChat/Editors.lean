import SimpleChat.StatusNotices
import SimpleChat.Shutdown

/-!
# The sessions a thread may change

A handler changes fields of a session on behalf of its user in three ways:
`maybe_restore_activity`, the assignments of `handle_change_status`, and
`touch_activity`.  It does so only for the session that it found under its
descriptor, whatever its requests name.  `program_edits` says it for the programs of
the server, `runProgram_edits` for those of the whole program, and `exec_heap` which
operations change a session at all.
-/

namespace SimpleChat

open Conc Function

/-! ## The programs -/

/-- The operation changes fields of `s` on behalf of its user. -/
def Edits : ServerOp → SessionRef → Prop
  | .mem (.restore t), s => t = s
  | .mem (.setStatus t _), s => t = s
  | .mem (.touch t), s => t = s
  | _, _ => False

/-- A handler changes the sessions that it found under its descriptor. -/
def editors : Prog.Handles Server SessionRef where
  uses := Edits
  gives := Finds

/-- The program changes only sessions of `K` and those that it finds. -/
abbrev EditsGiven {α : Type} (p : Prog Server α) (K : SessionRef → Prop) : Prop :=
  p.Obeys editors.monitor (fun _ _ => True) K

/-- The operation changes no session but `s`. -/
def EditsOnly (s : SessionRef) (o : ServerOp) : Prop := ∀ t, Edits o t → t = s

/-- The operation changes no session on behalf of its user. -/
def EditsNone (o : ServerOp) : Prop := ∀ t, ¬ Edits o t

section Programs

variable (cfg : Config) (fd : Fd) (payload : Bytes) (K : SessionRef → Prop)

@[simp] theorem editsNone_sendLocked (s : SessionRef) (msg : ServerMsg) :
    EditsNone (.sendLocked s msg) := fun _ h => h

@[simp] theorem editsNone_sendBare (fd : Fd) (msg : ServerMsg) : EditsNone (.sendBare fd msg) :=
  fun _ h => h

theorem EditsNone.only {o : ServerOp} (h : EditsNone o) (s : SessionRef) : EditsOnly s o :=
  fun t ht => absurd ht (h t)

theorem editsGiven_of_none {α : Type} {p : Prog Server α} (h : p.Only EditsNone) :
    EditsGiven p K := by
  have hnone : p.Only fun o => ∀ t, editors.uses o t → False := h
  exact (hnone.obeys_monitor fun _ ht => ht.elim).weaken fun _ _ _ => trivial

/-- A handler that finds its session changes that one only. -/
theorem SessionHandler.edits {P : SessionRef → ServerOp → Prop} {p : Prog Server Unit}
    (h : SessionHandler fd P p) (hP : ∀ s o, P s o → EditsOnly s o) : EditsGiven p K := by
  obtain ⟨body, rfl, hbody⟩ := h
  simp only [withSession, mem_eq, Prog.call_bind, Prog.ret_bind]
  refine Prog.obeys_monitor_call.2 ⟨fun t ht => ht.elim, fun r => ?_⟩
  cases r with
  | none => exact editsGiven_of_none _ ⟨editsNone_sendBare fd _, fun _ => trivial⟩
  | some s =>
    refine (((hbody s).mono (hP s)).obeys_monitor fun t ht => ?_).weaken fun _ _ _ => trivial
    exact Or.inr (congrArg some ht.symm)

theorem BodyOp.edits {s : SessionRef} {o : ServerOp} (h : BodyOp s o) : EditsOnly s o := by
  intro t ht
  cases h with
  | restore | touch | setStatus => exact ht.symm
  | _ => exact ht.elim

theorem DeliveryOp.edits {o : ServerOp} (h : DeliveryOp o) : EditsNone o := by
  cases h with
  | broadcast t m => exact editsNone_sendLocked t _
  | dm t m => exact editsNone_sendLocked t _

theorem ListOp.edits {s : SessionRef} {o : ServerOp} (h : ListOp s o) : EditsNone o := by
  cases h with
  | snapshot => exact fun _ ht => ht
  | list m => exact editsNone_sendLocked s _

theorem handleMessageGeneral_edits : EditsGiven (handleMessageGeneral cfg fd payload) K :=
  (handleMessageGeneral_only cfg fd payload).edits fd K fun s _ ho =>
    ho.elim BodyOp.edits fun ho => ho.edits.only s

theorem handleMessageDm_edits : EditsGiven (handleMessageDm cfg fd payload) K :=
  (handleMessageDm_only cfg fd payload).edits fd K fun s _ ho =>
    ho.elim BodyOp.edits fun ho => ho.edits.only s

theorem handleChangeStatus_edits : EditsGiven (handleChangeStatus cfg fd payload) K :=
  (handleChangeStatus_only cfg fd payload).edits fd K fun _ _ ho => ho.edits

theorem handleListUsers_edits : EditsGiven (handleListUsers cfg fd payload) K :=
  (handleListUsers_only cfg fd payload).edits fd K fun s _ ho =>
    ho.elim BodyOp.edits fun ho => ho.edits.only s

theorem handleGetUserInfo_edits : EditsGiven (handleGetUserInfo cfg fd payload) K :=
  (handleGetUserInfo_only cfg fd payload).edits fd K fun _ _ ho => ho.edits

theorem handleRegister_editsNone : (handleRegister cfg fd payload).Only EditsNone :=
  (handleRegister_only cfg fd payload).mono fun _ ho t ht => by cases ho <;> exact ht

theorem handleQuit_editsNone : (handleQuit cfg fd payload).Only EditsNone :=
  (handleQuit_only cfg fd payload).mono fun _ ho t ht => by cases ho <;> exact ht

theorem handleFrame_edits (msgType : UInt8) :
    EditsGiven (handleFrame cfg fd msgType payload) K :=
  handleFrame_cases (R := fun p => EditsGiven p K) msgType
    (editsGiven_of_none K (handleRegister_editsNone cfg fd payload))
    (handleMessageGeneral_edits cfg fd payload K) (handleMessageDm_edits cfg fd payload K)
    (handleChangeStatus_edits cfg fd payload K) (handleListUsers_edits cfg fd payload K)
    (handleGetUserInfo_edits cfg fd payload K)
    (editsGiven_of_none K (handleQuit_editsNone cfg fd payload))
    (editsGiven_of_none K ⟨editsNone_sendBare fd _, fun _ => trivial⟩)

theorem handleClient_edits : EditsGiven (handleClient cfg fd) K := by
  simp only [handleClient, mem_eq, Prog.call_bind, Prog.ret_bind]
  refine Prog.obeys_monitor_call.2 ⟨fun t ht => ht.elim, fun running => ?_⟩
  split
  · trivial
  · have hreads : ((recvMessage fd).lift recvEmbedding).Only EditsNone := by
      refine (liftedRecv_reads fd).mono fun o hread t ht => ?_
      obtain ⟨len, ho⟩ := hread
      subst ho
      exact ht
    refine (editsGiven_of_none _ hreads).bind fun frame K' _ => ?_
    cases frame with
    | none => trivial
    | some frame =>
      obtain ⟨msgType, payload⟩ := frame
      refine Prog.obeys_monitor_call.2 ⟨fun t ht => ht.elim, fun _ => ?_⟩
      rw [dispatch_eq]
      exact (handleFrame_edits cfg fd payload _ msgType).bind fun _ _ _ => trivial

theorem watchdogLoop_editsNone : (watchdogLoop cfg).Only EditsNone :=
  (watchdogLoop_only cfg).mono fun _ ho t ht => by cases ho <;> exact ht

/-- A thread that passes a control point may change no session. -/
theorem program_edits (c : Ctl) : EditsGiven (c.program cfg) K := by
  cases c with
  | loop fd => exact handleClient_edits cfg fd K
  | cleanup fd =>
    exact editsGiven_of_none K ⟨fun t ht => ht, fun _ => ⟨fun t ht => ht, fun _ => trivial⟩⟩
  | watchdog => exact editsGiven_of_none K (watchdogLoop_editsNone cfg)
  | ended => trivial

end Programs

/-- `editors` for the threads of the whole program.  The accept loop and `stop`
change no session on behalf of its user. -/
def runEditors : Prog.Handles Run SessionRef where
  uses
    | .server o, s => Edits o s
    | _, _ => False
  gives
    | .server o, r, s => Finds o r s
    | _, _, _ => False

theorem stop_editsNone : stop.Only fun o => ∀ s, ¬ runEditors.uses o s := by
  refine ⟨fun s hs => hs, fun _ => ⟨fun s hs => hs, fun _ => ⟨fun s hs => hs, fun _ =>
    ⟨fun s hs => hs, fun _ => ⟨fun s hs => hs, fun threads => ?_⟩⟩⟩⟩⟩
  have hjoins : (threads.forM fun c => Prog.perform (S := Run) (.join c)).Only
      fun o => ∀ s, ¬ runEditors.uses o s := .forM fun c _ => .perform fun s hs => hs
  exact hjoins.bind fun _ => trivial

theorem acceptLoop_editsNone : acceptLoop.Only fun o => ∀ s, ¬ runEditors.uses o s := by
  refine ⟨fun s hs => hs, fun running => ?_⟩
  cases running with
  | false => trivial
  | true =>
    refine ⟨fun s hs => hs, fun conn => ?_⟩
    cases conn with
    | none => exact ⟨fun s hs => hs, fun _ => trivial⟩
    | some fd => exact ⟨fun s hs => hs, fun _ => ⟨fun s hs => hs, fun _ => trivial⟩⟩

theorem runProgram_edits (cfg : Config) (c : RunCtl) (K : SessionRef → Prop) :
    (c.program cfg).Obeys runEditors.monitor (fun _ _ => True) K := by
  have hnone : ∀ {p : Prog Run RunCtl}, (p.Only fun o => ∀ s, ¬ runEditors.uses o s) →
      p.Obeys runEditors.monitor (fun _ _ => True) K := by
    intro p hp
    have honly : p.Only fun o => ∀ s, runEditors.uses o s → False := hp
    exact (honly.obeys_monitor fun _ hs => hs.elim).weaken fun _ _ _ => trivial
  cases c with
  | server c =>
    have hlift : ((c.program cfg).lift serverEmbedding).Obeys runEditors.monitor
        (fun _ _ => True) K :=
      (program_edits cfg K c).lift (fun _ _ h => h) fun _ _ _ _ h => h
    exact hlift.bind fun _ _ _ => trivial
  | accepting => exact hnone acceptLoop_editsNone
  | stopping => exact hnone stop_editsNone
  | unstarted | returned => trivial

/-! ## What an operation changes -/

/-- A session that exists is changed by an operation on it, by its removal, or by
a scan of the watchdog. -/
theorem exec_heap {cfg : Config} {t : Tid} {w w' : World} {o : ServerOp} {ch : Choice} {r : o.Resp}
    {s : SessionRef} (h : w.exec cfg t o ch = some (r, w')) (hs : s < w.mem.nextRef) :
    w'.mem.heap s = w.mem.heap s ∨ Edits o s ∨
      (∃ fd, o = .mem (.removeSession fd) ∧ w.mem.registry.sessions.lookup fd = some s) ∨
      ∃ now, o = .mem (.markIdle now) := by
  cases o with
  | sendBare fd msg | sendLocked u msg =>
    cases h
    rw [World.write_mem]
    exact Or.inl rfl
  | register fd u a =>
    cases t with
    | watchdog => cases h
    | handler c =>
      cases h
      refine Or.inl ?_
      rw [World.reply_mem]
      rcases Memory.register_cases_created w.mem c fd u a with ⟨_, he⟩ | ⟨_, _, _, he⟩
      · rw [he]
      · rw [he]
        exact update_of_ne (Nat.ne_of_lt hs) _ _
  | mem o =>
    have ⟨⟨r', m'⟩, he, hx⟩ := Option.map_eq_some_iff.1 h
    cases hx
    cases o with
    | recv fd len =>
      change w.mem.recv fd len ch.want = _ at he
      refine Or.inl ?_
      rcases Memory.recv_cases he with ⟨_, _, hm⟩ | ⟨_, _, _, _, _, hm⟩ | ⟨c, bs, _, _, _, _, hm⟩
      · rw [hm]
      · rw [hm]
      · rw [hm]
        rfl
    | restore u =>
      by_cases hu : u = s
      · exact Or.inr (Or.inl hu)
      · have hm : (w.mem.restore u).2 = m' := congrArg Prod.snd (Option.some.inj he)
        refine Or.inl ?_
        rw [← hm, Memory.restore]
        split
        · exact update_of_ne (Ne.symm hu) _ _
        · rfl
    | setStatus u st =>
      by_cases hu : u = s
      · exact Or.inr (Or.inl hu)
      · cases he
        exact Or.inl (update_of_ne (Ne.symm hu) _ _)
    | touch u =>
      by_cases hu : u = s
      · exact Or.inr (Or.inl hu)
      · cases he
        exact Or.inl (update_of_ne (Ne.symm hu) _ _)
    | removeSession fd =>
      cases he
      rcases Memory.removeSession_cases w.mem fd with ⟨_, hm⟩ | ⟨u, hlook, hm⟩
      · refine Or.inl ?_
        rw [hm]
      · by_cases hu : u = s
        · exact Or.inr (Or.inr (Or.inl ⟨fd, rfl, hu ▸ hlook⟩))
        · refine Or.inl ?_
          rw [hm]
          exact update_of_ne (Ne.symm hu) _ _
    | markIdle now => exact Or.inr (Or.inr (Or.inr ⟨now, rfl⟩))
    | aliveSessions | listSessions =>
      rw [Memory.exec] at he
      split at he
      · cases he
        exact Or.inl rfl
      · cases he
    | dispatch | running | getPeerIp | getSession | findUser | read | now | close =>
      cases he
      exact Or.inl rfl

end SimpleChat
