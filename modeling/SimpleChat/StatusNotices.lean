import SimpleChat.Delivery
import SimpleChat.Data.Notices

/-!
# Status notifications

The handler of a session and the watchdog change its status, and announce the
change later, with a 201, 603 or 602 frame, in a step of their own.  `notices`
reads off the history which status was announced last and which changes are
still to be announced, by whom.

`debtMonitor` is the discipline of the programs: each announces every change it
made, oldest first, before it passes a control point (`program_pays`).
`status_announced` concludes that in a run in which every announcement is made
in turn, a session at rest has the status that was announced to it last.
-/

namespace SimpleChat

open Conc Function Data

/-! ## Announcements in the history -/

/-- The status that the text of a 201 names. -/
def namedStatus (text : String) : Option StatusEnum :=
  [StatusEnum.ACTIVE, .DO_NOT_DISTURB, .INVISIBLE].find? fun st =>
    text = "Status changed to " ++ statusToDisplay st

/-- The status that a frame announces, if it is a status notification. -/
def announces : ServerMsg → Option StatusEnum
  | .serverResponse m =>
    if m.statusCode = StatusCode.AUTO_INACTIVE then some .INVISIBLE
    else if m.statusCode = StatusCode.STATUS_RESTORED then some .ACTIVE
    else if m.statusCode = StatusCode.OK_STATUS_CHANGED then namedStatus m.message
    else none
  | _ => none

/-- The announcement that an operation makes to session `s`. -/
def pays : ServerOp → SessionRef → Option StatusEnum
  | .sendLocked t msg, s => if t = s then announces msg else none
  | _, _ => none

/-- The changes that an operation makes to the status of session `s`. -/
def incurs : (o : ServerOp) → o.Resp → SessionRef → List StatusEnum
  | .mem (.restore t), r, s => if t = s ∧ r = true then [.ACTIVE] else []
  | .mem (.setStatus t st), _, s => if t = s then [st] else []
  | .mem (.markIdle _), r, s => List.replicate (List.count s r) .INVISIBLE
  | _, _, _ => []

/-- The status announced last to a session, and the changes still to be
announced. -/
abbrev StatusNotices := Notices Tid StatusEnum

/-- A session starts as `ACTIVE`, and nothing is owed. -/
def StatusNotices.start : StatusNotices := ⟨.ACTIVE, []⟩

def StatusNotices.track (s : SessionRef) (n : StatusNotices) (e : Event Server Tid) :
    StatusNotices :=
  match pays e.op s with
  | some st => n.pay e.tid st
  | none => n.incur e.tid (incurs e.op e.resp s)

/-- What the history says about the status of session `s`. -/
def notices (s : SessionRef) (log : List (Event Server Tid)) : StatusNotices :=
  log.foldl (StatusNotices.track s) .start

@[simp] theorem notices_append (s : SessionRef) (log : List (Event Server Tid))
    (e : Event Server Tid) :
    notices s (log ++ [e]) = (notices s log).track s e := by
  simp [notices]

/-- The watchdog marks the sessions it reports, and no other. -/
theorem markIdle_status {idle now : Int} {todo : List SessionRef} {m : Memory}
    (s : SessionRef) :
    ((Memory.markIdle idle now todo m).2.heap s).status =
      if s ∈ (Memory.markIdle idle now todo m).1 then .INVISIBLE else (m.heap s).status := by
  rw [Memory.markIdle_heap]
  split <;> rfl

theorem register_status {m : Memory} {c : ConnId} {fd : Fd} {u a : String} {s : SessionRef}
    (hs : s < m.nextRef) : ((m.register c fd u a).2.heap s).status = (m.heap s).status := by
  rcases Memory.register_cases_created m c fd u a with ⟨-, he⟩ | ⟨-, -, -, he⟩ <;> rw [he]
  dsimp only
  rw [update_of_ne (Nat.ne_of_lt hs)]

theorem removeSession_status {m : Memory} {fd : Fd} (s : SessionRef) :
    ((m.removeSession fd).heap s).status = (m.heap s).status := by
  rw [Memory.removeSession_heap]
  split <;> rfl

theorem restore_status {m : Memory} {t : SessionRef} (s : SessionRef) :
    ((m.restore t).2.heap s).status =
      if t = s ∧ (m.restore t).1 = true then .ACTIVE else (m.heap s).status := by
  rw [Memory.restore]
  split
  · by_cases hst : s = t
    · subst hst
      simp [Memory.modify]
    · simp [Memory.modify, hst, Ne.symm hst]
  · simp

theorem modify_status {m : Memory} {t : SessionRef} {f : SessionInfo → SessionInfo}
    (s : SessionRef) :
    ((m.modify t f).heap s).status = if t = s then (f (m.heap t)).status else (m.heap s).status := by
  by_cases hst : s = t
  · subst hst
    simp [Memory.modify]
  · simp [Memory.modify, hst, Ne.symm hst]

/-- What an operation does to the status of a session that exists. -/
theorem exec_status {cfg : Config} {t : Tid} {w w' : World} {o : ServerOp} {ch : Choice}
    {r : o.Resp} (h : w.exec cfg t o ch = some (r, w')) {s : SessionRef}
    (hs : s < w.mem.nextRef) :
    (w'.mem.heap s).status = (incurs o r s).getLast?.getD (w.mem.heap s).status := by
  cases o with
  | sendBare fd msg =>
    cases h
    simp [incurs]
  | sendLocked t msg =>
    cases h
    simp [incurs]
  | register fd u a =>
    cases t with
    | watchdog => cases h
    | handler c =>
      cases h
      simp [incurs, register_status hs]
  | mem o =>
    rw [World.exec, Option.map_eq_some_iff] at h
    obtain ⟨⟨r', m'⟩, he, hx⟩ := h
    obtain ⟨rfl, rfl⟩ := Prod.mk.inj hx
    dsimp only at *
    cases o with
    | recv fd len =>
      rcases Memory.recv_cases he with ⟨-, -, rfl⟩ | ⟨_, -, -, -, -, rfl⟩ | ⟨_, _, -, -, -, -, rfl⟩ <;>
        simp [incurs, Memory.modifyConn]
    | removeSession fd =>
      cases he
      simp [incurs, removeSession_status]
    | restore t =>
      have hm : (w.mem.restore t).1 = r' ∧ (w.mem.restore t).2 = m' :=
        Prod.mk.inj (Option.some.inj he)
      rw [← hm.2, restore_status, hm.1]
      by_cases hc : t = s ∧ r' = true
      · rw [if_pos hc]
        simp [incurs, hc.1, hc.2]
      · rw [if_neg hc, incurs, if_neg hc]
        rfl
    | setStatus t st =>
      cases he
      rw [Memory.setStatus, modify_status]
      by_cases hts : t = s <;> simp [incurs, hts]
    | touch t =>
      cases he
      rw [Memory.touch, modify_status]
      by_cases hts : t = s <;> simp [incurs, hts]
    | markIdle now =>
      rw [Memory.exec] at he
      split at he
      · have hm := Prod.mk.inj (Option.some.inj he)
        rw [← hm.2, markIdle_status, hm.1]
        by_cases hsr : s ∈ r'
        · have hcount : List.count s r' ≠ 0 := (List.count_pos_iff.2 hsr).ne'
          simp [incurs, hsr, List.getLast?_replicate, hcount]
        · simp [incurs, hsr, List.count_eq_zero.2 hsr]
      · cases he
    | aliveSessions | listSessions =>
      rw [Memory.exec] at he
      split at he
      · cases he
        rfl
      · cases he
    | dispatch | running | getPeerIp | getSession | findUser | read | now | close =>
      cases he
      rfl

/-! ## The discipline of the programs -/

/-- What a thread may change and has to announce: the sessions that it found
under its descriptor, and for each session the changes it has not announced. -/
structure Debts where
  mine : SessionRef → Prop
  owed : SessionRef → List StatusEnum

def Debts.zero : Debts := ⟨fun _ => False, fun _ => []⟩

/-- The operation changes the status of `s` on behalf of its user. -/
def Changes : ServerOp → SessionRef → Prop
  | .mem (.restore t), s => t = s
  | .mem (.setStatus t _), s => t = s
  | _, _ => False

/-- The operation finds `s` under the descriptor of the thread. -/
def Finds : (o : ServerOp) → o.Resp → SessionRef → Prop
  | .mem (.getSession _), r, s => r = some s
  | _, _, _ => False

/-- What a thread owes after an operation. -/
def Debts.after (q : Debts) (o : ServerOp) (r : o.Resp) : Debts where
  mine s := q.mine s ∨ Finds o r s
  owed s := match pays o s with
    | some _ => (q.owed s).tail
    | none => q.owed s ++ incurs o r s

/-- A thread changes only its own sessions, and announces its changes oldest
first. -/
def debtMonitor : Prog.Monitor Server Debts where
  guard q o := (∀ s, Changes o s → q.mine s) ∧
    ∀ s st, pays o s = some st → ∃ rest, q.owed s = st :: rest
  next q o r q' := q' = q.after o r

/-- The program announces every change before it returns. -/
abbrev Pays {α : Type} (p : Prog Server α) (q : Debts) : Prop :=
  p.Obeys debtMonitor (fun _ q' => q'.owed = fun _ => []) q

/-- An operation that has nothing to do with the status. -/
def Quiet : ServerOp → Prop
  | .mem (.restore _) => False
  | .mem (.setStatus _ _) => False
  | .mem (.markIdle _) => False
  | .sendLocked _ msg => announces msg = none
  | _ => True

theorem obeys_debt_call {α : Type} {o : ServerOp} {k : o.Resp → Prog Server α} {q : Debts}
    {post : α → Debts → Prop} :
    (Prog.call (S := Server) o k).Obeys debtMonitor post q ↔
      debtMonitor.guard q o ∧ ∀ r, (k r).Obeys debtMonitor post (q.after o r) := by
  rw [Prog.obeys_call]
  refine and_congr Iff.rfl (forall_congr' fun r => ?_)
  constructor
  · rintro ⟨q', rfl, h⟩
    exact h
  · exact fun h => ⟨_, rfl, h⟩

theorem Quiet.pays {o : ServerOp} (h : Quiet o) (s : SessionRef) : pays o s = none := by
  cases o with
  | sendLocked t msg =>
    rw [SimpleChat.pays]
    split
    · exact h
    · rfl
  | mem o => rfl
  | sendBare fd msg => rfl
  | register fd u a => rfl

theorem Quiet.incurs {o : ServerOp} (h : Quiet o) (r : o.Resp) (s : SessionRef) :
    incurs o r s = [] := by
  unfold SimpleChat.incurs
  split
  · exact h.elim
  · exact h.elim
  · exact h.elim
  · rfl

theorem Quiet.guard {o : ServerOp} (h : Quiet o) (q : Debts) : debtMonitor.guard q o := by
  refine ⟨fun s hs => ?_, fun s st hst => ?_⟩
  · unfold Changes at hs
    split at hs
    · exact h.elim
    · exact h.elim
    · exact hs.elim
  · rw [h.pays] at hst
    cases hst

theorem Quiet.owed_after {o : ServerOp} (h : Quiet o) (q : Debts) (r : o.Resp) :
    (q.after o r).owed = q.owed := by
  funext s
  simp [Debts.after, h.pays, h.incurs]

/-- A program without status operations changes no debt. -/
theorem quiet_obeys {α : Type} {p : Prog Server α} (h : p.Only Quiet) (q : Debts) :
    p.Obeys debtMonitor (fun _ q' => q'.owed = q.owed ∧ ∀ s, q.mine s → q'.mine s) q := by
  induction p generalizing q with
  | ret a => exact ⟨rfl, fun _ hs => hs⟩
  | call o k ih =>
    rw [obeys_debt_call]
    refine ⟨h.1.guard q, fun r => (ih r (h.2 r) _).weaken ?_⟩
    rintro a q' ⟨howed, hmine⟩
    exact ⟨howed.trans (h.1.owed_after q r), fun s hs => hmine s (Or.inl hs)⟩

theorem quiet_pays {α : Type} {p : Prog Server α} (h : p.Only Quiet) {q : Debts}
    (hq : q.owed = fun _ => []) : Pays p q :=
  (quiet_obeys h q).weaken fun _ _ hq' => hq'.1.trans hq

theorem announces_response {code : Int} {text : String} {b : Bool}
    (h602 : code ≠ StatusCode.AUTO_INACTIVE) (h603 : code ≠ StatusCode.STATUS_RESTORED)
    (h201 : code ≠ StatusCode.OK_STATUS_CHANGED) : announces (response code text b) = none := by
  simp [announces, response, h602, h603, h201]

/-- The 201 of `handle_change_status` names the status. -/
theorem announces_changed {st : StatusEnum} {b : Bool}
    (h : ¬ (st ≠ .ACTIVE ∧ st ≠ .DO_NOT_DISTURB ∧ st ≠ .INVISIBLE)) :
    announces (response StatusCode.OK_STATUS_CHANGED
      ("Status changed to " ++ statusToDisplay st) b) = some st := by
  cases st with
  | ACTIVE => rfl
  | DO_NOT_DISTURB => rfl
  | INVISIBLE => rfl
  | unrecognized value hv => exact absurd ⟨by simp, by simp, by simp⟩ h

section Programs

variable (cfg : Config) (fd : Fd) (payload : Bytes)

/-- Replies other than status notifications are quiet. -/
@[simp] theorem quiet_reply {s : SessionRef} {code : Int} {text : String} {b : Bool} :
    Quiet (.sendLocked s (response code text b)) ↔ announces (response code text b) = none :=
  Iff.rfl

theorem handleRegister_quiet : (handleRegister cfg fd payload).Only Quiet :=
  (handleRegister_only cfg fd payload).mono fun _ ho => by cases ho <;> trivial

theorem withSession_pays {body : SessionRef → Prog Server Unit} {q : Debts}
    (hq : q.owed = fun _ => [])
    (h : ∀ s q, q.mine s → (q.owed = fun _ => []) → Pays (body s) q) :
    Pays (withSession fd body) q := by
  simp only [withSession, mem_eq, Prog.call_bind, Prog.ret_bind, Pays]
  rw [obeys_debt_call]
  have hquiet : Quiet (.mem (.getSession fd)) := trivial
  refine ⟨hquiet.guard q, fun r => ?_⟩
  have howed := (hquiet.owed_after q r).trans hq
  cases r with
  | none => exact quiet_pays (by simp [Quiet]) howed
  | some s => exact h s _ (Or.inr rfl) howed

/-- `maybe_restore_activity` announces the status that it restores. -/
theorem maybeRestoreActivity_pays {s : SessionRef} {q : Debts} (hs : q.mine s)
    (hq : q.owed = fun _ => []) : Pays (maybeRestoreActivity s) q := by
  simp only [maybeRestoreActivity, mem_eq, Prog.call_bind, Prog.ret_bind, Pays]
  rw [obeys_debt_call]
  refine ⟨⟨?_, ?_⟩, fun b => ?_⟩
  · rintro t rfl
    exact hs
  · intro t st ht
    cases ht
  cases b with
  | false =>
    refine quiet_pays (by simp [Quiet]) ?_
    funext t
    simp [Debts.after, pays, incurs, hq]
  | true =>
    simp only [if_true, sendResponseDirect_eq, Prog.call_bind, Prog.ret_bind]
    rw [obeys_debt_call]
    have h603 : announces (response StatusCode.STATUS_RESTORED
      "Status restored to ACTIVO after inactivity period" true) = some .ACTIVE := rfl
    refine ⟨⟨?_, ?_⟩, fun _ => quiet_pays (by simp [Quiet]) ?_⟩
    · intro t ht
      exact ht.elim
    · intro t st ht
      by_cases hst : s = t
      · subst hst
        rw [pays, if_pos rfl, h603] at ht
        exact ⟨[], by simpa [Debts.after, pays, incurs, hq] using ht⟩
      · rw [pays, if_neg hst] at ht
        cases ht
    · funext t
      by_cases hst : s = t
      · subst hst
        simp [Debts.after, pays, incurs, hq, h603]
      · simp [Debts.after, pays, incurs, hq, hst]

/-- The replies that announce nothing. -/
theorem quiet_badRequest (s : SessionRef) (text : String) :
    Quiet (.sendLocked s (response StatusCode.BAD_REQUEST text false)) :=
  announces_response (by decide) (by decide) (by decide)

theorem quiet_notFound (s : SessionRef) (text : String) :
    Quiet (.sendLocked s (response StatusCode.USER_NOT_FOUND text false)) :=
  announces_response (by decide) (by decide) (by decide)

theorem handleMessageGeneral_pays {q : Debts} (hq : q.owed = fun _ => []) :
    Pays (handleMessageGeneral cfg fd payload) q := by
  refine withSession_pays fd hq fun s q hs hq => ?_
  split
  · exact quiet_pays (.perform (quiet_badRequest s _)) hq
  · refine (maybeRestoreActivity_pays hs hq).bind fun _ q hq => quiet_pays ?_ hq
    simp only [mem_eq, Prog.call_bind, Prog.ret_bind, Prog.only_call]
    exact ⟨trivial, fun i => ⟨trivial, fun targets => .forM fun t _ => .perform rfl⟩⟩

theorem handleMessageDm_pays {q : Debts} (hq : q.owed = fun _ => []) :
    Pays (handleMessageDm cfg fd payload) q := by
  refine withSession_pays fd hq fun s q hs hq => ?_
  split
  · exact quiet_pays (.perform (quiet_badRequest s _)) hq
  · refine (maybeRestoreActivity_pays hs hq).bind fun _ q hq => quiet_pays ?_ hq
    simp only [mem_eq, Prog.call_bind, Prog.ret_bind, Prog.only_call]
    refine ⟨trivial, fun i => ⟨trivial, fun dest => ?_⟩⟩
    have hsent : ∀ text, Quiet (.sendLocked s (response StatusCode.OK_DM_SENT text true)) :=
      fun _ => announces_response (by decide) (by decide) (by decide)
    cases dest with
    | none => exact .perform (quiet_notFound s _)
    | some d =>
      refine ⟨trivial, fun j => ?_⟩
      dsimp only [Prog.ret_bind]
      split
      · exact ⟨rfl, fun _ => .perform (hsent _)⟩
      · exact .perform (hsent _)

theorem handleChangeStatus_pays {q : Debts} (hq : q.owed = fun _ => []) :
    Pays (handleChangeStatus cfg fd payload) q := by
  refine withSession_pays fd hq fun s q hs hq => ?_
  split
  · exact quiet_pays (.perform (quiet_badRequest s _)) hq
  · rename_i cs _
    dsimp only
    split
    · exact quiet_pays (.perform (quiet_badRequest s _)) hq
    · rename_i hst
      simp only [mem_eq, Prog.call_bind, Prog.ret_bind, Pays]
      rw [obeys_debt_call]
      refine ⟨⟨?_, ?_⟩, fun _ => ?_⟩
      · rintro t rfl
        exact hs
      · intro t st ht
        cases ht
      rw [obeys_debt_call]
      have htouch : Quiet (.mem (.touch s)) := trivial
      refine ⟨htouch.guard _, fun _ => ?_⟩
      simp only [sendResponseDirect_eq]
      rw [obeys_debt_call]
      have h201 := announces_changed (b := true) hst
      refine ⟨⟨?_, ?_⟩, fun _ => ?_⟩
      · intro t ht
        exact ht.elim
      · intro t st ht
        rw [htouch.owed_after]
        by_cases hts : s = t
        · subst hts
          rw [pays, if_pos rfl, h201] at ht
          exact ⟨[], by simpa [Debts.after, pays, incurs, hq] using ht⟩
        · rw [pays, if_neg hts] at ht
          cases ht
      · funext t
        by_cases hts : s = t
        · subst hts
          simp [Debts.after, pays, incurs, hq, h201]
        · simp [Debts.after, pays, incurs, hq, hts]

theorem handleListUsers_pays {q : Debts} (hq : q.owed = fun _ => []) :
    Pays (handleListUsers cfg fd payload) q := by
  refine withSession_pays fd hq fun s q _ hq => quiet_pays ?_ hq
  split
  · exact .perform (quiet_badRequest s _)
  · simp only [mem_eq, Prog.call_bind, Prog.ret_bind, Prog.only_call]
    exact ⟨trivial, fun _ => ⟨trivial, fun users => .perform rfl⟩⟩

theorem handleGetUserInfo_pays {q : Debts} (hq : q.owed = fun _ => []) :
    Pays (handleGetUserInfo cfg fd payload) q := by
  refine withSession_pays fd hq fun s q _ hq => quiet_pays ?_ hq
  split
  · exact .perform (quiet_badRequest s _)
  · simp only [mem_eq, Prog.call_bind, Prog.ret_bind, Prog.only_call]
    refine ⟨trivial, fun _ => ⟨trivial, fun target => ?_⟩⟩
    cases target with
    | none => exact .perform (quiet_notFound s _)
    | some d => exact ⟨trivial, fun i => .perform rfl⟩

theorem handleQuit_pays {q : Debts} (hq : q.owed = fun _ => []) :
    Pays (handleQuit cfg fd payload) q := by
  refine quiet_pays ?_ hq
  simp only [handleQuit, mem_eq, Prog.call_bind, Prog.ret_bind, Prog.only_call]
  refine ⟨trivial, fun session => ?_⟩
  split
  · trivial
  · cases session with
    | none => trivial
    | some s => exact .perform (announces_response (by decide) (by decide) (by decide))

theorem handleFrame_pays (msgType : UInt8) {q : Debts} (hq : q.owed = fun _ => []) :
    Pays (handleFrame cfg fd msgType payload) q :=
  handleFrame_cases (R := fun p => Pays p q) msgType
    (quiet_pays (handleRegister_quiet cfg fd payload) hq)
    (handleMessageGeneral_pays cfg fd payload hq) (handleMessageDm_pays cfg fd payload hq)
    (handleChangeStatus_pays cfg fd payload hq) (handleListUsers_pays cfg fd payload hq)
    (handleGetUserInfo_pays cfg fd payload hq) (handleQuit_pays cfg fd payload hq)
    (quiet_pays (by simp [Quiet]) hq)

theorem handleClient_pays {q : Debts} (hq : q.owed = fun _ => []) : Pays (handleClient cfg fd) q := by
  simp only [handleClient, mem_eq, Prog.call_bind, Prog.ret_bind, Pays]
  rw [obeys_debt_call]
  have hrunning : Quiet (.mem .running) := trivial
  refine ⟨hrunning.guard q, fun running => ?_⟩
  have hq1 := (hrunning.owed_after q running).trans hq
  split
  · exact hq1
  · have hrecv : ((recvMessage fd).lift recvEmbedding).Only Quiet :=
      (recvMessage_reads fd).lift fun _ _ => trivial
    refine (quiet_pays hrecv hq1).bind fun frame q' hq' => ?_
    cases frame with
    | none => exact hq'
    | some frame =>
      obtain ⟨msgType, payload⟩ := frame
      dsimp only
      rw [obeys_debt_call]
      have hdispatch : Quiet (.mem (.dispatch msgType payload)) := trivial
      refine ⟨hdispatch.guard q', fun r => ?_⟩
      rw [dispatch_eq]
      exact (handleFrame_pays cfg fd payload msgType
        ((hdispatch.owed_after q' r).trans hq')).bind fun _ _ h => h

/-- The watchdog announces `INVISIBLE` to each session it marked. -/
theorem notify_pays {text : String} {toNotify : List SessionRef} {q : Debts}
    (hq : q.owed = fun s => List.replicate (toNotify.count s) .INVISIBLE) :
    Pays (toNotify.forM fun s => sendResponseDirect s StatusCode.AUTO_INACTIVE text true) q := by
  induction toNotify generalizing q with
  | nil => simpa using hq
  | cons s toNotify ih =>
    rw [Prog.forM_cons, sendResponseDirect_eq, Prog.call_bind, Pays, obeys_debt_call]
    have h602 : announces (response StatusCode.AUTO_INACTIVE text true) = some .INVISIBLE := rfl
    refine ⟨⟨?_, ?_⟩, fun _ => ih ?_⟩
    · intro t ht
      exact ht.elim
    · intro t st ht
      by_cases hst : s = t
      · subst hst
        rw [pays, if_pos rfl, h602, Option.some.injEq] at ht
        refine ⟨List.replicate (toNotify.count s) .INVISIBLE, ?_⟩
        simp [hq, ← ht, List.replicate_succ]
      · rw [pays, if_neg hst] at ht
        cases ht
    · funext t
      by_cases hst : s = t
      · subst hst
        simp [Debts.after, pays, hq, h602]
      · simp [Debts.after, pays, incurs, hq, hst]

theorem watchdogLoop_pays {q : Debts} (hq : q.owed = fun _ => []) : Pays (watchdogLoop cfg) q := by
  simp only [watchdogLoop, mem_eq, Prog.call_bind, Prog.ret_bind, Pays]
  have hrunning : Quiet (.mem .running) := trivial
  rw [obeys_debt_call]
  refine ⟨hrunning.guard q, fun r => ?_⟩
  have hq1 := (hrunning.owed_after q r).trans hq
  split
  · exact hq1
  rw [obeys_debt_call]
  refine ⟨hrunning.guard _, fun r' => ?_⟩
  have hq2 := (hrunning.owed_after _ r').trans hq1
  split
  · exact hq2
  rw [obeys_debt_call]
  have hnow : Quiet (.mem .now) := trivial
  refine ⟨hnow.guard _, fun now => ?_⟩
  have hq3 := (hnow.owed_after _ now).trans hq2
  rw [obeys_debt_call]
  refine ⟨⟨fun s hs => hs.elim, fun s st hst => by cases hst⟩, fun toNotify => ?_⟩
  refine (notify_pays ?_).bind fun _ _ h => h
  funext s
  simp only [Debts.after, pays, incurs] at hq3 ⊢
  rw [congrFun hq3 s, List.nil_append]

/-- Every turn of a thread announces the changes that it made. -/
theorem program_pays (c : Ctl) {q : Debts} (hq : q.owed = fun _ => []) : Pays (c.program cfg) q := by
  cases c with
  | loop fd => exact handleClient_pays cfg fd hq
  | cleanup fd =>
    exact quiet_pays (p := handleClientCleanup fd) (by simp [handleClientCleanup, Quiet]) hq
  | watchdog => exact watchdogLoop_pays cfg hq
  | ended => exact hq

end Programs

/-! ## Runs in which every announcement is made in turn -/

/-- A thread that is about to announce a status of a session owes the oldest
announcement of that session, or all of those owed name the same status. -/
def inTurn (p : State) : Step → Bool
  | .op t _ =>
    match p.prog t with
    | .call (.sendLocked s msg) _ =>
      (announces msg).all fun st => decide ((notices s p.log).InTurn t st)
    | _ => true
  | _ => true

/-- The condition that announcements are made in the order of the changes. -/
def InOrder (p : State) (l : Step) : Prop := inTurn p l = true

instance (p : State) (l : Step) : Decidable (InOrder p l) := inferInstanceAs (Decidable (_ = _))

/-- How the statuses, the history and the debts of the threads fit together. -/
structure Settling (p : State) (qs : Tid → Debts) : Prop where
  owedBy : ∀ t s, (notices s p.log).owedBy t = (qs t).owed s
  current : ∀ s, s < p.shared.mem.nextRef →
    (notices s p.log).current = (p.shared.mem.heap s).status
  untouched : ∀ s, p.shared.mem.nextRef ≤ s → notices s p.log = .start
  mine : ∀ t s, (qs t).mine s →
    s < p.shared.mem.nextRef ∧ t = .handler (p.shared.mem.registeredOn s)
  owner : ∀ t s, (qs t).owed s ≠ [] →
    t = .handler (p.shared.mem.registeredOn s) ∨ t = .watchdog
  idle : ∀ c, p.shared.mem.nextConn ≤ c → qs (.handler c) = .zero

/-- An operation that changes the status of a session that does not exist yet,
or announces it, is not allowed. -/
theorem Settling.untouched_op {cfg : Config} {p : State} {qs : Tid → Debts} {phases : Tid → Phase}
    {t : Tid} {o : ServerOp} {ch : Choice} {r : o.Resp} {w : World} {s : SessionRef}
    (h : Settling p qs) (hown : Owned p phases) (hguard : debtMonitor.guard (qs t) o)
    (he : p.shared.exec cfg t o ch = some (r, w)) (hs : p.shared.mem.nextRef ≤ s) :
    pays o s = none ∧ incurs o r s = [] := by
  constructor
  · cases hp : pays o s with
    | none => rfl
    | some st =>
      obtain ⟨rest, hrest⟩ := hguard.2 s st hp
      rw [← h.owedBy t s, h.untouched s hs] at hrest
      cases hrest
  · have hmine : ¬ (qs t).mine s := fun hm => absurd (h.mine t s hm).1 (Nat.not_lt.2 hs)
    unfold incurs
    split
    · split
      · rename_i hc
        exact absurd (hguard.1 s hc.1) hmine
      · rfl
    · split
      · rename_i hc
        exact absurd (hguard.1 s hc) hmine
      · rfl
    · rename_i now r
      by_cases hsr : s ∈ r
      · obtain ⟨fd, hfd⟩ := exec_gives (s := s) he hsr
        exact absurd (hown.2.1.consistent.allocated fd s hfd) (Nat.not_lt.2 hs)
      · rw [List.count_eq_zero.2 hsr]
        rfl
    · rfl

/-- A session that did not exist before an operation is `ACTIVE` after it. -/
theorem exec_new_session {cfg : Config} {t : Tid} {w w' : World} {o : ServerOp} {ch : Choice}
    {r : o.Resp} {s : SessionRef} (h : w.exec cfg t o ch = some (r, w'))
    (hs : w.mem.nextRef ≤ s) (hs' : s < w'.mem.nextRef) : (w'.mem.heap s).status = .ACTIVE := by
  rcases World.exec_mem_cases h with ⟨hf, -⟩ | ⟨fd, -, hm⟩ | ⟨fd, -, hm⟩ | ⟨c, fd, u, a, -, -, hm⟩
  · rw [hf.nextRef] at hs'
    exact absurd hs' (Nat.not_lt.2 hs)
  · rw [hm, Memory.removeSession_nextRef] at hs'
    exact absurd hs' (Nat.not_lt.2 hs)
  · rw [hm] at hs'
    exact absurd hs' (Nat.not_lt.2 hs)
  · rcases Memory.register_cases_created w.mem c fd u a with ⟨-, he⟩ | ⟨-, -, -, he⟩
    · rw [hm, he] at hs'
      exact absurd hs' (Nat.not_lt.2 hs)
    · rw [hm, he] at hs' ⊢
      obtain rfl : s = w.mem.nextRef := Nat.le_antisymm (Nat.le_of_lt_succ hs') hs
      simp

theorem StatusNotices.track_start {s : SessionRef} {e : Event Server Tid}
    (hpays : pays e.op s = none) (hincurs : incurs e.op e.resp s = []) :
    StatusNotices.track s .start e = .start := by
  simp [StatusNotices.track, hpays, hincurs, Notices.incur, StatusNotices.start]

section OneOperation

variable {cfg : Config} {p : State} {qs : Tid → Debts} {phases : Tid → Phase} {t : Tid}
  {ch : Choice} {o : ServerOp} {k : o.Resp → Prog Server Ctl} {r : o.Resp} {w : World}

/-- An announcement is made in turn, and announces the oldest change owed. -/
theorem Settling.pays_oldest (h : Settling p qs) (hC : InOrder p (.op t ch))
    (hprog : p.prog t = .call o k) (hguard : debtMonitor.guard (qs t) o) {s : SessionRef}
    {st : StatusEnum} (hst : pays o s = some st) :
    (notices s p.log).InTurn t st ∧ ∃ rest, (notices s p.log).owedBy t = st :: rest := by
  refine ⟨?_, by simpa only [h.owedBy] using hguard.2 s st hst⟩
  cases o with
  | sendLocked s' msg =>
    rw [pays] at hst
    split at hst
    · rename_i hss
      subst hss
      rw [InOrder, inTurn, hprog] at hC
      simpa [hst] using hC
    · cases hst
  | mem o => cases hst
  | sendBare fd msg => cases hst
  | register fd u a => cases hst

/-- The history owes what the monitor owes. -/
theorem Settling.owedBy_op (h : Settling p qs) (u : Tid) (s : SessionRef) :
    (notices s (p.afterOp t o k r w).log).owedBy u =
      (update qs t ((qs t).after o r) u).owed s := by
  rw [Pool.afterOp_log, notices_append, StatusNotices.track]
  cases hp : pays o s with
  | none =>
    dsimp only
    by_cases hu : u = t
    · subst hu
      rw [update_self, Notices.owedBy_incur, h.owedBy]
      simp [Debts.after, hp]
    · rw [update_of_ne hu, Notices.owedBy_incur_of_ne _ hu, h.owedBy]
  | some st =>
    dsimp only
    by_cases hu : u = t
    · subst hu
      rw [update_self, Notices.owedBy_pay, h.owedBy]
      simp [Debts.after, hp]
    · rw [update_of_ne hu, Notices.owedBy_pay_of_ne _ hu, h.owedBy]

/-- The history comes to the status of the session. -/
theorem Settling.current_op (h : Settling p qs) (hown : Owned p phases)
    (hC : InOrder p (.op t ch)) (hprog : p.prog t = .call o k)
    (he : p.shared.exec cfg t o ch = some (r, w)) (hguard : debtMonitor.guard (qs t) o)
    {s : SessionRef} (hs : s < w.mem.nextRef) :
    (notices s (p.afterOp t o k r w).log).current = (w.mem.heap s).status := by
  rw [Pool.afterOp_log, notices_append]
  by_cases hold : s < p.shared.mem.nextRef
  · rw [exec_status he hold, ← h.current s hold, StatusNotices.track]
    cases hp : pays o s with
    | none =>
      dsimp only
      rw [Notices.current_incur]
    | some st =>
      obtain ⟨hturn, rest, howed⟩ := h.pays_oldest hC hprog hguard hp
      dsimp only
      rw [Notices.current_pay hturn howed]
      have hnone : incurs o r s = [] := by
        cases o with
        | sendLocked s' msg => rfl
        | mem o => cases hp
        | sendBare fd msg => cases hp
        | register fd u a => cases hp
      rw [hnone]
      rfl
  · have hge := Nat.le_of_not_lt hold
    obtain ⟨hpays, hincurs⟩ := h.untouched_op hown hguard he hge
    rw [h.untouched s hge, StatusNotices.track_start hpays hincurs,
      exec_new_session he hge hs]
    rfl

/-- A session that a handler has found is that of its connection. -/
theorem Settling.mine_op (h : Settling p qs) (hown : Owned p phases)
    (hprog : p.prog t = .call o k) (he : p.shared.exec cfg t o ch = some (r, w)) {u : Tid}
    {s : SessionRef} (hm : (update qs t ((qs t).after o r) u).mine s) :
    s < p.shared.mem.nextRef ∧ u = .handler (p.shared.mem.registeredOn s) := by
  by_cases hu : u = t
  · subst hu
    rw [update_self] at hm
    rcases hm with hm | hm
    · exact h.mine u s hm
    · unfold Finds at hm
      split at hm
      · rename_i fd r
        have hallows := hown.allows hprog
        cases u with
        | watchdog => exact hallows.elim
        | handler c =>
          obtain ⟨hl, rfl⟩ := hallows
          cases he
          exact ⟨hown.2.1.consistent.allocated _ s hm, by
            rw [(hown.2.1.registeredOn_eq_iff (c := c) (by rw [← hl]) hm).2 rfl]⟩
      · exact hm.elim
  · rw [update_of_ne hu] at hm
    exact h.mine u s hm

/-- A session of which a change is owed existed before the operation. -/
theorem Settling.owed_allocated (h : Settling p qs) (hown : Owned p phases)
    (he : p.shared.exec cfg t o ch = some (r, w)) (hguard : debtMonitor.guard (qs t) o) {u : Tid}
    {s : SessionRef} (ho : (update qs t ((qs t).after o r) u).owed s ≠ []) :
    s < p.shared.mem.nextRef := by
  by_contra hold
  have hge := Nat.le_of_not_lt hold
  have hzero : ∀ v, (qs v).owed s = [] := by
    intro v
    rw [← h.owedBy, h.untouched s hge]
    rfl
  by_cases hu : u = t
  · subst hu
    obtain ⟨hpays, hincurs⟩ := h.untouched_op hown hguard he hge
    rw [update_self] at ho
    simp [Debts.after, hpays, hincurs, hzero] at ho
  · rw [update_of_ne hu] at ho
    exact ho (hzero u)

/-- A change is owed by the handler of the session or by the watchdog. -/
theorem Settling.owner_op (h : Settling p qs) (hown : Owned p phases)
    (hprog : p.prog t = .call o k) (hguard : debtMonitor.guard (qs t) o) {u : Tid}
    {s : SessionRef} (ho : (update qs t ((qs t).after o r) u).owed s ≠ []) :
    u = .handler (p.shared.mem.registeredOn s) ∨ u = .watchdog := by
  by_cases hu : u = t
  · subst hu
    by_cases hq : (qs u).owed s = []
    · have hincurs : incurs o r s ≠ [] := by
        intro hnil
        rw [update_self] at ho
        cases hp : pays o s <;> simp [Debts.after, hp, hq, hnil] at ho
      unfold incurs at hincurs
      split at hincurs
      · refine Or.inl (h.mine u s (hguard.1 s ?_)).2
        by_contra hne
        exact hincurs (if_neg fun hc => hne hc.1)
      · refine Or.inl (h.mine u s (hguard.1 s ?_)).2
        by_contra hne
        exact hincurs (if_neg hne)
      · cases u with
        | watchdog => exact Or.inr rfl
        | handler c => exact (hown.allows hprog).elim
      · exact absurd rfl hincurs
    · exact h.owner u s hq
  · rw [update_of_ne hu] at ho
    exact h.owner u s ho

/-- What one operation preserves. -/
theorem settling_op (h : Settling p qs) (hown : Owned p phases) (hC : InOrder p (.op t ch))
    (hprog : p.prog t = .call o k) (he : p.shared.exec cfg t o ch = some (r, w))
    (hguard : debtMonitor.guard (qs t) o) :
    Settling (p.afterOp t o k r w) (update qs t ((qs t).after o r)) := by
  have hlater := exec_later he
  refine ⟨fun u s => h.owedBy_op u s, fun s hs => h.current_op hown hC hprog he hguard hs,
    fun s hs => ?_, fun u s hm => ?_, fun u s ho => ?_, fun c hc => ?_⟩
  · have hge := hlater.nextRef.trans hs
    obtain ⟨hpays, hincurs⟩ := h.untouched_op hown hguard he hge
    rw [Pool.afterOp_log, notices_append, h.untouched s hge,
      StatusNotices.track_start hpays hincurs]
  · have ⟨hold, howner⟩ := h.mine_op hown hprog he hm
    refine ⟨Nat.lt_of_lt_of_le hold hlater.nextRef, ?_⟩
    rw [Pool.afterOp_shared, hlater.registeredOn s hold]
    exact howner
  · rw [Pool.afterOp_shared, hlater.registeredOn s (h.owed_allocated hown he hguard ho)]
    exact h.owner_op hown hprog hguard ho
  · have hne : Tid.handler c ≠ t := by
      rintro rfl
      exact absurd (hown.lt_nextConn hprog) (Nat.not_lt.2 (hlater.nextConn.trans hc))
    rw [update_of_ne hne]
    exact h.idle c (hlater.nextConn.trans hc)

end OneOperation

theorem settling_keeps (cfg : Config) :
    Machine.Keeps (machine cfg) (fun _ => debtMonitor) (fun _ _ q => q.owed = fun _ => [])
      Settling (fun p l => InOrder p l ∧ (system cfg).Reaches Lts.Any p) where
  op p qs t ch o k r w q' hJ hC hprog he hguard hnext := by
    obtain ⟨phases, hown⟩ := reachable_owned hC.2
    rw [show q' = (qs t).after o r from hnext]
    exact settling_op hJ hown hC.1 hprog he hguard
  jump p qs t c hJ _ _ hpost :=
    ⟨qs t, program_pays cfg c hpost, by
      rw [update_eq_self]
      exact ⟨hJ.owedBy, hJ.current, hJ.untouched, hJ.mine, hJ.owner, hJ.idle⟩⟩
  env p qs e w start hJ _ he := by
    change p.shared.env e = some (w, start) at he
    obtain ⟨hheap, href, hreg⟩ := World.env_sessions he
    refine ⟨qs, fun _ _ => rfl, ?_, ?_⟩
    · rintro t c rfl
      rcases World.env_mem_cases he with ⟨hstart, -⟩ | ⟨fd, peerIp, -, -, hstart, -⟩
      · cases hstart
      · cases hstart
        rw [hJ.idle _ (Nat.le_refl _)]
        rfl
    · have hconn : p.shared.mem.nextConn ≤ w.mem.nextConn := by
        rcases World.env_mem_cases he with ⟨-, hf, -⟩ | ⟨fd, peerIp, -, -, -, rfl⟩
        · exact hf.nextConn.ge
        · exact Nat.le_succ _
      refine ⟨?_, ?_, ?_, ?_, ?_, ?_⟩ <;>
        simp only [Pool.afterEnv_log, Pool.afterEnv_shared, hheap, href, hreg]
      · exact hJ.owedBy
      · exact hJ.current
      · exact hJ.untouched
      · exact hJ.mine
      · exact hJ.owner
      · exact fun c hc => hJ.idle c (hconn.trans hc)

theorem settling_init (cfg : Config) :
    Machine.Monitored (fun _ => debtMonitor) (fun _ _ q => q.owed = fun _ => []) Settling
      (system cfg).init (fun _ => .zero) := by
  refine ⟨fun t => ?_, ⟨fun _ _ => rfl, fun s hs => absurd hs (Nat.not_lt_zero s), fun _ _ => rfl,
    fun _ _ hm => hm.elim, fun _ _ ho => absurd rfl ho, fun _ _ => rfl⟩⟩
  change (Prog.ret _ : Prog Server Ctl).Obeys debtMonitor _ _
  rfl

/-- Every operation may respond without handing out a given session. -/
theorem exists_not_gives (o : ServerOp) (s : SessionRef) : ∃ r : o.Resp, ¬ Gives o r s := by
  cases o with
  | sendBare fd msg => exact ⟨(), fun h => h⟩
  | sendLocked t msg => exact ⟨(), fun h => h⟩
  | register fd u a => exact ⟨.usernameTaken, fun h => by cases h⟩
  | mem o =>
    cases o with
    | recv fd len => exact ⟨(none : Option _), fun h => h⟩
    | dispatch msgType payload => exact ⟨(), fun h => h⟩
    | running => exact ⟨true, fun h => h⟩
    | getPeerIp fd => exact ⟨"", fun h => h⟩
    | getSession fd => exact ⟨(none : Option SessionRef), fun h => by cases h⟩
    | removeSession fd => exact ⟨(), fun h => h⟩
    | aliveSessions => exact ⟨([] : List SessionRef), fun h => by cases h⟩
    | findUser u => exact ⟨(none : Option SessionRef), fun h => by cases h⟩
    | listSessions => exact ⟨([] : List (String × StatusEnum)), fun h => h⟩
    | read t => exact ⟨Memory.init.heap t, fun h => h⟩
    | restore t => exact ⟨true, fun h => h⟩
    | setStatus t st => exact ⟨(), fun h => h⟩
    | touch t => exact ⟨(), fun h => h⟩
    | now => exact ⟨(0 : Int), fun h => h⟩
    | markIdle now => exact ⟨([] : List SessionRef), fun h => by cases h⟩
    | close fd => exact ⟨(), fun h => h⟩

/-- A thread that owes an announcement to a session may still write to it. -/
theorem writes_of_owed {p : Prog Server Ctl} {q : Debts} {s : SessionRef}
    (h : p.Obeys debtMonitor (fun _ q' => q'.owed = fun _ => []) q) (hs : q.owed s ≠ []) :
    p.Holds writers s := by
  induction p generalizing q with
  | ret c => exact absurd (congrFun h s) hs
  | call o k ih =>
    rw [obeys_debt_call] at h
    by_cases huse : writers.uses o s
    · exact .here huse
    · obtain ⟨r, hr⟩ := exists_not_gives o s
      refine .later r hr (ih r (h.2 r) ?_)
      have hp : pays o s = none := by
        cases o with
        | sendLocked t msg =>
          rw [pays, if_neg]
          rwa [uses_sendLocked] at huse
        | mem o => rfl
        | sendBare fd msg => rfl
        | register fd u a => rfl
      simp [Debts.after, hp, hs]

/-- In a run in which every announcement is made in turn, a session for which
neither its handler nor the watchdog has a step pending has the status that was
announced to it last. -/
theorem status_announced {cfg : Config} {p : State} (h : (system cfg).Reaches InOrder p)
    {s : SessionRef} {c : ConnId} (hs : RegisteredOn p.log s c)
    (hhandler : ¬ Writes p (.handler c) s) (hwatchdog : ¬ Writes p .watchdog s) :
    (p.shared.mem.heap s).status = (notices s p.log).announced := by
  obtain ⟨hlt, rfl⟩ := (registeredOn_iff h s c).1 hs
  have hrun : (system cfg).Reaches (fun p l => InOrder p l ∧ (system cfg).Reaches Lts.Any p) p :=
    Lts.Steps.strengthen h fun q _ _ hq hC _ => ⟨hC, Lts.Steps.any hq⟩
  obtain ⟨qs, hobeys, hJ⟩ := (settling_keeps cfg).steps hrun (settling_init cfg)
  rw [← hJ.current s hlt]
  refine Notices.current_of_settled fun t => ?_
  rw [hJ.owedBy]
  by_contra ho
  rcases hJ.owner t s ho with rfl | rfl
  · exact hhandler (writes_of_owed (hobeys _) ho)
  · exact hwatchdog (writes_of_owed (hobeys _) ho)

/-- "a" registers; after 180 seconds the watchdog marks its session and announces
it. -/
def idleRun : List Step :=
  registerRun ++ [.env (.tick 180000000000), .jump .watchdog] ++
    List.replicate 3 (.op .watchdog {}) ++ [.op .watchdog { order := [4] }, .op .watchdog {}]

/-- The watchdog thread and the first handler pass a control point next. -/
def atRest (p : State) : Bool :=
  (p.prog .watchdog).returned.isSome && (p.prog (.handler 0)).returned.isSome

theorem atRest.not_writes {p : State} (h : atRest p = true) (s : SessionRef) :
    ¬ Writes p (.handler 0) s ∧ ¬ Writes p .watchdog s := by
  rw [atRest, Bool.and_eq_true, Option.isSome_iff_exists, Option.isSome_iff_exists] at h
  obtain ⟨⟨c, hc⟩, c', hc'⟩ := h
  rw [Prog.returned_eq_some] at hc hc'
  rw [Writes, Writes, hc, hc']
  exact ⟨Prog.not_holds_ret, Prog.not_holds_ret⟩

/-- In a run in which the watchdog marks a session, the session is announced as
`INVISIBLE`, and that is its status. -/
theorem status_announced_idle :
    ∃ p, (system sampleConfig).Reaches InOrder p ∧ (notices 0 p.log).announced = .INVISIBLE ∧
      (p.shared.mem.heap 0).status = (notices 0 p.log).announced := by
  obtain ⟨p, hp, hrun⟩ := Lts.exists_reaches_of_runIf (L := system sampleConfig) (C := InOrder)
    idleRun
    (fun p => atRest p && decide ((notices 0 p.log).announced = .INVISIBLE) &&
      decide (0 < p.shared.mem.nextRef ∧ p.shared.mem.registeredOn 0 = 0))
    (by decide +kernel)
  simp only [Bool.and_eq_true, decide_eq_true_eq] at hrun
  obtain ⟨⟨hrest, hinv⟩, hreg⟩ := hrun
  have hwrites := atRest.not_writes hrest 0
  exact ⟨p, hp, hinv,
    status_announced hp ((registeredOn_iff hp 0 0).2 hreg) hwrites.1 hwrites.2⟩

/-- The watchdog marks the session of "a"; "a" picks `DO_NOT_DISTURB` and is
answered with a 201; then the watchdog announces what it did. -/
def crossedRun : List Step :=
  registerRun ++ [.env (.tick 180000000000), .jump .watchdog] ++
    List.replicate 3 (.op .watchdog {}) ++ [.op .watchdog { order := [4] },
      .env (.clientSend 0 [4, 0, 0, 0, 2, 8, 1])] ++ turn (.handler 0) 8 ++ [.op .watchdog {}]

/-- The client was told `INVISIBLE` last, and its session is
`DO_NOT_DISTURB`. -/
theorem status_announced_crossed :
    ¬ ∀ p, (system sampleConfig).Reaches Lts.Any p → ∀ s c, RegisteredOn p.log s c →
      ¬ Writes p (.handler c) s → ¬ Writes p .watchdog s →
      (p.shared.mem.heap s).status = (notices s p.log).announced := by
  intro hall
  obtain ⟨p, hp, hrun⟩ := Lts.exists_reaches_of_run (L := system sampleConfig) crossedRun
    (fun p => atRest p && decide ((p.shared.mem.heap 0).status = .DO_NOT_DISTURB) &&
      decide ((notices 0 p.log).announced = .INVISIBLE) &&
      decide (0 < p.shared.mem.nextRef ∧ p.shared.mem.registeredOn 0 = 0))
    (by decide +kernel)
  simp only [Bool.and_eq_true, decide_eq_true_eq] at hrun
  obtain ⟨⟨⟨hrest, hstatus⟩, hinv⟩, hreg⟩ := hrun
  have hwrites := atRest.not_writes hrest 0
  have heq := hall p hp 0 0 ((registeredOn_iff hp 0 0).2 hreg) hwrites.1 hwrites.2
  rw [hstatus, hinv] at heq
  cases heq

end SimpleChat
