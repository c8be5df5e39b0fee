import SimpleChat.Editors
import SimpleChat.Stopping

/-!
# A connection and the registrations of the others

A handler names users in two ways: by its descriptor, and by the names in its
requests.  It changes only the session that it found under its descriptor
(`editors`), and `remove_session` erases the name and the address of that session.
No other session has them, by the registry invariant.

`registration_isolated` says what follows for runs of the whole program, `stop`
included: in any run of steps of other connections, of the accept loop and of the
environment, the registration of a connection stays as it is.  After `stop` has
closed the sessions the descriptor table says nothing about the handlers, so
`RunWorld.Registered` speaks about the handlers that have not ended instead.
-/

namespace SimpleChat

open Conc Function

/-! ## The owners of the sessions -/

/-- The sessions in the registry belong to handlers that serve, an open descriptor to
a handler that has not ended, and no two of these have one descriptor. -/
structure RunWorld.Registered (w : RunWorld) (phase : ConnId → Phase) : Prop where
  consistent : w.mem.Consistent
  owner : ∀ fd s, w.mem.registry.sessions.lookup fd = some s →
    w.mem.registeredOn s < w.mem.nextConn ∧ (w.mem.conns (w.mem.registeredOn s)).fd = fd ∧
      (phase (w.mem.registeredOn s)).life = .serving
  distinct : ∀ c d, c < w.mem.nextConn → d < w.mem.nextConn → (phase c).life ≠ .closed →
    (phase d).life ≠ .closed → (w.mem.conns c).fd = (w.mem.conns d).fd → c = d
  opened : ∀ fd c, w.mem.fds fd = some c → c < w.mem.nextConn ∧ (w.mem.conns c).fd = fd ∧
    (phase c).life ≠ .closed
  /-- No connection is accepted after `stop` has closed the sessions. -/
  refused : w.swept = true → w.listening = false

namespace RunWorld.Registered

variable {w w' : RunWorld} {phase phase' : ConnId → Phase}

/-- The session under the descriptor of a handler that has not ended is that of its
connection. -/
theorem owner_eq (h : w.Registered phase) {c : ConnId} {fd : Fd} {s : SessionRef}
    (hc : c < w.mem.nextConn) (hlife : (phase c).life ≠ .closed) (hfd : (w.mem.conns c).fd = fd)
    (hs : w.mem.registry.sessions.lookup fd = some s) : w.mem.registeredOn s = c := by
  have ⟨hlt, howner, hserving⟩ := h.owner fd s hs
  exact h.distinct _ c hlt hc (by rw [hserving]; decide) hlife (howner.trans hfd.symm)

/-- The connection under the descriptor of a handler that has not ended is its own. -/
theorem opened_eq (h : w.Registered phase) {c d : ConnId} {fd : Fd} (hc : c < w.mem.nextConn)
    (hlife : (phase c).life ≠ .closed) (hfd : (w.mem.conns c).fd = fd)
    (hd : w.mem.fds fd = some d) : d = c := by
  have ⟨hlt, howner, hopen⟩ := h.opened fd d hd
  exact h.distinct d c hlt hc hopen hlife (howner.trans hfd.symm)

theorem same (h : w.Registered phase) (hs : w.mem.SameSessions w'.mem)
    (hfds : ∀ fd, w'.mem.fds fd = w.mem.fds fd ∨ w'.mem.fds fd = none)
    (hphase : ∀ c, (phase' c).life = (phase c).life)
    (hrefused : w'.swept = true → w'.listening = false) : w'.Registered phase' where
  consistent := h.consistent.same hs
  owner fd s hl := by
    rw [hs.registry] at hl
    rw [hs.registeredOn, hs.nextConn, hs.connFd, hphase]
    exact h.owner fd s hl
  distinct c d hc hd hlc hld heq := by
    rw [hs.nextConn] at hc hd
    rw [hphase] at hlc hld
    rw [hs.connFd, hs.connFd] at heq
    exact h.distinct c d hc hd hlc hld heq
  opened fd c hc := by
    rw [hs.nextConn, hs.connFd, hphase]
    rcases hfds fd with heq | hnone
    · exact h.opened fd c (heq ▸ hc)
    · rw [hnone] at hc
      cases hc
  refused := hrefused

/-- The handler of connection `c` enters a session under its descriptor. -/
theorem register (h : w.Registered phase) {c : ConnId} {fd : Fd} {u a : String}
    (hc : c < w.mem.nextConn) (hserving : (phase c).life = .serving)
    (hfd : (w.mem.conns c).fd = fd) (hu : u ≠ "") (hm : w'.mem = (w.mem.register c fd u a).2)
    (hrefused : w'.swept = true → w'.listening = false) : w'.Registered phase := by
  have hcons : (w.mem.register c fd u a).2.Consistent := h.consistent.register hu
  rw [← hm] at hcons
  rcases Memory.register_cases_created w.mem c fd u a with ⟨_, he⟩ | ⟨_, _, _, he⟩
  · rw [he] at hm
    exact ⟨hcons, by rw [hm]; exact h.owner, by rw [hm]; exact h.distinct,
      by rw [hm]; exact h.opened, hrefused⟩
  · rw [he] at hm
    refine ⟨hcons, fun k s hs => ?_, by rw [hm]; exact h.distinct, by rw [hm]; exact h.opened,
      hrefused⟩
    rw [hm] at hs ⊢
    change (w.mem.registry.sessions.insert fd w.mem.nextRef).lookup k = some s at hs
    show update w.mem.registeredOn w.mem.nextRef c s < w.mem.nextConn ∧
      (w.mem.conns (update w.mem.registeredOn w.mem.nextRef c s)).fd = k ∧
      (phase (update w.mem.registeredOn w.mem.nextRef c s)).life = .serving
    by_cases hk : k = fd
    · subst hk
      rw [Finmap.lookup_insert, Option.some.injEq] at hs
      rw [← hs, update_self]
      exact ⟨hc, hfd, hserving⟩
    · rw [Finmap.lookup_insert_of_ne _ hk] at hs
      rw [update_of_ne (Nat.ne_of_lt (h.consistent.allocated k s hs))]
      exact h.owner k s hs

/-- The handler of connection `c` removes its session. -/
theorem removeSession (h : w.Registered phase) {c : ConnId} {fd : Fd}
    (hserving : (phase c).life = .serving)
    (hfd : (w.mem.conns c).fd = fd) (hm : w'.mem = w.mem.removeSession fd)
    (hnow : (phase' c).life ≠ .closed) (hphase : ∀ d, d ≠ c → phase' d = phase d)
    (hrefused : w'.swept = true → w'.listening = false) : w'.Registered phase' := by
  have hcons := h.consistent.removeSession fd
  rw [← hm] at hcons
  have hopen : ∀ d, (phase' d).life ≠ .closed → (phase d).life ≠ .closed := by
    intro d hd
    by_cases hdc : d = c
    · rw [hdc, hserving]
      decide
    · rw [← hphase d hdc]
      exact hd
  have hother : ∀ k s, k ≠ fd → w.mem.registry.sessions.lookup k = some s →
      w.mem.registeredOn s < w.mem.nextConn ∧ (w.mem.conns (w.mem.registeredOn s)).fd = k ∧
        (phase' (w.mem.registeredOn s)).life = .serving := by
    intro k s hk hs
    have ⟨hlt, howner, hlife⟩ := h.owner k s hs
    have hne : w.mem.registeredOn s ≠ c := fun heq => hk (by rw [← howner, heq, hfd])
    exact ⟨hlt, howner, by rw [hphase _ hne, hlife]⟩
  have hkept : ∀ k d, w.mem.fds k = some d → d < w.mem.nextConn ∧ (w.mem.conns d).fd = k ∧
      (phase' d).life ≠ .closed := by
    intro k d hd
    have ⟨hlt, howner, hlife⟩ := h.opened k d hd
    refine ⟨hlt, howner, ?_⟩
    by_cases hdc : d = c
    · rw [hdc]
      exact hnow
    · rw [hphase d hdc]
      exact hlife
  refine ⟨hcons, fun k s hs => ?_, fun d e hd he hld hle heq => ?_, fun k d hd => ?_, hrefused⟩
  · rw [hm, Memory.removeSession_lookup] at hs
    split at hs
    · cases hs
    · rename_i hk
      rw [hm, Memory.removeSession_registeredOn, Memory.removeSession_nextConn,
        Memory.removeSession_conns]
      exact hother k s hk hs
  · rw [hm, Memory.removeSession_nextConn] at hd he
    rw [hm, Memory.removeSession_conns] at heq
    exact h.distinct d e hd he (hopen d hld) (hopen e hle) heq
  · rw [hm, Memory.removeSession_fds] at hd
    rw [hm, Memory.removeSession_nextConn, Memory.removeSession_conns]
    exact hkept k d hd

/-- A handler that has removed its session closes its descriptor. -/
theorem close (h : w.Registered phase) {c : ConnId} {fd : Fd}
    (hremoved : (phase c).life = .removed) (hfd : (w.mem.conns c).fd = fd)
    (hm : w'.mem = w.mem.close fd)
    (hclosed : (phase' c).life = .closed) (hphase : ∀ d, d ≠ c → phase' d = phase d)
    (hrefused : w'.swept = true → w'.listening = false) : w'.Registered phase' := by
  refine ⟨?_, fun k s hs => ?_, fun d e hd he hld hle heq => ?_, fun k d hd => ?_, hrefused⟩
  · rw [hm]
    exact ⟨h.consistent.allocated, h.consistent.socketFd, h.consistent.nonempty,
      h.consistent.names, h.consistent.ips⟩
  · rw [hm] at hs ⊢
    have ⟨hlt, howner, hlife⟩ := h.owner k s hs
    have hne : w.mem.registeredOn s ≠ c := by
      intro heq
      rw [heq, hremoved] at hlife
      cases hlife
    exact ⟨hlt, howner, (congrArg Phase.life (hphase _ hne)).trans hlife⟩
  · rw [hm] at hd he heq
    have hne : ∀ d, (phase' d).life ≠ .closed → d ≠ c := fun d hd heq => hd (heq ▸ hclosed)
    rw [hphase d (hne d hld)] at hld
    rw [hphase e (hne e hle)] at hle
    exact h.distinct d e hd he hld hle heq
  · rw [hm] at hd ⊢
    change update w.mem.fds fd none k = some d at hd
    by_cases hk : k = fd
    · rw [hk, update_self] at hd
      cases hd
    · rw [update_of_ne hk] at hd
      have ⟨hlt, howner, hlife⟩ := h.opened k d hd
      have hne : d ≠ c := fun heq => hk (by rw [← howner, heq, hfd])
      rw [hphase d hne]
      exact ⟨hlt, howner, hlife⟩

/-- `accept` returns a descriptor that no handler has. -/
theorem accept (h : w.Registered phase) {fd : Fd} {peerIp : String}
    (hfree : ∀ c, c < w.mem.nextConn → (phase c).life ≠ .closed → (w.mem.conns c).fd ≠ fd)
    (hnew : (phase w.mem.nextConn).life ≠ .closed) (hm : w'.mem = w.mem.accept fd peerIp)
    (hrefused : w'.swept = true → w'.listening = false) : w'.Registered phase := by
  have hnext : w'.mem.nextConn = w.mem.nextConn + 1 := by rw [hm]; rfl
  have hconns : ∀ c, c < w.mem.nextConn → (w'.mem.conns c).fd = (w.mem.conns c).fd := by
    intro c hc
    rw [hm, accept_conns_of_ne _ fd peerIp (Nat.ne_of_lt hc)]
  have hself : (w'.mem.conns w.mem.nextConn).fd = fd := by rw [hm, accept_conns_self]
  refine ⟨?_, fun k s hs => ?_, fun c d hc hd hlc hld heq => ?_, fun k c hc => ?_, hrefused⟩
  · rw [hm]
    exact ⟨h.consistent.allocated, h.consistent.socketFd, h.consistent.nonempty,
      h.consistent.names, h.consistent.ips⟩
  · have hs' : w.mem.registry.sessions.lookup k = some s := by
      rw [hm] at hs
      exact hs
    have ⟨hlt, howner, hlife⟩ := h.owner k s hs'
    have hreg : w'.mem.registeredOn s = w.mem.registeredOn s := by rw [hm]; rfl
    rw [hreg, hnext, hconns _ hlt]
    exact ⟨Nat.lt_succ_of_lt hlt, howner, hlife⟩
  · rw [hnext] at hc hd
    rcases Nat.lt_succ_iff_lt_or_eq.1 hc with hc | hc
    · rcases Nat.lt_succ_iff_lt_or_eq.1 hd with hd | hd
      · rw [hconns c hc, hconns d hd] at heq
        exact h.distinct c d hc hd hlc hld heq
      · rw [hd, hself, hconns c hc] at heq
        exact absurd heq (hfree c hc hlc)
    · rcases Nat.lt_succ_iff_lt_or_eq.1 hd with hd | hd
      · rw [hc, hself, hconns d hd] at heq
        exact absurd heq.symm (hfree d hd hld)
      · rw [hc, hd]
  · have hfds : update w.mem.fds fd (some w.mem.nextConn) k = some c := by
      rw [hm] at hc
      exact hc
    rw [hnext]
    by_cases hk : k = fd
    · rw [hk, update_self, Option.some.injEq] at hfds
      rw [← hfds, hself]
      exact ⟨Nat.lt_succ_self _, hk.symm, hnew⟩
    · rw [update_of_ne hk] at hfds
      have ⟨hlt, howner, hlife⟩ := h.opened k c hfds
      rw [hconns c hlt]
      exact ⟨Nat.lt_succ_of_lt hlt, howner, hlife⟩

end RunWorld.Registered

/-- The handlers in the monitor states `qs`. -/
abbrev phasesOf (qs : RunTid → Duty) (c : ConnId) : Phase := (qs (.server (.handler c))).phase

section Keep

variable {cfg : Config} {p : RunState} {qs : RunTid → Duty}

/-- An operation of a handler or of the watchdog. -/
theorem registered_server (hsound : Sound p qs) (h : p.shared.Registered (phasesOf qs)) {t : Tid}
    {o : ServerOp} {k : o.Resp → Prog Run RunCtl} {ch : RunChoice} {r : o.Resp} {w : RunWorld}
    (hprog : p.prog (.server t) = .call (.server o) k)
    (he : p.shared.exec cfg (.server t) (.server o) ch = some (r, w))
    (hguard : (phaseMonitor t).guard (qs (.server t)).phase o) :
    w.Registered (phasesOf (update qs (.server t) ((qs (.server t)).after (.server o)))) := by
  have hserved := RunWorld.served he
  have hrefused : w.swept = true → w.listening = false := by
    rw [hserved.swept, hserved.listening]
    exact h.refused
  have ⟨⟨r', b⟩, hexec, hx⟩ := Option.map_eq_some_iff.1 he
  cases hx
  have hother : ∀ d, t ≠ .handler d → phasesOf (update qs (.server t)
      ((qs (.server t)).after (.server o))) d = phasesOf qs d := by
    intro d hd
    rw [phasesOf, update_of_ne (by simpa using Ne.symm hd)]
  rcases World.exec_mem_cases hexec with ⟨hf, h1, h2, _⟩ | ⟨fd, ho, hm⟩ | ⟨fd, ho, hm⟩ |
    ⟨c, fd, u, a, ht, ho, hm⟩
  · refine h.same hf.sameSessions (fun fd => Or.inl (by rw [hf.fds])) (fun d => ?_) hrefused
    by_cases hd : t = .handler d
    · subst hd
      rw [phasesOf, update_self]
      exact congrArg Phase.life (Phase.after_eq h1 h2)
    · rw [hother d hd]
  · subst ho
    cases t with
    | watchdog => exact hguard.elim
    | handler c =>
      have ⟨hserving, hfd⟩ : (phasesOf qs c).life = .serving ∧ fd = (phasesOf qs c).fd := hguard
      have ⟨_, hserves⟩ := hsound.handlers.started c (hsound.started hprog)
      refine h.removeSession hserving (hserves.symm.trans hfd.symm) hm ?_
        (fun d hd => hother d fun heq => hd (Tid.handler.inj heq).symm) hrefused
      rw [phasesOf, update_self]
      exact fun hclosed => (nomatch hclosed)
  · subst ho
    cases t with
    | watchdog => exact hguard.elim
    | handler c =>
      have ⟨hremoved, hfd⟩ : (phasesOf qs c).life = .removed ∧ fd = (phasesOf qs c).fd := hguard
      have ⟨_, hserves⟩ := hsound.handlers.started c (hsound.started hprog)
      refine h.close hremoved (hserves.symm.trans hfd.symm) hm ?_
        (fun d hd => hother d fun heq => hd (Tid.handler.inj heq).symm) hrefused
      rw [phasesOf, update_self]
      rfl
  · subst ht ho
    have ⟨hserving, hfd, hu⟩ : (phasesOf qs c).life = .serving ∧ fd = (phasesOf qs c).fd ∧ u ≠ "" :=
      hguard
    have ⟨hc, hserves⟩ := hsound.handlers.started c (hsound.started hprog)
    have hsame : (qs (.server (.handler c))).after (.server (.register fd u a)) =
        qs (.server (.handler c)) := rfl
    rw [hsame, update_eq_self]
    exact h.register hc hserving (hserves.symm.trans hfd.symm) hu hm hrefused

/-- A field of a session that the change of another field leaves as it is. -/
theorem Memory.modify_field {α : Type} (m : Memory) (s u : SessionRef) (f : SessionInfo → α)
    {g : SessionInfo → SessionInfo} (hf : ∀ i, f (g i) = f i) :
    f ((m.modify s g).heap u) = f (m.heap u) := by
  by_cases hu : u = s
  · subst hu
    simp [Memory.modify, hf]
  · simp [Memory.modify, hu]

/-- The loop over `sessions_` in `stop` changes no session but for `alive`. -/
theorem closeSessions_same (w : RunWorld) (todo : List Fd) :
    w.mem.SameSessions (RunWorld.closeSessions todo w).mem := by
  have hone : ∀ (w : RunWorld) (fd : Fd) (s : SessionRef),
      w.mem.SameSessions (w.closeSession fd s).mem := by
    intro w fd s
    have hf := (w.mem.modify s fun i => { i with alive := false }).shutdown_frame fd
    exact ⟨hf.registry, hf.nextRef, hf.registeredOn, hf.nextConn, hf.connFd,
      fun u => (hf.username u).trans (w.mem.modify_field s u SessionInfo.username fun _ => rfl),
      fun u => (hf.ip u).trans (w.mem.modify_field s u SessionInfo.ip fun _ => rfl),
      fun u => (hf.socketFd u).trans (w.mem.modify_field s u SessionInfo.socketFd fun _ => rfl)⟩
  induction todo generalizing w with
  | nil => exact ⟨rfl, rfl, rfl, rfl, fun _ => rfl, fun _ => rfl, fun _ => rfl, fun _ => rfl⟩
  | cons fd todo ih =>
    unfold RunWorld.closeSessions
    split
    · exact ih w
    · exact (hone w fd _).trans (ih _)

/-- Everything that an operation of the accept loop or of `stop` can do to the
sessions and the connections. -/
theorem RunWorld.exec_other {w w' : RunWorld} {q : Duty} {t : RunTid} {o : RunOp} {ch : RunChoice}
    {r : o.Resp} (ht : ∀ u, t ≠ .server u) (hguard : q.Allows t o)
    (he : w.exec cfg t o ch = some (r, w')) :
    (∃ fd peerIp, t = .main ∧ w.listening = true ∧ w.mem.fds fd = none ∧
        w' = w.withMem (w.mem.accept fd peerIp)) ∨
      w.mem.SameSessions w'.mem ∧ (t = .main → w'.mem.heap = w.mem.heap) ∧
        (∀ fd, w'.mem.fds fd = w.mem.fds fd ∨ w'.mem.fds fd = none) ∧
        (w'.listening = w.listening ∨ w'.listening = false) ∧
        (w'.swept = w.swept ∨ o = .closeSessions) := by
  have hsame : w.mem.SameSessions w.mem := (Memory.Frame.refl _).sameSessions
  have hfds : ∀ fd, w.mem.fds fd = w.mem.fds fd ∨ w.mem.fds fd = none := fun _ => Or.inl rfl
  cases o with
  | server o =>
    cases t with
    | server u => exact absurd rfl (ht u)
    | main | stop => exact hguard.elim
  | mem o =>
    cases t with
    | server u => exact absurd rfl (ht u)
    | stop n => exact hguard.elim
    | main =>
      cases o with
      | running | getPeerIp =>
        cases he
        exact Or.inr ⟨hsame, fun _ => rfl, hfds, Or.inl rfl, Or.inl rfl⟩
      | _ => exact hguard.elim
  | accept =>
    cases t with
    | server u => exact absurd rfl (ht u)
    | stop n => exact hguard.elim
    | main =>
      rw [exec] at he
      split at he
      · cases he
        exact Or.inr ⟨hsame, fun _ => rfl, hfds, Or.inl rfl, Or.inl rfl⟩
      · split at he
        · rename_i fd peerIp _ hfree
          cases he
          exact Or.inl ⟨fd, peerIp, rfl, hfree.1, hfree.2, rfl⟩
        · cases he
  | emplaceBack fd =>
    cases he
    rw [emplaceBack]
    split
    · exact Or.inr ⟨hsame, fun _ => rfl, hfds, Or.inl rfl, Or.inl rfl⟩
    · exact Or.inr ⟨hsame, fun _ => rfl, hfds, Or.inl rfl, Or.inl rfl⟩
  | closeSessions =>
    rw [exec] at he
    split at he
    · cases he
      refine Or.inr ⟨closeSessions_same w _, fun hmain => ?_, (w.swept_closeSessions ch.order).fds,
        Or.inl (w.swept_closeSessions ch.order).listening, Or.inr rfl⟩
      subst hmain
      exact hguard.elim
    · cases he
  | joinWatchdog | join =>
    rw [exec] at he
    split at he
    · cases he
      exact Or.inr ⟨hsame, fun _ => rfl, hfds, Or.inl rfl, Or.inl rfl⟩
    · cases he
  | clearRunning =>
    cases he
    exact Or.inr ⟨⟨rfl, rfl, rfl, rfl, fun _ => rfl, fun _ => rfl, fun _ => rfl, fun _ => rfl⟩,
      fun _ => rfl, hfds, Or.inl rfl, Or.inl rfl⟩
  | closeListen =>
    cases he
    exact Or.inr ⟨hsame, fun _ => rfl, hfds, Or.inr rfl, Or.inl rfl⟩
  | clientThreads =>
    cases he
    exact Or.inr ⟨hsame, fun _ => rfl, hfds, Or.inl rfl, Or.inl rfl⟩

/-- An operation of the accept loop or of `stop`. -/
theorem registered_other (hsound : Sound p qs) (h : p.shared.Registered (phasesOf qs)) {t : RunTid}
    {o : RunOp} {ch : RunChoice} {r : o.Resp} {w : RunWorld} (ht : ∀ u, t ≠ .server u)
    (he : p.shared.exec cfg t o ch = some (r, w)) (hguard : (qs t).Allows t o) :
    w.Registered (phasesOf (update qs t ((qs t).after o))) := by
  have hphase : phasesOf (update qs t ((qs t).after o)) = phasesOf qs := by
    funext d
    rw [phasesOf, update_of_ne (Ne.symm (ht _))]
  rw [hphase]
  rcases RunWorld.exec_other ht hguard he with ⟨fd, peerIp, _, hlistening, hfree, hw⟩ |
    ⟨hsame, _, hfds, hlistening, hswept⟩
  · -- The sessions are not closed yet, so the handlers that have not ended have their
    -- descriptors open.
    have hnot : p.shared.swept = false := by
      refine Bool.eq_false_of_not_eq_true fun hswept => ?_
      rw [h.refused hswept] at hlistening
      cases hlistening
    subst hw
    have hnew : p.shared.started p.shared.mem.nextConn = false := by
      refine Bool.eq_false_of_not_eq_true fun hstarted => ?_
      exact Nat.lt_irrefl _ (hsound.handlers.started _ hstarted).1
    refine h.accept (fun c hc hlife heq => ?_) ?_ rfl h.refused
    · have hopen := hsound.opened hnot c hc
        (Bool.eq_false_of_not_eq_true (mt (hsound.handlers.ended c).1 hlife))
      rw [heq, hfree] at hopen
      cases hopen
    · rw [hsound.handlers.fresh _ hnew]
      exact fun hclosed => (nomatch hclosed)
  · refine h.same hsame hfds (fun _ => rfl) fun hnow => ?_
    rcases hlistening with hkept | hclosed
    · rw [hkept]
      rcases hswept with hold | ho
      · exact h.refused (hold ▸ hnow)
      · subst ho
        cases t with
        | stop n =>
          have hstage : (qs (.stop n)).stage = 3 := hguard
          exact hsound.stopped.listening n (hstage ▸ by decide)
        | server | main => exact hguard.elim
    · exact hclosed

end Keep

theorem registered_keeps (cfg : Config) (C : RunState → RunStep → Prop) :
    Machine.Keeps (runMachine cfg) dutyMonitor DutyAt
      (fun p qs => Sound p qs ∧ p.shared.Registered (phasesOf qs)) C where
  op p qs t ch o k r w q' hJ hC hprog he hguard hnext := by
    refine ⟨(sound_keeps cfg C).op p qs t ch o k r w q' hJ.1 hC hprog he hguard hnext, ?_⟩
    rw [show q' = (qs t).after o from hnext]
    have hallows : (qs t).Allows t o := hguard
    by_cases ht : ∃ u, t = .server u
    · have ⟨u, hu⟩ := ht
      subst hu
      cases o with
      | server o => exact registered_server hJ.1 hJ.2 hprog he hallows
      | _ => exact hallows.elim
    · exact registered_other hJ.1 hJ.2 (fun u hu => ht ⟨u, hu⟩) he hallows
  jump p qs t c hJ _ hprog hpost := by
    refine ⟨qs t, program_duty cfg hpost, ?_⟩
    rw [update_eq_self]
    exact ⟨hJ.1.jump hprog, hJ.2⟩
  env p qs e w start hJ hC he := by
    have hframe := RunWorld.env_rest he
    have hsame := hframe.2.2.2.2.2.sameSessions
    have hfds : ∀ fd, w.mem.fds fd = p.shared.mem.fds fd ∨ w.mem.fds fd = none := fun fd =>
      Or.inl (by rw [hframe.2.2.2.2.2.fds])
    have hrefused : w.swept = true → w.listening = false := by
      rw [hframe.2.2.2.1, hframe.2.2.2.2.1]
      exact hJ.2.refused
    cases e with
    | callStop =>
      cases he
      refine ⟨qs, fun _ _ => rfl, fun t c hstart => ?_, hJ.1.callStop, ?_⟩
      · cases hstart
        exact hJ.1.stopped.uncalled _ (Nat.le_refl _)
      · exact hJ.2.same hsame hfds (fun _ => rfl) hrefused
    | start c =>
      change (if c ∈ p.shared.clientThreads ∧ p.shared.started c = false then _ else none) = _ at he
      split at he
      · rename_i hc
        cases he
        refine ⟨_, fun t ht => ?_, fun t ctl hstart => ?_, hJ.1.start hc.1 hc.2, ?_⟩
        · rw [update_of_ne]
          exact fun heq => ht _ (by rw [heq])
        · cases hstart
          rw [update_self]
          exact rfl
        · refine hJ.2.same hsame hfds (fun d => ?_) hrefused
          by_cases hd : d = c
          · subst hd
            rw [phasesOf, update_self]
            exact (hJ.1.handlers.fresh d hc.2).symm
          · rw [phasesOf, update_of_ne (by simpa using hd)]
      · cases he
    | net e =>
      have ⟨hstart, b, hw, hf⟩ := RunWorld.env_net he
      subst hstart hw
      exact ⟨qs, fun _ _ => rfl, fun _ _ hstart => (nomatch hstart), hJ.1.frame hf,
        hJ.2.same hsame hfds (fun _ => rfl) hrefused⟩

/-- The sessions of every reachable state belong to the handlers that serve. -/
theorem reachable_registered {cfg : Config} {C : RunState → RunStep → Prop} {p : RunState}
    (h : (runSystem cfg).Reaches C p) :
    ∃ qs, Machine.Monitored dutyMonitor DutyAt
      (fun p qs => Sound p qs ∧ p.shared.Registered (phasesOf qs)) p qs := by
  have ⟨qs, hobeys, hsound⟩ := reachable_sound (.init : (runSystem cfg).Reaches C _)
  refine (registered_keeps cfg C).steps h ⟨hobeys, hsound, ?_⟩
  refine ⟨Memory.consistent_init, fun fd s hs => ?_, fun c d hc => ?_, fun fd c hc => (nomatch hc),
    fun hswept => (nomatch hswept)⟩
  · change (∅ : Finmap fun _ : Fd => SessionRef).lookup fd = some s at hs
    rw [Finmap.lookup_empty] at hs
    cases hs
  · exact absurd hc (Nat.not_lt_zero c)

/-! ## The sessions a handler has found -/

/-- The sessions that a thread may change are those of its connection. -/
def OwnSessions (p : RunState) (own : RunTid → SessionRef → Prop) : Prop :=
  ∀ t s, own t s → s < p.shared.mem.nextRef ∧
    t = .server (.handler (p.shared.mem.registeredOn s))

theorem run_later {cfg : Config} {p p' : RunState} {l : RunStep} {qs : RunTid → Duty}
    (hobeys : ∀ t, (p.prog t).Obeys (dutyMonitor t) (DutyAt t) (qs t))
    (h : (runSystem cfg).step p l = some p') : p.shared.mem.Later p'.shared.mem := by
  cases l with
  | jump t =>
    have ⟨_, _, hp'⟩ := Machine.step_jump.1 h
    rw [hp']
    exact .refl _
  | env e =>
    have ⟨w, start, he, hp'⟩ := Machine.step_env.1 h
    rw [hp', Pool.afterEnv_shared]
    exact (RunWorld.env_rest he).2.2.2.2.2.later
  | op t ch =>
    have ⟨o, k, r, w, hprog, he, hp'⟩ := Machine.step_op.1 h
    have hguard := hobeys t
    rw [hprog] at hguard
    have hallows : (qs t).Allows t o := hguard.1
    rw [hp', Pool.afterOp_shared]
    by_cases ht : ∃ u, t = .server u
    · have ⟨u, hu⟩ := ht
      subst hu
      cases o with
      | server o =>
        have ⟨_, hexec, hx⟩ := Option.map_eq_some_iff.1 he
        cases hx
        exact exec_later hexec
      | _ => exact hallows.elim
    · rcases RunWorld.exec_other (fun u hu => ht ⟨u, hu⟩) hallows he with ⟨_, _, _, _, _, hw⟩ |
        ⟨hsame, _⟩
      · rw [hw]
        exact ⟨Nat.le_succ _, Nat.le_refl _, fun _ _ => rfl, fun _ _ => rfl, fun _ _ => rfl,
          fun _ _ => rfl⟩
      · exact ⟨hsame.nextConn.ge, hsame.nextRef.ge, fun s _ => by rw [hsame.registeredOn],
          fun s _ => hsame.username s, fun s _ => hsame.ip s, fun s _ => hsame.socketFd s⟩

theorem OwnSessions.later {p p' : RunState} {own : RunTid → SessionRef → Prop}
    (h : OwnSessions p own) (hl : p.shared.mem.Later p'.shared.mem) : OwnSessions p' own := by
  intro t s hs
  have ⟨hlt, ht⟩ := h t s hs
  exact ⟨Nat.lt_of_lt_of_le hlt hl.nextRef, by rw [hl.registeredOn s hlt]; exact ht⟩

/-- The session that a handler finds is that of its connection. -/
theorem finds_own {p : RunState} {qs : RunTid → Duty} {t : RunTid} {o : RunOp}
    {k : o.Resp → Prog Run RunCtl} {ch : RunChoice} {r : o.Resp} {w : RunWorld} {s : SessionRef}
    {cfg : Config} (hsound : Sound p qs) (hreg : p.shared.Registered (phasesOf qs))
    (hprog : p.prog t = .call o k) (hguard : (qs t).Allows t o)
    (he : p.shared.exec cfg t o ch = some (r, w)) (hg : runEditors.gives o r s) :
    s < p.shared.mem.nextRef ∧ t = .server (.handler (p.shared.mem.registeredOn s)) := by
  cases o with
  | server o =>
    change Finds o r s at hg
    unfold Finds at hg
    split at hg
    · rename_i fd r
      cases t with
      | main | stop => exact hguard.elim
      | server t =>
        cases t with
        | watchdog => exact hguard.elim
        | handler c =>
          cases he
          have ⟨hserving, hfd⟩ : (phasesOf qs c).life = .serving ∧ fd = (phasesOf qs c).fd := hguard
          have ⟨hc, hserves⟩ := hsound.handlers.started c (hsound.started hprog)
          have howner := hreg.owner_eq hc (by rw [hserving]; decide) (hserves.symm.trans hfd.symm) hg
          exact ⟨hreg.consistent.allocated fd s hg, by rw [howner]⟩
    · exact hg.elim
  | _ => exact hg.elim

theorem ownSessions_keeps (cfg : Config) :
    Machine.Keeps (runMachine cfg) (fun _ => runEditors.monitor) (fun _ _ _ => True) OwnSessions
      (fun p _ => (runSystem cfg).Reaches Lts.Any p) where
  op p own t ch o k r w q' hJ hC hprog he _ hnext := by
    have ⟨qs, hobeys, hsound, hreg⟩ := reachable_registered hC
    have hstep : (runSystem cfg).step p (.op t ch) = some (p.afterOp t o k r w) :=
      Machine.step_op.2 ⟨o, k, r, w, hprog, he, rfl⟩
    have hlater := run_later hobeys hstep
    have hguard := hobeys t
    rw [hprog] at hguard
    intro u s hu
    by_cases hut : u = t
    · subst hut
      rw [update_self, show q' = _ from hnext] at hu
      rcases hu with hold | hgives
      · exact hJ.later hlater u s hold
      · have ⟨hlt, ht⟩ := finds_own hsound hreg hprog hguard.1 he hgives
        exact ⟨Nat.lt_of_lt_of_le hlt hlater.nextRef, by rw [hlater.registeredOn s hlt]; exact ht⟩
    · rw [update_of_ne hut] at hu
      exact hJ.later hlater u s hu
  jump p own t c hJ _ _ _ := by
    refine ⟨own t, runProgram_edits cfg c _, ?_⟩
    rw [update_eq_self]
    exact hJ
  env p own e w start hJ _ he := by
    refine ⟨own, fun _ _ => rfl, fun _ _ _ => trivial, hJ.later ?_⟩
    rw [Pool.afterEnv_shared]
    exact (RunWorld.env_rest he).2.2.2.2.2.later

/-- In every reachable state, a thread that is about to change a session is the
handler of the session's connection. -/
theorem edits_own {cfg : Config} {p : RunState} (h : (runSystem cfg).Reaches Lts.Any p) {t : RunTid}
    {o : ServerOp} {k : o.Resp → Prog Run RunCtl} {s : SessionRef}
    (hprog : p.prog t = .call (.server o) k) (hs : Edits o s) :
    t = .server (.handler (p.shared.mem.registeredOn s)) := by
  have hreaches := h.strengthen (D := fun p _ => (runSystem cfg).Reaches Lts.Any p)
    fun q _ _ hq _ _ => hq
  have hinit : Machine.Monitored (fun _ => runEditors.monitor) (fun _ _ _ => True) OwnSessions
      (runSystem cfg).init fun _ _ => False := ⟨fun _ => trivial, fun _ _ hs => hs.elim⟩
  have ⟨own, hobeys, hown⟩ := (ownSessions_keeps cfg).steps hreaches hinit
  have hguard := hobeys t
  rw [hprog] at hguard
  exact (hown t s (hguard.1 s hs)).2

/-! ## Registrations stay intact -/

/-- The registration of connection `d` is in `m'` what it is in `m`: its session, and
its entries in the three maps. -/
structure Memory.Intact (d : ConnId) (m m' : Memory) : Prop where
  heap : ∀ s, s < m.nextRef → m.registeredOn s = d → m'.heap s = m.heap s
  sessions : ∀ fd s, s < m.nextRef → m.registeredOn s = d →
    (m'.registry.sessions.lookup fd = some s ↔ m.registry.sessions.lookup fd = some s)
  usernameToFd : ∀ fd s, m.registry.sessions.lookup fd = some s → m.registeredOn s = d →
    ∀ u, m'.registry.usernameToFd.lookup u = some fd ↔ m.registry.usernameToFd.lookup u = some fd
  ipToFd : ∀ fd s, m.registry.sessions.lookup fd = some s → m.registeredOn s = d →
    ∀ a, m'.registry.ipToFd.lookup a = some fd ↔ m.registry.ipToFd.lookup a = some fd
  /-- No session is registered for `d`. -/
  fresh : ∀ s, m.nextRef ≤ s → s < m'.nextRef → m'.registeredOn s ≠ d

/-- The step is not one of the handler of `d`, of the watchdog, or of `stop`. -/
def ByOther (d : ConnId) : RunStep → Prop
  | .op (.server t) _ => t ≠ .handler d ∧ t ≠ .watchdog
  | .op .main _ => True
  | .op (.stop _) _ => False
  | .jump _ => True
  | .env _ => True

instance (d : ConnId) (l : RunStep) : Decidable (ByOther d l) :=
  match l with
  | .op (.server _) _ => inferInstanceAs (Decidable (_ ∧ _))
  | .op .main _ => .isTrue trivial
  | .op (.stop _) _ => .isFalse id
  | .jump _ => .isTrue trivial
  | .env _ => .isTrue trivial

namespace Memory

variable {d : ConnId} {m m' m'' : Memory}

theorem Intact.of_same (hheap : m'.heap = m.heap) (hregistry : m'.registry = m.registry)
    (hnextRef : m'.nextRef = m.nextRef) : m.Intact d m' := by
  refine ⟨fun s _ _ => by rw [hheap], fun fd s _ _ => by rw [hregistry],
    fun fd s _ _ u => by rw [hregistry], fun fd s _ _ a => by rw [hregistry], fun s hge hlt => ?_⟩
  rw [hnextRef] at hlt
  exact absurd hlt (Nat.not_lt.2 hge)

theorem Intact.trans (hc : m.Consistent) (hl : m.Later m') (hl' : m'.Later m'')
    (h : m.Intact d m') (h' : m'.Intact d m'') : m.Intact d m'' := by
  have hown : ∀ s, s < m.nextRef → m.registeredOn s = d → s < m'.nextRef ∧ m'.registeredOn s = d :=
    fun s hs hd => ⟨Nat.lt_of_lt_of_le hs hl.nextRef, (hl.registeredOn s hs).trans hd⟩
  have hkept : ∀ fd s, m.registry.sessions.lookup fd = some s → m.registeredOn s = d →
      m'.registry.sessions.lookup fd = some s ∧ m'.registeredOn s = d := by
    intro fd s hs hd
    have hlt := hc.allocated fd s hs
    exact ⟨(h.sessions fd s hlt hd).2 hs, (hown s hlt hd).2⟩
  refine ⟨fun s hs hd => ?_, fun fd s hs hd => ?_, fun fd s hs hd u => ?_, fun fd s hs hd a => ?_,
    fun s hge hlt => ?_⟩
  · have ⟨hs', hd'⟩ := hown s hs hd
    exact (h'.heap s hs' hd').trans (h.heap s hs hd)
  · have ⟨hs', hd'⟩ := hown s hs hd
    exact (h'.sessions fd s hs' hd').trans (h.sessions fd s hs hd)
  · have ⟨hs', hd'⟩ := hkept fd s hs hd
    exact (h'.usernameToFd fd s hs' hd' u).trans (h.usernameToFd fd s hs hd u)
  · have ⟨hs', hd'⟩ := hkept fd s hs hd
    exact (h'.ipToFd fd s hs' hd' a).trans (h.ipToFd fd s hs hd a)
  · by_cases hold : s < m'.nextRef
    · rw [hl'.registeredOn s hold]
      exact h.fresh s hge hold
    · exact h'.fresh s (Nat.not_lt.1 hold) hlt

/-- The entries in the indexes follow the sessions. -/
theorem Intact.of_sessions (hc : m.Consistent) (hc' : m'.Consistent)
    (hheap : ∀ s, s < m.nextRef → m.registeredOn s = d → m'.heap s = m.heap s)
    (hsessions : ∀ fd s, s < m.nextRef → m.registeredOn s = d →
      (m'.registry.sessions.lookup fd = some s ↔ m.registry.sessions.lookup fd = some s))
    (hfresh : ∀ s, m.nextRef ≤ s → s < m'.nextRef → m'.registeredOn s ≠ d) : m.Intact d m' := by
  -- Of the sessions under a descriptor of `d` both memories know the same one.
  have hindex : ∀ {I : Type} (f : SessionInfo → I) (i : I) (fd : Fd) (s : SessionRef),
      m.registry.sessions.lookup fd = some s → m.registeredOn s = d →
      ((∃ v, m'.registry.sessions.lookup fd = some v ∧ f (m'.heap v) = i) ↔
        ∃ v, m.registry.sessions.lookup fd = some v ∧ f (m.heap v) = i) := by
    intro I f i fd s hs hd
    have hlt := hc.allocated fd s hs
    have hs' := (hsessions fd s hlt hd).2 hs
    simp only [hs, hs', Option.some.injEq, exists_eq_left', hheap s hlt hd]
  refine ⟨hheap, hsessions, fun fd s hs hd u => ?_, fun fd s hs hd a => ?_, hfresh⟩
  · rw [hc'.names u fd, hc.names u fd]
    exact hindex SessionInfo.username u fd s hs hd
  · rw [hc'.ips a fd, hc.ips a fd]
    exact hindex SessionInfo.ip a fd s hs hd

end Memory

theorem RunWorld.env_sessions {w w' : RunWorld} {e : RunEnv} {start : Option (RunTid × RunCtl)}
    (h : w.env e = some (w', start)) : w'.mem.heap = w.mem.heap := by
  cases e with
  | callStop =>
    cases h
    rfl
  | start c =>
    rw [env] at h
    split at h
    · cases h
      rfl
    · cases h
  | net e =>
    cases e with
    | accept fd peerIp => cases h
    | tick n =>
      cases h
      rfl
    | clientSend | clientClose =>
      obtain ⟨_, henv, hx⟩ := Option.map_eq_some_iff.1 h
      cases hx
      exact (World.env_sessions henv).1

/-- An operation of another handler. -/
theorem handler_intact {cfg : Config} {p : RunState} (h : (runSystem cfg).Reaches Lts.Any p)
    {c d : ConnId} {o : ServerOp} {k : o.Resp → Prog Run RunCtl} {ch : Choice} {r : o.Resp}
    {b : World} (hcd : c ≠ d) (hprog : p.prog (.server (.handler c)) = .call (.server o) k)
    (he : p.shared.base.exec cfg (.handler c) o ch = some (r, b)) (hcons : b.mem.Consistent) :
    p.shared.mem.Intact d b.mem := by
  have ⟨qs, hobeys, hsound, hreg⟩ := reachable_registered h
  have hguard := hobeys (.server (.handler c))
  rw [hprog] at hguard
  have hallows : (phasesOf qs c).Allows o := hguard.1
  have ⟨hc, hserves⟩ := hsound.handlers.started c (hsound.started hprog)
  -- The session under the descriptor of the handler is not one of `d`.
  have hnot : ∀ fd s, (phasesOf qs c).life = .serving → fd = (phasesOf qs c).fd →
      p.shared.mem.registry.sessions.lookup fd = some s → p.shared.mem.registeredOn s ≠ d := by
    intro fd s hserving hfd hs heq
    have howner := hreg.owner_eq hc (by rw [hserving]; decide) (hserves.symm.trans hfd.symm) hs
    exact hcd (howner.symm.trans heq)
  refine .of_sessions hreg.consistent hcons (fun s hs hd => ?_) (fun fd s hs hd => ?_)
    fun s hge hlt => ?_
  · rcases exec_heap he hs with heq | hedits | ⟨fd, ho, hlook⟩ | ⟨now, ho⟩
    · exact heq
    · have ht := edits_own h hprog hedits
      rw [hd] at ht
      exact absurd (Tid.handler.inj (RunTid.server.inj ht)) hcd
    · subst ho
      exact absurd hd (hnot fd s hallows.1 hallows.2 hlook)
    · subst ho
      exact hallows.elim
  · rcases World.exec_mem_cases he with ⟨hf, _⟩ | ⟨fd', ho, hm⟩ | ⟨fd', _, hm⟩ |
      ⟨c', fd', u, a, ht, ho, hm⟩
    · rw [hf.registry]
    · subst ho
      rw [hm]
      rw [Memory.removeSession_lookup]
      split
      · rename_i hfd
        subst hfd
        exact ⟨fun hx => (by cases hx), fun hs => absurd hd (hnot fd s hallows.1 hallows.2 hs)⟩
      · rfl
    · rw [hm]
      exact Iff.rfl
    · rw [hm]
      rcases Memory.register_cases_created p.shared.mem c' fd' u a with ⟨_, heq⟩ |
        ⟨hnone, _, _, heq⟩
      · rw [heq]
      · rw [heq]
        show (p.shared.mem.registry.sessions.insert fd' _).lookup fd = some s ↔ _
        by_cases hfd : fd = fd'
        · subst hfd
          rw [Finmap.lookup_insert, Finmap.lookup_eq_none.2 hnone, Option.some.injEq]
          exact ⟨fun hx => absurd hs (hx ▸ Nat.lt_irrefl _), fun hx => (nomatch hx)⟩
        · rw [Finmap.lookup_insert_of_ne _ hfd]
  · rcases World.exec_mem_cases he with ⟨hf, _⟩ | ⟨fd, _, hm⟩ | ⟨fd, _, hm⟩ |
      ⟨c', fd, u, a, ht, _, hm⟩
    · rw [hf.nextRef] at hlt
      exact absurd hlt (Nat.not_lt.2 hge)
    · rw [hm, Memory.removeSession_nextRef] at hlt
      exact absurd hlt (Nat.not_lt.2 hge)
    · rw [hm] at hlt
      exact absurd hlt (Nat.not_lt.2 hge)
    · rw [hm] at hlt ⊢
      rcases Memory.register_cases_created p.shared.mem c' fd u a with ⟨_, heq⟩ | ⟨_, _, _, heq⟩
      · rw [heq] at hlt
        exact absurd hlt (Nat.not_lt.2 hge)
      · rw [heq] at hlt ⊢
        have hs : s = p.shared.mem.nextRef := Nat.le_antisymm (Nat.lt_succ_iff.1 hlt) hge
        show update p.shared.mem.registeredOn p.shared.mem.nextRef c' s ≠ d
        rw [hs, update_self, ← Tid.handler.inj ht]
        exact hcd

/-- One step that is not of the handler of `d`, the watchdog or `stop`. -/
theorem step_intact {cfg : Config} {p p' : RunState} {l : RunStep} {d : ConnId}
    (h : (runSystem cfg).Reaches Lts.Any p) (hl : ByOther d l)
    (hs : (runSystem cfg).step p l = some p') : p.shared.mem.Intact d p'.shared.mem := by
  have ⟨_, _, _, hreg'⟩ := reachable_registered (h.tail trivial hs)
  cases l with
  | jump t =>
    have ⟨_, _, hp'⟩ := Machine.step_jump.1 hs
    rw [hp']
    exact .of_same rfl rfl rfl
  | env e =>
    have ⟨w, start, he, hp'⟩ := Machine.step_env.1 hs
    have hf := (RunWorld.env_rest he).2.2.2.2.2
    rw [hp', Pool.afterEnv_shared]
    exact .of_same (RunWorld.env_sessions he) hf.registry hf.nextRef
  | op t ch =>
    have ⟨o, k, r, w, hprog, he, hp'⟩ := Machine.step_op.1 hs
    have ⟨qs, hobeys, _⟩ := reachable_registered h
    have hguard := hobeys t
    rw [hprog] at hguard
    have hallows : (qs t).Allows t o := hguard.1
    rw [hp', Pool.afterOp_shared] at hreg' ⊢
    cases t with
    | stop n => exact hl.elim
    | main =>
      rcases RunWorld.exec_other (by simp) hallows he with ⟨fd, peerIp, _, _, _, hw⟩ | ⟨hsame, hheap, _⟩
      · rw [hw]
        exact .of_same rfl rfl rfl
      · exact .of_same (hheap rfl) hsame.registry hsame.nextRef
    | server t =>
      cases t with
      | watchdog => exact absurd rfl hl.2
      | handler c =>
        cases o with
        | server o =>
          have ⟨⟨r', b⟩, hexec, hx⟩ := Option.map_eq_some_iff.1 he
          cases hx
          have hcd : c ≠ d := fun heq => hl.1 (congrArg Tid.handler heq)
          exact handler_intact h hcd hprog hexec hreg'.consistent
        | _ => exact hallows.elim

theorem steps_run_later {cfg : Config} {C : RunState → RunStep → Prop} {p p' : RunState}
    (h : (runSystem cfg).Reaches Lts.Any p) (hs : (runSystem cfg).Steps C p p') :
    p.shared.mem.Later p'.shared.mem := by
  refine hs.invariant (I := fun q => p.shared.mem.Later q.shared.mem) (.refl _) ?_
  intro q l q' hq hI _ hstep
  have ⟨qs, hobeys, _⟩ := reachable_registered (h.steps hq.any)
  exact hI.trans (run_later hobeys hstep)

/-- From every reachable state of the whole program on, the registration of a
connection stays what it is until its own handler, the watchdog or `stop` takes a
step: whatever the other clients send and however their handlers end. -/
theorem registration_isolated {cfg : Config} {p p' : RunState} {d : ConnId}
    (h : (runSystem cfg).Reaches Lts.Any p)
    (hs : (runSystem cfg).Steps (fun _ l => ByOther d l) p p') :
    p.shared.mem.Intact d p'.shared.mem := by
  have ⟨_, _, _, hreg⟩ := reachable_registered h
  refine hs.invariant (I := fun q => p.shared.mem.Intact d q.shared.mem) (.of_same rfl rfl rfl) ?_
  intro q l q' hq hI hl hstep
  have hreach := h.steps hq.any
  have ⟨qs, hobeys, _⟩ := reachable_registered hreach
  exact hI.trans hreg.consistent (steps_run_later h hq) (run_later hobeys hstep)
    (step_intact hreach hl hstep)

/-- "a" and "b" register. -/
def pairRegisterRun : List RunStep :=
  [.jump .main, .op .main {}, .op .main { conn := some (4, "10.0.0.1") }, .op .main {},
    .op .main {}, .jump .main, .op .main {}, .op .main { conn := some (5, "10.0.0.2") },
    .op .main {}, .op .main {}, .env (.start 0), .env (.start 1),
    .env (.net (.clientSend 0 [1, 0, 0, 0, 3, 10, 1, 97])),
    .env (.net (.clientSend 1 [1, 0, 0, 0, 3, 10, 1, 98])), .jump (.server (.handler 0))] ++
  List.replicate 6 (.op (.server (.handler 0)) { want := 100 }) ++
  [.jump (.server (.handler 1))] ++
  List.replicate 6 (.op (.server (.handler 1)) { want := 100 })

/-- "a" writes to "b" and leaves. -/
def pairLeaveRun : List RunStep :=
  [.env (.net (.clientSend 0 [3, 0, 0, 0, 7, 10, 2, 104, 105, 26, 1, 98])),
    .env (.net (.clientClose 0)), .jump (.server (.handler 0))] ++
  List.replicate 12 (.op (.server (.handler 0)) { want := 100 }) ++
  [.jump (.server (.handler 0)), .op (.server (.handler 0)) {}, .op (.server (.handler 0)) {},
    .jump (.server (.handler 0)), .op (.server (.handler 0)) {}, .op (.server (.handler 0)) {}]

theorem registration_isolated_pair :
    ∃ p p', (runSystem sampleConfig).Reaches Lts.Any p ∧
      (runSystem sampleConfig).Steps (fun _ l => ByOther 1 l) p p' ∧
      p.shared.mem.registry.sessions.lookup 4 = some 0 ∧
      p.shared.mem.registry.sessions.lookup 5 = some 1 ∧ p.shared.mem.registeredOn 1 = 1 ∧
      p'.shared.mem.registry.sessions.lookup 4 = none ∧ p.shared.mem.Intact 1 p'.shared.mem := by
  have hrun : ((runSystem sampleConfig).run (runSystem sampleConfig).init pairRegisterRun).any
      (fun p => decide (p.shared.mem.registry.sessions.lookup 4 = some 0) &&
        decide (p.shared.mem.registry.sessions.lookup 5 = some 1) &&
        decide (p.shared.mem.registeredOn 1 = 1) &&
        ((runSystem sampleConfig).run p pairLeaveRun).any fun p' =>
          decide (p'.shared.mem.registry.sessions.lookup 4 = none)) = true := by decide +kernel
  rw [Option.any_eq_true] at hrun
  have ⟨p, hp, hfacts⟩ := hrun
  simp only [Bool.and_eq_true, decide_eq_true_eq, Option.any_eq_true] at hfacts
  have ⟨⟨⟨ha, hb⟩, howner⟩, p', hp', hgone⟩ := hfacts
  have hreach : (runSystem sampleConfig).Reaches Lts.Any p := .of_run hp
  have hothers : ∀ l ∈ pairLeaveRun, ByOther 1 l := by decide
  have hsteps : (runSystem sampleConfig).Steps (fun _ l => ByOther 1 l) p p' :=
    .of_run hp' fun l hl _ => hothers l hl
  exact ⟨p, p', hreach, hsteps, ha, hb, howner, hgone, registration_isolated hreach hsteps⟩

end SimpleChat
