import SimpleChat.Delivery
import SimpleChat.Locking

/-!
# The first frame of a session

`handle_register` enters a session in the maps before it sends the 200.  It
holds `sessions_mutex_` meanwhile, and the other threads reach a session only
under this mutex.  So nobody can write through the session before.

`welcomeMonitor` follows a thread from the creation of a session to its 200.
`Welcoming` ties it to the owner of the mutex: a session that has not been
welcomed belongs to the thread that holds `sessions_mutex_`.
-/

namespace SimpleChat

open Conc Function

/-! ## The history -/

/-- The 200 of `handle_register`. -/
def welcome (username : String) : ServerMsg :=
  response StatusCode.OK_REGISTER ("Registration successful. Welcome, " ++ username ++ "!") true

/-- The response of an operation hands out the session. -/
def Hands : (o : LockOp) → o.Resp → SessionRef → Prop
  | .mem o, r, s => Gives (.mem o) r s
  | .create fd username peerIp, r, s => Gives (.register fd username peerIp) r s
  | _, _, _ => False

/-- The operation reads the maps of the registry. -/
def ReadsMaps : LockOp → Prop
  | .mem o => o.locksSessions = true
  | .create _ _ _ => True
  | _ => False

/-- The thread and the name for which session `s` was created. -/
def creations (s : SessionRef) (log : List (Event Locked Tid)) : List (Tid × String) :=
  log.filterMap fun
    | ⟨t, .create _ username _, .registered s'⟩ => if s' = s then some (t, username) else none
    | _ => none

/-- A frame was written through session `s`. -/
def WrittenThrough (s : SessionRef) (log : List (Event Locked Tid)) : Prop :=
  ∃ e ∈ log, ∃ fd msg, e.op = .write (some s) fd msg

/-- The first frame through session `s` was the 200 for its name, written by the
thread that created it. -/
def Welcomed (s : SessionRef) (log : List (Event Locked Tid)) : Prop :=
  ∃ L e R t username fd, log = L ++ e :: R ∧ ¬ WrittenThrough s L ∧ (t, username) ∈ creations s L ∧
    e.tid = t ∧ e.op = .write (some s) fd (welcome username)

section History

variable {s : SessionRef} {log R : List (Event Locked Tid)} {e : Event Locked Tid}

theorem creations_append (s : SessionRef) (log R : List (Event Locked Tid)) :
    creations s (log ++ R) = creations s log ++ creations s R := List.filterMap_append

theorem Welcomed.append (h : Welcomed s log) (R : List (Event Locked Tid)) :
    Welcomed s (log ++ R) := by
  have ⟨L, e, R', t, u, fd, hlog, hrest⟩ := h
  exact ⟨L, e, R' ++ R, t, u, fd, by rw [hlog, List.append_assoc, List.cons_append], hrest⟩

theorem Welcomed.written (h : Welcomed s log) : WrittenThrough s log := by
  have ⟨L, e, R, t, u, fd, hlog, _, _, _, hop⟩ := h
  exact ⟨e, by rw [hlog]; simp, fd, _, hop⟩

theorem writtenThrough_append :
    WrittenThrough s (log ++ [e]) ↔
      WrittenThrough s log ∨ ∃ fd msg, e.op = .write (some s) fd msg := by
  simp [WrittenThrough, or_and_right, exists_or]

end History

/-! ## The discipline of the programs -/

/-- What a thread holds on the way through a registration: whether it has locked
`sessions_mutex_`, the session that it has created and not welcomed, with its
name, and the sessions that it was handed. -/
structure Place where
  locked : Bool := false
  owes : Option (SessionRef × String) := none
  known : SessionRef → Prop

/-- The frame may be written through the session: the 200 if the thread owes one,
and any frame through a session that it was handed otherwise. -/
def Place.MayWrite (q : Place) (s : SessionRef) (msg : ServerMsg) : Prop :=
  match q.owes with
  | none => q.known s
  | some (s', username) => s = s' ∧ msg = welcome username

/-- What a thread may do. -/
def Place.Allows (q : Place) : LockOp → Prop
  | .lock .sessions => q.locked = false ∧ q.owes = none
  | .unlock .sessions => q.locked = true ∧ q.owes = none
  | .lock (.send _) => True
  | .unlock (.send _) => True
  | .mem o => o.locksSessions = true → q.locked = true ∧ q.owes = none
  | .create _ _ _ => q.locked = true ∧ q.owes = none
  | .write none _ _ => True
  | .write (some s) _ msg => q.MayWrite s msg

/-- What it holds after an operation. -/
def Place.after (q : Place) : (o : LockOp) → o.Resp → Place
  | .lock .sessions, _ => { q with locked := true }
  | .unlock .sessions, _ => { q with locked := false }
  | .mem o, r => { q with known := fun s => q.known s ∨ Gives (.mem o) r s }
  | .create fd username peerIp, r =>
    { q with
      owes := match r with
        | .registered s => some (s, username)
        | _ => none
      known := fun s => q.known s ∨ Gives (.register fd username peerIp) r s }
  | .write (some _) _ _, _ => { q with owes := none }
  | _, _ => q

def welcomeMonitor : Prog.Monitor Locked Place := .det Place.Allows Place.after

/-- The thread is between two operations of `Server`, and knows at least the
sessions of `K`. -/
structure Place.Knows (K : SessionRef → Prop) (q : Place) : Prop where
  locked : q.locked = false
  owes : q.owes = none
  known : ∀ s, K s → q.known s

theorem Place.MayWrite.mono {q q' : Place} {s : SessionRef} {msg : ServerMsg}
    (h : q.MayWrite s msg) (howes : q'.owes = q.owes) (hknown : ∀ y, q.known y → q'.known y) :
    q'.MayWrite s msg := by
  unfold Place.MayWrite at h ⊢
  rw [howes]
  split at h
  · exact hknown s h
  · exact h

/-- `send_locked` settles what the thread owes. -/
theorem lockedSend_welcomes {s : SessionRef} {msg : ServerMsg} {q : Place} (h : q.MayWrite s msg) :
    (lockedSend s msg).Obeys welcomeMonitor
      (fun _ q' => q'.locked = q.locked ∧ q'.owes = none ∧ ∀ y, q.known y → q'.known y) q := by
  refine Prog.obeys_det_call.2 ⟨trivial, fun _ => ?_⟩
  refine Prog.obeys_det_call.2 ⟨fun hl => (nomatch hl), fun i => ?_⟩
  refine Prog.obeys_det_call.2 ⟨h.mono rfl fun y hy => Or.inl hy, fun _ => ?_⟩
  exact Prog.obeys_det_call.2 ⟨trivial, fun _ => ⟨rfl, rfl, fun y hy => Or.inl hy⟩⟩

/-- The reply of `handle_register` settles what it owes. -/
theorem lockedReply_welcomes (fd : Fd) (username peerIp : String) (r : Memory.RegisterOutcome)
    {q : Place} :
    (lockedReply fd (registerReply username peerIp r)).Obeys welcomeMonitor
      (fun _ q' => q'.locked = q.locked ∧ q'.owes = none ∧
        ∀ y, q.known y ∨ Gives (.register fd username peerIp) r y → q'.known y)
      (q.after (.create fd username peerIp) r) := by
  cases r with
  | alreadyRegistered s =>
    have hmay : (q.after (.create fd username peerIp) (.alreadyRegistered s)).MayWrite s
        (response StatusCode.BAD_REQUEST "Already registered" false) := Or.inr rfl
    exact (lockedSend_welcomes hmay).weaken fun _ _ h => h
  | usernameTaken => exact Prog.obeys_det_call.2 ⟨trivial, fun _ => ⟨rfl, rfl, fun _ hy => hy⟩⟩
  | ipTaken => exact Prog.obeys_det_call.2 ⟨trivial, fun _ => ⟨rfl, rfl, fun _ hy => hy⟩⟩
  | registered s =>
    have hmay : (q.after (.create fd username peerIp) (.registered s)).MayWrite s
        (welcome username) := ⟨rfl, rfl⟩
    exact (lockedSend_welcomes hmay).weaken fun _ _ h => h

/-- A block under `sessions_mutex_`. -/
theorem underSessions_welcomes {α : Type} {block : Prog Locked α} {K : α → SessionRef → Prop}
    {q : Place} (hq : q.locked = false ∧ q.owes = none)
    (h : block.Obeys welcomeMonitor
      (fun a q' => q'.locked = true ∧ q'.owes = none ∧ ∀ y, K a y → q'.known y)
      { q with locked := true }) :
    (underSessions block).Obeys welcomeMonitor (fun a q' => q'.Knows (K a)) q := by
  refine Prog.obeys_det_call.2 ⟨hq, fun _ => ?_⟩
  refine h.bind fun a q' ⟨hlocked, howes, hknown⟩ => ?_
  exact Prog.obeys_det_call.2 ⟨⟨hlocked, howes⟩, fun _ => ⟨rfl, howes, hknown⟩⟩

/-- An operation of `Server` takes the mutex for itself, and welcomes the session
that it creates. -/
theorem lockedOp_welcomes {K : SessionRef → Prop} {q : Place} {o : ServerOp} (hq : q.Knows K)
    (ho : writers.monitor.guard K o) :
    (lockedOp o).Obeys welcomeMonitor (fun r q' => q'.Knows fun y => K y ∨ Gives o r y) q := by
  have hknown : ∀ {P : SessionRef → Prop} y, K y ∨ P y → q.known y ∨ P y :=
    fun y => Or.imp_left (hq.known y)
  cases o with
  | mem o =>
    unfold lockedOp
    dsimp only
    split
    · refine underSessions_welcomes ⟨hq.locked, hq.owes⟩ ?_
      exact Prog.obeys_det_call.2 ⟨fun _ => ⟨rfl, hq.owes⟩, fun r => ⟨rfl, hq.owes, hknown⟩⟩
    · rename_i hfree
      exact Prog.obeys_det_call.2 ⟨fun hl => absurd hl hfree, fun r => ⟨hq.locked, hq.owes, hknown⟩⟩
  | sendBare fd msg =>
    exact Prog.obeys_det_call.2 ⟨trivial, fun _ => ⟨hq.locked, hq.owes,
      fun y hy => hy.elim (hq.known y) False.elim⟩⟩
  | sendLocked s msg =>
    have hmay : q.MayWrite s msg := by
      unfold Place.MayWrite
      rw [hq.owes]
      exact hq.known s (ho s ⟨msg, rfl⟩)
    refine (lockedSend_welcomes hmay).weaken fun _ q' ⟨hlocked, howes, hkeep⟩ => ?_
    exact ⟨hlocked.trans hq.locked, howes, fun y hy => hy.elim (fun hy => hkeep y (hq.known y hy))
      False.elim⟩
  | register fd username peerIp =>
    refine underSessions_welcomes ⟨hq.locked, hq.owes⟩ ?_
    refine Prog.obeys_det_call.2 ⟨⟨rfl, hq.owes⟩, fun r => ?_⟩
    refine (lockedReply_welcomes fd username peerIp r).bind fun _ q' ⟨hlocked, howes, hkeep⟩ => ?_
    exact ⟨hlocked, howes, fun y hy => hkeep y (hknown y hy)⟩

/-- The programs of the server, at this level. -/
theorem program_welcomes (cfg : Config) (ctl : Ctl) {q : Place}
    (hq : q.locked = false ∧ q.owes = none) :
    ((ctl.program cfg).interp lockedOp).Obeys welcomeMonitor
      (fun _ q' => q'.locked = false ∧ q'.owes = none) q := by
  have hgiven := program_given cfg (fun _ => False) ctl
  have hexpand := Prog.Obeys.expand (R := Place.Knows) (N := welcomeMonitor) (h := lockedOp)
    (fun K q o hK ho => lockedOp_welcomes hK ho)
    (show q.Knows fun _ => False from ⟨hq.1, hq.2, fun _ h => h.elim⟩) hgiven
  exact hexpand.weaken fun _ q' ⟨K, hK, _⟩ => ⟨hK.locked, hK.owes⟩

/-! ## The invariant -/

/-- A session that is not welcomed belongs to the thread that holds
`sessions_mutex_`, and nobody else knows it. -/
structure Welcoming (p : LockState) (qs : Tid → Place) : Prop where
  owner : ∀ t, p.shared.owner .sessions = some t ↔ (qs t).locked = true
  allocated : ∀ fd s, p.shared.mem.registry.sessions.lookup fd = some s → s < p.shared.mem.nextRef
  unborn : ∀ s, p.shared.mem.nextRef ≤ s → creations s p.log = [] ∧ ¬ WrittenThrough s p.log
  once : ∀ s, (creations s p.log).length ≤ 1
  known : ∀ t s, (qs t).known s →
    s < p.shared.mem.nextRef ∧ (Welcomed s p.log ∨ ∃ u, (qs t).owes = some (s, u))
  owes : ∀ t s u, (qs t).owes = some (s, u) →
    (qs t).locked = true ∧ s < p.shared.mem.nextRef ∧ ¬ WrittenThrough s p.log ∧
      (t, u) ∈ creations s p.log
  settled : ∀ s, s < p.shared.mem.nextRef →
    Welcomed s p.log ∨ ∃ t u, (qs t).owes = some (s, u)

section Keep

variable {p : LockState} {qs : Tid → Place} {t : Tid} {q' : Place}

/-- Only the owner of `sessions_mutex_` owes a 200. -/
theorem Welcoming.owner_owes (h : Welcoming p qs) (hlocked : (qs t).locked = true) {u : Tid}
    {x : SessionRef × String} (hx : (qs u).owes = some x) : u = t := by
  have hu := (h.owner u).2 (h.owes u x.1 x.2 hx).1
  have ht := (h.owner t).2 hlocked
  exact Option.some.inj (hu.symm.trans ht)

theorem Welcoming.not_locked (h : Welcoming p qs) {u : Tid}
    (hu : p.shared.owner .sessions ≠ some u) : (qs u).locked = false :=
  Bool.eq_false_of_not_eq_true fun hl => hu ((h.owner u).2 hl)

theorem Welcoming.locked_of_owes (h : Welcoming p qs) (howes : (qs t).owes ≠ none) :
    (qs t).locked = true := by
  have ⟨x, hx⟩ := Option.ne_none_iff_exists'.1 howes
  exact (h.owes t x.1 x.2 hx).1

/-- A thread that may use the maps finds every session welcomed. -/
theorem Welcoming.welcomed (h : Welcoming p qs) (hlocked : (qs t).locked = true)
    (howes : (qs t).owes = none) {s : SessionRef} (hs : s < p.shared.mem.nextRef) :
    Welcomed s p.log := by
  rcases h.settled s hs with hw | ⟨u, name, hu⟩
  · exact hw
  · have hut := h.owner_owes hlocked hu
    rw [hut, howes] at hu
    cases hu

/-- A thread that stays on its side of `sessions_mutex_`. -/
theorem Welcoming.owner_update (h : Welcoming p qs) {q' : Place}
    (hq : q'.locked = (qs t).locked) (u : Tid) :
    p.shared.owner .sessions = some u ↔ (update qs t q' u).locked = true := by
  rw [h.owner]
  by_cases hu : u = t
  · rw [hu, update_self, hq]
  · rw [update_of_ne hu]

/-- The programs do not matter, and neither do the clock and the connections. -/
theorem Welcoming.same (h : Welcoming p qs) {p' : LockState}
    (howner : p'.shared.owner = p.shared.owner)
    (href : p'.shared.mem.nextRef = p.shared.mem.nextRef)
    (hregistry : p'.shared.mem.registry = p.shared.mem.registry) (hlog : p'.log = p.log) :
    Welcoming p' qs where
  owner := by rw [howner]; exact h.owner
  allocated := by rw [href, hregistry]; exact h.allocated
  unborn := by rw [href, hlog]; exact h.unborn
  once := by rw [hlog]; exact h.once
  known := by rw [href, hlog]; exact h.known
  owes := by rw [href, hlog]; exact h.owes
  settled := by rw [href, hlog]; exact h.settled

/-- An operation that neither creates a session nor writes through one. -/
theorem Welcoming.plain (h : Welcoming p qs) {p' : LockState} {e : Event Locked Tid}
    (hlog : p'.log = p.log ++ [e]) (hcreates : ∀ s, creations s [e] = [])
    (hwrites : ∀ s fd msg, e.op ≠ .write (some s) fd msg)
    (href : p'.shared.mem.nextRef = p.shared.mem.nextRef)
    (hlook : ∀ fd s, p'.shared.mem.registry.sessions.lookup fd = some s →
      p.shared.mem.registry.sessions.lookup fd = some s)
    (howner : ∀ u, p'.shared.owner .sessions = some u ↔ (update qs t q' u).locked = true)
    (howes : q'.owes = (qs t).owes)
    (hlocked : (qs t).owes ≠ none → q'.locked = true)
    (hknown : ∀ s, q'.known s → (qs t).known s ∨ s < p.shared.mem.nextRef ∧ Welcomed s p.log) :
    Welcoming p' (update qs t q') := by
  have hcreations : ∀ s, creations s p'.log = creations s p.log := by
    intro s
    rw [hlog, creations_append, hcreates, List.append_nil]
  have hwritten : ∀ s, WrittenThrough s p'.log ↔ WrittenThrough s p.log := by
    intro s
    rw [hlog, writtenThrough_append]
    exact or_iff_left fun ⟨fd, msg, hop⟩ => hwrites s fd msg hop
  have hwelcomed : ∀ {s}, Welcomed s p.log → Welcomed s p'.log := by
    intro s hs
    rw [hlog]
    exact hs.append _
  have howes' : ∀ u, (update qs t q' u).owes = (qs u).owes := by
    intro u
    by_cases hu : u = t
    · rw [hu, update_self, howes]
    · rw [update_of_ne hu]
  refine ⟨howner, fun fd s hs => ?_, fun s hs => ?_, fun s => ?_, fun u s hs => ?_,
    fun u s name hs => ?_, fun s hs => ?_⟩
  · rw [href]
    exact h.allocated fd s (hlook fd s hs)
  · rw [href] at hs
    rw [hcreations, hwritten]
    exact h.unborn s hs
  · rw [hcreations]
    exact h.once s
  · rw [howes', href]
    by_cases hu : u = t
    · subst hu
      rw [update_self] at hs
      rcases hknown s hs with hold | ⟨hlt, hw⟩
      · have ⟨hlt, hcase⟩ := h.known u s hold
        exact ⟨hlt, hcase.imp_left hwelcomed⟩
      · exact ⟨hlt, Or.inl (hwelcomed hw)⟩
    · rw [update_of_ne hu] at hs
      have ⟨hlt, hcase⟩ := h.known u s hs
      exact ⟨hlt, hcase.imp_left hwelcomed⟩
  · rw [howes'] at hs
    have ⟨hl, hlt, hnot, hcreated⟩ := h.owes u s name hs
    rw [href, hwritten, hcreations]
    refine ⟨?_, hlt, hnot, hcreated⟩
    by_cases hu : u = t
    · subst hu
      rw [update_self]
      exact hlocked (by rw [hs]; exact Option.some_ne_none _)
    · rw [update_of_ne hu]
      exact hl
  · rw [href] at hs
    rcases h.settled s hs with hw | ⟨u, name, hu⟩
    · exact Or.inl (hwelcomed hw)
    · exact Or.inr ⟨u, name, by rw [howes']; exact hu⟩

/-- An operation that does not touch `sessions_`, of a thread that owes what it
owed. -/
theorem Welcoming.stay (h : Welcoming p qs) {p' : LockState} {e : Event Locked Tid}
    (hlog : p'.log = p.log ++ [e]) (hcreates : ∀ s, creations s [e] = [])
    (hwrites : ∀ s fd msg, e.op ≠ .write (some s) fd msg)
    (hmem : p'.shared.mem = p.shared.mem)
    (howner : ∀ u, p'.shared.owner .sessions = some u ↔ (update qs t q' u).locked = true)
    (howes : q'.owes = (qs t).owes) (hlocked : (qs t).owes ≠ none → q'.locked = true)
    (hknown : ∀ s, q'.known s → (qs t).known s ∨ s < p.shared.mem.nextRef ∧ Welcomed s p.log) :
    Welcoming p' (update qs t q') :=
  h.plain hlog hcreates hwrites (by rw [hmem]) (fun _ _ hs => hmem ▸ hs) howner howes hlocked hknown

/-- An operation of a thread that is after it where it was before. -/
theorem Welcoming.rest (h : Welcoming p qs) {p' : LockState} {e : Event Locked Tid}
    (hlog : p'.log = p.log ++ [e]) (hcreates : ∀ s, creations s [e] = [])
    (hwrites : ∀ s fd msg, e.op ≠ .write (some s) fd msg) (hmem : p'.shared.mem = p.shared.mem)
    (howner : p'.shared.owner .sessions = p.shared.owner .sessions) :
    Welcoming p' (update qs t (qs t)) := by
  refine h.stay hlog hcreates hwrites hmem (fun u => ?_) rfl h.locked_of_owes fun _ hs => Or.inl hs
  rw [howner]
  exact h.owner_update rfl u

/-- A frame through a session that is welcomed, or the 200 that is owed. -/
theorem Welcoming.write (h : Welcoming p qs) {p' : LockState} {s : SessionRef} {fd : Fd}
    {msg : ServerMsg} (hlog : p'.log = p.log ++ [⟨t, .write (some s) fd msg, ()⟩])
    (hshared : p'.shared = p.shared) (hmay : (qs t).MayWrite s msg) :
    Welcoming p' (update qs t { qs t with owes := none }) := by
  have hcreations : ∀ x, creations x p'.log = creations x p.log := by
    intro x
    rw [hlog, creations_append]
    exact List.append_nil _
  have hwritten : ∀ x, WrittenThrough x p'.log ↔ WrittenThrough x p.log ∨ x = s := by
    intro x
    rw [hlog, writtenThrough_append]
    simp [eq_comm]
  have hkeep : ∀ {x}, Welcomed x p.log → Welcomed x p'.log := by
    intro x hx
    rw [hlog]
    exact hx.append _
  -- After the frame the session is welcomed, and it existed before.
  have hsession : s < p.shared.mem.nextRef ∧ Welcomed s p'.log ∧
      ∀ u x name, (qs u).owes = some (x, name) → u ≠ t → x ≠ s := by
    unfold Place.MayWrite at hmay
    split at hmay
    · rename_i hnone
      have ⟨hlt, hcase⟩ := h.known t s hmay
      have hw : Welcomed s p.log := by
        rcases hcase with hw | ⟨name, hname⟩
        · exact hw
        · rw [hnone] at hname
          cases hname
      refine ⟨hlt, hkeep hw, fun u x name hx _ heq => ?_⟩
      exact (h.owes u x name hx).2.2.1 (heq ▸ hw.written)
    · rename_i s' name hsome
      have ⟨hs, hmsg⟩ := hmay
      subst hs hmsg
      have ⟨hl, hlt, hnot, hcreated⟩ := h.owes t s name hsome
      refine ⟨hlt, ⟨p.log, _, [], t, name, fd, hlog, hnot, hcreated, rfl, rfl⟩, ?_⟩
      exact fun u x name' hx hne => absurd (h.owner_owes hl hx) hne
  have ⟨hlt, hwelcome, hother⟩ := hsession
  refine ⟨fun u => ?_, fun k x hx => ?_, fun x hx => ?_, fun x => ?_, fun u x hx => ?_,
    fun u x name hx => ?_, fun x hx => ?_⟩
  · rw [hshared]
    refine h.owner_update ?_ u
    rfl
  · rw [hshared] at hx ⊢
    exact h.allocated k x hx
  · rw [hshared] at hx
    rw [hcreations, hwritten]
    have ⟨hc, hw⟩ := h.unborn x hx
    exact ⟨hc, fun hor => hor.elim hw fun heq => absurd hlt (Nat.not_lt.2 (heq ▸ hx))⟩
  · rw [hcreations]
    exact h.once x
  · rw [hshared]
    by_cases hu : u = t
    · subst hu
      rw [update_self] at hx
      have ⟨hxlt, hcase⟩ := h.known u x hx
      refine ⟨hxlt, Or.inl ?_⟩
      rcases hcase with hw | ⟨name, hname⟩
      · exact hkeep hw
      · -- The session that was owed is the one that was written.
        unfold Place.MayWrite at hmay
        rw [hname] at hmay
        rw [← hmay.1]
        exact hwelcome
    · rw [update_of_ne hu] at hx ⊢
      have ⟨hxlt, hcase⟩ := h.known u x hx
      exact ⟨hxlt, hcase.imp_left hkeep⟩
  · by_cases hu : u = t
    · rw [hu, update_self] at hx
      cases hx
    · rw [update_of_ne hu] at hx ⊢
      have ⟨hl, hxlt, hnot, hcreated⟩ := h.owes u x name hx
      rw [hshared, hwritten, hcreations]
      exact ⟨hl, hxlt, fun hor => hor.elim hnot (hother u x name hx hu), hcreated⟩
  · rw [hshared] at hx
    rcases h.settled x hx with hw | ⟨u, name, hu⟩
    · exact Or.inl (hkeep hw)
    · by_cases hut : u = t
      · subst hut
        unfold Place.MayWrite at hmay
        rw [hu] at hmay
        rw [← hmay.1]
        exact Or.inl hwelcome
      · exact Or.inr ⟨u, name, by rw [update_of_ne hut]; exact hu⟩

/-- `handle_register` creates a session. -/
theorem Welcoming.create (h : Welcoming p qs) {p' : LockState} {fd : Fd} {username peerIp : String}
    (hlog : p'.log = p.log ++
      [⟨t, .create fd username peerIp, .registered p.shared.mem.nextRef⟩])
    (howner : p'.shared.owner = p.shared.owner)
    (href : p'.shared.mem.nextRef = p.shared.mem.nextRef + 1)
    (hregistry : p'.shared.mem.registry.sessions =
      p.shared.mem.registry.sessions.insert fd p.shared.mem.nextRef)
    (hlocked : (qs t).locked = true) (hnone : (qs t).owes = none) :
    Welcoming p' (update qs t
      ((qs t).after (.create fd username peerIp) (.registered p.shared.mem.nextRef))) := by
  have hcreations : ∀ s, creations s p'.log = creations s p.log ++
      if p.shared.mem.nextRef = s then [(t, username)] else [] := by
    intro s
    rw [hlog, creations_append]
    by_cases hs : p.shared.mem.nextRef = s
    · simp [creations, hs]
    · simp [creations, hs]
  have hwritten : ∀ s, WrittenThrough s p'.log ↔ WrittenThrough s p.log := by
    intro s
    rw [hlog, writtenThrough_append]
    exact or_iff_left fun ⟨_, _, hop⟩ => (nomatch hop)
  have hkeep : ∀ {s}, Welcomed s p.log → Welcomed s p'.log := by
    intro s hs
    rw [hlog]
    exact hs.append _
  have hold : ∀ {s}, s < p.shared.mem.nextRef → s < p'.shared.mem.nextRef := by
    intro s hs
    rw [href]
    exact Nat.lt_succ_of_lt hs
  have ⟨hnocreation, hnowrite⟩ := h.unborn _ (Nat.le_refl p.shared.mem.nextRef)
  refine ⟨fun u => ?_, fun k s hs => ?_, fun s hs => ?_, fun s => ?_, fun u s hs => ?_,
    fun u s name hs => ?_, fun s hs => ?_⟩
  · rw [howner]
    refine h.owner_update ?_ u
    rfl
  · rw [hregistry] at hs
    by_cases hk : k = fd
    · rw [hk, Finmap.lookup_insert, Option.some.injEq] at hs
      rw [href, ← hs]
      exact Nat.lt_succ_self _
    · rw [Finmap.lookup_insert_of_ne _ hk] at hs
      exact hold (h.allocated k s hs)
  · rw [href] at hs
    have ⟨hc, hw⟩ := h.unborn s (Nat.le_of_succ_le hs)
    rw [hcreations, hwritten, hc, if_neg (Nat.ne_of_lt hs)]
    exact ⟨rfl, hw⟩
  · rw [hcreations]
    split
    · rename_i hs
      rw [← hs, hnocreation]
      exact Nat.le_refl _
    · rw [List.append_nil]
      exact h.once s
  · by_cases hu : u = t
    · subst hu
      rw [update_self] at hs ⊢
      rcases hs with hs | hs
      · have ⟨hlt, hcase⟩ := h.known u s hs
        exact ⟨hold hlt, Or.inl (hkeep (h.welcomed hlocked hnone hlt))⟩
      · have heq : p.shared.mem.nextRef = s := Option.some.inj hs
        subst heq
        rw [href]
        exact ⟨Nat.lt_succ_self _, Or.inr ⟨username, rfl⟩⟩
    · rw [update_of_ne hu] at hs ⊢
      have ⟨hlt, hcase⟩ := h.known u s hs
      exact ⟨hold hlt, hcase.imp_left hkeep⟩
  · by_cases hu : u = t
    · subst hu
      rw [update_self] at hs ⊢
      cases hs
      rw [href, hwritten, hcreations, if_pos rfl]
      exact ⟨hlocked, Nat.lt_succ_self _, hnowrite, List.mem_append_right _ (List.mem_singleton_self _)⟩
    · rw [update_of_ne hu] at hs
      exact absurd (h.owner_owes hlocked hs) hu
  · rw [href] at hs
    rcases Nat.lt_succ_iff_lt_or_eq.1 hs with hs | hs
    · exact Or.inl (hkeep (h.welcomed hlocked hnone hs))
    · refine Or.inr ⟨t, username, ?_⟩
      rw [update_self, hs]
      rfl

end Keep

/-- A lookup that hands out a session runs under `sessions_mutex_`. -/
theorem gives_locksSessions {o : MemOp} {r : o.Resp} {s : SessionRef} (h : Gives (.mem o) r s) :
    o.locksSessions = true := by
  cases o with
  | getSession | findUser | aliveSessions | markIdle => rfl
  | recv | dispatch | running | getPeerIp | removeSession | listSessions | read | restore
    | setStatus | touch | now | close => exact h.elim

section Operations

variable {cfg : Config} {p : LockState} {qs : Tid → Place} {t : Tid} {ch : Choice} {w : LockWorld}

theorem Welcoming.lock (h : Welcoming p qs) {l : Mutex} {k : Unit → Prog Locked Ctl}
    {r : LockOp.Resp (.lock l)} (he : p.shared.exec cfg t (.lock l) ch = some (r, w))
    (ho : (qs t).Allows (.lock l)) :
    Welcoming (p.afterOp t (.lock l) k r w) (update qs t ((qs t).after (.lock l) r)) := by
  rw [LockWorld.exec] at he
  split at he
  · rename_i hfree
    cases he
    cases l with
    | send s => exact h.rest rfl (fun _ => rfl) (fun _ _ _ hop => by cases hop) rfl rfl
    | sessions =>
      obtain ⟨_, hnone⟩ := ho
      refine h.stay rfl (fun _ => rfl) (fun _ _ _ hop => by cases hop) rfl (fun u => ?_) rfl
        (fun hne => absurd hnone hne) fun _ hs => Or.inl hs
      by_cases hu : u = t
      · subst hu
        simp [Place.after]
      · have hnot := h.not_locked (u := u) (by rw [hfree]; exact fun hx => by cases hx)
        simp [hu, Ne.symm hu, hnot]
  · cases he

theorem Welcoming.unlock (h : Welcoming p qs) {l : Mutex} {k : Unit → Prog Locked Ctl}
    {r : LockOp.Resp (.unlock l)} (he : p.shared.exec cfg t (.unlock l) ch = some (r, w))
    (ho : (qs t).Allows (.unlock l)) :
    Welcoming (p.afterOp t (.unlock l) k r w) (update qs t ((qs t).after (.unlock l) r)) := by
  cases he
  cases l with
  | send s => exact h.rest rfl (fun _ => rfl) (fun _ _ _ hop => by cases hop) rfl rfl
  | sessions =>
    obtain ⟨hlocked, hnone⟩ := ho
    refine h.stay rfl (fun _ => rfl) (fun _ _ _ hop => by cases hop) rfl (fun u => ?_) rfl
      (fun hne => absurd hnone hne) fun _ hs => Or.inl hs
    by_cases hu : u = t
    · subst hu
      simp [Place.after]
    · have hnot := h.not_locked (u := u) (by
        rw [(h.owner t).2 hlocked]
        exact fun heq => hu (Option.some.inj heq).symm)
      simp [hu, hnot]

theorem Welcoming.mem (h : Welcoming p qs) {o : MemOp} {k : o.Resp → Prog Locked Ctl} {r : o.Resp}
    (he : p.shared.exec cfg t (.mem o) ch = some (r, w)) (ho : (qs t).Allows (.mem o)) :
    Welcoming (p.afterOp (S := Locked) t (.mem o) k r w)
      (update qs t ((qs t).after (.mem o) r)) := by
  rw [LockWorld.exec, Option.map_eq_some_iff] at he
  obtain ⟨⟨r', m⟩, hexec, hx⟩ := he
  cases hx
  obtain ⟨href, hlook⟩ := Memory.exec_sessions hexec
  refine h.plain rfl (fun _ => rfl) (fun _ _ _ hop => by cases hop) href hlook
    (h.owner_update rfl) rfl h.locked_of_owes fun s hs => ?_
  rcases hs with hs | hs
  · exact Or.inl hs
  · obtain ⟨fd, hfd⟩ := Memory.exec_gives hexec hs
    obtain ⟨hlocked, hnone⟩ := ho (gives_locksSessions hs)
    have hlt := h.allocated fd s hfd
    exact Or.inr ⟨hlt, h.welcomed hlocked hnone hlt⟩

/-- An outcome of `handle_register` that creates no session. -/
theorem Welcoming.createNone (h : Welcoming p qs) {fd : Fd} {username peerIp : String}
    {k : Memory.RegisterOutcome → Prog Locked Ctl} {r : Memory.RegisterOutcome}
    (hlocked : (qs t).locked = true) (hnone : (qs t).owes = none)
    (hcreates : ∀ s, creations s [⟨t, .create fd username peerIp, r⟩] = [])
    (howes : ((qs t).after (.create fd username peerIp) r).owes = none)
    (hgives : ∀ s, Gives (.register fd username peerIp) r s → s < p.shared.mem.nextRef) :
    Welcoming (p.afterOp (S := Locked) t (.create fd username peerIp) k r p.shared)
      (update qs t ((qs t).after (.create fd username peerIp) r)) := by
  refine h.stay rfl hcreates (fun _ _ _ hop => by cases hop) rfl (h.owner_update rfl)
    (howes.trans hnone.symm) (fun hne => absurd hnone hne) fun s hs => ?_
  refine hs.imp_right fun hs => ?_
  have hlt := hgives s hs
  exact ⟨hlt, h.welcomed hlocked hnone hlt⟩

theorem Welcoming.register (h : Welcoming p qs) {fd : Fd} {username peerIp : String}
    {k : Memory.RegisterOutcome → Prog Locked Ctl} {r : Memory.RegisterOutcome}
    (he : p.shared.exec cfg t (.create fd username peerIp) ch = some (r, w))
    (ho : (qs t).Allows (.create fd username peerIp)) :
    Welcoming (p.afterOp (S := Locked) t (.create fd username peerIp) k r w)
      (update qs t ((qs t).after (.create fd username peerIp) r)) := by
  obtain ⟨hlocked, hnone⟩ := ho
  cases t with
  | watchdog => cases he
  | handler c =>
    change some ((p.shared.mem.register c fd username peerIp).1,
      { p.shared with mem := (p.shared.mem.register c fd username peerIp).2 }) = some (r, w) at he
    -- Only the last outcome of the four creates a session.
    rcases Memory.register_cases p.shared.mem c fd username peerIp with ⟨s, hs, hx⟩ |
      ⟨_, _, hx⟩ | ⟨_, _, _, hx⟩ | ⟨_, _, _, hx⟩
    · rw [hx] at he
      cases he
      refine h.createNone hlocked hnone (fun _ => rfl) rfl fun y hy => ?_
      cases Option.some.inj hy
      exact h.allocated fd s hs
    · rw [hx] at he
      cases he
      exact h.createNone hlocked hnone (fun _ => rfl) rfl fun y hy => by cases hy
    · rw [hx] at he
      cases he
      exact h.createNone hlocked hnone (fun _ => rfl) rfl fun y hy => by cases hy
    · rw [hx] at he
      cases he
      exact h.create rfl rfl rfl rfl hlocked hnone

/-- An operation that the discipline allows keeps the invariant. -/
theorem welcoming_op (h : Welcoming p qs) {o : LockOp} {k : o.Resp → Prog Locked Ctl} {r : o.Resp}
    (he : p.shared.exec cfg t o ch = some (r, w)) (ho : (qs t).Allows o) :
    Welcoming (p.afterOp t o k r w) (update qs t ((qs t).after o r)) := by
  cases o with
  | lock l => exact h.lock he ho
  | unlock l => exact h.unlock he ho
  | mem o => exact h.mem he ho
  | write via fd msg =>
    cases he
    cases via with
    | none => exact h.rest rfl (fun _ => rfl) (fun _ _ _ hop => by cases hop) rfl rfl
    | some s => exact h.write rfl rfl ho
  | create fd username peerIp => exact h.register he ho

end Operations

theorem welcoming_keeps (cfg : Config) :
    Machine.Keeps (lockMachine cfg) (fun _ => welcomeMonitor)
      (fun _ _ q => q.locked = false ∧ q.owes = none) Welcoming
      (fun p _ => (lockSystem cfg).Reaches Lts.Any p) where
  op p qs t ch o k r w q' hJ _ hprog he hguard hnext := by
    rw [show q' = (qs t).after o r from hnext]
    exact welcoming_op hJ he hguard
  jump p qs t c hJ _ _ hpost := by
    refine ⟨qs t, program_welcomes cfg c hpost, ?_⟩
    rw [update_eq_self]
    exact hJ.same rfl rfl rfl rfl
  env p qs e w start hJ hreach he := by
    have ⟨howner, _, _⟩ := lock_env he
    have hsame : w.mem.nextRef = p.shared.mem.nextRef ∧
        w.mem.registry = p.shared.mem.registry := by
      have ⟨⟨v, start'⟩, henv, hx⟩ := Option.map_eq_some_iff.1 he
      cases hx
      rcases World.env_mem_cases henv with ⟨_, hf, _⟩ | ⟨fd, peerIp, _, _, _, hv⟩
      · exact ⟨hf.nextRef, hf.registry⟩
      · rw [hv]
        exact ⟨rfl, rfl⟩
    refine ⟨qs, fun _ _ => rfl, fun t c hstart => ?_, ?_⟩
    · rw [hstart] at he
      have hnot := hJ.not_locked (lock_starts hreach he .sessions)
      refine ⟨hnot, ?_⟩
      by_contra hne
      have hlocked := hJ.locked_of_owes hne
      rw [hnot] at hlocked
      cases hlocked
    · exact hJ.same (by rw [Pool.afterEnv_shared, howner]) (by rw [Pool.afterEnv_shared, hsame.1])
        (by rw [Pool.afterEnv_shared, hsame.2]) (Pool.afterEnv_log _ _ _)

/-- The invariant holds in every reachable state. -/
theorem reachable_welcoming {cfg : Config} {C : LockState → Step → Prop} {p : LockState}
    (h : (lockSystem cfg).Reaches C p) :
    ∃ qs, Machine.Monitored (fun _ => welcomeMonitor)
      (fun _ _ q => q.locked = false ∧ q.owes = none) Welcoming p qs := by
  have hrun : (lockSystem cfg).Reaches (fun q _ => (lockSystem cfg).Reaches Lts.Any q) p :=
    Lts.Steps.strengthen h fun _ _ _ hq _ _ => Lts.Steps.any hq
  have hnone : ∀ s : SessionRef, ¬ WrittenThrough s [] := fun s ⟨_, he, _⟩ => (nomatch he)
  have hinit : Welcoming (lockSystem cfg).init fun _ => { known := fun _ => False } := ?_
  · exact (welcoming_keeps cfg).steps hrun ⟨fun t => ⟨rfl, rfl⟩, hinit⟩
  refine ⟨fun t => ?_, fun fd s hs => ?_, fun s _ => ⟨rfl, hnone s⟩, fun s => Nat.zero_le _,
    fun t s hs => hs.elim, fun t s u hx => (nomatch hx), fun s hs => ?_⟩
  · exact ⟨fun hx => (nomatch hx), fun hx => (nomatch hx)⟩
  · cases hs
  · exact absurd hs (Nat.not_lt_zero s)

/-! ## The result -/

/-- A session is created once. -/
theorem creations_unique {s : SessionRef} {log : List (Event Locked Tid)}
    (h : (creations s log).length ≤ 1) {x y : Tid × String} (hx : x ∈ creations s log)
    (hy : y ∈ creations s log) : x = y := by
  match hl : creations s log with
  | [] =>
    rw [hl] at hx
    cases hx
  | [z] =>
    rw [hl] at hx hy
    rw [List.mem_singleton.1 hx, List.mem_singleton.1 hy]
  | _ :: _ :: l =>
    rw [hl] at h
    exact absurd h (Nat.not_le.2 (Nat.succ_lt_succ (Nat.succ_pos _)))

theorem mem_creations {s : SessionRef} {log : List (Event Locked Tid)} {t : Tid} {fd : Fd}
    {username peerIp : String}
    (h : (⟨t, .create fd username peerIp, .registered s⟩ : Event Locked Tid) ∈ log) :
    (t, username) ∈ creations s log :=
  List.mem_filterMap.2 ⟨_, h, if_pos rfl⟩

/-- A thread that gets hold of a session does so through the maps, unless it
creates the session. -/
theorem reads_of_hands {o : LockOp} {r : o.Resp} {s : SessionRef} (h : Hands o r s) :
    ReadsMaps o := by
  cases o with
  | mem o => exact gives_locksSessions h
  | create fd username peerIp => trivial
  | lock | unlock | write => exact h.elim

/-- A session that is handed out, and not created, is in the maps. -/
theorem hands_registered {cfg : Config} {w w' : LockWorld} {e : Event Locked Tid} {ch : Choice}
    {s : SessionRef} (he : w.exec cfg e.tid e.op ch = some (e.resp, w'))
    (hhands : Hands e.op e.resp s) (hold : creations s [e] = []) :
    ∃ fd, w.mem.registry.sessions.lookup fd = some s := by
  have ⟨t, o, r⟩ := e
  cases o with
  | mem o =>
    have ⟨_, hexec, hx⟩ := Option.map_eq_some_iff.1 he
    cases hx
    exact Memory.exec_gives hexec hhands
  | create fd username peerIp =>
    cases t with
    | watchdog => cases he
    | handler c =>
      change some ((w.mem.register c fd username peerIp).1, _) = some (r, w') at he
      rcases Memory.register_cases w.mem c fd username peerIp with ⟨s', hs', hx⟩ |
        ⟨_, _, hx⟩ | ⟨_, _, _, hx⟩ | ⟨_, _, _, hx⟩
      · rw [hx] at he
        cases he
        cases Option.some.inj hhands
        exact ⟨fd, hs'⟩
      · rw [hx] at he
        cases he
        cases hhands
      · rw [hx] at he
        cases he
        cases hhands
      · rw [hx] at he
        cases he
        cases Option.some.inj hhands
        simp [creations] at hold
  | lock | unlock | write => exact hhands.elim

theorem creations_tid {s : SessionRef} {e : Event Locked Tid} {x : Tid × String}
    (h : x ∈ creations s [e]) : x.1 = e.tid := by
  have ⟨e', he', hx⟩ := List.mem_filterMap.1 h
  rw [List.mem_singleton.1 he'] at hx
  split at hx
  · split at hx
    · cases hx
      rfl
    · cases hx
  · cases hx

/-- An operation that reads the maps finds the sessions welcomed that were created
before, and that it hands out. -/
theorem reads_welcomed {cfg : Config} {C : LockState → Step → Prop} {p : LockState}
    (h : (lockSystem cfg).Reaches C p) {L R : List (Event Locked Tid)} {e : Event Locked Tid}
    (hlog : p.log = L ++ e :: R) (hreads : ReadsMaps e.op) {s : SessionRef}
    (hs : (∃ x, x ∈ creations s L) ∨ Hands e.op e.resp s ∧ creations s [e] = []) :
    Welcomed s L := by
  have ⟨q, k, ch, w, hq, hqlog, _, hprog, hexec, _⟩ := Machine.log_split h hlog
  have ⟨qs, hobeys, hJ⟩ := reachable_welcoming hq
  have ht := hobeys e.tid
  rw [hprog] at ht
  have hallows : (qs e.tid).Allows e.op := ht.1
  have hplace : (qs e.tid).locked = true ∧ (qs e.tid).owes = none := by
    cases ho : e.op with
    | mem o =>
      rw [ho] at hallows hreads
      exact hallows hreads
    | create fd username peerIp =>
      rw [ho] at hallows
      exact hallows
    | lock | unlock | write =>
      rw [ho] at hreads
      exact hreads.elim
  have hallocated : s < q.shared.mem.nextRef := by
    rcases hs with ⟨x, hx⟩ | ⟨hhands, hold⟩
    · by_contra hge
      have hnone := (hJ.unborn s (Nat.not_lt.1 hge)).1
      rw [hqlog] at hnone
      rw [hnone] at hx
      cases hx
    · have ⟨fd, hfd⟩ := hands_registered hexec hhands hold
      exact hJ.allocated fd s hfd
  rw [← hqlog]
  exact hJ.welcomed hplace.1 hplace.2 hallocated

/-- Let `handle_register` create session `s` on the connection `c`.  The first
frame through `s` is the 200 of `handler c`.  The maps are not read between the
creation and this frame, and no other thread gets hold of `s` before it. -/
theorem first_frame_welcomes {cfg : Config} {p : LockState}
    (h : (lockSystem cfg).Reaches Lts.Any p) {c : ConnId} {fd : Fd} {username peerIp : String}
    {s : SessionRef}
    (hcreate : (⟨.handler c, .create fd username peerIp, .registered s⟩ : Event Locked Tid) ∈ p.log) :
    (∀ L e R k msg, p.log = L ++ e :: R → e.op = .write (some s) k msg → ¬ WrittenThrough s L →
        e.tid = .handler c ∧ msg = welcome username) ∧
      (∀ L e R, p.log = L ++ e :: R → e.tid ≠ .handler c → Hands e.op e.resp s →
        ∃ k, ⟨.handler c, .write (some s) k (welcome username), ()⟩ ∈ L) ∧
      ∀ L e R, p.log = L ++ e :: R →
        ⟨.handler c, .create fd username peerIp, .registered s⟩ ∈ L → ReadsMaps e.op →
        ∃ k, ⟨.handler c, .write (some s) k (welcome username), ()⟩ ∈ L := by
  have ⟨_, _, hend⟩ := reachable_welcoming h
  have hunique : ∀ {L R x}, p.log = L ++ R → x ∈ creations s L → x = (.handler c, username) := by
    intro L R x hlog hx
    refine creations_unique (hend.once s) ?_ (mem_creations hcreate)
    rw [hlog, creations_append]
    exact List.mem_append_left _ hx
  -- A session that is welcomed was welcomed by its creator.
  have hwelcome : ∀ {L R}, p.log = L ++ R → Welcomed s L →
      ∃ k, ⟨.handler c, .write (some s) k (welcome username), ()⟩ ∈ L := by
    intro L R hlog ⟨L', ⟨t, o, r⟩, R', t', u, k, hL, _, hcreated, ht, ho⟩
    cases ht
    cases ho
    rw [hL, List.append_assoc] at hlog
    cases hunique hlog hcreated
    exact ⟨k, by rw [hL]; simp⟩
  refine ⟨fun L e R k msg hlog hop hfirst => ?_, fun L e R hlog hne hhands => ?_,
    fun L e R hlog hcreated hreads => ?_⟩
  · have ⟨q, k', ch, w, hq, hqlog, _, hprog, _, _⟩ := Machine.log_split h hlog
    have ⟨qs, hobeys, hJ⟩ := reachable_welcoming hq
    have ht := hobeys e.tid
    rw [hprog] at ht
    have hmay : (qs e.tid).Allows e.op := ht.1
    rw [hop] at hmay
    change (qs e.tid).MayWrite s msg at hmay
    unfold Place.MayWrite at hmay
    split at hmay
    · rename_i hnone
      rcases (hJ.known e.tid s hmay).2 with hw | ⟨u, hu⟩
      · rw [hqlog] at hw
        exact absurd hw.written hfirst
      · rw [hnone] at hu
        cases hu
    · rename_i s' u howes
      have ⟨hs, hmsg⟩ := hmay
      subst hs
      have hcreated := (hJ.owes e.tid s u howes).2.2.2
      rw [hqlog] at hcreated
      have ⟨ht, hu⟩ := Prod.mk.inj (hunique hlog hcreated)
      rw [hmsg, hu]
      exact ⟨ht, rfl⟩
  · refine hwelcome hlog (reads_welcomed h hlog (reads_of_hands hhands) (Or.inr ⟨hhands, ?_⟩))
    -- Otherwise the session would be created twice.
    by_contra hnew
    have ⟨x, hx⟩ := List.exists_mem_of_ne_nil _ hnew
    have hlog' : p.log = (L ++ [e]) ++ R := by rw [hlog, List.append_assoc, List.singleton_append]
    have hcreator := hunique (x := x) hlog' (by
      rw [creations_append]
      exact List.mem_append_right _ hx)
    rw [hcreator] at hx
    exact hne (creations_tid hx).symm
  · exact hwelcome hlog (reads_welcomed h hlog hreads (Or.inl ⟨_, mem_creations hcreated⟩))

/-- A client registers, and the watchdog marks its session later. -/
def welcomedRun : List Step :=
  [.env (.accept 4 "10.0.0.1"), .env (.clientSend 0 [1, 0, 0, 0, 3, 10, 1, 97])] ++
    turn (.handler 0) 12 ++ [.env (.tick 200000000000), .jump .watchdog] ++
    List.replicate 5 (.op .watchdog { order := [4] })

/-- The creation of session 0 in this run. -/
def createsFirst : Event Locked Tid → Bool
  | ⟨.handler 0, .create 4 "a" "10.0.0.1", .registered 0⟩ => true
  | _ => false

/-- The watchdog marks session 0. -/
def marksFirst : Event Locked Tid → Bool
  | ⟨.watchdog, .mem (.markIdle _), l⟩ => decide (0 ∈ l)
  | _ => false

theorem createsFirst_eq {e : Event Locked Tid} (h : createsFirst e = true) :
    e = ⟨.handler 0, .create 4 "a" "10.0.0.1", .registered 0⟩ := by
  unfold createsFirst at h
  split at h
  · rfl
  · cases h

theorem hands_of_marksFirst {e : Event Locked Tid} (h : marksFirst e = true) :
    e.tid = .watchdog ∧ Hands e.op e.resp 0 := by
  unfold marksFirst at h
  split at h
  · rename_i now l
    have hmem : 0 ∈ l := of_decide_eq_true h
    exact ⟨rfl, hmem⟩
  · cases h

/-- In this run the watchdog gets hold of the session after the 200. -/
theorem first_frame_welcomes_idle :
    ∃ p, (lockSystem sampleConfig).Reaches Lts.Any p ∧ ∃ L e R, p.log = L ++ e :: R ∧
      e.tid = .watchdog ∧ Hands e.op e.resp 0 ∧
      ∃ k, ⟨.handler 0, .write (some 0) k (welcome "a"), ()⟩ ∈ L := by
  have ⟨p, hp, hrun⟩ := Lts.exists_reaches_of_run (L := lockSystem sampleConfig) welcomedRun
    (fun p => p.log.any createsFirst && p.log.any marksFirst) (by decide +kernel)
  simp only [Bool.and_eq_true, List.any_eq_true] at hrun
  have ⟨⟨e₁, hcreate, h₁⟩, e₂, hmark, h₂⟩ := hrun
  rw [createsFirst_eq h₁] at hcreate
  have ⟨L, R, hlog⟩ := List.append_of_mem hmark
  have ⟨hwatchdog, hhands⟩ := hands_of_marksFirst h₂
  have ⟨_, hwelcome, _⟩ := first_frame_welcomes hp hcreate
  exact ⟨p, hp, L, e₂, R, hlog, hwatchdog, hhands,
    hwelcome L e₂ R hlog (by rw [hwatchdog]; exact fun ht => (nomatch ht)) hhands⟩

end SimpleChat
