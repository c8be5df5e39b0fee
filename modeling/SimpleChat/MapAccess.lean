import SimpleChat.Conc.Guarded
import SimpleChat.CriticalSections
import SimpleChat.Welcome

/-!
# The maps of the registry, one access at a time

In `SimpleChat.Locking` the block of an operation does all its work on the maps in one
operation.  Here the lookups, the insertions and the erasures are operations of their own,
in the order of `server.cpp`, and the other threads may run between any two of them.
A session may be in `sessions_` and not in `username_to_fd_` yet, or its name may be
erased and its descriptor not.  A loop over `sessions_` is one operation here too.

`lock_atomic` says that `sessions_mutex_` makes up for this.  It rests on the discipline
of `SimpleChat.Welcome`: the programs access the maps while they own the mutex.
-/

namespace SimpleChat

open Conc Function

/-! ## Operations -/

/-- One access to the maps, or to a session under `sessions_mutex_`. -/
inductive MapOp where
  | findFd (fd : Fd)
  | findUsername (username : String)
  | findIp (ip : String)
  /-- `make_shared<SessionInfo>`. -/
  | makeSession (fd : Fd) (username peerIp : String)
  | insertFd (fd : Fd) (session : SessionRef)
  | insertUsername (username : String) (fd : Fd)
  | insertIp (ip : String) (fd : Fd)
  /-- `session->alive = false`. -/
  | setDead (session : SessionRef)
  | eraseUsername (session : SessionRef)
  | eraseIp (session : SessionRef)
  | eraseFd (fd : Fd)
  deriving DecidableEq

@[reducible] def MapOp.Resp : MapOp → Type
  | .findFd _ => Option SessionRef
  | .findUsername _ => Option Fd
  | .findIp _ => Option Fd
  | .makeSession _ _ _ => SessionRef
  | _ => Unit

inductive FineOp where
  /-- An operation that accesses no map, or a loop over `sessions_`. -/
  | whole (o : LockOp)
  | map (o : MapOp)
  deriving DecidableEq

@[reducible] def FineOp.Resp : FineOp → Type
  | .whole o => o.Resp
  | .map o => o.Resp

/-- The signature of the threads at this level. -/
abbrev Fine : Sig := ⟨FineOp, FineOp.Resp⟩

def accessMap (o : MapOp) : Prog Fine o.Resp := .call (.map o) .ret

/-- The locked block of `handle_register`, up to its reply. -/
def fineRegister (fd : Fd) (username peerIp : String) : Prog Fine Memory.RegisterOutcome := do
  match ← accessMap (.findFd fd) with
  | some session => pure (.alreadyRegistered session)
  | none =>
    match ← accessMap (.findUsername username) with
    | some _ => pure .usernameTaken
    | none =>
      match ← accessMap (.findIp peerIp) with
      | some _ => pure .ipTaken
      | none =>
        let session ← accessMap (.makeSession fd username peerIp)
        accessMap (.insertFd fd session)
        accessMap (.insertUsername username fd)
        accessMap (.insertIp peerIp fd)
        pure (.registered session)

/-- `remove_session`. -/
def fineRemoveSession (fd : Fd) : Prog Fine Unit := do
  match ← accessMap (.findFd fd) with
  | none => pure ()
  | some session =>
    accessMap (.setDead session)
    accessMap (.eraseUsername session)
    accessMap (.eraseIp session)
    accessMap (.eraseFd fd)

/-- The two-step lookup of `handle_message_dm` and `handle_get_user_info`. -/
def fineFindUser (username : String) : Prog Fine (Option SessionRef) := do
  match ← accessMap (.findUsername username) with
  | none => pure none
  | some fd => accessMap (.findFd fd)

/-- An operation of `Locked`, one access to the maps at a time. -/
def fineOp : (o : LockOp) → Prog Fine o.Resp
  | .create fd username peerIp => fineRegister fd username peerIp
  | .mem (.getSession fd) => accessMap (.findFd fd)
  | .mem (.findUser username) => fineFindUser username
  | .mem (.removeSession fd) => fineRemoveSession fd
  | o => .call (.whole o) .ret

/-! ## The machine -/

namespace MapOp

/-- The effect and the response of an access by thread `t`. -/
def exec (t : Tid) (m : Memory) : (o : MapOp) → Option (o.Resp × Memory)
  | .findFd fd => some (m.registry.sessions.lookup fd, m)
  | .findUsername username => some (m.registry.usernameToFd.lookup username, m)
  | .findIp ip => some (m.registry.ipToFd.lookup ip, m)
  | .makeSession fd username peerIp =>
    match t with
    | .handler c =>
      some (m.nextRef,
        { m with
          heap := update m.heap m.nextRef
            { username := username, ip := peerIp, socketFd := fd, lastActivity := m.clock }
          nextRef := m.nextRef + 1
          registeredOn := update m.registeredOn m.nextRef c })
    | .watchdog => none
  | .insertFd fd session =>
    some ((), { m with registry.sessions := m.registry.sessions.insert fd session })
  | .insertUsername username fd =>
    some ((), { m with registry.usernameToFd := m.registry.usernameToFd.insert username fd })
  | .insertIp ip fd => some ((), { m with registry.ipToFd := m.registry.ipToFd.insert ip fd })
  | .setDead session => some ((), m.modify session fun i => { i with alive := false })
  | .eraseUsername session =>
    some ((), { m with
      registry.usernameToFd := m.registry.usernameToFd.erase (m.heap session).username })
  | .eraseIp session =>
    some ((), { m with registry.ipToFd := m.registry.ipToFd.erase (m.heap session).ip })
  | .eraseFd fd => some ((), { m with registry.sessions := m.registry.sessions.erase fd })

end MapOp

variable (cfg : Config)

/-- The effect and the response of an operation of thread `t`, if it need not wait for a
mutex. -/
def LockWorld.fineExec (t : Tid) (w : LockWorld) : (o : FineOp) → Choice →
    Option (o.Resp × LockWorld)
  | .whole o, ch => w.exec cfg t o ch
  | .map o, _ => (o.exec t w.mem).map fun x => (x.1, { w with mem := x.2 })

/-- How the threads of the server run at this level. -/
def fineMachine : Machine Fine Tid Ctl LockWorld Choice Env where
  exec t w o ch := w.fineExec cfg t o ch
  resume _ c := ((c.program cfg).interp lockedOp).interp fineOp
  env e w := w.env e

/-- A state of the server at this level. -/
abbrev FineState := Pool Fine Tid Ctl LockWorld

/-- The server, one access to the maps at a time. -/
def fineSystem : Lts FineState Step :=
  (fineMachine cfg).toLts ⟨.init, fun _ => none⟩ lockStart

/-- An access to the maps, or a loop over them. -/
def FineOp.AccessesMaps : FineOp → Prop
  | .whole o => ReadsMaps o
  | .map _ => True

/-! ## What the mutex guards -/

/-- The maps, and the names and the addresses of the sessions, are as they were. -/
structure Memory.SameMaps (m m' : Memory) : Prop where
  registry : m'.registry = m.registry
  username : ∀ s, (m'.heap s).username = (m.heap s).username
  ip : ∀ s, (m'.heap s).ip = (m.heap s).ip

theorem Memory.SameMaps.refl (m : Memory) : m.SameMaps m := ⟨rfl, fun _ => rfl, fun _ => rfl⟩

theorem Memory.SameMaps.trans {m m' m'' : Memory} (h : m.SameMaps m') (h' : m'.SameMaps m'') :
    m.SameMaps m'' :=
  ⟨h'.registry.trans h.registry, fun s => (h'.username s).trans (h.username s),
    fun s => (h'.ip s).trans (h.ip s)⟩

theorem Memory.Frame.sameMaps {m m' : Memory} (h : m.Frame m') : m.SameMaps m' :=
  ⟨h.registry, h.username, h.ip⟩

namespace LockWorld

/-- The two memories are the same but for the maps. -/
structure Agrees (w v : LockWorld) : Prop where
  mem : v.mem = { w.mem with registry := v.mem.registry }
  owner : v.owner = w.owner

/-- What the others do while a thread is in its block. -/
structure Rely (w v w' v' : LockWorld) : Prop where
  low : w.mem.SameMaps w'.mem
  high : v.mem.SameMaps v'.mem
  agrees : Agrees w v → Agrees w' v'

theorem Agrees.refl (w : LockWorld) : Agrees w w := ⟨rfl, rfl⟩

theorem Agrees.eq {w v : LockWorld} (h : Agrees w v) (hr : v.mem.registry = w.mem.registry) :
    w = v := by
  obtain ⟨m, owner⟩ := v
  obtain ⟨hmem, howner⟩ := h
  dsimp only at hmem howner hr
  rw [hr] at hmem
  rw [hmem, howner]

end LockWorld

/-- `sessions_mutex_` guards the maps. -/
def mapGuard : Machine.Guard Locked Tid LockWorld LockWorld where
  guarded := ReadsMaps
  performs t o := ∀ fd username peerIp, o = .create fd username peerIp → ∃ c, t = .handler c
  owner w := w.owner .sessions
  same w v := w = v
  agree := LockWorld.Agrees
  rely := LockWorld.Rely

/-! ## The blocks as sections -/

section Blocks

variable {cfg : Config} {t : Tid} {w v : LockWorld}

/-- `Before` and `After` for this server. -/
abbrev BeforeBlock (cfg : Config) (t : Tid) (o : LockOp) (b : Prog Fine o.Resp)
    (w v : LockWorld) : Prop :=
  Machine.Before (fineMachine cfg) (lockMachine cfg) mapGuard t o b w v

abbrev AfterBlock (cfg : Config) {α : Type} (t : Tid) (r : α) (b : Prog Fine α)
    (w v : LockWorld) : Prop :=
  Machine.After (fineMachine cfg) mapGuard t r b w v

/-- What an access does. -/
theorem fineExec_map {w' : LockWorld} {o : MapOp} {ch : Choice} {x : o.Resp}
    (h : (fineMachine cfg).exec t w (.map o) ch = some (x, w')) :
    ∃ m, o.exec t w.mem = some (x, m) ∧ w' = { w with mem := m } := by
  obtain ⟨⟨y, m⟩, he, hx⟩ := Option.map_eq_some_iff.1 h
  cases hx
  exact ⟨m, he, rfl⟩

/-- The end of a block. -/
theorem afterBlock_ret {α : Type} {r : α} (h : w.Agrees v)
    (hr : v.mem.registry = w.mem.registry) : AfterBlock cfg t r (.ret r) w v :=
  ⟨rfl, h.eq hr⟩

/-- An access that changes the maps to `R` after the block has taken effect. -/
theorem afterBlock_call {α : Type} {r : α} {o : MapOp} {k : o.Resp → Prog Fine α} {x : o.Resp}
    {R : Registry}
    (ho : ∀ m, w.mem.SameMaps m → o.exec t m = some (x, { m with registry := R }))
    (hk : ∀ w' v' : LockWorld, w'.Agrees v' → w'.mem.registry = R →
      (∀ s, (w'.mem.heap s).username = (w.mem.heap s).username) →
      (∀ s, (w'.mem.heap s).ip = (w.mem.heap s).ip) → v'.mem.registry = v.mem.registry →
      AfterBlock cfg t r (k x) w' v') :
    AfterBlock cfg t r (.call (.map o) k) w v := by
  intro w₁ v₁ hrely hagree ch y w₂ he
  obtain ⟨m, hm, rfl⟩ := fineExec_map he
  rw [ho _ hrely.low] at hm
  cases hm
  have hagree' : LockWorld.Agrees { w₁ with mem := { w₁.mem with registry := R } } v₁ :=
    ⟨hagree.mem, hagree.owner⟩
  exact ⟨hagree', hk _ _ hagree' rfl hrely.low.username hrely.low.ip hrely.high.registry⟩

/-- A lookup before the block takes effect. -/
theorem beforeBlock_find {o' : LockOp} {o : MapOp} {k : o.Resp → Prog Fine o'.Resp} {x : o.Resp}
    (ho : ∀ m : Memory, m.registry = w.mem.registry → o.exec t m = some (x, m))
    (hk : ∀ w' v' : LockWorld, w'.Agrees v' → w'.mem.registry = w.mem.registry →
      v'.mem.registry = v.mem.registry →
      BeforeBlock cfg t o' (k x) w' v') :
    BeforeBlock cfg t o' (.call (.map o) k) w v := by
  intro w₁ v₁ hrely hagree ch y w₂ he
  obtain ⟨m, hm, rfl⟩ := fineExec_map he
  rw [ho _ hrely.low.registry] at hm
  cases hm
  exact Or.inl ⟨hagree, hk w₁ v₁ hagree hrely.low.registry hrely.high.registry⟩

/-- The lookup that settles that nothing changes. -/
theorem beforeBlock_settle {o' : LockOp} {o : MapOp} {k : o.Resp → Prog Fine o'.Resp}
    {x : o.Resp} {r : o'.Resp} (hsame : v.mem.registry = w.mem.registry)
    (ho : ∀ m : Memory, m.registry = w.mem.registry → o.exec t m = some (x, m))
    (hk : k x = .ret r)
    (he : ∀ (ch : Choice) (v' : LockWorld), v'.mem.registry = v.mem.registry →
      v'.exec cfg t o' ch = some (r, v')) :
    BeforeBlock cfg t o' (.call (.map o) k) w v := by
  intro w₁ v₁ hrely hagree ch y w₂ hexec
  obtain ⟨m, hm, rfl⟩ := fineExec_map hexec
  rw [ho _ hrely.low.registry] at hm
  cases hm
  refine Or.inr ⟨r, v₁, he ch v₁ hrely.high.registry, hagree, ?_⟩
  rw [hk]
  refine afterBlock_ret hagree ?_
  rw [hrely.high.registry, hsame, hrely.low.registry]

/-- `get_session`. -/
theorem getSession_block (fd : Fd) :
    BeforeBlock cfg t (.mem (.getSession fd)) (fineOp (.mem (.getSession fd))) w w := by
  refine beforeBlock_settle (x := w.mem.registry.sessions.lookup fd) rfl ?_ rfl ?_
  · intro m hm
    rw [MapOp.exec, hm]
  · intro ch v' hv
    rw [← hv]
    rfl

/-- The two-step lookup takes effect at its second step, or at the first if there is
none. -/
theorem findUser_block (username : String) :
    BeforeBlock cfg t (.mem (.findUser username)) (fineOp (.mem (.findUser username))) w w := by
  have hfind : ∀ m : Memory, m.registry = w.mem.registry →
      (MapOp.findUsername username).exec t m =
        some (w.mem.registry.usernameToFd.lookup username, m) := by
    intro m hm
    rw [MapOp.exec, hm]
  have hexec : ∀ (ch : Choice) (v' : LockWorld), v'.mem.registry = w.mem.registry →
      v'.exec cfg t (.mem (.findUser username)) ch = some (w.mem.findUser username, v') := by
    intro ch v' hv
    have hu : v'.mem.findUser username = w.mem.findUser username := by
      rw [Memory.findUser, Memory.findUser, hv]
    exact congrArg (fun x => some (x, v')) hu
  cases hu : w.mem.registry.usernameToFd.lookup username with
  | none =>
    refine beforeBlock_settle rfl hfind (by rw [hu]; rfl) fun ch v' hv => ?_
    rw [hexec ch v' hv, Memory.findUser, hu]
  | some fd =>
    refine beforeBlock_find hfind fun w₁ v₁ _ hw hv => ?_
    rw [hu]
    refine beforeBlock_settle (x := w₁.mem.registry.sessions.lookup fd) (hv.trans hw.symm) ?_ rfl ?_
    · intro m hm
      rw [MapOp.exec, hm]
    · intro ch v' hv'
      rw [hexec ch v' (hv'.trans hv), Memory.findUser, hu, hw]

/-- The three insertions of `handle_register`. -/
theorem insert_block {r : Memory.RegisterOutcome} {fd : Fd} {username peerIp : String}
    {session : SessionRef}
    (hv : v.mem.registry =
      { sessions := w.mem.registry.sessions.insert fd session
        usernameToFd := w.mem.registry.usernameToFd.insert username fd
        ipToFd := w.mem.registry.ipToFd.insert peerIp fd }) :
    AfterBlock cfg t r (.call (.map (.insertFd fd session)) fun _ =>
      .call (.map (.insertUsername username fd)) fun _ =>
        .call (.map (.insertIp peerIp fd)) fun _ => .ret r) w v := by
  refine afterBlock_call (x := ()) (fun m hm => by rw [MapOp.exec, hm.registry])
    fun w₁ v₁ _ hw₁ _ _ hv₁ => ?_
  refine afterBlock_call (x := ()) (fun m hm => by rw [MapOp.exec, hm.registry])
    fun w₂ v₂ _ hw₂ _ _ hv₂ => ?_
  refine afterBlock_call (x := ()) (fun m hm => by rw [MapOp.exec, hm.registry])
    fun w₃ v₃ hagree hw₃ _ _ hv₃ => ?_
  refine afterBlock_ret hagree ?_
  rw [hv₃, hv₂, hv₁, hv, hw₃, hw₂, hw₁]

/-- The block of `handle_register` takes effect where it makes the session. -/
theorem makeSession_block {c : ConnId} {fd : Fd} {username peerIp : String}
    (hsame : v.mem.registry = w.mem.registry)
    (hfd : w.mem.registry.sessions.lookup fd = none)
    (hname : username ∉ w.mem.registry.usernameToFd) (hip : peerIp ∉ w.mem.registry.ipToFd) :
    BeforeBlock cfg (.handler c) (.create fd username peerIp)
      (.call (.map (.makeSession fd username peerIp)) fun session =>
        .call (.map (.insertFd fd session)) fun _ =>
          .call (.map (.insertUsername username fd)) fun _ =>
            .call (.map (.insertIp peerIp fd)) fun _ => .ret (.registered session)) w v := by
  intro w₁ v₁ hrely hagree ch x w₂ he
  obtain ⟨m, hm, rfl⟩ := fineExec_map he
  cases hm
  have hlow : w₁.mem.registry = w.mem.registry := hrely.low.registry
  have hhigh : v₁.mem.registry = w₁.mem.registry :=
    hrely.high.registry.trans (hsame.trans hlow.symm)
  obtain rfl := hagree.eq hhigh
  have hcreate : (w₁.mem.register c fd username peerIp).1 = .registered w₁.mem.nextRef := by
    simp only [Memory.register, hlow, hfd, if_neg hname, if_neg hip]
  refine Or.inr ⟨.registered w₁.mem.nextRef,
    { w₁ with mem := (w₁.mem.register c fd username peerIp).2 }, ?_, ?_, ?_⟩
  · show some _ = _
    rw [hcreate]
  · refine ⟨?_, rfl⟩
    simp only [Memory.register, hlow, hfd, if_neg hname, if_neg hip]
  · refine insert_block ?_
    simp only [Memory.register, hlow, hfd, if_neg hname, if_neg hip]

/-- The block of `handle_register` takes effect at the lookup that rejects the client, or
where the session is made. -/
theorem register_block {c : ConnId} (fd : Fd) (username peerIp : String) :
    BeforeBlock cfg (.handler c) (.create fd username peerIp) (fineRegister fd username peerIp)
      w w := by
  have hreject : ∀ {r : Memory.RegisterOutcome}, (∀ m : Memory, m.registry = w.mem.registry →
      m.register c fd username peerIp = (r, m)) → ∀ (ch : Choice) (v' : LockWorld),
      v'.mem.registry = w.mem.registry →
      v'.exec cfg (.handler c) (.create fd username peerIp) ch = some (r, v') := by
    intro r hr ch v' hv
    rw [LockWorld.exec, hr _ hv]
  have hfd : ∀ m : Memory, m.registry = w.mem.registry → (MapOp.findFd fd).exec (.handler c) m =
      some (w.mem.registry.sessions.lookup fd, m) := by
    intro m hm
    rw [MapOp.exec, hm]
  cases hs : w.mem.registry.sessions.lookup fd with
  | some s =>
    refine beforeBlock_settle (r := .alreadyRegistered s) rfl hfd (by rw [hs]; rfl) ?_
    refine hreject fun m hm => ?_
    rw [Memory.register, hm, hs]
  | none =>
    refine beforeBlock_find hfd fun w₁ v₁ _ hw₁ hv₁ => ?_
    rw [hs]
    have hname : ∀ m : Memory, m.registry = w₁.mem.registry →
        (MapOp.findUsername username).exec (.handler c) m =
          some (w.mem.registry.usernameToFd.lookup username, m) := by
      intro m hm
      rw [MapOp.exec, hm, hw₁]
    cases hu : w.mem.registry.usernameToFd.lookup username with
    | some k =>
      refine beforeBlock_settle (r := .usernameTaken) (hv₁.trans hw₁.symm) hname
        (by rw [hu]; rfl) fun ch v' hv => hreject (fun m hm => ?_) ch v' (hv.trans hv₁)
      have hmem := Finmap.mem_of_lookup_eq_some hu
      simp only [Memory.register, hm, hs, if_pos hmem]
    | none =>
      refine beforeBlock_find hname fun w₂ v₂ _ hw₂ hv₂ => ?_
      rw [hu]
      have hip : ∀ m : Memory, m.registry = w₂.mem.registry →
          (MapOp.findIp peerIp).exec (.handler c) m =
            some (w.mem.registry.ipToFd.lookup peerIp, m) := by
        intro m hm
        rw [MapOp.exec, hm, hw₂, hw₁]
      have hname' := Finmap.lookup_eq_none.1 hu
      cases ha : w.mem.registry.ipToFd.lookup peerIp with
      | some k =>
        refine beforeBlock_settle (r := .ipTaken) ?_ hip (by rw [ha]; rfl) fun ch v' hv =>
          hreject (fun m hm => ?_) ch v' ((hv.trans hv₂).trans hv₁)
        · rw [hv₂, hv₁, hw₂, hw₁]
        · have hmem := Finmap.mem_of_lookup_eq_some ha
          simp only [Memory.register, hm, hs, if_neg hname', if_pos hmem]
      | none =>
        refine beforeBlock_find hip fun w₃ v₃ _ hw₃ hv₃ => ?_
        rw [ha]
        have hip' := Finmap.lookup_eq_none.1 ha
        refine makeSession_block ?_ ?_ ?_ ?_
        · rw [hv₃, hv₂, hv₁, hw₃, hw₂, hw₁]
        · rwa [hw₃, hw₂, hw₁]
        · rwa [hw₃, hw₂, hw₁]
        · rwa [hw₃, hw₂, hw₁]

/-- The three erasures of `remove_session`. -/
theorem erase_block {fd : Fd} {session : SessionRef}
    (hv : v.mem.registry =
      { sessions := w.mem.registry.sessions.erase fd
        usernameToFd := w.mem.registry.usernameToFd.erase (w.mem.heap session).username
        ipToFd := w.mem.registry.ipToFd.erase (w.mem.heap session).ip }) :
    AfterBlock cfg t () (.call (.map (.eraseUsername session)) fun _ =>
      .call (.map (.eraseIp session)) fun _ =>
        .call (.map (.eraseFd fd)) fun _ => .ret ()) w v := by
  refine afterBlock_call (x := ()) (fun m hm => by rw [MapOp.exec, hm.registry, hm.username])
    fun w₁ v₁ _ hw₁ _ hip₁ hv₁ => ?_
  refine afterBlock_call (x := ()) (fun m hm => by rw [MapOp.exec, hm.registry, hm.ip])
    fun w₂ v₂ _ hw₂ _ _ hv₂ => ?_
  refine afterBlock_call (x := ()) (fun m hm => by rw [MapOp.exec, hm.registry])
    fun w₃ v₃ hagree hw₃ _ _ hv₃ => ?_
  refine afterBlock_ret hagree ?_
  rw [hv₃, hv₂, hv₁, hv, hw₃, hw₂, hip₁, hw₁]

/-- `remove_session` takes effect where it marks the session dead, or at the lookup that
finds none. -/
theorem removeSession_block (fd : Fd) :
    BeforeBlock cfg t (.mem (.removeSession fd)) (fineOp (.mem (.removeSession fd))) w w := by
  have hfd : ∀ m : Memory, m.registry = w.mem.registry → (MapOp.findFd fd).exec t m =
      some (w.mem.registry.sessions.lookup fd, m) := by
    intro m hm
    rw [MapOp.exec, hm]
  cases hs : w.mem.registry.sessions.lookup fd with
  | none =>
    refine beforeBlock_settle (r := ()) rfl hfd (by rw [hs]; rfl) fun ch v' hv => ?_
    have hnone : v'.mem.removeSession fd = v'.mem := by
      rw [Memory.removeSession, hv, hs]
    exact congrArg (fun m => some ((), { v' with mem := m })) hnone
  | some s =>
    refine beforeBlock_find hfd fun w₁ v₁ _ hw₁ hv₁ => ?_
    rw [hs]
    intro w₂ v₂ hrely hagree ch x w₃ he
    obtain ⟨m, hm, rfl⟩ := fineExec_map he
    cases hm
    have hlow : w₂.mem.registry = w.mem.registry := hrely.low.registry.trans hw₁
    obtain rfl := hagree.eq ((hrely.high.registry.trans hv₁).trans hlow.symm)
    refine Or.inr ⟨(), { w₂ with mem := w₂.mem.removeSession fd }, rfl, ⟨?_, rfl⟩, ?_⟩
    · simp only [Memory.removeSession, hlow, hs]
    · refine erase_block ?_
      simp only [Memory.removeSession, hlow, hs]

/-- A loop over `sessions_`. -/
theorem whole_block {o : LockOp} (ho : fineOp o = .call (.whole o) .ret) :
    BeforeBlock cfg t o (fineOp o) w w := by
  rw [ho]
  intro w₁ v₁ hrely hagree ch x w₂ he
  obtain rfl := hagree.eq (hrely.high.registry.trans hrely.low.registry.symm)
  exact Or.inr ⟨x, w₂, he, .refl _, rfl, rfl⟩

end Blocks

/-! ## The rule -/

/-- An operation that leaves the maps alone does not depend on them. -/
theorem Memory.exec_registry {idle : Int} {o : MemOp} (ho : o.locksSessions ≠ true)
    (m : Memory) (R : Registry) (ch : Choice) :
    ({ m with registry := R } : Memory).exec idle o ch =
      (m.exec idle o ch).map fun x => (x.1, { x.2 with registry := R }) := by
  cases o with
  | getSession | removeSession | aliveSessions | findUser | listSessions | markIdle =>
    exact absurd rfl ho
  | dispatch | running | getPeerIp | read | setStatus | touch | now | close => rfl
  | recv fd len =>
    show Memory.recv _ fd len ch.want = (m.recv fd len ch.want).map _
    unfold Memory.recv
    dsimp only
    cases m.fds fd with
    | none => rfl
    | some c =>
      dsimp only
      split
      · split <;> rfl
      · rfl
  | restore s =>
    show some (Memory.restore _ s) = (some (m.restore s)).map _
    unfold Memory.restore
    dsimp only
    split <;> rfl

/-- Neither does the environment. -/
theorem World.env_registry (m : Memory) (R : Registry) (out : ConnId → List Written) (e : Env) :
    (⟨{ m with registry := R }, out⟩ : World).env e =
      ((⟨m, out⟩ : World).env e).map fun x =>
        ({ x.1 with mem := { x.1.mem with registry := R } }, x.2) := by
  cases e with
  | tick d => rfl
  | accept | clientSend | clientClose =>
    unfold env
    dsimp only
    split <;> rfl

theorem Memory.exec_sameMaps {m m' : Memory} {idle : Int} {o : MemOp} {ch : Choice} {r : o.Resp}
    (ho : o.locksSessions ≠ true) (h : m.exec idle o ch = some (r, m')) : m.SameMaps m' := by
  have hremove : ∀ fd, o ≠ .removeSession fd := by
    rintro fd rfl
    exact ho rfl
  by_cases hclose : ∃ fd, o = .close fd
  · obtain ⟨fd, rfl⟩ := hclose
    cases h
    exact ⟨rfl, fun _ => rfl, fun _ => rfl⟩
  · exact (exec_frame h hremove fun fd hfd => hclose ⟨fd, hfd⟩).sameMaps

theorem World.env_sameMaps {w w' : World} {e : Env} {start : Option (Tid × Ctl)}
    (h : w.env e = some (w', start)) : w.mem.SameMaps w'.mem := by
  rcases env_mem_cases h with ⟨_, hf, _⟩ | ⟨fd, peerIp, _, _, _, hv⟩
  · exact hf.sameMaps
  · rw [hv]
    exact ⟨rfl, fun _ => rfl, fun _ => rfl⟩

section Free

variable {cfg : Config} {t : Tid} {w v w' : LockWorld} {ch : Choice}

/-- An operation that leaves the maps alone, on the two memories. -/
theorem lock_exec_free {o : LockOp} {x : o.Resp} (ho : ¬ ReadsMaps o) (hagree : w.Agrees v)
    (h : w.exec cfg t o ch = some (x, w')) :
    ∃ v', v.exec cfg t o ch = some (x, v') ∧ w.Rely v w' v' := by
  have hmaps : ∀ m : Memory, m.SameMaps m := Memory.SameMaps.refl
  cases o with
  | create fd u a => exact absurd trivial ho
  | write via fd msg =>
    cases h
    exact ⟨v, rfl, hmaps _, hmaps _, id⟩
  | unlock l =>
    cases h
    refine ⟨_, rfl, hmaps _, hmaps _, fun _ => ⟨hagree.mem, ?_⟩⟩
    show update v.owner l none = update w.owner l none
    rw [hagree.owner]
  | lock l =>
    obtain ⟨hfree, h⟩ := Option.ite_none_right_eq_some.1 h
    cases h
    refine ⟨{ v with owner := update v.owner l (some t) }, ?_, hmaps _, hmaps _, fun _ =>
      ⟨hagree.mem, ?_⟩⟩
    · rw [LockWorld.exec, hagree.owner, if_pos hfree]
    · show update v.owner l (some t) = update w.owner l (some t)
      rw [hagree.owner]
  | mem o =>
    have hlocks : o.locksSessions ≠ true := ho
    obtain ⟨⟨y, m⟩, he, hx⟩ := Option.map_eq_some_iff.1 h
    cases hx
    have hv : v.mem.exec cfg.idleTimeoutSec o ch =
        some (y, { m with registry := v.mem.registry }) := by
      rw [hagree.mem, Memory.exec_registry hlocks, he]
      rfl
    refine ⟨{ v with mem := { m with registry := v.mem.registry } }, ?_, ?_, ?_, fun _ =>
      ⟨rfl, hagree.owner⟩⟩
    · rw [LockWorld.exec, hv]
      rfl
    · exact Memory.exec_sameMaps hlocks he
    · exact Memory.exec_sameMaps hlocks hv

/-- A step of the environment, on the two memories. -/
theorem lock_env_free {e : Env} {start : Option (Tid × Ctl)} (hagree : w.Agrees v)
    (h : w.env e = some (w', start)) : ∃ v', v.env e = some (v', start) ∧ w.Rely v w' v' := by
  obtain ⟨⟨u, start'⟩, he, hx⟩ := Option.map_eq_some_iff.1 h
  cases hx
  have hv : (⟨v.mem, fun _ => []⟩ : World).env e =
      some ({ u with mem := { u.mem with registry := v.mem.registry } }, start') := by
    rw [hagree.mem, World.env_registry, he]
    rfl
  refine ⟨{ v with mem := { u.mem with registry := v.mem.registry } }, ?_, ?_, ?_, fun _ =>
    ⟨rfl, hagree.owner⟩⟩
  · rw [LockWorld.env, hv]
    rfl
  · exact World.env_sameMaps he
  · exact World.env_sameMaps hv

end Free

theorem LockWorld.Rely.trans {w v w₁ v₁ w₂ v₂ : LockWorld} (h : w.Rely v w₁ v₁)
    (h' : w₁.Rely v₁ w₂ v₂) : w.Rely v w₂ v₂ :=
  ⟨h.low.trans h'.low, h.high.trans h'.high, h'.agrees ∘ h.agrees⟩

/-- An operation of a block leaves the mutexes alone. -/
theorem owner_of_readsMaps {cfg : Config} {t : Tid} {w w' : LockWorld} {o : LockOp} {ch : Choice}
    {r : o.Resp} (ho : ReadsMaps o) (h : w.exec cfg t o ch = some (r, w')) :
    w'.owner = w.owner := by
  refine lock_owner h ?_
  cases o with
  | lock | unlock | write => exact ho.elim
  | mem | create => rfl

/-- The premises of the rule. -/
theorem map_guarded (cfg : Config) :
    Machine.Guarded (fineMachine cfg) (lockMachine cfg) mapGuard fineOp where
  resume _ _ := rfl
  nonempty o a := by
    cases o with
    | lock | unlock | write | create => exact fun h => (nomatch h)
    | mem o => cases o <;> exact fun h => (nomatch h)
  agree_of_same w v h := by
    cases h
    exact .refl w
  rely_refl w v := ⟨.refl _, .refl _, id⟩
  rely_trans _ _ _ _ _ _ h h' := h.trans h'
  rely_agree _ _ _ _ hagree h := h.agrees hagree
  rely_same w v w₁ v₁ hsame h := by
    cases hsame
    exact (h.agrees (.refl w)).eq (h.high.registry.trans h.low.registry.symm)
  enter t o w v ho ht hsame := by
    cases hsame
    cases o with
    | lock | unlock | write => exact ho.elim
    | create fd u a =>
      obtain ⟨c, rfl⟩ := ht fd u a rfl
      exact register_block fd u a
    | mem o =>
      cases o with
      | getSession fd => exact getSession_block fd
      | findUser u => exact findUser_block u
      | removeSession fd => exact removeSession_block fd
      | aliveSessions | listSessions | markIdle => exact whole_block rfl
      | _ => exact nomatch ho
  free o ho := by
    refine ⟨.whole o, id, ?_, fun t w v ch x w' hagree he => lock_exec_free ho hagree he⟩
    cases o with
    | lock | unlock | write => rfl
    | create => exact absurd trivial ho
    | mem o =>
      cases o with
      | getSession | findUser | removeSession => exact absurd rfl ho
      | _ => rfl
  env _ _ _ _ _ hagree he := lock_env_free hagree he
  keeps t o v ch r v' howner ho he := by
    show v'.owner .sessions = some t
    rw [owner_of_readsMaps ho he]
    exact howner

/-- Who accesses the maps owns `sessions_mutex_`, and nobody else unlocks it. -/
theorem map_disciplined {cfg : Config} {q : LockState}
    (h : (lockSystem cfg).Reaches Lts.Any q) :
    Machine.Disciplined (lockMachine cfg) mapGuard q := by
  obtain ⟨qs, hobeys, hJ⟩ := reachable_welcoming h
  have hallows : ∀ t o k, q.prog t = .call o k → (qs t).Allows o := by
    intro t o k hprog
    have ht := hobeys t
    rw [hprog] at ht
    exact ht.1
  refine ⟨fun t o k hprog ho => ?_, fun t u o k ch r v howner hu hprog he => ?_,
    fun t e v start howner he => ?_⟩
  · have hallowed := hallows t o k hprog
    refine ⟨fun fd username peerIp hcreate => ?_, (hJ.owner t).2 ?_⟩
    · subst hcreate
      exact lock_create_handler h hprog
    · cases o with
      | lock | unlock | write => exact ho.elim
      | create fd u a => exact hallowed.1
      | mem o => exact (hallowed ho).1
  · change q.shared.owner .sessions = some t at howner
    show v.owner .sessions = some t
    have hkeep : mutexes.action o = .none → v.owner .sessions = some t := fun ho => by
      rw [lock_owner he ho]
      exact howner
    have hother : ∀ (l : Mutex) x, l ≠ .sessions → v.owner = update q.shared.owner l x →
        v.owner .sessions = some t := by
      intro l x hl hv
      rw [hv, update_of_ne (Ne.symm hl)]
      exact howner
    cases o with
    | mem | write | create => exact hkeep rfl
    | lock l =>
      obtain ⟨hfree, he⟩ := Option.ite_none_right_eq_some.1 he
      cases he
      refine hother l _ ?_ rfl
      rintro rfl
      rw [hfree] at howner
      cases howner
    | unlock l =>
      cases he
      refine hother l _ ?_ rfl
      rintro rfl
      have hlocked : (qs u).locked = true := (hallows u _ k hprog).1
      have hu' := (hJ.owner u).2 hlocked
      exact hu (Option.some.inj (hu'.symm.trans howner))
  · obtain ⟨howner', -, -⟩ := lock_env he
    refine ⟨(congrFun howner' .sessions).trans howner, fun c hc => ?_⟩
    subst hc
    exact lock_starts h he .sessions howner

/-- A run in which each access to the maps is a step follows a run in which each block is.
The threads are at the same places, one of them perhaps within its block. -/
theorem fine_follows {cfg : Config} {C : FineState → Step → Prop} {p : FineState}
    (h : (fineSystem cfg).Reaches C p) :
    ∃ q, (lockSystem cfg).Reaches Lts.Any q ∧
      Machine.Related (fineMachine cfg) (lockMachine cfg) mapGuard fineOp p q :=
  (map_guarded cfg).steps (fun _ hq => map_disciplined hq) h rfl

section Related

variable {cfg : Config} {p : FineState} {q : LockState}

/-- The memories differ only while a thread owns `sessions_mutex_`. -/
theorem related_eq (h : Machine.Related (fineMachine cfg) (lockMachine cfg) mapGuard fineOp p q)
    (hfree : p.shared.owner .sessions = none) : p.shared = q.shared := by
  obtain ⟨hagree, ⟨hsame, -⟩ | ⟨t, howner, -⟩⟩ := h
  · exact hsame
  · have howner' : q.shared.owner .sessions = some t := howner
    rw [hagree.owner, hfree] at howner'
    cases howner'

/-- An operation that accesses the maps stands for one that does. -/
theorem fineOp_accesses {o : LockOp} {k : o.Resp → Prog Fine Ctl} {o' : FineOp}
    {k' : o'.Resp → Prog Fine Ctl} (h : (fineOp o >>= k) = .call o' k')
    (ho' : o'.AccessesMaps) : ReadsMaps o := by
  cases o with
  | create => trivial
  | lock | unlock | write =>
    cases h
    exact ho'
  | mem o =>
    cases o with
    | getSession | findUser | removeSession | aliveSessions | listSessions | markIdle => rfl
    | _ =>
      cases h
      exact ho'

/-- Who accesses the maps owns `sessions_mutex_`. -/
theorem related_owner (hq : (lockSystem cfg).Reaches Lts.Any q)
    (h : Machine.Related (fineMachine cfg) (lockMachine cfg) mapGuard fineOp p q) {t : Tid}
    {o : FineOp} (ho : p.next t = some o) (haccess : o.AccessesMaps) :
    p.shared.owner .sessions = some t := by
  have hrest : Machine.AtRest fineOp p q t → q.shared.owner .sessions = some t := by
    intro hrest
    obtain ⟨k, hcall⟩ := Pool.call_of_next ho
    obtain ⟨o', k', hq', hp⟩ := hrest.of_call hcall
    rw [hcall] at hp
    exact ((map_disciplined hq).owns t o' k' hq' (fineOp_accesses hp.symm haccess)).2
  obtain ⟨hagree, ⟨-, hall⟩ | ⟨u, howner, -, hothers⟩⟩ := h
  · rw [← hagree.owner]
    exact hrest (hall t)
  · rw [← hagree.owner]
    by_cases htu : t = u
    · subst htu
      exact howner
    · exact hrest (hothers t htu)

end Related

/-- A run in which each access to the maps is a step is a run in which each block under
`sessions_mutex_` is one step, with the threads at the same places.  While the mutex is
free the memories are the same, and the registry is in order.  While a thread owns it
they may differ in the maps, which this thread alone accesses. -/
theorem lock_atomic {cfg : Config} {C : FineState → Step → Prop} {p : FineState}
    (h : (fineSystem cfg).Reaches C p) :
    (∃ q w, (lockSystem cfg).Reaches Lts.Any q ∧ (system cfg).Reaches Lts.Any w ∧
      Machine.Related (fineMachine cfg) (lockMachine cfg) mapGuard fineOp p q ∧
      Machine.Placed lockEffects lockedOp q w ∧ w.shared.mem.Consistent ∧
      w.shared.mem = { p.shared.mem with registry := w.shared.mem.registry } ∧
      (p.shared.owner .sessions = none → w.shared.mem = p.shared.mem)) ∧
    (p.shared.owner .sessions = none → p.shared.mem.Consistent) ∧
    ∀ t o, p.next t = some o → o.AccessesMaps → p.shared.owner .sessions = some t := by
  obtain ⟨q, hq, hrelated⟩ := fine_follows h
  obtain ⟨w, hw, hplaced, hmem⟩ := lock_follows hq
  obtain ⟨phases, -, hown, -⟩ := reachable_owned hw
  have hsame : p.shared.owner .sessions = none → w.shared.mem = p.shared.mem := fun hfree => by
    rw [hmem, related_eq hrelated hfree]
  refine ⟨⟨q, w, hq, hw, hrelated, hplaced, hown.consistent, ?_, hsame⟩, fun hfree => ?_,
    fun t o ho haccess => related_owner hq hrelated ho haccess⟩
  · rw [hmem]
    exact hrelated.1.mem
  · rw [← hsame hfree]
    exact hown.consistent

/-- Two clients register at the same time.  The handler of the first has entered its session
in `sessions_`, and not in `username_to_fd_`, and that of the second waits. -/
theorem lock_atomic_contended :
    ∃ p, (fineSystem sampleConfig).Reaches Lts.Any p ∧
      p.next (.handler 0) = some (.map (.insertUsername "a" 4)) ∧
      p.next (.handler 1) = some (.whole (.lock .sessions)) ∧
      p.shared.owner .sessions = some (.handler 0) ∧ ¬ p.shared.mem.Consistent ∧
      ∃ w, (system sampleConfig).Reaches Lts.Any w ∧ w.shared.mem.nextRef = 1 ∧
        w.shared.mem.Consistent := by
  have ⟨p, hp, hrun⟩ := Lts.exists_reaches_of_run (L := fineSystem sampleConfig)
    (contendedRun ++ List.replicate 5 (.op (.handler 0) {}))
    (fun p => decide (p.next (.handler 0) = some (.map (.insertUsername "a" 4))) &&
      decide (p.next (.handler 1) = some (.whole (.lock .sessions))) &&
      decide (p.shared.mem.nextRef = 1) && decide (p.shared.mem.getSession 4 = some 0) &&
      decide (p.shared.mem.findUser (p.shared.mem.heap 0).username = none)) (by decide +kernel)
  simp only [Bool.and_eq_true, decide_eq_true_eq] at hrun
  obtain ⟨⟨⟨⟨hfirst, hsecond⟩, href⟩, hfd⟩, hname⟩ := hrun
  obtain ⟨⟨q, w, -, hw, -, -, hcons, hmem, -⟩, -, howner⟩ := lock_atomic hp
  refine ⟨p, hp, hfirst, hsecond, howner _ _ hfirst trivial, fun hp => ?_, w, hw, ?_, hcons⟩
  · have hfound := hp.findUser_eq_some.2 ⟨4, hfd, rfl⟩
    rw [hname] at hfound
    cases hfound
  · rw [hmem]
    exact href

end SimpleChat
