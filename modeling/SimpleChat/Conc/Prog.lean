import Mathlib.Logic.Basic
import Mathlib.Tactic.Common

/-!
# Programs over a signature of operations

A thread of a concurrent program is modelled as a tree: it performs an
operation, receives the response, and goes on with a program that may depend
on the response.  What an operation does to the memory is not part of the
tree.  It is given later, by an interpretation, so that one program can be run
at several levels of atomicity.

There are five groups.

* `Sig`, `Prog` and the monad of programs.
* `Prog.interp`: the meaning of a program in a monad that interprets the
  operations.  Running a program alone and replacing operations by programs
  over a lower signature are both instances.
* `Prog.Obeys`: a monitor is an automaton that reads the operations of a
  program with their responses.  `Prog.Obeys` says that every branch of the
  program is accepted.  It is the only thing the invariant proofs over thread
  pools read off a program.
* `Prog.Trace`: the operations that a program performs on the way to another.
* `Prog.Holds`: a program holds a handle when it may use it without being
  given it again.
-/

namespace Conc

/-- A signature: the operations, and the type of the response to each. -/
structure Sig where
  Op : Type
  Resp : Op → Type

/-- A program over the signature `S` that ends with a value of `α`. -/
inductive Prog (S : Sig) (α : Type) : Type where
  | ret (a : α)
  | call (o : S.Op) (k : S.Resp o → Prog S α)

namespace Prog

variable {S T : Sig} {α β γ : Type}

/-! ## The monad of programs -/

/-- Sequencing: `f` takes over where `p` returns. -/
protected def bind : Prog S α → (α → Prog S β) → Prog S β
  | .ret a, f => f a
  | .call o k, f => .call o fun r => (k r).bind f

instance : Monad (Prog S) where
  pure := .ret
  bind := Prog.bind

@[simp] theorem pure_eq (a : α) : (pure a : Prog S α) = .ret a := rfl

@[simp] theorem ret_bind (a : α) (f : α → Prog S β) : (.ret a >>= f) = f a := rfl

@[simp] theorem call_bind (o : S.Op) (k : S.Resp o → Prog S α) (f : α → Prog S β) :
    (.call o k >>= f) = .call o fun r => k r >>= f := rfl

theorem bind_ret (p : Prog S α) : (p >>= Prog.ret) = p := by
  induction p with
  | ret a => rfl
  | call o k ih =>
    rw [call_bind]
    congr 1
    funext r
    exact ih r

theorem bind_assoc (p : Prog S α) (f : α → Prog S β) (g : β → Prog S γ) :
    (p >>= f >>= g) = p >>= fun a => f a >>= g := by
  induction p with
  | ret a => rfl
  | call o k ih =>
    simp only [call_bind]
    congr 1
    funext r
    exact ih r

instance : LawfulMonad (Prog S) :=
  LawfulMonad.mk' _ (fun p => bind_ret p) (fun _ _ => rfl) (fun p f g => bind_assoc p f g)

/-- The value of a program that has returned. -/
def returned : Prog S α → Option α
  | .ret a => some a
  | .call _ _ => none

theorem returned_eq_some {p : Prog S α} {a : α} : p.returned = some a ↔ p = .ret a := by
  cases p <;> simp [returned]

/-- The program that performs one operation and returns its response. -/
def perform (o : S.Op) : Prog S (S.Resp o) := .call o .ret

@[simp] theorem perform_bind (o : S.Op) (f : S.Resp o → Prog S α) :
    (perform o >>= f) = .call o f := rfl

@[simp] theorem ite_bind (c : Prop) [Decidable c] (p q : Prog S α) (f : α → Prog S β) :
    ((if c then p else q) >>= f) = if c then p >>= f else q >>= f := by
  split <;> rfl

@[simp] theorem forM_nil {ι : Type} (f : ι → Prog S PUnit) : [].forM f = .ret ⟨⟩ := rfl

theorem forM_cons {ι : Type} (x : ι) (l : List ι) (f : ι → Prog S PUnit) :
    (x :: l).forM f = (f x >>= fun _ => l.forM f) := rfl

@[simp] theorem call_inj {o : S.Op} {k k' : S.Resp o → Prog S α} :
    (Prog.call o k = .call o k') ↔ k = k' := by
  constructor
  · intro h
    cases h
    rfl
  · rintro rfl
    rfl

/-! ## Interpretation -/

/-- The meaning of a program in a monad that interprets each operation. -/
def interp {m : Type → Type} [Monad m] (h : (o : S.Op) → m (S.Resp o)) : Prog S α → m α
  | .ret a => pure a
  | .call o k => h o >>= fun r => (k r).interp h

section Interp

variable {m : Type → Type} [Monad m] (h : (o : S.Op) → m (S.Resp o))

@[simp] theorem interp_ret (a : α) : (Prog.ret a : Prog S α).interp h = pure a := rfl

@[simp] theorem interp_call (o : S.Op) (k : S.Resp o → Prog S α) :
    (Prog.call o k).interp h = h o >>= fun r => (k r).interp h := rfl

/-- Interpretation respects sequencing. -/
theorem interp_bind [LawfulMonad m] (p : Prog S α) (f : α → Prog S β) :
    (p >>= f).interp h = p.interp h >>= fun a => (f a).interp h := by
  induction p with
  | ret a => simp
  | call o k ih => simp [ih]

/-- Interpretation as a function on states: the second program runs from the
state that the first one leaves. -/
theorem interp_bind_state {σ : Type} (h : (o : S.Op) → StateM σ (S.Resp o)) (p : Prog S α)
    (f : α → Prog S β) (s : σ) :
    (p >>= f).interp h s = (f (p.interp h s).1).interp h (p.interp h s).2 := by
  rw [interp_bind]
  rfl

end Interp

/-- A way to perform the operations of `S` by operations of `T`. -/
structure Embedding (S T : Sig) where
  op : S.Op → T.Op
  resp : (o : S.Op) → T.Resp (op o) → S.Resp o

/-- The program over `T` that performs the operations of `p` through `φ`. -/
def lift (φ : Embedding S T) : Prog S α → Prog T α
  | .ret a => .ret a
  | .call o k => .call (φ.op o) fun r => (k (φ.resp o r)).lift φ

@[simp] theorem lift_ret (φ : Embedding S T) (a : α) :
    (Prog.ret a : Prog S α).lift φ = .ret a := rfl

@[simp] theorem lift_call (φ : Embedding S T) (o : S.Op) (k : S.Resp o → Prog S α) :
    (Prog.call o k).lift φ = .call (φ.op o) fun r => (k (φ.resp o r)).lift φ := rfl

theorem lift_bind (φ : Embedding S T) (p : Prog S α) (f : α → Prog S β) :
    (p >>= f).lift φ = p.lift φ >>= fun a => (f a).lift φ := by
  induction p with
  | ret a => rfl
  | call o k ih =>
    simp only [call_bind, lift_call]
    congr 1
    funext r
    exact ih _

/-! ## Monitors -/

/-- A monitor with states `Q`: `guard` says which operation may be performed
in which state, and `next` which states may follow once the response is
known. -/
structure Monitor (S : Sig) (Q : Type) where
  guard : Q → S.Op → Prop
  next : Q → (o : S.Op) → S.Resp o → Q → Prop

variable {Q : Type}

/-- Every branch of the program is accepted from the monitor state `q`, and a
branch that returns `a` ends in a state related to `a` by `post`. -/
def Obeys (M : Monitor S Q) (post : α → Q → Prop) : Prog S α → Q → Prop
  | .ret a, q => post a q
  | .call o k, q => M.guard q o ∧ ∀ r, ∃ q', M.next q o r q' ∧ (k r).Obeys M post q'

section Obeys

variable {M : Monitor S Q} {post post' : α → Q → Prop} {q : Q}

@[simp] theorem obeys_ret {a : α} : (Prog.ret a : Prog S α).Obeys M post q ↔ post a q := Iff.rfl

@[simp] theorem obeys_call {o : S.Op} {k : S.Resp o → Prog S α} :
    (Prog.call o k).Obeys M post q ↔
      M.guard q o ∧ ∀ r, ∃ q', M.next q o r q' ∧ (k r).Obeys M post q' := Iff.rfl

theorem Obeys.weaken {p : Prog S α} (h : p.Obeys M post q)
    (hpost : ∀ a q', post a q' → post' a q') : p.Obeys M post' q := by
  induction p generalizing q with
  | ret a => exact hpost a q h
  | call o k ih =>
    refine ⟨h.1, fun r => ?_⟩
    obtain ⟨q', hM, hk⟩ := h.2 r
    exact ⟨q', hM, ih r hk⟩

/-- The rule for sequencing: the middle condition is the postcondition of the
first program. -/
theorem Obeys.bind {p : Prog S α} {f : α → Prog S β} {mid : α → Q → Prop}
    {post : β → Q → Prop} (hp : p.Obeys M mid q)
    (hf : ∀ a q', mid a q' → (f a).Obeys M post q') : (p >>= f).Obeys M post q := by
  induction p generalizing q with
  | ret a => exact hf a q hp
  | call o k ih =>
    refine ⟨hp.1, fun r => ?_⟩
    obtain ⟨q', hM, hk⟩ := hp.2 r
    exact ⟨q', hM, ih r hk⟩

/-- The monitor whose next state is settled by the response. -/
def Monitor.det (guard : Q → S.Op → Prop) (after : Q → (o : S.Op) → S.Resp o → Q) :
    Monitor S Q where
  guard := guard
  next q o r q' := q' = after q o r

/-- The rule for one operation under such a monitor. -/
theorem obeys_det_call {guard : Q → S.Op → Prop} {after : Q → (o : S.Op) → S.Resp o → Q}
    {o : S.Op} {k : S.Resp o → Prog S α} :
    (Prog.call o k).Obeys (.det guard after) post q ↔
      guard q o ∧ ∀ r, (k r).Obeys (.det guard after) post (after q o r) := by
  rw [obeys_call]
  refine and_congr Iff.rfl (forall_congr' fun r => ?_)
  constructor
  · intro ⟨q', hq', h⟩
    exact (show q' = after q o r from hq') ▸ h
  · exact fun h => ⟨_, rfl, h⟩

/-- Where each operation is performed by a program that takes a state of the
monitor below related to `q` to one related to what follows `q`, the whole
program obeys the monitor below. -/
theorem Obeys.expand {Q' : Type} {guard : Q → S.Op → Prop}
    {after : Q → (o : S.Op) → S.Resp o → Q} {N : Monitor T Q'} {R : Q → Q' → Prop}
    {h : (o : S.Op) → Prog T (S.Resp o)}
    (hop : ∀ q q' o, R q q' → guard q o → (h o).Obeys N (fun r q'' => R (after q o r) q'') q')
    {p : Prog S α} {q' : Q'} (hR : R q q') (hp : p.Obeys (.det guard after) post q) :
    (p.interp h).Obeys N (fun a q' => ∃ q, R q q' ∧ post a q) q' := by
  induction p generalizing q q' with
  | ret a => exact ⟨q, hR, hp⟩
  | call o k ih =>
    rw [interp_call]
    have ⟨hguard, hk⟩ := obeys_det_call.1 hp
    exact (hop q q' o hR hguard).bind fun r q'' hq'' => ih r hq'' (hk r)

/-- Every operation that the program may perform is in `P`. -/
def Only (P : S.Op → Prop) : Prog S α → Prop
  | .ret _ => True
  | .call o k => P o ∧ ∀ r, (k r).Only P

section Only

variable {P P' : S.Op → Prop}

@[simp] theorem only_ret {a : α} : (Prog.ret a : Prog S α).Only P := trivial

@[simp] theorem only_call {o : S.Op} {k : S.Resp o → Prog S α} :
    (Prog.call o k).Only P ↔ P o ∧ ∀ r, (k r).Only P := Iff.rfl

theorem Only.bind {p : Prog S α} {f : α → Prog S β} (hp : p.Only P)
    (hf : ∀ a, (f a).Only P) : (p >>= f).Only P := by
  induction p with
  | ret a => exact hf a
  | call o k ih => exact ⟨hp.1, fun r => ih r (hp.2 r)⟩

theorem Only.perform {o : S.Op} (h : P o) : (perform o).Only P := ⟨h, fun _ => trivial⟩

theorem Only.mono {p : Prog S α} (h : p.Only P) (hPP' : ∀ o, P o → P' o) : p.Only P' := by
  induction p with
  | ret a => exact only_ret
  | call o k ih =>
    exact ⟨hPP' o h.1, fun r => ih r (h.2 r)⟩

theorem Only.lift {φ : Embedding S T} {R : T.Op → Prop} {p : Prog S α} (h : p.Only P)
    (hPR : ∀ o, P o → R (φ.op o)) : (p.lift φ).Only R := by
  induction p with
  | ret a => exact only_ret
  | call o k ih =>
    exact ⟨hPR o h.1, fun r => ih _ (h.2 _)⟩

theorem Only.forM {ι : Type} {l : List ι} {f : ι → Prog S PUnit} (h : ∀ x ∈ l, (f x).Only P) :
    (l.forM f).Only P := by
  induction l with
  | nil => exact only_ret
  | cons x l ih =>
    rw [forM_cons]
    exact (h x List.mem_cons_self).bind fun _ => ih fun y hy => h y (List.mem_cons_of_mem x hy)

/-- A program all of whose operations leave the monitor state as it is. -/
theorem Only.obeys {p : Prog S α} (h : p.Only P) (hguard : ∀ o, P o → M.guard q o)
    (hnext : ∀ o r, P o → M.next q o r q) : p.Obeys M (fun _ q' => q' = q) q := by
  induction p with
  | ret a => rfl
  | call o k ih =>
    exact ⟨hguard o h.1, fun r => ⟨q, hnext o r h.1, ih r (h.2 r)⟩⟩

end Only

/-- The operations of a program are those that its monitor allows. -/
theorem Obeys.only {P : S.Op → Prop} {p : Prog S α} (h : p.Obeys M post q)
    (hP : ∀ q o, M.guard q o → P o) : p.Only P := by
  induction p generalizing q with
  | ret a => exact only_ret
  | call o k ih =>
    refine ⟨hP q o h.1, fun r => ?_⟩
    have ⟨q', _, hk⟩ := h.2 r
    exact ih r hk

/-- A lifted program obeys a monitor whose states follow those of a monitor that
the program obeys. -/
theorem Obeys.lift_along {Q' : Type} {φ : Embedding S T} {N : Monitor T Q'} {R : Q → Q' → Prop}
    {p : Prog S α} {q' : Q'} (hguard : ∀ q q' o, R q q' → M.guard q o → N.guard q' (φ.op o))
    (hnext : ∀ q q' o r q₁, R q q' → M.next q o (φ.resp o r) q₁ →
      ∃ q₁', N.next q' (φ.op o) r q₁' ∧ R q₁ q₁')
    (h : p.Obeys M post q) (hR : R q q') :
    (p.lift φ).Obeys N (fun a q' => ∃ q, R q q' ∧ post a q) q' := by
  induction p generalizing q q' with
  | ret a => exact ⟨q, hR, h⟩
  | call o k ih =>
    refine ⟨hguard q q' o hR h.1, fun r => ?_⟩
    have ⟨q₁, hM, hk⟩ := h.2 (φ.resp o r)
    have ⟨q₁', hN, hR'⟩ := hnext q q' o r q₁ hR hM
    exact ⟨q₁', hN, ih _ hk hR'⟩

/-- A lifted program obeys a monitor if the program obeys the monitor read
through the embedding. -/
theorem Obeys.lift {φ : Embedding S T} {N : Monitor T Q} {p : Prog S α}
    (hguard : ∀ q o, M.guard q o → N.guard q (φ.op o))
    (hnext : ∀ q o r q', M.next q o (φ.resp o r) q' → N.next q (φ.op o) r q')
    (h : p.Obeys M post q) : (p.lift φ).Obeys N post q := by
  have hlift : (p.lift φ).Obeys N (fun a q' => ∃ q, q = q' ∧ post a q) q := by
    refine h.lift_along (fun q q' o heq hg => ?_) (fun q q' o r q₁ heq hn => ?_) rfl
    · exact heq ▸ hguard q o hg
    · exact ⟨q₁, hnext q' o r q₁ (heq ▸ hn), rfl⟩
  exact hlift.weaken fun a q' ⟨q, hq, ha⟩ => hq ▸ ha

/-- A program that obeys a monitor, run alone on a state that `R` relates to the
monitor state, ends in a state that satisfies the postcondition. -/
theorem Obeys.interp {σ : Type} {h : (o : S.Op) → StateM σ (S.Resp o)} {R : Q → σ → Prop}
    (hstep : ∀ q s o q', R q s → M.guard q o → M.next q o (h o s).1 q' → R q' (h o s).2)
    {p : Prog S α} {s : σ} (hp : p.Obeys M post q) (hR : R q s) :
    ∃ q', post (p.interp h s).1 q' ∧ R q' (p.interp h s).2 := by
  induction p generalizing q s with
  | ret a => exact ⟨q, hp, hR⟩
  | call o k ih =>
    obtain ⟨q', hM, hk⟩ := hp.2 (h o s).1
    exact ih (h o s).1 hk (hstep q s o q' hR hp.1 hM)

end Obeys

/-! ## Traces -/

/-- An operation with its response. -/
abbrev Act (S : Sig) : Type := (o : S.Op) × S.Resp o

/-- The program `p` performs the operations `l` and is `p'` then. -/
inductive Trace : Prog S α → List (Act S) → Prog S α → Prop
  | nil (p : Prog S α) : Trace p [] p
  | cons {o k r l p} (h : Trace (k r) l p) : Trace (.call o k) (⟨o, r⟩ :: l) p

section Trace

variable {p p' p'' : Prog S α} {l l' : List (Act S)}

theorem Trace.append (h : Trace p l p') (h' : Trace p' l' p'') : Trace p (l ++ l') p'' := by
  induction h with
  | nil => exact h'
  | cons _ ih => exact .cons (ih h')

theorem Trace.bind (h : Trace p l p') (f : α → Prog S β) : Trace (p >>= f) l (p' >>= f) := by
  induction h with
  | nil => exact .nil _
  | cons _ ih => exact .cons ih

/-- A lifted program performs the lifted operations.  `give` says which response
below is read as the response above. -/
theorem Trace.lift (h : Trace p l p') (φ : Embedding S T)
    (give : (o : S.Op) → S.Resp o → T.Resp (φ.op o)) (hgive : ∀ o r, φ.resp o (give o r) = r) :
    Trace (p.lift φ) (l.map fun a => ⟨φ.op a.1, give a.1 a.2⟩) (p'.lift φ) := by
  induction h with
  | nil => exact .nil _
  | @cons o k r l p' _ ih =>
    have hstep : Trace ((k (φ.resp o (give o r))).lift φ)
        (l.map fun a => ⟨φ.op a.1, give a.1 a.2⟩) (p'.lift φ) := by
      rw [hgive]
      exact ih
    exact .cons hstep

/-- A program that has returned performs nothing. -/
theorem Trace.of_ret {a : α} (h : Trace (.ret a) l p) : l = [] ∧ p = .ret a := by
  cases h
  exact ⟨rfl, rfl⟩

/-- A program that is to return performs its next operation first. -/
theorem Trace.of_call {o : S.Op} {k : S.Resp o → Prog S α} {a : α}
    (h : Trace (.call o k) l (.ret a)) :
    ∃ r l', l = ⟨o, r⟩ :: l' ∧ Trace (k r) l' (.ret a) := by
  cases h with
  | cons h => exact ⟨_, _, rfl, h⟩

end Trace

/-! ## Handles -/

/-- What the operations of a signature do with handles of type `H`: which
handles an operation uses, and which ones its response hands out. -/
structure Handles (S : Sig) (H : Type) where
  uses : S.Op → H → Prop
  gives : (o : S.Op) → S.Resp o → H → Prop

variable {H : Type}

/-- The program holds the handle `x`: some branch uses `x` before any response
hands `x` out. -/
inductive Holds (U : Handles S H) (x : H) : Prog S α → Prop
  | here {o k} (h : U.uses o x) : Holds U x (.call o k)
  | later {o k} (r : S.Resp o) (hg : ¬ U.gives o r x) (h : Holds U x (k r)) :
      Holds U x (.call o k)

section Holds

variable {U : Handles S H} {x : H}

@[simp] theorem not_holds_ret {a : α} : ¬ (Prog.ret a : Prog S α).Holds U x := by
  intro h
  cases h

/-- A handle held after a response was held before it or came with it. -/
theorem Holds.of_cont {o : S.Op} {k : S.Resp o → Prog S α} {r : S.Resp o}
    (h : (k r).Holds U x) : U.gives o r x ∨ (Prog.call o k).Holds U x := by
  by_cases hg : U.gives o r x
  · exact Or.inl hg
  · exact Or.inr (.later r hg h)

/-- The monitor that remembers the handles given so far and lets a program use
only those. -/
def Handles.monitor (U : Handles S H) : Monitor S (H → Prop) where
  guard K o := ∀ y, U.uses o y → K y
  next K o r K' := K' = fun y => K y ∨ U.gives o r y

/-- The rule for one operation under the monitor of the handles. -/
theorem obeys_monitor_call {o : S.Op} {k : S.Resp o → Prog S α} {K : H → Prop}
    {post : α → (H → Prop) → Prop} :
    (Prog.call o k).Obeys U.monitor post K ↔
      (∀ y, U.uses o y → K y) ∧
        ∀ r, (k r).Obeys U.monitor post fun y => K y ∨ U.gives o r y := by
  rw [obeys_call]
  refine and_congr Iff.rfl (forall_congr' fun r => ?_)
  constructor
  · rintro ⟨K', rfl, h⟩
    exact h
  · intro h
    exact ⟨_, rfl, h⟩

/-- A program that uses only handles of `K₀` needs no more than those, and
keeps what it was given. -/
theorem Only.obeys_monitor {K K₀ : H → Prop} {p : Prog S α}
    (h : p.Only fun o => ∀ y, U.uses o y → K₀ y) (hK : ∀ y, K₀ y → K y) :
    p.Obeys U.monitor (fun _ K' => ∀ y, K₀ y → K' y) K := by
  induction p generalizing K with
  | ret a => exact hK
  | call o k ih =>
    rw [obeys_monitor_call]
    exact ⟨fun y hy => hK y (h.1 y hy), fun r => ih r (h.2 r) fun y hy => Or.inl (hK y hy)⟩

/-- A program that uses only the handles it is given holds only the ones it
was given. -/
theorem Holds.given {p : Prog S α} {K : H → Prop} {post : α → (H → Prop) → Prop}
    (h : p.Holds U x) (hp : p.Obeys U.monitor post K) : K x := by
  induction h generalizing K with
  | here huse => exact hp.1 x huse
  | later r hg _ ih =>
    obtain ⟨K', rfl, hk⟩ := hp.2 r
    rcases ih hk with h | h
    · exact h
    · exact absurd h hg

end Holds

end Prog

end Conc
