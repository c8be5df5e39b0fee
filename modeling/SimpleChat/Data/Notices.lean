import Mathlib.Data.List.Basic

/-!
# Values that are announced after they change

Several writers change a value and announce each change later, in a step of
their own.  `Notices` keeps the value that was announced last and the changes
that are not announced yet, oldest first, each with the writer that owes its
announcement.

An announcement is in turn when it is for the oldest change that is still owed,
or when all changes that are owed name the same value.  As long as every
announcement is in turn, the value is the last one owed or else the one announced
(`current_pay`).  When nothing is owed the two agree (`current_of_settled`).
-/

namespace Data

/-- The last announced value, and the changes still to be announced. -/
structure Notices (T V : Type) where
  announced : V
  owed : List (T × V)

namespace Notices

variable {T V : Type} [DecidableEq T] (n : Notices T V) {t t' : T} {v : V}

/-- The value after all of the changes. -/
def current : V := (n.owed.getLast?.map Prod.snd).getD n.announced

/-- Writer `t` changes the value to each of `vs` in turn. -/
def incur (t : T) (vs : List V) : Notices T V :=
  { n with owed := n.owed ++ vs.map fun v => (t, v) }

/-- Writer `t` announces `v` for the oldest change that it owes. -/
def pay (t : T) (v : V) : Notices T V where
  announced := v
  owed := n.owed.eraseP fun x => x.1 = t

/-- Writer `t` may announce `v` now: the oldest change that is still owed is one
of `t`, or every change that is owed is to `v`. -/
def InTurn (t : T) (v : V) : Prop :=
  n.owed.head?.map Prod.fst = some t ∨ ∀ x ∈ n.owed, x.2 = v

instance [DecidableEq V] (t : T) (v : V) : Decidable (n.InTurn t v) :=
  inferInstanceAs (Decidable (_ ∨ _))

/-- The changes that `t` owes. -/
def owedBy (t : T) : List V := (n.owed.filter fun x => x.1 = t).map Prod.snd

omit [DecidableEq T] in
theorem current_incur (t : T) (vs : List V) :
    (n.incur t vs).current = vs.getLast?.getD n.current := by
  cases h : vs.getLast? with
  | none =>
    rw [List.getLast?_eq_none_iff] at h
    simp [incur, current, h]
  | some v => simp [incur, current, List.getLast?_append, h]

theorem owedBy_incur (t : T) (vs : List V) : (n.incur t vs).owedBy t = n.owedBy t ++ vs := by
  simp [incur, owedBy, List.filter_map, Function.comp_def]

theorem owedBy_incur_of_ne (h : t' ≠ t) (vs : List V) :
    (n.incur t vs).owedBy t' = n.owedBy t' := by
  simp [incur, owedBy, List.filter_map, Function.comp_def, h.symm]

theorem owedBy_pay (t : T) (v : V) : (n.pay t v).owedBy t = (n.owedBy t).tail := by
  rw [owedBy, owedBy, pay]
  induction n.owed with
  | nil => rfl
  | cons x l ih => by_cases hx : x.1 = t <;> simp_all

theorem owedBy_pay_of_ne (h : t' ≠ t) (v : V) : (n.pay t v).owedBy t' = n.owedBy t' := by
  rw [owedBy, owedBy, pay]
  induction n.owed with
  | nil => rfl
  | cons x l ih =>
    by_cases hx : x.1 = t
    · simp [hx, h.symm]
    · simp only [List.eraseP_cons, hx, decide_false, cond_false, List.filter_cons]
      split <;> simp_all

variable {n}

omit [DecidableEq T] in
/-- The value is `v` when every change that is owed is to `v`, and there is one
or `v` is announced. -/
theorem current_of_forall (hall : ∀ x ∈ n.owed, x.2 = v) (h : n.owed ≠ [] ∨ n.announced = v) :
    n.current = v := by
  rw [current]
  cases ho : n.owed.getLast? with
  | none =>
    rw [List.getLast?_eq_none_iff] at ho
    exact h.resolve_left fun hne => hne ho
  | some x => exact hall x (List.mem_of_getLast? ho)

/-- An announcement in turn leaves the value as it is. -/
theorem current_pay {rest : List V} (h : n.InTurn t v) (hv : n.owedBy t = v :: rest) :
    (n.pay t v).current = n.current := by
  have hne : n.owed ≠ [] := by
    intro ho
    rw [owedBy, ho] at hv
    cases hv
  rcases h with h | h
  · obtain ⟨⟨u, v'⟩, l, ho⟩ := List.exists_cons_of_ne_nil hne
    rw [ho, List.head?_cons, Option.map_some, Option.some.injEq] at h
    obtain rfl : u = t := h
    obtain rfl : v' = v := by
      rw [owedBy, ho] at hv
      simpa using (List.cons.inj (by simpa using hv)).1
    rw [current, current, pay, ho, List.getLast?_cons]
    cases hl : l.getLast? <;> simp [hl]
  · rw [current_of_forall h (Or.inl hne)]
    exact current_of_forall (fun x hx => h x (List.mem_of_mem_eraseP hx)) (Or.inr rfl)

/-- When nothing is owed the value is the one announced. -/
theorem current_of_settled (h : ∀ t, n.owedBy t = []) : n.current = n.announced := by
  rw [current]
  cases ho : n.owed with
  | nil => rfl
  | cons x rest =>
    have hx := h x.1
    rw [owedBy, ho] at hx
    simp at hx

end Notices

end Data
