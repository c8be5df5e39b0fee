import Mathlib.Data.List.Basic

/-!
# Prefix codes

A prefix code writes each message as a non-empty word, so that no word is a
prefix of another.  A stream can then be cut into messages in one way only:
two lists of messages that a stream starts with are prefixes of each other
(`concat_comparable`).

`IsLongest s fs` says that `fs` is the longest list of messages that `s` starts
with.  Every stream has exactly one (`exists_isLongest`, `IsLongest.unique`),
and a reader finds it by taking off words until no word is left
(`isLongest_of_stuck`).
-/

namespace Data

/-- A code whose words are not prefixes of each other. -/
structure PrefixCode (F α : Type) where
  word : F → List α
  word_ne_nil : ∀ f, word f ≠ []
  prefix_free : ∀ f g, word f <+: word g → f = g

namespace PrefixCode

variable {F α : Type} (code : PrefixCode F α)

/-- The stream that the messages `fs` are written as. -/
def concat (fs : List F) : List α := fs.flatMap code.word

@[simp] theorem concat_nil : code.concat [] = [] := rfl

@[simp] theorem concat_cons (f : F) (fs : List F) :
    code.concat (f :: fs) = code.word f ++ code.concat fs := List.flatMap_cons

@[simp] theorem concat_append (fs gs : List F) :
    code.concat (fs ++ gs) = code.concat fs ++ code.concat gs := List.flatMap_append

/-- No word is a prefix of the stream. -/
def Stuck (s : List α) : Prop := ∀ f, ¬ code.word f <+: s

/-- `fs` is the longest list of messages that the stream starts with. -/
def IsLongest (s : List α) (fs : List F) : Prop :=
  code.concat fs <+: s ∧ ∀ gs, code.concat gs <+: s → gs.length ≤ fs.length

variable {code}

/-- Two words that a stream starts with are the same. -/
theorem word_unique {f g : F} {s : List α} (hf : code.word f <+: s) (hg : code.word g <+: s) :
    f = g := by
  rcases List.prefix_or_prefix_of_prefix hf hg with h | h
  · exact code.prefix_free f g h
  · exact (code.prefix_free g f h).symm

/-- Two lists of messages that a stream starts with are prefixes of each
other. -/
theorem concat_comparable {fs gs : List F} {s : List α} (hf : code.concat fs <+: s)
    (hg : code.concat gs <+: s) : fs <+: gs ∨ gs <+: fs := by
  induction fs generalizing gs s with
  | nil => exact Or.inl List.nil_prefix
  | cons f fs ih =>
    cases gs with
    | nil => exact Or.inr List.nil_prefix
    | cons g gs =>
      rw [concat_cons] at hf hg
      have hfg : f = g := word_unique ((List.prefix_append _ _).trans hf)
        ((List.prefix_append _ _).trans hg)
      subst hfg
      have ⟨rest, hrest⟩ := (List.prefix_append _ _).trans hf
      subst hrest
      rw [List.prefix_append_right_inj] at hf hg
      simpa only [List.cons_prefix_cons, true_and] using ih hf hg

theorem prefix_of_length_le {fs gs : List F} {s : List α} (hf : code.concat fs <+: s)
    (hg : code.concat gs <+: s) (hlen : gs.length ≤ fs.length) : gs <+: fs := by
  rcases concat_comparable hf hg with h | h
  · exact (h.eq_of_length_le hlen) ▸ List.prefix_rfl
  · exact h

namespace IsLongest

variable {s : List α} {fs gs : List F}

/-- Every list of messages that the stream starts with is a part of the
longest one. -/
theorem prefix_of (h : code.IsLongest s fs) (hg : code.concat gs <+: s) : gs <+: fs :=
  prefix_of_length_le h.1 hg (h.2 gs hg)

theorem unique (hf : code.IsLongest s fs) (hg : code.IsLongest s gs) : fs = gs :=
  (hg.prefix_of hf.1).eq_of_length (Nat.le_antisymm (hg.2 fs hf.1) (hf.2 gs hg.1))

end IsLongest

/-- A reader that has taken off words until none is left has read the longest
list of messages. -/
theorem isLongest_of_stuck {fs : List F} {rest : List α} (h : code.Stuck rest) :
    code.IsLongest (code.concat fs ++ rest) fs := by
  refine ⟨List.prefix_append _ _, fun gs hg => ?_⟩
  rcases concat_comparable (List.prefix_append _ rest) hg with ⟨hs, rfl⟩ | hp
  · cases hs with
    | nil => simp
    | cons f hs =>
      rw [concat_append, List.prefix_append_right_inj, concat_cons] at hg
      exact absurd ((List.prefix_append _ _).trans hg) (h f)
  · exact hp.length_le

/-- Every stream starts with a longest list of messages. -/
theorem exists_isLongest (code : PrefixCode F α) (s : List α) : ∃ fs, code.IsLongest s fs := by
  suffices h : ∃ fs rest, s = code.concat fs ++ rest ∧ code.Stuck rest by
    have ⟨fs, rest, hs, hstuck⟩ := h
    exact ⟨fs, hs ▸ isLongest_of_stuck hstuck⟩
  -- By induction on the length: a word that can be taken off is not empty.
  induction hn : s.length using Nat.strongRecOn generalizing s with
  | _ n ih =>
    by_cases hstuck : code.Stuck s
    · exact ⟨[], s, rfl, hstuck⟩
    · unfold Stuck at hstuck
      push Not at hstuck
      have ⟨f, rest, hrest⟩ := hstuck
      have hpos : 0 < (code.word f).length := List.length_pos_iff.2 (code.word_ne_nil f)
      have hlen : (code.word f).length + rest.length = n := by
        rw [← List.length_append, hrest, hn]
      have ⟨fs, rest', hfs, hstuck'⟩ := ih rest.length (by omega) rest rfl
      exact ⟨f :: fs, rest', by rw [concat_cons, List.append_assoc, ← hfs, hrest], hstuck'⟩

end PrefixCode

/-! ## Lists cut after a message -/

variable {F : Type}

/-- The list up to the first element that satisfies `P`, with that element. -/
def cutAfter (P : F → Bool) : List F → List F
  | [] => []
  | f :: fs => if P f then [f] else f :: cutAfter P fs

/-- What is cut off is at the end. -/
theorem cutAfter_prefix (P : F → Bool) (fs : List F) : cutAfter P fs <+: fs := by
  induction fs with
  | nil => exact List.prefix_rfl
  | cons f fs ih =>
    rw [cutAfter]
    split
    · exact ⟨fs, rfl⟩
    · exact List.cons_prefix_cons.2 ⟨rfl, ih⟩

theorem cutAfter_append {P : F → Bool} {fs : List F} (h : ∀ f ∈ fs, P f = false) (gs : List F) :
    cutAfter P (fs ++ gs) = fs ++ cutAfter P gs := by
  induction fs with
  | nil => rfl
  | cons f fs ih =>
    have hf : P f = false := h f List.mem_cons_self
    rw [List.cons_append, cutAfter, hf, List.cons_append,
      ih fun g hg => h g (List.mem_cons_of_mem f hg)]
    rfl

theorem cutAfter_eq_self {P : F → Bool} {fs : List F} (h : ∀ f ∈ fs, P f = false) :
    cutAfter P fs = fs := by
  have happend := cutAfter_append h []
  rw [List.append_nil] at happend
  exact happend.trans (List.append_nil fs)

/-- What comes after an element that satisfies `P` is cut off. -/
theorem cutAfter_append_of_mem {P : F → Bool} {fs : List F} (h : ∃ f ∈ fs, P f = true)
    (gs : List F) : cutAfter P (fs ++ gs) = cutAfter P fs := by
  have ⟨f, hmem, hf⟩ := h
  induction fs with
  | nil => cases hmem
  | cons g fs ih =>
    rw [List.cons_append, cutAfter, cutAfter]
    split
    · rfl
    · rename_i hg
      rcases List.mem_cons.1 hmem with rfl | hmem
      · exact absurd hf hg
      · rw [ih ⟨f, hmem, hf⟩ hmem]

theorem cutAfter_map {G : Type} (P : G → Bool) (f : F → G) (fs : List F) :
    cutAfter P (fs.map f) = (cutAfter (fun x => P (f x)) fs).map f := by
  induction fs with
  | nil => rfl
  | cons x fs ih =>
    rw [List.map_cons, cutAfter, cutAfter]
    split
    · rfl
    · rw [List.map_cons, ih]

/-- Nothing after the first element that satisfies `P` matters. -/
theorem cutAfter_concat {P : F → Bool} {fs : List F} {f : F} (h : ∀ g ∈ fs, P g = false)
    (hf : P f = true) (gs : List F) : cutAfter P (fs ++ f :: gs) = fs ++ [f] := by
  rw [cutAfter_append h, cutAfter, if_pos hf]

end Data
