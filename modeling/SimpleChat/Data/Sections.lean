import Mathlib.Data.List.DropRight
import Mathlib.Data.List.Infix
import Mathlib.Data.List.TakeWhile

/-!
# The first section of a text

A text is written in front of a separator and read back as what stands before the
first separator, without the blanks at its ends.  `trim_firstSection_iff` says for
which texts this gives the text back, and `clean_iff` what that means for the
separator that is one blank written twice.
-/

namespace Data

variable {α : Type} {p : α → Bool} {b : α} {sep l r : List α}

/-- The list without the blanks at its ends. -/
def trim (p : α → Bool) (l : List α) : List α := (l.dropWhile p).rdropWhile p

theorem length_trim_le : (trim p l).length ≤ l.length :=
  Nat.le_trans (List.rdropWhile_prefix p _).length_le (List.dropWhile_suffix p).length_le

/-- A list that begins and ends with no blank is its own trimming. -/
theorem trim_eq_self (hhead : ∀ a ∈ l.head?, p a = false) (hlast : ∀ a ∈ l.getLast?, p a = false) :
    trim p l = l := by
  have hdrop : l.dropWhile p = l := by
    cases l with
    | nil => rfl
    | cons a l => rw [List.dropWhile_cons_of_neg (by simp [hhead a rfl])]
  unfold trim
  rw [hdrop, List.rdropWhile_eq_self_iff]
  intro hne
  rw [hlast _ (List.getLast?_eq_some_getLast hne)]
  decide

theorem head?_of_trim_eq_self (h : trim p l = l) : ∀ a ∈ l.head?, p a = false := by
  intro a ha
  cases l with
  | nil => cases ha
  | cons a' l =>
    cases ha
    by_contra hp
    have hlength : (trim p (a :: l)).length ≤ l.length := by
      unfold trim
      rw [List.dropWhile_cons_of_pos (by simpa using hp)]
      exact length_trim_le
    rw [h, List.length_cons] at hlength
    omega

theorem getLast?_of_trim_eq_self (h : trim p l = l) : ∀ a ∈ l.getLast?, p a = false := by
  intro a ha
  have hdrop : l.dropWhile p = l := by
    refine (List.dropWhile_suffix p).eq_of_length ?_
    have hle : (trim p l).length ≤ (l.dropWhile p).length := (List.rdropWhile_prefix p _).length_le
    have hge : (l.dropWhile p).length ≤ l.length := (List.dropWhile_suffix p).length_le
    rw [h] at hle
    omega
  unfold trim at h
  rw [hdrop, List.rdropWhile_eq_self_iff] at h
  have hne : l ≠ [] := by
    intro hnil
    rw [hnil] at ha
    cases ha
  have hp := h hne
  rw [List.getLast?_eq_some_getLast hne, Option.mem_some_iff] at ha
  rw [ha] at hp
  simpa using hp

variable [DecidableEq α]

/-- What stands before the first occurrence of the separator. -/
def firstSection (sep : List α) : List α → List α
  | [] => []
  | a :: l => if sep <+: a :: l then [] else a :: firstSection sep l

/-- The section is a part of what was written before the separator. -/
theorem firstSection_initial (hsep : sep ≠ []) : firstSection sep (l ++ sep ++ r) <+: l := by
  induction l with
  | nil =>
    have ⟨a, t, he⟩ := List.exists_cons_of_ne_nil hsep
    have hstart : sep <+: a :: (t ++ r) := by
      rw [← List.cons_append, ← he]
      exact List.prefix_append sep r
    rw [he, List.nil_append, List.cons_append, firstSection, ← he, if_pos hstart]
  | cons a l ih =>
    rw [List.cons_append, List.cons_append, firstSection]
    split
    · exact List.nil_prefix
    · exact List.prefix_cons_inj a |>.2 ih

/-- The section is all of it if no separator begins earlier. -/
theorem firstSection_eq_iff (hsep : sep ≠ []) :
    firstSection sep (l ++ sep ++ r) = l ↔ ¬ sep <:+: (l ++ sep).dropLast := by
  induction l with
  | nil =>
    have hlength : 0 < sep.length := List.length_pos_iff.2 hsep
    constructor
    · intro _ hinfix
      have hle := hinfix.length_le
      rw [List.nil_append, List.length_dropLast] at hle
      omega
    · intro _
      exact List.prefix_nil.1 (firstSection_initial hsep)
  | cons a l ih =>
    have hne : l ++ sep ≠ [] := List.append_ne_nil_of_right_ne_nil l hsep
    have hfits : sep.length ≤ (a :: (l ++ sep).dropLast).length := by
      rw [List.length_cons, List.length_dropLast, List.length_append]
      omega
    have hstarts : sep <+: a :: (l ++ sep ++ r) ↔ sep <+: a :: (l ++ sep).dropLast := by
      have hsplit : a :: (l ++ sep ++ r) =
          a :: (l ++ sep).dropLast ++ ([(l ++ sep).getLast hne] ++ r) := by
        rw [List.cons_append, ← List.append_assoc, List.dropLast_concat_getLast]
      rw [hsplit]
      exact List.isPrefix_append_of_length hfits
    rw [List.cons_append, List.cons_append, firstSection, List.dropLast_cons_of_ne_nil hne,
      List.infix_cons_iff, ← hstarts]
    split
    · rename_i hstart
      exact ⟨fun h => (nomatch h), fun h => absurd (Or.inl hstart) h⟩
    · rename_i hstart
      rw [List.cons_inj_right, ih, not_or]
      exact ⟨fun h => ⟨hstart, h⟩, fun h => h.2⟩

/-- The text comes back if and only if it has no blank at its ends and no separator
begins in it. -/
theorem trim_firstSection_iff (hsep : sep ≠ []) :
    trim p (firstSection sep (l ++ sep ++ r)) = l ↔
      trim p l = l ∧ ¬ sep <:+: (l ++ sep).dropLast := by
  have hinitial : firstSection sep (l ++ sep ++ r) <+: l := firstSection_initial hsep
  rw [← firstSection_eq_iff (r := r) hsep]
  constructor
  · intro h
    have hsection : firstSection sep (l ++ sep ++ r) = l := by
      refine hinitial.eq_of_length ?_
      have hle : (trim p (firstSection sep (l ++ sep ++ r))).length ≤ _ := length_trim_le
      rw [h] at hle
      have hge := hinitial.length_le
      omega
    rw [hsection] at h
    exact ⟨h, hsection⟩
  · intro ⟨htrim, hsection⟩
    rw [hsection, htrim]

/-! ## One blank written twice -/

/-- The text has no blank at its ends and nowhere two in a row. -/
structure Clean (p : α → Bool) (b : α) (l : List α) : Prop where
  head : ∀ a ∈ l.head?, p a = false
  last : ∀ a ∈ l.getLast?, p a = false
  single : ¬ [b, b] <:+: l

instance : Decidable (Clean p b l) :=
  decidable_of_iff ((∀ a ∈ l.head?, p a = false) ∧ (∀ a ∈ l.getLast?, p a = false) ∧
    ¬ [b, b] <:+: l) ⟨fun h => ⟨h.1, h.2.1, h.2.2⟩, fun h => ⟨h.head, h.last, h.single⟩⟩

/-- A text comes back from before a separator of two blanks if and only if it is
clean. -/
theorem clean_iff (hb : p b = true) :
    trim p (firstSection [b, b] (l ++ [b, b] ++ r)) = l ↔ Clean p b l := by
  rw [trim_firstSection_iff (List.cons_ne_nil b [b])]
  have hdrop : (l ++ [b, b]).dropLast = l ++ [b] := by
    rw [show l ++ [b, b] = l ++ [b] ++ [b] by simp, List.dropLast_concat]
  rw [hdrop, List.infix_concat_iff]
  constructor
  · intro ⟨htrim, hsingle⟩
    exact ⟨head?_of_trim_eq_self htrim, getLast?_of_trim_eq_self htrim,
      fun hinfix => hsingle (Or.inr hinfix)⟩
  · intro ⟨hhead, hlast, hsingle⟩
    refine ⟨trim_eq_self hhead hlast, fun h => h.elim (fun hsuffix => ?_) hsingle⟩
    have hends : [b] <:+ l := by
      rw [show [b, b] = [b] ++ [b] from rfl, List.suffix_concat_iff] at hsuffix
      rcases hsuffix with hnil | ⟨t, ht, hsuffix⟩
      · simp at hnil
      · rw [List.append_cancel_right ht]
        exact hsuffix
    obtain ⟨m, rfl⟩ := hends
    have hp := hlast b (by simp)
    rw [hb] at hp
    cases hp

end Data
