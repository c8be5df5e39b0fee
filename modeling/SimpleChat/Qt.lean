import SimpleChat.Data.Sections
import Mathlib.Data.List.Basic

/-!
# What the window uses of Qt

The tabs of a `QTabWidget`, the items of a `QComboBox`, and the white space of
`QChar` are parameters of the model.  `Qt.Documented` says what the documentation
promises of the calls that the window makes.

`Qt.plain` is one such Qt, on which the window can be run.
-/

namespace SimpleChat

/-- A widget, by the order in which the window creates them. -/
abbrev Widget := Nat

/-- The classes of Qt, with the calls that the window makes.  An index that Qt gives
as −1 is `none`. -/
structure Qt where
  /-- `QChar::isSpace`. -/
  isSpace : Char → Bool
  /-- `QTabWidget`. -/
  Tabs : Type
  newTabs : Tabs
  /-- The widgets and the titles of the tabs, from left to right. -/
  tabs : Tabs → List (Widget × String)
  currentTab : Tabs → Option Nat
  addTab : Tabs → Widget → String → Tabs
  removeTab : Tabs → Nat → Tabs
  setCurrentTab : Tabs → Nat → Tabs
  /-- `QComboBox`, with a placeholder text that was set before any item was added. -/
  Combo : Type
  newCombo : Combo
  items : Combo → List String
  currentItem : Combo → Option Nat
  clear : Combo → Combo
  addItem : Combo → String → Combo
  setCurrentItem : Combo → Nat → Combo

namespace Qt

variable (qt : Qt)

/-- What the documentation says of the calls. -/
structure Documented : Prop where
  isSpace_blank : qt.isSpace ' ' = true
  tabs_new : qt.tabs qt.newTabs = []
  /-- `addTab` appends. -/
  tabs_addTab : ∀ t x title, qt.tabs (qt.addTab t x title) = qt.tabs t ++ [(x, title)]
  /-- `removeTab` removes the tab; its widget is not deleted. -/
  tabs_removeTab : ∀ t index, qt.tabs (qt.removeTab t index) = (qt.tabs t).eraseIdx index
  tabs_setCurrentTab : ∀ t index, qt.tabs (qt.setCurrentTab t index) = qt.tabs t
  currentTab_setCurrentTab : ∀ t index, index < (qt.tabs t).length →
    qt.currentTab (qt.setCurrentTab t index) = some index
  items_clear : ∀ c, qt.items (qt.clear c) = []
  /-- `clear` drops the selection. -/
  currentItem_clear : ∀ c, qt.currentItem (qt.clear c) = none
  items_addItem : ∀ c text, qt.items (qt.addItem c text) = qt.items c ++ [text]
  /-- An added item does not become the current one: the placeholder text stays. -/
  currentItem_addItem : ∀ c text, qt.currentItem (qt.addItem c text) = qt.currentItem c
  items_new : qt.items qt.newCombo = []
  currentItem_new : qt.currentItem qt.newCombo = none
  items_setCurrentItem : ∀ c index, qt.items (qt.setCurrentItem c index) = qt.items c
  currentItem_setCurrentItem : ∀ c index, index < (qt.items c).length →
    qt.currentItem (qt.setCurrentItem c index) = some index

/-- `QTabWidget::tabText`. -/
def tabText (t : qt.Tabs) (index : Nat) : String := (((qt.tabs t)[index]?).map Prod.snd).getD ""

/-- `QTabWidget::indexOf`. -/
def indexOf (t : qt.Tabs) (x : Widget) : Option Nat :=
  (qt.tabs t).findIdx? fun tab => decide (tab.1 = x)

/-- `QComboBox::currentText`. -/
def currentText (c : qt.Combo) : String :=
  ((qt.currentItem c).bind fun index => (qt.items c)[index]?).getD ""

/-- `QComboBox::findText`. -/
def findText (c : qt.Combo) (text : String) : Option Nat :=
  (qt.items c).findIdx? fun item => decide (item = text)

/-- `QString::trimmed`. -/
def trimmed (s : String) : String := .ofList (Data.trim qt.isSpace s.toList)

/-- `QString::section(sep, 0, 0)`. -/
def firstSection (sep s : String) : String := .ofList (Data.firstSection sep.toList s.toList)

variable {qt}

/-! ## What follows for the calls -/

/-- The combo box shows the item that is set. -/
theorem Documented.currentText_setCurrentItem (hqt : qt.Documented) {c : qt.Combo} {index : Nat}
    {text : String} (h : (qt.items c)[index]? = some text) :
    qt.currentText (qt.setCurrentItem c index) = text := by
  have hindex : index < (qt.items c).length := (List.getElem?_eq_some_iff.1 h).1
  unfold currentText
  rw [hqt.currentItem_setCurrentItem c index hindex, hqt.items_setCurrentItem, Option.bind_some, h]
  rfl

theorem currentText_of_none {c : qt.Combo} (h : qt.currentItem c = none) :
    qt.currentText c = "" := by
  unfold currentText
  rw [h]
  rfl

theorem findText_eq_some {c : qt.Combo} {text : String} {index : Nat}
    (h : qt.findText c text = some index) : (qt.items c)[index]? = some text := by
  have ⟨hindex, heq, _⟩ := List.findIdx?_eq_some_iff_getElem.1 h
  rw [List.getElem?_eq_some_iff]
  exact ⟨hindex, of_decide_eq_true heq⟩

theorem findText_eq_none {c : qt.Combo} {text : String} (h : qt.findText c text = none) :
    text ∉ qt.items c := by
  intro hmem
  have hno := List.findIdx?_eq_none_iff.1 h text hmem
  exact of_decide_eq_false hno rfl

theorem indexOf_eq_some {t : qt.Tabs} {x : Widget} {index : Nat}
    (h : qt.indexOf t x = some index) : ∃ title, (qt.tabs t)[index]? = some (x, title) := by
  have ⟨hindex, heq, _⟩ := List.findIdx?_eq_some_iff_getElem.1 h
  refine ⟨((qt.tabs t)[index]).2, ?_⟩
  rw [List.getElem?_eq_some_iff]
  exact ⟨hindex, Prod.ext (of_decide_eq_true heq) rfl⟩

theorem indexOf_eq_none {t : qt.Tabs} {x : Widget} (h : qt.indexOf t x = none) :
    ∀ title, (x, title) ∉ qt.tabs t := by
  intro title hmem
  have hno := List.findIdx?_eq_none_iff.1 h (x, title) hmem
  exact of_decide_eq_false hno rfl

/-! ## A Qt on which the window runs -/

/-- `QChar::isSpace`: the separators of Unicode and the control characters among them. -/
def isSpaceChar (c : Char) : Bool :=
  c.toNat ∈ [0x20, 0x85, 0xA0, 0x1680, 0x2028, 0x2029, 0x202F, 0x205F, 0x3000] ∨
    0x09 ≤ c.toNat ∧ c.toNat ≤ 0x0D ∨ 0x2000 ≤ c.toNat ∧ c.toNat ≤ 0x200A

/-- The tabs and the items as lists with an index.  The tab to the right of the
current one becomes the current one when that is removed. -/
def plain : Qt where
  isSpace := isSpaceChar
  Tabs := List (Widget × String) × Option Nat
  newTabs := ([], none)
  tabs := Prod.fst
  currentTab := Prod.snd
  addTab t x title := (t.1 ++ [(x, title)], t.2.or (some 0))
  removeTab t index :=
    let rest := t.1.eraseIdx index
    (rest, if rest = [] then none
      else t.2.map fun i => if index < i then i - 1 else min i (rest.length - 1))
  setCurrentTab t index := (t.1, if index < t.1.length then some index else t.2)
  Combo := List String × Option Nat
  newCombo := ([], none)
  items := Prod.fst
  currentItem := Prod.snd
  clear _ := ([], none)
  addItem c text := (c.1 ++ [text], c.2)
  setCurrentItem c index := (c.1, if index < c.1.length then some index else none)

theorem plain_documented : plain.Documented where
  isSpace_blank := by decide
  tabs_new := rfl
  tabs_addTab _ _ _ := rfl
  tabs_removeTab _ _ := rfl
  tabs_setCurrentTab _ _ := rfl
  currentTab_setCurrentTab _ _ h := if_pos h
  items_clear _ := rfl
  currentItem_clear _ := rfl
  items_addItem _ _ := rfl
  currentItem_addItem _ _ := rfl
  items_new := rfl
  currentItem_new := rfl
  items_setCurrentItem _ _ := rfl
  currentItem_setCurrentItem _ _ h := if_pos h

end Qt

end SimpleChat
