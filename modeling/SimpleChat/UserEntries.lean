import SimpleChat.DmTabs

/-!
# The entries of the list of users

`onAllUsers` writes the name of a user, two blanks and the status as one text, and
`onUserDoubleClicked` reads the name back as the first section of the text, trimmed.
The server takes every name but the empty one, so the name that is read need not be
the one that was written: `userOf_userEntry` says when it is.

`double_click_iff` is what this means for a double-click: it selects the user and
shows the tab of the user if and only if the name is clean and its tab has not been
closed.
-/

namespace SimpleChat

open Conc Data Function

namespace ChatWindow

variable {qt : Qt} {w w' : ChatWindow qt} {name user : String}

/-! ## What `onAllUsers` writes -/

theorem addUsers_append (usernames : List String) (statuses : List Int) (w : ChatWindow qt) :
    ∃ l, (addUsers usernames statuses w).userList = w.userList ++ l ∧
      ∀ i : Nat, l[i]? = (usernames[i]?).map fun name => userEntry name (statuses.getD i 0) := by
  induction usernames generalizing statuses w with
  | nil => exact ⟨[], (List.append_nil _).symm, fun _ => rfl⟩
  | cons name usernames ih =>
    have ⟨l, hl, hentries⟩ := ih statuses.tail (w.addUser name (statuses.headD 0))
    refine ⟨userEntry name (statuses.headD 0) :: l, ?_, fun i => ?_⟩
    · rw [List.append_cons]
      exact hl
    · cases i with
      | zero => cases statuses <;> rfl
      | succ i =>
        rw [List.getElem?_cons_succ, List.getElem?_cons_succ, hentries]
        cases statuses <;> rfl

/-- The entry in a row is that of the user with that index. -/
theorem getElem?_userList (usernames : List String) (statuses : List Int) (i : Nat) :
    (w.onAllUsers usernames statuses).userList[i]? =
      (usernames[i]?).map fun name => userEntry name (statuses.getD i 0) := by
  have ⟨l, hl, hentries⟩ := addUsers_append usernames statuses
    { w with userList := [], dmTargetCombo := qt.clear w.dmTargetCombo }
  unfold onAllUsers
  rw [hl, ← hentries]
  rfl

/-! ## The target that is selected -/

/-- A user that the combo box does not offer leaves it as it is. -/
theorem selectTarget_of_not_mem (h : user ∉ qt.items w.dmTargetCombo) :
    (w.selectTarget user).dmTargetCombo = w.dmTargetCombo := by
  unfold selectTarget
  cases hfind : qt.findText w.dmTargetCombo user with
  | some idx => exact absurd (List.mem_of_getElem? (Qt.findText_eq_some hfind)) h
  | none => rfl

theorem showDmTab_dmTargetCombo : (w.showDmTab user).dmTargetCombo = w.dmTargetCombo :=
  getOrCreateDmTab_dmTargetCombo w user

theorem showDmTab_modeCombo : (w.showDmTab user).modeCombo = w.modeCombo :=
  getOrCreateDmTab_modeCombo w user

section

variable (hqt : qt.Documented)
include hqt

/-- One that it offers is shown. -/
theorem currentText_selectTarget (h : user ∈ qt.items w.dmTargetCombo) :
    qt.currentText (w.selectTarget user).dmTargetCombo = user := by
  unfold selectTarget
  cases hfind : qt.findText w.dmTargetCombo user with
  | some idx => exact hqt.currentText_setCurrentItem (Qt.findText_eq_some hfind)
  | none => exact absurd h (Qt.findText_eq_none hfind)

theorem items_selectTarget : qt.items (w.selectTarget user).dmTargetCombo =
    qt.items w.dmTargetCombo := by
  unfold selectTarget
  split
  · exact hqt.items_setCurrentItem _ _
  · rfl

/-- A double-click changes no item. -/
theorem items_onUserDoubleClicked (text : String) :
    qt.items (w.onUserDoubleClicked text).dmTargetCombo = qt.items w.dmTargetCombo := by
  unfold onUserDoubleClicked
  split
  · rfl
  · rw [showDmTab_dmTargetCombo, items_selectTarget hqt]

/-- A double-click without a selected target selects the user that is read, or none. -/
theorem currentText_onUserDoubleClicked (hnone : qt.currentItem w.dmTargetCombo = none)
    (text : String) : qt.currentText (w.onUserDoubleClicked text).dmTargetCombo = "" ∨
      qt.currentText (w.onUserDoubleClicked text).dmTargetCombo = userOf qt text := by
  unfold onUserDoubleClicked
  split
  · exact Or.inl (Qt.currentText_of_none hnone)
  · rw [showDmTab_dmTargetCombo]
    by_cases hmem : userOf qt text ∈ qt.items w.dmTargetCombo
    · exact Or.inr (currentText_selectTarget (w := { w with modeCombo := .dm }) hqt hmem)
    · rw [selectTarget_of_not_mem (w := { w with modeCombo := .dm }) hmem]
      exact Or.inl (Qt.currentText_of_none hnone)

/-! ## The items of the combo box -/

theorem items_addUser (w : ChatWindow qt) (name : String) (st : Int) :
    qt.items (w.addUser name st).dmTargetCombo =
      qt.items w.dmTargetCombo ++ [name].filter fun name => name ≠ w.username := by
  show qt.items (if name ≠ w.username then _ else _) = _
  by_cases hown : name = w.username
  · simp [hown]
  · simp [hown, hqt.items_addItem]

theorem currentItem_addUser (w : ChatWindow qt) (name : String) (st : Int) :
    qt.currentItem (w.addUser name st).dmTargetCombo = qt.currentItem w.dmTargetCombo := by
  show qt.currentItem (if name ≠ w.username then _ else _) = _
  split
  · exact hqt.currentItem_addItem _ _
  · rfl

theorem items_addUsers (usernames : List String) (statuses : List Int) (w : ChatWindow qt) :
    qt.items (addUsers usernames statuses w).dmTargetCombo =
      qt.items w.dmTargetCombo ++ usernames.filter fun name => name ≠ w.username := by
  induction usernames generalizing statuses w with
  | nil => exact (List.append_nil _).symm
  | cons name usernames ih =>
    have hitems := ih statuses.tail (w.addUser name (statuses.headD 0))
    rw [items_addUser hqt, List.append_assoc] at hitems
    rw [← List.singleton_append, List.filter_append]
    exact hitems

theorem currentItem_addUsers (usernames : List String) (statuses : List Int) (w : ChatWindow qt) :
    qt.currentItem (addUsers usernames statuses w).dmTargetCombo =
      qt.currentItem w.dmTargetCombo := by
  induction usernames generalizing statuses w with
  | nil => rfl
  | cons name usernames ih =>
    rw [← currentItem_addUser hqt w name (statuses.headD 0)]
    exact ih statuses.tail (w.addUser name (statuses.headD 0))

/-- The combo box offers the users of the list but the own one. -/
theorem items_onAllUsers (usernames : List String) (statuses : List Int) :
    qt.items (w.onAllUsers usernames statuses).dmTargetCombo =
      usernames.filter fun name => name ≠ w.username := by
  unfold onAllUsers
  rw [items_addUsers hqt, hqt.items_clear]
  rfl

/-- No target is selected then. -/
theorem currentItem_onAllUsers (usernames : List String) (statuses : List Int) :
    qt.currentItem (w.onAllUsers usernames statuses).dmTargetCombo = none := by
  unfold onAllUsers
  rw [currentItem_addUsers hqt, hqt.currentItem_clear]

/-! ## What `onUserDoubleClicked` reads -/

/-- The name neither begins nor ends with white space and has no two blanks in a row. -/
def CleanName (qt : Qt) (name : String) : Prop := Clean qt.isSpace ' ' name.toList

instance (qt : Qt) (name : String) : Decidable (CleanName qt name) :=
  inferInstanceAs (Decidable (Clean _ _ _))

/-- The name that is read in an entry is the one that was written if and only if it is
clean. -/
theorem userOf_userEntry (st : Int) :
    userOf qt (userEntry name st) = name ↔ CleanName qt name := by
  unfold CleanName
  rw [← clean_iff (r := (MainWindow.statusToDisplay st).toList) hqt.isSpace_blank]
  have htext : (userEntry name st).toList =
      name.toList ++ [' ', ' '] ++ (MainWindow.statusToDisplay st).toList := by
    unfold userEntry
    rw [String.toList_append, String.toList_append]
    rfl
  have hread : userOf qt (userEntry name st) = .ofList (trim qt.isSpace
      (firstSection [' ', ' '] (name.toList ++ [' ', ' '] ++
        (MainWindow.statusToDisplay st).toList))) := by
    unfold userOf Qt.trimmed Qt.firstSection
    rw [String.toList_ofList, htext]
    rfl
  rw [hread]
  constructor
  · intro he
    have hlist := congrArg String.toList he
    rw [String.toList_ofList] at hlist
    exact hlist
  · intro he
    rw [he, String.ofList_toList]

/-! ## The tab of a user -/

/-- The current tab is the one of the user, and no other tab was opened. -/
def ShowsTab (w w' : ChatWindow qt) (user : String) : Prop :=
  ∃ tab index, w'.dmTabs user = some tab ∧ qt.currentTab w'.chatTabs = some index ∧
    (qt.tabs w'.chatTabs)[index]? = some (tab, dmTitle user) ∧
    ∀ t ∈ qt.tabs w'.chatTabs, t ∈ qt.tabs w.chatTabs ∨ t = (tab, dmTitle user)

/-- The tab of a user is shown unless the key of the user dangles. -/
theorem showsTab_iff (h : w.book.Placed dmTitle fixedTabs) :
    w.ShowsTab (w.showDmTab user) user ↔ ¬ w.book.Dangling user := by
  have hbook : (w.getOrCreateDmTab user).2.book = w.book.openTab dmTitle user :=
    book_getOrCreateDmTab hqt user
  have hplaced : (w.getOrCreateDmTab user).2.book.Placed dmTitle fixedTabs := by
    rw [hbook]
    exact h.openTab
  have hkey : (w.getOrCreateDmTab user).2.book.keys user = some (w.getOrCreateDmTab user).1 :=
    getOrCreateDmTab_dmTabs w user
  have htabs : qt.tabs (w.showDmTab user).chatTabs = qt.tabs (w.getOrCreateDmTab user).2.chatTabs :=
    tabs_showTab hqt _
  have hdangling := h.dangling_openTab_iff (k := user) (u := user)
  rw [← hbook] at hdangling
  rw [← hdangling]
  constructor
  · intro ⟨tab, index, htab, _, hindex, _⟩ ⟨x, hx, hno⟩
    have hsame : x = tab := Option.some.inj (hx.symm.trans htab)
    refine hno (dmTitle user) (List.mem_of_getElem? (i := index) ?_)
    show (qt.tabs (w.getOrCreateDmTab user).2.chatTabs)[index]? = _
    rw [← htabs, hsame]
    exact hindex
  · intro hnone
    have hmem := List.mem_of_mem_drop ((hplaced.mem_drop_iff_not_dangling hkey).2 hnone)
    have ⟨index, title', hcurrent, hindex⟩ := currentTab_showTab hqt hmem
    have htitle : title' = dmTitle user :=
      hplaced.titled user _ title' hkey (List.mem_of_getElem? hindex)
    refine ⟨(w.getOrCreateDmTab user).1, index, hkey, hcurrent, ?_, ?_⟩
    · rw [htabs, ← htitle]
      exact hindex
    · rw [htabs]
      unfold getOrCreateDmTab
      cases hopen : w.dmTabs user with
      | some tab => exact fun t ht => Or.inl ht
      | none =>
        intro t ht
        rw [hqt.tabs_addTab, List.mem_append, List.mem_singleton] at ht
        exact ht

/-! ## The double-click -/

/-- The user is the target of direct messages, and the tab of the user is shown. -/
structure PicksUser (w w' : ChatWindow qt) (user : String) : Prop where
  mode : w'.modeCombo = .dm
  target : qt.currentText w'.dmTargetCombo = user
  tab : w.ShowsTab w' user

/-- A double-click on a clean entry is one on its user. -/
theorem onUserDoubleClicked_of_clean (hclean : CleanName qt name) (st : Int) :
    w.onUserDoubleClicked (userEntry name st) = if name = "" ∨ name = w.username then w
      else ({ w with modeCombo := .dm }.selectTarget name).showDmTab name := by
  unfold onUserDoubleClicked
  rw [(userOf_userEntry hqt st).2 hclean]

/-- It selects the user, if the combo box offers the user. -/
theorem currentText_of_clean (hclean : CleanName qt name) (hne : name ≠ "")
    (hother : name ≠ w.username) (hoffered : name ∈ qt.items w.dmTargetCombo) (st : Int) :
    qt.currentText (w.onUserDoubleClicked (userEntry name st)).dmTargetCombo = name := by
  rw [onUserDoubleClicked_of_clean hqt hclean, if_neg (not_or.2 ⟨hne, hother⟩),
    showDmTab_dmTargetCombo]
  exact currentText_selectTarget (w := { w with modeCombo := .dm }) hqt hoffered

/-- A double-click on a clean entry of another user. -/
theorem picksUser_iff {usernames : List String} {statuses : List Int} {st : Int}
    (h : w.book.Placed dmTitle fixedTabs) (hmem : name ∈ usernames) (hne : name ≠ "")
    (hother : name ≠ w.username) (hclean : CleanName qt name) :
    w.PicksUser ((w.onAllUsers usernames statuses).onUserDoubleClicked (userEntry name st)) name ↔
      ¬ w.book.Dangling name := by
  have hoffered : name ∈ qt.items (w.onAllUsers usernames statuses).dmTargetCombo := by
    rw [items_onAllUsers hqt, List.mem_filter]
    exact ⟨hmem, decide_eq_true hother⟩
  have ⟨userList, combo, he⟩ := w.onAllUsers_eq usernames statuses
  rw [he] at hoffered ⊢
  have htarget := currentText_of_clean
    (w := { w with userList := userList, dmTargetCombo := combo }) hqt hclean hne hother hoffered st
  rw [onUserDoubleClicked_of_clean hqt hclean, if_neg (not_or.2 ⟨hne, hother⟩)] at htarget ⊢
  -- the window before its tab is shown
  let aimed : ChatWindow qt :=
    { w with userList := userList, dmTargetCombo := combo, modeCombo := .dm }.selectTarget name
  have hshows : w.ShowsTab (aimed.showDmTab name) name ↔ ¬ w.book.Dangling name :=
    showsTab_iff (w := aimed) hqt h
  rw [← hshows]
  exact ⟨fun hpicks => hpicks.tab, fun htab => ⟨showDmTab_modeCombo, htarget, htab⟩⟩

/-- A double-click on the entry of another user selects the user and shows the tab of
the user if and only if the name is clean and the key of the user does not dangle. -/
theorem double_click_iff {username localIp : String}
    (hreach : (windowSystem qt username localIp).Reaches Lts.Any w) {usernames : List String}
    {statuses : List Int} {i : Nat} (hname : usernames[i]? = some name) (hne : name ≠ "")
    (hother : name ≠ w.username) :
    ∃ w', (w.onAllUsers usernames statuses).slot (.doubleClick i) = some (w', []) ∧
      (w.PicksUser w' name ↔ CleanName qt name ∧ ¬ w.book.Dangling name) := by
  have hentry := getElem?_userList (w := w) usernames statuses i
  rw [hname, Option.map_some] at hentry
  refine ⟨(w.onAllUsers usernames statuses).onUserDoubleClicked
    (userEntry name (statuses.getD i 0)), ?_, ?_⟩
  · show ((w.onAllUsers usernames statuses).userList[i]?).map _ = _
    rw [hentry]
    rfl
  · by_cases hclean : CleanName qt name
    · rw [picksUser_iff hqt (reachable_placed hqt hreach) (List.mem_of_getElem? hname) hne hother
        hclean]
      exact ⟨fun hkept => ⟨hclean, hkept⟩, fun hboth => hboth.2⟩
    · refine ⟨fun hpicks => ?_, fun hboth => absurd hboth.1 hclean⟩
      have hread := (userOf_userEntry hqt (statuses.getD i 0)).not.2 hclean
      rcases currentText_onUserDoubleClicked hqt (currentItem_onAllUsers hqt usernames statuses)
        (userEntry name (statuses.getD i 0)) with hempty | huser
      · exact absurd (hpicks.target.symm.trans hempty) hne
      · exact absurd (huser.symm.trans hpicks.target) hread

end

/-- A double-click on bob. -/
theorem double_click_bob : ∃ w',
    ((setupUi .plain "ann" "10.0.0.1").onAllUsers ["ann", "bob"] [0]).slot (.doubleClick 1) =
      some (w', []) ∧ (setupUi .plain "ann" "10.0.0.1").PicksUser w' "bob" := by
  have ⟨w', hslot, hpicks⟩ := @double_click_iff .plain _ "bob" Qt.plain_documented "ann" "10.0.0.1"
    .init ["ann", "bob"] [0] 1 rfl (by decide) (by decide)
  have hclean : CleanName .plain "bob" := by decide
  have hkept : ¬ (setupUi .plain "ann" "10.0.0.1").book.Dangling "bob" := by
    intro ⟨_, hx, _⟩
    cases hx
  exact ⟨w', hslot, hpicks.2 ⟨hclean, hkept⟩⟩

/-- A double-click on a user whose name has two blanks in a row selects another user. -/
theorem double_click_misread : ¬ ∀ (usernames : List String) (statuses : List Int) (i : Nat)
    (name : String), usernames.Nodup → "" ∉ usernames → usernames[i]? = some name →
      name ≠ "ann" → ∃ w',
        ((setupUi .plain "ann" "10.0.0.1").onAllUsers usernames statuses).slot (.doubleClick i) =
          some (w', []) ∧ (setupUi .plain "ann" "10.0.0.1").PicksUser w' name := by
  intro h
  have ⟨w', hslot, hpicks⟩ := h ["ann", "eve", "eve  2"] [0, 0, 1] 2 "eve  2" (by decide)
    (by decide) rfl (by decide)
  have hw := (Prod.mk.inj (Option.some.inj hslot)).1
  have htarget : Qt.plain.currentText w'.dmTargetCombo = "eve" := by
    rw [← hw]
    rfl
  have hsame : "eve  2" = "eve" := hpicks.target.symm.trans htarget
  exact absurd hsame (by decide)

end ChatWindow

end SimpleChat
