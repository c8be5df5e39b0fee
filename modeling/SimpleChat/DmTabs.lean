import SimpleChat.ChatWindow
import SimpleChat.Data.TabBook

/-!
# The tabs of the direct messages

`dmTabs_` maps a peer to the widget of its tab.  The handler of `tabCloseRequested`
reads the key to remove off the title of the tab, which is "📩 " and the peer, so the
entry of the peer stays and maps to a widget that is no tab any more.

The tabs are a book of `Data.TabBook` (`slot_book`), whose keys are the peers.
`dm_tabs_match` says when they are in bijection with `dmTabs_`: as long as no tab of a
peer has been closed.
-/

namespace SimpleChat

open Conc Data Function

/-! ## The titles -/

theorem dmTitle_injective : Injective dmTitle := by
  intro u v h
  exact String.append_right_inj _ |>.1 h

/-- No peer is a title of its own. -/
theorem dmTitle_acyclic (n : Nat) (u : String) : dmTitle^[n + 1] u ≠ u := by
  have hgrows : ∀ n, u.length + n ≤ (dmTitle^[n] u).length := by
    intro n
    induction n with
    | zero => exact Nat.le_refl _
    | succ n ih =>
      rw [iterate_succ_apply']
      have hlength : (dmTitle (dmTitle^[n] u)).length = 2 + (dmTitle^[n] u).length :=
        String.length_append _ _
      omega
  intro he
  have hlt := hgrows (n + 1)
  rw [he] at hlt
  omega

namespace ChatWindow

variable {qt : Qt} {w w' : ChatWindow qt} {e : WindowEvent}

/-- The tabs that are not closed. -/
def fixedTabs : List (Widget × String) :=
  [(generalChat, "💬 General"), (systemLog, "🖥️ Sistema")]

/-- The tabs with `dmTabs_`. -/
def book (w : ChatWindow qt) : TabBook String := ⟨qt.tabs w.chatTabs, w.dmTabs, w.nextWidget⟩

/-- `dmTabs_` and the tabs from index 2 on are in bijection. -/
def TabsMatch (w : ChatWindow qt) : Prop := w.book.Matches dmTitle fixedTabs

/-- A direct message of the sender would be appended to a tab of the sender. -/
def ShowsDm (w : ChatWindow qt) (sender message : String) : Prop :=
  ∃ tab, (tab, dmTitle sender) ∈ (qt.tabs (w.onForDm sender message).chatTabs).drop 2 ∧
    (w.onForDm sender message).lines tab = w.lines tab ++ [.chat sender message]

/-- A widget other than the system log gets the message if it is the one of the sender. -/
theorem lines_onForDm {sender message : String} {tab : Widget} (htab : tab ≠ systemLog) :
    (w.onForDm sender message).lines tab =
      if tab = (w.getOrCreateDmTab sender).1 then w.lines tab ++ [.chat sender message]
      else w.lines tab := by
  have hlines : (w.onForDm sender message).lines tab =
      update (w.getOrCreateDmTab sender).2.lines (w.getOrCreateDmTab sender).1
        ((w.getOrCreateDmTab sender).2.lines (w.getOrCreateDmTab sender).1 ++
          [.chat sender message]) tab := update_of_ne htab _ _
  rw [hlines, getOrCreateDmTab_lines, update_apply]
  split
  · rename_i he
    rw [he]
  · rfl

/-! ## The slots on the book -/

section

variable (hqt : qt.Documented)
include hqt

theorem book_setupUi (username localIp : String) :
    (setupUi qt username localIp).book = ⟨fixedTabs, fun _ => none, 2⟩ := by
  have htabs : qt.tabs (setupUi qt username localIp).chatTabs = fixedTabs := by
    show qt.tabs (qt.addTab (qt.addTab qt.newTabs _ _) _ _) = _
    rw [hqt.tabs_addTab, hqt.tabs_addTab, hqt.tabs_new]
    rfl
  unfold book
  rw [htabs]
  rfl

theorem book_showTab (tab : Widget) : (w.showTab tab).book = w.book := by
  unfold book
  rw [tabs_showTab hqt]
  rfl

theorem book_getOrCreateDmTab (user : String) :
    (w.getOrCreateDmTab user).2.book = w.book.openTab dmTitle user := by
  unfold getOrCreateDmTab TabBook.openTab
  cases h : w.dmTabs user with
  | some tab =>
    have hkey : w.book.keys user = some tab := h
    rw [hkey]
  | none =>
    have hkey : w.book.keys user = none := h
    rw [hkey]
    show TabBook.mk (qt.tabs (qt.addTab _ _ _)) _ _ = _
    rw [hqt.tabs_addTab]
    rfl

theorem book_appendDmChat (user msg : String) (incoming : Bool) :
    (w.appendDmChat user msg incoming).book = w.book.openTab dmTitle user := by
  rw [← book_getOrCreateDmTab hqt]
  simp only [appendDmChat]
  split
  · rw [book_showTab hqt]
    rfl
  · rfl

theorem book_showDmTab (user : String) : (w.showDmTab user).book = w.book.openTab dmTitle user := by
  unfold showDmTab
  rw [book_showTab hqt, book_getOrCreateDmTab hqt]

theorem book_onUserDoubleClicked (w : ChatWindow qt) (text : String) :
    (w.onUserDoubleClicked text).book = w.book ∨
      ∃ user, (w.onUserDoubleClicked text).book = w.book.openTab dmTitle user := by
  unfold onUserDoubleClicked
  split
  · exact Or.inl rfl
  · refine Or.inr ⟨userOf qt text, ?_⟩
    rw [book_showDmTab hqt]
    rfl

theorem book_onSendClicked (w : ChatWindow qt) : w.onSendClicked.1.book = w.book ∨
    ∃ user, w.onSendClicked.1.book = w.book.openTab dmTitle user := by
  simp only [onSendClicked]
  split_ifs
  · exact Or.inl rfl
  · exact Or.inl rfl
  · exact Or.inl rfl
  · refine Or.inr ⟨qt.currentText w.dmTargetCombo, ?_⟩
    rw [book_appendDmChat hqt]
    rfl

theorem book_receive (w : ChatWindow qt) (msg : ServerMsg) : (w.receive msg).1.book = w.book ∨
    ∃ user, (w.receive msg).1.book = w.book.openTab dmTitle user := by
  cases msg with
  | serverResponse m => exact Or.inl rfl
  | allUsers m =>
    have ⟨userList, combo, he⟩ := w.onAllUsers_eq m.usernames (m.status.map StatusEnum.number)
    refine Or.inl ?_
    show (w.onAllUsers _ _).book = w.book
    rw [he]
    rfl
  | forDm m => exact Or.inr ⟨m.usernameDes, book_appendDmChat hqt _ _ _⟩
  | broadcastDelivery m => exact Or.inl rfl
  | getUserInfoResponse m => exact Or.inl rfl

theorem book_tabCloseRequested {index : Nat} (hindex : 2 ≤ index)
    (hlt : index < (qt.tabs w.chatTabs).length) :
    (w.tabCloseRequested index).book = w.book.closeTab index := by
  have hkeep : ¬ index ≤ 1 := by omega
  have htab : w.book.tabs[index]? = some ((qt.tabs w.chatTabs)[index]) :=
    List.getElem?_eq_getElem hlt
  have htext : qt.tabText w.chatTabs index = ((qt.tabs w.chatTabs)[index]).2 := by
    unfold Qt.tabText
    rw [List.getElem?_eq_getElem hlt]
    rfl
  rw [TabBook.closeTab_of_some htab]
  unfold tabCloseRequested
  rw [if_neg hkeep]
  show TabBook.mk (qt.tabs (qt.removeTab _ _)) (update w.dmTabs (qt.tabText _ _) none) _ = _
  rw [hqt.tabs_removeTab, htext]
  rfl

/-- What an event does to the tabs: it closes one of a peer, or opens one, or does
nothing. -/
theorem slot_book {x : ChatWindow qt × List ClientMsg} (h : w.slot e = some x) :
    (∃ index, e = .closeTab index ∧ 2 ≤ index ∧ index < w.book.tabs.length ∧
      x.1.book = w.book.closeTab index) ∨
    (∀ index, e = .closeTab index → index ≤ 1) ∧
      (x.1.book = w.book ∨ ∃ user, x.1.book = w.book.openTab dmTitle user) := by
  cases e with
  | closeTab index =>
    have ⟨hlt, he⟩ := Option.ite_none_right_eq_some.1 h
    rw [← Option.some.inj he]
    by_cases hindex : 2 ≤ index
    · exact Or.inl ⟨index, rfl, hindex, hlt, book_tabCloseRequested hqt hindex hlt⟩
    · have hkeep : index ≤ 1 := by omega
      refine Or.inr ⟨fun index' he' => ?_, Or.inl ?_⟩
      · cases he'
        exact hkeep
      · show (w.tabCloseRequested index).book = w.book
        unfold tabCloseRequested
        rw [if_pos hkeep]
  | sendClicked =>
    have ⟨_, he⟩ := Option.ite_none_right_eq_some.1 h
    rw [← Option.some.inj he]
    exact Or.inr ⟨fun _ he' => (nomatch he'), book_onSendClicked hqt w⟩
  | receive msg =>
    rw [← Option.some.inj h]
    exact Or.inr ⟨fun _ he' => (nomatch he'), book_receive hqt w msg⟩
  | doubleClick row =>
    have ⟨text, _, he⟩ := Option.map_eq_some_iff.1 h
    have hx : x = (w.onUserDoubleClicked text, []) := he.symm
    rw [hx]
    dsimp only
    exact Or.inr ⟨fun _ he' => (nomatch he'), book_onUserDoubleClicked hqt w text⟩
  | selectTab index =>
    have ⟨_, he⟩ := Option.ite_none_right_eq_some.1 h
    rw [← Option.some.inj he]
    refine Or.inr ⟨fun _ he' => (nomatch he'), Or.inl ?_⟩
    unfold book
    rw [hqt.tabs_setCurrentTab]
  | edit | selectTarget | pickStatus =>
    have ⟨_, he⟩ := Option.ite_none_right_eq_some.1 h
    rw [← Option.some.inj he]
    exact Or.inr ⟨fun _ he' => (nomatch he'), Or.inl rfl⟩
  | selectMode | refreshUsers | showUserInfo | connectionLost =>
    rw [← Option.some.inj h]
    exact Or.inr ⟨fun _ he' => (nomatch he'), Or.inl rfl⟩

/-! ## Runs -/

variable {username localIp : String}

theorem placed_setupUi : (setupUi qt username localIp).book.Placed dmTitle fixedTabs := by
  rw [book_setupUi hqt]
  refine ⟨List.prefix_refl _, by decide, by decide, fun _ _ hx => (nomatch hx),
    fun _ _ _ hx => (nomatch hx), fun x t hmem hown => ?_⟩
  exact absurd (List.mem_map_of_mem hmem) hown

theorem Placed.slot {x : ChatWindow qt × List ClientMsg} (h : w.book.Placed dmTitle fixedTabs)
    (hs : w.slot e = some x) : x.1.book.Placed dmTitle fixedTabs := by
  rcases slot_book hqt hs with ⟨index, _, hindex, _, he⟩ | ⟨_, he | ⟨user, he⟩⟩
  · rw [he]
    exact h.closeTab dmTitle_acyclic hindex
  · rw [he]
    exact h
  · rw [he]
    exact h.openTab

/-- The invariant of the tabs holds in every run. -/
theorem reachable_placed (h : (windowSystem qt username localIp).Reaches Lts.Any w) :
    w.book.Placed dmTitle fixedTabs := by
  refine h.invariant (I := fun w => w.book.Placed dmTitle fixedTabs) (placed_setupUi hqt) ?_
  intro t e t' _ hI _ hs
  have ⟨msgs, hslot⟩ := step_iff.1 hs
  exact Placed.slot hqt hI hslot

/-- A step leaves no key dangling if and only if none dangled and it closes no tab of a
peer. -/
theorem not_dangling_slot {x : ChatWindow qt × List ClientMsg}
    (h : w.book.Placed dmTitle fixedTabs) (hs : w.slot e = some x) :
    (¬ ∃ u, x.1.book.Dangling u) ↔
      (¬ ∃ u, w.book.Dangling u) ∧ ∀ index, e = .closeTab index → index ≤ 1 := by
  rcases slot_book hqt hs with ⟨index, hevent, hindex, hlt, he⟩ | ⟨hkeep, he | ⟨user, he⟩⟩
  · rw [he]
    constructor
    · intro hnone
      exact absurd (h.exists_dangling_closeTab dmTitle_acyclic hindex hlt) hnone
    · intro ⟨_, hkeep⟩
      have hle := hkeep index hevent
      omega
  · rw [he]
    exact ⟨fun hnone => ⟨hnone, hkeep⟩, fun hnone => hnone.1⟩
  · simp only [he, h.dangling_openTab_iff]
    exact ⟨fun hnone => ⟨hnone, hkeep⟩, fun hnone => hnone.1⟩

/-- No key dangles at the end of a run if and only if it closed no tab of a peer. -/
theorem not_dangling_iff {es : List WindowEvent}
    (hrun : (windowSystem qt username localIp).run (setupUi qt username localIp) es = some w) :
    (¬ ∃ u, w.book.Dangling u) ↔ ∀ index, .closeTab index ∈ es → index ≤ 1 := by
  have hinit : ¬ ∃ u, (setupUi qt username localIp).book.Dangling u := by
    rw [book_setupUi hqt]
    intro ⟨_, _, hx, _⟩
    cases hx
  rw [Lts.run_iff_of_invariant (L := windowSystem qt username localIp)
    (I := fun w => ¬ ∃ u, w.book.Dangling u)
    (J := fun w => w.book.Placed dmTitle fixedTabs)
    (C := fun _ e => ∀ index, e = .closeTab index → index ≤ 1) (placed_setupUi hqt)
    (fun t e t' hJ hs => ?_) (fun t e t' hJ hs => ?_) hrun, Lts.meets_iff_forall hrun]
  · constructor
    · intro ⟨_, hkeep⟩ index hmem
      exact hkeep _ hmem index rfl
    · intro hkeep
      exact ⟨hinit, fun e hmem index he => hkeep index (he ▸ hmem)⟩
  · have ⟨msgs, hslot⟩ := step_iff.1 hs
    exact Placed.slot hqt hJ hslot
  · have ⟨msgs, hslot⟩ := step_iff.1 hs
    exact not_dangling_slot hqt hJ hslot

/-! ## Incoming messages -/

/-- A message is shown unless the key of its sender dangles. -/
theorem showsDm_iff (h : w.book.Placed dmTitle fixedTabs) {sender message : String} :
    w.ShowsDm sender message ↔ ¬ w.book.Dangling sender := by
  have hbook : (w.onForDm sender message).book = w.book.openTab dmTitle sender :=
    book_appendDmChat hqt sender message true
  have hplaced : (w.onForDm sender message).book.Placed dmTitle fixedTabs := by
    rw [hbook]
    exact h.openTab
  have hkey : (w.onForDm sender message).book.keys sender = some (w.getOrCreateDmTab sender).1 := by
    rw [hbook, ← book_getOrCreateDmTab hqt]
    exact getOrCreateDmTab_dmTabs w sender
  have hshown := hplaced.mem_drop_iff_not_dangling hkey
  rw [hbook, h.dangling_openTab_iff, ← hbook] at hshown
  have hown : ∀ {tab title}, (tab, title) ∈ (w.onForDm sender message).book.tabs.drop 2 →
      tab ≠ systemLog := by
    intro tab title hmem he
    refine ((TabBook.mem_drop_iff hplaced.starts hplaced.nodup).1 hmem).2 ?_
    rw [he]
    show systemLog ∈ fixedTabs.map Prod.fst
    decide
  rw [← hshown]
  constructor
  · intro ⟨tab, hmem, hlines⟩
    rw [lines_onForDm (hown hmem)] at hlines
    split at hlines
    · rename_i he
      exact he ▸ hmem
    · simp at hlines
  · intro hmem
    refine ⟨_, hmem, ?_⟩
    rw [lines_onForDm (hown hmem), if_pos rfl]

/-- The tabs are in bijection with `dmTabs_`, and every message is shown, if and only
if the run closed no tab of a peer. -/
theorem dm_tabs_match {es : List WindowEvent}
    (hrun : (windowSystem qt username localIp).run (setupUi qt username localIp) es = some w) :
    (w.TabsMatch ↔ ∀ index, .closeTab index ∈ es → index ≤ 1) ∧
      ((∀ sender message, w.ShowsDm sender message) ↔
        ∀ index, .closeTab index ∈ es → index ≤ 1) := by
  have hplaced := reachable_placed hqt (Lts.Reaches.of_run hrun)
  rw [← not_dangling_iff hqt hrun]
  refine ⟨hplaced.matches_iff dmTitle_injective, ?_⟩
  simp only [showsDm_iff hqt hplaced]
  exact ⟨fun hnone ⟨u, hu⟩ => hnone u "" hu, fun hnone u _ hu => hnone ⟨u, hu⟩⟩

end

/-- The tab of bob opens; closing the system log does nothing. -/
theorem dm_tabs_match_bob : ∃ w : ChatWindow .plain,
    (windowSystem .plain "ann" "10.0.0.1").run (setupUi .plain "ann" "10.0.0.1")
      [.receive (.forDm ⟨"bob", "hi"⟩), .closeTab 1] = some w ∧
      w.TabsMatch ∧ ∀ sender message, w.ShowsDm sender message := by
  have ⟨w, hrun⟩ : ∃ w, (windowSystem .plain "ann" "10.0.0.1").run
      (setupUi .plain "ann" "10.0.0.1") [.receive (.forDm ⟨"bob", "hi"⟩), .closeTab 1] = some w :=
    ⟨_, rfl⟩
  have hmatch := dm_tabs_match Qt.plain_documented hrun
  have hkeep : ∀ index,
      .closeTab index ∈ [.receive (.forDm ⟨"bob", "hi"⟩), WindowEvent.closeTab 1] → index ≤ 1 := by
    intro index hmem
    simp at hmem
    omega
  exact ⟨w, hrun, hmatch.1.2 hkeep, hmatch.2.2 hkeep⟩

/-- The tab of bob is closed, his key stays, and his next message is not shown. -/
theorem dm_tabs_part : ¬ ∀ (es : List WindowEvent) (w : ChatWindow .plain),
    (windowSystem .plain "ann" "10.0.0.1").run (setupUi .plain "ann" "10.0.0.1") es = some w →
      w.TabsMatch ∧ ∀ sender message, w.ShowsDm sender message := by
  intro h
  have hmatches := (h [.receive (.forDm ⟨"bob", "hi"⟩), .closeTab 2] _ rfl).1
  have hpresent := hmatches.present "bob" 2 rfl
  cases hpresent

end ChatWindow

end SimpleChat
