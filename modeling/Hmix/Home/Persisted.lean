import Hmix.Home.Sizes
import Hmix.Model.Persisted

/-!
# What is read back of a setting

A setting is read by `||`: where the storage has nothing, and where it has what
JavaScript takes for false. So a value is read back exactly if it is true. Of
the sizes a page holds, and of the compiler's settings, a refused write leaves
the page with a value that is not stored. Each setting has a key of its own, and
no setter touches another's.
-/

namespace Hmix

/-! ## The storage -/

namespace UserSetting

/-- No two settings share a key. -/
theorem key_injective {a b : UserSetting} (h : a.key = b.key) : a = b := by
  cases a <;> cases b <;> first | rfl | cases h

/-- What is stored under the key is of the setting's kind. -/
def Fits (value : Json) : UserSetting → Prop
  | sidebarWidth | terminalHeight => ∃ size, value = .num size
  | rpcUrl => ∃ url, value = .str url
  | compilerSettings => ∃ settings : ICompilerSettings, value = settings.toJson

variable {storage : LocalStorage} {setting : UserSetting} {value : Json}

/-- **A value that was written is read**, if it is true. -/
theorem stored_setItem (h : setting.Fits value) :
    stored (storage.setItem setting.key (Json.stringify (some value))) setting =
      if value.truthy then value else setting.default := by
  cases setting with
  | sidebarWidth =>
    obtain ⟨size, rfl⟩ := h
    by_cases hzero : size = 0 <;>
      simp [stored, HomeComponent.storedSize, key, Json.truthy, default, hzero]
  | terminalHeight =>
    obtain ⟨size, rfl⟩ := h
    by_cases hzero : size = 0 <;>
      simp [stored, HomeComponent.storedSize, key, Json.truthy, default, hzero]
  | rpcUrl =>
    obtain ⟨url, rfl⟩ := h
    simp [stored, Hmix.rpcUrl, key, default]
  | compilerSettings =>
    obtain ⟨settings, rfl⟩ := h
    simp only [stored, key, loadSettings_setItem]
    rfl

/-- Nothing but its own key is read. -/
theorem stored_congr {storage' : LocalStorage}
    (h : StorageService.get storage' setting.key = StorageService.get storage setting.key) :
    stored storage' setting = stored storage setting := by
  cases setting <;> simp only [key] at h <;>
    simp only [stored, HomeComponent.storedSize, Hmix.rpcUrl, loadSettings, h]

theorem stored_setItem_of_ne {key : StorageKey} (text : Text) (hne : setting.key ≠ key) :
    stored (storage.setItem key text) setting = stored storage setting :=
  stored_congr (get_setItem_of_ne storage text hne)

theorem storedSize_ne_zero {key : StorageKey} {default : ℚ} (h : default ≠ 0) :
    HomeComponent.storedSize storage key default ≠ 0 := by
  unfold HomeComponent.storedSize
  split
  · split_ifs with hzero
    · exact h
    · exact hzero
  · exact h

/-- What is read of a size is of its kind, and true. -/
theorem fits_stored (storage : LocalStorage)
    (h : setting = .sidebarWidth ∨ setting = .terminalHeight) :
    setting.Fits (stored storage setting) ∧
      (stored storage setting).truthy := by
  rcases h with rfl | rfl
  · exact ⟨⟨_, rfl⟩, bne_iff_ne.2 (storedSize_ne_zero (by decide))⟩
  · exact ⟨⟨_, rfl⟩, bne_iff_ne.2 (storedSize_ne_zero (by decide))⟩

/-- **To write what is read changes no reading.** -/
theorem stored_setItem_stored (h : setting = .sidebarWidth ∨ setting = .terminalHeight)
    (other : UserSetting) : stored (storage.setItem setting.key
      (Json.stringify (some (stored storage setting)))) other = stored storage other := by
  obtain ⟨hfits, htruthy⟩ := fits_stored storage h
  by_cases heq : other = setting
  · rw [heq, stored_setItem hfits, if_pos htruthy]
  · exact stored_setItem_of_ne _ fun hkey => heq (key_injective hkey)

theorem truthy_default : setting.default.truthy := by
  cases setting <;> decide

end UserSetting

/-! ## The sizes -/

namespace HomeComponent

/-- **A size is set**: on the page, and in the storage where it is not refused. -/
structure SizeSet (setting : UserSetting) (size : ℚ) (refused : Bool) (home home' : HomeComponent) :
    Prop where
  storage : home'.storage = if refused then home.storage
    else home.storage.setItem setting.key (Json.stringify (some (.num size)))
  subscribed : home'.subscribed = home.subscribed
  sidebarWidth : home'.sidebarWidth = if setting = .sidebarWidth then size else home.sidebarWidth
  terminalHeight : home'.terminalHeight =
    if setting = .terminalHeight then size else home.terminalHeight

variable {window : WindowSize} {refuses : StorageKey → Bool} {home : HomeComponent}

theorem setSidebarWidth_spec (width : ℚ) : wp (setSidebarWidth refuses width)
    (fun _ => SizeSet .sidebarWidth width (refuses .sidebarWidth) home)
    (fun _ => SizeSet .sidebarWidth width (refuses .sidebarWidth) home) home := by
  simp only [setSidebarWidth, store, wp_bind, wp_modify, wp_ite]
  exact ⟨fun h => ⟨(if_pos h).symm, rfl, rfl, rfl⟩, fun h => ⟨(if_neg h).symm, rfl, rfl, rfl⟩⟩

theorem setTerminalHeight_spec (height : ℚ) : wp (setTerminalHeight refuses height)
    (fun _ => SizeSet .terminalHeight height (refuses .terminalHeight) home)
    (fun _ => SizeSet .terminalHeight height (refuses .terminalHeight) home) home := by
  simp only [setTerminalHeight, store, wp_bind, wp_modify, wp_ite]
  exact ⟨fun h => ⟨(if_pos h).symm, rfl, rfl, rfl⟩, fun h => ⟨(if_neg h).symm, rfl, rfl, rfl⟩⟩

theorem dragSidebar_spec (currentX : ℚ) :
    SizeSet .sidebarWidth (home.draggedWidth window currentX) (refuses .sidebarWidth) home
      (after (dragSidebar window refuses currentX) home) := by
  rw [after_dragSidebar rfl]
  exact ⟨rfl, rfl, rfl, rfl⟩

theorem dragTerminal_spec (currentY : ℚ) :
    SizeSet .terminalHeight (home.draggedHeight window currentY) (refuses .terminalHeight) home
      (after (dragTerminal window refuses currentY) home) := by
  rw [after_dragTerminal rfl]
  exact ⟨rfl, rfl, rfl, rfl⟩

/-- Where the size is what is stored, the storage reads as it did. -/
theorem SizeSet.stored_same {setting : UserSetting} {size : ℚ} {refused : Bool}
    {home' : HomeComponent} (h : SizeSet setting size refused home home')
    (hsetting : setting = .sidebarWidth ∨ setting = .terminalHeight)
    (hsize : Json.num size = UserSetting.stored home.storage setting) (other : UserSetting) :
    UserSetting.stored home'.storage other = UserSetting.stored home.storage other := by
  rw [h.storage, hsize]
  split_ifs
  · rfl
  · exact UserSetting.stored_setItem_stored hsetting other

/-- **What a load reads**: the storage reads as it did, and the sizes of a page
that is up are what it has. -/
theorem load_spec (refuses : StorageKey → Bool) (storage : LocalStorage) :
    (∀ setting, UserSetting.stored (load refuses storage).storage setting =
      UserSetting.stored storage setting) ∧
    ((load refuses storage).subscribed = true →
      Json.num (load refuses storage).sidebarWidth = UserSetting.stored storage .sidebarWidth ∧
      Json.num (load refuses storage).terminalHeight =
        UserSetting.stored storage .terminalHeight) := by
  refine (wp_iff_after (I := fun home : HomeComponent =>
    (∀ setting, UserSetting.stored home.storage setting = UserSetting.stored storage setting) ∧
    (home.subscribed = true →
      Json.num home.sidebarWidth = UserSetting.stored storage .sidebarWidth ∧
      Json.num home.terminalHeight = UserSetting.stored storage .terminalHeight))).1 ?_
  simp only [ngOnInit, wp_bind, wp_get]
  refine (setSidebarWidth_spec _).mono (fun _ home h => ?_) fun _ home h => ?_
  · have hsame := h.stored_same (.inl rfl) rfl
    rw [wp_bind, wp_get, wp_bind]
    refine (setTerminalHeight_spec _).mono (fun _ home' h' => ?_) fun _ home' h' => ?_
    · have hsame' := fun setting =>
        (h'.stored_same (.inr rfl) rfl setting).trans (hsame setting)
      refine ⟨hsame', fun _ => ⟨?_, ?_⟩⟩
      · exact congrArg Json.num (h'.sidebarWidth.trans h.sidebarWidth)
      · exact (congrArg Json.num h'.terminalHeight).trans (hsame .terminalHeight)
    · refine ⟨fun setting => (h'.stored_same (.inr rfl) rfl setting).trans (hsame setting), ?_⟩
      exact fun hup => absurd ((h'.subscribed.trans h.subscribed).symm.trans hup) Bool.false_ne_true
  · refine ⟨h.stored_same (.inl rfl) rfl, fun hup => ?_⟩
    exact absurd (h.subscribed.symm.trans hup) Bool.false_ne_true

end HomeComponent

/-! ## What an event does -/

namespace SettingsPage

variable {x x' : SettingsPage}

/-- What the page holds of a setting, if it is up. Of the URL it holds nothing. -/
def held (x : SettingsPage) : UserSetting → Option Json
  | .sidebarWidth => if x.home.subscribed then some (.num x.home.sidebarWidth) else none
  | .terminalHeight => if x.home.subscribed then some (.num x.home.terminalHeight) else none
  | .rpcUrl => none
  | .compilerSettings => some x.settings.toJson

/-- The page reads a setting as the other does. -/
def SameOf (setting : UserSetting) (x x' : SettingsPage) : Prop :=
  UserSetting.stored x'.home.storage setting = UserSetting.stored x.home.storage setting ∧
    x'.held setting = x.held setting

/-- **What a setter does**: it changes what the page holds, then what is stored,
and no other setting. -/
structure Sets (s : SetTo) (x x' : SettingsPage) : Prop where
  others : ∀ setting, setting ≠ s.setting → SameOf setting x x'
  held : s.setting ≠ .rpcUrl → x'.held s.setting = some s.value
  refused : s.refused → UserSetting.stored x'.home.storage s.setting =
    UserSetting.stored x.home.storage s.setting
  written : s.refused = false → UserSetting.stored x'.home.storage s.setting =
    if s.value.truthy then s.value else s.setting.default

/-- A setter does that, if it writes what it holds. -/
theorem Sets.of_write {s : SetTo} (hfits : s.setting.Fits s.value)
    (hstorage : x'.home.storage = if s.refused then x.home.storage
      else x.home.storage.setItem s.setting.key (Json.stringify (some s.value)))
    (hheld : s.setting ≠ .rpcUrl → x'.held s.setting = some s.value)
    (hothers : ∀ setting, setting ≠ s.setting → x'.held setting = x.held setting) :
    Sets s x x' where
  others setting hne := by
    refine ⟨?_, hothers setting hne⟩
    rw [hstorage]
    split_ifs
    · rfl
    · exact UserSetting.stored_setItem_of_ne _ fun h => hne (UserSetting.key_injective h)
  held := hheld
  refused h := by rw [hstorage, if_pos h]
  written h := by
    rw [hstorage, if_neg (by simp [h])]
    exact UserSetting.stored_setItem hfits

/-- A size that is set is a setting that is. -/
theorem Sets.of_sizeSet {setting : UserSetting} {size : ℚ} {refused : Bool}
    (h : HomeComponent.SizeSet setting size refused x.home x'.home)
    (hsetting : setting = .sidebarWidth ∨ setting = .terminalHeight)
    (hup : x.home.subscribed = true) (hsettings : x'.settings = x.settings) :
    Sets ⟨setting, .num size, refused⟩ x x' := by
  have hup' := h.subscribed.trans hup
  have hwidth : ∀ y : SettingsPage, y.home.subscribed = true →
      y.held .sidebarWidth = some (.num y.home.sidebarWidth) := fun _ hy => if_pos hy
  have hheight : ∀ y : SettingsPage, y.home.subscribed = true →
      y.held .terminalHeight = some (.num y.home.terminalHeight) := fun _ hy => if_pos hy
  have hothers : x'.held .compilerSettings = x.held .compilerSettings :=
    congrArg (fun settings : ICompilerSettings => some settings.toJson) hsettings
  rcases hsetting with rfl | rfl
  · refine .of_write ⟨size, rfl⟩ h.storage (fun _ => ?_) fun other hne => ?_
    · exact (hwidth x' hup').trans (congrArg _ (congrArg _ h.sidebarWidth))
    · cases other with
      | sidebarWidth => exact absurd rfl hne
      | terminalHeight => rw [hheight x' hup', hheight x hup, h.terminalHeight, if_neg nofun]
      | rpcUrl => rfl
      | compilerSettings => exact hothers
  · refine .of_write ⟨size, rfl⟩ h.storage (fun _ => ?_) fun other hne => ?_
    · exact (hheight x' hup').trans (congrArg _ (congrArg _ h.terminalHeight))
    · cases other with
      | sidebarWidth => rw [hwidth x' hup', hwidth x hup, h.sidebarWidth, if_neg nofun]
      | terminalHeight => exact absurd rfl hne
      | rpcUrl => rfl
      | compilerSettings => exact hothers

/-- What an event does that is not a reload: the setter it calls, or nothing. -/
def Effect (x x' : SettingsPage) : Option SetTo → Prop
  | some s => Sets s x x'
  | none => ∀ setting, SameOf setting x x'

variable {e : SettingsEvent}

/-- What no setting is read of may be any other. -/
theorem sameOf_home {home : HomeComponent} (hstorage : home.storage = x.home.storage)
    (hsubscribed : home.subscribed = x.home.subscribed)
    (hwidth : home.sidebarWidth = x.home.sidebarWidth)
    (hheight : home.terminalHeight = x.home.terminalHeight) (last : UserSetting → Option Json)
    (setting : UserSetting) : SameOf setting x { x with home := home, last := last } := by
  refine ⟨congrArg (UserSetting.stored · setting) hstorage, ?_⟩
  cases setting <;> simp only [held, hsubscribed, hwidth, hheight]

/-- The compiler's settings are set. -/
theorem sets_setSettings (settings : ICompilerSettings) (refused : Bool)
    (last : UserSetting → Option Json) : Sets ⟨.compilerSettings, settings.toJson, refused⟩ x
      { x.setSettings settings refused with last := last } := by
  refine .of_write ⟨settings, rfl⟩ (x.home.storage_write _ _ _) (fun _ => rfl) fun other hne => ?_
  cases other with
  | sidebarWidth => simp [held, setSettings]
  | terminalHeight => simp [held, setSettings]
  | rpcUrl => rfl
  | compilerSettings => exact absurd rfl hne

/-- The URL is set. -/
theorem sets_setRpcUrl (url : String) (refused : Bool) (last : UserSetting → Option Json) :
    Sets ⟨.rpcUrl, .str url, refused⟩ x { x.setRpcUrl url refused with last := last } := by
  refine .of_write ⟨url, rfl⟩ (x.home.storage_write _ _ _) (fun h => absurd rfl h) fun other _ => ?_
  cases other with
  | sidebarWidth => simp [held, setRpcUrl]
  | terminalHeight => simp [held, setRpcUrl]
  | rpcUrl => rfl
  | compilerSettings => rfl

/-- The file service writes under a key of its own. -/
theorem sameOf_write {key : StorageKey} (hkey : key = .files ∨ key = .selectedFile) (text : Text)
    (last : UserSetting → Option Json) (setting : UserSetting) :
    SameOf setting x { x with home := x.home.write false key text, last := last } := by
  refine ⟨?_, ?_⟩
  · refine (congrArg (UserSetting.stored · setting) (x.home.storage_write _ _ _)).trans ?_
    refine UserSetting.stored_setItem_of_ne text ?_
    rcases hkey with rfl | rfl <;> cases setting <;> decide
  · cases setting <;> simp [held]

/-- A program that leaves the component as it is changes no setting. -/
theorem sameOf_after {m : HomeComponent.Handler PUnit}
    (hm : wp m (fun _ home => home = x.home) (fun _ home => home = x.home) x.home)
    (setting : UserSetting) :
    SameOf setting x { x with home := after m x.home, last := x.last } := by
  rw [(wp_iff_after (I := fun home => home = x.home)).1 hm]
  exact sameOf_home rfl rfl rfl rfl x.last setting

/-- **A move of the mouse** sets the size that is dragged, if any is. -/
theorem effect_mouseMove {window : WindowSize} {clientX clientY : ℚ} {refuses : StorageKey → Bool}
    (hup : x.home.subscribed = true) :
    Effect x (settingsDesk.step x (.home window (.mouseMove clientX clientY refuses)))
      (x.home.sets window (.mouseMove clientX clientY refuses)) := by
  by_cases hside : x.home.resizingSidebar
  · rw [HomeComponent.sets, if_pos hside]
    refine Sets.of_sizeSet (wp_iff_after.1 ?_) (.inl rfl) hup rfl
    simp only [HomeComponent.onMouseMove, wp_bind, wp_get, if_pos hside]
    exact wp_iff_after.2 (HomeComponent.dragSidebar_spec _)
  by_cases hterminal : x.home.resizingTerminal
  · rw [HomeComponent.sets, if_neg hside, if_pos hterminal]
    refine Sets.of_sizeSet (wp_iff_after.1 ?_) (.inr rfl) hup rfl
    simp only [HomeComponent.onMouseMove, wp_bind, wp_get, if_neg hside, if_pos hterminal]
    exact wp_iff_after.2 (HomeComponent.dragTerminal_spec _)
  · rw [HomeComponent.sets, if_neg hside, if_neg hterminal]
    refine sameOf_after ?_
    simp only [HomeComponent.onMouseMove, wp_bind, wp_get, if_neg hside, if_neg hterminal]
    rfl

/-- **What an event of the home component does.** -/
theorem effect_home {window : WindowSize} {e : HomeEvent} (hup : x.home.subscribed = true)
    (hreload : ∀ refuses, e ≠ .reload refuses) :
    Effect x (settingsDesk.step x (.home window e)) (x.home.sets window e) := by
  cases e with
  | resizeSidebar clientX => exact sameOf_home rfl rfl rfl rfl x.last
  | resizeTerminal clientY => exact sameOf_home rfl rfl rfl rfl x.last
  | mouseUp => exact sameOf_home rfl rfl rfl rfl x.last
  | mouseMove clientX clientY refuses => exact effect_mouseMove hup
  | activeTabChange refuses =>
    by_cases hnarrow : x.home.sidebarWidth < minSidebarWidth
    · rw [HomeComponent.sets, if_pos hnarrow]
      refine Sets.of_sizeSet (wp_iff_after.1 ?_) (.inl rfl) hup rfl
      simp only [HomeComponent.onActiveTabChange, wp_bind, wp_get, if_pos hnarrow]
      exact HomeComponent.setSidebarWidth_spec _
    · rw [HomeComponent.sets, if_neg hnarrow]
      refine sameOf_after ?_
      simp only [HomeComponent.onActiveTabChange, wp_bind, wp_get, if_neg hnarrow]
      rfl
  | terminalOpenRequest refuses =>
    by_cases hlow : x.home.terminalHeight < minTerminalHeight
    · rw [HomeComponent.sets, if_pos hlow]
      refine Sets.of_sizeSet (wp_iff_after.1 ?_) (.inr rfl) hup rfl
      simp only [HomeComponent.onTerminalOpenRequest, wp_bind, wp_get, if_pos hlow]
      exact HomeComponent.setTerminalHeight_spec _
    · rw [HomeComponent.sets, if_neg hlow]
      refine sameOf_after ?_
      simp only [HomeComponent.onTerminalOpenRequest, wp_bind, wp_get, if_neg hlow]
      rfl
  | reload refuses => exact absurd rfl (hreload refuses)

/-- **What an event does.** -/
theorem effect_step (he : settingsDesk.enabled x e) (hreload : ∀ window refuses,
    e ≠ .home window (.reload refuses)) : Effect x (settingsDesk.step x e) (x.sets e) := by
  cases e with
  | home window e =>
    refine effect_home ?_ fun refuses he => hreload window refuses (congrArg _ he)
    cases e with
    | reload refuses => exact absurd rfl (hreload window refuses)
    | _ => exact he
  | setRpcUrl url refused => exact sets_setRpcUrl url refused _
  | setUseWebWorker useWebWorker refused => exact sets_setSettings _ refused _
  | setAutoCompile autoCompile refused => exact sets_setSettings _ refused _
  | setOptimize optimize refused => exact sets_setSettings _ refused _
  | write key text => exact sameOf_write he text _

/-! ## Reading back -/

/-- **Each setting is read back**: what was set last is what the page holds, and
what is stored reads so. -/
def ReadsBack (x : SettingsPage) : Prop := ∀ setting, ∀ value ∈ x.last setting,
  UserSetting.stored x.home.storage setting = value ∧ ∀ held ∈ x.held setting, held = value

/-- **A setter that does no harm** where each setting is read back: what it sets
is true, and stored; or its write is refused, and was of what was set last. -/
def Harmless (x : SettingsPage) (s : SetTo) : Prop :=
  (s.refused = false → s.value.truthy) ∧
    (s.refused → s.setting ≠ .rpcUrl → ∀ value ∈ x.last s.setting, s.value = value)

/-- A step that calls no setter, or one that does no harm. -/
def Careful (x : SettingsPage) (e : SettingsEvent) : Prop := ∀ s ∈ x.sets e, Harmless x s

/-- What was not set is read back as before. -/
theorem Sets.others_back {s : SetTo} (hsets : Sets s x x') (h : x.ReadsBack) {setting : UserSetting}
    (hne : setting ≠ s.setting) {value : Json} (hvalue : value ∈ x.last setting) :
    UserSetting.stored x'.home.storage setting = value ∧
      ∀ held ∈ x'.held setting, held = value := by
  obtain ⟨hstored, hheld⟩ := hsets.others setting hne
  rw [hstored, hheld]
  exact h setting value hvalue

/-- What is held is what was set, and nothing of the URL. -/
theorem Sets.eq_of_held {s : SetTo} (hsets : Sets s x x') {held : Json}
    (hheld : held ∈ x'.held s.setting) : s.setting ≠ .rpcUrl ∧ held = s.value := by
  have hne : s.setting ≠ .rpcUrl := fun hurl => by
    rw [hurl] at hheld
    cases hheld
  exact ⟨hne, Option.some.inj (hheld.symm.trans (hsets.held hne))⟩

/-- **A write that is not refused** is read back if it was of a true value. -/
theorem Sets.readsBack_written {s : SetTo} (hsets : Sets s x x') (h : x.ReadsBack)
    (hwritten : s.refused = false)
    (hlast : x'.last = Function.update x.last s.setting (some s.value)) :
    x'.ReadsBack ↔ s.value.truthy := by
  have hself : x'.last s.setting = some s.value := by
    rw [hlast]
    exact Function.update_self ..
  constructor
  · intro hback
    have hread := (hback s.setting s.value hself).1
    rw [hsets.written hwritten] at hread
    by_contra hfalse
    rw [if_neg hfalse] at hread
    exact hfalse (hread ▸ UserSetting.truthy_default)
  · intro htruthy setting value hvalue
    by_cases hne : setting = s.setting
    · subst hne
      obtain rfl : s.value = value := Option.some.inj (hself.symm.trans hvalue)
      exact ⟨(hsets.written hwritten).trans (if_pos htruthy), fun held hheld =>
        (hsets.eq_of_held hheld).2⟩
    · rw [hlast, Function.update_of_ne hne] at hvalue
      exact hsets.others_back h hne hvalue

/-- **A write that is refused** leaves what was stored, and the page with what was
to be. -/
theorem Sets.readsBack_refused {s : SetTo} (hsets : Sets s x x') (h : x.ReadsBack)
    (hrefused : s.refused) (hlast : x'.last = x.last) :
    x'.ReadsBack ↔ (s.setting ≠ .rpcUrl → ∀ value ∈ x.last s.setting, s.value = value) := by
  constructor
  · intro hback hne value hvalue
    exact (hback s.setting value (hlast ▸ hvalue)).2 s.value (hsets.held hne)
  · intro hsame setting value hvalue
    rw [hlast] at hvalue
    by_cases hne : setting = s.setting
    · subst hne
      refine ⟨(hsets.refused hrefused).trans (h s.setting value hvalue).1, fun held hheld => ?_⟩
      obtain ⟨hurl, rfl⟩ := hsets.eq_of_held hheld
      exact hsame hurl value hvalue
    · exact hsets.others_back h hne hvalue

/-- **One setter** from where each setting is read back. -/
theorem Sets.readsBack_iff {s : SetTo} (hsets : Sets s x x') (h : x.ReadsBack)
    (hlast : x'.last = noted x.last (some s)) : x'.ReadsBack ↔ Harmless x s := by
  obtain ⟨setting, value, refused⟩ := s
  cases refused with
  | false =>
    exact (hsets.readsBack_written h rfl hlast).trans
      ⟨fun htruthy => ⟨fun _ => htruthy, nofun⟩, fun hharmless => hharmless.1 rfl⟩
  | true =>
    exact (hsets.readsBack_refused h rfl hlast).trans
      ⟨fun hsame => ⟨nofun, fun _ => hsame⟩, fun hharmless => hharmless.2 rfl⟩

/-- A reload reads what is stored. -/
theorem ReadsBack.reload (h : x.ReadsBack) (window : WindowSize) (refuses : StorageKey → Bool) :
    (settingsDesk.step x (.home window (.reload refuses))).ReadsBack := by
  obtain ⟨hstored, hup⟩ := HomeComponent.load_spec refuses x.home.storage
  intro setting value hvalue
  have hread := (h setting value hvalue).1
  refine ⟨(hstored setting).trans hread, fun held hmem => ?_⟩
  rw [← hread]
  cases setting with
  | sidebarWidth =>
    obtain ⟨hsubscribed, heq⟩ := Option.mem_ite_none_right.1 hmem
    exact (Option.some.inj heq).symm.trans (hup hsubscribed).1
  | terminalHeight =>
    obtain ⟨hsubscribed, heq⟩ := Option.mem_ite_none_right.1 hmem
    exact (Option.some.inj heq).symm.trans (hup hsubscribed).2
  | rpcUrl => cases hmem
  | compilerSettings => exact (Option.some.inj hmem).symm

/-- **One step** from where each setting is read back. -/
theorem ReadsBack.step_iff (h : x.ReadsBack) (he : settingsDesk.enabled x e) :
    (settingsDesk.step x e).ReadsBack ↔ Careful x e := by
  by_cases hreload : ∃ window refuses, e = .home window (.reload refuses)
  · obtain ⟨window, refuses, rfl⟩ := hreload
    exact iff_of_true (h.reload window refuses) nofun
  have heffect := effect_step he fun window refuses heq => hreload ⟨window, refuses, heq⟩
  unfold Careful
  have hlast : (settingsDesk.step x e).last = noted x.last (x.sets e) := rfl
  cases hs : x.sets e with
  | none =>
    rw [hs] at heffect hlast
    refine iff_of_true (fun setting value hvalue => ?_) nofun
    obtain ⟨hstored, hheld⟩ := heffect setting
    rw [hlast] at hvalue
    rw [hstored, hheld]
    exact h setting value hvalue
  | some s =>
    rw [hs] at heffect hlast
    refine (heffect.readsBack_iff h hlast).trans ⟨?_, fun hall => hall s rfl⟩
    rintro hharmless _ ⟨⟩
    exact hharmless

/-! ## Every run -/

/-- **When settings are read back.** In every run each setting is read back in
every state exactly when no step sets a value that is taken for false, or has a
write refused of another value than the last; and whatever is set, no other
setting is touched. -/
theorem settings_read_back_iff {x₀ : SettingsPage} (h : settingsDesk.start x₀)
    {es : List SettingsEvent} (ha : settingsDesk.Admits x₀ es) :
    (settingsDesk.Each (fun x e => (settingsDesk.step x e).ReadsBack) x₀ es ↔
      settingsDesk.Each Careful x₀ es) ∧
    let x := settingsDesk.run x₀ es
    ∀ e, settingsDesk.enabled x e → ∀ s ∈ x.sets e, ∀ setting, setting ≠ s.setting →
      SameOf setting x (settingsDesk.step x e) := by
  obtain ⟨storage, refuses, -, rfl⟩ := h
  refine ⟨ha.each_iff (I := ReadsBack) (fun _ _ => nofun) fun x e => ReadsBack.step_iff, ?_⟩
  intro x e he s hs setting hne
  by_cases hreload : ∃ window refuses, e = .home window (.reload refuses)
  · obtain ⟨window, refuses, rfl⟩ := hreload
    cases hs
  have heffect := effect_step he fun window refuses heq => hreload ⟨window, refuses, heq⟩
  rw [Option.mem_def.1 hs] at heffect
  exact heffect.others setting hne

/-- The first page, in a window of the usual size. -/
def firstPage : SettingsPage :=
  ⟨.load (fun _ => false) .empty, loadSettings .empty, fun _ => none⟩

theorem start_firstPage : settingsDesk.start firstPage :=
  ⟨.empty, fun _ => false, fun _ => rfl, rfl⟩

/-- The URL is set, and the page reloaded. -/
def setUrlAndReload : List SettingsEvent :=
  [.setRpcUrl "http://localhost:4889" false, .home ⟨1024, 768⟩ (.reload fun _ => false)]

theorem set_url_stays :
    UserSetting.stored (settingsDesk.run firstPage setUrlAndReload).home.storage .rpcUrl =
      .str "http://localhost:4889" := by
  have hcareful : settingsDesk.Each Careful firstPage setUrlAndReload := by
    refine ⟨?_, nofun, trivial⟩
    rintro s ⟨⟩
    exact ⟨fun _ => rfl, nofun⟩
  have hback := (@settings_read_back_iff firstPage start_firstPage setUrlAndReload
    ⟨trivial, trivial, trivial⟩).1.2 hcareful
  exact (hback.2.1 .rpcUrl (.str "http://localhost:4889") rfl).1

/-- The sidebar is closed, and the page reloaded. -/
def collapseAndReload : List SettingsEvent :=
  [.home ⟨1024, 768⟩ (.resizeSidebar 250),
    .home ⟨1024, 768⟩ (.mouseMove 100 0 fun _ => false),
    .home ⟨1024, 768⟩ .mouseUp, .home ⟨1024, 768⟩ (.reload fun _ => false)]

/-- **A sidebar that was closed is open after a reload.** -/
theorem collapsed_sidebar_reopens : ¬ ∀ x₀ es, settingsDesk.start x₀ → settingsDesk.Admits x₀ es →
    settingsDesk.Each (fun x e => (settingsDesk.step x e).ReadsBack) x₀ es := by
  intro h
  have hback := (h firstPage collapseAndReload start_firstPage
    ⟨rfl, rfl, rfl, trivial, trivial⟩).2.2.2.1
  have hread := (hback .sidebarWidth (.num 0) rfl).2 (.num 200) rfl
  exact absurd (Json.num.inj hread) (by decide)

end SettingsPage

end Hmix
