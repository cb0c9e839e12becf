import Hmix.Compiler.Replies
import Hmix.Model.Loader

/-!
# Whether the compiler that is meant is loaded

Loads come one after the other, so a worker's word that it has loaded is the
current worker's, and when a load resolves the compiler it was about is the
one the next call uses. The exception is a load that finds the setting on
and no workers: it switches the setting off and resolves, with nothing
loaded for direct mode.
-/

namespace Hmix

open CompilerService

/-! ## The load messages of a worker -/

/-- The message is about a load. -/
def Request.isLoad : Request → Bool
  | .loadVersion => true
  | .compileRequest _ _ => false

/-- The message is about a load. -/
def Response.isLoad : Response → Bool
  | .versionLoaded _ => true
  | .compileResult _ _ _ => false

namespace Worker

variable {w w' : Worker}

/-- How many messages about a load are under way. -/
def loads (w : Worker) : ℕ := w.inbox.countP Request.isLoad + w.outbox.countP Response.isLoad

/-- **A worker is asked to load once**, and says so only if it has a script. -/
structure Orderly (w : Worker) : Prop where
  sound : w.Sound
  once : w.loads ≤ 1
  fetched : ∀ r ∈ w.outbox, r.isLoad = true → w.script.isSome = true

theorem orderly_new (script : Option Compiler) : (Worker.new script).Orderly where
  sound := sound_new script
  once := le_rfl
  fetched := fun _ h => absurd h List.not_mem_nil

/-- **The worker went on**, and no load message was added. -/
structure Onward (w w' : Worker) : Prop where
  orderly : w.Orderly → w'.Orderly
  loads : w'.loads ≤ w.loads
  script : w'.script = w.script

theorem Onward.refl (w : Worker) : Onward w w := ⟨id, le_rfl, rfl⟩

theorem onward_post (w : Worker) (input : CompilerInput) (ticket : Ticket) :
    Onward w (w.post (.compileRequest input ticket)) := by
  have hloads : (w.post (.compileRequest input ticket)).loads = w.loads := by
    simp [loads, Worker.post, Request.isLoad]
  exact ⟨fun h => ⟨h.sound.post, hloads ▸ h.once, h.fetched⟩, hloads.le, rfl⟩

/-- **What comes of a worker's next message.** -/
inductive Works (w : Worker) : Worker → Prop
  | rests : Works w w
  | fetches {compiler : Compiler} {inbox : List Request} (message : w.inbox = .loadVersion :: inbox)
    (script : w.script = some compiler) : Works w { w with
      compile := compiler.compile, inbox := inbox
      outbox := w.outbox ++ [.versionLoaded compiler.version] }
  | takes {r : Request} {inbox : List Request} (message : w.inbox = r :: inbox) :
    Works w { w with inbox := inbox }
  | answers {input : CompilerInput} {ticket : Ticket} {inbox : List Request} {reply : Reply}
    (message : w.inbox = .compileRequest input ticket :: inbox) : Works w { w with
      inbox := inbox, outbox := w.outbox ++ [.compileResult reply input ticket] }

theorem works_work (w : Worker) : Works w w.work := by
  unfold Worker.work
  split
  · exact .rests
  · next inbox hinbox =>
    split
    · next hscript => exact .fetches hinbox hscript
    · exact .takes hinbox
  · next inbox hinbox =>
    split
    · exact .answers hinbox
    · exact .takes hinbox

/-- A message is handled. -/
theorem onward_work (w : Worker) : Onward w w.work := by
  have hsound : w.Sound → w.work.Sound := Sound.work
  have hworks := works_work w
  generalize w.work = w' at hsound hworks ⊢
  cases hworks with
  | rests => exact .refl w
  | @fetches compiler inbox hinbox hscript =>
    have hloads : ({ w with
        compile := compiler.compile, inbox := inbox
        outbox := w.outbox ++ [.versionLoaded compiler.version] } : Worker).loads = w.loads := by
      simp only [Worker.loads, hinbox, List.countP_append, List.countP_cons, Request.isLoad,
        Response.isLoad, List.countP_nil, if_true]
      omega
    refine ⟨fun h => ⟨hsound h.sound, hloads ▸ h.once, fun _ _ _ => ?_⟩, hloads.le, rfl⟩
    exact Option.isSome_iff_exists.2 ⟨compiler, hscript⟩
  | @takes r inbox hinbox =>
    have hloads : ({ w with inbox := inbox } : Worker).loads ≤ w.loads := by
      simp only [Worker.loads, hinbox, List.countP_cons]
      omega
    exact ⟨fun h => ⟨hsound h.sound, hloads.trans h.once, h.fetched⟩, hloads, rfl⟩
  | @answers input ticket inbox reply hinbox =>
    have hloads : ({ w with
        inbox := inbox, outbox := w.outbox ++ [.compileResult reply input ticket] } :
          Worker).loads = w.loads := by
      simp [Worker.loads, hinbox, Request.isLoad, Response.isLoad]
    refine ⟨fun h => ⟨hsound h.sound, hloads ▸ h.once, fun r hr hload => ?_⟩, hloads.le, rfl⟩
    rcases List.mem_append.1 hr with hr | hr
    · exact h.fetched r hr hload
    · obtain rfl := List.mem_singleton.1 hr
      cases hload

/-- A message is taken off. -/
theorem onward_pop {r : Response} {outbox : List Response} (h : w.outbox = r :: outbox) :
    Onward w { w with outbox := outbox } := by
  have hloads : ({ w with outbox := outbox } : Worker).loads ≤ w.loads := by
    simp only [loads, h, List.countP_cons]
    omega
  refine ⟨fun ho => ⟨ho.sound.pop h, hloads.trans ho.once, fun r' hr' => ?_⟩, hloads, rfl⟩
  exact ho.fetched r' (h ▸ List.mem_cons_of_mem _ hr')

/-- With its word that it has loaded, the load is over. -/
theorem Orderly.loads_pop {version : String} {outbox : List Response} (ho : w.Orderly)
    (h : w.outbox = .versionLoaded version :: outbox) :
    ({ w with outbox := outbox } : Worker).loads = 0 := by
  have := ho.once
  simp only [loads, h, List.countP_cons, Response.isLoad, if_true] at this ⊢
  omega

/-- **A worker whose load is over has its script's compiler**, if it has a
script. -/
theorem Orderly.compile_eq {compiler : Compiler} (ho : w.Orderly) (hloads : w.loads = 0)
    (hscript : w.script = some compiler) : w.compile = compiler.compile := by
  rcases ho.sound.loads with ⟨-, inbox, hinbox, -⟩ | ⟨-, hcompile⟩
  · simp only [loads, hinbox, List.countP_cons, Request.isLoad, if_true] at hloads
    omega
  · rw [hcompile, effective, hscript]

end Worker

/-! ## What does not load -/

/-- What of a service loads are about, besides its workers. -/
def CompilerService.modes (s : CompilerService) :=
  (s.hasWorker, s.useWebWorker, s.webWorker, s.syncCompiler, s.polling, s.loading, s.loaded)

/-- **Nothing of a load came to be.** -/
structure Apart (s s' : CompilerService) : Prop where
  modes : s'.modes = s.modes
  length : s'.workers.length = s.workers.length
  workers : ∀ (i : ℕ) (w' : Worker), s'.workers[i]? = some w' →
    ∃ w, s.workers[i]? = some w ∧ w.Onward w'

namespace Apart

variable {s s' : CompilerService} {i : ℕ}

theorem of_eq (hmodes : s'.modes = s.modes) (h : s'.workers = s.workers) : Apart s s' :=
  ⟨hmodes, by rw [h], fun i w' hw' => ⟨w', by rw [← h]; exact hw', .refl w'⟩⟩

/-- One worker went on. -/
theorem of_modify {g : Worker → Worker} (hg : ∀ w, Worker.Onward w (g w))
    (hmodes : s'.modes = s.modes) (h : s'.workers = s.workers.modify i g) : Apart s s' := by
  refine ⟨hmodes, by simp [h], fun j w' hw' => ?_⟩
  rw [h] at hw'
  obtain ⟨w, hw, ⟨-, rfl⟩ | ⟨-, rfl⟩⟩ := of_getElem?_modify hw'
  · exact ⟨w, hw, hg w⟩
  · exact ⟨_, hw, .refl _⟩

theorem of_begins {ticket : Ticket} {input : CompilerInput} (h : Begins s ticket input s') :
    Apart s s' := by
  cases h with
  | lost => exact .of_eq rfl rfl
  | posted => exact .of_modify (fun w => Worker.onward_post w input ticket) rfl rfl
  | answered => exact .of_eq rfl rfl

end Apart

theorem apart_startRound (s : CompilerService) (ticket : Ticket) (sources : Sources) :
    Apart s (s.startRound ticket sources) :=
  .of_begins (begins_startRound s ticket sources)

theorem apart_compile (s : CompilerService) (sources : Sources) : Apart s (s.compile sources) := by
  have h := apart_startRound { s with calls := s.calls + 1 } ⟨s.calls, true⟩ sources
  exact ⟨h.modes, h.length, h.workers⟩

theorem apart_work (s : CompilerService) (i : ℕ) : Apart s (s.work i) :=
  .of_modify Worker.onward_work rfl rfl

theorem apart_microtask (s : CompilerService) (library : Library) :
    Apart s (s.microtask library) := by
  have hgoesOn := goesOn_microtask s library
  generalize s.microtask library = s' at hgoesOn ⊢
  cases hgoesOn with
  | rests => exact .of_eq rfl rfl
  | @retries p answer rest =>
    have h := apart_startRound { s with resolved := popped answer rest }
    exact ⟨(h _ _).modes, (h _ _).length, (h _ _).workers⟩
  | reports =>
    unfold CompilerService.report
    split <;> exact .of_eq rfl rfl

/-- A worker's message is apart from loads, or its word that it has loaded. -/
theorem apart_deliver (s : CompilerService) (i : ℕ) : Apart s (s.deliver i) ∨
    ∃ (w : Worker) (version : String) (outbox : List Response), s.workers[i]? = some w ∧
      w.outbox = .versionLoaded version :: outbox ∧ s.deliver i = { s with
        workers := s.workers.set i { w with outbox := outbox }
        compilerVersion := if s.loading = 0 then s.compilerVersion else some version
        loading := 0
        loaded := s.loaded + s.loading } := by
  have hdelivers := delivers_deliver s i
  generalize s.deliver i = s' at hdelivers ⊢
  cases hdelivers with
  | nothing => exact .inl (.of_eq rfl rfl)
  | loaded hw houtbox => exact .inr ⟨_, _, _, hw, houtbox, rfl⟩
  | @replied w reply input ticket outbox hw houtbox =>
    refine .inl ⟨rfl, by simp [complete], fun j w' hw' => ?_⟩
    change (s.workers.set i { w with outbox := outbox })[j]? = some w' at hw'
    rcases of_getElem?_set hw' with ⟨rfl, rfl⟩ | ⟨-, hw'⟩
    · exact ⟨w, hw, Worker.onward_pop houtbox⟩
    · exact ⟨w', hw', .refl w'⟩

/-! ## The invariant -/

namespace Loader

variable {x : Loader}

/-- **Loads come one after the other.** A worker whose load is under way is the
current one, and so is the one whose load has resolved. In direct mode a load
that resolved has a compiler, unless it fell back. -/
structure InTurn (x : Loader) : Prop where
  orderly : ∀ (i : ℕ) (w : Worker), x.service.workers[i]? = some w → w.Orderly
  last : ∀ i, x.service.webWorker = some i → i + 1 = x.service.workers.length
  current : x.service.useWebWorker = true → x.called = true → x.service.webWorker ≠ none
  finished : ∀ (i : ℕ) (w : Worker), x.service.workers[i]? = some w →
    x.service.webWorker ≠ some i ∨ x.loadingCompiler = false → w.loads = 0
  fetched : ∀ (i : ℕ) (w : Worker), x.service.workers[i]? = some w →
    x.service.webWorker = some i → x.loadingCompiler = false → w.script ≠ none
  waits : x.service.useWebWorker = true → x.loadingCompiler = true → x.service.loading ≠ 0
  noWorkers : x.service.useWebWorker = false ∨ x.service.hasWorker = false →
    x.service.workers = []
  worker : x.service.useWebWorker = true →
    x.service.polling = 0 ∧ x.service.syncCompiler = none ∧ x.fellBack = false
  fellBack : x.fellBack = true → x.service.polling = 0 ∧ x.service.syncCompiler = none
  direct : x.service.useWebWorker = false → x.called = true → x.loadingCompiler = false →
    x.fellBack = false → x.service.syncCompiler ≠ none

theorem inTurn_new (hasWorker : Bool) (storage : LocalStorage) :
    (Loader.new hasWorker storage).InTurn where
  orderly := fun _ _ hw => by cases hw
  last := nofun
  current := fun _ hcalled => absurd hcalled Bool.false_ne_true
  finished := fun _ _ hw => by cases hw
  fetched := fun _ _ hw => by cases hw
  waits := fun _ hloading => absurd hloading Bool.false_ne_true
  noWorkers := fun _ => rfl
  worker := fun _ => ⟨rfl, rfl, rfl⟩
  fellBack := fun hfell => absurd hfell Bool.false_ne_true
  direct := fun _ hcalled => absurd hcalled Bool.false_ne_true

/-- What is apart from loads keeps them in turn. -/
theorem InTurn.apart {x' : Loader} (h : x.InTurn) (hs : Apart x.service x'.service)
    (hrest : (x'.called, x'.loadingCompiler, x'.fellBack) =
      (x.called, x.loadingCompiler, x.fellBack)) : x'.InTurn := by
  obtain ⟨hcalled, hloading, hfell⟩ : _ ∧ _ ∧ _ := by simpa using hrest
  obtain ⟨hhas, huse, hcurrent, hsync, hpolling, hload, -⟩ : _ ∧ _ ∧ _ ∧ _ ∧ _ ∧ _ ∧ _ := by
    simpa [CompilerService.modes] using hs.modes
  refine ⟨fun i w' hw' => ?_, ?_, ?_, fun i w' hw' hover => ?_, fun i w' hw' hi hdone => ?_, ?_,
    ?_, ?_, ?_, ?_⟩
  · obtain ⟨w, hw, hon⟩ := hs.workers i w' hw'
    exact hon.orderly (h.orderly i w hw)
  · rw [hcurrent, hs.length]
    exact h.last
  · rw [huse, hcalled, hcurrent]
    exact h.current
  · obtain ⟨w, hw, hon⟩ := hs.workers i w' hw'
    rw [hcurrent, hloading] at hover
    exact Nat.le_zero.1 (h.finished i w hw hover ▸ hon.loads)
  · obtain ⟨w, hw, hon⟩ := hs.workers i w' hw'
    rw [hcurrent] at hi
    rw [hloading] at hdone
    rw [hon.script]
    exact h.fetched i w hw hi hdone
  · rw [huse, hloading, hload]
    exact h.waits
  · rw [huse, hhas]
    intro hno
    exact List.length_eq_zero_iff.1 (hs.length.trans (by rw [h.noWorkers hno]; rfl))
  · rw [huse, hpolling, hsync, hfell]
    exact h.worker
  · rw [hfell, hpolling, hsync]
    exact h.fellBack
  · rw [huse, hcalled, hloading, hfell, hsync]
    exact h.direct

/-- **A worker says that it has loaded**: it is the current one, and the load is
the one that waits. -/
theorem InTurn.loaded {i : ℕ} {w : Worker} {version : String} {outbox : List Response}
    (h : x.InTurn) (hw : x.service.workers[i]? = some w)
    (hmessage : w.outbox = .versionLoaded version :: outbox) :
    x.service.webWorker = some i ∧ x.loadingCompiler = true ∧ x.service.useWebWorker = true ∧
      w.script ≠ none := by
  have hload : w.loads ≠ 0 := by
    simp only [Worker.loads, hmessage, List.countP_cons, Response.isLoad, if_true]
    omega
  obtain ⟨hi, hloading⟩ := not_or.1 (mt (h.finished i w hw) hload)
  have hmode : x.service.useWebWorker = true := by
    by_contra hmode
    rw [h.noWorkers (.inl (by simpa using hmode))] at hw
    cases hw
  refine ⟨not_not.1 hi, by simpa using hloading, hmode, ?_⟩
  have hfetched := (h.orderly i w hw).fetched _ (hmessage ▸ List.mem_cons_self) rfl
  exact Option.isSome_iff_ne_none.1 hfetched

theorem inTurn_deliver {i : ℕ} {w : Worker} {version : String} {outbox : List Response}
    {compilerVersion : Option String} (h : x.InTurn) (hw : x.service.workers[i]? = some w)
    (hmessage : w.outbox = .versionLoaded version :: outbox) : InTurn { x with
      service := { x.service with
        workers := x.service.workers.set i { w with outbox := outbox }
        compilerVersion := compilerVersion
        loading := 0
        loaded := x.service.loaded + x.service.loading }
      loadingCompiler := false } := by
  obtain ⟨hcurrent, -, hmode, hscript⟩ := h.loaded hw hmessage
  have ho := h.orderly i w hw
  have hpop : ∀ (j : ℕ) (w' : Worker), (x.service.workers.set i { w with outbox := outbox })[j]? =
      some w' → (j = i ∧ w' = { w with outbox := outbox }) ∨
        (j ≠ i ∧ x.service.workers[j]? = some w') := fun _ _ => of_getElem?_set
  have hnone : x.service.workers.set i { w with outbox := outbox } = [] →
      x.service.workers = [] := fun hnil => by simpa using hnil
  refine ⟨fun j w' hw' => ?_, fun j hj => ?_, h.current, fun j w' hw' _ => ?_,
    fun j w' hw' hj _ => ?_, fun _ hloading => absurd hloading Bool.false_ne_true, fun hno => ?_,
    h.worker, h.fellBack, fun hdirect => ?_⟩
  · rcases hpop j w' hw' with ⟨rfl, rfl⟩ | ⟨-, hold⟩
    · exact (Worker.onward_pop hmessage).orderly ho
    · exact h.orderly j w' hold
  · simpa using h.last j hj
  · rcases hpop j w' hw' with ⟨rfl, rfl⟩ | ⟨hne, hold⟩
    · exact ho.loads_pop hmessage
    · refine h.finished j w' hold (.inl fun hj => hne ?_)
      exact Option.some.inj (hj.symm.trans hcurrent)
  · rcases hpop j w' hw' with ⟨rfl, rfl⟩ | ⟨hne, hold⟩
    · exact hscript
    · exact absurd (Option.some.inj (hj.symm.trans hcurrent)) hne
  · have hnil := h.noWorkers hno
    rw [hnil] at hw
    cases hw
  · exact absurd (hmode.symm.trans hdirect) (by decide)

theorem inTurn_poll {compiler : Compiler} (h : x.InTurn) (hpolling : x.service.polling ≠ 0) :
    InTurn { x with
      service := { x.service with
        syncCompiler := some compiler
        compilerVersion := some compiler.version
        polling := x.service.polling - 1
        loaded := x.service.loaded + 1 }
      loadingCompiler := false } := by
  have hmode : x.service.useWebWorker = false :=
    Bool.eq_false_iff.2 fun hmode => hpolling (h.worker hmode).1
  have hfell : x.fellBack = false := Bool.eq_false_iff.2 fun hfell => hpolling (h.fellBack hfell).1
  have hnone := h.noWorkers (.inl hmode)
  refine ⟨h.orderly, h.last, h.current, fun i w hw => ?_, fun i w hw => ?_,
    fun _ hloading => absurd hloading Bool.false_ne_true, h.noWorkers, fun hworker => ?_,
    fun hfell' => ?_, fun _ _ _ _ => Option.some_ne_none compiler⟩
  · rw [hnone] at hw
    cases hw
  · rw [hnone] at hw
    cases hw
  · exact absurd (hworker.symm.trans hmode) (by decide)
  · exact absurd (hfell'.symm.trans hfell) (by decide)

/-- **Whatever else happens to the service** keeps loads in turn. -/
theorem inTurn_act (h : x.InTurn) {e : CallEvent} (hplain : e.Plain) : (x.act e).InTurn := by
  have hapart : Apart x.service (callDesk.step x.service e) → (x.act e).InTurn := by
    intro hs
    have hloaded : (callDesk.step x.service e).loaded = x.service.loaded :=
      congrArg (fun modes => modes.2.2.2.2.2.2) hs.modes
    refine h.apart hs ?_
    simp [Loader.act, hloaded]
  cases e with
  | poll compiler =>
    by_cases hpolling : x.service.polling = 0
    · refine hapart (.of_eq ?_ ?_) <;> simp [callDesk, CompilerService.poll, hpolling]
    · have hact : x.act (.poll compiler) = { x with
          service := { x.service with
            syncCompiler := some compiler
            compilerVersion := some compiler.version
            polling := x.service.polling - 1
            loaded := x.service.loaded + 1 }
          loadingCompiler := false } := by
        simp [Loader.act, callDesk, CompilerService.poll, hpolling]
      rw [hact]
      exact inTurn_poll h hpolling
  | service e =>
    cases e with
    | loadCompiler script => exact hplain.elim
    | setOptimize optimize => exact hplain.elim
    | compile sources => exact hapart (apart_compile x.service sources)
    | work i => exact hapart (apart_work x.service i)
    | microtask library => exact hapart (apart_microtask x.service library)
    | deliver i =>
      rcases apart_deliver x.service i with hs | ⟨w, version, outbox, hw, hmessage, hdeliver⟩
      · exact hapart hs
      · obtain ⟨-, hloading, hmode, -⟩ := h.loaded hw hmessage
        have hwaits := h.waits hmode hloading
        have hact : x.act (.service (.deliver i)) = { x with
            service := x.service.deliver i, loadingCompiler := false } := by
          simp [Loader.act, callDesk, serviceDesk, hdeliver, hwaits]
        rw [hact, hdeliver]
        exact inTurn_deliver h hw hmessage

theorem inTurn_save (h : x.InTurn) (refused : Bool) : (x.save refused).InTurn := by
  unfold Loader.save
  split
  · exact h
  · exact h.apart (.of_eq rfl rfl) rfl

/-- A new worker is the current one, and the only one with a load to do. -/
theorem inTurn_newWorker (h : x.InTurn) (hidle : x.loadingCompiler = false)
    (hmode : x.service.useWebWorker = true) (hhas : x.service.hasWorker = true)
    (script : Option Compiler) : InTurn { x with
      called := true
      fellBack := false
      service := { x.service with
        workers := x.service.workers ++ [.new script]
        webWorker := some x.service.workers.length
        loading := x.service.loading + 1 }
      loadingCompiler := true } := by
  refine ⟨fun i w hw => ?_, fun i hi => ?_, fun _ _ => Option.some_ne_none _,
    fun i w hw hover => ?_, fun _ _ _ _ hdone => ?_, fun _ _ => Nat.succ_ne_zero _, fun hno => ?_,
    fun _ => ⟨(h.worker hmode).1, (h.worker hmode).2.1, rfl⟩,
    fun hfell => absurd hfell Bool.false_ne_true, fun hdirect => ?_⟩
  · rcases of_getElem?_concat hw with hw | ⟨-, rfl⟩
    · exact h.orderly i w hw
    · exact Worker.orderly_new script
  · obtain rfl : x.service.workers.length = i := Option.some.inj hi
    simp
  · rcases of_getElem?_concat hw with hw | ⟨rfl, -⟩
    · exact h.finished i w hw (.inr hidle)
    · rcases hover with hne | hdone
      · exact absurd rfl hne
      · exact absurd hdone.symm Bool.false_ne_true
  · exact absurd hdone.symm Bool.false_ne_true
  · rcases hno with hno | hno
    · exact absurd (hmode.symm.trans hno) (by decide)
    · exact absurd (hhas.symm.trans hno) (by decide)
  · exact absurd (hmode.symm.trans hdirect) (by decide)

/-- The setting is switched off, for want of workers. -/
theorem inTurn_fallBack (h : x.InTurn) (hmode : x.service.useWebWorker = true)
    (hhas : x.service.hasWorker = false) (loaded : ℕ) (loadingCompiler : Bool) : InTurn { x with
      called := true
      fellBack := true
      service := { x.service with useWebWorker := false, loaded := loaded }
      loadingCompiler := loadingCompiler } := by
  obtain ⟨hpolling, hsync, -⟩ := h.worker hmode
  have hnone := h.noWorkers (.inr hhas)
  refine ⟨h.orderly, h.last, fun hon => absurd hon Bool.false_ne_true, fun i w hw => ?_,
    fun i w hw => ?_, fun hon => absurd hon Bool.false_ne_true, fun _ => hnone,
    fun hon => absurd hon Bool.false_ne_true, fun _ => ⟨hpolling, hsync⟩,
    fun _ _ _ hfell => absurd hfell.symm Bool.false_ne_true⟩
  · rw [hnone] at hw
    cases hw
  · rw [hnone] at hw
    cases hw

/-- A script is waited for in the page. -/
theorem inTurn_loadSync (h : x.InTurn) (hmode : x.service.useWebWorker = false) : InTurn { x with
      called := true
      fellBack := false
      service := { x.service with polling := x.service.polling + 1 }
      loadingCompiler := true } := by
  have hnone := h.noWorkers (.inl hmode)
  refine ⟨h.orderly, h.last, fun hon => ?_, fun i w hw => ?_, fun i w hw => ?_, fun hon => ?_,
    fun _ => hnone, fun hon => ?_, fun hfell => absurd hfell Bool.false_ne_true,
    fun _ _ hdone => absurd hdone.symm Bool.false_ne_true⟩
  · exact absurd (hon.symm.trans hmode) (by decide)
  · rw [hnone] at hw
    cases hw
  · rw [hnone] at hw
    cases hw
  · exact absurd (hon.symm.trans hmode) (by decide)
  · exact absurd (hon.symm.trans hmode) (by decide)

/-- **A load is made** while no other is under way. -/
theorem inTurn_loadCompiler (h : x.InTurn) (hidle : x.loadingCompiler = false)
    (script : Option Compiler) (refused : Bool) : (x.loadCompiler script refused).InTurn := by
  cases hmode : x.service.useWebWorker with
  | false =>
    have hload : x.loadCompiler script refused = { x with
        called := true
        fellBack := false
        service := { x.service with polling := x.service.polling + 1 }
        loadingCompiler := true } := by
      simp [Loader.loadCompiler, CompilerService.loadCompiler, hmode]
    rw [hload]
    exact inTurn_loadSync h hmode
  | true =>
    cases hhas : x.service.hasWorker with
    | true =>
      have hload : x.loadCompiler script refused = { x with
          called := true
          fellBack := false
          service := { x.service with
            workers := x.service.workers ++ [.new script]
            webWorker := some x.service.workers.length
            loading := x.service.loading + 1 }
          loadingCompiler := true } := by
        simp [Loader.loadCompiler, CompilerService.loadCompiler, hmode, hhas]
      rw [hload]
      exact inTurn_newWorker h hidle hmode hhas script
    | false =>
      cases refused with
      | true =>
        have hload : x.loadCompiler script true = { x with
            called := true
            fellBack := true
            service := { x.service with
              useWebWorker := false, loaded := x.service.loaded }
            loadingCompiler := true } := by
          simp [Loader.loadCompiler, hmode, hhas]
        rw [hload]
        exact inTurn_fallBack h hmode hhas _ _
      | false =>
        have hload : x.loadCompiler script false = Loader.save { x with
            called := true
            fellBack := true
            service := { x.service with
              useWebWorker := false, loaded := x.service.loaded + 1 }
            loadingCompiler := false } false := by
          simp [Loader.loadCompiler, CompilerService.loadCompiler, hmode, hhas]
        rw [hload]
        exact inTurn_save (inTurn_fallBack h hmode hhas _ _) _

theorem inTurn_step (h : x.InTurn) {e : LoaderEvent} (he : loaderDesk.enabled x e) :
    (loaderDesk.step x e).InTurn := by
  cases e with
  | loadCompiler script refused => exact inTurn_loadCompiler h he script refused
  | setAutoCompile autoCompile refused =>
    have hset : InTurn { x with autoCompile := autoCompile } := h.apart (.of_eq rfl rfl) rfl
    exact inTurn_save hset refused
  | setOptimize optimize refused =>
    have hset : InTurn { x with service := { x.service with optimize := optimize } } :=
      h.apart (.of_eq rfl rfl) rfl
    exact inTurn_save hset refused
  | service e => exact inTurn_act h he.1
  | reload => exact inTurn_new _ _

theorem inTurn_of_reachable (h : loaderDesk.Reachable x) : x.InTurn := by
  refine h.invariant (I := InTurn) ?_ fun _ _ hx he => inTurn_step hx he
  rintro _ ⟨hasWorker, storage, rfl⟩
  exact inTurn_new hasWorker storage

end Loader

/-! ## What the next call does -/

/-- **A call runs the compiler**: it is posted to a worker that has its script's
compiler, or run on a compiler of the page. -/
inductive CompilerService.Runs (s : CompilerService) (sources : Sources) : Prop
  | inWorker {i : ℕ} {w : Worker} {compiler : Compiler} (mode : s.useWebWorker = true)
    (current : s.webWorker = some i) (worker : s.workers[i]? = some w)
    (script : w.script = some compiler) (loaded : w.compile = compiler.compile)
    (posted : (s.compile sources).workers[i]? =
      some (w.post (.compileRequest ⟨sources, s.optimize⟩ ⟨s.calls, true⟩)))
  | inPage {compiler : Compiler} (mode : s.useWebWorker = false)
    (current : s.syncCompiler = some compiler)
    (ran : ∀ reply, compileSync compiler.compile ⟨sources, s.optimize⟩ = .ok reply →
      ∃ c ∈ (s.compile sources).resolved, c.1.ticket = ⟨s.calls, true⟩ ∧ c.2.reply = reply)

namespace Loader

variable {x : Loader}

/-- The promise of the latest load has resolved. -/
def Resolved (x : Loader) : Prop := x.called = true ∧ x.loadingCompiler = false

/-- **Once a load has resolved every call runs the compiler**, exactly if the
load did not find the setting on and no workers. -/
theorem calls_run_iff (h : loaderDesk.Reachable x) (hresolved : x.Resolved) :
    (∀ sources, x.service.Runs sources) ↔ x.fellBack = false := by
  have hturn := inTurn_of_reachable h
  obtain ⟨hcalled, hidle⟩ := hresolved
  constructor
  · intro hruns
    by_contra hfell
    have hfell' : x.fellBack = true := by simpa using hfell
    cases hruns [] with
    | inWorker hmode => exact hfell (hturn.worker hmode).2.2
    | inPage hmode hcurrent => cases hcurrent.symm.trans (hturn.fellBack hfell').2
  · intro hfell sources
    cases hmode : x.service.useWebWorker with
    | true =>
      obtain ⟨i, hi⟩ := Option.ne_none_iff_exists'.1 (hturn.current hmode hcalled)
      have hlt : i < x.service.workers.length := by
        have := hturn.last i hi
        omega
      have hw := List.getElem?_eq_getElem hlt
      obtain ⟨compiler, hscript⟩ := Option.ne_none_iff_exists'.1 (hturn.fetched i _ hw hi hidle)
      refine .inWorker hmode hi hw hscript ?_ ?_
      · exact (hturn.orderly i _ hw).compile_eq (hturn.finished i _ hw (.inr hidle)) hscript
      · simp [CompilerService.compile, startRound, compileWebWorker, hmode, hi, hlt]
    | false =>
      obtain ⟨compiler, hcompiler⟩ :=
        Option.ne_none_iff_exists'.1 (hturn.direct hmode hcalled hidle hfell)
      refine .inPage hmode hcompiler fun reply hreply => ?_
      simp [CompilerService.compile, startRound, compileDirect, complete, hmode, hcompiler, hreply]

/-- A page over an empty storage that loads a compiler; a worker, if there are
any, says that it has. -/
def firstLoad (hasWorker : Bool) : Loader :=
  loaderDesk.run (.new hasWorker LocalStorage.empty)
    [.loadCompiler (some quietCompiler) false, .service (.service (.work 0)),
      .service (.service (.deliver 0))]

theorem firstLoad_reachable (hasWorker : Bool) : loaderDesk.Reachable (firstLoad hasWorker) := by
  refine .run (.start ⟨hasWorker, _, rfl⟩) ?_
  cases hasWorker <;> exact ⟨rfl, ⟨trivial, trivial⟩, ⟨trivial, rfl⟩, trivial⟩

theorem firstLoad_with_workers : (firstLoad true).service.Runs [] :=
  (calls_run_iff (firstLoad_reachable true) ⟨rfl, rfl⟩).2 rfl []

/-- **Without workers the first load resolves on nothing**: the next call asks
an undefined compiler. -/
theorem firstLoad_without_workers : ¬ ∀ x, loaderDesk.Reachable x → x.Resolved →
    ∀ sources, x.service.Runs sources := by
  intro h
  cases h _ (firstLoad_reachable false) ⟨rfl, rfl⟩ [] with
  | inWorker hmode => cases hmode
  | inPage _ hcurrent => cases hcurrent

end Loader

end Hmix
