import Hmix.Compiler.Rounds
import Hmix.Model.Wrapper
import Mathlib.Algebra.GroupWithZero.Nat

/-!
# The two modes

A session of one compiler, one setting and one set of files is run in direct
mode, and in web-worker mode by a worker that keeps one array for all of its
requests. The array is emptied before it is read, so what the worker does
is what the page would do with an array of its own (`work_eq`), and a
session with the worker is one without. Both come to an end, and each call
comes to what it comes to by itself, which the two modes agree on.
-/

namespace Hmix

open CompilerService

/-- An event of a session in which nothing is changed and nothing loaded. -/
def SessionEvent.Plain : SessionEvent → Prop
  | .compile _ | .work _ | .deliver _ | .microtask => True
  | _ => False

/-- An event that is no call. -/
def SessionEvent.NoCall : SessionEvent → Prop
  | .compile _ => False
  | _ => True

/-- **A session of one service and its files**, in which only calls are made. -/
def modeDesk (start : CompilerService) (library : Library) : Machine Session SessionEvent where
  start := fun x => x = ⟨start, library, []⟩
  enabled := fun x e => sessionDesk.enabled x e ∧ e.Plain
  step := sessionDesk.step

section

variable (script : Script) (optimize : Bool) (library : Library)

/-- A service in direct mode, once the script is loaded. -/
def loadedDirect : CompilerService :=
  ((CompilerService.new true false optimize).loadCompiler (some script.compiler)).poll
    script.compiler

/-- A service in web-worker mode, once the script is loaded. -/
def loadedWorker : CompilerService :=
  (((CompilerService.new true true optimize).loadCompiler (some script.compiler)).work 0).deliver 0

/-- **A session in direct mode.** -/
def directDesk : Machine Session SessionEvent := modeDesk (loadedDirect script optimize) library

/-- A session, with the globals of its worker. -/
structure WorkerPage where
  session : Session
  globals : Globals

/-- The worker handles its next message. -/
def WorkerPage.work (page : WorkerPage) (i : ℕ) : WorkerPage :=
  match page.session.service.workers[i]? with
  | none => page
  | some w =>
    let (w', g') := page.globals.work (some script) w
    let s' := { page.session.service with workers := page.session.service.workers.set i w' }
    ⟨⟨s', page.session.library, page.session.note s' (.work i)⟩, g'⟩

/-- **A session in web-worker mode**, whose worker is `worker.js` with its
one array. -/
def workerDesk : Machine WorkerPage SessionEvent where
  start := fun page => page =
    ⟨⟨loadedWorker script optimize, library, []⟩,
      (Globals.new.onmessage (some script) .loadVersion).1⟩
  enabled := fun page e => sessionDesk.enabled page.session e ∧ e.Plain
  step := fun page e =>
    match e with
    | .work i => page.work script i
    | _ => ⟨sessionDesk.step page.session e, page.globals⟩

end

/-! ## The worker's array -/

/-- The worker's `compile` is the one its globals have, and its script theirs. -/
structure Coupled (script : Option Script) (w : Worker) (g : Globals) : Prop where
  script : w.script = script.map Script.compiler
  compile : w.compile = solc g.compile

section

variable {compile : CompilerInput → Compilation} {input : CompilerInput}
  {missingInputs : List String}

theorem compileSync_solc_ok {result : Text}
    (h : (compile input).run [] = .ok result missingInputs) :
    compileSync (solc compile) input = .ok ⟨result, some missingInputs⟩ := by
  simp only [compileSync, solc, h, Except.map]

theorem compileSync_solc_error {e : Thrown}
    (h : (compile input).run [] = .error e missingInputs) :
    compileSync (solc compile) input = .error e := by
  simp only [compileSync, solc, h, Except.map]

end

/-- **Nothing is left over in the array.** A worker with one array for all of
its requests answers each as with an array of its own. -/
theorem work_eq {script : Option Script} {w : Worker} {g : Globals} (h : Coupled script w g) :
    (g.work script w).1 = w.work ∧ Coupled script (g.work script w).1 (g.work script w).2 := by
  unfold Globals.work Worker.work
  rcases hinbox : w.inbox with - | ⟨request, inbox⟩
  · exact ⟨rfl, h⟩
  · cases request with
    | loadVersion =>
      rcases script with - | script
      · have hnone : w.script = none := h.script
        simp only [Globals.onmessage, hnone, ← h.compile, List.append_nil, true_and]
        exact ⟨rfl, h.compile⟩
      · have hsome : w.script = some script.compiler := h.script
        simp only [Globals.onmessage, hsome]
        exact ⟨rfl, rfl, rfl⟩
    | compileRequest input ticket =>
      -- the request is handled from the empty array on, as `solc` is
      rcases hrun : (g.compile input).run [] with ⟨result, missingInputs⟩ | ⟨e, missingInputs⟩
      · simp only [Globals.onmessage, hrun, h.compile, compileSync_solc_ok hrun]
        exact ⟨trivial, h.script, rfl⟩
      · simp only [Globals.onmessage, hrun, h.compile, compileSync_solc_error hrun,
          List.append_nil]
        exact ⟨trivial, h.script, rfl⟩

/-! ## Sessions with the worker are sessions -/

section

variable {script : Script} {optimize : Bool} {library : Library}

/-- What the page knows of its worker: there is the one, and it is coupled to
the globals. -/
def OneWorker (script : Script) (page : WorkerPage) : Prop :=
  ∃ w, page.session.service.workers = [w] ∧ Coupled (some script) w page.globals

/-- Apart from its own work, a worker is only written to and read from. -/
theorem core_act (s : CompilerService) (library : Library) {e : SessionEvent} (hplain : e.Plain)
    (hwork : ∀ i, e ≠ .work i) :
    (Session.act s library e).workers.map Worker.core = s.workers.map Worker.core := by
  cases e with
  | compile sources => exact core_startRound _ _ _
  | work i => exact absurd rfl (hwork i)
  | deliver i => exact core_deliver s i
  | microtask => exact core_microtask s library
  | loadCompiler script => exact hplain.elim
  | poll compiler => exact hplain.elim
  | setOptimize optimize => exact hplain.elim
  | change library => exact hplain.elim

/-- The worker handles a message as a worker of a session does. -/
theorem session_work_zero {page : WorkerPage} {w : Worker}
    (hworkers : page.session.service.workers = [w])
    (hcoupled : Coupled (some script) w page.globals) :
    (page.work script 0).session = sessionDesk.step page.session (.work 0) ∧
      OneWorker script (page.work script 0) := by
  obtain ⟨heq, hcoupled'⟩ := work_eq hcoupled
  have hstep : page.session.service.work 0 = { page.session.service with workers := [w.work] } := by
    rw [CompilerService.work, hworkers]
    rfl
  have hpage : page.work script 0 = ⟨⟨{ page.session.service with workers := [w.work] },
      page.session.library, page.session.note { page.session.service with
        workers := [w.work] } (.work 0)⟩, (page.globals.work (some script) w).2⟩ := by
    simp only [WorkerPage.work, hworkers, ← heq]
    rfl
  rw [hpage]
  refine ⟨?_, w.work, rfl, heq ▸ hcoupled'⟩
  change _ = (⟨page.session.service.work 0, page.session.library,
    page.session.note (page.session.service.work 0) (.work 0)⟩ : Session)
  rw [hstep]

/-- There is no other worker, so nothing is done. -/
theorem session_work_succ {page : WorkerPage} {w : Worker}
    (hworkers : page.session.service.workers = [w]) (i : ℕ) : page.work script (i + 1) = page ∧
      sessionDesk.step page.session (.work (i + 1)) = page.session := by
  have hstep : page.session.service.work (i + 1) = page.session.service := by
    have hmodify : page.session.service.workers.modify (i + 1) Worker.work =
        page.session.service.workers := by
      rw [hworkers]
      simp
    rw [CompilerService.work, hmodify]
  have hnote : page.session.note page.session.service (.work (i + 1)) = page.session.records := by
    have hextend : Session.extend page.session.service page.session.service = id :=
      funext (Beside.of_workers rfl rfl : Beside page.session.service _).extend
    simp only [Session.note, hextend]
    cases page.session.records <;> rfl
  constructor
  · simp only [WorkerPage.work, hworkers]
    rfl
  · change (⟨page.session.service.work (i + 1), page.session.library,
      page.session.note (page.session.service.work (i + 1)) (.work (i + 1))⟩ : Session) = _
    rw [hstep, hnote]

/-- The page leaves the worker's compiler alone. -/
theorem OneWorker.act {page : WorkerPage} {e : SessionEvent} (h : OneWorker script page)
    (hplain : e.Plain) (hwork : ∀ i, e ≠ .work i) :
    OneWorker script ⟨sessionDesk.step page.session e, page.globals⟩ := by
  obtain ⟨w, hworkers, hcoupled⟩ := h
  have hcore := core_act page.session.service page.session.library hplain hwork
  rw [hworkers] at hcore
  obtain ⟨w', rest, hworkers', hw', hrest⟩ := List.map_eq_cons_iff.1 hcore
  obtain rfl := List.map_eq_nil_iff.1 hrest
  obtain ⟨hscript, hcompile⟩ := Prod.mk.inj hw'
  exact ⟨w', hworkers', hscript.trans hcoupled.script, hcompile.trans hcoupled.compile⟩

/-- **A step of the page with its worker is a step of the session.** -/
theorem workerDesk_step {page : WorkerPage} {e : SessionEvent} (h : OneWorker script page)
    (hplain : e.Plain) :
    ((workerDesk script optimize library).step page e).session =
        sessionDesk.step page.session e ∧
      OneWorker script ((workerDesk script optimize library).step page e) := by
  cases e with
  | work i =>
    obtain ⟨w, hworkers, hcoupled⟩ := h
    change (page.work script i).session = _ ∧ OneWorker script (page.work script i)
    cases i with
    | zero => exact session_work_zero hworkers hcoupled
    | succ i =>
      obtain ⟨hpage, hstep⟩ := @session_work_succ script page w hworkers i
      rw [hpage, hstep]
      exact ⟨rfl, w, hworkers, hcoupled⟩
  | _ => exact ⟨rfl, h.act hplain (by simp)⟩

/-! ## What the calls of a session come to -/

/-- A session of one compiler, one setting and one set of files has a page. -/
def plainSetting (script : Script) (optimize : Bool) (library : Library) : Setting :=
  ⟨some (solc script.compileStandardWrapper), optimize, library⟩

/-- **Nothing is changed**: every call meets the same page. -/
structure Unchanged (setting : Setting) (x : Session) : Prop where
  page : x.setting = setting
  records : ∀ r ∈ x.records, r.first = setting ∧ r.second = setting

theorem samePage_act (s : CompilerService) (library : Library) {e : SessionEvent}
    (hplain : e.Plain) :
    SamePage s (Session.act s library e) := by
  cases e with
  | compile sources => exact samePage_compile s sources
  | work i => exact samePage_work s i
  | deliver i => exact samePage_deliver s i
  | microtask => exact samePage_microtask s library
  | loadCompiler script => exact hplain.elim
  | poll compiler => exact hplain.elim
  | setOptimize optimize => exact hplain.elim
  | change library => exact hplain.elim

/-- Where only the last record changes, what holds of each stays so. -/
theorem forall_mem_modifyHead {P : CallRecord → Prop} {records : List CallRecord}
    {g : CallRecord → CallRecord} (h : ∀ r ∈ records, P r) (hg : ∀ r, P r → P (g r)) :
    ∀ r ∈ records.modifyHead g, P r := by
  cases records with
  | nil => exact h
  | cons r older =>
    obtain ⟨hr, holder⟩ := List.forall_mem_cons.1 h
    exact List.forall_mem_cons.2 ⟨hg r hr, holder⟩

theorem unchanged_step {setting : Setting} {x : Session} {e : SessionEvent}
    (h : Unchanged setting x) (hordered : Ordered x.service) (hplain : e.Plain) :
    Unchanged setting (sessionDesk.step x e) := by
  have hsame := samePage_act x.service x.library hplain
  have hpage : (sessionDesk.step x e).setting = setting := by
    have hoptimize : (Session.act x.service x.library e).optimize = x.service.optimize := by
      simpa using congrArg (fun modes => modes.2.1) hsame.modes
    have hfiles : x.files e = x.library := by
      cases e with
      | change library => exact hplain.elim
      | _ => rfl
    rw [← h.page]
    simp only [Session.setting, sessionDesk, hsame.compiler hordered, hoptimize, hfiles]
  refine ⟨hpage, ?_⟩
  cases e with
  | compile sources => exact List.forall_mem_cons.2 ⟨⟨h.page, h.page⟩, h.records⟩
  | work i => exact forall_mem_modifyHead (g := Session.extend x.service _) h.records fun _ => id
  | deliver i => exact forall_mem_modifyHead (g := Session.extend x.service _) h.records fun _ => id
  | microtask =>
    refine forall_mem_modifyHead h.records fun r hr => ?_
    change (x.gather r).first = setting ∧ (x.gather r).second = setting
    unfold Session.gather
    split
    · exact hr
    · split_ifs
      · exact ⟨hr.1, h.page⟩
      · exact hr
  | loadCompiler script => exact hplain.elim
  | poll compiler => exact hplain.elim
  | setOptimize optimize => exact hplain.elim
  | change library => exact hplain.elim

/-- The sessions of a mode are sessions, where the service it starts with is
one that calls can lead to. -/
theorem reachable_of_mode {start : CompilerService} {setting : Setting}
    (hstart : sessionDesk.Reachable ⟨start, library, []⟩)
    (hpage : (⟨start, library, []⟩ : Session).setting = setting) {x : Session}
    (h : (modeDesk start library).Reachable x) :
    sessionDesk.Reachable x ∧ Unchanged setting x := by
  refine h.invariant (I := fun x => sessionDesk.Reachable x ∧ Unchanged setting x) ?_ ?_
  · rintro _ rfl
    exact ⟨hstart, hpage, List.forall_mem_nil _⟩
  · rintro x e ⟨hx, hunchanged⟩ ⟨hen, hplain⟩
    exact ⟨hx.step hen, unchanged_step hunchanged (recounted_of_reachable hx).ordered hplain⟩

theorem reachable_loadedDirect :
    sessionDesk.Reachable ⟨loadedDirect script optimize, library, []⟩ := by
  have hnew : sessionDesk.Reachable ⟨.new true false optimize, library, []⟩ :=
    .start ⟨true, false, optimize, library, rfl⟩
  change sessionDesk.Reachable (sessionDesk.run ⟨.new true false optimize, library, []⟩
    [.loadCompiler (some script.compiler), .poll script.compiler])
  exact hnew.run ⟨trivial, rfl, trivial⟩

theorem reachable_loadedWorker :
    sessionDesk.Reachable ⟨loadedWorker script optimize, library, []⟩ := by
  have hnew : sessionDesk.Reachable ⟨.new true true optimize, library, []⟩ :=
    .start ⟨true, true, optimize, library, rfl⟩
  change sessionDesk.Reachable (sessionDesk.run ⟨.new true true optimize, library, []⟩
    [.loadCompiler (some script.compiler), .work 0, .deliver 0])
  exact hnew.run ⟨trivial, trivial, rfl, trivial⟩

/-- A direct session, as a session. -/
theorem reachable_of_directDesk {x : Session}
    (h : (directDesk script optimize library).Reachable x) :
    sessionDesk.Reachable x ∧ Unchanged (plainSetting script optimize library) x :=
  reachable_of_mode reachable_loadedDirect rfl h

/-- A session with a worker, as a session. -/
theorem reachable_of_workerDesk {page : WorkerPage}
    (h : (workerDesk script optimize library).Reachable page) :
    (sessionDesk.Reachable page.session ∧
      Unchanged (plainSetting script optimize library) page.session) ∧ OneWorker script page := by
  have hmode : (modeDesk (loadedWorker script optimize) library).Reachable page.session ∧
      OneWorker script page := by
    refine h.simulate (f := WorkerPage.session) (g := id) (I := OneWorker script) ?_ ?_
    · rintro _ rfl
      exact ⟨.start rfl, _, rfl, rfl, rfl⟩
    · rintro page e hone ⟨hen, hplain⟩
      exact ⟨⟨hen, hplain⟩, workerDesk_step hone hplain⟩
  exact ⟨reachable_of_mode reachable_loadedWorker rfl hmode.1, hmode.2⟩

/-- **What is left of a session that is done**: every call is recorded. A
round that waits for a worker that threw is owed nothing. -/
theorem recorded_of_done {x : Session} (h : sessionDesk.Reachable x) (hdone : x.Done) :
    Recorded x.records x.service.latest := by
  rcases (recounted_of_reachable h).story with ⟨-, hrecorded⟩ |
    ⟨r, older, p, hrecords, hserves, holder⟩
  · exact hrecorded
  rcases hserves.place with ⟨-, -, i, w, -, hw, -, hmessages⟩ | ⟨-, answer, hresolved, -⟩
  · obtain ⟨hinbox, houtbox⟩ := hdone.2 w (List.mem_of_getElem? hw)
    obtain ⟨e, herror⟩ : ∃ e, r.owed p.ticket = .error e := by
      refine hmessages.resolve_left fun hone => ?_
      simp [Worker.messages, hinbox, houtbox] at hone
    have hunfinished : .finished ∉ r.events := by
      rw [hserves.events]
      split_ifs <;> decide
    rw [hrecords]
    refine ⟨?_, ⟨fun _ => hunfinished, fun hne => absurd hserves.result hne⟩, holder⟩
    rw [comesTo_of_owed_error herror, hserves.result, hserves.latest]
  · rw [hdone.1] at hresolved
    cases hresolved

/-- **The records are a function of the requests.** -/
theorem recorded_unique {setting : Setting} {records records' : List CallRecord}
    {latest latest' : ICompilerResult} (h : Recorded records latest)
    (h' : Recorded records' latest') (hsame : ∀ r ∈ records, r.first = setting ∧ r.second = setting)
    (hsame' : ∀ r ∈ records', r.first = setting ∧ r.second = setting)
    (hrequests : records.map CallRecord.sources = records'.map CallRecord.sources) :
    records.map CallRecord.result = records'.map CallRecord.result ∧ latest = latest' := by
  induction records generalizing records' latest latest' with
  | nil =>
    obtain rfl := List.map_eq_nil_iff.1 hrequests.symm
    exact ⟨rfl, h.trans h'.symm⟩
  | cons r older ih =>
    cases records' with
    | nil => cases hrequests
    | cons r' older' =>
      obtain ⟨hsources, hrest⟩ := List.cons.inj hrequests
      obtain ⟨hcomesTo, -, holder⟩ := h
      obtain ⟨hcomesTo', -, holder'⟩ := h'
      obtain ⟨⟨hfirst, hsecond⟩, hsame⟩ := List.forall_mem_cons.1 hsame
      obtain ⟨⟨hfirst', hsecond'⟩, hsame'⟩ := List.forall_mem_cons.1 hsame'
      obtain ⟨hresults, hbefore⟩ := ih holder holder' hsame hsame' hrest
      have heq : r.comesTo = r'.comesTo := by
        simp only [CallRecord.comesTo, hfirst, hsecond, hfirst', hsecond', hbefore]
        rw [show r.sources = r'.sources from hsources]
      obtain ⟨hresult, hlatest⟩ := Prod.mk.inj (hcomesTo.trans (heq.trans hcomesTo'.symm))
      refine ⟨?_, hlatest⟩
      rw [List.map_cons, List.map_cons, hresult, hresults]

end

/-! ## Sessions come to an end -/

/-- The messages a worker has, those it has yet to handle twice. -/
def Worker.queued (w : Worker) : ℕ := 2 * w.inbox.length + w.outbox.length

/-- **What is left to do**: each message, and each round with those it may
still bring. -/
def CompilerService.remaining (s : CompilerService) : ℕ :=
  (s.workers.map Worker.queued).sum +
    (s.waiting.map fun p => if p.ticket.retry then 6 else 2).sum +
    (s.resolved.map fun c => if c.1.ticket.retry then 5 else 1).sum

theorem queued_work {w : Worker} (h : w.inbox ≠ []) : w.work.queued < w.queued := by
  unfold Worker.work Worker.queued
  split
  · next hinbox => exact absurd hinbox h
  · next inbox hinbox =>
    split
    · simp [hinbox]
      omega
    · simp [hinbox]
  · next input ticket inbox hinbox =>
    split
    · simp [hinbox]
      omega
    · simp [hinbox]

theorem remaining_work {s : CompilerService} {i : ℕ} {w : Worker} (hw : s.workers[i]? = some w)
    (h : w.inbox ≠ []) : (s.work i).remaining < s.remaining := by
  have hsum := sum_map_modify Worker.queued Worker.work hw
  have hlt := queued_work h
  unfold CompilerService.remaining CompilerService.work
  dsimp only
  omega

/-- A round that waits may bring one microtask more than one that is complete. -/
theorem sum_waiting (rounds : List Pending) (answer : Answer) :
    ((rounds.map fun p => (p, answer)).map fun c => if c.1.ticket.retry then 5 else 1).sum ≤
      (rounds.map fun p => if p.ticket.retry then 6 else 2).sum := by
  induction rounds with
  | nil => exact Nat.le_refl _
  | cons p rounds ih =>
    simp only [List.map_cons, List.sum_cons]
    split_ifs <;> omega

theorem remaining_deliver {s : CompilerService} {i : ℕ} {w : Worker}
    (hw : s.workers[i]? = some w) (h : w.outbox ≠ []) :
    (s.deliver i).remaining < s.remaining := by
  obtain ⟨response, outbox, houtbox⟩ := List.exists_cons_of_ne_nil h
  have hsum := sum_map_modify Worker.queued (fun _ => { w with outbox := outbox }) hw
  rw [← List.set_eq_modify] at hsum
  have hqueued : ({ w with outbox := outbox } : Worker).queued + 1 = w.queued := by
    simp only [Worker.queued, houtbox, List.length_cons]
    omega
  unfold CompilerService.remaining deliver
  simp only [hw, houtbox]
  cases response with
  | versionLoaded version =>
    dsimp only
    omega
  | compileResult reply input ticket =>
    have hwaiting := sum_waiting s.waiting ⟨reply, input, ticket, some i⟩
    simp only [complete, List.map_append, List.sum_append, List.map_nil, List.sum_nil]
    omega

theorem remaining_startRound (s : CompilerService) (call : ℕ) (sources : Sources) :
    (s.startRound ⟨call, false⟩ sources).remaining ≤ s.remaining + 4 := by
  have hbegins := begins_startRound s ⟨call, false⟩ sources
  generalize s.startRound ⟨call, false⟩ sources = s' at hbegins ⊢
  cases hbegins with
  | lost => exact Nat.le_add_right _ _
  | @posted i _ _ =>
    have hposted : ((s.workers.modify i
        (Worker.post · (.compileRequest ⟨sources, s.optimize⟩ ⟨call, false⟩))).map
          Worker.queued).sum ≤ (s.workers.map Worker.queued).sum + 2 := by
      rcases hw : s.workers[i]? with - | w
      · rw [List.modify_eq_self (List.getElem?_eq_none_iff.1 hw)]
        omega
      · have hsum := sum_map_modify Worker.queued
          (Worker.post · (.compileRequest ⟨sources, s.optimize⟩ ⟨call, false⟩)) hw
        simp only [Worker.queued, Worker.post, List.length_append, List.length_singleton] at hsum ⊢
        omega
    simp only [CompilerService.remaining, List.map_append, List.sum_append, List.map_cons,
      List.map_nil, List.sum_cons, List.sum_nil, Bool.false_eq_true, if_false]
    omega
  | answered =>
    simp only [CompilerService.remaining, complete, List.map_append, List.sum_append, List.map_cons,
      List.map_nil, List.sum_cons, List.sum_nil, Bool.false_eq_true, if_false]
    omega

theorem remaining_microtask {s : CompilerService} (library : Library) (h : s.resolved ≠ []) :
    (s.microtask library).remaining < s.remaining := by
  have hpopped : ∀ {p : Pending} {answer : Answer} {rest : List (Pending × Answer)},
      s.resolved = (p, answer) :: rest → { s with resolved := popped answer rest }.remaining +
        (if p.ticket.retry then 5 else 1) = s.remaining := by
    intro p answer rest hresolved
    simp only [CompilerService.remaining, hresolved, popped, List.map_cons, List.sum_cons,
      List.map_map, Function.comp_def]
    omega
  have hgoesOn := goesOn_microtask s library
  generalize s.microtask library = s' at hgoesOn ⊢
  cases hgoesOn with
  | rests hresolved => exact absurd hresolved h
  | retries hresolved _ hretry =>
    -- the second round is the last, and takes fewer steps than the first one had left
    have hless := hpopped hresolved
    rw [if_pos hretry] at hless
    exact (remaining_startRound _ _ _).trans_lt (by omega)
  | @reports p answer rest hresolved =>
    have hless := hpopped hresolved
    have hreport : ({ s with resolved := popped answer rest }.report p.ticket.call
        answer.reply).remaining = { s with resolved := popped answer rest }.remaining := by
      rw [CompilerService.report]
      split <;> rfl
    rw [hreport]
    split_ifs at hless <;> omega

/-- An event that is no call makes no request. -/
theorem requests_step {x : Session} {e : SessionEvent} (h : e.NoCall) :
    (sessionDesk.step x e).requests = x.requests := by
  have hhead : ∀ g : CallRecord → CallRecord, (∀ r, (g r).sources = r.sources) →
      (x.records.modifyHead g).map CallRecord.sources = x.records.map CallRecord.sources := by
    intro g hg
    cases x.records with
    | nil => rfl
    | cons r older => simp [hg]
  cases e with
  | compile sources => exact h.elim
  | microtask =>
    refine hhead _ fun r => ?_
    change (x.gather r).sources = r.sources
    unfold Session.gather
    split
    · rfl
    · split_ifs <;> rfl
  | _ => exact hhead (Session.extend x.service _) fun _ => rfl

/-- What the progress of a session is made of. -/
theorem progress {x : Session} (h : ¬ x.Done) : ∃ e, sessionDesk.enabled x e ∧ e.Plain ∧ e.NoCall ∧
    (sessionDesk.step x e).service.remaining < x.service.remaining := by
  by_cases hresolved : x.service.resolved = []
  · obtain ⟨w, hmem, hmessages⟩ : ∃ w ∈ x.service.workers, ¬ (w.inbox = [] ∧ w.outbox = []) := by
      by_contra hnone
      exact h ⟨hresolved, fun w hw => by_contra fun hmessages => hnone ⟨w, hw, hmessages⟩⟩
    obtain ⟨i, hw⟩ := List.mem_iff_getElem?.1 hmem
    by_cases hinbox : w.inbox = []
    · have houtbox : w.outbox ≠ [] := fun houtbox => hmessages ⟨hinbox, houtbox⟩
      exact ⟨.deliver i, hresolved, trivial, trivial, remaining_deliver hw houtbox⟩
    · exact ⟨.work i, trivial, trivial, trivial, remaining_work hw hinbox⟩
  · exact ⟨.microtask, trivial, trivial, trivial, remaining_microtask _ hresolved⟩

/-- Some events that are no calls lead to the end of a session. -/
abbrev ComesToAnEnd (M : Machine Session SessionEvent) (x : Session) : Prop :=
  M.Leads SessionEvent.NoCall (fun x' => x'.Done ∧ x'.requests = x.requests) x

/-- **Every session comes to an end**, by messages and microtasks alone. -/
theorem mode_comes_to_an_end {start : CompilerService} {library : Library} (x : Session) :
    ComesToAnEnd (modeDesk start library) x := by
  refine .of_measure (I := fun x' => x'.requests = x.requests)
    (fun x' => x'.service.remaining) ?_ rfl
  intro x' hrequests hnot
  obtain ⟨e, hen, hplain, hnocall, hlt⟩ := progress fun hdone => hnot ⟨hdone, hrequests⟩
  exact ⟨e, ⟨hen, hplain⟩, hnocall, (requests_step hnocall).trans hrequests, hlt⟩

/-- So does every session with a worker. -/
theorem worker_comes_to_an_end {script : Script} {optimize : Bool} {library : Library}
    {page : WorkerPage} (h : OneWorker script page) :
    (workerDesk script optimize library).Leads SessionEvent.NoCall
      (fun page' => page'.session.Done ∧ page'.session.requests = page.session.requests) page := by
  refine .lift (I := OneWorker script) (f := WorkerPage.session)
    (N := modeDesk (loadedWorker script optimize) library) ?_ h (mode_comes_to_an_end page.session)
  rintro page e hone ⟨hen, hplain⟩
  exact ⟨⟨hen, hplain⟩, workerDesk_step hone hplain⟩

/-- **The two modes agree**, whatever the compiler, the setting and the files.
A session comes to an end in either; and where the same requests were made
in the same order the results are the same, and so are the contracts and
the errors that are stored in the end. -/
theorem modes_agree (script : Script) (optimize : Bool) (library : Library) :
    (∀ x, (directDesk script optimize library).Reachable x →
      ComesToAnEnd (directDesk script optimize library) x) ∧
    (∀ page, (workerDesk script optimize library).Reachable page →
      (workerDesk script optimize library).Leads SessionEvent.NoCall
        (fun page' => page'.session.Done ∧ page'.session.requests = page.session.requests) page) ∧
    ∀ x page, (directDesk script optimize library).Reachable x →
      (workerDesk script optimize library).Reachable page → x.Done → page.session.Done →
      x.requests = page.session.requests →
      x.results = page.session.results ∧ x.service.latest = page.session.service.latest := by
  refine ⟨fun x _ => mode_comes_to_an_end x,
    fun page hpage => worker_comes_to_an_end (reachable_of_workerDesk hpage).2, ?_⟩
  intro x page hx hpage hdone hdone' hrequests
  obtain ⟨hreach, hunchanged⟩ := reachable_of_directDesk hx
  obtain ⟨⟨hreach', hunchanged'⟩, -⟩ := reachable_of_workerDesk hpage
  exact recorded_unique (recorded_of_done hreach hdone) (recorded_of_done hreach' hdone')
    hunchanged.records hunchanged'.records hrequests

/-- A script that asks for `B.sol`, whatever it is given. -/
def askingScript : Script where
  compileStandardWrapper := fun _ => .imports "B.sol" fun _ => .returns (.json compiled.json)
  version := "0.4.24"

/-- The files of its page. -/
def twoLibraryFiles : Library := [("A.sol", ""), ("B.sol", "")]

/-- One file is compiled, and then another. -/
def twoRequests (answered : List SessionEvent) : List SessionEvent :=
  .compile [("A.sol", "")] :: answered ++ .compile [("B.sol", "")] :: answered

/-- That session, in direct mode. -/
def directly : Session := (directDesk askingScript true twoLibraryFiles).run
  ⟨loadedDirect askingScript true, twoLibraryFiles, []⟩ (twoRequests [.microtask, .microtask])

/-- And with a worker. -/
def byWorker : WorkerPage := (workerDesk askingScript true twoLibraryFiles).run
  ⟨⟨loadedWorker askingScript true, twoLibraryFiles, []⟩,
    (Globals.new.onmessage (some askingScript) .loadVersion).1⟩
  (twoRequests [.work 0, .deliver 0, .microtask, .work 0, .deliver 0, .microtask])

theorem two_requests_agree : directly.requests.length = 2 ∧
    directly.results = byWorker.session.results ∧
    directly.service.latest = byWorker.session.service.latest := by
  have hdirect : (directDesk askingScript true twoLibraryFiles).Reachable directly := by
    refine .run (.start rfl) ?_
    exact ⟨⟨⟨rfl, rfl⟩, trivial⟩, ⟨trivial, trivial⟩, ⟨trivial, trivial⟩, ⟨⟨rfl, rfl⟩, trivial⟩,
      ⟨trivial, trivial⟩, ⟨trivial, trivial⟩, trivial⟩
  have hworker : (workerDesk askingScript true twoLibraryFiles).Reachable byWorker := by
    refine .run (.start rfl) ?_
    exact ⟨⟨⟨rfl, rfl⟩, trivial⟩, ⟨trivial, trivial⟩, ⟨rfl, trivial⟩, ⟨trivial, trivial⟩,
      ⟨trivial, trivial⟩, ⟨rfl, trivial⟩, ⟨trivial, trivial⟩, ⟨⟨rfl, rfl⟩, trivial⟩,
      ⟨trivial, trivial⟩, ⟨rfl, trivial⟩, ⟨trivial, trivial⟩, ⟨trivial, trivial⟩, ⟨rfl, trivial⟩,
      ⟨trivial, trivial⟩, trivial⟩
  have hdone : byWorker.session.Done := by
    refine ⟨rfl, fun w hw => ?_⟩
    obtain rfl := List.mem_singleton.1 hw
    exact ⟨rfl, rfl⟩
  have hrequests : directly.requests = [[("B.sol", "")], [("A.sol", "")]] := rfl
  have hrequests' : byWorker.session.requests = [[("B.sol", "")], [("A.sol", "")]] := rfl
  refine ⟨by rw [hrequests]; rfl, ?_⟩
  exact (modes_agree askingScript true twoLibraryFiles).2.2 _ _ hdirect hworker
    ⟨rfl, List.forall_mem_nil _⟩ hdone (hrequests.trans hrequests'.symm)

end Hmix
