import Hmix.Compiler.Settled
import Hmix.Model.Wrapper

/-!
# Sessions of calls

A session is a service whose calls do not overlap, and what became of each
call: the events it emitted, the rounds it took and the result its promise
resolved to. The records are the specification's, and so is what a call is
said to come to. A worker may be replaced, a setting or a file changed at
any time.
-/

namespace Hmix

/-- **What became of a call.** -/
structure CallRecord where
  sources : Sources
  /-- The stored result, when the call was made. -/
  before : ICompilerResult
  /-- The page, when the call was made, and when its imports were gathered. -/
  first : Setting
  second : Setting
  /-- The events since. -/
  events : List CompilationEvent
  /-- The rounds that were completed since. -/
  rounds : List (Pending × Answer)
  /-- What the promise resolved to. -/
  result : Option ICompilerResult

/-- **What a call comes to by itself**: its result, where it has one, and
the stored result it leaves. -/
def CallRecord.comesTo (r : CallRecord) : Option ICompilerResult × ICompilerResult :=
  match alone r.first r.second r.sources with
  | .error _ => (none, r.before)
  | .ok reply =>
    match parseCompilationResult reply.result r.before with
    | .ok _ latest => (some latest, latest)
    | .error _ latest => (none, latest)

/-- A service, the files of its page, and its calls, the last one first. -/
structure Session where
  service : CompilerService
  library : Library
  records : List CallRecord

/-- What happens in a session. -/
inductive SessionEvent where
  /-- `compile` is called. -/
  | compile (sources : Sources)
  /-- `loadCompiler` is called. -/
  | loadCompiler (script : Option Compiler)
  /-- A poll of `loadSync` finds a script. -/
  | poll (compiler : Compiler)
  /-- The setting is changed. -/
  | setOptimize (optimize : Bool)
  /-- The files are changed. -/
  | change (library : Library)
  /-- A worker handles its next message. -/
  | work (worker : ℕ)
  /-- The page handles the next message of a worker. -/
  | deliver (worker : ℕ)
  /-- A round goes on. -/
  | microtask

namespace Session

/-- The page, as a round that begins now has it. -/
def setting (x : Session) : Setting where
  compiler := x.service.compiler
  optimize := x.service.optimize
  library := x.library

/-- What an event does to the service. -/
def act (s : CompilerService) (library : Library) : SessionEvent → CompilerService
  | .compile sources => s.compile sources
  | .loadCompiler script => s.loadCompiler script
  | .poll compiler => s.poll compiler
  | .setOptimize optimize => { s with optimize := optimize }
  | .change _ => s
  | .work i => s.work i
  | .deliver i => s.deliver i
  | .microtask => s.microtask library

/-- What a step of the service adds to the record of the call there is. -/
def extend (s s' : CompilerService) (r : CallRecord) : CallRecord :=
  { r with
    events := r.events ++ s'.events.drop s.events.length
    rounds := r.rounds ++ s'.completions.drop s.completions.length
    result := if s'.settled.length = s.settled.length then r.result else some s'.latest }

/-- A new record. -/
def newRecord (x : Session) (sources : Sources) : CallRecord where
  sources := sources
  before := x.service.latest
  first := x.setting
  second := x.setting
  events := []
  rounds := []
  result := none

/-- The imports are gathered where the first round of a call goes on. -/
def gather (x : Session) (r : CallRecord) : CallRecord :=
  match x.service.resolved with
  | [] => r
  | (p, _) :: _ => if p.ticket.retry then { r with second := x.setting } else r

/-- The records, once the service is `s'`. -/
def note (x : Session) (s' : CompilerService) : SessionEvent → List CallRecord
  | .compile sources => extend x.service s' (x.newRecord sources) :: x.records
  | .microtask => x.records.modifyHead fun r => extend x.service s' (x.gather r)
  | _ => x.records.modifyHead (extend x.service s')

/-- The files, after an event. -/
def files (x : Session) : SessionEvent → Library
  | .change library => library
  | _ => x.library

/-- The sources of the calls there were, the last one first. -/
def requests (x : Session) : List Sources := x.records.map CallRecord.sources

/-- What their promises resolved to. -/
def results (x : Session) : List (Option ICompilerResult) := x.records.map CallRecord.result

/-- Nothing is left to do: no microtask, and no message. A round may wait
for a reply that never comes, its compiler having thrown. -/
def Done (x : Session) : Prop :=
  x.service.resolved = [] ∧ ∀ w ∈ x.service.workers, w.inbox = [] ∧ w.outbox = []

end Session

/-- **Calls that do not overlap**, in either mode. -/
def sessionDesk : Machine Session SessionEvent where
  start := fun x => ∃ hasWorker useWebWorker optimize library,
    x = ⟨.new hasWorker useWebWorker optimize, library, []⟩
  enabled := fun x e =>
    match e with
    | .compile _ => x.service.Still
    | .deliver _ | .poll _ => x.service.resolved = []
    | _ => True
  step := fun x e =>
    let s' := Session.act x.service x.library e
    ⟨s', x.files e, x.note s' e⟩

open CompilerService

/-! ## What only loads and settings change -/

/-- The script of a worker, and its `compile`. -/
def Worker.core (w : Worker) : Option Compiler × Solc := (w.script, w.compile)

theorem Worker.script_work (w : Worker) : w.work.script = w.script := by
  unfold Worker.work
  split
  · rfl
  · split <;> rfl
  · split <;> rfl

theorem core_startRound (s : CompilerService) (ticket : Ticket) (sources : Sources) :
    (s.startRound ticket sources).workers.map Worker.core = s.workers.map Worker.core := by
  have hbegins := begins_startRound s ticket sources
  generalize s.startRound ticket sources = s' at hbegins ⊢
  cases hbegins with
  | lost => rfl
  | posted => exact map_modify fun _ => rfl
  | answered => rfl

theorem core_deliver (s : CompilerService) (i : ℕ) :
    (s.deliver i).workers.map Worker.core = s.workers.map Worker.core := by
  have hdelivers := delivers_deliver s i
  generalize s.deliver i = s' at hdelivers ⊢
  cases hdelivers with
  | nothing => rfl
  | loaded hw _ => exact map_set hw rfl
  | replied hw _ => exact map_set hw rfl

theorem core_microtask (s : CompilerService) (library : Library) :
    (s.microtask library).workers.map Worker.core = s.workers.map Worker.core := by
  have hgoesOn := goesOn_microtask s library
  generalize s.microtask library = s' at hgoesOn ⊢
  cases hgoesOn with
  | rests => rfl
  | retries => exact core_startRound _ _ _
  | reports =>
    unfold CompilerService.report
    split <;> rfl

/-- **What a round depends on stays.** -/
structure SamePage (s s' : CompilerService) : Prop where
  workers : SameWorkers s s'
  modes : (s'.useWebWorker, s'.optimize, s'.webWorker, s'.syncCompiler) =
    (s.useWebWorker, s.optimize, s.webWorker, s.syncCompiler)

theorem SamePage.webWorker {s s' : CompilerService} (h : SamePage s s') :
    s'.webWorker = s.webWorker := by
  simpa using congrArg (fun modes => modes.2.2.1) h.modes

theorem SamePage.compiler {s s' : CompilerService} (h : SamePage s s') (hordered : Ordered s) :
    s'.compiler = s.compiler := by
  obtain ⟨hmode, -, hcurrent, hsync⟩ : _ ∧ _ ∧ _ ∧ _ := by simpa using h.modes
  simp only [CompilerService.compiler, hmode, hcurrent, hsync]
  rcases hi : s.webWorker with - | i
  · rfl
  · have hw := List.getElem?_eq_getElem (hordered.current i hi)
    obtain ⟨w', hw', heff⟩ := h.workers i _ hw
    simp only [Option.bind_some, hw, hw', Option.map_some, heff]

theorem samePage_startRound (s : CompilerService) (ticket : Ticket) (sources : Sources) :
    SamePage s (s.startRound ticket sources) := by
  have hbegins := begins_startRound s ticket sources
  refine ⟨hbegins.sameWorkers, ?_⟩
  generalize s.startRound ticket sources = s' at hbegins ⊢
  cases hbegins <;> rfl

theorem samePage_compile (s : CompilerService) (sources : Sources) :
    SamePage s (s.compile sources) := by
  have hstart := samePage_startRound { s with calls := s.calls + 1 } ⟨s.calls, true⟩ sources
  exact ⟨hstart.workers, hstart.modes⟩

theorem samePage_work (s : CompilerService) (i : ℕ) : SamePage s (s.work i) :=
  ⟨sameWorkers_work s i, rfl⟩

theorem samePage_deliver (s : CompilerService) (i : ℕ) : SamePage s (s.deliver i) := by
  refine ⟨sameWorkers_deliver s i, ?_⟩
  have hdelivers := delivers_deliver s i
  generalize s.deliver i = s' at hdelivers ⊢
  cases hdelivers <;> rfl

theorem samePage_microtask (s : CompilerService) (library : Library) :
    SamePage s (s.microtask library) := by
  have hgoesOn := goesOn_microtask s library
  generalize s.microtask library = s' at hgoesOn ⊢
  cases hgoesOn with
  | rests => exact ⟨.of_eq rfl, rfl⟩
  | @retries p answer rest =>
    have hstart := samePage_startRound { s with resolved := popped answer rest }
    exact ⟨(hstart _ _).workers, (hstart _ _).modes⟩
  | reports =>
    unfold CompilerService.report
    split <;> exact ⟨.of_eq rfl, rfl⟩

/-! ## A call that is under way -/

/-- What a round of the call is owed. -/
def CallRecord.owed (r : CallRecord) (ticket : Ticket) : Except Thrown Reply :=
  if ticket.retry then r.first.round r.sources else alone r.first r.second r.sources

/-- **One round of the call is under way**, and gets what it is owed: its
message is in the queues of its worker, which answers so, unless the worker
threw; or it has yet to go on. -/
structure Serves (r : CallRecord) (s : CompilerService) (p : Pending) : Prop where
  sources : p.ticket.retry = true → p.input.sources = r.sources
  place : (s.waiting = [p] ∧ s.resolved = [] ∧ ∃ (i : ℕ) (w : Worker), p.worker = some i ∧
      s.workers[i]? = some w ∧ compileSync w.effective p.input = r.owed p.ticket ∧
      (w.messages = [(p.ticket, p.input)] ∨ ∃ e, r.owed p.ticket = .error e)) ∨
    (s.waiting = [] ∧ ∃ answer, s.resolved = [(p, answer)] ∧ r.owed p.ticket = .ok answer.reply)
  events : r.events = if p.ticket.retry then [.started] else [.started, .started]
  rounds : r.rounds.length = s.resolved.length + if p.ticket.retry then 0 else 1
  latest : s.latest = r.before
  result : r.result = none

/-- **What a call that is over emitted**: two events `started` and one
`finished` where it has a result, and no `finished` where it has none. -/
structure CallRecord.Ended (r : CallRecord) : Prop where
  unfinished : r.result = none → .finished ∉ r.events
  finished : r.result ≠ none → r.events = [.started, .started, .finished] ∧ r.rounds.length = 2

/-- **The records are of calls that are over**, and leave this stored
result: each call came to what it comes to by itself. -/
def Recorded : List CallRecord → ICompilerResult → Prop
  | [], latest => latest = .initial
  | r :: older, latest => (r.result, latest) = r.comesTo ∧ r.Ended ∧ Recorded older r.before

/-- **A session and its records**: nothing is under way, or one round of the
last call is. -/
structure Recounted (x : Session) : Prop where
  ordered : Ordered x.service
  story : (x.service.Still ∧ Recorded x.records x.service.latest) ∨
    ∃ r older p, x.records = r :: older ∧ Serves r x.service p ∧ Recorded older r.before

section

variable {s s' : CompilerService} {r : CallRecord} {p : Pending}

/-- **A step beside the rounds**: a worker may lose a message, where its
compiler throws. -/
structure Beside (s s' : CompilerService) : Prop where
  waiting : s'.waiting = s.waiting
  resolved : s'.resolved = s.resolved
  latest : s'.latest = s.latest
  settled : s'.settled = s.settled
  events : s'.events = s.events
  completions : s'.completions = s.completions
  workers : ∀ (i : ℕ) (w : Worker), s.workers[i]? = some w → ∃ w' : Worker,
    s'.workers[i]? = some w' ∧ w'.effective = w.effective ∧
    (w'.messages = w.messages ∨ ∃ m ∈ w.messages, ∃ e, compileSync w.effective m.2 = .error e)

theorem Beside.of_workers (hworkers : s'.workers = s.workers)
    (h : (s'.waiting, s'.resolved, s'.latest, s'.settled, s'.events, s'.completions) =
      (s.waiting, s.resolved, s.latest, s.settled, s.events, s.completions)) : Beside s s' := by
  simp only [Prod.mk.injEq] at h
  obtain ⟨hwaiting, hresolved, hlatest, hsettled, hevents, hcompletions⟩ := h
  exact ⟨hwaiting, hresolved, hlatest, hsettled, hevents, hcompletions,
    fun i w hw => ⟨w, by rw [hworkers]; exact hw, rfl, .inl rfl⟩⟩

/-- Nothing is noted of it. -/
theorem Beside.extend (h : Beside s s') (r : CallRecord) : Session.extend s s' r = r := by
  simp [Session.extend, h.events, h.completions, h.settled]

/-- A round that is under way waits, or has yet to go on. -/
theorem Serves.not_still (h : Serves r s p) : ¬ s.Still := by
  rintro ⟨hnone, hnil⟩
  rcases h.place with ⟨hwaiting, -⟩ | ⟨-, answer, hresolved, -⟩
  · rw [hnone] at hwaiting
    cases hwaiting
  · rw [hnil] at hresolved
    cases hresolved

theorem Serves.beside (h : Serves r s p) (hbeside : Beside s s') : Serves r s' p where
  sources := h.sources
  place := by
    rw [hbeside.waiting, hbeside.resolved]
    refine h.place.imp ?_ id
    rintro ⟨hwaiting, hresolved, i, w, hi, hw, howed, hmessages⟩
    obtain ⟨w', hw', heff, hsame⟩ := hbeside.workers i w hw
    refine ⟨hwaiting, hresolved, i, w', hi, hw', by rwa [heff], ?_⟩
    rcases hmessages with hmessages | herror
    · rcases hsame with hsame | ⟨m, hm, e, hthrows⟩
      · exact .inl (hsame.trans hmessages)
      · rw [hmessages, List.mem_singleton] at hm
        rw [hm, howed] at hthrows
        exact .inr ⟨e, hthrows⟩
    · exact .inr herror
  events := h.events
  rounds := by rw [hbeside.resolved]; exact h.rounds
  latest := hbeside.latest.trans h.latest
  result := h.result

/-- **A session goes on beside its rounds.** -/
theorem Recounted.beside {x : Session} (h : Recounted x) {library : Library}
    (hordered : Ordered s') (hbeside : Beside x.service s') :
    Recounted ⟨s', library, x.records.modifyHead (Session.extend x.service s')⟩ := by
  have hrecords : x.records.modifyHead (Session.extend x.service s') = x.records := by
    have hextend : Session.extend x.service s' = id := funext hbeside.extend
    rw [hextend]
    cases x.records <;> rfl
  rw [hrecords]
  refine ⟨hordered, h.story.imp ?_ ?_⟩
  · rintro ⟨hstill, hrecorded⟩
    refine ⟨⟨hbeside.waiting.trans hstill.1, hbeside.resolved.trans hstill.2⟩, ?_⟩
    change Recorded x.records s'.latest
    rw [hbeside.latest]
    exact hrecorded
  · rintro ⟨r, older, p, heq, hserves, hrecorded⟩
    exact ⟨r, older, p, heq, hserves.beside hbeside, hrecorded⟩

/-! Workers handle messages, and compilers are loaded. -/

/-- A worker that is at a request has loaded. -/
theorem Worker.Sound.compile_eq {w : Worker} {input : CompilerInput} {ticket : Ticket}
    {inbox : List Request} (h : w.Sound)
    (hinbox : w.inbox = .compileRequest input ticket :: inbox) :
    w.compile = w.effective := by
  rcases h.loads with ⟨-, inbox', heq, -⟩ | ⟨-, hcompile⟩
  · rw [hinbox] at heq
    cases heq
  · exact hcompile

/-- A worker keeps its messages, unless its compiler throws at one. -/
theorem messages_work_cases {w : Worker} (h : w.Sound) : w.work.messages = w.messages ∨
    ∃ m ∈ w.messages, ∃ e, compileSync w.effective m.2 = .error e := by
  unfold Worker.work
  split
  · exact .inl rfl
  · next inbox hinbox =>
    split <;> exact .inl (by simp [Worker.messages, hinbox])
  · next input ticket inbox hinbox =>
    split
    · exact .inl (by simp [Worker.messages, hinbox])
    · next e hthrows =>
      rw [h.compile_eq hinbox] at hthrows
      exact .inr ⟨(ticket, input), by simp [Worker.messages, hinbox], e, hthrows⟩

theorem beside_work (h : Ordered s) (i : ℕ) : Beside s (s.work i) where
  waiting := rfl
  resolved := rfl
  latest := rfl
  settled := rfl
  events := rfl
  completions := rfl
  workers := fun j w hw => by
    refine ⟨if i = j then w.work else w, ?_, ?_, ?_⟩
    · simp only [CompilerService.work, List.getElem?_modify, hw]
      split_ifs <;> rfl
    · split_ifs
      · exact w.effective_work
      · rfl
    · split_ifs
      · exact messages_work_cases (h.sound j w hw)
      · exact .inl rfl

theorem beside_loadCompiler (s : CompilerService) (script : Option Compiler) :
    Beside s (s.loadCompiler script) := by
  unfold loadCompiler
  split
  · split
    · refine ⟨rfl, rfl, rfl, rfl, rfl, rfl, fun i w hw => ⟨w, ?_, rfl, .inl rfl⟩⟩
      rw [List.getElem?_append_left (List.getElem?_eq_some_iff.1 hw).1]
      exact hw
    · exact .of_workers rfl rfl
  · exact .of_workers rfl rfl

theorem beside_poll (s : CompilerService) (compiler : Compiler) : Beside s (s.poll compiler) := by
  unfold poll
  split <;> exact .of_workers rfl rfl

/-- **A message is delivered**: it is beside the rounds, or completes those
that wait. -/
theorem deliver_effect (s : CompilerService) (i : ℕ) : Beside s (s.deliver i) ∨
    ∃ answer, (s.deliver i).waiting = [] ∧
      (s.deliver i).resolved = s.resolved ++ s.waiting.map (fun p => (p, answer)) ∧
      (s.deliver i).completions = s.completions ++ s.waiting.map (fun p => (p, answer)) ∧
      (s.deliver i).latest = s.latest ∧ (s.deliver i).settled = s.settled ∧
      (s.deliver i).events = s.events := by
  have hdelivers := delivers_deliver s i
  generalize s.deliver i = s' at hdelivers ⊢
  cases hdelivers with
  | nothing => exact .inl (.of_workers rfl rfl)
  | @loaded w version outbox hw houtbox =>
    refine .inl ⟨rfl, rfl, rfl, rfl, rfl, rfl, fun j v hv => ?_⟩
    simp only [List.getElem?_set]
    split_ifs with hij hlt
    · subst hij
      obtain rfl : w = v := Option.some.inj (hw.symm.trans hv)
      exact ⟨_, rfl, rfl, .inl (by simp [Worker.messages, houtbox])⟩
    · exact absurd (List.getElem?_eq_some_iff.1 hw).1 hlt
    · exact ⟨v, hv, rfl, .inl rfl⟩
  | replied => exact .inr ⟨_, rfl, rfl, rfl, rfl, rfl, rfl⟩

/-- **A reply is delivered** to the round that waits. -/
theorem Serves.deliver (h : Serves r s p) (hordered : Ordered s) (i : ℕ) :
    Serves (Session.extend s (s.deliver i) r) (s.deliver i) p := by
  rcases deliver_effect s i with hbeside | ⟨answer, hwaiting, hresolved, hcompletions, hlatest,
    hsettled, hevents⟩
  · rw [hbeside.extend]
    exact h.beside hbeside
  · have hown := (ordered_deliver hordered i).own
    have hextend : Session.extend s (s.deliver i) r =
        { r with rounds := r.rounds ++ s.waiting.map fun p => (p, answer) } := by
      simp [Session.extend, hevents, hcompletions, hsettled]
    rw [hextend]
    constructor
    · exact h.sources
    · refine .inr ⟨hwaiting, ?_⟩
      rcases h.place with ⟨hwait, hnone, j, w, hj, hw, howed, -⟩ | ⟨hwait, answer', hone, howed⟩
      · -- the answer is the round's own, from the worker it waited for
        refine ⟨answer, by rw [hresolved, hnone, hwait]; rfl, ?_⟩
        have hmem : (p, answer) ∈ (s.deliver i).completions := by
          rw [hcompletions, hwait]
          exact List.mem_append_right _ List.mem_cons_self
        obtain ⟨w', hw', hreply⟩ := (hown _ hmem).computed j hj
        obtain ⟨w'', hw'', heff⟩ := sameWorkers_deliver s i j w hw
        obtain rfl : w'' = w' := Option.some.inj (hw''.symm.trans hw')
        rw [heff] at hreply
        exact howed.symm.trans hreply
      · exact ⟨answer', by rw [hresolved, hone, hwait]; rfl, howed⟩
    · exact h.events
    · have hrounds := h.rounds
      rw [hresolved, List.length_append, List.length_append, List.length_map, hrounds]
      omega
    · exact hlatest.trans h.latest
    · exact h.result

/-! A round is begun, and goes on. -/

/-- A call a round of which is owed nothing comes to nothing. -/
theorem comesTo_of_owed_error {ticket : Ticket} {e : Thrown} (h : r.owed ticket = .error e) :
    r.comesTo = (none, r.before) := by
  have halone : ∃ e, alone r.first r.second r.sources = .error e := by
    unfold CallRecord.owed at h
    split_ifs at h
    · exact ⟨e, by simp only [alone, h]⟩
    · exact ⟨e, h⟩
  obtain ⟨e, halone⟩ := halone
  simp only [CallRecord.comesTo, halone]

/-- A call before a round of it is begun. -/
structure Startable (r : CallRecord) (s : CompilerService) (ticket : Ticket) (sources : Sources) :
    Prop where
  ordered : Ordered s
  still : s.Still
  latest : s.latest = r.before
  result : r.result = none
  events : r.events = if ticket.retry then [] else [.started]
  rounds : r.rounds.length = if ticket.retry then 0 else 1
  given : ticket.retry = true → sources = r.sources
  owed : ∃ library, r.owed ticket = Setting.round ⟨s.compiler, s.optimize, library⟩ sources

/-- **A call is over, or one round of it is under way.** -/
def Stage (r : CallRecord) (s : CompilerService) : Prop :=
  (s.Still ∧ (r.result, s.latest) = r.comesTo ∧ r.Ended) ∨ ∃ p, Serves r s p

theorem Startable.started {ticket : Ticket} {sources : Sources} (h : Startable r s ticket sources) :
    r.events ++ [.started] = if ticket.retry then [.started] else [.started, .started] := by
  rw [h.events]
  split_ifs <;> rfl

/-- **A round is rejected**, and the call is over. -/
theorem stage_rejected {ticket : Ticket} {sources : Sources} (h : Startable r s ticket sources)
    (haccepts : s.accepts sources = false) :
    Stage (Session.extend s (s.startRound ticket sources) r) (s.startRound ticket sources) := by
  rw [startRound_of_not_accepts haccepts]
  have hextend : Session.extend s { s with events := s.events ++ [.started] } r =
      { r with events := r.events ++ [.started] } := by
    simp [Session.extend]
  -- what is owed is the round that is rejected
  obtain ⟨library, howed⟩ := h.owed
  obtain ⟨e, hround⟩ := round_of_not_accepts haccepts library
  have hcomesTo := comesTo_of_owed_error (howed.trans hround)
  rw [hextend, h.started]
  refine .inl ⟨h.still, ?_, fun _ => ?_, fun hne => absurd h.result hne⟩
  · change (r.result, s.latest) = r.comesTo
    rw [hcomesTo, h.result, h.latest]
  · change CompilationEvent.finished ∉ if ticket.retry then [.started] else [.started, .started]
    split_ifs <;> decide

/-- **A round is posted** to the worker in use, whose queues are empty. -/
theorem serves_posted {ticket : Ticket} {sources : Sources} (h : Startable r s ticket sources)
    {i : ℕ} (hi : s.webWorker = some i)
    (hcompiler : s.compiler = (s.workers[i]?).map Worker.effective)
    (hposted : s.startRound ticket sources = { s with
      workers := s.workers.modify i (Worker.post · (.compileRequest ⟨sources, s.optimize⟩ ticket))
      waiting := s.waiting ++ [⟨ticket, ⟨sources, s.optimize⟩, some i⟩]
      events := s.events ++ [.started] }) :
    Serves (Session.extend s (s.startRound ticket sources) r) (s.startRound ticket sources)
      ⟨ticket, ⟨sources, s.optimize⟩, some i⟩ := by
  obtain ⟨hwaiting, hresolved⟩ := h.still
  obtain ⟨w, hw⟩ : ∃ w, s.workers[i]? = some w :=
    ⟨_, List.getElem?_eq_getElem (h.ordered.current i hi)⟩
  have hquiet : w.messages = [] := h.ordered.quiet hwaiting hw
  obtain ⟨library, howed⟩ := h.owed
  have hround : r.owed ticket = compileSync w.effective ⟨sources, s.optimize⟩ := by
    rw [howed, Setting.round, hcompiler, hw]
    rfl
  rw [hposted]
  refine ⟨h.given, .inl ?_, ?_, ?_, h.latest, ?_⟩
  · refine ⟨by rw [hwaiting]; rfl, hresolved, i,
      w.post (.compileRequest ⟨sources, s.optimize⟩ ticket), rfl, ?_, hround.symm, .inl ?_⟩
    · simp [hw]
    · rw [Worker.messages_post, hquiet]
      rfl
  · simpa [Session.extend] using h.started
  · simpa [Session.extend, hresolved] using h.rounds
  · simpa [Session.extend] using h.result

/-- **A round is answered on the spot**, and has yet to go on. -/
theorem serves_answered {ticket : Ticket} {sources : Sources} (h : Startable r s ticket sources)
    {c : Solc} {reply : Reply} (hcompiler : s.compiler = some c)
    (hreply : compileSync c ⟨sources, s.optimize⟩ = .ok reply)
    (hanswered : s.startRound ticket sources = { s.complete
      [⟨ticket, ⟨sources, s.optimize⟩, none⟩] ⟨reply, ⟨sources, s.optimize⟩, ticket, none⟩ with
      events := s.events ++ [.started] }) :
    Serves (Session.extend s (s.startRound ticket sources) r) (s.startRound ticket sources)
      ⟨ticket, ⟨sources, s.optimize⟩, none⟩ := by
  obtain ⟨hwaiting, hresolved⟩ := h.still
  obtain ⟨library, howed⟩ := h.owed
  have hround : r.owed ticket = .ok reply := by
    rw [howed, Setting.round, hcompiler]
    exact hreply
  rw [hanswered]
  refine ⟨h.given, .inr ⟨hwaiting, ⟨reply, ⟨sources, s.optimize⟩, ticket, none⟩, ?_, hround⟩,
    ?_, ?_, h.latest, ?_⟩
  · simp [complete, hresolved]
  · simpa [Session.extend, complete] using h.started
  · have hrounds := h.rounds
    simp only [Session.extend, complete, hresolved, List.drop_left, List.length_append,
      List.length_map, List.length_singleton, List.length_nil, hrounds]
    omega
  · simpa [Session.extend, complete] using h.result

/-- **A round is begun.** Where it is rejected the call is over. -/
theorem stage_startRound {ticket : Ticket} {sources : Sources} (h : Startable r s ticket sources) :
    Stage (Session.extend s (s.startRound ticket sources) r) (s.startRound ticket sources) := by
  cases haccepts : s.accepts sources with
  | false => exact stage_rejected h haccepts
  | true =>
    rcases startRound_of_accepts haccepts ticket with ⟨i, hi, hcompiler, hposted⟩ |
      ⟨c, reply, hcompiler, hreply, hanswered⟩
    · exact .inr ⟨_, serves_posted h hi hcompiler hposted⟩
    · exact .inr ⟨_, serves_answered h hcompiler hreply hanswered⟩

/-- A reply always has its array of missing inputs. -/
theorem missingInputs_of_round {setting : Setting} {sources : Sources} {reply : Reply}
    (h : setting.round sources = .ok reply) :
    ∃ missingInputs, reply.missingInputs = some missingInputs := by
  unfold Setting.round compileSync at h
  split at h
  · next c _ =>
    rcases hc : c ⟨sources, setting.optimize⟩ with e | ⟨result, missingInputs⟩
    · rw [hc] at h
      cases h
    · rw [hc] at h
      exact ⟨missingInputs, by rw [← Except.ok.inj h]⟩
  · cases h

/-- **The last reply is reported**, and the call is over. -/
theorem stage_report {answer : Answer} (h : Serves r s p) (hwaiting : s.waiting = [])
    (hresolved : s.resolved = [(p, answer)]) (hretry : p.ticket.retry = false)
    (howed : r.owed p.ticket = .ok answer.reply) :
    Stage (Session.extend s ({ s with resolved := [] }.report p.ticket.call answer.reply) r)
      ({ s with resolved := [] }.report p.ticket.call answer.reply) := by
  have hevents : r.events = [.started, .started] := by simpa [hretry] using h.events
  have hrounds : r.rounds.length = 2 := by simpa [hretry, hresolved] using h.rounds
  have halone : alone r.first r.second r.sources = .ok answer.reply := by
    simpa [CallRecord.owed, hretry] using howed
  have hcomesTo : r.comesTo = match parseCompilationResult answer.reply.result s.latest with
      | .ok _ latest => (some latest, latest)
      | .error _ latest => (none, latest) := by
    simp only [CallRecord.comesTo, halone, h.latest]
  simp only [CompilerService.report]
  rcases hparse : parseCompilationResult answer.reply.result s.latest with
    ⟨_, latest⟩ | ⟨e, latest⟩
  · rw [hparse] at hcomesTo
    refine .inl ⟨⟨hwaiting, rfl⟩, ?_, ?_, ?_⟩
    · simpa [Session.extend, CallRecord.comesTo] using hcomesTo.symm
    · simp [Session.extend]
    · simp [Session.extend, hevents, hrounds]
  · rw [hparse] at hcomesTo
    refine .inl ⟨⟨hwaiting, rfl⟩, ?_, ?_, ?_⟩
    · simpa [Session.extend, CallRecord.comesTo, h.result] using hcomesTo.symm
    · simp [Session.extend, hevents]
    · simp [Session.extend, h.result]

/-- **The first round goes on**: it was answered, so what the call is owed
is the second one. -/
theorem stage_second {x : Session} {answer : Answer} {missingInputs : List String}
    (h : Serves r x.service p) (hordered : Ordered x.service) (hwaiting : x.service.waiting = [])
    (hresolved : x.service.resolved = [(p, answer)])
    (hmissing : answer.reply.missingInputs = some missingInputs) (hretry : p.ticket.retry = true)
    (howed : r.owed p.ticket = .ok answer.reply) :
    Stage (Session.extend x.service ({ x.service with resolved := [] }.startRound
        ⟨p.ticket.call, false⟩ (gatherImports x.library p.input.sources missingInputs))
        { r with second := x.setting })
      ({ x.service with resolved := [] }.startRound ⟨p.ticket.call, false⟩
        (gatherImports x.library p.input.sources missingInputs)) := by
  have hstill : { x.service with resolved := [] }.Still := ⟨hwaiting, rfl⟩
  have hordered' : Ordered { x.service with resolved := [] } :=
    hordered.setResolved (hstill.idle.trans_le (Nat.zero_le 1))
  have hfirst : r.first.round r.sources = .ok answer.reply := by
    simpa [CallRecord.owed, hretry] using howed
  refine stage_startRound ⟨hordered', hstill, h.latest, h.result, ?_, ?_,
    (absurd · Bool.false_ne_true), x.library, ?_⟩
  · simpa [hretry] using h.events
  · simpa [hretry, hresolved] using h.rounds
  · simp only [CallRecord.owed, Bool.false_eq_true, if_false, alone, hfirst, hmissing]
    rw [h.sources hretry]
    rfl

/-- The round that goes on is the one there is. -/
theorem Serves.of_resolved {p' : Pending} {answer : Answer} {rest : List (Pending × Answer)}
    (h : Serves r s p) (hresolved : s.resolved = (p', answer) :: rest) :
    s.waiting = [] ∧ p' = p ∧ rest = [] ∧ r.owed p.ticket = .ok answer.reply := by
  rcases h.place with ⟨-, hnone, -⟩ | ⟨hwaiting, answer', hone, howed⟩
  · rw [hnone] at hresolved
    cases hresolved
  · rw [hone] at hresolved
    obtain ⟨hhead, hrest⟩ := List.cons.inj hresolved
    obtain ⟨hp, hanswer⟩ := Prod.mk.inj hhead
    exact ⟨hwaiting, hp.symm, hrest.symm, hanswer ▸ howed⟩

/-- **A round goes on.** -/
theorem Serves.microtask {x : Session} (h : Serves r x.service p) (hordered : Ordered x.service) :
    Stage (Session.extend x.service (x.service.microtask x.library) (x.gather r))
      (x.service.microtask x.library) := by
  have hgoesOn := goesOn_microtask x.service x.library
  generalize x.service.microtask x.library = s' at hgoesOn ⊢
  cases hgoesOn with
  | rests hnone =>
    -- it waits
    have hgather : x.gather r = r := by simp only [Session.gather, hnone]
    rw [hgather, (Beside.of_workers rfl rfl : Beside x.service x.service).extend]
    exact .inr ⟨p, h⟩
  | retries hresolved hmissing hretry =>
    obtain ⟨hwaiting, rfl, rfl, howed⟩ := h.of_resolved hresolved
    have hgather : x.gather r = { r with second := x.setting } := by
      simp [Session.gather, hresolved, hretry]
    rw [hgather]
    exact stage_second h hordered hwaiting hresolved hmissing hretry howed
  | @reports last answer rest hresolved hlast =>
    obtain ⟨hwaiting, rfl, rfl, howed⟩ := h.of_resolved hresolved
    -- a first round has its array, so this is the second one
    have hretry : last.ticket.retry = false := by
      by_contra hfirst
      rw [CallRecord.owed, if_pos (by simpa using hfirst)] at howed
      obtain ⟨missingInputs, hmissing⟩ := missingInputs_of_round howed
      rcases hlast with hnone | hfalse
      · rw [hnone] at hmissing
        cases hmissing
      · exact hfirst hfalse
    have hgather : x.gather r = r := by simp [Session.gather, hresolved, hretry]
    rw [hgather]
    exact stage_report h hwaiting hresolved hretry howed

end

/-! ## Runs -/

/-- The last record, and the stored result it starts from. -/
theorem Recounted.of_stage {s : CompilerService} {library : Library} {r : CallRecord}
    {older : List CallRecord} (hordered : Ordered s) (hstage : Stage r s)
    (holder : Recorded older r.before) : Recounted ⟨s, library, r :: older⟩ := by
  refine ⟨hordered, ?_⟩
  rcases hstage with ⟨hstill, hcomesTo, hended⟩ | ⟨p, hserves⟩
  · exact .inl ⟨hstill, hcomesTo, hended, holder⟩
  · exact .inr ⟨r, older, p, rfl, hserves, holder⟩

theorem recounted_compile {x : Session} (h : Recounted x) (hstill : x.service.Still)
    (sources : Sources) : Recounted (sessionDesk.step x (.compile sources)) := by
  have hrecorded : Recorded x.records x.service.latest := by
    rcases h.story with ⟨-, hrecorded⟩ | ⟨r, older, p, -, hserves, -⟩
    · exact hrecorded
    · exact absurd hstill hserves.not_still
  have hstartable : Startable (x.newRecord sources) { x.service with calls := x.service.calls + 1 }
      ⟨x.service.calls, true⟩ sources :=
    ⟨h.ordered.congr rfl, hstill, rfl, rfl, rfl, rfl, fun _ => rfl, x.library, rfl⟩
  exact .of_stage (ordered_compile h.ordered hstill.idle sources) (stage_startRound hstartable)
    hrecorded

theorem recounted_microtask {x : Session} (h : Recounted x) :
    Recounted (sessionDesk.step x .microtask) := by
  have hordered := ordered_microtask h.ordered x.library
  rcases h.story with ⟨hstill, hrecorded⟩ | ⟨r, older, p, hrecords, hserves, holder⟩
  · have hsame : x.service.microtask x.library = x.service := by
      simp only [CompilerService.microtask, hstill.2]
    have hnote : x.note x.service .microtask = x.records := by
      have hextend : ∀ r, Session.extend x.service x.service (x.gather r) = r := by
        intro r
        simp [Session.extend, Session.gather, hstill.2]
      simp only [Session.note, hextend]
      cases x.records <;> rfl
    change Recounted ⟨x.service.microtask x.library, x.library,
      x.note (x.service.microtask x.library) .microtask⟩
    rw [hsame, hnote]
    exact ⟨h.ordered, .inl ⟨hstill, hrecorded⟩⟩
  · have hnote : x.note (x.service.microtask x.library) .microtask =
        Session.extend x.service (x.service.microtask x.library) (x.gather r) :: older := by
      rw [Session.note, hrecords]
      rfl
    change Recounted ⟨_, _, x.note (x.service.microtask x.library) .microtask⟩
    rw [hnote]
    refine .of_stage hordered (hserves.microtask h.ordered) ?_
    have hbefore : (x.gather r).before = r.before := by
      unfold Session.gather
      split
      · rfl
      · split_ifs <;> rfl
    exact (congrArg (Recorded older) hbefore).mpr holder

theorem recounted_deliver {x : Session} (h : Recounted x) (i : ℕ) :
    Recounted (sessionDesk.step x (.deliver i)) := by
  have hordered := ordered_deliver h.ordered i
  rcases h.story with ⟨hstill, hrecorded⟩ | ⟨r, older, p, hrecords, hserves, holder⟩
  · rcases deliver_effect x.service i with hbeside | ⟨answer, hwaiting, hresolved, hcompletions,
      hlatest, hsettled, hevents⟩
    · exact h.beside hordered hbeside
    · rw [hstill.1, List.map_nil, List.append_nil] at hresolved hcompletions
      have hextend : Session.extend x.service (x.service.deliver i) = id := by
        funext r
        simp [Session.extend, hevents, hcompletions, hsettled]
      change Recounted ⟨_, _, x.records.modifyHead (Session.extend x.service (x.service.deliver i))⟩
      rw [hextend]
      refine ⟨hordered, .inl ⟨⟨hwaiting, hresolved.trans hstill.2⟩, ?_⟩⟩
      change Recorded (x.records.modifyHead id) (x.service.deliver i).latest
      rw [hlatest]
      cases hrecords : x.records with
      | nil => rwa [hrecords] at hrecorded
      | cons r older => rwa [hrecords] at hrecorded
  · change Recounted ⟨_, _, x.records.modifyHead (Session.extend x.service (x.service.deliver i))⟩
    rw [hrecords]
    exact .of_stage hordered (.inr ⟨p, hserves.deliver h.ordered i⟩) holder

/-- **A step of a session keeps its records.** -/
theorem recounted_step {x : Session} {e : SessionEvent} (h : Recounted x)
    (hen : sessionDesk.enabled x e) : Recounted (sessionDesk.step x e) := by
  cases e with
  | compile sources => exact recounted_compile h hen sources
  | microtask => exact recounted_microtask h
  | deliver i => exact recounted_deliver h i
  | loadCompiler script =>
    exact h.beside (ordered_loadCompiler h.ordered script) (beside_loadCompiler _ script)
  | poll compiler => exact h.beside (ordered_poll h.ordered compiler) (beside_poll _ compiler)
  | setOptimize optimize => exact h.beside (h.ordered.congr rfl) (.of_workers rfl rfl)
  | change library => exact h.beside h.ordered (.of_workers rfl rfl)
  | work i => exact h.beside (ordered_work h.ordered i) (beside_work h.ordered i)

/-- **In every session each call came to what it comes to by itself.** -/
theorem recounted_of_reachable {x : Session} (h : sessionDesk.Reachable x) : Recounted x := by
  refine h.invariant (I := Recounted) ?_ fun x e hx he => recounted_step hx he
  rintro _ ⟨hasWorker, useWebWorker, optimize, library, rfl⟩
  exact ⟨ordered_new _ _ _, .inl ⟨⟨rfl, rfl⟩, rfl⟩⟩

end Hmix
