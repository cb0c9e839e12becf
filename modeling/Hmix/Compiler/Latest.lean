import Hmix.Compiler.Imports
import Hmix.Compiler.Tab

/-!
# What the tab shows in the end

The tab is watched together with its last request. A round that goes on
begins the next one, which is owed what the request comes to with the files
there are by then, or is reported. So while requests do not overlap, what
is shown once the request settles is made of its own output.
-/

namespace Hmix

open CompilerService

/-! ## The tab -/

namespace CompileTab

/-- The page, as a round that begins now has it. -/
def setting (t : CompileTab) : Setting where
  compiler := t.service.compiler
  optimize := t.service.optimize
  library := t.workspace.library

/-- The last request, once `compile` was called: with no file selected it
makes none. -/
def request (t : CompileTab) (job : Option Job) : Option Job :=
  match t.workspace.selectedFile with
  | none => job
  | some selectedFile =>
    some ⟨t.service.calls, t.sources selectedFile, t.setting, t.setting⟩

/-- The last request, once a round went on: its imports are gathered if it
is its first. -/
def gather (t : CompileTab) (job : Option Job) : Option Job :=
  match t.service.resolved with
  | [] => job
  | (p, _) :: _ => job.map fun job =>
    if p.ticket = ⟨job.call, true⟩ then { job with second := t.setting } else job

/-- The last request, after an event. -/
def watch (t : CompileTab) (job : Option Job) : TabEvent → Option Job
  | .press | .timeout => t.request job
  | .notified => if t.subsInitialized then t.request job else job
  | .microtask => if t.service.loaded = 0 then t.gather job else t.request job
  | _ => job

/-- **The tab shows what the request comes to by itself.** -/
def Shows (t : CompileTab) (job : Job) : Prop :=
  t.compiling = false ∧ ∃ reply, ∃ output : CompilerOutput, job.alone = .ok reply ∧
    reply.result = .json output.json ∧ t.errors = output.errors ∧ t.contracts = output.contracts

end CompileTab

namespace CompilerService

/-- The reply that is reported next, if one is, replaces the contracts there
are. -/
def Replaces (s : CompilerService) : Prop :=
  ∀ c ∈ s.resolved.head?, c.2.reply.missingInputs = none ∨ c.1.ticket.retry = false →
    ∀ output : CompilerOutput, c.2.reply.result = .json output.json →
      output.HasContracts ∨ s.latest.contracts = []

/-- Whether an output has a map of contracts is read off its text. -/
theorem replaces_of_output {s : CompilerService} {c : Pending × Answer} {output : CompilerOutput}
    (hhead : s.resolved.head? = some c) (hresult : c.2.reply.result = .json output.json)
    (hhas : output.HasContracts) : s.Replaces := by
  intro c' hc' _ output' hresult'
  obtain rfl : c = c' := Option.some.inj (hhead.symm.trans hc')
  have hjson : output'.json = output.json := Text.json.inj (hresult'.symm.trans hresult)
  refine .inl ?_
  unfold CompilerOutput.HasContracts
  rw [hjson]
  exact hhas

/-- A well-formed output settles its call. -/
theorem report_json {s : CompilerService} {call : ℕ} {reply : Reply} {output : CompilerOutput}
    (h : reply.result = .json output.json) : s.report call reply = { s with
      latest := s.latest.next output
      events := s.events ++ [.finished]
      settled := s.settled ++ [call] } := by
  obtain ⟨_, latest, hparse, -⟩ := (parseCompilationResult_spec output s.latest).returns
  simp only [CompilerService.report, h, hparse, ICompilerResult.next, after]

/-- Text that cannot be read leaves everything as it was. -/
theorem report_raw {s : CompilerService} {call : ℕ} {reply : Reply} {text : String}
    (h : reply.result = .raw text) : s.report call reply = s := by
  rw [CompilerService.report, h]
  rfl

end CompilerService

open CompileTab

/-! ## One step -/

/-- **The tab follows its last request.** -/
structure UpToDate (t : CompileTab) (job : Option Job) : Prop where
  ordered : Ordered t.service
  honest : HonestCompilers t.service
  last : ∀ j, job = some j → j.call < t.service.calls
  settled : ∀ call ∈ t.service.settled, call < t.service.calls
  rounds : t.service.Still ∨ ∃ j, job = some j ∧ Follows j t.service
  shown : ∀ j, job = some j → j.call ∈ t.service.settled → t.service.Still ∧ t.Shows j
  loading : t.loadingCompiler = true → 0 < t.service.loads

section

variable {t : CompileTab} {job : Option Job}

/-- What the service does by itself. -/
theorem UpToDate.service {s' : CompilerService} {loading : Bool} (h : UpToDate t job)
    (hordered : Ordered s') (hhonest : HonestCompilers s') (hbooks : SameBooks t.service s')
    (hloads : loading = true → 0 < s'.loads) (hstill : t.service.Still → s'.Still)
    (hfollows : ∀ j, Follows j t.service → Follows j s') :
    UpToDate { t with loadingCompiler := loading, service := s' } job where
  ordered := hordered
  honest := hhonest
  last := fun j hj => by
    change j.call < s'.calls
    rw [hbooks.calls]
    exact h.last j hj
  settled := by
    change ∀ call ∈ s'.settled, call < s'.calls
    rw [hbooks.settled, hbooks.calls]
    exact h.settled
  rounds := h.rounds.imp hstill fun ⟨j, hj, hfollow⟩ => ⟨j, hj, hfollows j hfollow⟩
  shown := fun j hj hcall => by
    change j.call ∈ s'.settled at hcall
    rw [hbooks.settled] at hcall
    obtain ⟨hquiet, hcompiling, reply, output, halone, hreply, herrors, hcontracts⟩ :=
      h.shown j hj hcall
    refine ⟨hstill hquiet, hcompiling, reply, output, halone, hreply, ?_, ?_⟩
    · rw [← herrors, CompileTab.errors, CompileTab.errors, hbooks.latest]
    · rw [← hcontracts, CompileTab.contracts, CompileTab.contracts, hbooks.latest]
  loading := hloads

/-- What leaves the rounds as they are. -/
theorem UpToDate.sameRounds {s' : CompilerService} {loading : Bool} (h : UpToDate t job)
    (hordered : Ordered s') (hhonest : HonestCompilers s') (hbooks : SameBooks t.service s')
    (hloads : loading = true → 0 < s'.loads) (hrounds : SameRounds t.service s') :
    UpToDate { t with loadingCompiler := loading, service := s' } job :=
  h.service hordered hhonest hbooks hloads (fun hstill => hstill.congr hrounds)
    fun _ hfollow => hfollow.congr hrounds

/-- **A round of a request may begin**: there is no other, and the request
is counted and not settled. -/
structure Free (s : CompilerService) (job : Job) : Prop where
  ordered : Ordered s
  honest : HonestCompilers s
  still : s.Still
  last : job.call < s.calls
  settled : ∀ call ∈ s.settled, call < s.calls
  unsettled : job.call ∉ s.settled

/-- **A round is begun**, and the request is the last one. -/
theorem upToDate_begins {s s' : CompilerService} {j : Job} {ticket : Ticket}
    {input : CompilerInput} (hfree : Free s j) (hbegins : Begins s ticket input s')
    (hloading : t.loadingCompiler = true → 0 < s.loads) (hcall : ticket.call = j.call)
    (hsources : ticket.retry = true → input.sources = j.sources)
    (howed : ∀ compiler, s.compiler = some compiler →
      compileSync compiler input = j.owed ticket) :
    UpToDate { t with service := s' } (some j) := by
  have hbooks : SameBooks s s' := hbegins.sameBooks
  have hlast : j.call < s'.calls := by
    rw [hbooks.calls]
    exact hfree.last
  have hunsettled : j.call ∉ s'.settled := by
    rw [hbooks.settled]
    exact hfree.unsettled
  have hfollows : Follows j s' :=
    follows_begins hfree.still hfree.ordered hfree.honest hcall hsources howed hbegins
  constructor
  · exact ordered_begins hfree.ordered hfree.still.idle hbegins
  · exact hbegins.honestCompilers hfree.honest hfree.ordered
  · rintro i hi
    obtain rfl := Option.some.inj hi
    exact hlast
  · intro call hmem
    change call ∈ s'.settled at hmem
    rw [hbooks.settled] at hmem
    exact hbooks.calls ▸ hfree.settled call hmem
  · exact .inr ⟨j, rfl, hfollows⟩
  · rintro i hi hmem
    obtain rfl := Option.some.inj hi
    exact absurd hmem hunsettled
  · intro h
    exact hbegins.loads ▸ hloading h

/-- **A request is made.** -/
theorem upToDate_compile (h : UpToDate t job)
    (hstill : t.workspace.selectedFile ≠ none → t.service.Still) :
    UpToDate t.compile (t.request job) := by
  rcases hselected : t.workspace.selectedFile with - | selectedFile
  · simpa only [CompileTab.compile, request, hselected] using h
  simp only [CompileTab.compile, request, hselected]
  -- the call has a new number
  have hfree : Free { t.service with calls := t.service.calls + 1 }
      ⟨t.service.calls, t.sources selectedFile, t.setting, t.setting⟩ := by
    refine ⟨h.ordered.congr rfl, ⟨h.honest.sync, h.honest.worker⟩, ?_, Nat.lt_succ_self _, ?_, ?_⟩
    · exact hstill (by rw [hselected]; exact Option.some_ne_none _)
    · exact fun call hmem => Nat.lt_succ_of_lt (h.settled call hmem)
    · exact fun hmem => absurd (h.settled _ hmem) (Nat.lt_irrefl _)
  refine upToDate_begins (t := { t with compiling := true }) hfree
    (begins_startRound _ ⟨t.service.calls, true⟩ _) h.loading rfl (fun _ => rfl) ?_
  intro compiler hcompiler
  have hsetting : t.setting.compiler = some compiler := hcompiler
  simp only [Job.owed, if_true, Setting.round, hsetting]
  rfl

/-- **A compiler is loaded**: a request is made. -/
theorem upToDate_whenLoaded (h : UpToDate t job)
    (hstill : t.workspace.selectedFile ≠ none → t.service.Still) :
    UpToDate t.whenLoaded (t.request job) := by
  have h' : UpToDate { t with
      loadingCompiler := false
      service := { t.service with loaded := t.service.loaded - 1 } } job :=
    ⟨h.ordered.congr rfl, ⟨h.honest.sync, h.honest.worker⟩, h.last, h.settled,
      h.rounds.imp id fun ⟨j, hj, hfollow⟩ => ⟨j, hj, hfollow.congr ⟨.of_eq rfl, rfl, rfl⟩⟩,
      h.shown, nofun⟩
  have hcompile := upToDate_compile h' hstill
  exact ⟨hcompile.ordered, hcompile.honest, hcompile.last, hcompile.settled, hcompile.rounds,
    hcompile.shown, hcompile.loading⟩

/-- Where a round goes on that settles no call, the service is all that
changes. -/
theorem goOn_eq_of_settled {s' : CompilerService}
    (hmicrotask : t.service.microtask t.workspace.library = s')
    (hsettled : s'.settled = t.service.settled) : t.goOn = { t with service := s' } := by
  simp only [CompileTab.goOn, hmicrotask, hsettled, if_true]

/-- Where it settles a call, the tab takes the result. -/
theorem goOn_eq_of_settles {s' : CompilerService} {call : ℕ}
    (hmicrotask : t.service.microtask t.workspace.library = s')
    (hsettled : s'.settled = t.service.settled ++ [call]) :
    t.goOn = { t with service := s', hasResult := true, compiling := false } := by
  have hlength : s'.settled.length ≠ t.service.settled.length := by
    rw [hsettled, List.length_append, List.length_singleton]
    exact Nat.succ_ne_self _
  simp only [CompileTab.goOn, hmicrotask, if_neg hlength]

/-- **The one round there is.** The request it is of is not settled. -/
structure Due (t : CompileTab) (job : Job) (p : Pending) (answer : Answer) : Prop where
  waiting : t.service.waiting = []
  resolved : t.service.resolved = [(p, answer)]
  call : p.ticket.call = job.call
  sources : p.ticket.retry = true → p.input.sources = job.sources
  owed : job.owed p.ticket = .ok answer.reply
  readable : Readable answer.reply.result
  unsettled : job.call ∉ t.service.settled

theorem due_of_resolved {p : Pending} {answer : Answer} {rest : List (Pending × Answer)}
    (h : UpToDate t job) (hresolved : t.service.resolved = (p, answer) :: rest) :
    ∃ j, job = some j ∧ Due t j p answer := by
  obtain ⟨j, rfl, hfollow⟩ : ∃ j, job = some j ∧ Follows j t.service := by
    refine h.rounds.resolve_left fun hstill => ?_
    rw [hstill.2] at hresolved
    cases hresolved
  have hfew := hfollow.few
  rw [hresolved, List.length_cons] at hfew
  obtain rfl : rest = [] := List.length_eq_zero_iff.1 (by omega)
  have hmem : (p, answer) ∈ t.service.resolved := by
    rw [hresolved]
    exact List.mem_cons_self
  have hround : p ∈ t.service.waiting ++ t.service.resolved.map Prod.fst :=
    List.mem_append_right _ (List.mem_map_of_mem (f := Prod.fst) hmem)
  refine ⟨j, rfl, List.length_eq_zero_iff.1 (by omega), hresolved, hfollow.call p hround,
    hfollow.sources p hround, (hfollow.resolved _ hmem).1, (hfollow.resolved _ hmem).2, ?_⟩
  intro hsettled
  rw [(h.shown j rfl hsettled).1.2] at hresolved
  cases hresolved

variable {j : Job} {p : Pending} {answer : Answer}

/-- **The first round goes on**: the imports are gathered, and the second one
is begun. -/
theorem upToDate_second (h : UpToDate t (some j)) (hdue : Due t j p answer)
    {missingInputs : List String} (hmissing : answer.reply.missingInputs = some missingInputs)
    (hretry : p.ticket.retry = true)
    (hmicrotask : t.service.microtask t.workspace.library =
      { t.service with resolved := [] }.startRound ⟨p.ticket.call, false⟩
        (gatherImports t.workspace.library p.input.sources missingInputs)) :
    UpToDate t.goOn (some { j with second := t.setting }) := by
  have hstill : { t.service with resolved := [] }.Still := ⟨hdue.waiting, rfl⟩
  have hfree : Free { t.service with resolved := [] } { j with second := t.setting } :=
    ⟨h.ordered.setResolved (hstill.idle.trans_le (Nat.zero_le 1)),
      ⟨h.honest.sync, h.honest.worker⟩, hstill, h.last j rfl, h.settled, hdue.unsettled⟩
  have hbegins := begins_startRound { t.service with resolved := [] } ⟨p.ticket.call, false⟩
    (gatherImports t.workspace.library p.input.sources missingInputs)
  rw [goOn_eq_of_settled hmicrotask hbegins.sameBooks.settled]
  refine upToDate_begins hfree hbegins h.loading hdue.call nofun ?_
  -- the first round was answered, so what is owed is the second one
  intro compiler hcompiler
  have hfirst : j.first.round j.sources = .ok answer.reply := by
    simpa only [Job.owed, hretry, if_true] using hdue.owed
  have hsetting : t.setting.compiler = some compiler := hcompiler
  simp only [Job.owed, Bool.false_eq_true, if_false, Job.alone, alone, hfirst, hmissing]
  simp only [Setting.round, hsetting, hdue.sources hretry]
  rfl

/-- **A last round goes on**: its reply is reported, and is what is shown. -/
theorem upToDate_report {j' : Job} (h : UpToDate t (some j)) (hdue : Due t j p answer)
    (hcall : j'.call = j.call) (halone : j'.alone = .ok answer.reply)
    (hreplaces : ∀ output : CompilerOutput, answer.reply.result = .json output.json →
      output.HasContracts ∨ t.service.latest.contracts = [])
    (hmicrotask : t.service.microtask t.workspace.library =
      { t.service with resolved := [] }.report p.ticket.call answer.reply) :
    UpToDate t.goOn (some j') := by
  have hordered := ordered_microtask h.ordered t.workspace.library
  have hlast : ∀ i, some j' = some i → i.call < t.service.calls := by
    rintro i hi
    obtain rfl := Option.some.inj hi
    exact hcall ▸ h.last j rfl
  rcases hdue.readable with ⟨output, hresult⟩ | ⟨text, hresult⟩
  · rw [report_json hresult] at hmicrotask
    rw [hmicrotask] at hordered
    rw [goOn_eq_of_settles hmicrotask rfl]
    have hstill : t.service.waiting = [] ∧ ([] : List (Pending × Answer)) = [] :=
      ⟨hdue.waiting, rfl⟩
    refine ⟨hordered, ⟨h.honest.sync, h.honest.worker⟩, hlast, fun call hmem => ?_, .inl hstill,
      fun i hi _ => ?_, h.loading⟩
    · rcases List.mem_append.1 hmem with hmem | hmem
      · exact h.settled call hmem
      · rw [List.mem_singleton.1 hmem, hdue.call]
        exact h.last j rfl
    · obtain rfl := Option.some.inj hi
      obtain ⟨hcontracts, herrors⟩ := (next_isOf_iff _ output).2 (hreplaces output hresult)
      exact ⟨hstill, rfl, answer.reply, output, halone, hresult, herrors, hcontracts⟩
  · -- nothing is shown, and the call does not settle
    rw [report_raw hresult] at hmicrotask
    rw [hmicrotask] at hordered
    rw [goOn_eq_of_settled hmicrotask rfl]
    refine ⟨hordered, ⟨h.honest.sync, h.honest.worker⟩, hlast, h.settled,
      .inl ⟨hdue.waiting, rfl⟩, fun i hi hmem => ?_, h.loading⟩
    obtain rfl := Option.some.inj hi
    rw [hcall] at hmem
    exact absurd hmem hdue.unsettled

/-- **A round goes on.** -/
theorem upToDate_goOn (h : UpToDate t job) (hreplaces : t.service.Replaces) :
    UpToDate t.goOn (t.gather job) := by
  have hgather : ∀ {j : Job} {p : Pending} {answer : Answer}, Due t j p answer →
      t.gather (some j) =
        some (if p.ticket = ⟨j.call, true⟩ then { j with second := t.setting } else j) := by
    intro j p answer hdue
    simp only [gather, hdue.resolved, Option.map_some]
  obtain ⟨s', hmicrotask⟩ : ∃ s', t.service.microtask t.workspace.library = s' := ⟨_, rfl⟩
  have hgoesOn := goesOn_microtask t.service t.workspace.library
  rw [hmicrotask] at hgoesOn
  cases hgoesOn with
  | rests hresolved =>
    rw [goOn_eq_of_settled hmicrotask rfl]
    simpa only [gather, hresolved] using h
  | @retries p answer rest missingInputs hresolved hmissing hretry =>
    obtain ⟨j, rfl, hdue⟩ := due_of_resolved h hresolved
    obtain rfl : rest = [] := by simpa [hdue.resolved, eq_comm] using hresolved
    have hticket : p.ticket = ⟨j.call, true⟩ := by
      rw [← hdue.call, ← hretry]
    rw [hgather hdue, if_pos hticket]
    exact upToDate_second h hdue hmissing hretry hmicrotask
  | @reports p answer rest hresolved hlast =>
    obtain ⟨j, rfl, hdue⟩ := due_of_resolved h hresolved
    obtain rfl : rest = [] := by simpa [hdue.resolved, eq_comm] using hresolved
    rw [hgather hdue]
    refine upToDate_report h hdue ?_ ?_ (fun output => ?_) hmicrotask
    · split_ifs <;> rfl
    · by_cases hretry : p.ticket.retry = true
      · -- a first round that is the last one asked for nothing
        have hmissing : answer.reply.missingInputs = none :=
          hlast.resolve_right fun hfalse => by rw [hretry] at hfalse; cases hfalse
        have hfirst : j.first.round j.sources = .ok answer.reply := by
          simpa only [Job.owed, hretry, if_true] using hdue.owed
        have halone : ∀ second, alone j.first second j.sources = .ok answer.reply := by
          simp only [alone, hfirst, hmissing, implies_true]
        split_ifs <;> exact halone _
      · have hticket : p.ticket ≠ ⟨j.call, true⟩ := fun heq => hretry (by rw [heq])
        have howed := hdue.owed
        rw [Job.owed, if_neg hretry] at howed
        rw [if_neg hticket]
        exact howed
    · exact hreplaces _ (by rw [hresolved]; rfl) hlast output

theorem honest_loadCompiler {s : CompilerService} (h : HonestCompilers s)
    {script : Option Compiler} (hscript : ∀ compiler ∈ script, Honest compiler.compile) :
    HonestCompilers (s.loadCompiler script) := by
  unfold CompilerService.loadCompiler
  split
  · split
    · refine ⟨h.sync, fun i w hi hw => ?_⟩
      obtain rfl : s.workers.length = i := Option.some.inj hi
      have hnew : w = .new script := by simpa using hw.symm
      rw [hnew]
      exact honest_effective fun c hc => hscript c hc
    · exact ⟨h.sync, h.worker⟩
  · exact ⟨h.sync, h.worker⟩

/-- **A compiler is selected**, and begins to load. -/
theorem upToDate_loadCompiler (h : UpToDate t job) {script : Option Compiler}
    (hscript : ∀ compiler ∈ script, Honest compiler.compile) :
    UpToDate (t.loadCompiler script) job :=
  h.sameRounds (ordered_loadCompiler h.ordered script) (honest_loadCompiler h.honest hscript)
    (sameBooks_loadCompiler _ script) (fun _ => loads_loadCompiler _ script)
    (sameRounds_loadCompiler _ script)

/-- Before anything is loaded. -/
theorem upToDate_new (hasWorker useWebWorker optimize : Bool) (workspace : Workspace) :
    UpToDate (.new (.new hasWorker useWebWorker optimize) workspace) none where
  ordered := ordered_new _ _ _
  honest := ⟨nofun, nofun⟩
  last := nofun
  settled := nofun
  rounds := .inl ⟨rfl, rfl⟩
  shown := nofun
  loading := nofun

end

/-! ## Runs -/

/-- A tab, and its last request. -/
structure Watched where
  tab : CompileTab
  job : Option Job

/-- **The tab of a page, watched.** -/
def watchedDesk (scripts : Compiler → Prop) : Machine Watched TabEvent where
  start := fun w => (tabDesk scripts).start w.tab ∧ w.job = none
  enabled := fun w e => (tabDesk scripts).enabled w.tab e
  step := fun w e => ⟨(tabDesk scripts).step w.tab e, w.tab.watch w.job e⟩

/-- **Nothing is outstanding**: no message, no round, no load, and the last
request has settled. -/
structure Quiet (w : Watched) : Prop where
  messages : ∀ v ∈ w.tab.service.workers, v.inbox = [] ∧ v.outbox = []
  still : w.tab.service.Still
  loads : w.tab.service.polling = 0 ∧ w.tab.service.loading = 0 ∧ w.tab.service.loaded = 0
  settled : ∀ job, w.job = some job → job.call ∈ w.tab.service.settled

/-- A request is made only while no earlier one is unfinished, and every
output that is parsed has a `contracts` map or meets none. -/
def oneRequestAtATime (w : Watched) (e : TabEvent) : Prop :=
  (w.tab.Requests e → w.tab.service.Still) ∧
    (e = .microtask → w.tab.service.loaded = 0 → w.tab.service.Replaces)

/-- What is shown is what the last request comes to by itself. -/
def LatestShown (w : Watched) : Prop :=
  w.tab.loadingCompiler = false ∧ ∀ job, w.job = some job → w.tab.Shows job

theorem upToDate_step {scripts : Compiler → Prop}
    (hscripts : ∀ compiler, scripts compiler → Honest compiler.compile) {w : Watched} {e : TabEvent}
    (h : UpToDate w.tab w.job) (hen : (watchedDesk scripts).enabled w e)
    (he : oneRequestAtATime w e) :
    UpToDate ((watchedDesk scripts).step w e).tab ((watchedDesk scripts).step w e).job := by
  cases e with
  | change workspace =>
    exact ⟨h.ordered, h.honest, h.last, h.settled, h.rounds, h.shown, h.loading⟩
  | notified =>
    change UpToDate w.tab.notified (if w.tab.subsInitialized then w.tab.request w.job else w.job)
    unfold CompileTab.notified
    split
    · next hsubs => exact upToDate_compile h fun hselected => he.1 ⟨hsubs, hselected⟩
    · exact h
  | press => exact upToDate_compile h he.1
  | timeout =>
    have h' : UpToDate { w.tab with timers := w.tab.timers - 1 } w.job :=
      ⟨h.ordered, h.honest, h.last, h.settled, h.rounds, h.shown, h.loading⟩
    exact upToDate_compile h' he.1
  | loadCompiler script =>
    exact upToDate_loadCompiler h fun compiler hc => hscripts compiler (hen.2.2 compiler hc)
  | poll compiler =>
    exact h.sameRounds (ordered_poll h.ordered compiler)
      (honest_poll h.honest (hscripts compiler hen.2)) (sameBooks_poll _ compiler)
      (by rw [loads_poll]; exact h.loading) (sameRounds_poll _ compiler)
  | setOptimize optimize =>
    exact h.sameRounds (h.ordered.congr rfl) ⟨h.honest.sync, h.honest.worker⟩
      ⟨rfl, rfl, rfl⟩ h.loading ⟨.of_eq rfl, rfl, rfl⟩
  | work i =>
    have hworkers := sameWorkers_work w.tab.service i
    exact h.sameRounds (ordered_work h.ordered i) (h.honest.congr h.ordered hworkers rfl rfl)
      ⟨rfl, rfl, rfl⟩ h.loading ⟨hworkers, rfl, rfl⟩
  | deliver i =>
    exact h.service (ordered_deliver h.ordered i) (honest_deliver h.honest h.ordered i)
      (sameBooks_deliver _ i) (by rw [loads_deliver]; exact h.loading) (still_deliver i)
      fun j hfollow => follows_deliver hfollow h.ordered i
  | microtask =>
    change UpToDate w.tab.microtask
      (if w.tab.service.loaded = 0 then w.tab.gather w.job else w.tab.request w.job)
    unfold CompileTab.microtask
    split
    · next hloaded => exact upToDate_goOn h (he.2 rfl hloaded)
    · next hloaded => exact upToDate_whenLoaded h fun hselected => he.1 ⟨hloaded, hselected⟩

/-- **The latest request is shown in the end**, in every run in which
requests do not overlap and no output leaves the contracts of another. -/
theorem latest_is_shown {scripts : Compiler → Prop}
    (hscripts : ∀ compiler, scripts compiler → Honest compiler.compile) {w : Watched}
    (h : ((watchedDesk scripts).under oneRequestAtATime).Reachable w) (hquiet : Quiet w) :
    LatestShown w := by
  have hupToDate : UpToDate w.tab w.job := by
    refine h.invariant (I := fun w => UpToDate w.tab w.job) ?_ fun w e hw he => ?_
    · rintro ⟨t, job⟩ ⟨⟨hasWorker, useWebWorker, optimize, workspace, script, hscript, rfl⟩, rfl⟩
      exact upToDate_loadCompiler (upToDate_new _ _ _ _) fun compiler hc =>
        hscripts compiler (hscript compiler hc)
    · exact upToDate_step hscripts hw he.1 he.2
  obtain ⟨hpolling, hloading, hloaded⟩ := hquiet.loads
  refine ⟨?_, fun job hjob => (hupToDate.shown job hjob (hquiet.settled job hjob)).2⟩
  by_contra hshown
  have hpos := hupToDate.loading (by simpa using hshown)
  rw [loads, hpolling, hloading, hloaded] at hpos
  exact Nat.lt_irrefl 0 hpos

/-- A compiler that asks for nothing. -/
def contentCompiler : Compiler := ⟨fun _ => .ok (.json compiled.json, []), "0.4.24"⟩

/-- The page as it is opened. -/
def opened (compiler : Compiler) (workspace : Workspace) : Watched :=
  ⟨(CompileTab.new (.new true true true) workspace).loadCompiler (some compiler), none⟩

/-- The compiler is loaded, the file compiled, in two rounds, and once more
when that is done. -/
def oneAfterTheOther : List TabEvent :=
  [.work 0, .deliver 0, .microtask, .work 0, .deliver 0, .microtask, .work 0, .deliver 0,
    .microtask, .timeout, .work 0, .deliver 0, .microtask, .work 0, .deliver 0, .microtask]

theorem oneAfterTheOther_is_shown :
    let w := ((watchedDesk (· = contentCompiler)).under oneRequestAtATime).run
      (opened contentCompiler ⟨some "A.sol", "", []⟩) oneAfterTheOther
    Quiet w ∧ LatestShown w := by
  intro w
  have hquiet : Quiet w := by
    refine ⟨fun v hv => ?_, ⟨rfl, rfl⟩, ⟨rfl, rfl, rfl⟩, fun job hjob => ?_⟩
    · obtain rfl := List.mem_singleton.1 hv
      exact ⟨rfl, rfl⟩
    · obtain rfl := Option.some.inj hjob
      exact .tail _ (.head _)
  have hreach : ((watchedDesk (· = contentCompiler)).under oneRequestAtATime).Reachable w := by
    refine .run (.start ⟨⟨true, true, true, _, some contentCompiler, by simp, rfl⟩, rfl⟩) ?_
    have hhas : compiled.HasContracts := rfl
    refine ⟨⟨trivial, nofun, nofun⟩, ⟨⟨rfl, rfl⟩, nofun, nofun⟩,
      ⟨trivial, fun _ => ⟨rfl, rfl⟩, fun _ hloaded => absurd hloaded (by decide)⟩,
      ⟨trivial, nofun, nofun⟩, ⟨⟨rfl, rfl⟩, nofun, nofun⟩,
      ⟨trivial, fun h => absurd rfl h.1, fun _ _ => replaces_of_output rfl rfl hhas⟩,
      ⟨trivial, nofun, nofun⟩, ⟨⟨rfl, rfl⟩, nofun, nofun⟩,
      ⟨trivial, fun h => absurd rfl h.1, fun _ _ => replaces_of_output rfl rfl hhas⟩,
      ⟨⟨⟨rfl, rfl⟩, by decide⟩, fun _ => ⟨rfl, rfl⟩, nofun⟩,
      ⟨trivial, nofun, nofun⟩, ⟨⟨rfl, rfl⟩, nofun, nofun⟩,
      ⟨trivial, fun h => absurd rfl h.1, fun _ _ => replaces_of_output rfl rfl hhas⟩,
      ⟨trivial, nofun, nofun⟩, ⟨⟨rfl, rfl⟩, nofun, nofun⟩,
      ⟨trivial, fun h => absurd rfl h.1, fun _ _ => replaces_of_output rfl rfl hhas⟩, trivial⟩
  refine ⟨hquiet, latest_is_shown ?_ hreach hquiet⟩
  rintro _ rfl input reply hreply
  obtain rfl := Except.ok.inj hreply
  exact .inl ⟨compiled, rfl⟩

/-- What is made of a file without its import. -/
def deferred : CompilerOutput where
  fields := [("contracts", .obj []), ("errors", .arr [.obj [
    ("message", .str "Source \"B.sol\" not found: Deferred import"),
    ("formattedMessage", .str "A.sol:1:1: ParserError: Source \"B.sol\" not found")]])]
  contracts_map := by
    rintro value h
    obtain rfl := Option.some.inj h
    exact ⟨_, rfl, by simp⟩
  error_entry := nofun
  errors_entries := by
    rintro value h
    obtain rfl := Option.some.inj h
    refine ⟨_, rfl, fun item hitem => ?_⟩
    rw [List.mem_singleton] at hitem
    exact ⟨_, _, _, hitem, by rw [hitem]; rfl, by rw [hitem]; rfl⟩

/-- A compiler that asks for `B.sol` where it is given one source only. -/
def importingCompiler : Compiler where
  compile := fun input =>
    .ok (if input.sources.length = 1 then (.json deferred.json, ["B.sol"])
      else (.json compiled.json, []))
  version := "0.4.24"

/-- The compiler is loaded and the file compiled; the second compilation
begins while the first one waits. -/
def oneUponTheOther : List TabEvent :=
  [.work 0, .deliver 0, .microtask, .timeout, .work 0, .deliver 0, .microtask, .microtask, .work 0,
    .deliver 0, .microtask, .microtask, .work 0, .work 0, .deliver 0, .deliver 0]

/-- A library with one import. -/
def twoFiles : Library := [("A.sol", importB), ("B.sol", "")]

/-- The page is opened on it, and that is where it leads. -/
def overlapped : Watched :=
  (watchedDesk (· = importingCompiler)).run
    (opened importingCompiler ⟨some "A.sol", importB, twoFiles⟩) oneUponTheOther

theorem reachable_overlapped : (watchedDesk (· = importingCompiler)).Reachable overlapped := by
  refine .run (.start ⟨⟨true, true, true, _, some importingCompiler, by simp, rfl⟩, rfl⟩) ?_
  exact ⟨trivial, ⟨rfl, rfl⟩, trivial, ⟨⟨rfl, rfl⟩, by decide⟩, trivial, ⟨rfl, rfl⟩, trivial,
    trivial, trivial, ⟨rfl, rfl⟩, trivial, trivial, trivial, trivial, ⟨rfl, rfl⟩, ⟨rfl, rfl⟩,
    trivial⟩

theorem quiet_overlapped : Quiet overlapped := by
  refine ⟨fun v hv => ?_, ⟨rfl, rfl⟩, ⟨rfl, rfl, rfl⟩, fun job hjob => ?_⟩
  · obtain rfl := List.mem_singleton.1 hv
    exact ⟨rfl, rfl⟩
  · obtain rfl := Option.some.inj hjob
    exact .tail _ (.head _)

theorem honest_importingCompiler : Honest importingCompiler.compile := by
  intro input reply hreply
  obtain rfl := Except.ok.inj hreply
  dsimp only
  split_ifs
  · exact .inl ⟨deferred, rfl⟩
  · exact .inl ⟨compiled, rfl⟩

/-- By itself the file is compiled with its import. -/
theorem alone_importB (optimize : Bool) :
    alone ⟨some importingCompiler.compile, optimize, twoFiles⟩
      ⟨some importingCompiler.compile, optimize, twoFiles⟩ [("A.sol", importB)] =
      .ok ⟨.json compiled.json, some []⟩ := by
  have hgather : gatherImports twoFiles [("A.sol", importB)] ["B.sol"] = twoFiles := by
    simp only [gatherImports, pushScanned, scanned_importB]
    rfl
  have hfirst : Setting.round ⟨some importingCompiler.compile, optimize, twoFiles⟩
      [("A.sol", importB)] = .ok ⟨.json deferred.json, some ["B.sol"]⟩ := rfl
  simp only [alone, hfirst, hgather]
  rfl

/-- **The page is opened on a file with an import, and shows what the file
comes to without it.** -/
theorem second_request_is_not_shown : ¬ ∀ scripts : Compiler → Prop,
    (∀ compiler, scripts compiler → Honest compiler.compile) → ∀ w,
      (watchedDesk scripts).Reachable w → Quiet w → LatestShown w := by
  intro h
  have hshown := (h _ (by rintro _ rfl; exact honest_importingCompiler) overlapped
    reachable_overlapped quiet_overlapped).2
  obtain ⟨-, reply, output, halone, hreply, -, hcontracts⟩ := hshown ⟨1, [("A.sol", importB)],
    ⟨some importingCompiler.compile, true, twoFiles⟩,
    ⟨some importingCompiler.compile, true, twoFiles⟩⟩ rfl
  obtain rfl := Except.ok.inj ((alone_importB true).symm.trans halone)
  have hjson : output.json = compiled.json := (Text.json.inj hreply).symm
  have hlength : overlapped.tab.contracts.length = compiled.contracts.length := by
    rw [hcontracts, CompilerOutput.contracts, CompilerOutput.contracts, hjson]
  exact absurd hlength (by decide)

end Hmix
