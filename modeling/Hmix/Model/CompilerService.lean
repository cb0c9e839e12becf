import Hmix.Common.Machine
import Hmix.Model.Imports

/-!
# The compiler service, its workers and its calls

A call of `compile` is answered in rounds. In web-worker mode a round posts
a request to the worker that is current, and then waits on an emitter that
all rounds share: whatever reply comes in first, from whichever worker,
completes every round that waits. A round that is complete goes on in a
microtask, which runs before the page handles another message.

Requests and replies carry no identifier. The tickets they have here are
written by no one: they say which round a message belongs to, and so which
of the page's answers are one object.
-/

namespace Hmix

/-- A compiler script, once it is loaded. -/
structure Compiler where
  compile : Solc
  version : String

/-- **A round of a call**: the first one may retry, the second may not. -/
structure Ticket where
  call : ℕ
  retry : Bool
  deriving DecidableEq

/-! ## A worker -/

/-- What the page posts to a worker. -/
inductive Request where
  | loadVersion
  | compileRequest (input : CompilerInput) (ticket : Ticket)

/-- What a worker posts to the page. -/
inductive Response where
  | versionLoaded (version : String)
  | compileResult (reply : Reply) (input : CompilerInput) (ticket : Ticket)

/-- **A worker**: its two message queues, and its `compile`. `script` is
what its URL turns out to be, and nothing where it cannot be fetched. -/
structure Worker where
  script : Option Compiler
  compile : Solc
  inbox : List Request
  outbox : List Response

/-- `let compile = () => { return '' }`. -/
def Worker.placeholder : Solc := fun _ => .ok (.raw "", [])

/-- A worker with its first message posted. -/
def Worker.new (script : Option Compiler) : Worker := ⟨script, placeholder, [.loadVersion], []⟩

/-- `postMessage`, by the page. -/
def Worker.post (w : Worker) (request : Request) : Worker :=
  { w with inbox := w.inbox ++ [request] }

/-- **`onmessage` of a worker.** A script that cannot be fetched throws
before `compile` is replaced; a compiler that throws posts nothing. The
array of missing inputs is emptied for each request and copied when it is
posted. -/
def Worker.work (w : Worker) : Worker :=
  match w.inbox with
  | [] => w
  | .loadVersion :: inbox =>
    match w.script with
    | some compiler => { w with
        compile := compiler.compile, inbox := inbox
        outbox := w.outbox ++ [.versionLoaded compiler.version] }
    | none => { w with inbox := inbox }
  | .compileRequest input ticket :: inbox =>
    match compileSync w.compile input with
    | .ok reply => { w with
        inbox := inbox, outbox := w.outbox ++ [.compileResult reply input ticket] }
    | .error _ => { w with inbox := inbox }

/-! ## The service -/

/-- **A round that was begun**: what it compiles, and the worker it was
posted to, none in direct mode. -/
structure Pending where
  ticket : Ticket
  input : CompilerInput
  worker : Option ℕ

/-- **What completes a round**: a reply, what it is a reply to, and where
it is from. -/
structure Answer where
  reply : Reply
  input : CompilerInput
  ticket : Ticket
  worker : Option ℕ

/-- The answer, once its array of missing inputs was popped empty. -/
def Answer.emptied (answer : Answer) : Answer :=
  { answer with reply := { answer.reply with
      missingInputs := answer.reply.missingInputs.map fun _ => [] } }

/-- The events a compilation emits. -/
inductive CompilationEvent where
  | started
  | finished
  deriving DecidableEq

/-- **The service**, with the workers it made. -/
structure CompilerService where
  /-- The browser has workers. -/
  hasWorker : Bool
  useWebWorker : Bool
  optimize : Bool
  /-- `_latestCompilationResult`. -/
  latest : ICompilerResult
  workers : List Worker
  /-- The current worker. -/
  webWorker : Option ℕ
  syncCompiler : Option Compiler
  compilerVersion : Option String
  /-- Calls of `loadSync` that poll for a script. -/
  polling : ℕ
  /-- Calls of `loadWebWorker` that wait on `onCompilerLoaded`. -/
  loading : ℕ
  /-- Calls of `loadCompiler` that are resolved and have yet to go on. -/
  loaded : ℕ
  /-- How many calls of `compile` were made. -/
  calls : ℕ
  /-- The rounds that wait on `onWebWorkerFinished`. -/
  waiting : List Pending
  /-- The rounds that are complete and have yet to go on: the microtasks. -/
  resolved : List (Pending × Answer)
  /-- The calls whose promise has resolved. -/
  settled : List ℕ
  /-- Every completion of a round there was. -/
  completions : List (Pending × Answer)
  events : List CompilationEvent

namespace CompilerService

/-- A new service. -/
def new (hasWorker useWebWorker optimize : Bool) : CompilerService where
  hasWorker := hasWorker
  useWebWorker := useWebWorker
  optimize := optimize
  latest := .initial
  workers := []
  webWorker := none
  syncCompiler := none
  compilerVersion := none
  polling := 0
  loading := 0
  loaded := 0
  calls := 0
  waiting := []
  resolved := []
  settled := []
  completions := []
  events := []

/-- How many calls are between their first request and their last reply: a
round of theirs waits, or the first one has yet to go on. -/
def unanswered (s : CompilerService) : ℕ :=
  s.waiting.length + s.resolved.countP fun c => c.1.ticket.retry

/-- No call is between its first request and its last reply. -/
def Idle (s : CompilerService) : Prop := s.unanswered = 0

instance (s : CompilerService) : Decidable s.Idle := inferInstanceAs (Decidable (_ = _))

/-- Rounds are complete with an answer. -/
def complete (s : CompilerService) (rounds : List Pending) (answer : Answer) : CompilerService :=
  { s with
    resolved := s.resolved ++ rounds.map fun p => (p, answer)
    completions := s.completions ++ rounds.map fun p => (p, answer) }

/-- **`compileWebWorker`.** With no worker the promise is rejected, which
nobody handles. -/
def compileWebWorker (s : CompilerService) (ticket : Ticket) (input : CompilerInput) :
    CompilerService :=
  match s.webWorker with
  | none => s
  | some i => { s with
      workers := s.workers.modify i fun w => w.post (.compileRequest input ticket)
      waiting := s.waiting ++ [⟨ticket, input, some i⟩] }

/-- **`compileSync`**, as a round. With no compiler, or one that throws, the
promise is rejected. -/
def compileDirect (s : CompilerService) (ticket : Ticket) (input : CompilerInput) :
    CompilerService :=
  match s.syncCompiler with
  | none => s
  | some compiler =>
    match compileSync compiler.compile input with
    | .error _ => s
    | .ok reply => s.complete [⟨ticket, input, none⟩] ⟨reply, input, ticket, none⟩

/-- A round of `compile` is begun. -/
def startRound (s : CompilerService) (ticket : Ticket) (sources : Sources) : CompilerService :=
  let input : CompilerInput := ⟨sources, s.optimize⟩
  let s := if s.useWebWorker then s.compileWebWorker ticket input else s.compileDirect ticket input
  { s with events := s.events ++ [.started] }

/-- **`compile(sources)`.** -/
def compile (s : CompilerService) (sources : Sources) : CompilerService :=
  { s with calls := s.calls + 1 }.startRound ⟨s.calls, true⟩ sources

/-- The output is parsed and the promise resolved. What parsing throws ends
the call there. -/
def report (s : CompilerService) (call : ℕ) (reply : Reply) : CompilerService :=
  match parseCompilationResult reply.result s.latest with
  | .ok _ latest => { s with
      latest := latest, events := s.events ++ [.finished], settled := s.settled ++ [call] }
  | .error _ latest => { s with latest := latest }

/-- **A round goes on**, with the files there are by then. -/
def goOn (s : CompilerService) (library : Library) (p : Pending) (reply : Reply) :
    CompilerService :=
  match reply.missingInputs with
  | some missingInputs =>
    if p.ticket.retry then
      s.startRound ⟨p.ticket.call, false⟩ (gatherImports library p.input.sources missingInputs)
    else
      s.report p.ticket.call reply
  | none => s.report p.ticket.call reply

/-- **What is left of an answer for the other rounds it completed.** Its
array of missing inputs is one object, and `gatherImports` pops it empty. -/
def popped (answer : Answer) (resolved : List (Pending × Answer)) : List (Pending × Answer) :=
  resolved.map fun c => (c.1, if c.2.ticket = answer.ticket then c.2.emptied else c.2)

/-- The next microtask. -/
def microtask (s : CompilerService) (library : Library) : CompilerService :=
  match s.resolved with
  | [] => s
  | (p, answer) :: resolved =>
    { s with resolved := popped answer resolved }.goOn library p answer.reply

/-- **`loadCompiler`.** In web-worker mode the new worker is the current one
at once, whatever its script turns out to be. -/
def loadCompiler (s : CompilerService) (script : Option Compiler) : CompilerService :=
  if s.useWebWorker then
    if s.hasWorker then { s with
      workers := s.workers ++ [.new script]
      webWorker := some s.workers.length
      loading := s.loading + 1 }
    else { s with useWebWorker := false, loaded := s.loaded + 1 }
  else { s with polling := s.polling + 1 }

/-- A poll of `loadSync` finds the module of a script. -/
def poll (s : CompilerService) (compiler : Compiler) : CompilerService :=
  if s.polling = 0 then s
  else { s with
    syncCompiler := some compiler
    compilerVersion := some compiler.version
    polling := s.polling - 1
    loaded := s.loaded + 1 }

/-- A worker handles its next message. -/
def work (s : CompilerService) (i : ℕ) : CompilerService :=
  { s with workers := s.workers.modify i Worker.work }

/-- **`webWorker.onmessage`**, for the next message of a worker: every load
that waits, or every round that waits, is resolved with it. -/
def deliver (s : CompilerService) (i : ℕ) : CompilerService :=
  match s.workers[i]? with
  | none => s
  | some w =>
    match w.outbox with
    | [] => s
    | .versionLoaded version :: outbox => { s with
        workers := s.workers.set i { w with outbox := outbox }
        compilerVersion := if s.loading = 0 then s.compilerVersion else some version
        loading := 0
        loaded := s.loaded + s.loading }
    | .compileResult reply input ticket :: outbox =>
      { s with
        workers := s.workers.set i { w with outbox := outbox }
        waiting := [] }.complete s.waiting ⟨reply, input, ticket, some i⟩

end CompilerService

/-! ## Runs of the service in web-worker mode -/

/-- What happens to a service. -/
inductive ServiceEvent where
  /-- `compile` is called. -/
  | compile (sources : Sources)
  /-- `loadCompiler` is called. -/
  | loadCompiler (script : Option Compiler)
  /-- The setting is changed. -/
  | setOptimize (optimize : Bool)
  /-- A worker handles its next message. -/
  | work (worker : ℕ)
  /-- The page handles the next message of a worker. -/
  | deliver (worker : ℕ)
  /-- A round goes on. -/
  | microtask (library : Library)

/-- **A service in web-worker mode**, called and answered in any order. The
page handles no message before its microtasks are done. -/
def serviceDesk : Machine CompilerService ServiceEvent where
  start := fun s => ∃ optimize, s = .new true true optimize
  enabled := fun s e =>
    match e with
    | .deliver _ => s.resolved = []
    | _ => True
  step := fun s e =>
    match e with
    | .compile sources => s.compile sources
    | .loadCompiler script => s.loadCompiler script
    | .setOptimize optimize => { s with optimize := optimize }
    | .work i => s.work i
    | .deliver i => s.deliver i
    | .microtask library => s.microtask library

/-! ## Runs of the service in either mode -/

/-- What happens to a service that may be in direct mode. -/
inductive CallEvent where
  | service (e : ServiceEvent)
  /-- A poll of `loadSync` finds a script. -/
  | poll (compiler : Compiler)

/-- **A service in either mode**, called and answered in any order. A poll is
made by a timer, which is no earlier than a message. -/
def callDesk : Machine CompilerService CallEvent where
  start := fun s => ∃ hasWorker useWebWorker optimize, s = .new hasWorker useWebWorker optimize
  enabled := fun s e =>
    match e with
    | .service e => serviceDesk.enabled s e
    | .poll _ => s.resolved = []
  step := fun s e =>
    match e with
    | .service e => serviceDesk.step s e
    | .poll compiler => s.poll compiler

end Hmix
