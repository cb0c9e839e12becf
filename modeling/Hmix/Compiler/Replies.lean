import Hmix.Common.Entries
import Hmix.Model.CompilerService

/-!
# Whose reply completes a round

A worker handles its messages in order, so it answers every request with
the compiler its script turns out to be, and with nothing but that request.
What the page makes of the answer is another matter: it completes whatever
waits. While calls do not overlap at most one round waits, and the one
compile message that may be under way is its own (`Ordered`). Workers may
be replaced at any time.
-/

namespace Hmix

/-! ## What a worker answers -/

namespace Worker

/-- The compiler a worker answers with: that of its script, or the
placeholder. -/
def effective (w : Worker) : Solc :=
  match w.script with
  | some compiler => compiler.compile
  | none => placeholder

/-- The compile messages a worker has in its queues, the older ones first:
its answers, and the requests it has yet to answer. -/
def messages (w : Worker) : List (Ticket × CompilerInput) :=
  (w.outbox.filterMap fun
    | .compileResult _ input ticket => some (ticket, input)
    | .versionLoaded _ => none) ++
  w.inbox.filterMap fun
    | .compileRequest input ticket => some (ticket, input)
    | .loadVersion => none

/-- **A worker loads first and then answers**, each request with the
compiler of its script. -/
structure Sound (w : Worker) : Prop where
  loads : (w.compile = placeholder ∧ ∃ inbox, w.inbox = .loadVersion :: inbox ∧
      .loadVersion ∉ inbox) ∨
    (.loadVersion ∉ w.inbox ∧ w.compile = w.effective)
  answers : ∀ reply input ticket, .compileResult reply input ticket ∈ w.outbox →
    compileSync w.effective input = .ok reply

variable {w : Worker} {input : CompilerInput} {ticket : Ticket}

theorem sound_new (script : Option Compiler) : (Worker.new script).Sound where
  loads := .inl ⟨rfl, [], rfl, List.not_mem_nil⟩
  answers := fun _ _ _ h => absurd h List.not_mem_nil

@[simp] theorem messages_new (script : Option Compiler) : (Worker.new script).messages = [] := rfl

theorem Sound.post (h : w.Sound) : (w.post (.compileRequest input ticket)).Sound where
  loads := by
    rcases h.loads with ⟨hcompile, inbox, hinbox, hnot⟩ | ⟨hnot, hcompile⟩
    · refine .inl ⟨hcompile, inbox ++ [.compileRequest input ticket], ?_, ?_⟩
      · simp [Worker.post, hinbox]
      · simpa using hnot
    · exact .inr ⟨by simpa [Worker.post] using hnot, hcompile⟩
  answers := h.answers

theorem messages_post (w : Worker) : (w.post (.compileRequest input ticket)).messages =
    w.messages ++ [(ticket, input)] := by
  simp [Worker.messages, Worker.post]

theorem effective_work (w : Worker) : w.work.effective = w.effective := by
  unfold Worker.work
  split
  · rfl
  · split <;> rfl
  · split <;> rfl

theorem Sound.work (h : w.Sound) : w.work.Sound := by
  have heff : w.work.effective = w.effective := effective_work w
  unfold Worker.work at heff ⊢
  split
  · exact h
  · next inbox hinbox =>
    -- the script is loaded: from here on `compile` is the script's
    have hloads : Request.loadVersion ∉ inbox ∧ w.compile = placeholder := by
      rcases h.loads with ⟨hcompile, inbox', heq, hnot⟩ | ⟨hnot, -⟩
      · rw [hinbox] at heq
        exact ⟨(List.cons.inj heq).2 ▸ hnot, hcompile⟩
      · rw [hinbox] at hnot
        exact absurd List.mem_cons_self hnot
    split
    · next compiler hscript =>
      refine ⟨.inr ⟨hloads.1, ?_⟩, fun reply input ticket hmem => ?_⟩
      · simp [effective, hscript]
      · have hmem' : .compileResult reply input ticket ∈ w.outbox := by simpa using hmem
        simpa [effective, hscript] using h.answers reply input ticket hmem'
    · next hscript =>
      refine ⟨.inr ⟨hloads.1, ?_⟩, h.answers⟩
      simp [effective, hscript, hloads.2]
  · next input ticket inbox hinbox =>
    have hloads : Request.loadVersion ∉ inbox ∧ w.compile = w.effective := by
      rcases h.loads with ⟨-, inbox', heq, -⟩ | ⟨hnot, hcompile⟩
      · rw [hinbox] at heq
        cases heq
      · rw [hinbox] at hnot
        exact ⟨fun hmem => hnot (List.mem_cons_of_mem _ hmem), hcompile⟩
    split
    · next reply hreply =>
      refine ⟨.inr hloads, fun reply' input' ticket' hmem => ?_⟩
      rcases List.mem_append.1 hmem with hmem | hmem
      · exact h.answers reply' input' ticket' hmem
      · rw [List.mem_singleton] at hmem
        obtain ⟨rfl, rfl, rfl⟩ := Response.compileResult.inj hmem
        rw [hloads.2] at hreply
        exact hreply
    · exact ⟨.inr hloads, h.answers⟩

/-- Handling a message loses none and invents none. -/
theorem messages_work (w : Worker) : w.work.messages.Sublist w.messages := by
  unfold Worker.work
  split
  · exact List.Sublist.refl _
  · next inbox hinbox =>
    split
    · simp [Worker.messages, hinbox]
    · simp [Worker.messages, hinbox]
  · next input ticket inbox hinbox =>
    split
    · simp [Worker.messages, hinbox]
    · simp [Worker.messages, hinbox]

/-- A response is taken off. -/
theorem Sound.pop {response : Response} {outbox : List Response} (h : w.Sound)
    (houtbox : w.outbox = response :: outbox) : ({ w with outbox := outbox } : Worker).Sound where
  loads := h.loads
  answers := fun reply input ticket hmem =>
    h.answers reply input ticket (by rw [houtbox]; exact List.mem_cons_of_mem _ hmem)

end Worker

/-! ## The service -/

open CompilerService

/-- **What comes of a round that is begun**: nothing, where there is no
compiler or it throws; or its request is posted; or it is answered on the
spot. -/
inductive Begins (s : CompilerService) (ticket : Ticket) (input : CompilerInput) :
    CompilerService → Prop
  | lost : Begins s ticket input { s with events := s.events ++ [.started] }
  | posted {i : ℕ} (mode : s.useWebWorker = true) (current : s.webWorker = some i) :
    Begins s ticket input { s with
      workers := s.workers.modify i (Worker.post · (.compileRequest input ticket))
      waiting := s.waiting ++ [⟨ticket, input, some i⟩]
      events := s.events ++ [.started] }
  | answered {compiler : Compiler} {reply : Reply} (mode : s.useWebWorker = false)
    (current : s.syncCompiler = some compiler)
    (computed : compileSync compiler.compile input = .ok reply) :
    Begins s ticket input { s.complete [⟨ticket, input, none⟩] ⟨reply, input, ticket, none⟩ with
      events := s.events ++ [.started] }

theorem begins_startRound (s : CompilerService) (ticket : Ticket) (sources : Sources) :
    Begins s ticket ⟨sources, s.optimize⟩ (s.startRound ticket sources) := by
  simp only [startRound, compileWebWorker, compileDirect]
  split
  · next hmode =>
    split
    · exact .lost
    · next i hi => exact .posted hmode hi
  · next hmode =>
    split
    · exact .lost
    · next compiler hcompiler =>
      split
      · exact .lost
      · next reply hreply => exact .answered (by simpa using hmode) hcompiler hreply

/-- **What comes of a microtask**: no round was to go on; or a first round
begins the second one; or a last one is reported. -/
inductive GoesOn (s : CompilerService) (library : Library) : CompilerService → Prop
  | rests (resolved : s.resolved = []) : GoesOn s library s
  | retries {p : Pending} {answer : Answer} {rest : List (Pending × Answer)}
    {missingInputs : List String} (resolved : s.resolved = (p, answer) :: rest)
    (missing : answer.reply.missingInputs = some missingInputs) (retry : p.ticket.retry = true) :
    GoesOn s library ({ s with resolved := popped answer rest }.startRound ⟨p.ticket.call, false⟩
      (gatherImports library p.input.sources missingInputs))
  | reports {p : Pending} {answer : Answer} {rest : List (Pending × Answer)}
    (resolved : s.resolved = (p, answer) :: rest)
    (last : answer.reply.missingInputs = none ∨ p.ticket.retry = false) :
    GoesOn s library ({ s with resolved := popped answer rest }.report p.ticket.call answer.reply)

theorem goesOn_microtask (s : CompilerService) (library : Library) :
    GoesOn s library (s.microtask library) := by
  unfold microtask
  split
  · next hresolved => exact .rests hresolved
  · next p answer rest hresolved =>
    unfold goOn
    split
    · next missingInputs hmissing =>
      split
      · next hretry => exact .retries hresolved hmissing hretry
      · next hretry => exact .reports hresolved (.inr (by simpa using hretry))
    · next hmissing => exact .reports hresolved (.inl hmissing)

/-- **What comes of a message of a worker**: there was none; or it ends every
load that waits; or it completes every round that waits. -/
inductive Delivers (s : CompilerService) (i : ℕ) : CompilerService → Prop
  | nothing : Delivers s i s
  | loaded {w : Worker} {version : String} {outbox : List Response}
    (worker : s.workers[i]? = some w) (message : w.outbox = .versionLoaded version :: outbox) :
    Delivers s i { s with
      workers := s.workers.set i { w with outbox := outbox }
      compilerVersion := if s.loading = 0 then s.compilerVersion else some version
      loading := 0
      loaded := s.loaded + s.loading }
  | replied {w : Worker} {reply : Reply} {input : CompilerInput} {ticket : Ticket}
    {outbox : List Response} (worker : s.workers[i]? = some w)
    (message : w.outbox = .compileResult reply input ticket :: outbox) :
    Delivers s i ({ s with
      workers := s.workers.set i { w with outbox := outbox }
      waiting := [] }.complete s.waiting ⟨reply, input, ticket, some i⟩)

theorem delivers_deliver (s : CompilerService) (i : ℕ) : Delivers s i (s.deliver i) := by
  unfold deliver
  split
  · exact .nothing
  · next w hw =>
    split
    · exact .nothing
    · next houtbox => exact .loaded hw houtbox
    · next houtbox => exact .replied hw houtbox

/-- **A round was completed by its own answer**, and where it was posted to
a worker, by what that worker computes from the round's own input. -/
structure Own (s : CompilerService) (p : Pending) (answer : Answer) : Prop where
  ticket : answer.ticket = p.ticket
  input : answer.input = p.input
  worker : answer.worker = p.worker
  computed : ∀ i, p.worker = some i → ∃ w : Worker, s.workers[i]? = some w ∧
    compileSync w.effective p.input = .ok answer.reply

/-- **Calls that do not overlap.** At most one is unanswered, the compile
messages under way are that round's, and all completions
were by the own answer. -/
structure Ordered (s : CompilerService) : Prop where
  sound : ∀ (i : ℕ) (w : Worker), s.workers[i]? = some w → w.Sound
  current : ∀ i, s.webWorker = some i → i < s.workers.length
  inFlight : ∀ (i : ℕ) (w : Worker), s.workers[i]? = some w → w.messages = [] ∨
    ∃ p, s.waiting = [p] ∧ p.worker = some i ∧ w.messages = [(p.ticket, p.input)]
  one : s.unanswered ≤ 1
  own : ∀ c ∈ s.completions, Own s c.1 c.2

section

variable {s s' : CompilerService}

/-- The workers there were are there, and answer as they did. -/
def SameWorkers (s s' : CompilerService) : Prop :=
  ∀ (i : ℕ) (w : Worker), s.workers[i]? = some w →
    ∃ w' : Worker, s'.workers[i]? = some w' ∧ w'.effective = w.effective

theorem SameWorkers.own (h : SameWorkers s s') {p : Pending} {answer : Answer}
    (hown : Own s p answer) : Own s' p answer where
  ticket := hown.ticket
  input := hown.input
  worker := hown.worker
  computed := fun i hi => by
    obtain ⟨w, hw, hreply⟩ := hown.computed i hi
    obtain ⟨w', hw', heff⟩ := h i w hw
    exact ⟨w', hw', by rw [heff]; exact hreply⟩

theorem SameWorkers.of_eq (h : s'.workers = s.workers) : SameWorkers s s' :=
  fun i w hw => ⟨w, by rw [h]; exact hw, rfl⟩

theorem Own.congr {p : Pending} {answer : Answer} (hown : Own s p answer)
    (h : s'.workers = s.workers) : Own s' p answer :=
  (SameWorkers.of_eq h).own hown

/-- One worker is changed, and answers as it did. -/
theorem SameWorkers.modify {i : ℕ} {g : Worker → Worker} (hg : ∀ w, (g w).effective = w.effective)
    (h : s'.workers = s.workers.modify i g) : SameWorkers s s' := by
  intro j w hw
  rw [h, List.getElem?_modify, hw]
  by_cases hij : i = j
  · exact ⟨g w, by simp [hij], hg w⟩
  · exact ⟨w, by simp [hij], rfl⟩

theorem SameWorkers.set {i : ℕ} {w w' : Worker} (hw : s.workers[i]? = some w)
    (h : s'.workers = s.workers.set i w') (heff : w'.effective = w.effective) :
    SameWorkers s s' := by
  intro j v hv
  rw [h, List.getElem?_set]
  split_ifs with hij hi
  · subst hij
    rw [hw] at hv
    exact ⟨w', rfl, by rw [heff, Option.some.inj hv]⟩
  · exact absurd (List.getElem?_eq_some_iff.1 hw).1 hi
  · exact ⟨v, hv, rfl⟩

theorem Begins.sameWorkers {ticket : Ticket} {input : CompilerInput}
    (h : Begins s ticket input s') : SameWorkers s s' := by
  cases h with
  | lost => exact .of_eq rfl
  | posted =>
    exact .modify (g := fun w => w.post (.compileRequest input ticket)) (fun _ => rfl) rfl
  | answered => exact .of_eq rfl

theorem sameWorkers_loadCompiler (s : CompilerService) (script : Option Compiler) :
    SameWorkers s (s.loadCompiler script) := by
  unfold loadCompiler
  split
  · split
    · intro i w hw
      refine ⟨w, ?_, rfl⟩
      rw [List.getElem?_append_left (List.getElem?_eq_some_iff.1 hw).1]
      exact hw
    · exact .of_eq rfl
  · exact .of_eq rfl

theorem sameWorkers_work (s : CompilerService) (i : ℕ) : SameWorkers s (s.work i) :=
  .modify Worker.effective_work rfl

theorem Delivers.sameWorkers {i : ℕ} (h : Delivers s i s') : SameWorkers s s' := by
  cases h with
  | nothing => exact .of_eq rfl
  | loaded hw _ => exact .set hw rfl rfl
  | replied hw _ => exact .set hw rfl rfl

theorem sameWorkers_deliver (s : CompilerService) (i : ℕ) : SameWorkers s (s.deliver i) :=
  (delivers_deliver s i).sameWorkers

/-- What `Ordered` speaks of. -/
def CompilerService.rounds (s : CompilerService) :=
  (s.workers, s.webWorker, s.waiting, s.resolved, s.completions)

theorem Ordered.congr (h : Ordered s) (heq : s'.rounds = s.rounds) : Ordered s' := by
  simp only [rounds, Prod.mk.injEq] at heq
  obtain ⟨hworkers, hcurrent, hwaiting, hresolved, hcompletions⟩ := heq
  refine ⟨?_, ?_, ?_, ?_, ?_⟩
  · rw [hworkers]
    exact h.sound
  · rw [hworkers, hcurrent]
    exact h.current
  · rw [hworkers, hwaiting]
    exact h.inFlight
  · rw [unanswered, hwaiting, hresolved]
    exact h.one
  · rw [hcompletions]
    exact fun c hc => (h.own c hc).congr hworkers

/-- Rounds that have yet to go on are taken off, and not too many stay. -/
theorem Ordered.setResolved (h : Ordered s) {resolved : List (Pending × Answer)}
    (hone : { s with resolved := resolved }.unanswered ≤ 1) :
    Ordered { s with resolved := resolved } where
  sound := h.sound
  current := h.current
  inFlight := h.inFlight
  one := hone
  own := fun c hc => (h.own c hc).congr rfl

theorem CompilerService.Idle.waiting (h : s.Idle) : s.waiting = [] := by
  have hnone : s.waiting.length + (s.resolved.countP fun c => c.1.ticket.retry) = 0 := h
  exact List.length_eq_zero_iff.1 (by omega)

/-- With no round waiting, no compile message is under way. -/
theorem Ordered.quiet (h : Ordered s) (hwaiting : s.waiting = []) {i : ℕ} {w : Worker}
    (hw : s.workers[i]? = some w) : w.messages = [] := by
  rcases h.inFlight i w hw with hnil | ⟨p, hp, -⟩
  · exact hnil
  · rw [hwaiting] at hp
    cases hp

/-- Rounds that wait no more are complete. -/
theorem unanswered_complete (s : CompilerService) (rounds : List Pending) (answer : Answer) :
    (s.complete rounds answer).unanswered =
      s.unanswered + rounds.countP fun p => p.ticket.retry := by
  simp only [unanswered, complete, List.countP_append, List.countP_map, Function.comp_def]
  omega

/-- **A round is begun** while no other is unanswered. -/
theorem ordered_begins {ticket : Ticket} {input : CompilerInput} (h : Ordered s) (hidle : s.Idle)
    (hbegins : Begins s ticket input s') : Ordered s' := by
  have hown : ∀ c ∈ s.completions, Own s' c.1 c.2 := fun c hc =>
    hbegins.sameWorkers.own (h.own c hc)
  have hnone : s.unanswered = 0 := hidle
  cases hbegins with
  | lost => exact h.congr rfl
  | @posted i _ hi =>
    have hwaiting : s.waiting = [] := hidle.waiting
    refine ⟨fun j w hw => ?_, fun j hj => ?_, fun j w hw => ?_, ?_, hown⟩
    · obtain ⟨w', hw', ⟨-, rfl⟩ | ⟨-, rfl⟩⟩ := of_getElem?_modify hw
      · exact (h.sound j w' hw').post
      · exact h.sound j w hw'
    · simpa using h.current j hj
    · -- the request is the only message, in the queue of the current worker
      obtain ⟨w', hw', ⟨rfl, rfl⟩ | ⟨-, rfl⟩⟩ := of_getElem?_modify hw
      · refine .inr ⟨_, by rw [hwaiting]; rfl, rfl, ?_⟩
        rw [Worker.messages_post, h.quiet hwaiting hw']
        rfl
      · exact .inl (h.quiet hwaiting hw')
    · -- the first call that is unanswered
      simp only [unanswered, List.length_append, List.length_singleton] at hnone ⊢
      omega
  | @answered _ reply =>
    refine ⟨h.sound, h.current, h.inFlight, ?_, fun c hc => ?_⟩
    · have hone := unanswered_complete s [⟨ticket, input, none⟩] ⟨reply, input, ticket, none⟩
      rw [hnone, Nat.zero_add] at hone
      exact hone.trans_le List.countP_le_length
    · rcases List.mem_append.1 hc with hc | hc
      · exact hown c hc
      · obtain rfl := List.mem_singleton.1 hc
        exact ⟨rfl, rfl, rfl, nofun⟩

theorem ordered_startRound (h : Ordered s) (hidle : s.Idle) (ticket : Ticket)
    (sources : Sources) : Ordered (s.startRound ticket sources) :=
  ordered_begins h hidle (begins_startRound s ticket sources)

theorem ordered_compile (h : Ordered s) (hidle : s.Idle) (sources : Sources) :
    Ordered (s.compile sources) := by
  have h' : Ordered { s with calls := s.calls + 1 } := h.congr rfl
  exact ordered_startRound h' hidle _ _

theorem ordered_report (h : Ordered s) (call : ℕ) (reply : Reply) :
    Ordered (s.report call reply) := by
  unfold CompilerService.report
  split <;> exact h.congr rfl

/-- The rounds that have yet to go on stay the same. -/
theorem countP_popped (answer : Answer) (resolved : List (Pending × Answer)) :
    (popped answer resolved).countP (fun c => c.1.ticket.retry) =
      resolved.countP fun c => c.1.ticket.retry := by
  simp only [popped, List.countP_map, Function.comp_def]

/-- **A round goes on.** If it begins another, it was the only one. -/
theorem ordered_microtask (h : Ordered s) (library : Library) : Ordered (s.microtask library) := by
  have htaken : ∀ {p : Pending} {answer : Answer} {rest : List (Pending × Answer)},
      s.resolved = (p, answer) :: rest → { s with resolved := popped answer rest }.unanswered +
        (if p.ticket.retry then 1 else 0) ≤ 1 := by
    intro p answer rest hresolved
    simp only [unanswered, countP_popped]
    simpa [unanswered, hresolved, List.countP_cons, Nat.add_assoc] using h.one
  have hgoesOn := goesOn_microtask s library
  generalize s.microtask library = s' at hgoesOn ⊢
  cases hgoesOn with
  | rests => exact h
  | retries hresolved _ hretry =>
    have hone := htaken hresolved
    rw [if_pos hretry] at hone
    exact ordered_startRound (h.setResolved ((Nat.le_add_right _ _).trans hone))
      (Nat.le_zero.1 (Nat.le_of_succ_le_succ hone)) _ _
  | reports hresolved =>
    exact ordered_report (h.setResolved ((Nat.le_add_right _ _).trans (htaken hresolved))) _ _

/-- **A worker is replaced**, whatever waits on the one before. -/
theorem ordered_loadCompiler (h : Ordered s) (script : Option Compiler) :
    Ordered (s.loadCompiler script) := by
  unfold loadCompiler
  split
  · split
    · refine ⟨fun i w hw => ?_, fun i hi => ?_, fun i w hw => ?_, h.one, fun c hc => ?_⟩
      · rcases of_getElem?_concat hw with hw | ⟨-, rfl⟩
        · exact h.sound i w hw
        · exact Worker.sound_new script
      · obtain rfl : s.workers.length = i := Option.some.inj hi
        simp
      · rcases of_getElem?_concat hw with hw | ⟨-, rfl⟩
        · exact h.inFlight i w hw
        · exact .inl (Worker.messages_new script)
      · refine SameWorkers.own (fun i w hw => ⟨w, ?_, rfl⟩) (h.own c hc)
        rw [List.getElem?_append_left (List.getElem?_eq_some_iff.1 hw).1]
        exact hw
    · exact h.congr rfl
  · exact h.congr rfl

theorem ordered_poll (h : Ordered s) (compiler : Compiler) : Ordered (s.poll compiler) := by
  unfold poll
  split <;> exact h.congr rfl

/-- A worker handles a message. -/
theorem ordered_work (h : Ordered s) (i : ℕ) : Ordered (s.work i) := by
  refine ⟨fun j w hw => ?_, fun j hj => ?_, fun j w hw => ?_, h.one,
    fun c hc => (sameWorkers_work s i).own (h.own c hc)⟩
  · obtain ⟨w', hw', ⟨-, rfl⟩ | ⟨-, rfl⟩⟩ := of_getElem?_modify hw
    · exact (h.sound j w' hw').work
    · exact h.sound j w hw'
  · simpa [work] using h.current j hj
  · obtain ⟨w', hw', ⟨-, rfl⟩ | ⟨-, rfl⟩⟩ := of_getElem?_modify hw
    · have hsub := Worker.messages_work w'
      rcases h.inFlight j w' hw' with hnil | ⟨p, hp, hworker, hmessages⟩
      · rw [hnil] at hsub
        exact .inl (List.sublist_nil.1 hsub)
      · rw [hmessages] at hsub
        rcases List.sublist_singleton.1 hsub with hnil | hone
        · exact .inl hnil
        · exact .inr ⟨p, hp, hworker, hone⟩
    · exact h.inFlight j w hw'

/-- A worker's queue is read from. -/
theorem Ordered.sound_set (h : Ordered s) {i : ℕ} {w : Worker} {response : Response}
    {outbox : List Response} (hw : s.workers[i]? = some w)
    (houtbox : w.outbox = response :: outbox) :
    ∀ (j : ℕ) (v : Worker), (s.workers.set i { w with outbox := outbox })[j]? = some v →
      v.Sound := by
  intro j v hv
  rcases of_getElem?_set hv with ⟨rfl, rfl⟩ | ⟨-, hv⟩
  · exact (h.sound j w hw).pop houtbox
  · exact h.sound j v hv

/-- **A reply at the front of a queue** is to the one round that waits, and is all
there is of compile messages in any queue. -/
theorem Ordered.waits (h : Ordered s) {i : ℕ} {w : Worker} {reply : Reply}
    {input : CompilerInput} {ticket : Ticket} {outbox : List Response}
    (hw : s.workers[i]? = some w)
    (houtbox : w.outbox = .compileResult reply input ticket :: outbox) :
    ∃ p, s.waiting = [p] ∧ p.worker = some i ∧ (ticket, input) = (p.ticket, p.input) ∧
      ({ w with outbox := outbox } : Worker).messages = [] ∧
      ∀ (j : ℕ) (v : Worker), j ≠ i → s.workers[j]? = some v → v.messages = [] := by
  have hmessages : w.messages =
      (ticket, input) :: ({ w with outbox := outbox } : Worker).messages := by
    simp [Worker.messages, houtbox]
  obtain ⟨p, hp, hworker, hone⟩ : ∃ p, s.waiting = [p] ∧ p.worker = some i ∧
      w.messages = [(p.ticket, p.input)] := by
    rcases h.inFlight i w hw with hnil | hround
    · rw [hmessages] at hnil
      cases hnil
    · exact hround
  rw [hmessages] at hone
  obtain ⟨hmessage, hrest⟩ := List.cons.inj hone
  refine ⟨p, hp, hworker, hmessage, hrest, fun j v hji hv => ?_⟩
  rcases h.inFlight j v hv with hnil | ⟨p', hp', hworker', -⟩
  · exact hnil
  · rw [hp] at hp'
    obtain rfl := List.singleton_inj.1 hp'
    rw [hworker] at hworker'
    exact absurd (Option.some.inj hworker').symm hji

/-- **A message is delivered.** If it is a reply, the one round that waits is
the one it is a reply to. -/
theorem ordered_deliver (h : Ordered s) (i : ℕ) : Ordered (s.deliver i) := by
  have hdelivers := delivers_deliver s i
  have hworkers := hdelivers.sameWorkers
  generalize s.deliver i = s' at hdelivers hworkers ⊢
  cases hdelivers with
  | nothing => exact h
  | @loaded w version outbox hw houtbox =>
    -- the queues lose no compile message
    have hmessages : ({ w with outbox := outbox } : Worker).messages = w.messages := by
      simp [Worker.messages, houtbox]
    refine ⟨h.sound_set hw houtbox, fun j hj => ?_, fun j v hv => ?_, h.one,
      fun c hc => hworkers.own (h.own c hc)⟩
    · simpa using h.current j hj
    · rcases of_getElem?_set hv with ⟨rfl, rfl⟩ | ⟨-, hv⟩
      · rw [hmessages]
        exact h.inFlight j w hw
      · exact h.inFlight j v hv
  | @replied w reply input ticket outbox hw houtbox =>
    obtain ⟨p, hp, hworker, hmessage, hrest, helsewhere⟩ := h.waits hw houtbox
    obtain ⟨rfl, rfl⟩ := Prod.mk.inj hmessage
    have hreply : compileSync w.effective p.input = .ok reply :=
      (h.sound i w hw).answers _ _ _ (by rw [houtbox]; exact List.mem_cons_self)
    rw [hp] at hworkers ⊢
    -- it was the only message, so nothing is under way any more
    refine ⟨h.sound_set hw houtbox, fun j hj => ?_, fun j v hv => .inl ?_, ?_, fun c hc => ?_⟩
    · simpa [complete] using h.current j hj
    · rcases of_getElem?_set hv with ⟨rfl, rfl⟩ | ⟨hji, hv⟩
      · exact hrest
      · exact helsewhere j v hji hv
    · have hone : 1 + (s.resolved.countP fun c => c.1.ticket.retry) ≤ 1 := by
        simpa [unanswered, hp] using h.one
      have hcount : [p].countP (fun p => p.ticket.retry) ≤ 1 := List.countP_le_length
      rw [unanswered_complete]
      simp only [unanswered, List.length_nil]
      omega
    · rcases List.mem_append.1 hc with hc | hc
      · exact hworkers.own (h.own c hc)
      · obtain rfl := List.mem_singleton.1 hc
        refine ⟨rfl, rfl, hworker.symm, fun j hj => ?_⟩
        rw [hworker] at hj
        obtain rfl := Option.some.inj hj
        exact ⟨_, List.getElem?_set_self (List.getElem?_eq_some_iff.1 hw).1, hreply⟩

end

/-! ## Runs -/

/-- **Web-worker mode is never left**, so a round is posted to a worker. -/
structure InWorkers (s : CompilerService) : Prop where
  mode : s.useWebWorker = true ∧ s.hasWorker = true
  waiting : ∀ p ∈ s.waiting, p.worker ≠ none
  completions : ∀ c ∈ s.completions, c.1.worker ≠ none

section

variable {s s' : CompilerService}

theorem InWorkers.congr (h : InWorkers s) (hmode : s'.useWebWorker = s.useWebWorker ∧
    s'.hasWorker = s.hasWorker) (hwaiting : s'.waiting = s.waiting)
    (hcompletions : s'.completions = s.completions) : InWorkers s' where
  mode := by rw [hmode.1, hmode.2]; exact h.mode
  waiting := by rw [hwaiting]; exact h.waiting
  completions := by rw [hcompletions]; exact h.completions

theorem inWorkers_startRound (h : InWorkers s) (ticket : Ticket) (sources : Sources) :
    InWorkers (s.startRound ticket sources) := by
  have hbegins := begins_startRound s ticket sources
  generalize s.startRound ticket sources = s' at hbegins ⊢
  cases hbegins with
  | lost => exact h.congr ⟨rfl, rfl⟩ rfl rfl
  | posted =>
    refine ⟨h.mode, fun p hp => ?_, h.completions⟩
    rcases List.mem_append.1 hp with hp | hp
    · exact h.waiting p hp
    · obtain rfl := List.mem_singleton.1 hp
      exact Option.some_ne_none _
  | answered hmode =>
    rw [h.mode.1] at hmode
    cases hmode

theorem inWorkers_report (h : InWorkers s) (call : ℕ) (reply : Reply) :
    InWorkers (s.report call reply) := by
  unfold CompilerService.report
  split <;> exact h.congr ⟨rfl, rfl⟩ rfl rfl

theorem inWorkers_microtask (h : InWorkers s) (library : Library) :
    InWorkers (s.microtask library) := by
  have htaken : ∀ resolved, InWorkers { s with resolved := resolved } :=
    fun _ => h.congr ⟨rfl, rfl⟩ rfl rfl
  have hgoesOn := goesOn_microtask s library
  generalize s.microtask library = s' at hgoesOn ⊢
  cases hgoesOn with
  | rests => exact h
  | retries => exact inWorkers_startRound (htaken _) _ _
  | reports => exact inWorkers_report (htaken _) _ _

theorem inWorkers_loadCompiler (h : InWorkers s) (script : Option Compiler) :
    InWorkers (s.loadCompiler script) := by
  unfold loadCompiler
  rw [if_pos h.mode.1, if_pos h.mode.2]
  exact h.congr ⟨rfl, rfl⟩ rfl rfl

theorem inWorkers_deliver (h : InWorkers s) (i : ℕ) : InWorkers (s.deliver i) := by
  have hdelivers := delivers_deliver s i
  generalize s.deliver i = s' at hdelivers ⊢
  cases hdelivers with
  | nothing => exact h
  | loaded => exact h.congr ⟨rfl, rfl⟩ rfl rfl
  | replied =>
    refine ⟨h.mode, List.forall_mem_nil _, fun c hc => ?_⟩
    rcases List.mem_append.1 hc with hc | hc
    · exact h.completions c hc
    · obtain ⟨p, hp, rfl⟩ := List.mem_map.1 hc
      exact h.waiting p hp

theorem inWorkers_step (h : InWorkers s) (e : ServiceEvent) : InWorkers (serviceDesk.step s e) := by
  cases e with
  | compile sources =>
    have h' : InWorkers { s with calls := s.calls + 1 } := h.congr ⟨rfl, rfl⟩ rfl rfl
    exact inWorkers_startRound h' _ _
  | loadCompiler script => exact inWorkers_loadCompiler h script
  | setOptimize optimize => exact h.congr ⟨rfl, rfl⟩ rfl rfl
  | work i => exact h.congr ⟨rfl, rfl⟩ rfl rfl
  | deliver i => exact inWorkers_deliver h i
  | microtask library => exact inWorkers_microtask h library

end

/-- **Every round that is complete was completed by its own answer**: what
the worker that was current when the round was posted computes from the
round's input. -/
def OwnAnswers (s : CompilerService) : Prop :=
  ∀ c ∈ s.completions, c.2.ticket = c.1.ticket ∧ c.2.input = c.1.input ∧
    c.2.worker = c.1.worker ∧ ∃ (i : ℕ) (w : Worker), c.1.worker = some i ∧
      s.workers[i]? = some w ∧ compileSync w.effective c.1.input = .ok c.2.reply

/-- `compile` is called only while no earlier call is unanswered. -/
def oneAtATime (s : CompilerService) : ServiceEvent → Prop
  | .compile _ => s.Idle
  | _ => True

theorem ordered_step {s : CompilerService} {e : ServiceEvent} (h : Ordered s)
    (he : oneAtATime s e) : Ordered (serviceDesk.step s e) := by
  cases e with
  | compile sources => exact ordered_compile h he sources
  | loadCompiler script => exact ordered_loadCompiler h script
  | setOptimize optimize => exact h.congr rfl
  | work i => exact ordered_work h i
  | deliver i => exact ordered_deliver h i
  | microtask library => exact ordered_microtask h library

/-- A new service has nothing under way. -/
theorem ordered_new (hasWorker useWebWorker optimize : Bool) :
    Ordered (.new hasWorker useWebWorker optimize) where
  sound := nofun
  current := nofun
  inFlight := nofun
  one := Nat.zero_le 1
  own := nofun

/-- **Rounds are completed by their own answers**, in every run in which
calls do not overlap: loads may come at any time. -/
theorem rounds_have_their_own_answers {s : CompilerService}
    (h : (serviceDesk.under oneAtATime).Reachable s) : OwnAnswers s := by
  obtain ⟨hordered, hworkers⟩ : Ordered s ∧ InWorkers s := by
    refine h.invariant (I := fun s => Ordered s ∧ InWorkers s) ?_ fun s e hs he => ?_
    · rintro _ ⟨optimize, rfl⟩
      exact ⟨ordered_new _ _ _, ⟨rfl, rfl⟩, nofun, nofun⟩
    · exact ⟨ordered_step hs.1 he.2, inWorkers_step hs.2 e⟩
  intro c hc
  have hown := hordered.own c hc
  obtain ⟨i, hi⟩ := Option.ne_none_iff_exists'.1 (hworkers.completions c hc)
  obtain ⟨w, hw, hreply⟩ := hown.computed i hi
  exact ⟨hown.ticket, hown.input, hown.worker, i, w, hi, hw, hreply⟩

/-- **A reply that comes in while two rounds wait** is not the own one of
both. -/
theorem shared_reply {s : CompilerService} {p q : Pending} {i : ℕ} {w : Worker} {reply : Reply}
    {input : CompilerInput} {ticket : Ticket} {outbox : List Response} (hp : p ∈ s.waiting)
    (hq : q ∈ s.waiting) (hne : p.ticket ≠ q.ticket) (hw : s.workers[i]? = some w)
    (houtbox : w.outbox = .compileResult reply input ticket :: outbox) :
    ¬ OwnAnswers (s.deliver i) := by
  intro h
  have hmem : ∀ r ∈ s.waiting, (r, ⟨reply, input, ticket, some i⟩) ∈ (s.deliver i).completions := by
    intro r hr
    simp only [deliver, hw, houtbox, complete]
    exact List.mem_append_right _ (List.mem_map_of_mem hr)
  exact hne ((h _ (hmem p hp)).1.symm.trans (h _ (hmem q hq)).1)

/-- A compiler that asks for nothing. -/
def quietCompiler : Compiler := ⟨fun _ => .ok (.raw "", []), "0.4.24"⟩

/-- The compiler is loaded, and one source compiled, in two rounds. -/
def oneCall : List ServiceEvent :=
  [.loadCompiler (some quietCompiler), .work 0, .deliver 0, .compile [("A.sol", "")], .work 0,
    .deliver 0, .microtask [], .work 0, .deliver 0, .microtask []]

theorem oneCall_has_its_own_answers :
    let s := (serviceDesk.under oneAtATime).run (.new true true false) oneCall
    s.completions.length = 2 ∧ OwnAnswers s := by
  intro s
  have hs : (serviceDesk.under oneAtATime).Reachable s := by
    refine .run (.start ⟨false, rfl⟩) ?_
    refine ⟨⟨trivial, trivial⟩, ⟨trivial, trivial⟩, ⟨rfl, trivial⟩, ⟨trivial, rfl⟩,
      ⟨trivial, trivial⟩, ⟨rfl, trivial⟩, ⟨trivial, trivial⟩, ⟨trivial, trivial⟩, ⟨rfl, trivial⟩,
      ⟨trivial, trivial⟩, trivial⟩
  exact ⟨rfl, rounds_have_their_own_answers hs⟩

/-- Two sources are compiled, the second while the first one waits. -/
def twoCalls : List ServiceEvent :=
  [.loadCompiler (some quietCompiler), .work 0, .deliver 0, .compile [("A.sol", "")],
    .compile [("B.sol", "")], .work 0, .deliver 0]

/-- **The reply to the first call completes the second as well.** -/
theorem first_reply_completes_both :
    ¬ ∀ s, serviceDesk.Reachable s → OwnAnswers s := by
  intro h
  have hs : serviceDesk.Reachable (serviceDesk.run (.new true true false) twoCalls) :=
    .run (.start ⟨false, rfl⟩)
      ⟨trivial, trivial, rfl, trivial, trivial, trivial, rfl, trivial⟩
  have hown := h _ hs
  have hmem := hown (⟨⟨1, true⟩, ⟨[("B.sol", "")], false⟩, some 0⟩,
    ⟨⟨.raw "", some []⟩, ⟨[("A.sol", "")], false⟩, ⟨0, true⟩, some 0⟩) (.tail _ (.head _))
  exact absurd hmem.1 (by decide)

end Hmix
