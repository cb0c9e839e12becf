import Hmix.Compiler.Replies
import Hmix.Compiler.Result
import Hmix.Model.Imports

/-!
# The rounds of a request

A request is remembered with the compiler, the setting and the files there
were when it was made, and when its imports were gathered. What its
compilation comes to, by itself, is a function of these (`alone`). While
requests do not overlap, every round there is is one of the last request
and is owed what that function says (`Follows`): beginning a round,
delivering a message and loading a compiler keep that.
-/

namespace Hmix

/-! ## A request by itself -/

/-- What a round depends on, besides its sources. -/
structure Setting where
  compiler : Option Solc
  optimize : Bool
  library : Library

/-- A round. -/
def Setting.round (setting : Setting) (sources : Sources) : Except Thrown Reply :=
  match setting.compiler with
  | some compiler => compileSync compiler ⟨sources, setting.optimize⟩
  | none => .error .typeError

/-- **A compilation by itself**: its last reply, where the page is as
`first` has it when it begins, and as `second` has it when its imports are
gathered. -/
def alone (first second : Setting) (sources : Sources) : Except Thrown Reply :=
  match first.round sources with
  | .error e => .error e
  | .ok reply =>
    match reply.missingInputs with
    | some missingInputs => second.round (gatherImports second.library sources missingInputs)
    | none => .ok reply

/-- Where nothing is changed in between, that is the round `compile`
parses. -/
theorem compile_eq_alone (compiler : Solc) (library : Library) (optimize : Bool)
    (sources : Sources) :
    let setting : Setting := ⟨some compiler, optimize, library⟩
    Round.reply <$> compile compiler library optimize sources =
      match alone setting setting sources with
      | .ok reply => do
        parseCompilationResult reply.result
        return reply
      | .error e => throw e := by
  intro setting
  simp only [alone, Setting.round, setting, compile, compileOnce, round, report]
  cases hfirst : compileSync compiler ⟨sources, optimize⟩ with
  | error e => rfl
  | ok first =>
    simp only [map_eq_pure_bind, pure_bind]
    cases hmissing : first.missingInputs with
    | none => simp only [bind_assoc, pure_bind]
    | some missingInputs =>
      -- the second round is the one that is parsed
      cases hsecond : compileSync compiler ⟨gatherImports library sources missingInputs, optimize⟩
      · simp only [hsecond]
        rfl
      · simp only [hsecond, bind_assoc, pure_bind]

/-- **A request**: its call and its sources, and the page when it was made
and when its imports were gathered. -/
structure Job where
  call : ℕ
  sources : Sources
  first : Setting
  second : Setting

/-- What the request comes to by itself. -/
def Job.alone (job : Job) : Except Thrown Reply := Hmix.alone job.first job.second job.sources

/-- What a round of the request is owed. -/
def Job.owed (job : Job) (ticket : Ticket) : Except Thrown Reply :=
  if ticket.retry then job.first.round job.sources else job.alone

/-- The output is a well-formed one, unless its text cannot be read. -/
def Readable (result : Text) : Prop :=
  (∃ output : CompilerOutput, result = .json output.json) ∨ ∃ text, result = .raw text

/-- A compiler whose outputs are well formed, where they can be read. -/
def Honest (compiler : Solc) : Prop :=
  ∀ input reply, compileSync compiler input = .ok reply → Readable reply.result

theorem honest_placeholder : Honest Worker.placeholder := by
  intro input reply h
  obtain rfl := Except.ok.inj h
  exact .inr ⟨_, rfl⟩

/-! ## The rounds of a request -/

namespace CompilerService

/-- The compiler of a round that begins now. -/
def compiler (s : CompilerService) : Option Solc :=
  if s.useWebWorker then (s.webWorker.bind fun i => s.workers[i]?).map Worker.effective
  else s.syncCompiler.map Compiler.compile

/-- No round waits, and none has yet to go on. -/
def Still (s : CompilerService) : Prop := s.waiting = [] ∧ s.resolved = []

theorem Still.idle {s : CompilerService} (h : s.Still) : s.Idle := by
  simp [Idle, unanswered, h.1, h.2]

end CompilerService

open CompilerService

section

variable {s s' : CompilerService} {ticket : Ticket} {input : CompilerInput}

/-- How many loads are under way. -/
def CompilerService.loads (s : CompilerService) : ℕ := s.polling + s.loading + s.loaded

/-- What only calls and reports change. -/
structure SameBooks (s s' : CompilerService) : Prop where
  calls : s'.calls = s.calls
  settled : s'.settled = s.settled
  latest : s'.latest = s.latest

/-- The rounds there are are the same, and so are the workers they wait
for. -/
structure SameRounds (s s' : CompilerService) : Prop where
  workers : SameWorkers s s'
  waiting : s'.waiting = s.waiting
  resolved : s'.resolved = s.resolved

theorem Begins.sameBooks (h : Begins s ticket input s') : SameBooks s s' := by
  cases h <;> exact ⟨rfl, rfl, rfl⟩

theorem Begins.loads (h : Begins s ticket input s') : s'.loads = s.loads := by
  cases h <;> rfl

/-! A load begins, a poll finds a script, and a message is delivered. -/

theorem sameBooks_loadCompiler (s : CompilerService) (script : Option Compiler) :
    SameBooks s (s.loadCompiler script) := by
  unfold loadCompiler
  split
  · split <;> exact ⟨rfl, rfl, rfl⟩
  · exact ⟨rfl, rfl, rfl⟩

theorem sameRounds_loadCompiler (s : CompilerService) (script : Option Compiler) :
    SameRounds s (s.loadCompiler script) := by
  refine ⟨sameWorkers_loadCompiler s script, ?_, ?_⟩ <;> unfold loadCompiler <;> split
  · split <;> rfl
  · rfl
  · split <;> rfl
  · rfl

theorem loads_loadCompiler (s : CompilerService) (script : Option Compiler) :
    0 < (s.loadCompiler script).loads := by
  unfold loadCompiler loads
  split
  · split
    · dsimp only
      omega
    · dsimp only
      omega
  · dsimp only
    omega

theorem sameBooks_poll (s : CompilerService) (compiler : Compiler) :
    SameBooks s (s.poll compiler) := by
  unfold poll
  split <;> exact ⟨rfl, rfl, rfl⟩

theorem sameRounds_poll (s : CompilerService) (compiler : Compiler) :
    SameRounds s (s.poll compiler) := by
  unfold poll
  split <;> exact ⟨.of_eq rfl, rfl, rfl⟩

theorem loads_poll (s : CompilerService) (compiler : Compiler) :
    (s.poll compiler).loads = s.loads := by
  unfold poll loads
  split
  · rfl
  · dsimp only
    omega

theorem sameBooks_deliver (s : CompilerService) (i : ℕ) : SameBooks s (s.deliver i) := by
  have hdelivers := delivers_deliver s i
  generalize s.deliver i = s' at hdelivers ⊢
  cases hdelivers <;> exact ⟨rfl, rfl, rfl⟩

theorem loads_deliver (s : CompilerService) (i : ℕ) : (s.deliver i).loads = s.loads := by
  have hdelivers := delivers_deliver s i
  generalize s.deliver i = s' at hdelivers ⊢
  cases hdelivers with
  | nothing => rfl
  | loaded =>
    unfold loads
    dsimp only
    omega
  | replied => rfl

/-- The compilers a round may begin with are honest. -/
structure HonestCompilers (s : CompilerService) : Prop where
  sync : ∀ compiler, s.syncCompiler = some compiler → Honest compiler.compile
  worker : ∀ (i : ℕ) (w : Worker), s.webWorker = some i → s.workers[i]? = some w →
    Honest w.effective

theorem HonestCompilers.compiler (h : HonestCompilers s) {c : Solc} (hc : s.compiler = some c) :
    Honest c := by
  unfold CompilerService.compiler at hc
  split_ifs at hc
  · obtain ⟨w, hw, rfl⟩ := Option.map_eq_some_iff.1 hc
    obtain ⟨i, hi, hw⟩ := Option.bind_eq_some_iff.1 hw
    exact h.worker i w hi hw
  · obtain ⟨compiler, hcompiler, rfl⟩ := Option.map_eq_some_iff.1 hc
    exact h.sync compiler hcompiler

theorem HonestCompilers.congr (h : HonestCompilers s) (hordered : Ordered s)
    (hworkers : SameWorkers s s') (hcurrent : s'.webWorker = s.webWorker)
    (hsync : s'.syncCompiler = s.syncCompiler) : HonestCompilers s' where
  sync := by rw [hsync]; exact h.sync
  worker := fun i w' hi hw' => by
    rw [hcurrent] at hi
    have hw := List.getElem?_eq_getElem (hordered.current i hi)
    obtain ⟨w'', hw'', heff⟩ := hworkers i _ hw
    obtain rfl : w'' = w' := Option.some.inj (hw''.symm.trans hw')
    rw [heff]
    exact h.worker i _ hi hw

theorem Begins.honestCompilers (h : Begins s ticket input s') (hhonest : HonestCompilers s)
    (hordered : Ordered s) : HonestCompilers s' := by
  refine hhonest.congr hordered h.sameWorkers ?_ ?_ <;> cases h <;> rfl

theorem honest_poll (h : HonestCompilers s) {compiler : Compiler}
    (hcompiler : Honest compiler.compile) : HonestCompilers (s.poll compiler) := by
  unfold poll
  split
  · exact h
  · refine ⟨fun c hc => ?_, h.worker⟩
    obtain rfl := Option.some.inj hc
    exact hcompiler

theorem honest_deliver (h : HonestCompilers s) (hordered : Ordered s) (i : ℕ) :
    HonestCompilers (s.deliver i) := by
  have hdelivers := delivers_deliver s i
  generalize s.deliver i = s' at hdelivers ⊢
  refine h.congr hordered hdelivers.sameWorkers ?_ ?_ <;> cases hdelivers <;> rfl

theorem honest_effective {w : Worker} (h : ∀ c, w.script = some c → Honest c.compile) :
    Honest w.effective := by
  unfold Worker.effective
  split
  · next c hc => exact h c hc
  · exact honest_placeholder

/-- **What a message does to the rounds**: nothing, or it is a reply and
completes all that wait. -/
theorem deliver_cases (s : CompilerService) (i : ℕ) :
    ((s.deliver i).waiting = s.waiting ∧ (s.deliver i).resolved = s.resolved) ∨
      ∃ answer, (s.deliver i).waiting = [] ∧
        (s.deliver i).resolved = s.resolved ++ s.waiting.map (fun p => (p, answer)) ∧
        ∀ p ∈ s.waiting, (p, answer) ∈ (s.deliver i).completions := by
  have hdelivers := delivers_deliver s i
  generalize s.deliver i = s' at hdelivers ⊢
  cases hdelivers with
  | nothing => exact .inl ⟨rfl, rfl⟩
  | loaded => exact .inl ⟨rfl, rfl⟩
  | replied =>
    exact .inr ⟨_, rfl, rfl, fun p hp =>
      List.mem_append_right _ (List.mem_map_of_mem (f := fun p => (p, _)) hp)⟩

end

/-- **The rounds there are are the request's**, at most one, and get what
they are owed: from the worker they wait for, or with the answer they
have. -/
structure Follows (job : Job) (s : CompilerService) : Prop where
  few : s.waiting.length + s.resolved.length ≤ 1
  call : ∀ p ∈ s.waiting ++ s.resolved.map Prod.fst, p.ticket.call = job.call
  sources : ∀ p ∈ s.waiting ++ s.resolved.map Prod.fst, p.ticket.retry = true →
    p.input.sources = job.sources
  waiting : ∀ p ∈ s.waiting, ∃ (i : ℕ) (w : Worker), p.worker = some i ∧
    s.workers[i]? = some w ∧ Honest w.effective ∧
    compileSync w.effective p.input = job.owed p.ticket
  resolved : ∀ c ∈ s.resolved, job.owed c.1.ticket = .ok c.2.reply ∧ Readable c.2.reply.result

section

variable {s s' : CompilerService} {job : Job} {ticket : Ticket} {input : CompilerInput}

theorem Follows.congr (h : Follows job s) (hrounds : SameRounds s s') : Follows job s' where
  few := by rw [hrounds.waiting, hrounds.resolved]; exact h.few
  call := by rw [hrounds.waiting, hrounds.resolved]; exact h.call
  sources := by rw [hrounds.waiting, hrounds.resolved]; exact h.sources
  waiting := fun p hp => by
    rw [hrounds.waiting] at hp
    obtain ⟨i, w, hi, hw, hhonest, howed⟩ := h.waiting p hp
    obtain ⟨w', hw', heff⟩ := hrounds.workers i w hw
    exact ⟨i, w', hi, hw', by rwa [heff], by rwa [heff]⟩
  resolved := by rw [hrounds.resolved]; exact h.resolved

theorem CompilerService.Still.congr (h : s.Still) (hrounds : SameRounds s s') : s'.Still :=
  ⟨hrounds.waiting.trans h.1, hrounds.resolved.trans h.2⟩

/-- **A round of the request is begun**, as the only one. -/
theorem follows_begins (hstill : s.Still) (hordered : Ordered s)
    (hhonest : HonestCompilers s) (hcall : ticket.call = job.call)
    (hsources : ticket.retry = true → input.sources = job.sources)
    (howed : ∀ compiler, s.compiler = some compiler →
      compileSync compiler input = job.owed ticket)
    (h : Begins s ticket input s') : Follows job s' := by
  obtain ⟨hwaiting, hresolved⟩ := hstill
  have hworkers : SameWorkers s s' := h.sameWorkers
  cases h with
  | lost => constructor <;> simp [hwaiting, hresolved]
  | @posted i hmode hi =>
    have hw := List.getElem?_eq_getElem (hordered.current i hi)
    obtain ⟨w', hw', heff⟩ := hworkers i _ hw
    have hcompiler : s.compiler = some w'.effective := by
      simp only [compiler, hmode, if_true, hi, Option.bind_some, hw, Option.map_some, heff]
    constructor
    · simp [hwaiting, hresolved]
    · simp [hwaiting, hresolved, hcall]
    · simpa [hwaiting, hresolved] using hsources
    · intro p hp
      obtain rfl : p = ⟨ticket, input, some i⟩ := by simpa [hwaiting] using hp
      exact ⟨i, w', rfl, hw', hhonest.compiler hcompiler, howed _ hcompiler⟩
    · simp [hresolved]
  | @answered c reply hmode hc hreply =>
    have hcompiler : s.compiler = some c.compile := by
      simp [compiler, hmode, hc]
    have hreply' : job.owed ticket = .ok reply := (howed _ hcompiler).symm.trans hreply
    constructor
    · simp [complete, hwaiting, hresolved]
    · simp [complete, hwaiting, hresolved, hcall]
    · simpa [complete, hwaiting, hresolved] using hsources
    · simp [complete, hwaiting]
    · simpa [complete, hresolved] using ⟨hreply', hhonest.compiler hcompiler _ _ hreply⟩

theorem still_deliver (i : ℕ) (h : s.Still) : (s.deliver i).Still := by
  rcases deliver_cases s i with ⟨hwaiting, hresolved⟩ | ⟨answer, hwaiting, hresolved, -⟩
  · exact ⟨hwaiting.trans h.1, hresolved.trans h.2⟩
  · refine ⟨hwaiting, ?_⟩
    rw [hresolved, h.1, h.2]
    rfl

/-- **A message is delivered**: a round that waits gets what it is owed. -/
theorem follows_deliver (h : Follows job s) (hordered : Ordered s) (i : ℕ) :
    Follows job (s.deliver i) := by
  have hworkers : SameWorkers s (s.deliver i) := sameWorkers_deliver s i
  have hown := (ordered_deliver hordered i).own
  rcases deliver_cases s i with ⟨hwaiting, hresolved⟩ | ⟨answer, hwaiting, hresolved, hmem⟩
  · exact h.congr ⟨hworkers, hwaiting, hresolved⟩
  · have hrounds : ∀ p, p ∈ (s.resolved ++ s.waiting.map fun p => (p, answer)).map Prod.fst →
        p ∈ s.waiting ++ s.resolved.map Prod.fst := by
      simp [or_comm]
    constructor
    · have hfew := h.few
      rw [hwaiting, hresolved, List.length_append, List.length_map, List.length_nil]
      omega
    · rw [hwaiting, hresolved]
      exact fun p hp => h.call p (hrounds p hp)
    · rw [hwaiting, hresolved]
      exact fun p hp => h.sources p (hrounds p hp)
    · rw [hwaiting]
      exact List.forall_mem_nil _
    · rw [hresolved]
      intro c hc
      rcases List.mem_append.1 hc with hc | hc
      · exact h.resolved c hc
      · obtain ⟨p, hp, rfl⟩ := List.mem_map.1 hc
        obtain ⟨j, w, hj, hw, hhonest, howed⟩ := h.waiting p hp
        -- the answer is the round's own, from the worker it waited for
        obtain ⟨w', hw', hreply⟩ := (hown _ (hmem p hp)).computed j hj
        obtain ⟨w'', hw'', heff⟩ := hworkers j w hw
        obtain rfl : w'' = w' := Option.some.inj (hw''.symm.trans hw')
        rw [heff] at hreply
        exact ⟨howed.symm.trans hreply, hhonest _ _ hreply⟩

end

end Hmix
