import Hmix.Compiler.Latest
import Mathlib.Data.Set.Basic

/-!
# Which calls settle

A call is made, and from then on it is in one place: a round of it waits,
or a round of it has yet to go on, or its promise has resolved, or it was
dropped. A call is dropped where a round of it is rejected, and where the
text of its last reply cannot be read: nobody handles either, and the
promise `compile` returned is left as it is. Calls may overlap here in any
way, and either mode may be in use.
-/

namespace Hmix

open CompilerService

/-! ## Texts that can be read -/

/-- The message of an error can be searched: it is a text, or an array. -/
def HasMessage (error : Json) : Prop :=
  match error.field "message" with
  | some (.str _) | some (.arr _) => True
  | _ => False

/-- **An output that can be read to its end**: each context of its contracts
has keys, its errors are a list, and each has a message to search. -/
structure Json.Legible (result : Json) : Prop where
  value : result ≠ .null
  contexts : ∀ contracts, result.field "contracts" = some contracts → contracts.truthy = true →
    ∀ entry ∈ contracts.ownEntries, entry.2 ≠ .null
  error : ∀ error, result.field "error" = some error → error.truthy = true → HasMessage error
  errors : ∀ errors, result.field "errors" = some errors → errors.truthy = true →
    ∃ items, errors = .arr items ∧ ∀ error ∈ items, HasMessage error

/-- A reply's text can be read. -/
def Text.Legible : Text → Prop
  | .json result => result.Legible
  | .raw _ => False

section

variable {result : Json}

theorem Json.member_of_ne (h : result ≠ .null) (name : String) :
    result.member name = pure (result.field name) := by
  cases result with
  | null => exact absurd rfl h
  | _ => rfl

theorem Json.keys_of_ne (h : result ≠ .null) : result.keys = pure result.ownEntries := by
  cases result with
  | null => exact absurd rfl h
  | _ => rfl

theorem Json.ne_null_of_truthy (h : result.truthy = true) : result ≠ .null := by
  rintro rfl
  exact absurd h (by decide)

theorem HasMessage.ne_null (h : HasMessage result) : result ≠ .null := by
  rintro rfl
  exact h

theorem hasMessage_iff : HasMessage result ↔
    (∃ message, result.field "message" = some (.str message)) ∨
      ∃ items, result.field "message" = some (.arr items) := by
  unfold HasMessage
  rcases result.field "message" with - | (_ | _ | _ | message | items | _) <;> simp

/-- The search of a message changes nothing. -/
theorem mentionsChecksum_eq (h : HasMessage result) :
    ∃ excluded : Bool, mentionsChecksum result = pure excluded := by
  have hmember := Json.member_of_ne h.ne_null "message"
  simp only [mentionsChecksum, hmember, pure_bind]
  rcases hasMessage_iff.1 h with ⟨message, hmessage⟩ | ⟨items, hmessage⟩ <;>
    exact ⟨_, by rw [hmessage]⟩

theorem returns_mentionsChecksum_iff (latest : ICompilerResult) :
    Returns (mentionsChecksum result) latest ↔ HasMessage result := by
  constructor
  · intro h
    by_cases hnull : result = .null
    · rw [hnull] at h
      exact h.elim
    · simp only [mentionsChecksum, Json.member_of_ne hnull, pure_bind] at h
      rw [hasMessage_iff]
      rcases hmessage : result.field "message" with - | (_ | _ | _ | message | items | _)
      case some.str => exact .inl ⟨message, rfl⟩
      case some.arr => exact .inr ⟨items, rfl⟩
      all_goals
        rw [hmessage] at h
        exact h.elim
  · intro h
    obtain ⟨excluded, heq⟩ := mentionsChecksum_eq h
    rw [heq]
    exact returns_pure _ _

/-- The filter returns some of the errors where it can search each. -/
theorem excludeChecksums_ok {errors : List Json} (h : ∀ error ∈ errors, HasMessage error) :
    ∃ filteredErrors, excludeChecksums errors = pure filteredErrors ∧
      ∀ error ∈ filteredErrors, error ∈ errors := by
  induction errors with
  | nil => exact ⟨[], rfl, fun _ he => he⟩
  | cons error errors ih =>
    obtain ⟨filteredErrors, hrest, hsub⟩ := ih fun e he => h e (List.mem_cons_of_mem _ he)
    obtain ⟨excluded, hexcluded⟩ := mentionsChecksum_eq (h error List.mem_cons_self)
    refine ⟨if excluded then filteredErrors else error :: filteredErrors, ?_, fun e he => ?_⟩
    · simp only [excludeChecksums, hexcluded, hrest, pure_bind]
    · split_ifs at he
      · exact List.mem_cons_of_mem _ (hsub e he)
      · rcases List.mem_cons.1 he with rfl | he
        · exact List.mem_cons_self
        · exact List.mem_cons_of_mem _ (hsub e he)

theorem returns_excludeChecksums_iff (errors : List Json) (latest : ICompilerResult) :
    Returns (excludeChecksums errors) latest ↔ ∀ error ∈ errors, HasMessage error := by
  induction errors generalizing latest with
  | nil => exact iff_of_true trivial fun _ he => absurd he List.not_mem_nil
  | cons error errors ih =>
    rw [List.forall_mem_cons, ← returns_mentionsChecksum_iff latest]
    refine returns_bind_iff fun _ s' _ => ?_
    rw [← ih s']
    refine (returns_bind_iff (P := True) fun _ _ _ => ?_).trans (and_iff_left trivial)
    exact iff_of_true (returns_pure _ _) trivial

/-- `errors` is a list, or no truthy value. -/
def Json.ListsErrors (result : Json) : Prop :=
  ∀ errors, result.field "errors" = some errors → errors.truthy = true →
    ∃ items, errors = .arr items

/-- The errors there are, `error` first. -/
def Json.allErrors (result : Json) : List Json :=
  ((result.field "error").filter Json.truthy).toList ++
    match result.field "errors" with
    | some (.arr items) => items
    | _ => []

theorem mem_allErrors {error : Json} : error ∈ result.allErrors ↔
    (result.field "error" = some error ∧ error.truthy = true) ∨
      ∃ items, result.field "errors" = some (.arr items) ∧ error ∈ items := by
  rw [Json.allErrors, List.mem_append, Option.mem_toList, Option.filter_eq_some_iff]
  refine or_congr_right ?_
  split
  · next items hfield => simp [hfield]
  · next hfield => simpa using fun items hitems => absurd hitems (hfield items)

theorem outputErrors_of_lists (h : result ≠ .null) (hlists : result.ListsErrors) :
    outputErrors result = pure result.allErrors := by
  simp only [outputErrors, Json.member_of_ne h, pure_bind, Json.allErrors]
  rcases hfield : result.field "errors" with - | errors
  · rw [List.append_nil]
  by_cases htruthy : errors.truthy = true
  · obtain ⟨items, rfl⟩ := hlists errors hfield htruthy
    rfl
  · cases errors with
    | arr items => exact absurd rfl htruthy
    | _ => simp [htruthy]

theorem outputErrors_of_not_lists (h : result ≠ .null) (hlists : ¬ result.ListsErrors) :
    outputErrors result = throw .typeError := by
  simp only [Json.ListsErrors, not_forall] at hlists
  obtain ⟨errors, hfield, htruthy, hnot⟩ := hlists
  simp only [outputErrors, Json.member_of_ne h, pure_bind, hfield]
  cases errors with
  | arr items => exact absurd ⟨items, rfl⟩ hnot
  | _ => simp [htruthy]

/-- An error is read where it is not `null`. -/
theorem returns_pushError_iff (error : Json) (latest : ICompilerResult) :
    Returns (do
      let formattedMessage ← error.member "formattedMessage"
      modify fun latest : ICompilerResult =>
        { latest with errors := latest.errors ++ [parseError formattedMessage] }) latest ↔
      error ≠ .null := by
  by_cases hnull : error = .null
  · rw [hnull]
    exact iff_of_false (not_returns_throw _ _) fun hne => hne rfl
  · rw [Json.member_of_ne hnull, pure_bind]
    exact iff_of_true (returns_modify _ _) hnull

/-- The contracts of a context are read where it is not `null`. -/
theorem returns_pushContracts_iff (context : String × Json) (latest : ICompilerResult) :
    Returns (do
      (← context.2.keys).forM fun (contract, data) =>
        modify fun latest : ICompilerResult =>
          { latest with contracts := latest.contracts ++ [contractEntry contract data] }) latest ↔
      context.2 ≠ .null := by
  by_cases hnull : context.2 = .null
  · rw [hnull]
    exact iff_of_false (not_returns_throw _ _) fun hne => hne rfl
  · rw [Json.keys_of_ne hnull, pure_bind]
    refine iff_of_true ((returns_forM_iff (P := fun _ => True) ?_ _ latest).2 ?_) hnull
    · exact fun _ _ => iff_of_true (returns_modify _ _) trivial
    · exact fun _ _ => trivial

/-- **`parseErrors` returns** where the errors are a list of errors that can
each be searched. -/
theorem returns_parseErrors_iff (h : result ≠ .null) (latest : ICompilerResult) :
    Returns (parseErrors result) latest ↔
      result.ListsErrors ∧ ∀ error ∈ result.allErrors, HasMessage error := by
  by_cases hlists : result.ListsErrors
  · rw [and_iff_right hlists, ← returns_excludeChecksums_iff _ latest]
    simp only [parseErrors, outputErrors_of_lists h hlists, pure_bind]
    refine (returns_bind_iff (P := True) fun filteredErrors s' hok => iff_of_true ?_ trivial).trans
      (and_iff_left trivial)
    -- what the filter returned was searched, so no entry of it is `null`
    have hmessages := (returns_excludeChecksums_iff _ latest).1 (returns_iff.2 ⟨_, _, hok⟩)
    obtain ⟨filteredErrors', hfilter, hsub⟩ := excludeChecksums_ok hmessages
    rw [hfilter] at hok
    obtain ⟨rfl, rfl⟩ := EStateM.Result.ok.inj hok
    refine (returns_bind_iff fun _ s' _ => returns_forM_iff returns_pushError_iff _ s').2
      ⟨returns_modify _ _, fun error he => (hmessages error (hsub error he)).ne_null⟩
  · rw [parseErrors, outputErrors_of_not_lists h hlists]
    exact iff_of_false (not_returns_throw _ _) fun hand => hlists hand.1

/-- **`parseContracts` returns** where each context has keys. -/
theorem returns_parseContracts_iff (h : result ≠ .null) (latest : ICompilerResult) :
    Returns (parseContracts result) latest ↔ ∀ contracts,
      result.field "contracts" = some contracts → contracts.truthy = true →
        ∀ entry ∈ contracts.ownEntries, entry.2 ≠ .null := by
  simp only [parseContracts, Json.member_of_ne h, pure_bind]
  rcases hfield : result.field "contracts" with - | contracts
  · exact iff_of_true (returns_pure _ _) (by simp)
  simp only [Option.some.injEq, forall_eq']
  by_cases htruthy : contracts.truthy = true
  · simp only [htruthy, Bool.not_true, Bool.false_eq_true, if_false, forall_const,
      Json.keys_of_ne (Json.ne_null_of_truthy htruthy), pure_bind]
    exact (returns_bind_iff fun _ s' _ => returns_forM_iff returns_pushContracts_iff _ s').trans
      (and_iff_right (returns_modify _ _))
  · rw [if_pos (by simpa using htruthy)]
    exact iff_of_true (returns_pure _ _) fun htrue => absurd htrue htruthy

/-- **What `parseCompilationResult` can read.** -/
theorem returns_parse_iff (text : Text) (latest : ICompilerResult) :
    Returns (parseCompilationResult text) latest ↔ text.Legible := by
  cases text with
  | raw text => exact iff_of_false (not_returns_throw _ _) id
  | json result =>
    by_cases hnull : result = .null
    · rw [hnull]
      exact iff_of_false (not_returns_throw _ _) fun hlegible => hlegible.value rfl
    have hparse : Returns (parseCompilationResult (.json result)) latest ↔
        Returns (parseContracts result) latest ∧
          result.ListsErrors ∧ ∀ error ∈ result.allErrors, HasMessage error :=
      returns_bind_iff fun _ s' _ => returns_parseErrors_iff hnull s'
    rw [hparse, returns_parseContracts_iff hnull]
    constructor
    · rintro ⟨hcontexts, hlists, hmessages⟩
      refine ⟨hnull, hcontexts, fun error hfield htruthy => ?_, fun errors hfield htruthy => ?_⟩
      · exact hmessages error (mem_allErrors.2 (.inl ⟨hfield, htruthy⟩))
      · obtain ⟨items, rfl⟩ := hlists errors hfield htruthy
        exact ⟨items, rfl, fun error he =>
          hmessages error (mem_allErrors.2 (.inr ⟨items, hfield, he⟩))⟩
    · rintro ⟨-, hcontexts, herror, herrors⟩
      refine ⟨hcontexts, fun errors hfield htruthy => ?_, fun error he => ?_⟩
      · obtain ⟨items, hitems, -⟩ := herrors errors hfield htruthy
        exact ⟨items, hitems⟩
      · rcases mem_allErrors.1 he with ⟨hfield, htruthy⟩ | ⟨items, hfield, he⟩
        · exact herror error hfield htruthy
        · obtain ⟨items', hitems, hmessages⟩ := herrors _ hfield rfl
          obtain rfl := Json.arr.inj hitems
          exact hmessages error he

end

/-! ## Where a call is -/

namespace CompilerService

/-- A round that is begun now is not rejected: there is a worker to post it
to, or a compiler in the page that does not throw. -/
def accepts (s : CompilerService) (sources : Sources) : Bool :=
  if s.useWebWorker then s.webWorker.isSome
  else
    match s.syncCompiler with
    | none => false
    | some compiler => (compileSync compiler.compile ⟨sources, s.optimize⟩).toBool

/-- The calls that have a place: the rounds that wait, the rounds that have
yet to go on, and what is settled. -/
def held (s : CompilerService) : List ℕ :=
  s.waiting.map (fun p => p.ticket.call) ++ s.resolved.map (fun c => c.1.ticket.call) ++ s.settled

/-- **A round goes on to nothing**: the next one is rejected, or its text
cannot be read. -/
def Fails (s : CompilerService) (library : Library) (p : Pending) (reply : Reply) : Prop :=
  match reply.missingInputs with
  | some missingInputs =>
    if p.ticket.retry then
      s.accepts (gatherImports library p.input.sources missingInputs) = false
    else ¬ reply.result.Legible
  | none => ¬ reply.result.Legible

/-- **An event drops a call.** -/
def Drops (s : CompilerService) (call : ℕ) : CallEvent → Prop
  | .service (.compile sources) => call = s.calls ∧ s.accepts sources = false
  | .service (.microtask library) =>
    match s.resolved with
    | [] => False
    | (p, answer) :: _ => call = p.ticket.call ∧ s.Fails library p answer.reply
  | _ => False

/-- The replies to the rounds of a call are in: none of them waits, and none
has yet to go on. -/
def RepliesIn (s : CompilerService) (call : ℕ) : Prop :=
  (∀ p ∈ s.waiting, p.ticket.call ≠ call) ∧ ∀ c ∈ s.resolved, c.1.ticket.call ≠ call

/-- **A call has settled**: its promise has resolved, once, and there was one
event for each that has. -/
def Settles (s : CompilerService) (call : ℕ) : Prop :=
  s.settled.count call = 1 ∧ s.events.count .finished = s.settled.length

end CompilerService

/-- **Every call is in one place**, or was dropped, or is one of `apart`:
those a step is about to put somewhere. -/
structure Accounted (apart : List ℕ) (s : CompilerService) (dropped : Set ℕ) : Prop where
  once : (apart ++ s.held).Nodup
  place : ∀ call, call ∈ apart ++ s.held ↔ call < s.calls ∧ call ∉ dropped
  made : ∀ call ∈ dropped, call < s.calls
  finished : s.events.count .finished = s.settled.length

section

variable {s s' : CompilerService} {apart apart' : List ℕ} {dropped : Set ℕ} {call : ℕ}

theorem Accounted.perm (h : Accounted apart s dropped)
    (hperm : (apart' ++ s'.held).Perm (apart ++ s.held)) (hcalls : s'.calls = s.calls)
    (hfinished : s'.events.count .finished = s'.settled.length) :
    Accounted apart' s' dropped where
  once := hperm.nodup_iff.2 h.once
  place := fun call => by rw [hperm.mem_iff, hcalls]; exact h.place call
  made := by rw [hcalls]; exact h.made
  finished := hfinished

/-- What changes no place. -/
theorem Accounted.congr (h : Accounted apart s dropped) (hheld : s'.held = s.held)
    (hcalls : s'.calls = s.calls) (hfinished : s'.events.count .finished = s'.settled.length) :
    Accounted apart s' dropped :=
  h.perm (by rw [hheld]) hcalls hfinished

/-- A call that is put nowhere is dropped. -/
theorem Accounted.drop (h : Accounted [call] s dropped) :
    Accounted [] s {c | c ∈ dropped ∨ c = call} where
  once := (List.nodup_cons.1 h.once).2
  place := fun c => by
    have hplace := h.place c
    have hnot : call ∉ s.held := (List.nodup_cons.1 h.once).1
    simp only [List.singleton_append, List.nil_append, List.mem_cons, Set.mem_ofPred_eq,
      not_or] at hplace ⊢
    constructor
    · intro hc
      have hne : c ≠ call := fun heq => hnot (heq ▸ hc)
      exact ⟨(hplace.1 (.inr hc)).1, (hplace.1 (.inr hc)).2, hne⟩
    · rintro ⟨hlt, hdropped, hne⟩
      exact (hplace.2 ⟨hlt, hdropped⟩).resolve_left hne
  made := fun c hc => hc.elim (h.made c) fun heq =>
    ((h.place c).1 (by rw [heq]; exact List.mem_cons_self)).1
  finished := h.finished

/-- What a rejected round leaves. -/
theorem startRound_of_not_accepts {sources : Sources} (h : s.accepts sources = false)
    (ticket : Ticket) :
    s.startRound ticket sources = { s with events := s.events ++ [.started] } := by
  unfold accepts at h
  simp only [startRound, compileWebWorker, compileDirect]
  split_ifs at h ⊢ with hmode
  · rw [Option.isSome_eq_false_iff, Option.isNone_iff_eq_none] at h
    simp only [h]
  · split
    · rfl
    · next compiler hcompiler =>
      simp only [hcompiler] at h
      split
      · rfl
      · next reply hreply =>
        rw [hreply] at h
        cases h

/-- A round that would be rejected has no reply. -/
theorem round_of_not_accepts {sources : Sources} (h : s.accepts sources = false)
    (library : Library) :
    ∃ e, Setting.round ⟨s.compiler, s.optimize, library⟩ sources = .error e := by
  unfold accepts at h
  simp only [Setting.round, CompilerService.compiler]
  split_ifs at h ⊢ with hmode
  · rw [Option.isSome_eq_false_iff, Option.isNone_iff_eq_none] at h
    exact ⟨_, by rw [h]; rfl⟩
  · rcases hsync : s.syncCompiler with - | compiler
    · exact ⟨_, rfl⟩
    · simp only [hsync] at h
      rcases hround : compileSync compiler.compile ⟨sources, s.optimize⟩ with e | reply
      · exact ⟨e, hround⟩
      · rw [hround] at h
        cases h

/-- A round that is not rejected waits for the compiler in use, or is
answered by it. -/
theorem startRound_of_accepts {sources : Sources} (h : s.accepts sources = true)
    (ticket : Ticket) :
    (∃ (i : ℕ), s.webWorker = some i ∧ s.compiler = (s.workers[i]?).map Worker.effective ∧
      s.startRound ticket sources = { s with
        workers := s.workers.modify i (Worker.post · (.compileRequest ⟨sources, s.optimize⟩ ticket))
        waiting := s.waiting ++ [⟨ticket, ⟨sources, s.optimize⟩, some i⟩]
        events := s.events ++ [.started] }) ∨
    ∃ c reply, s.compiler = some c ∧ compileSync c ⟨sources, s.optimize⟩ = .ok reply ∧
      s.startRound ticket sources = { s.complete [⟨ticket, ⟨sources, s.optimize⟩, none⟩]
          ⟨reply, ⟨sources, s.optimize⟩, ticket, none⟩ with events := s.events ++ [.started] } := by
  unfold accepts at h
  simp only [startRound, compileWebWorker, compileDirect, CompilerService.compiler]
  split_ifs at h ⊢ with hmode
  · obtain ⟨i, hi⟩ := Option.isSome_iff_exists.1 h
    exact .inl ⟨i, hi, by rw [hi]; rfl, by rw [hi]⟩
  · rcases hsync : s.syncCompiler with - | compiler
    · simp only [hsync] at h
      cases h
    · simp only [hsync] at h
      rcases hround : compileSync compiler.compile ⟨sources, s.optimize⟩ with e | reply
      · rw [hround] at h
        cases h
      · refine .inr ⟨_, reply, rfl, hround, ?_⟩
        simp only [hround]
        rfl

/-- A round that is not rejected waits, or is complete. -/
theorem held_startRound {sources : Sources} (h : s.accepts sources = true) (ticket : Ticket) :
    (s.startRound ticket sources).held.Perm (ticket.call :: s.held) := by
  rcases startRound_of_accepts h ticket with ⟨i, -, -, hposted⟩ | ⟨c, reply, -, -, hanswered⟩
  · rw [hposted]
    simp only [held, List.map_append, List.map_cons, List.map_nil, List.append_assoc]
    exact List.perm_middle
  · rw [hanswered]
    simp only [held, complete, List.map_append, List.map_cons, List.map_nil, List.append_assoc]
    rw [← List.append_assoc, ← List.append_assoc (s.waiting.map _)]
    exact List.perm_middle

/-- Every round that is begun is told of. -/
theorem events_startRound (s : CompilerService) (ticket : Ticket) (sources : Sources) :
    (s.startRound ticket sources).events = s.events ++ [.started] := by
  have hbegins := begins_startRound s ticket sources
  generalize s.startRound ticket sources = s' at hbegins ⊢
  cases hbegins <;> rfl

/-- **A round is begun** for a call, or the call is dropped. -/
theorem accounted_startRound (h : Accounted [call] s dropped) (ticket : Ticket)
    (hcall : ticket.call = call) (sources : Sources) :
    Accounted [] (s.startRound ticket sources)
      {c | c ∈ dropped ∨ (c = call ∧ s.accepts sources = false)} := by
  have hbooks : SameBooks s (s.startRound ticket sources) := (begins_startRound _ _ _).sameBooks
  have hfinished : (s.startRound ticket sources).events.count .finished =
      (s.startRound ticket sources).settled.length := by
    rw [events_startRound, hbooks.settled, List.count_append, ← h.finished]
    rfl
  cases haccepts : s.accepts sources with
  | true =>
    have hkept : {c | c ∈ dropped ∨ (c = call ∧ true = false)} = dropped := by simp
    rw [hkept]
    refine h.perm ?_ hbooks.calls hfinished
    rw [← hcall]
    exact held_startRound haccepts ticket
  | false =>
    have hlost : {c | c ∈ dropped ∨ (c = call ∧ false = false)} =
        {c | c ∈ dropped ∨ c = call} := by simp
    rw [hlost]
    refine h.drop.congr ?_ hbooks.calls hfinished
    rw [startRound_of_not_accepts haccepts]
    rfl

/-- **A reply is reported** for a call, or the call is dropped. -/
theorem accounted_report (h : Accounted [call] s dropped) (reply : Reply) :
    Accounted [] (s.report call reply) {c | c ∈ dropped ∨ (c = call ∧ ¬ reply.result.Legible)} := by
  by_cases hlegible : reply.result.Legible
  · have hkept : {c | c ∈ dropped ∨ (c = call ∧ ¬ reply.result.Legible)} = dropped := by
      simp [hlegible]
    obtain ⟨_, latest, hparse⟩ := returns_iff.1 ((returns_parse_iff _ s.latest).2 hlegible)
    rw [hkept]
    simp only [CompilerService.report, hparse]
    refine h.perm ?_ rfl ?_
    · simp only [held, List.nil_append, List.singleton_append]
      rw [← List.append_assoc]
      exact List.perm_append_singleton _ _
    · simpa using h.finished
  · have hlost : {c | c ∈ dropped ∨ (c = call ∧ ¬ reply.result.Legible)} =
        {c | c ∈ dropped ∨ c = call} := by
      simp [hlegible]
    have hthrows : ∃ e latest, parseCompilationResult reply.result s.latest = .error e latest := by
      rcases hparse : parseCompilationResult reply.result s.latest with ⟨_, latest⟩ | ⟨e, latest⟩
      · exact absurd ((returns_parse_iff _ s.latest).1 (returns_iff.2 ⟨_, _, hparse⟩)) hlegible
      · exact ⟨e, latest, rfl⟩
    obtain ⟨e, latest, hparse⟩ := hthrows
    rw [hlost]
    simp only [CompilerService.report, hparse]
    exact h.drop.congr rfl rfl h.finished

/-- **`compile` is called.** -/
theorem accounted_compile (h : Accounted [] s dropped) (sources : Sources) :
    Accounted [] (s.compile sources)
      {c | c ∈ dropped ∨ (c = s.calls ∧ s.accepts sources = false)} := by
  have hnew : Accounted [s.calls] { s with calls := s.calls + 1 } dropped := by
    have hold : ∀ c, c ∈ s.held ↔ c < s.calls ∧ c ∉ dropped := h.place
    have hfresh : s.calls ∉ dropped := fun hd => Nat.lt_irrefl _ (h.made _ hd)
    refine ⟨List.nodup_cons.2 ⟨fun hheld => Nat.lt_irrefl _ ((hold _).1 hheld).1, h.once⟩,
      fun c => ?_, fun c hc => Nat.lt_succ_of_lt (h.made c hc), h.finished⟩
    change c ∈ s.calls :: s.held ↔ c < s.calls + 1 ∧ c ∉ dropped
    rw [List.mem_cons, hold c, Nat.lt_succ_iff_lt_or_eq]
    constructor
    · rintro (rfl | ⟨hlt, hc⟩)
      · exact ⟨.inr rfl, hfresh⟩
      · exact ⟨.inl hlt, hc⟩
    · rintro ⟨hlt | heq, hc⟩
      · exact .inr ⟨hlt, hc⟩
      · exact .inl heq
  exact accounted_startRound hnew ⟨s.calls, true⟩ rfl sources

/-- A round that has yet to go on is taken off. -/
theorem Accounted.taken (h : Accounted [] s dropped) {p : Pending} {answer : Answer}
    {rest : List (Pending × Answer)} (hresolved : s.resolved = (p, answer) :: rest) :
    Accounted [p.ticket.call] { s with resolved := popped answer rest } dropped := by
  refine h.perm ?_ rfl h.finished
  have hpopped : (popped answer rest).map (fun c => c.1.ticket.call) =
      rest.map fun c => c.1.ticket.call := by
    simp [popped, Function.comp_def]
  simp only [held, hpopped, hresolved, List.map_cons, List.nil_append, List.append_assoc,
    List.cons_append]
  exact List.perm_middle.symm

/-- **A round goes on.** -/
theorem accounted_microtask (h : Accounted [] s dropped) (library : Library) :
    Accounted [] (s.microtask library)
      {c | c ∈ dropped ∨ s.Drops c (.service (.microtask library))} := by
  have hgoesOn := goesOn_microtask s library
  generalize s.microtask library = s' at hgoesOn ⊢
  cases hgoesOn with
  | rests hresolved => simpa [Drops, hresolved] using h
  | @retries p answer rest _ hresolved hmissing hretry =>
    simp only [Drops, hresolved, Fails, hmissing, hretry, if_true]
    exact accounted_startRound (h.taken hresolved) ⟨p.ticket.call, false⟩ rfl _
  | @reports p answer rest hresolved hlast =>
    have hfails : s.Fails library p answer.reply ↔ ¬ answer.reply.result.Legible := by
      rcases hlast with hmissing | hretry
      · simp only [Fails, hmissing]
      · unfold Fails
        split <;> simp [hretry]
    simp only [Drops, hresolved, hfails]
    exact accounted_report (h.taken hresolved) _

theorem events_deliver (s : CompilerService) (i : ℕ) : (s.deliver i).events = s.events := by
  have hdelivers := delivers_deliver s i
  generalize s.deliver i = s' at hdelivers ⊢
  cases hdelivers <;> rfl

/-- **A message is delivered**: rounds that waited have yet to go on. -/
theorem accounted_deliver (h : Accounted [] s dropped) (i : ℕ) :
    Accounted [] (s.deliver i) dropped := by
  have hbooks := sameBooks_deliver s i
  refine h.perm ?_ hbooks.calls (by rw [events_deliver, hbooks.settled]; exact h.finished)
  simp only [List.nil_append, held]
  rw [hbooks.settled]
  refine List.Perm.append_right _ ?_
  rcases deliver_cases s i with ⟨hwaiting, hresolved⟩ | ⟨answer, hwaiting, hresolved, -⟩
  · rw [hwaiting, hresolved]
  · rw [hwaiting, hresolved, List.map_append, List.map_map, List.map_nil, List.nil_append]
    exact List.perm_append_comm

/-- A compiler is loaded, from its call to its script. -/
theorem accounted_loadCompiler (h : Accounted [] s dropped) (script : Option Compiler) :
    Accounted [] (s.loadCompiler script) dropped := by
  unfold loadCompiler
  split
  · split <;> exact h.congr rfl rfl h.finished
  · exact h.congr rfl rfl h.finished

theorem accounted_poll (h : Accounted [] s dropped) (compiler : Compiler) :
    Accounted [] (s.poll compiler) dropped := by
  unfold poll
  split
  · exact h
  · exact h.congr rfl rfl h.finished

theorem accounted_new (hasWorker useWebWorker optimize : Bool) :
    Accounted [] (.new hasWorker useWebWorker optimize) ∅ where
  once := List.nodup_nil
  place := fun _ => iff_of_false List.not_mem_nil fun h => absurd h.1 (Nat.not_lt_zero _)
  made := fun _ h => h.elim
  finished := rfl

end

/-! ## Runs -/

/-- A service, and the calls it dropped. -/
structure Audit where
  service : CompilerService
  dropped : Set ℕ

/-- **A service in either mode, audited.** -/
def auditDesk : Machine Audit CallEvent where
  start := fun a => callDesk.start a.service ∧ a.dropped = ∅
  enabled := fun a e => callDesk.enabled a.service e
  step := fun a e =>
    ⟨callDesk.step a.service e, {call | call ∈ a.dropped ∨ a.service.Drops call e}⟩

theorem accounted_step {a : Audit} (h : Accounted [] a.service a.dropped) (e : CallEvent) :
    Accounted [] (auditDesk.step a e).service (auditDesk.step a e).dropped := by
  have hnone : {call | call ∈ a.dropped ∨ False} = a.dropped := by simp
  cases e with
  | poll compiler =>
    change Accounted [] _ {call | call ∈ a.dropped ∨ False}
    rw [hnone]
    exact accounted_poll h compiler
  | service e =>
    cases e with
    | compile sources => exact accounted_compile h sources
    | microtask library => exact accounted_microtask h library
    | loadCompiler script =>
      change Accounted [] _ {call | call ∈ a.dropped ∨ False}
      rw [hnone]
      exact accounted_loadCompiler h script
    | setOptimize optimize =>
      change Accounted [] _ {call | call ∈ a.dropped ∨ False}
      rw [hnone]
      exact h.congr rfl rfl h.finished
    | work i =>
      change Accounted [] _ {call | call ∈ a.dropped ∨ False}
      rw [hnone]
      exact h.congr rfl rfl h.finished
    | deliver i =>
      change Accounted [] _ {call | call ∈ a.dropped ∨ False}
      rw [hnone]
      exact accounted_deliver h i

theorem accounted_of_reachable {a : Audit} (h : auditDesk.Reachable a) :
    Accounted [] a.service a.dropped := by
  refine h.invariant (I := fun a => Accounted [] a.service a.dropped) ?_
    fun a e ha _ => accounted_step ha e
  rintro ⟨s, dropped⟩ ⟨⟨hasWorker, useWebWorker, optimize, rfl⟩, rfl⟩
  exact accounted_new _ _ _

/-- **A call whose replies are in has settled, unless it was dropped**, in
every run. -/
theorem settles_iff_not_dropped {a : Audit} (h : auditDesk.Reachable a) {call : ℕ}
    (hcall : call < a.service.calls) (hin : a.service.RepliesIn call) :
    a.service.Settles call ↔ call ∉ a.dropped := by
  have haccounted := accounted_of_reachable h
  have hheld : a.service.held.Nodup := (List.nodup_append.1 haccounted.once).2.1
  have honce : a.service.settled.Nodup := (List.nodup_append.1 hheld).2.1
  have hplace : call ∈ a.service.held ↔ call ∉ a.dropped :=
    (haccounted.place call).trans (and_iff_right hcall)
  have hsettled : call ∈ a.service.held ↔ call ∈ a.service.settled := by
    simp only [held, List.mem_append, List.mem_map]
    refine or_iff_right ?_
    rintro (⟨p, hp, heq⟩ | ⟨c, hc, heq⟩)
    · exact hin.1 p hp heq
    · exact hin.2 c hc heq
  rw [Settles, and_iff_left haccounted.finished, ← hplace, hsettled]
  refine ⟨fun hcount => List.count_pos_iff.1 (by omega), fun hmem => ?_⟩
  rw [honce.count, if_pos hmem]

/-- A compiler is loaded and one source compiled, in two rounds. -/
def oneCompilation (script : Option Compiler) : List CallEvent :=
  [.loadCompiler script, .work 0, .deliver 0, .compile [("A.sol", "")], .work 0, .deliver 0,
    .microtask [], .work 0, .deliver 0, .microtask []].map .service

/-- What it leaves, where the compiler is there. -/
def audited : Audit :=
  auditDesk.run ⟨.new true true true, ∅⟩ (oneCompilation (some contentCompiler))

theorem audited_settles : audited.service.Settles 0 ∧ 0 ∉ audited.dropped := by
  have hreach : auditDesk.Reachable audited := by
    refine .run (.start ⟨⟨true, true, true, rfl⟩, rfl⟩) ?_
    exact ⟨trivial, trivial, rfl, trivial, trivial, rfl, trivial, trivial, rfl, trivial, trivial⟩
  have hsettles : audited.service.Settles 0 := ⟨rfl, rfl⟩
  have hin : audited.service.RepliesIn 0 := ⟨List.forall_mem_nil _, List.forall_mem_nil _⟩
  exact ⟨hsettles, (settles_iff_not_dropped hreach (Nat.lt_succ_self 0) hin).1 hsettles⟩

/-- What it leaves, where the script cannot be fetched. -/
def placeholderRun : CompilerService := callDesk.run (.new true true true) (oneCompilation none)

/-- **A call that is answered with no text never settles.** -/
theorem placeholder_call_does_not_settle :
    ¬ ∀ s : CompilerService, callDesk.Reachable s → ∀ call, call < s.calls → s.RepliesIn call →
      s.Settles call := by
  intro h
  have hreach : callDesk.Reachable placeholderRun := by
    refine .run (.start ⟨true, true, true, rfl⟩) ?_
    exact ⟨trivial, trivial, rfl, trivial, trivial, rfl, trivial, trivial, rfl, trivial, trivial⟩
  have hin : placeholderRun.RepliesIn 0 := ⟨List.forall_mem_nil _, List.forall_mem_nil _⟩
  exact absurd (h _ hreach 0 (Nat.lt_succ_self 0) hin).1 (by decide)

end Hmix
