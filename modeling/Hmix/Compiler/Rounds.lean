import Hmix.Compiler.Sessions

/-!
# How often a call runs the compiler

A reply carries an array of missing inputs also where there are none, and an
array is truthy. So the first round of a call always goes on to a second
one, which begins with an event of its own: a call that has a result was
compiled twice and emitted two events `started`, whatever it imports.
-/

namespace Hmix

/-- **A call that does no more than it must**: it emits one `started` and one
`finished`, it runs the compiler a second time only where the first run
reported a missing input, and otherwise the first run is the one there is,
and so the one that is parsed. -/
structure CallRecord.Sparing (r : CallRecord) : Prop where
  events : r.events = [.started, .finished]
  second : 1 < r.rounds.length → ∃ first ∈ r.rounds.head?, ∃ path missingInputs,
    first.2.reply.missingInputs = some (path :: missingInputs)
  parsed : ∀ first ∈ r.rounds.head?, first.2.reply.missingInputs = some [] → r.rounds = [first]

theorem ended_of_recorded {records : List CallRecord} {latest : ICompilerResult}
    (h : Recorded records latest) : ∀ r ∈ records, r.Ended := by
  induction records generalizing latest with
  | nil => exact List.forall_mem_nil _
  | cons r older ih => exact List.forall_mem_cons.2 ⟨h.2.1, ih h.2.2⟩

/-- While no round is under way, every call there was is over. -/
theorem recorded_of_still {x : Session} (h : sessionDesk.Reachable x) (hstill : x.service.Still) :
    Recorded x.records x.service.latest := by
  rcases (recounted_of_reachable h).story with ⟨-, hrecorded⟩ | ⟨r, older, p, -, hserves, -⟩
  · exact hrecorded
  · exact absurd hstill hserves.not_still

theorem CallRecord.Ended.not_sparing {r : CallRecord} (h : r.Ended) : ¬ r.Sparing := by
  intro hsparing
  rcases hresult : r.result with - | latest
  · have hnot := h.unfinished hresult
    rw [hsparing.events] at hnot
    exact hnot (by decide)
  · have hevents := (h.finished (by rw [hresult]; exact Option.some_ne_none _)).1
    rw [hsparing.events] at hevents
    exact absurd hevents (by decide)

/-- **No call does no more than it must**, in any session: one that has a
result emitted `started` twice, and ran the compiler twice. -/
theorem every_call_is_compiled_twice {x : Session} (h : sessionDesk.Reachable x)
    (hstill : x.service.Still) : ∀ r ∈ x.records, ¬ r.Sparing ∧
      (r.result ≠ none → r.events = [.started, .started, .finished] ∧ r.rounds.length = 2) := by
  intro r hr
  have hended := ended_of_recorded (recorded_of_still h hstill) r hr
  exact ⟨hended.not_sparing, hended.finished⟩

/-- A source without imports is compiled by a compiler that asks for nothing. -/
def withoutImports : Session :=
  sessionDesk.run ⟨.new true true true, [], []⟩
    [.loadCompiler (some contentCompiler), .work 0, .deliver 0, .compile [("A.sol", "")], .work 0,
      .deliver 0, .microtask, .work 0, .deliver 0, .microtask]

theorem reachable_withoutImports : sessionDesk.Reachable withoutImports := by
  refine .run (.start ⟨true, true, true, [], rfl⟩) ?_
  exact ⟨trivial, trivial, rfl, ⟨rfl, rfl⟩, trivial, rfl, trivial, trivial, rfl, trivial, trivial⟩

theorem withoutImports_is_compiled_twice : ∃ r ∈ withoutImports.records,
    ¬ r.Sparing ∧ r.events = [.started, .started, .finished] ∧ r.rounds.length = 2 := by
  obtain ⟨r, hr, hresult⟩ : ∃ r ∈ withoutImports.records, r.result ≠ none :=
    ⟨_, List.mem_cons_self, Option.some_ne_none _⟩
  have htwice := every_call_is_compiled_twice reachable_withoutImports ⟨rfl, rfl⟩ r hr
  exact ⟨r, hr, htwice.1, htwice.2 hresult⟩

/-- **A call without imports is compiled twice**, though its reply is in and
well formed. -/
theorem call_without_imports_is_not_sparing :
    ¬ ∀ x : Session, sessionDesk.Reachable x → x.service.Still → ∀ r ∈ x.records,
      (∀ c ∈ r.rounds, Readable c.2.reply.result) → r.result ≠ none → r.Sparing := by
  intro h
  have hreadable : Readable (.json compiled.json) := .inl ⟨compiled, rfl⟩
  have hsparing := h _ reachable_withoutImports ⟨rfl, rfl⟩ _ List.mem_cons_self
    (List.forall_mem_cons.2 ⟨hreadable, List.forall_mem_cons.2 ⟨hreadable, List.forall_mem_nil _⟩⟩)
    (Option.some_ne_none _)
  exact absurd hsparing.events (by decide)

end Hmix
