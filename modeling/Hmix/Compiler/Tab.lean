import Hmix.Compiler.Requests
import Hmix.Model.CompileTab

/-!
# What the tab asks of the service

An event of the tab is one event of its service, or none: a call where a
file is selected, a microtask, or what happens to a service by itself. So
what holds of each step of a service in either mode holds of each step of
the tab.
-/

namespace Hmix

open CompilerService

namespace CompileTab

/-- The service an event begins with. The load whose `then` runs is counted
off. -/
def found (t : CompileTab) (e : TabEvent) : CompilerService :=
  { t.service with
    loaded := match e with
      | .microtask => t.service.loaded - 1
      | _ => t.service.loaded }

/-- The call that `compile` makes, where a file is selected. -/
def call (t : CompileTab) : Option CallEvent :=
  t.workspace.selectedFile.map fun selectedFile => .service (.compile (t.sources selectedFile))

/-- **What an event asks of the service**, if anything. -/
def asks (t : CompileTab) : TabEvent → Option CallEvent
  | .change _ => none
  | .notified => if t.subsInitialized then t.call else none
  | .press | .timeout => t.call
  | .loadCompiler script => some (.service (.loadCompiler script))
  | .poll compiler => some (.poll compiler)
  | .setOptimize optimize => some (.service (.setOptimize optimize))
  | .work i => some (.service (.work i))
  | .deliver i => some (.service (.deliver i))
  | .microtask =>
    if t.service.loaded = 0 then some (.service (.microtask t.workspace.library)) else t.call

/-- An event makes a request. -/
def Requests (t : CompileTab) : TabEvent → Prop
  | .press | .timeout => t.workspace.selectedFile ≠ none
  | .notified => t.subsInitialized = true ∧ t.workspace.selectedFile ≠ none
  | .microtask => t.service.loaded ≠ 0 ∧ t.workspace.selectedFile ≠ none
  | _ => False

theorem service_compile (t : CompileTab) :
    t.compile.service = t.call.elim t.service (callDesk.step t.service) := by
  unfold compile call
  cases t.workspace.selectedFile <;> rfl

theorem service_goOn (t : CompileTab) :
    t.goOn.service = t.service.microtask t.workspace.library := by
  unfold goOn
  dsimp only
  split <;> rfl

/-- **The tab's steps are the service's.** -/
theorem service_step {scripts : Compiler → Prop} (t : CompileTab) (e : TabEvent) :
    ((tabDesk scripts).step t e).service =
      (t.asks e).elim (t.found e) (callDesk.step (t.found e)) := by
  cases e with
  | press => exact service_compile t
  | timeout => exact service_compile { t with timers := t.timers - 1 }
  | notified =>
    change t.notified.service = _
    unfold notified asks
    split
    · exact service_compile t
    · rfl
  | microtask =>
    change t.microtask.service = _
    unfold microtask asks
    split
    · next hloaded =>
      -- no load is left to count off
      have hfound : t.found .microtask = t.service := by
        rw [found, hloaded, Nat.zero_sub, ← hloaded]
      rw [hfound]
      exact service_goOn t
    · exact service_compile { t with loadingCompiler := false, service := t.found .microtask }
  | _ => rfl

/-- The requests are the calls that are asked for. -/
theorem requests_iff_asks (t : CompileTab) (e : TabEvent) :
    t.Requests e ↔ ∃ sources, t.asks e = some (.service (.compile sources)) := by
  have hcall : (∃ sources, t.call = some (.service (.compile sources))) ↔
      t.workspace.selectedFile ≠ none := by
    unfold call
    cases t.workspace.selectedFile <;> simp
  cases e with
  | press => exact hcall.symm
  | timeout => exact hcall.symm
  | notified => by_cases hsubs : t.subsInitialized <;> simp [asks, Requests, hsubs, hcall]
  | microtask => by_cases hloaded : t.service.loaded = 0 <;> simp [asks, Requests, hloaded, hcall]
  | _ => simp [asks, Requests]

end CompileTab

/-! ## Calls -/

/-- A round that goes on is no call. -/
theorem calls_microtask (s : CompilerService) (library : Library) :
    (s.microtask library).calls = s.calls := by
  have hgoesOn := goesOn_microtask s library
  generalize s.microtask library = s' at hgoesOn ⊢
  cases hgoesOn with
  | rests => rfl
  | retries => exact (begins_startRound _ _ _).sameBooks.calls
  | reports =>
    unfold CompilerService.report
    split <;> rfl

/-- **`compile` counts, and nothing else does.** -/
theorem calls_callDesk (s : CompilerService) (asked : CallEvent) :
    (callDesk.step s asked).calls ≠ s.calls ↔ ∃ sources, asked = .service (.compile sources) := by
  have hnone : ∀ {asked : CallEvent}, (callDesk.step s asked).calls = s.calls →
      (∀ sources, asked ≠ .service (.compile sources)) →
      ((callDesk.step s asked).calls ≠ s.calls ↔ ∃ sources, asked = .service (.compile sources)) :=
    fun hcalls hne => iff_of_false (fun h => h hcalls) fun ⟨sources, heq⟩ => hne sources heq
  cases asked with
  | poll compiler => exact hnone (sameBooks_poll s compiler).calls (by simp)
  | service e =>
    cases e with
    | compile sources =>
      have hbooks := (begins_startRound { s with calls := s.calls + 1 } ⟨s.calls, true⟩
        sources).sameBooks
      refine iff_of_true (fun hsame => ?_) ⟨sources, rfl⟩
      exact Nat.succ_ne_self _ (hbooks.calls.symm.trans hsame)
    | microtask library => exact hnone (calls_microtask s library) (by simp)
    | loadCompiler script => exact hnone (sameBooks_loadCompiler s script).calls (by simp)
    | setOptimize optimize => exact hnone rfl (by simp)
    | work i => exact hnone rfl (by simp)
    | deliver i => exact hnone (sameBooks_deliver s i).calls (by simp)

/-- **`Requests` is as the tab has it**: these events call the service, and
no other. -/
theorem requests_iff_calls {scripts : Compiler → Prop} (t : CompileTab) (e : TabEvent) :
    ((tabDesk scripts).step t e).service.calls ≠ t.service.calls ↔ t.Requests e := by
  rw [CompileTab.service_step, CompileTab.requests_iff_asks]
  rcases t.asks e with - | asked
  · exact iff_of_false (fun h => h rfl) (by simp)
  · simp only [Option.some.injEq]
    exact calls_callDesk (t.found e) asked

end Hmix
