import Hmix.Compiler.Sessions

/-!
# Loads that fail

In web-worker mode `loadCompiler` makes its worker the current one before it
is known whether the script can be fetched. Where it cannot, the worker
stays with its placeholder: requests go to it, its version is never told,
and the worker before it is out of reach. So a load that fails leaves the
service as it was exactly where there was nothing to lose.
-/

namespace Hmix

open CompilerService

namespace CompilerService

/-- The compiler `compile` uses: that of the current worker's script. -/
def inUse (s : CompilerService) : Option Compiler :=
  (s.webWorker.bind fun i => s.workers[i]?).bind Worker.script

/-- `compilerVersion` names the compiler that `compile` uses. -/
def Named (s : CompilerService) : Prop :=
  ∃ compiler, s.inUse = some compiler ∧ s.compilerVersion = some compiler.version

/-- The result of a call that is made now, with this compiler and with
nothing in between. -/
def resultWith (s : CompilerService) (compiler : Option Solc) (library : Library)
    (sources : Sources) : Option ICompilerResult :=
  let setting : Setting := ⟨compiler, s.optimize, library⟩
  CallRecord.comesTo ⟨sources, s.latest, setting, setting, [], [], none⟩ |>.1

end CompilerService

/-- **A service and what it should have kept**: the compiler of the last load
whose script could be fetched, whether a load has failed since, and whether
`compilerVersion` named the compiler in use before it did. -/
structure Kept where
  service : CompilerService
  compiler : Option Compiler
  failed : Bool
  named : Prop

/-- **The service is as it was** before the loads that failed: calls have the
same results, from the compiler that was loaded, and its version is named if
it was. -/
structure Kept.AsItWas (k : Kept) : Prop where
  results : ∀ library sources, k.service.resultWith k.service.compiler library sources =
    k.service.resultWith (k.compiler.map Compiler.compile) library sources
  compiler : k.service.inUse = k.compiler
  version : k.named → k.service.Named

/-- **Web-worker mode, watched for loads that fail.** -/
def keptDesk : Machine Kept ServiceEvent where
  start := fun k => serviceDesk.start k.service ∧ k.compiler = none ∧ k.failed = false ∧
    (k.named ↔ k.service.Named)
  enabled := fun k e => serviceDesk.enabled k.service e
  step := fun k e =>
    let service := serviceDesk.step k.service e
    match e with
    | .loadCompiler (some script) => ⟨service, some script, false, service.Named⟩
    | .loadCompiler none => ⟨service, k.compiler, true, k.named⟩
    | _ => ⟨service, k.compiler, k.failed, service.Named⟩

/-! ## One step -/

/-- The current worker is there, with its script. -/
structure SameScripts (s s' : CompilerService) : Prop where
  current : s'.webWorker = s.webWorker
  scripts : s'.workers.map Worker.script = s.workers.map Worker.script

theorem SameScripts.of_core {s s' : CompilerService} (hcurrent : s'.webWorker = s.webWorker)
    (hcore : s'.workers.map Worker.core = s.workers.map Worker.core) : SameScripts s s' := by
  refine ⟨hcurrent, ?_⟩
  have hscripts := congrArg (List.map Prod.fst) hcore
  rw [List.map_map, List.map_map] at hscripts
  exact hscripts

/-- The current worker's script. -/
theorem inUse_eq (s : CompilerService) :
    s.inUse = s.webWorker.bind fun i => ((s.workers.map Worker.script)[i]?).bind id := by
  simp only [CompilerService.inUse, List.getElem?_map]
  rcases s.webWorker with - | i
  · rfl
  · simp only [Option.bind_some]
    cases s.workers[i]? <;> rfl

theorem SameScripts.inUse {s s' : CompilerService} (h : SameScripts s s') : s'.inUse = s.inUse := by
  rw [inUse_eq, inUse_eq, h.current, h.scripts]

/-- **Only a load changes what is in use.** -/
theorem sameScripts_step (s : CompilerService) {e : ServiceEvent}
    (hload : ∀ script, e ≠ .loadCompiler script) : SameScripts s (serviceDesk.step s e) := by
  cases e with
  | loadCompiler script => exact absurd rfl (hload script)
  | compile sources =>
    exact .of_core (samePage_compile s sources).webWorker (core_startRound _ _ _)
  | setOptimize optimize => exact ⟨rfl, rfl⟩
  | work i => exact ⟨rfl, map_modify Worker.script_work⟩
  | deliver i => exact .of_core (samePage_deliver s i).webWorker (core_deliver s i)
  | microtask library =>
    exact .of_core (samePage_microtask s library).webWorker (core_microtask s library)

/-- **What is known of a service and what it should have kept.** -/
structure Keeps (k : Kept) : Prop where
  mode : InWorkers k.service
  current : ∀ i, k.service.webWorker = some i → i < k.service.workers.length
  noneYet : k.service.webWorker = none → k.compiler = none
  inUse : k.service.inUse = if k.failed then none else k.compiler
  named : k.named → k.compiler ≠ none
  version : k.failed = false → k.named → k.service.Named

/-- A load puts its own script in use, if it has one. -/
theorem inUse_loadCompiler {s : CompilerService} (h : InWorkers s) (script : Option Compiler) :
    (s.loadCompiler script).inUse = script ∧ ∃ i, (s.loadCompiler script).webWorker = some i ∧
      i < (s.loadCompiler script).workers.length := by
  rw [inUse_eq]
  simp only [loadCompiler, if_pos h.mode.1, if_pos h.mode.2, List.map_append, List.map_cons,
    List.map_nil, Option.bind_some]
  refine ⟨?_, _, rfl, by simp⟩
  rw [List.getElem?_append_right (by simp)]
  simp [Worker.new]

theorem keeps_load {k : Kept} (h : Keeps k) (script : Option Compiler) :
    Keeps (keptDesk.step k (.loadCompiler script)) := by
  have hmode := inWorkers_loadCompiler h.mode script
  obtain ⟨hinUse, i, hcurrent, hlt⟩ := inUse_loadCompiler h.mode script
  have hcurrent' : ∀ j, (k.service.loadCompiler script).webWorker = some j →
      j < (k.service.loadCompiler script).workers.length := by
    intro j hj
    obtain rfl : i = j := Option.some.inj (hcurrent.symm.trans hj)
    exact hlt
  have hsome : (k.service.loadCompiler script).webWorker ≠ none := by
    rw [hcurrent]
    exact Option.some_ne_none _
  cases script with
  | some compiler =>
    exact ⟨hmode, hcurrent', fun hnone => absurd hnone hsome, hinUse,
      fun _ => Option.some_ne_none _, fun _ => id⟩
  | none => exact ⟨hmode, hcurrent', fun hnone => absurd hnone hsome, hinUse, h.named, nofun⟩

theorem keeps_step {k : Kept} {e : ServiceEvent} (h : Keeps k) : Keeps (keptDesk.step k e) := by
  by_cases hload : ∃ script, e = .loadCompiler script
  · obtain ⟨script, rfl⟩ := hload
    exact keeps_load h script
  have hno : ∀ script, e ≠ .loadCompiler script := fun script he => hload ⟨script, he⟩
  have hsame := sameScripts_step k.service hno
  have hstep : keptDesk.step k e = ⟨serviceDesk.step k.service e, k.compiler, k.failed,
      (serviceDesk.step k.service e).Named⟩ := by
    cases e with
    | loadCompiler script => exact absurd rfl (hno script)
    | _ => rfl
  -- the worker in use stays, so what was lost stays lost
  have hinUse : (serviceDesk.step k.service e).inUse = if k.failed then none else k.compiler :=
    hsame.inUse.trans h.inUse
  have hlength : (serviceDesk.step k.service e).workers.length = k.service.workers.length := by
    simpa using congrArg List.length hsame.scripts
  rw [hstep]
  refine ⟨inWorkers_step h.mode e, ?_, ?_, hinUse, ?_, fun _ => id⟩
  · intro i hi
    exact (h.current i (hsame.current.symm.trans hi)).trans_eq hlength.symm
  · exact fun hnone => h.noneYet (hsame.current.symm.trans hnone)
  · -- what is named is in use, and what is in use was kept
    rintro ⟨compiler, huse, -⟩ hnone
    rw [hinUse, hnone] at huse
    split_ifs at huse

theorem keeps_of_reachable {k : Kept} (h : keptDesk.Reachable k) : Keeps k := by
  refine h.invariant (I := Keeps) ?_ fun k e hk _ => keeps_step hk
  rintro ⟨s, compiler, failed, named⟩ ⟨⟨optimize, rfl⟩, hcompiler, hfailed, hnamed⟩
  subst hcompiler hfailed
  have hnot : ¬ named := fun h => by
    obtain ⟨compiler, huse, -⟩ := hnamed.1 h
    cases huse
  exact ⟨⟨⟨rfl, rfl⟩, nofun, nofun⟩, nofun, fun _ => rfl, rfl, fun h => absurd h hnot,
    fun _ h => absurd h hnot⟩

/-! ## What calls come to -/

/-- With the placeholder a call has no result, as with no compiler. -/
theorem resultWith_placeholder (s : CompilerService) (library : Library) (sources : Sources) :
    s.resultWith (some Worker.placeholder) library sources = none := rfl

/-- The compiler of a round is that of the script in use, or the placeholder. -/
theorem compiler_eq {s : CompilerService} (h : InWorkers s)
    (hcurrent : ∀ i, s.webWorker = some i → i < s.workers.length) :
    (s.webWorker = none ∧ s.compiler = none ∧ s.inUse = none) ∨
    (s.inUse = none ∧ s.compiler = some Worker.placeholder) ∨
    ∃ compiler, s.inUse = some compiler ∧ s.compiler = some compiler.compile := by
  simp only [CompilerService.compiler, CompilerService.inUse, h.mode.1, if_true]
  rcases hi : s.webWorker with - | i
  · exact .inl ⟨rfl, rfl, rfl⟩
  · obtain ⟨w, hw⟩ : ∃ w, s.workers[i]? = some w := ⟨_, List.getElem?_eq_getElem (hcurrent i hi)⟩
    simp only [Option.bind_some, hw, Option.map_some, Worker.effective]
    rcases hscript : w.script with - | compiler
    · exact .inr (.inl ⟨rfl, rfl⟩)
    · exact .inr (.inr ⟨compiler, rfl, rfl⟩)

/-- **A failed load leaves the service as it was** exactly where a script was
fetched since, or none could be fetched before: in every run. -/
theorem asItWas_iff {k : Kept} (h : keptDesk.Reachable k) :
    k.AsItWas ↔ k.failed = false ∨ k.compiler = none := by
  have hkeeps := keeps_of_reachable h
  have hinUse := hkeeps.inUse
  constructor
  · intro hsame
    rw [hsame.compiler] at hinUse
    cases hfailed : k.failed with
    | false => exact .inl rfl
    | true => exact .inr (by simpa [hfailed] using hinUse)
  · intro hcondition
    have hkept : k.service.inUse = k.compiler := by
      rw [hinUse]
      rcases hcondition with hfailed | hnone
      · rw [hfailed]
        rfl
      · rw [hnone, ite_self]
    refine ⟨fun library sources => ?_, hkept, fun hnamed => ?_⟩
    · -- the placeholder is in use where no script is, and comes to nothing as well
      rw [← hkept]
      rcases compiler_eq hkeeps.mode hkeeps.current with ⟨-, hcompiler, huse⟩ |
        ⟨huse, hcompiler⟩ | ⟨compiler, huse, hcompiler⟩
      · rw [hcompiler, huse]
        rfl
      · rw [hcompiler, huse, resultWith_placeholder]
        rfl
      · rw [hcompiler, huse]
        rfl
    · rcases hcondition with hfailed | hnone
      · exact hkeeps.version hfailed hnamed
      · exact absurd hnone (hkeeps.named hnamed)

/-- A service with a compiler loaded, and then a load that fails. -/
def afterFailure (loads : List (Option Compiler)) : Kept :=
  keptDesk.run ⟨.new true true true, none, false, (CompilerService.new true true true).Named⟩
    (loads.flatMap fun script => [.loadCompiler script, .work 0, .deliver 0])

theorem reachable_afterFailure :
    keptDesk.Reachable (afterFailure [some contentCompiler, none]) := by
  refine .run (.start ⟨⟨true, rfl⟩, rfl, rfl, Iff.rfl⟩) ?_
  exact ⟨trivial, trivial, rfl, trivial, trivial, rfl, trivial⟩

theorem asItWas_after_load : (afterFailure [some contentCompiler]).AsItWas := by
  have hreach : keptDesk.Reachable (afterFailure [some contentCompiler]) := by
    refine .run (.start ⟨⟨true, rfl⟩, rfl, rfl, Iff.rfl⟩) ?_
    exact ⟨trivial, trivial, rfl, trivial⟩
  exact (asItWas_iff hreach).2 (.inl rfl)

/-- **A compiler that is loaded is lost** to a load that fails. -/
theorem failed_load_loses_the_compiler : ¬ ∀ k, keptDesk.Reachable k → k.AsItWas := by
  intro h
  have hcompiler := (h _ reachable_afterFailure).compiler
  have hnone : (afterFailure [some contentCompiler, none]).service.inUse = none := rfl
  rw [hnone] at hcompiler
  cases hcompiler

end Hmix
