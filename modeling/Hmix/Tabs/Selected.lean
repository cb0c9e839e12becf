import Hmix.Tabs.Busy

/-!
# The selected contracts

The list of contracts is made anew of each output that has a map of them.
When a call finishes, the run tab takes the first contract of the list, and
the compile tab keeps what it had. So a contract that was selected in the
compile tab is left over as soon as another output is parsed, and one in the
run tab where that output made no list, or could not be read to its end.
-/

namespace Hmix

open CompilerService

/-- A contract of the latest output, in the list there is. -/
def ContractRef.Current (ref : ContractRef) (x : Sidebar) : Prop :=
  ref.output = x.outputs ∧ ref.index < x.tab.contracts.length

/-- **The selected contracts are current**, in both tabs. -/
structure SelectedCurrent (x : Sidebar) : Prop where
  compileTab : ∀ ref ∈ x.selectedContract, ref.Current x
  runTab : ∀ ref ∈ x.runTab.selectedContract, ref.Current x

/-- A text is parsed only while nothing is selected in the compile tab. One
that can be read makes a list, or there is none; where one cannot be, nothing
is selected in the run tab either. And a contract is selected only while the
list is of the latest output. -/
def keepsCurrent (x : Sidebar) : SidebarEvent → Prop
  | .tab e => ∀ text ∈ x.tab.parses e, x.selectedContract = none ∧
      (text.Legible → text.makesContracts = true ∨ x.tab.contracts = []) ∧
      (¬ text.Legible → x.runTab.selectedContract = none)
  | _ => x.made = x.outputs

/-! ## What parsing does to the list -/

section

variable {contracts : List ICompilerContract}

theorem preserves_member (value : Json) (name : String) {I : ICompilerResult → Prop} :
    Preserves I (value.member name) := by
  unfold Json.member
  split
  · exact preserves_throw _
  · exact preserves_pure _

theorem preserves_outputErrors (result : Json) {I : ICompilerResult → Prop} :
    Preserves I (outputErrors result) := by
  refine (preserves_member result _).bind fun error => ?_
  refine (preserves_member result _).bind fun errors => ?_
  split
  · exact preserves_pure _
  · split
    · exact preserves_throw _
    · exact preserves_pure _
  · exact preserves_pure _

theorem preserves_excludeChecksums {I : ICompilerResult → Prop} :
    ∀ errors : List Json, Preserves I (excludeChecksums errors)
  | [] => preserves_pure _
  | error :: errors => by
    refine Preserves.bind ?_ fun excluded => ?_
    · refine (preserves_member error _).bind fun message => ?_
      split
      · exact preserves_pure _
      · exact preserves_pure _
      · exact preserves_throw _
    · exact (preserves_excludeChecksums errors).bind fun _ => preserves_pure _

/-- **The errors are parsed beside the contracts.** -/
theorem preserves_parseErrors (result : Json) :
    Preserves (·.contracts = contracts) (parseErrors result) := by
  refine (preserves_outputErrors result).bind fun errors => ?_
  refine (preserves_excludeChecksums errors).bind fun filteredErrors => ?_
  refine Preserves.bind (preserves_modify ?_) fun _ => preserves_forM (fun error => ?_) _
  · exact fun _ h => h
  · refine (preserves_member error _).bind fun formattedMessage => preserves_modify ?_
    exact fun _ h => h

/-- **An output without a map of contracts leaves the list** as it is. -/
theorem preserves_parse {text : Text} (h : text.makesContracts = false) :
    Preserves (·.contracts = contracts) (parseCompilationResult text) := by
  cases text with
  | raw text => exact preserves_throw _
  | json result =>
    refine Preserves.bind (m := parseContracts result) ?_ fun _ => preserves_parseErrors result
    by_cases hnull : result = .null
    · rw [hnull]
      exact preserves_throw _
    simp only [parseContracts, Json.member_of_ne hnull, pure_bind]
    rcases hfield : result.field "contracts" with - | value
    · exact preserves_pure _
    · have hfalsy : value.truthy = false := by simpa [Text.makesContracts, hfield] using h
      simp only [hfalsy, Bool.not_false, if_true]
      exact preserves_pure _

end

/-- **What an event does to the list, and what is heard of it**, where it has
parsed a text, and where it has not. -/
inductive Lists (s s' : CompilerService) : Option Text → Prop
  | quiet {events : List CompilationEvent} (contracts : s'.latest.contracts = s.latest.contracts)
    (heard : s'.events = s.events ++ events) (unfinished : .finished ∉ events) : Lists s s' none
  | finishes {text : Text} (legible : text.Legible) (heard : s'.events = s.events ++ [.finished])
    (contracts : text.makesContracts = false → s'.latest.contracts = s.latest.contracts) :
    Lists s s' (some text)
  | breaks {text : Text} (illegible : ¬ text.Legible) (heard : s'.events = s.events)
    (contracts : text.makesContracts = false → s'.latest.contracts = s.latest.contracts) :
    Lists s s' (some text)

theorem lists_report (s : CompilerService) (call : ℕ) (reply : Reply) :
    Lists s (s.report call reply) (some reply.result) := by
  have hreturns := returns_parse_iff reply.result s.latest
  have hkeeps : reply.result.makesContracts = false →
      wp (parseCompilationResult reply.result)
        (fun _ latest => latest.contracts = s.latest.contracts)
        (fun _ latest => latest.contracts = s.latest.contracts) s.latest :=
    fun h => preserves_parse h s.latest rfl
  unfold Returns at hreturns
  unfold CompilerService.report
  unfold wp at hreturns hkeeps
  split
  · next latest heq =>
    rw [heq] at hreturns hkeeps
    exact .finishes (hreturns.1 trivial) rfl hkeeps
  · next latest heq =>
    rw [heq] at hreturns hkeeps
    exact .breaks hreturns.2 rfl hkeeps

theorem Lists.congr {s s' u : CompilerService} {parsed : Option Text} (h : Lists u s' parsed)
    (hlatest : u.latest = s.latest) (hevents : u.events = s.events) : Lists s s' parsed := by
  cases h with
  | quiet contracts heard unfinished =>
    exact .quiet (hlatest ▸ contracts) (hevents ▸ heard) unfinished
  | finishes legible heard contracts =>
    exact .finishes legible (hevents ▸ heard) (hlatest ▸ contracts)
  | breaks illegible heard contracts =>
    exact .breaks illegible (hevents ▸ heard) (hlatest ▸ contracts)

theorem Lists.of_eq {s s' : CompilerService} (hlatest : s'.latest = s.latest)
    (hevents : s'.events = s.events) : Lists s s' none :=
  .quiet (congrArg _ hlatest) (hevents.trans (List.append_nil _).symm) List.not_mem_nil

theorem lists_startRound (s : CompilerService) (ticket : Ticket) (sources : Sources) :
    Lists s (s.startRound ticket sources) none := by
  have hbooks := (begins_startRound s ticket sources).sameBooks
  exact .quiet (congrArg _ hbooks.latest) (events_startRound s ticket sources) (by decide)

/-- A round goes on. -/
theorem lists_microtask (s : CompilerService) (library : Library) :
    Lists s (s.microtask library) s.parsesNext := by
  have hgoesOn := goesOn_microtask s library
  generalize s.microtask library = s' at hgoesOn ⊢
  unfold CompilerService.parsesNext
  cases hgoesOn with
  | rests hresolved =>
    rw [hresolved]
    exact .of_eq rfl rfl
  | retries hresolved hmissing hretry =>
    simp only [hresolved, hmissing, hretry, Option.isSome_some, Bool.and_self, if_true]
    exact (lists_startRound _ _ _).congr rfl rfl
  | @reports p answer rest hresolved hlast =>
    have hparses : (answer.reply.missingInputs.isSome && p.ticket.retry) = false := by
      rcases hlast with hnone | hretry
      · rw [hnone]
        rfl
      · rw [hretry, Bool.and_false]
    simp only [hresolved, hparses, Bool.false_eq_true, if_false]
    exact (lists_report _ _ _).congr rfl rfl

/-- The text that is parsed in an event of the service. -/
def CompilerService.parses (s : CompilerService) : CallEvent → Option Text
  | .service (.microtask _) => s.parsesNext
  | _ => none

/-- **Every event of the service** does as much. -/
theorem lists_callDesk (s : CompilerService) (asked : CallEvent) :
    Lists s (callDesk.step s asked) (s.parses asked) := by
  cases asked with
  | poll compiler =>
    exact .of_eq (sameBooks_poll s compiler).latest (beside_poll s compiler).events
  | service e =>
    cases e with
    | compile sources =>
      exact (lists_startRound { s with calls := s.calls + 1 } _ _).congr rfl rfl
    | microtask library => exact lists_microtask s library
    | loadCompiler script =>
      exact .of_eq (sameBooks_loadCompiler s script).latest (beside_loadCompiler s script).events
    | setOptimize optimize => exact .of_eq rfl rfl
    | work i => exact .of_eq rfl rfl
    | deliver i => exact .of_eq (sameBooks_deliver s i).latest (events_deliver s i)

/-- The tab parses what its service does. -/
theorem parses_eq (t : CompileTab) (e : TabEvent) :
    t.parses e = (t.asks e).bind (t.found e).parses := by
  have hcall : t.call.bind (t.found e).parses = none := by
    unfold CompileTab.call
    cases t.workspace.selectedFile <;> rfl
  cases e with
  | press => exact hcall.symm
  | timeout => exact hcall.symm
  | notified =>
    simp only [CompileTab.parses, CompileTab.asks]
    split_ifs
    · exact hcall.symm
    · rfl
  | microtask =>
    simp only [CompileTab.parses, CompileTab.asks]
    split_ifs
    · rfl
    · exact hcall.symm
  | _ => rfl

/-- **Every event of the compile tab** does as much. -/
theorem lists_step {scripts : Compiler → Prop} (t : CompileTab) (e : TabEvent) :
    Lists t.service ((tabDesk scripts).step t e).service (t.parses e) := by
  rw [CompileTab.service_step, parses_eq]
  rcases t.asks e with - | asked
  · exact .of_eq rfl rfl
  · exact (lists_callDesk (t.found e) asked).congr rfl rfl

/-! ## What it does to the selected contracts -/

theorem selected_hear {first : Option ContractRef} {events : List CompilationEvent} (r : RunTab)
    (h : .finished ∉ events) :
    (events.foldl (RunTab.hear first) r).selectedContract = r.selectedContract := by
  induction events generalizing r with
  | nil => rfl
  | cons event events ih =>
    rw [List.mem_cons, not_or] at h
    rw [List.foldl_cons, ih _ h.2]
    cases event with
    | started => rfl
    | finished => exact absurd rfl h.1

section

variable {x : Sidebar} {e : TabEvent} {t' : CompileTab} {text : Text}

theorem outputs_react (h : x.tab.parses e = some text) :
    (x.react e t').outputs = x.outputs + 1 := by
  simp only [Sidebar.react, h, Option.isSome_some, if_true]

theorem made_react (h : x.tab.parses e = some text) :
    (x.react e t').made = if text.makesContracts then x.outputs + 1 else x.made := by
  simp only [Sidebar.react, h, Option.isSome_some, if_true, Option.any_some]

/-- A contract that was current is left over once a text was parsed. -/
theorem not_current_react (h : x.tab.parses e = some text) {ref : ContractRef}
    (href : ref.output ≤ x.outputs) : ¬ ref.Current (x.react e t') := by
  intro hcurrent
  have houtput := hcurrent.1
  rw [outputs_react h] at houtput
  omega

/-- **The compile tab keeps what it had**, which is left over. -/
theorem compileTab_react (hcurrent : SelectedCurrent x) (h : x.tab.parses e = some text) :
    (∀ ref ∈ (x.react e t').selectedContract, ref.Current (x.react e t')) ↔
      x.selectedContract = none := by
  constructor
  · intro hall
    rcases hselected : x.selectedContract with - | ref
    · rfl
    · refine absurd (hall ref hselected) (not_current_react h ?_)
      exact (hcurrent.compileTab ref hselected).1.le
  · intro hnone ref href
    rw [show (x.react e t').selectedContract = none from hnone] at href
    cases href

/-- **The run tab takes the first contract** where the call finishes. -/
theorem runTab_finishes (hmade : x.made ≤ x.outputs) (h : x.tab.parses e = some text)
    (heard : t'.service.events = x.tab.service.events ++ [.finished])
    (contracts : text.makesContracts = false → t'.contracts = x.tab.contracts) :
    (∀ ref ∈ (x.react e t').runTab.selectedContract, ref.Current (x.react e t')) ↔
      text.makesContracts = true ∨ x.tab.contracts = [] := by
  have hselected : (x.react e t').runTab.selectedContract =
      t'.contracts.head?.map fun _ => ⟨(x.react e t').made, 0⟩ := by
    rw [Sidebar.runTab_react heard]
    rfl
  rw [hselected, made_react h]
  rcases hmakes : text.makesContracts
  · -- the list in place is not of this output, and its first contract is left over
    rw [contracts hmakes]
    rcases hlist : x.tab.contracts with - | ⟨contract, rest⟩
    · exact iff_of_true nofun (.inr rfl)
    · refine iff_of_false (fun hall => ?_) (by simp)
      exact not_current_react h hmade (hall _ rfl)
  · refine iff_of_true (fun ref href => ?_) (.inl rfl)
    rcases hlist : t'.contracts with - | ⟨contract, rest⟩
    · rw [hlist] at href
      cases href
    · rw [hlist] at href
      obtain rfl := Option.some.inj href
      refine ⟨(outputs_react h).symm, ?_⟩
      change 0 < t'.contracts.length
      rw [hlist]
      exact Nat.succ_pos _

/-- **It keeps what it had** where the output breaks off. -/
theorem runTab_breaks (hcurrent : SelectedCurrent x) (h : x.tab.parses e = some text)
    (heard : t'.service.events = x.tab.service.events) :
    (∀ ref ∈ (x.react e t').runTab.selectedContract, ref.Current (x.react e t')) ↔
      x.runTab.selectedContract = none := by
  have hselected : (x.react e t').runTab.selectedContract = x.runTab.selectedContract := by
    rw [Sidebar.runTab_react (heard.trans (List.append_nil _).symm)]
    rfl
  rw [hselected]
  constructor
  · intro hall
    rcases hrun : x.runTab.selectedContract with - | ref
    · rfl
    · exact absurd (hall ref hrun) (not_current_react h (hcurrent.runTab ref hrun).1.le)
  · intro hnone ref href
    rw [hnone] at href
    cases href

theorem current_react {parsed : Option Text} (hcurrent : SelectedCurrent x)
    (hmade : x.made ≤ x.outputs) (hparses : x.tab.parses e = parsed)
    (h : Lists x.tab.service t'.service parsed) :
    SelectedCurrent (x.react e t') ↔ keepsCurrent x (.tab e) := by
  have hboth : SelectedCurrent (x.react e t') ↔
      (∀ ref ∈ (x.react e t').selectedContract, ref.Current (x.react e t')) ∧
        ∀ ref ∈ (x.react e t').runTab.selectedContract, ref.Current (x.react e t') :=
    ⟨fun h => ⟨h.compileTab, h.runTab⟩, fun h => ⟨h.1, h.2⟩⟩
  rw [hboth, keepsCurrent, hparses]
  cases h with
  | quiet contracts heard unfinished =>
    -- no output, so what was current is current
    have houtputs : (x.react e t').outputs = x.outputs := by
      simp [Sidebar.react, hparses]
    have hsame : ∀ ref : ContractRef, ref.Current x → ref.Current (x.react e t') := by
      rintro ref ⟨houtput, hindex⟩
      exact ⟨houtput.trans houtputs.symm, hindex.trans_eq (congrArg List.length contracts.symm)⟩
    refine iff_of_true ⟨fun ref href => hsame ref (hcurrent.compileTab ref href), ?_⟩
      fun text htext => absurd htext (Option.not_mem_none text)
    rw [Sidebar.runTab_react heard, selected_hear _ unfinished]
    exact fun ref href => hsame ref (hcurrent.runTab ref href)
  | @finishes text legible heard contracts =>
    rw [compileTab_react hcurrent hparses, runTab_finishes hmade hparses heard contracts]
    simp [legible]
  | @breaks text illegible heard contracts =>
    rw [compileTab_react hcurrent hparses, runTab_breaks hcurrent hparses heard]
    simp [illegible]

end

/-- **One event keeps the selected contracts current** under the condition, and
only then. -/
theorem current_step_iff {scripts : Compiler → Prop} {x : Sidebar} {e : SidebarEvent}
    (hcurrent : SelectedCurrent x) (hmade : x.made ≤ x.outputs)
    (he : (sidebarDesk scripts).enabled x e) :
    SelectedCurrent ((sidebarDesk scripts).step x e) ↔ keepsCurrent x e := by
  cases e with
  | tab e => exact current_react hcurrent hmade rfl (lists_step x.tab e)
  | selectToShow index =>
    constructor
    · exact fun h => (h.compileTab ⟨x.made, index⟩ rfl).1
    · rintro (hmade : x.made = x.outputs)
      refine ⟨?_, hcurrent.runTab⟩
      rintro _ ⟨⟩
      exact ⟨hmade, he.2.1⟩
  | selectToRun index =>
    constructor
    · exact fun h => (h.runTab ⟨x.made, index⟩ rfl).1
    · rintro (hmade : x.made = x.outputs)
      refine ⟨hcurrent.compileTab, ?_⟩
      rintro _ ⟨⟩
      exact ⟨hmade, he.2⟩

theorem made_le_step {scripts : Compiler → Prop} {x : Sidebar} {e : SidebarEvent}
    (h : x.made ≤ x.outputs) :
    ((sidebarDesk scripts).step x e).made ≤ ((sidebarDesk scripts).step x e).outputs := by
  cases e with
  | selectToShow index => exact h
  | selectToRun index => exact h
  | tab e =>
    change (x.react e _).made ≤ (x.react e _).outputs
    rcases hparses : x.tab.parses e with - | text
    · simpa [Sidebar.react, hparses] using h
    · rw [outputs_react hparses, made_react hparses]
      split_ifs
      · exact le_rfl
      · exact h.trans (Nat.le_succ _)

/-- **The selected contracts are current** in every run whose events meet the
condition. The first event that does not meet it leaves one of them over. -/
theorem selected_is_current {scripts : Compiler → Prop} {x : Sidebar}
    (h : ((sidebarDesk scripts).under keepsCurrent).Reachable x) : SelectedCurrent x ∧
      ∀ e, (sidebarDesk scripts).enabled x e →
        (SelectedCurrent ((sidebarDesk scripts).step x e) ↔ keepsCurrent x e) := by
  have hinv : SelectedCurrent x ∧ x.made ≤ x.outputs := by
    refine h.invariant (I := fun x => SelectedCurrent x ∧ x.made ≤ x.outputs) ?_ ?_
    · rintro _ ⟨tab, -, rfl⟩
      exact ⟨⟨nofun, nofun⟩, le_rfl⟩
    · rintro x e ⟨hcurrent, hmade⟩ he
      exact ⟨(current_step_iff hcurrent hmade he.1).2 he.2, made_le_step hmade⟩
  exact ⟨hinv.1, fun e he => current_step_iff hinv.1 hinv.2 he⟩

/-- A compilation, after which a contract is selected in the run tab. -/
def selectedAfter : List SidebarEvent := firstCompilation ++ [.selectToRun 0]

theorem selectedAfter_is_current :
    SelectedCurrent (((sidebarDesk (· = contentCompiler)).under keepsCurrent).run
      (openedSidebar ⟨some "A.sol", "", []⟩) selectedAfter) := by
  refine (selected_is_current (.run (.start (openedSidebar_start _)) ?_)).1
  refine ⟨⟨trivial, nofun⟩, ⟨⟨rfl, rfl⟩, nofun⟩, ⟨trivial, nofun⟩, ⟨trivial, nofun⟩,
    ⟨⟨rfl, rfl⟩, nofun⟩, ⟨trivial, nofun⟩, ⟨trivial, nofun⟩, ⟨⟨rfl, rfl⟩, nofun⟩, ⟨trivial, ?_⟩,
    ⟨⟨⟨rfl, rfl⟩, Nat.succ_pos _⟩, rfl⟩, trivial⟩
  rintro text ⟨⟩
  exact ⟨rfl, fun _ => .inl rfl, fun _ => rfl⟩

/-- A contract is selected in the compile tab, and the file compiled again. -/
def compiledAgain : List SidebarEvent :=
  firstCompilation ++ .selectToShow 0 :: [.timeout, .work 0, .deliver 0, .microtask, .work 0,
    .deliver 0, .microtask].map .tab

/-- **A contract is left over** in the compile tab. -/
theorem selected_contract_is_left_over :
    ¬ ∀ (scripts : Compiler → Prop) (x : Sidebar), (sidebarDesk scripts).Reachable x →
      SelectedCurrent x := by
  intro h
  have hcurrent := h (· = contentCompiler)
    ((sidebarDesk (· = contentCompiler)).run (openedSidebar ⟨some "A.sol", "", []⟩) compiledAgain)
    (.run (.start (openedSidebar_start _)) ⟨trivial, ⟨rfl, rfl⟩, trivial, trivial, ⟨rfl, rfl⟩,
      trivial, trivial, ⟨rfl, rfl⟩, trivial, ⟨⟨rfl, rfl⟩, Nat.succ_pos _, rfl, rfl⟩,
      ⟨⟨rfl, rfl⟩, by decide⟩, trivial, ⟨rfl, rfl⟩, trivial, trivial, ⟨rfl, rfl⟩, trivial, trivial⟩)
  have houtput := (hcurrent.compileTab _ rfl).1
  exact absurd houtput (by decide)

end Hmix
