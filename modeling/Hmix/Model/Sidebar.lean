import Hmix.Model.CompileTab

/-!
# The sidebar

The compile tab and the run tab are there from the start, side by side, over
one service. The run tab hears the service's events; the compile tab hears
of its own calls. Each keeps a contract that was selected: an object of the
list the service had at the time.

The list is made anew of each output that has a map of contracts, with new
objects in it, and is left as it is by the others. Outputs are numbered as
they are parsed, so that an object is known by the output it was made of
and its place in the list.
-/

namespace Hmix

/-- **A contract, as an object**: the number of its output, and its place. -/
structure ContractRef where
  output : ℕ
  index : ℕ
  deriving DecidableEq

/-- What the run tab has of compilations. -/
structure RunTab where
  compiling : Bool
  selectedContract : Option ContractRef

/-- `ngOnInit`: the tab takes it that a compilation is under way. -/
def RunTab.ngOnInit : RunTab := ⟨true, none⟩

/-- **The subscriptions of the run tab**, where `first` is `contracts[0]`. -/
def RunTab.hear (first : Option ContractRef) (r : RunTab) : CompilationEvent → RunTab
  | .started => { r with compiling := true }
  | .finished => { r with selectedContract := first, compiling := false }

/-- `if (!result.contracts)`: the output has contracts to make a list of. -/
def Text.makesContracts : Text → Bool
  | .json result => ((result.field "contracts").map Json.truthy).getD false
  | .raw _ => false

/-- The text the next round to go on parses, if that begins no other. -/
def CompilerService.parsesNext (s : CompilerService) : Option Text :=
  match s.resolved with
  | [] => none
  | (p, answer) :: _ =>
    if answer.reply.missingInputs.isSome && p.ticket.retry then none
    else some answer.reply.result

/-- The text an event has parsed. -/
def CompileTab.parses (t : CompileTab) : TabEvent → Option Text
  | .microtask => if t.service.loaded = 0 then t.service.parsesNext else none
  | _ => none

/-- **The two tabs**: the compile tab's selected contract, the run tab, how
many outputs were parsed, and which of them the list is made of. -/
structure Sidebar where
  tab : CompileTab
  selectedContract : Option ContractRef
  runTab : RunTab
  outputs : ℕ
  made : ℕ

namespace Sidebar

/-- The sidebar, once the compile tab was through an event. -/
def react (x : Sidebar) (e : TabEvent) (tab : CompileTab) : Sidebar :=
  let parsed := x.tab.parses e
  let outputs := if parsed.isSome then x.outputs + 1 else x.outputs
  let made := if parsed.any Text.makesContracts then outputs else x.made
  let first := tab.contracts.head?.map fun _ => ⟨made, 0⟩
  { x with
    tab := tab
    runTab := (tab.service.events.drop x.tab.service.events.length).foldl (RunTab.hear first)
      x.runTab
    outputs := outputs
    made := made }

/-- The run tab hears what is new. -/
theorem runTab_react {x : Sidebar} {e : TabEvent} {t' : CompileTab}
    {events : List CompilationEvent} (h : t'.service.events = x.tab.service.events ++ events) :
    (x.react e t').runTab = events.foldl
      (RunTab.hear (t'.contracts.head?.map fun _ => ⟨(x.react e t').made, 0⟩)) x.runTab := by
  simp only [Sidebar.react, h, List.drop_left]

end Sidebar

/-! ## Runs -/

/-- What happens to the sidebar. -/
inductive SidebarEvent where
  | tab (e : TabEvent)
  /-- A contract is selected in the compile tab. -/
  | selectToShow (index : ℕ)
  /-- A contract is selected in the run tab. -/
  | selectToRun (index : ℕ)

/-- **The sidebar of a page.** What can be selected is in the list; in the
compile tab nothing can be while it is busy. -/
def sidebarDesk (scripts : Compiler → Prop) : Machine Sidebar SidebarEvent where
  start := fun x => ∃ tab, (tabDesk scripts).start tab ∧ x = ⟨tab, none, .ngOnInit, 0, 0⟩
  enabled := fun x e =>
    match e with
    | .tab e => (tabDesk scripts).enabled x.tab e
    | .selectToShow index => x.tab.Drained ∧ index < x.tab.contracts.length ∧
        x.tab.compiling = false ∧ x.tab.loadingCompiler = false
    | .selectToRun index => x.tab.Drained ∧ index < x.tab.contracts.length
  step := fun x e =>
    match e with
    | .tab e => x.react e ((tabDesk scripts).step x.tab e)
    | .selectToShow index => { x with selectedContract := some ⟨x.made, index⟩ }
    | .selectToRun index =>
      { x with runTab := { x.runTab with selectedContract := some ⟨x.made, index⟩ } }

end Hmix
