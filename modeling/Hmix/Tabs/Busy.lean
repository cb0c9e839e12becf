import Hmix.Compiler.Sessions
import Hmix.Model.Sidebar

/-!
# When the tabs are busy

Each tab has a flag. In the compile tab it is set by a request and cleared
by any request that settles; in the run tab it is set by any round that
begins, cleared by any call that settles, and set to begin with. So with one
request at a time the two are right, once there was one; before there was,
the run tab waits for a compilation nobody asked for.
-/

namespace Hmix

open CompilerService

/-- A compilation that was requested has not delivered its result. -/
def CompilerService.Outstanding (s : CompilerService) : Prop :=
  ∃ call < s.calls, call ∉ s.settled

/-- **The busy flags are right**, in both tabs. -/
def BusyRight (x : Sidebar) : Prop :=
  (x.tab.compiling = true ↔ x.tab.service.Outstanding) ∧
    (x.runTab.compiling = true ↔ x.tab.service.Outstanding)

/-- A compilation is requested only while none is outstanding. -/
def oneOutstanding (x : Sidebar) : SidebarEvent → Prop
  | .tab e => x.tab.Requests e → ¬ x.tab.service.Outstanding
  | _ => True

/-! ## What one event does -/

/-- **What an event does to the flags and to what they tell**: a request is
made, a call settles, a call begins its second round, or nothing. -/
inductive Tells (t t' : CompileTab) : Prop
  | request (calls : t'.service.calls = t.service.calls + 1)
    (settled : t'.service.settled = t.service.settled)
    (events : t'.service.events = t.service.events ++ [.started]) (compiling : t'.compiling = true)
  | settles {call : ℕ} (round : call ∈ t.service.resolved.map fun c => c.1.ticket.call)
    (calls : t'.service.calls = t.service.calls)
    (settled : t'.service.settled = t.service.settled ++ [call])
    (events : t'.service.events = t.service.events ++ [.finished])
    (compiling : t'.compiling = false)
  | again {call : ℕ} (round : call ∈ t.service.resolved.map fun c => c.1.ticket.call)
    (calls : t'.service.calls = t.service.calls)
    (settled : t'.service.settled = t.service.settled)
    (events : t'.service.events = t.service.events ++ [.started])
    (compiling : t'.compiling = t.compiling)
  | quiet (calls : t'.service.calls = t.service.calls)
    (settled : t'.service.settled = t.service.settled)
    (events : t'.service.events = t.service.events) (compiling : t'.compiling = t.compiling)

/-- What `Tells` speaks of. -/
def CompileTab.told (t : CompileTab) :=
  (t.service.calls, t.service.settled, t.service.events, t.service.resolved, t.compiling)

theorem Tells.congr {t t' u u' : CompileTab} (h : Tells u u') (hu : u.told = t.told)
    (hu' : u'.told = t'.told) : Tells t t' := by
  simp only [CompileTab.told, Prod.mk.injEq] at hu hu'
  obtain ⟨hcalls, hsettled, hevents, hresolved, hcompiling⟩ := hu
  obtain ⟨hcalls', hsettled', hevents', -, hcompiling'⟩ := hu'
  cases h with
  | request calls settled events compiling =>
    rw [hcalls, hcalls'] at calls
    rw [hsettled, hsettled'] at settled
    rw [hevents, hevents'] at events
    exact .request calls settled events (hcompiling'.symm.trans compiling)
  | settles round calls settled events compiling =>
    rw [hresolved] at round
    rw [hcalls, hcalls'] at calls
    rw [hsettled, hsettled'] at settled
    rw [hevents, hevents'] at events
    exact .settles round calls settled events (hcompiling'.symm.trans compiling)
  | again round calls settled events compiling =>
    rw [hresolved] at round
    rw [hcalls, hcalls'] at calls
    rw [hsettled, hsettled'] at settled
    rw [hevents, hevents'] at events
    exact .again round calls settled events (hcompiling'.symm.trans (compiling.trans hcompiling))
  | quiet calls settled events compiling =>
    rw [hcalls, hcalls'] at calls
    rw [hsettled, hsettled'] at settled
    rw [hevents, hevents'] at events
    exact .quiet calls settled events (hcompiling'.symm.trans (compiling.trans hcompiling))

theorem tells_compile (t : CompileTab) : Tells t t.compile := by
  unfold CompileTab.compile
  split
  · exact .quiet rfl rfl rfl rfl
  · next selectedFile _ =>
    have hbooks := (begins_startRound { t.service with calls := t.service.calls + 1 }
      ⟨t.service.calls, true⟩ (t.sources selectedFile)).sameBooks
    exact .request hbooks.calls hbooks.settled (events_startRound _ _ _) rfl

theorem tells_goOn (t : CompileTab) : Tells t t.goOn := by
  have hround : ∀ {p : Pending} {answer : Answer} {rest : List (Pending × Answer)},
      t.service.resolved = (p, answer) :: rest →
      p.ticket.call ∈ t.service.resolved.map fun c => c.1.ticket.call := by
    intro p answer rest hresolved
    rw [hresolved]
    exact List.mem_cons_self
  obtain ⟨s', hmicrotask⟩ : ∃ s', t.service.microtask t.workspace.library = s' := ⟨_, rfl⟩
  have hgoesOn := goesOn_microtask t.service t.workspace.library
  rw [hmicrotask] at hgoesOn
  cases hgoesOn with
  | rests =>
    rw [goOn_eq_of_settled hmicrotask rfl]
    exact .quiet rfl rfl rfl rfl
  | @retries p answer rest missingInputs hresolved =>
    have hbooks := (begins_startRound { t.service with resolved := popped answer rest }
      ⟨p.ticket.call, false⟩ (gatherImports t.workspace.library p.input.sources
        missingInputs)).sameBooks
    rw [goOn_eq_of_settled hmicrotask hbooks.settled]
    exact .again (hround hresolved) hbooks.calls hbooks.settled (events_startRound _ _ _) rfl
  | reports hresolved =>
    rw [CompilerService.report] at hmicrotask
    split at hmicrotask
    · rw [goOn_eq_of_settles hmicrotask rfl]
      exact .settles (hround hresolved) rfl rfl rfl rfl
    · -- the call does not settle
      rw [goOn_eq_of_settled hmicrotask rfl]
      exact .quiet rfl rfl rfl rfl

/-- **Every event of the compile tab tells as much.** -/
theorem tells_step {scripts : Compiler → Prop} (t : CompileTab) (e : TabEvent) :
    Tells t ((tabDesk scripts).step t e) := by
  cases e with
  | press => exact tells_compile t
  | timeout =>
    exact (tells_compile { t with timers := t.timers - 1 }).congr rfl rfl
  | notified =>
    change Tells t t.notified
    unfold CompileTab.notified
    split
    · exact tells_compile t
    · exact .quiet rfl rfl rfl rfl
  | microtask =>
    change Tells t t.microtask
    unfold CompileTab.microtask
    split
    · exact tells_goOn t
    · exact (tells_compile { t with
        loadingCompiler := false
        service := { t.service with loaded := t.service.loaded - 1 } }).congr rfl rfl
  | change workspace => exact .quiet rfl rfl rfl rfl
  | setOptimize optimize => exact .quiet rfl rfl rfl rfl
  | work i => exact .quiet rfl rfl rfl rfl
  | loadCompiler script =>
    have hbeside := beside_loadCompiler t.service script
    exact .quiet (sameBooks_loadCompiler _ script).calls hbeside.settled hbeside.events rfl
  | poll compiler =>
    have hbeside := beside_poll t.service compiler
    exact .quiet (sameBooks_poll _ compiler).calls hbeside.settled hbeside.events rfl
  | deliver i =>
    have hbooks := sameBooks_deliver t.service i
    exact .quiet hbooks.calls hbooks.settled (events_deliver t.service i) rfl

/-- **Every call of a tab is in one place**, or was dropped. -/
theorem accounted_tab {scripts : Compiler → Prop} {t : CompileTab} {dropped : Set ℕ}
    (h : Accounted [] t.service dropped) (e : TabEvent) :
    ∃ dropped', Accounted [] ((tabDesk scripts).step t e).service dropped' := by
  have hfound : Accounted [] (t.found e) dropped := h.congr rfl rfl h.finished
  rw [CompileTab.service_step]
  rcases t.asks e with - | asked
  · exact ⟨_, hfound⟩
  · have hstep := accounted_step (a := ⟨t.found e, dropped⟩) hfound asked
    exact ⟨_, hstep⟩

/-! ## Runs -/

/-- **The tabs keep step** with the one request that may be outstanding. -/
structure InStep (x : Sidebar) : Prop where
  accounted : ∃ dropped, Accounted [] x.tab.service dropped
  last : ∀ call < x.tab.service.calls, call ∉ x.tab.service.settled →
    call + 1 = x.tab.service.calls
  tab : x.tab.compiling = true ↔ x.tab.service.Outstanding
  runTab : x.runTab.compiling = true ↔ x.tab.service.Outstanding ∨ x.tab.service.calls = 0

section

variable {s : CompilerService} {dropped : Set ℕ} {call : ℕ}

theorem Accounted.settled_lt (h : Accounted [] s dropped) (hcall : call ∈ s.settled) :
    call < s.calls := by
  have hheld : call ∈ s.held := List.mem_append_right _ hcall
  exact ((h.place call).1 hheld).1

/-- A call a round of which goes on is outstanding. -/
theorem Accounted.resolved_outstanding (h : Accounted [] s dropped)
    (hcall : call ∈ s.resolved.map fun c => c.1.ticket.call) :
    call < s.calls ∧ call ∉ s.settled := by
  have hround := List.mem_append_right (s.waiting.map fun p => p.ticket.call) hcall
  have hheld : call ∈ s.held := List.mem_append_left _ hround
  have honce : s.held.Nodup := h.once
  exact ⟨((h.place call).1 hheld).1,
    fun hsettled => (List.nodup_append.1 honce).2.2 call hround call hsettled rfl⟩

variable {s' : CompilerService}

theorem outstanding_congr (hcalls : s'.calls = s.calls) (hsettled : s'.settled = s.settled) :
    s'.Outstanding ↔ s.Outstanding := by
  simp only [CompilerService.Outstanding, hcalls, hsettled]

/-- Where no call is made and none settles, the outstanding one stays the last. -/
theorem last_congr (hlast : ∀ call < s.calls, call ∉ s.settled → call + 1 = s.calls)
    (hcalls : s'.calls = s.calls) (hsettled : s'.settled = s.settled) :
    ∀ call < s'.calls, call ∉ s'.settled → call + 1 = s'.calls := by
  rw [hcalls, hsettled]
  exact hlast

/-- A request is outstanding to begin with. -/
theorem outstanding_request (h : Accounted [] s dropped) (hcalls : s'.calls = s.calls + 1)
    (hsettled : s'.settled = s.settled) : s'.Outstanding := by
  refine ⟨s.calls, by omega, fun hmem => ?_⟩
  rw [hsettled] at hmem
  exact Nat.lt_irrefl _ (h.settled_lt hmem)

/-- Where the last call settles that was outstanding, no other is. -/
theorem not_outstanding_settles (hlast : ∀ other < s.calls, other ∉ s.settled →
    other + 1 = s.calls) (hcall : call + 1 = s.calls) (hcalls : s'.calls = s.calls)
    (hsettled : s'.settled = s.settled ++ [call]) : ¬ s'.Outstanding := by
  rintro ⟨other, hother, hnot⟩
  rw [hsettled, List.mem_append, List.mem_singleton, not_or] at hnot
  rw [hcalls] at hother
  have heq := hlast other hother hnot.1
  exact hnot.2 (by omega)

end

theorem inStep_react {x : Sidebar} {e : TabEvent} {t' : CompileTab} (h : InStep x)
    (haccounted : ∃ dropped, Accounted [] t'.service dropped) (htells : Tells x.tab t')
    (hone : t'.service.calls ≠ x.tab.service.calls → ¬ x.tab.service.Outstanding) :
    InStep (x.react e t') := by
  obtain ⟨dropped, hplaces⟩ := h.accounted
  cases htells with
  | request calls settled events compiling =>
    have hnone : ¬ x.tab.service.Outstanding := hone (by omega)
    have hnew : t'.service.Outstanding := outstanding_request hplaces calls settled
    have hrun := Sidebar.runTab_react (e := e) events
    refine ⟨haccounted, fun call hlt hcall => ?_, iff_of_true compiling hnew, ?_⟩
    · change call + 1 = t'.service.calls
      change call < t'.service.calls at hlt
      change call ∉ t'.service.settled at hcall
      rw [settled] at hcall
      -- the new call is the one that is outstanding, and the last
      by_contra hne
      exact hnone ⟨call, by omega, hcall⟩
    · rw [hrun]
      exact iff_of_true rfl (.inl hnew)
  | @settles call round calls settled events compiling =>
    obtain ⟨hlt, hunsettled⟩ := hplaces.resolved_outstanding round
    have hlast := h.last call hlt hunsettled
    have hnone : ¬ t'.service.Outstanding :=
      not_outstanding_settles h.last hlast calls settled
    have hrun := Sidebar.runTab_react (e := e) events
    refine ⟨haccounted, fun other hother hnot => absurd ⟨other, hother, hnot⟩ hnone, ?_, ?_⟩
    · exact iff_of_false (fun htrue => Bool.noConfusion (compiling.symm.trans htrue)) hnone
    · rw [hrun]
      refine iff_of_false (fun hfalse => Bool.noConfusion hfalse) (not_or.2 ⟨hnone, ?_⟩)
      change t'.service.calls ≠ 0
      omega
  | @again call round calls settled events compiling =>
    obtain ⟨hlt, hunsettled⟩ := hplaces.resolved_outstanding round
    -- the run tab hears of a second round, while the call is outstanding all along
    have hold : x.tab.service.Outstanding := ⟨call, hlt, hunsettled⟩
    have hnew : t'.service.Outstanding := (outstanding_congr calls settled).2 hold
    have hrun := Sidebar.runTab_react (e := e) events
    refine ⟨haccounted, last_congr h.last calls settled,
      iff_of_true (compiling.trans (h.tab.2 hold)) hnew, ?_⟩
    rw [hrun]
    exact iff_of_true rfl (.inl hnew)
  | quiet calls settled events compiling =>
    have hrun := Sidebar.runTab_react (e := e)
      (events.trans (List.append_nil x.tab.service.events).symm)
    have hsame := outstanding_congr calls settled
    refine ⟨haccounted, last_congr h.last calls settled, ?_, ?_⟩
    · change t'.compiling = true ↔ t'.service.Outstanding
      rw [compiling, hsame]
      exact h.tab
    · rw [hrun]
      change x.runTab.compiling = true ↔ t'.service.Outstanding ∨ t'.service.calls = 0
      rw [hsame, calls]
      exact h.runTab

theorem inStep_step {scripts : Compiler → Prop} {x : Sidebar} {e : SidebarEvent} (h : InStep x)
    (hone : oneOutstanding x e) : InStep ((sidebarDesk scripts).step x e) := by
  cases e with
  | tab e =>
    obtain ⟨dropped, haccounted⟩ := h.accounted
    refine inStep_react h (accounted_tab haccounted e) (tells_step x.tab e) fun hcalls => ?_
    exact hone ((requests_iff_calls x.tab e).1 hcalls)
  | selectToShow index => exact ⟨h.accounted, h.last, h.tab, h.runTab⟩
  | selectToRun index => exact ⟨h.accounted, h.last, h.tab, h.runTab⟩

theorem inStep_start {scripts : Compiler → Prop} {x : Sidebar} (h : (sidebarDesk scripts).start x) :
    InStep x := by
  obtain ⟨_, ⟨hasWorker, useWebWorker, optimize, workspace, script, -, rfl⟩, rfl⟩ := h
  have hbooks := sameBooks_loadCompiler (.new hasWorker useWebWorker optimize) script
  have hcalls : ((CompilerService.new hasWorker useWebWorker optimize).loadCompiler script).calls =
      0 := hbooks.calls
  have hnone : ¬ ((CompilerService.new hasWorker useWebWorker optimize).loadCompiler
      script).Outstanding := by
    rintro ⟨call, hlt, -⟩
    omega
  refine ⟨⟨_, accounted_loadCompiler (accounted_new _ _ _) script⟩, fun call hlt => ?_, ?_, ?_⟩
  · exact absurd (hlt.trans_eq hcalls) (Nat.not_lt_zero _)
  · exact iff_of_false (fun hfalse => Bool.noConfusion hfalse) hnone
  · exact iff_of_true rfl (.inr hcalls)

/-- **The tabs are busy while a compilation is outstanding, and then only**,
in every run in which requests come one at a time, once there was one. -/
theorem busy_right_iff {scripts : Compiler → Prop} {x : Sidebar}
    (h : ((sidebarDesk scripts).under oneOutstanding).Reachable x) :
    BusyRight x ↔ x.tab.service.calls ≠ 0 := by
  have hstep : InStep x := by
    refine h.invariant (I := InStep) (fun x hx => inStep_start hx) fun x e hx he => ?_
    exact inStep_step hx he.2
  constructor
  · intro hright hnone
    have hout : x.tab.service.Outstanding := hright.2.1 (hstep.runTab.2 (.inr hnone))
    obtain ⟨call, hlt, -⟩ := hout
    omega
  · intro hone
    exact ⟨hstep.tab, hstep.runTab.trans (or_iff_left hone)⟩

/-- **The compile tab goes quiet too soon** where requests overlap: the first
of them to settle clears the flag. -/
theorem not_busy_right_of_overlap {scripts : Compiler → Prop} {x : Sidebar} {e : TabEvent}
    {call other : ℕ}
    (hsettles : ((tabDesk scripts).step x.tab e).service.settled =
      x.tab.service.settled ++ [call])
    (hother : other < x.tab.service.calls) (hunsettled : other ∉ x.tab.service.settled)
    (hne : other ≠ call) : ¬ BusyRight ((sidebarDesk scripts).step x (.tab e)) := by
  intro hright
  have hlength := congrArg List.length hsettles
  rw [List.length_append, List.length_singleton] at hlength
  cases @tells_step scripts x.tab e with
  | settles round calls settled events compiling =>
    have hout : ((tabDesk scripts).step x.tab e).service.Outstanding := by
      refine ⟨other, by omega, ?_⟩
      rw [hsettles, List.mem_append, List.mem_singleton, not_or]
      exact ⟨hunsettled, hne⟩
    exact Bool.noConfusion (compiling.symm.trans (hright.1.2 hout))
  | request calls settled events compiling =>
    rw [settled] at hlength
    omega
  | again round calls settled events compiling =>
    rw [settled] at hlength
    omega
  | quiet calls settled events compiling =>
    rw [settled] at hlength
    omega

/-- The sidebar as the page is opened. -/
def openedSidebar (workspace : Workspace) : Sidebar where
  tab := (opened contentCompiler workspace).tab
  selectedContract := none
  runTab := .ngOnInit
  outputs := 0
  made := 0

theorem openedSidebar_start (workspace : Workspace) :
    (sidebarDesk (· = contentCompiler)).start (openedSidebar workspace) := by
  refine ⟨_, ⟨true, true, true, workspace, some contentCompiler, ?_, rfl⟩, rfl⟩
  rintro _ ⟨⟩
  rfl

/-- The compiler is loaded, and the selected file compiled in two rounds. -/
def firstCompilation : List SidebarEvent :=
  [.work 0, .deliver 0, .microtask, .work 0, .deliver 0, .microtask, .work 0, .deliver 0,
    .microtask].map .tab

theorem firstCompilation_busy_right :
    BusyRight ((sidebarDesk (· = contentCompiler)).run (openedSidebar ⟨some "A.sol", "", []⟩)
      firstCompilation) := by
  have hreach : ((sidebarDesk (· = contentCompiler)).under oneOutstanding).Reachable
      (((sidebarDesk (· = contentCompiler)).under oneOutstanding).run
        (openedSidebar ⟨some "A.sol", "", []⟩) firstCompilation) := by
    refine .run (.start (openedSidebar_start _)) ?_
    refine ⟨⟨trivial, nofun⟩, ⟨⟨rfl, rfl⟩, nofun⟩, ⟨trivial, ?_⟩, ⟨trivial, nofun⟩,
      ⟨⟨rfl, rfl⟩, nofun⟩, ⟨trivial, fun hrequests => absurd rfl hrequests.1⟩, ⟨trivial, nofun⟩,
      ⟨⟨rfl, rfl⟩, nofun⟩, ⟨trivial, fun hrequests => absurd rfl hrequests.1⟩, trivial⟩
    rintro - ⟨call, hlt, -⟩
    exact Nat.not_lt_zero call hlt
  exact (busy_right_iff hreach).2 (Nat.succ_ne_zero 0)

/-- **The run tab is busy with nothing** until a first compilation was
requested. -/
theorem runTab_busy_with_nothing :
    ¬ ∀ (scripts : Compiler → Prop) (x : Sidebar), (sidebarDesk scripts).Reachable x →
      BusyRight x := by
  intro h
  have hright := h _ _ (.start (openedSidebar_start ⟨none, "", []⟩))
  obtain ⟨call, hlt, -⟩ := hright.2.1 rfl
  exact Nat.not_lt_zero call hlt

end Hmix
