import Hmix.Compiler.Result
import Hmix.Model.Imports
import Mathlib.Logic.Relation

/-!
# How far imports are followed

A call that has only the selected file's source runs the compiler twice.
The second run is given what the first one asked for, and the import a scan
finds at the head of the file; what those files import in turn is asked for
in the second run, and deferred. So the run that is reported is complete
exactly if the files that are fetched import one another and nothing else
(`DirectlyClosed`).
-/

namespace Hmix

variable {compiler : Solc} {importsOf : String → String → List String}
variable {library : Library} {optimize : Bool} {selected content : String}

/-! ## Gathering -/

namespace Sources

theorem has_eq_false {sources : Sources} {p : String} :
    sources.has p = false ↔ p ∉ sources.names ∧ p ∉ inherited := by
  simp [has]

theorem mem_names {sources : Sources} {p : String} :
    p ∈ sources.names ↔ ∃ c, (p, c) ∈ sources := by
  simp [names]

end Sources

/-- **What is added**: the missing files that no source and no object has,
and the library does. -/
theorem mem_addMissing {p c : String} (missingFiles : List String) (sources : Sources) :
    (p, c) ∈ addMissing library sources missingFiles ↔ (p, c) ∈ sources ∨
      (sources.has p = false ∧ p ∈ missingFiles ∧ library.contentOf p = some c) := by
  induction missingFiles generalizing sources with
  | nil => simp [addMissing]
  | cons m missingFiles ih =>
    rw [addMissing]
    split
    · next hhas =>
      rw [ih]
      refine or_congr_right ⟨fun ⟨h₁, h₂, h₃⟩ => ⟨h₁, List.mem_cons_of_mem _ h₂, h₃⟩, ?_⟩
      rintro ⟨h₁, h₂, h₃⟩
      refine ⟨h₁, (List.mem_cons.1 h₂).resolve_left ?_, h₃⟩
      rintro rfl
      exact absurd hhas (by simp [h₁])
    · next hhas =>
      have hm : sources.has m = false := Bool.eq_false_iff.2 hhas
      split
      · next d hd =>
        rw [ih, List.mem_append, List.mem_singleton, or_assoc]
        refine or_congr_right ⟨?_, ?_⟩
        · rintro (he | ⟨h₁, h₂, h₃⟩)
          · obtain ⟨rfl, rfl⟩ := Prod.mk.inj he
            exact ⟨hm, List.mem_cons_self, hd⟩
          · refine ⟨?_, List.mem_cons_of_mem _ h₂, h₃⟩
            obtain ⟨hnames, hinh⟩ := Sources.has_eq_false.1 h₁
            refine Sources.has_eq_false.2 ⟨fun hp => hnames ?_, hinh⟩
            simp only [Sources.names, List.map_append, List.mem_append]
            exact .inl hp
        · rintro ⟨h₁, h₂, h₃⟩
          by_cases hpm : p = m
          · subst hpm
            exact .inl (by rw [Option.some.inj (h₃.symm.trans hd)])
          · refine .inr ⟨?_, (List.mem_cons.1 h₂).resolve_left hpm, h₃⟩
            obtain ⟨hnames, hinh⟩ := Sources.has_eq_false.1 h₁
            refine Sources.has_eq_false.2 ⟨?_, hinh⟩
            simpa [Sources.names, hpm] using hnames
      · next hd =>
        rw [ih]
        refine or_congr_right ⟨fun ⟨h₁, h₂, h₃⟩ => ⟨h₁, List.mem_cons_of_mem _ h₂, h₃⟩, ?_⟩
        rintro ⟨h₁, h₂, h₃⟩
        refine ⟨h₁, (List.mem_cons.1 h₂).resolve_left ?_, h₃⟩
        rintro rfl
        exact absurd (h₃.symm.trans hd) (by simp)

/-- The scan adds what it finds in the sources. -/
theorem mem_pushScanned {p : String} (sources : Sources) (missingFiles : List String) :
    p ∈ pushScanned sources missingFiles ↔
      p ∈ missingFiles ∨ ∃ source ∈ sources, scannedImport source.2 = some p := by
  induction sources generalizing missingFiles with
  | nil => simp [pushScanned]
  | cons source sources ih =>
    obtain ⟨name, content⟩ := source
    rw [pushScanned]
    rcases hscan : scannedImport content with - | path
    · simp [ih, hscan]
    · dsimp only
      split_ifs with hmem
      · rw [ih]
        have hmem' : path ∈ missingFiles := by simpa using hmem
        simp only [List.mem_cons, exists_eq_or_imp, hscan, Option.some.injEq]
        constructor
        · rintro (h | h)
          · exact .inl h
          · exact .inr (.inr h)
        · rintro (h | rfl | h)
          · exact .inl h
          · exact .inl hmem'
          · exact .inr h
      · rw [ih]
        simp only [List.mem_append, List.mem_cons, List.not_mem_nil, or_false, exists_eq_or_imp,
          hscan, Option.some.injEq, or_assoc, eq_comm]

/-! ## The files that are fetched -/

/-- The content under a name, once the selected file is given. -/
def contentUnder (library : Library) (selected content : String) (name : String) :
    Option String :=
  if name = selected then some content else library.contentOf name

/-- It is the one that was given, or one of the library's. -/
theorem mem_of_contentUnder {library : Library} {selected content name c : String}
    (h : contentUnder library selected content name = some c) :
    c = content ∨ c ∈ library.map Prod.snd := by
  unfold contentUnder at h
  split_ifs at h
  · exact .inl (Option.some.inj h).symm
  · obtain ⟨before, after, rfl, -⟩ := List.lookup_eq_some_iff.1 h
    exact .inr (by simp)

/-- **The files one call compiles**: the selected one, and what of its own
imports, and of the one the scan finds in it, the library has. A name every
object inherits counts as given, and is not fetched. -/
def Fetched (importsOf : String → String → List String) (library : Library)
    (selected content : String) (name : String) : Prop :=
  name = selected ∨ (name ∉ Sources.inherited ∧
    (name ∈ importsOf selected content ∨ scannedImport content = some name) ∧
      (library.contentOf name).isSome = true)

/-- A file imports another. -/
def Imports (importsOf : String → String → List String) (library : Library)
    (selected content : String) (name path : String) : Prop :=
  ∃ c, contentUnder library selected content name = some c ∧ path ∈ importsOf name c

/-- **The fetched files import one another, and nothing else.** -/
def DirectlyClosed (importsOf : String → String → List String) (library : Library)
    (selected content : String) : Prop :=
  ∀ name, Fetched importsOf library selected content name →
    ∀ path, Imports importsOf library selected content name path →
      Fetched importsOf library selected content path

/-- **What the compiler does with imports**: it asks for the import paths of
its sources that are not sources themselves. Its output is well formed. -/
structure AsksForImports (compiler : Solc) (importsOf : String → String → List String) :
    Prop where
  answers : ∀ input, ∃ (output : CompilerOutput) (missing : List String),
    compiler input = .ok (.json output.json, missing) ∧
      ∀ path, path ∈ missing ↔
        (∃ source ∈ input.sources, path ∈ importsOf source.1 source.2) ∧
          path ∉ input.sources.names

theorem fetched_iff_content {name : String} :
    Fetched importsOf library selected content name ↔
      ∃ c, contentUnder library selected content name = some c ∧
        (name = selected ∨ (name ∉ Sources.inherited ∧
          (name ∈ importsOf selected content ∨ scannedImport content = some name))) := by
  simp only [Fetched, contentUnder]
  by_cases hs : name = selected
  · simp [hs]
  · rw [if_neg hs]
    simp only [hs, false_or, Option.isSome_iff_exists]
    constructor
    · rintro ⟨hinh, himp, c, hc⟩
      exact ⟨c, hc, hinh, himp⟩
    · rintro ⟨c, hc, hinh, himp⟩
      exact ⟨hinh, himp, c, hc⟩

/-- **What the second run is given**, where the first asked for what it
lacks. -/
theorem mem_gatherImports {missing : List String}
    (hmissing : ∀ path, path ∈ missing ↔
      path ∈ importsOf selected content ∧ path ≠ selected) (name c : String) :
    (name, c) ∈ gatherImports library [(selected, content)] missing ↔
      Fetched importsOf library selected content name ∧
        contentUnder library selected content name = some c := by
  rw [gatherImports, mem_addMissing, fetched_iff_content]
  simp only [List.mem_singleton, List.mem_reverse, mem_pushScanned, hmissing,
    Sources.has_eq_false, Sources.names, List.map_cons, List.map_nil, exists_eq_left,
    Prod.mk.injEq, contentUnder]
  by_cases hs : name = selected
  · subst hs
    simp [eq_comm]
  · simp only [hs, if_false, false_and, false_or, not_false_eq_true, true_and, and_true, ne_eq]
    constructor
    · rintro ⟨hinh, himp, hc⟩
      exact ⟨⟨c, hc, hinh, himp⟩, hc⟩
    · rintro ⟨⟨_, -, hinh, himp⟩, hc⟩
      exact ⟨hinh, himp, hc⟩

/-! ## The round that is reported -/

/-- **A complete round**: every file reachable through imports is in it,
and no import was deferred. -/
structure Complete (importsOf : String → String → List String) (library : Library)
    (selected content : String) (reported : Round) : Prop where
  reachable : ∀ name,
    Relation.ReflTransGen (Imports importsOf library selected content) selected name →
      name ∈ reported.input.sources.names
  deferred : reported.reply.missingInputs = some []

/-- **A round is what is reported**: it is a run of the compiler, and the
stored result is its output's. -/
structure Reports (compiler : Solc) (latest latest' : ICompilerResult) (reported : Round) :
    Prop where
  run : compileSync compiler reported.input = .ok reported.reply
  result : ∃ output : CompilerOutput, reported.reply.result = .json output.json ∧
    latest' = latest.next output

/-- The round that is parsed is the second one. -/
theorem compile_reports (h : AsksForImports compiler importsOf) (latest : ICompilerResult) :
    ∃ reported latest',
      compile compiler library optimize [(selected, content)] latest = .ok reported latest' ∧
      Reports compiler latest latest' reported ∧
      ∃ missing missing', reported.reply.missingInputs = some missing' ∧
        reported.input.sources = gatherImports library [(selected, content)] missing ∧
        (∀ path, path ∈ missing ↔ path ∈ importsOf selected content ∧ path ≠ selected) ∧
        ∀ path, path ∈ missing' ↔
          (∃ source ∈ reported.input.sources, path ∈ importsOf source.1 source.2) ∧
            path ∉ reported.input.sources.names := by
  obtain ⟨output, missing, hfirst, hmissing⟩ := h.answers ⟨[(selected, content)], optimize⟩
  obtain ⟨output', missing', hsecond, hmissing'⟩ :=
    h.answers ⟨gatherImports library [(selected, content)] missing, optimize⟩
  set sources := gatherImports library [(selected, content)] missing with hsources
  have hrun : wp (compile compiler library optimize [(selected, content)])
      (fun reported latest' =>
        reported = ⟨⟨sources, optimize⟩, ⟨.json output'.json, some missing'⟩⟩ ∧
          latest' = latest.next output') (fun _ _ => False) latest := by
    simp only [compile, round, compileSync, hfirst, Except.map, wp_bind, wp_pure, compileOnce,
      report, ← hsources, hsecond]
    refine (parseCompilationResult_spec output' latest).imp fun _ latest' h' => ?_
    exact ⟨rfl, h'.trans (next_eq latest output').symm⟩
  obtain ⟨reported, latest', hcompile, rfl, hlatest⟩ := hrun.returns
  refine ⟨_, latest', hcompile, ⟨?_, output', rfl, hlatest⟩, missing, missing', rfl, rfl,
    fun path => ?_, hmissing'⟩
  · simp only [compileSync, hsecond, Except.map]
  · rw [hmissing]
    simp [Sources.names]

/-- A round over the fetched files is complete if and only if they import
one another. -/
theorem complete_iff {reported : Round} {missing' : List String}
    (hsources : ∀ name c, (name, c) ∈ reported.input.sources ↔
      Fetched importsOf library selected content name ∧
        contentUnder library selected content name = some c)
    (hreply : reported.reply.missingInputs = some missing')
    (hmissing' : ∀ path, path ∈ missing' ↔
      (∃ source ∈ reported.input.sources, path ∈ importsOf source.1 source.2) ∧
        path ∉ reported.input.sources.names) :
    Complete importsOf library selected content reported ↔
      DirectlyClosed importsOf library selected content := by
  have hnames : ∀ name, name ∈ reported.input.sources.names ↔
      Fetched importsOf library selected content name := by
    intro name
    rw [Sources.mem_names]
    refine ⟨fun ⟨c, hc⟩ => ((hsources name c).1 hc).1, fun hf => ?_⟩
    obtain ⟨c, hc, -⟩ := fetched_iff_content.1 hf
    exact ⟨c, (hsources name c).2 ⟨hf, hc⟩⟩
  constructor
  · intro hcomplete name hf path himp
    obtain ⟨c, hc, hpath⟩ := himp
    rw [← hnames]
    by_contra hn
    have hmem : path ∈ missing' :=
      (hmissing' path).2 ⟨⟨(name, c), (hsources name c).2 ⟨hf, hc⟩, hpath⟩, hn⟩
    have hempty : missing' = [] := Option.some.inj (hreply.symm.trans hcomplete.deferred)
    exact absurd (hempty ▸ hmem) List.not_mem_nil
  · intro hclosed
    refine ⟨fun name hreach => (hnames name).2 ?_, ?_⟩
    · -- along a chain of imports every file is fetched
      induction hreach with
      | refl => exact .inl rfl
      | tail _ himp ih => exact hclosed _ ih _ himp
    · rw [hreply, Option.some.injEq, List.eq_nil_iff_forall_not_mem]
      rintro path hpath
      obtain ⟨⟨⟨name, c⟩, hsource, himp⟩, hn⟩ := (hmissing' path).1 hpath
      obtain ⟨hf, hc⟩ := (hsources name c).1 hsource
      exact hn ((hnames path).2 (hclosed name hf path ⟨c, hc, himp⟩))

/-- **How far one call follows imports.** It reports a run of the compiler,
and that run is complete if and only if the selected file and the files it
imports itself import nothing but one another. -/
theorem compile_is_complete_iff (h : AsksForImports compiler importsOf)
    (latest : ICompilerResult) : ∃ reported latest',
      compile compiler library optimize [(selected, content)] latest = .ok reported latest' ∧
      Reports compiler latest latest' reported ∧
      (Complete importsOf library selected content reported ↔
        DirectlyClosed importsOf library selected content) := by
  obtain ⟨reported, latest', hcompile, hreports, missing, missing', hreply, hgather, hmissing,
    hmissing'⟩ := @compile_reports _ _ library optimize selected content h latest
  refine ⟨reported, latest', hcompile, hreports, complete_iff (fun name c => ?_) hreply hmissing'⟩
  rw [hgather]
  exact mem_gatherImports hmissing name c

/-! ## Two libraries -/

/-- An output with nothing in it. -/
def CompilerOutput.empty : CompilerOutput := ⟨[], nofun, nofun, nofun⟩

/-- A file whose one import stands at its head. -/
def headImports (_ content : String) : List String := (scannedImport content).toList

/-- What is missing of them. -/
def headMissing (sources : Sources) : List String :=
  (sources.flatMap fun source => headImports source.1 source.2).filter
    fun path => path ∉ sources.names

/-- A compiler of such files. -/
def headCompiler : Solc := fun input =>
  .ok (.json CompilerOutput.empty.json, headMissing input.sources)

theorem headCompiler_asks : AsksForImports headCompiler headImports where
  answers := fun input => ⟨.empty, headMissing input.sources, rfl, fun path => by
    simp only [headMissing, List.mem_filter, List.mem_flatMap, decide_eq_true_eq]⟩

/-- The chain `A.sol`, `B.sol`, `C.sol`. -/
def importB : String := "import 'B.sol';"

@[inherit_doc importB] def importC : String := "import 'C.sol';"

theorem scanned_importB : scannedImport importB = some "B.sol" := by
  have h : importB.toList = ['i', 'm', 'p', 'o', 'r', 't', ' ', '\'', 'B', '.', 's', 'o', 'l',
    '\'', ';'] := rfl
  rw [scannedImport, h]
  rfl

theorem scanned_importC : scannedImport importC = some "C.sol" := by
  have h : importC.toList = ['i', 'm', 'p', 'o', 'r', 't', ' ', '\'', 'C', '.', 's', 'o', 'l',
    '\'', ';'] := rfl
  rw [scannedImport, h]
  rfl

theorem scanned_nothing : scannedImport "" = none := rfl

/-- One import deep, a library is compiled whole. -/
theorem one_deep_is_complete : ∃ reported latest',
    compile headCompiler [("A.sol", importB), ("B.sol", "")] true [("A.sol", importB)] .initial =
      .ok reported latest' ∧
    Complete headImports [("A.sol", importB), ("B.sol", "")] "A.sol" importB reported := by
  obtain ⟨reported, latest', hcompile, -, hiff⟩ :=
    @compile_is_complete_iff _ _ [("A.sol", importB), ("B.sol", "")] true "A.sol" importB
      headCompiler_asks .initial
  refine ⟨reported, latest', hcompile, hiff.2 fun name hf path himp => ?_⟩
  obtain ⟨c, hc, hpath⟩ := himp
  have hc' : c = importB ∨ c = "" := by simpa using mem_of_contentUnder hc
  rcases hc' with rfl | rfl
  · obtain rfl : path = "B.sol" := by simpa [headImports, scanned_importB] using hpath
    exact .inr ⟨by decide, .inr scanned_importB, rfl⟩
  · simp [headImports, scanned_nothing] at hpath

/-- The library of the chain. -/
def chain : Library := [("A.sol", importB), ("B.sol", importC), ("C.sol", "")]

/-- **Two imports deep, the last file is not compiled**, though every import
names a file of the library. -/
theorem two_deep_is_deferred : ¬ ∀ (compiler : Solc)
    (importsOf : String → String → List String) (library : Library) (optimize : Bool)
    (selected content : String), AsksForImports compiler importsOf → (library.map Prod.fst).Nodup →
    (∀ name, Relation.ReflTransGen (Imports importsOf library selected content) selected name →
      ∀ path, Imports importsOf library selected content name path → path ∈ library.map Prod.fst) →
    ∀ latest reported latest',
      compile compiler library optimize [(selected, content)] latest = .ok reported latest' →
      Complete importsOf library selected content reported := by
  intro h
  have himports : ∀ name path, Imports headImports chain "A.sol" importB name path →
      path ∈ chain.map Prod.fst := by
    rintro name path ⟨c, hc, hpath⟩
    have hc' : c = importB ∨ c = importC ∨ c = "" := by
      simpa [chain] using mem_of_contentUnder hc
    rcases hc' with rfl | rfl | rfl
    · obtain rfl : path = "B.sol" := by simpa [headImports, scanned_importB] using hpath
      decide
    · obtain rfl : path = "C.sol" := by simpa [headImports, scanned_importC] using hpath
      decide
    · simp [headImports, scanned_nothing] at hpath
  obtain ⟨reported, latest', hcompile, -, missing, missing', hreply, hgather, hmissing,
    hmissing'⟩ := @compile_reports _ _ chain true "A.sol" importB headCompiler_asks
      .initial
  have hcomplete := h headCompiler headImports chain true "A.sol" importB headCompiler_asks
    (by decide) (fun name _ => himports name) _ reported latest' hcompile
  have hclosed := (complete_iff (fun name c => by
    rw [hgather]; exact mem_gatherImports hmissing name c) hreply hmissing').1 hcomplete
  have hB : Fetched headImports chain "A.sol" importB "B.sol" :=
    .inr ⟨by decide, .inr scanned_importB, rfl⟩
  have hC := hclosed "B.sol" hB "C.sol" ⟨importC, rfl, by simp [headImports, scanned_importC]⟩
  rcases hC with hC | ⟨-, hC | hC, -⟩
  · exact absurd hC (by decide)
  · simp [headImports, scanned_importB] at hC
  · simp [scanned_importB] at hC

end Hmix
