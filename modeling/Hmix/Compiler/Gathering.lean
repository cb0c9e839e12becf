import Hmix.Compiler.Imports

/-!
# What is gathered

`gatherImports` is to add the files that are missing, and those an import
directive names at the start of any line. The scan's regular expression has
the flag `g` and not `m`, so `^` is the start of the source and the loop
over its matches ends after one. And a file is taken to be in the sources
where an object has its name from `Object.prototype`.
-/

namespace Hmix

/-! ## Directives -/

/-- **The text begins with an import directive**, after white space. -/
def Directive (text path : List Char) : Prop :=
  ∃ before between opening closing rest,
    text = before ++ ['i', 'm', 'p', 'o', 'r', 't'] ++ between ++ opening :: path ++
      closing :: ';' :: rest ∧
    (∀ c ∈ before, whiteSpace c = true) ∧ (∀ c ∈ between, whiteSpace c = true) ∧
    quote opening = true ∧ quote closing = true ∧ path ≠ [] ∧ ∀ c ∈ path, quote c = false

/-- A line begins behind `before`: it is empty, or ends in a line terminator. -/
def LineStart (before : List Char) : Prop := ∀ c ∈ before.getLast?, dot c = false

/-- **A directive that starts some line of a source names the file.** A leading
`./` is dropped. -/
def NamedInLine (content name : String) : Prop :=
  ∃ before line path, content.toList = before ++ line ∧ LineStart before ∧ Directive line path ∧
    name = String.ofList (withoutDot path)

/-- A directive at the head of a source names the file. -/
def NamedAtHead (content name : String) : Prop :=
  ∃ path, Directive content.toList path ∧ name = String.ofList (withoutDot path)

theorem NamedAtHead.namedInLine {content name : String} (h : NamedAtHead content name) :
    NamedInLine content name := by
  obtain ⟨path, hdirective, hname⟩ := h
  exact ⟨[], content.toList, path, rfl, nofun, hdirective, hname⟩

/-! ## The scan -/

/-- What a directive names can be read off the text. -/
def directivePath (text : List Char) : List Char :=
  ((((text.dropWhile whiteSpace).drop 6).dropWhile whiteSpace).drop 1).takeWhile fun c => !quote c

theorem dropWhile_append_cons {p : Char → Bool} {read rest : List Char} {c : Char}
    (hread : ∀ c ∈ read, p c = true) (hc : p c = false) :
    (read ++ c :: rest).dropWhile p = c :: rest := by
  rw [List.dropWhile_append_of_pos hread, List.dropWhile_cons_of_neg (by simp [hc])]

theorem takeWhile_append_cons {p : Char → Bool} {read rest : List Char} {c : Char}
    (hread : ∀ c ∈ read, p c = true) (hc : p c = false) :
    (read ++ c :: rest).takeWhile p = read := by
  rw [List.takeWhile_append_of_pos hread, List.takeWhile_cons_of_neg (by simp [hc]),
    List.append_nil]

theorem quote_not_whiteSpace {c : Char} (h : quote c = true) : whiteSpace c = false := by
  simp only [quote, Bool.or_eq_true, beq_iff_eq] at h
  rcases h with rfl | rfl <;> decide

theorem Directive.path_eq {text path : List Char} (h : Directive text path) :
    path = directivePath text := by
  obtain ⟨before, between, opening, closing, rest, rfl, hbefore, hbetween, hopening, hclosing, -,
    hpath⟩ := h
  -- each run of white space ends at what the directive has next
  have hhead : whiteSpace 'i' = false := by decide
  have hfirst : (before ++ ['i', 'm', 'p', 'o', 'r', 't'] ++ between ++ opening :: path ++
      closing :: ';' :: rest).dropWhile whiteSpace =
      'i' :: 'm' :: 'p' :: 'o' :: 'r' :: 't' :: (between ++ opening :: (path ++
        closing :: ';' :: rest)) := by
    have hdrop := @dropWhile_append_cons _ _ ('m' :: 'p' :: 'o' :: 'r' :: 't' :: (between ++
      opening :: (path ++ closing :: ';' :: rest))) _ hbefore hhead
    simpa using hdrop
  rw [directivePath, hfirst]
  simp only [List.drop_succ_cons, List.drop_zero]
  rw [dropWhile_append_cons hbetween (quote_not_whiteSpace hopening)]
  simp only [List.drop_succ_cons, List.drop_zero]
  exact (takeWhile_append_cons (by simpa using hpath) (by simpa using hclosing)).symm

/-- **What the regular expression matches** where it matches at all. -/
theorem mem_importRegex {text path : List Char} :
    (∃ rest, (path, rest) ∈ importRegex text) ↔ Directive text path := by
  simp only [importRegex, Scanner.mem_bind, Scanner.mem_pure, Scanner.mem_greedily,
    Scanner.mem_literal, Scanner.mem_char, Scanner.mem_oneOrMore]
  constructor
  · rintro ⟨rest, before, _, ⟨rfl, hbefore⟩, -, _, rfl, between, _, ⟨rfl, hbetween⟩, opening, _,
      ⟨rfl, hopening⟩, path, _, ⟨rfl, hne, hpath⟩, closing, _, ⟨rfl, hclosing⟩, -, _, rfl, rfl, rfl⟩
    exact ⟨before, between, opening, closing, rest, by simp, hbefore, hbetween, hopening, hclosing,
      hne, by simpa using hpath⟩
  · rintro ⟨before, between, opening, closing, rest, rfl, hbefore, hbetween, hopening, hclosing,
      hne, hpath⟩
    exact ⟨rest, before, _, ⟨by simp, hbefore⟩, ⟨⟩, _, rfl, between, _,
      ⟨rfl, hbetween⟩, opening, _, ⟨rfl, hopening⟩, path, _, ⟨rfl, hne, by simpa using hpath⟩,
      closing, _, ⟨rfl, hclosing⟩, ⟨⟩, rest, rfl, rfl, rfl⟩

theorem execHere_importRegex {text path : List Char} :
    importRegex.execHere text = some path ↔ Directive text path := by
  rw [Scanner.execHere_eq_some_iff, mem_importRegex]
  intro p rest p' rest' hp hp'
  rw [(mem_importRegex.1 ⟨rest, hp⟩).path_eq, (mem_importRegex.1 ⟨rest', hp'⟩).path_eq]

/-- **The scan finds the directive at the head of a source**, and no other. -/
theorem scannedImport_eq_some {content name : String} :
    scannedImport content = some name ↔ NamedAtHead content name := by
  rw [scannedImport, Option.map_eq_some_iff]
  exact exists_congr fun path => and_congr execHere_importRegex eq_comm

/-! ## The loops -/

/-- `importRegex.exec`, from `lastIndex` on: a match begins at the start of the
text, so there is none from a later index. With it comes the next `lastIndex`. -/
def execImport (text : List Char) (lastIndex : ℕ) : Option (List Char × ℕ) :=
  if lastIndex = 0 then
    ((importRegex text).head?).map fun (path, rest) => (path, text.length - rest.length)
  else none

/-- **The loop over the matches**, from `lastIndex` on: it ends when there is no
match. -/
inductive Matches (text : List Char) : ℕ → List (List Char) → Prop
  | done {lastIndex : ℕ} : execImport text lastIndex = none → Matches text lastIndex []
  | next {lastIndex lastIndex' : ℕ} {path : List Char} {paths : List (List Char)} :
    execImport text lastIndex = some (path, lastIndex') → Matches text lastIndex' paths →
    Matches text lastIndex (path :: paths)

/-- **The loop ends, after one match at most**: the one `scannedImport` has. -/
theorem matches_iff {text : List Char} {paths : List (List Char)} :
    Matches text 0 paths ↔ paths = (importRegex.execHere text).toList := by
  have hzero : execImport text 0 =
      ((importRegex text).head?).map fun (path, rest) => (path, text.length - rest.length) := rfl
  rcases hhead : (importRegex text).head? with - | ⟨path, rest⟩
  · have hnone : importRegex.execHere text = none := by rw [Scanner.execHere, hhead]; rfl
    rw [hhead] at hzero
    rw [hnone]
    constructor
    · intro h
      cases h with
      | done _ => rfl
      | next hexec _ => cases hzero.symm.trans hexec
    · rintro rfl
      exact .done hzero
  · have hsome : importRegex.execHere text = some path := by rw [Scanner.execHere, hhead]; rfl
    rw [hhead] at hzero
    rw [hsome]
    -- what was matched is not empty, so the next search begins behind the start
    have hindex : text.length - rest.length ≠ 0 := by
      have hmem := List.mem_of_mem_head? hhead
      simp only [importRegex, Scanner.mem_bind, Scanner.mem_pure, Scanner.mem_greedily,
        Scanner.mem_literal, Scanner.mem_char, Scanner.mem_oneOrMore] at hmem
      obtain ⟨_, _, ⟨rfl, -⟩, -, _, rfl, _, _, ⟨rfl, -⟩, _, _, ⟨rfl, -⟩, _, _, ⟨rfl, -⟩, _, _,
        ⟨rfl, -⟩, -, _, rfl, -, rfl⟩ := hmem
      simp only [List.length_append, List.length_cons]
      omega
    have hlast : execImport text (text.length - rest.length) = none := if_neg hindex
    constructor
    · intro h
      cases h with
      | done hexec => cases hzero.symm.trans hexec
      | next hexec hrest =>
        obtain ⟨rfl, rfl⟩ := Prod.mk.inj (Option.some.inj (hzero.symm.trans hexec))
        cases hrest with
        | done _ => rfl
        | next hexec' _ => cases hlast.symm.trans hexec'
    · rintro rfl
      exact .next hzero (.done hlast)

variable {library : Library}

/-- **What was there stays**, and each file is added once. -/
theorem addMissing_eq (missingFiles : List String) (sources : Sources) :
    ∃ added : Sources, addMissing library sources missingFiles = sources ++ added ∧
      added.names.Nodup ∧ ∀ name ∈ added.names, name ∉ sources.names := by
  induction missingFiles generalizing sources with
  | nil => exact ⟨[], (List.append_nil sources).symm, List.nodup_nil, nofun⟩
  | cons missingFile missingFiles ih =>
    rw [addMissing]
    split
    · exact ih sources
    · next hhas =>
      split
      · next content _ =>
        obtain ⟨added, heq, hnodup, hnew⟩ := ih (sources ++ [(missingFile, content)])
        have hmissing : missingFile ∉ sources.names :=
          (Sources.has_eq_false.1 (Bool.eq_false_iff.2 hhas)).1
        have hnames : ∀ name ∈ added.names, name ∉ sources.names ∧ name ≠ missingFile := by
          intro name hname
          have hnot := hnew name hname
          simpa [Sources.names] using hnot
        refine ⟨(missingFile, content) :: added, ?_, ?_, ?_⟩
        · rw [heq, List.append_assoc]
          rfl
        · exact List.nodup_cons.2 ⟨fun hmem => (hnames missingFile hmem).2 rfl, hnodup⟩
        · exact List.forall_mem_cons.2 ⟨hmissing, fun name hname => (hnames name hname).1⟩
      · exact ih sources

/-- The file is named in the list of missing files, or by a directive of a source. -/
def Named (sources : Sources) (missingFiles : List String) (name : String) : Prop :=
  name ∈ missingFiles ∨ ∃ source ∈ sources, NamedInLine source.2 name

/-- **The sources are extended by what is named**: by the files that are not yet
in them, each once, with its content, and by nothing else. -/
def Gathers (library : Library) (sources : Sources) (missingFiles : List String)
    (result : Sources) : Prop :=
  ∃ added : Sources, result = sources ++ added ∧ added.names.Nodup ∧ ∀ name content,
    (name, content) ∈ added ↔ name ∉ sources.names ∧ library.contentOf name = some content ∧
      Named sources missingFiles name

/-- What `gatherImports` adds. -/
theorem gatherImports_eq (sources : Sources) (missingFiles : List String) :
    ∃ added : Sources, gatherImports library sources missingFiles = sources ++ added ∧
      added.names.Nodup ∧ ∀ name content, (name, content) ∈ added ↔ sources.has name = false ∧
        library.contentOf name = some content ∧
        (name ∈ missingFiles ∨ ∃ source ∈ sources, NamedAtHead source.2 name) := by
  obtain ⟨added, heq, hnodup, hnew⟩ := @addMissing_eq library
    (pushScanned sources missingFiles).reverse sources
  refine ⟨added, heq, hnodup, fun name content => ?_⟩
  have hmem := @mem_addMissing library name content (pushScanned sources missingFiles).reverse
    sources
  rw [heq, List.mem_append, List.mem_reverse, mem_pushScanned] at hmem
  simp only [scannedImport_eq_some] at hmem
  constructor
  · intro hadded
    -- it is not one of the sources that were there
    have hnot := hnew name (Sources.mem_names.2 ⟨content, hadded⟩)
    rcases hmem.1 (.inr hadded) with hsource | ⟨hhas, hnamed, hcontent⟩
    · exact absurd (Sources.mem_names.2 ⟨content, hsource⟩) hnot
    · exact ⟨hhas, hcontent, hnamed⟩
  · rintro ⟨hhas, hcontent, hnamed⟩
    refine (hmem.2 (.inr ⟨hhas, hnamed, hcontent⟩)).resolve_left fun hsource => ?_
    exact (Sources.has_eq_false.1 hhas).1 (Sources.mem_names.2 ⟨content, hsource⟩)

/-- **`gatherImports` adds what is named** exactly where each file that is named
and not yet there, and that the library has, is in the list of missing files or
named at the head of a source, under a name that no object has by itself. -/
theorem gathers_iff (library : Library) (sources : Sources) (missingFiles : List String) :
    Gathers library sources missingFiles (gatherImports library sources missingFiles) ↔
      ∀ name, Named sources missingFiles name → name ∉ sources.names →
        (library.contentOf name).isSome = true → name ∉ Sources.inherited ∧
          (name ∈ missingFiles ∨ ∃ source ∈ sources, NamedAtHead source.2 name) := by
  obtain ⟨added, heq, hnodup, hadded⟩ := @gatherImports_eq library sources missingFiles
  rw [heq]
  constructor
  · -- what is added is determined, so each file that is to be added is among it
    rintro ⟨added', heq', -, hgathers⟩ name hnamed hnew hlibrary
    obtain rfl : added = added' := List.append_cancel_left heq'
    obtain ⟨content, hcontent⟩ := Option.isSome_iff_exists.1 hlibrary
    obtain ⟨hhas, -, hhead⟩ := (hadded name content).1
      ((hgathers name content).2 ⟨hnew, hcontent, hnamed⟩)
    exact ⟨(Sources.has_eq_false.1 hhas).2, hhead⟩
  · intro hcond
    refine ⟨added, rfl, hnodup, fun name content => (hadded name content).trans ?_⟩
    rw [Sources.has_eq_false]
    constructor
    · rintro ⟨⟨hnew, -⟩, hcontent, hnamed⟩
      refine ⟨hnew, hcontent, hnamed.imp_right ?_⟩
      exact fun ⟨source, hsource, hhead⟩ => ⟨source, hsource, hhead.namedInLine⟩
    · rintro ⟨hnew, hcontent, hnamed⟩
      obtain ⟨hinherited, hhead⟩ := hcond name hnamed hnew (by rw [hcontent]; rfl)
      exact ⟨⟨hnew, hinherited⟩, hcontent, hhead⟩

/-- A comment, and an import in the line below. -/
def commented : String := "//\nimport 'B.sol';"

/-- **An import in the second line is not gathered.** -/
theorem import_in_second_line_is_not_gathered : ¬ ∀ (library : Library) (sources : Sources)
    (missingFiles : List String), (library.map Prod.fst).Nodup → sources.names.Nodup →
      Gathers library sources missingFiles (gatherImports library sources missingFiles) := by
  intro h
  have htext : commented.toList = ['/', '/', '\n', 'i', 'm', 'p', 'o', 'r', 't', ' ', '\'', 'B',
    '.', 's', 'o', 'l', '\'', ';'] := rfl
  have hscan : scannedImport commented = none := by
    rw [scannedImport, htext]
    rfl
  obtain ⟨added, heq, -, hadded⟩ := h [("B.sol", "")] [("A.sol", commented)] [] (by decide)
    (by decide)
  have hnothing : gatherImports [("B.sol", "")] [("A.sol", commented)] [] =
      [("A.sol", commented)] := by
    simp only [gatherImports, pushScanned, hscan, List.reverse_nil, addMissing]
  have hline : NamedInLine commented "B.sol" := by
    refine ⟨['/', '/', '\n'], _, ['B', '.', 's', 'o', 'l'], htext, ?_, ?_, rfl⟩
    · rintro _ ⟨⟩
      decide
    · refine ⟨[], [' '], '\'', '\'', [], rfl, List.forall_mem_nil _, ?_, rfl, rfl,
        List.cons_ne_nil _ _, ?_⟩
      · simp only [List.mem_singleton, forall_eq]
        rfl
      · simp [quote]
  have hB : ("B.sol", "") ∈ added :=
    (hadded "B.sol" "").2 ⟨by decide, rfl, .inr ⟨_, List.mem_cons_self, hline⟩⟩
  rw [hnothing] at heq
  obtain rfl : added = [] := List.self_eq_append_right.1 heq
  exact absurd hB List.not_mem_nil

end Hmix
