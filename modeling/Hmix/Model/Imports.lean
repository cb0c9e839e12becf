import Hmix.Model.CompilerResult

/-!
# Sources and their imports

A compilation is given a map of sources. The compiler asks a callback for
each import it was not given, and the callback, which cannot wait for a
file, notes the path and answers with an error. From the paths noted, and
from a scan of the sources, `gatherImports` adds what the files of the page
have, and `compile` runs the compiler once more.

The compiler is a parameter. What it returns, and which paths it asks for,
is a function of its input, since the callback's answer is always the same.
-/

namespace Hmix

/-- A map of sources, from file name to content, in the order the names
were added. -/
abbrev Sources := List (String × String)

/-- The files of the page, as imports see them: by name, and with the
content that was last saved. -/
abbrev Library := List (String × String)

/-- `getFileByName`, and the file's content. -/
def Library.contentOf (library : Library) (fileName : String) : Option String :=
  library.lookup fileName

namespace Sources

/-- The file names that are given. -/
def names (sources : Sources) : List String := sources.map Prod.fst

/-- The names every object has from `Object.prototype`. -/
def inherited : List String :=
  ["constructor", "__defineGetter__", "__defineSetter__", "hasOwnProperty", "__lookupGetter__",
    "__lookupSetter__", "isPrototypeOf", "propertyIsEnumerable", "toString", "valueOf",
    "__proto__", "toLocaleString"]

/-- `name in sources`. -/
def has (sources : Sources) (name : String) : Bool :=
  sources.names.contains name || inherited.contains name

end Sources

/-! ## The scan -/

/-- `\s`. -/
def whiteSpace (c : Char) : Bool :=
  c ∈ ['\t', '\n', '\u000b', '\u000c', '\r', ' ', '\u00a0', '\u1680', '\u2028', '\u2029',
    '\u202f', '\u205f', '\u3000', '\ufeff'] ∨ ('\u2000' ≤ c ∧ c ≤ '\u200a')

/-- `['"]`. -/
def quote (c : Char) : Bool := c == '\'' || c == '"'

/-- `/^\s*import\s*['"]([^'"]+)['"];/g`. -/
def importRegex : Scanner (List Char) := do
  let _ ← Scanner.greedily whiteSpace
  Scanner.literal ['i', 'm', 'p', 'o', 'r', 't']
  let _ ← Scanner.greedily whiteSpace
  let _ ← Scanner.char quote
  let importFilePath ← Scanner.oneOrMore fun c => !quote c
  let _ ← Scanner.char quote
  Scanner.literal [';']
  return importFilePath

/-- `if (importFilePath.startsWith('./')) importFilePath.slice(2)`. -/
def withoutDot : List Char → List Char
  | '.' :: '/' :: rest => rest
  | importFilePath => importFilePath

/-- The matches of `importRegex` in a content. `^` is the head of the text,
not of a line, so `exec` finds one at most: the second call begins behind
it. -/
def scannedImport (content : String) : Option String :=
  (importRegex.execHere content.toList).map fun importFilePath =>
    String.ofList (withoutDot importFilePath)

/-! ## Gathering -/

/-- The paths the scan finds are pushed, each once. -/
def pushScanned : Sources → List String → List String
  | [], missingFiles => missingFiles
  | (_, content) :: sources, missingFiles =>
    match scannedImport content with
    | some importFilePath =>
      if missingFiles.contains importFilePath then pushScanned sources missingFiles
      else pushScanned sources (missingFiles ++ [importFilePath])
    | none => pushScanned sources missingFiles

/-- The loop that pops the missing files: the list is given as it is
popped. -/
def addMissing (library : Library) (sources : Sources) : List String → Sources
  | [] => sources
  | missingFile :: missingFiles =>
    if sources.has missingFile then
      addMissing library sources missingFiles
    else
      match library.contentOf missingFile with
      | some content => addMissing library (sources ++ [(missingFile, content)]) missingFiles
      | none => addMissing library sources missingFiles

/-- **`gatherImports`.** -/
def gatherImports (library : Library) (sources : Sources) (missingFiles : List String) :
    Sources :=
  addMissing library sources (pushScanned sources missingFiles).reverse

/-! ## The compiler -/

/-- What `compilerInput` writes into the input text. -/
structure CompilerInput where
  sources : Sources
  optimize : Bool
  deriving DecidableEq

/-- What a round of a compilation answers: the output's text, and the array
of paths that were asked for. -/
structure Reply where
  result : Text
  missingInputs : Option (List String)

/-- **A compiler.** `compileStandardWrapper` returns a text, having asked
for some paths, or throws. -/
abbrev Solc := CompilerInput → Except Thrown (Text × List String)

/-- `compileSync`. The array is there also where nothing was asked for. -/
def compileSync (compiler : Solc) (input : CompilerInput) : Except Thrown Reply :=
  (compiler input).map fun (result, missingInputs) => ⟨result, some missingInputs⟩

/-! ## `compile`, by itself -/

/-- A round that was parsed: what it was given, and what it answered. -/
structure Round where
  input : CompilerInput
  reply : Reply

section

variable (compiler : Solc) (library : Library) (optimize : Bool)

/-- One round. -/
def round (sources : Sources) : Parsing Round := do
  let input : CompilerInput := ⟨sources, optimize⟩
  match compileSync compiler input with
  | .error e => throw e
  | .ok reply => return ⟨input, reply⟩

/-- The output of a round is parsed. -/
def report (r : Round) : Parsing Round := do
  parseCompilationResult r.reply.result
  return r

/-- `compile(sources, false)`: inputs that are still missing are gathered,
and what was compiled without them is parsed all the same. -/
def compileOnce (sources : Sources) : Parsing Round := do
  report (← round compiler optimize sources)

/-- **`compile(sources)`**, in direct mode and with nothing in between. It
returns the round that was parsed. -/
def compile (sources : Sources) : Parsing Round := do
  let first ← round compiler optimize sources
  match first.reply.missingInputs with
  | some missingInputs =>
    compileOnce compiler optimize (gatherImports library sources missingInputs)
  | none => report first

end

end Hmix
