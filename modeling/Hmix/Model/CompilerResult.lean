import Hmix.Common.Scan
import Hmix.Common.Wp
import Hmix.Model.Storage
import Mathlib.Data.List.Infix

/-!
# What is made of a compiler's output

The compiler returns a JSON text. `parseCompilationResult` reads it into
the service's one result object, contracts first and errors second, each
half by itself. What it is given is whatever the text denotes, so a value
of an unexpected kind is met by what the page does: reading a member of
`null` throws, of anything else without it is `undefined`.
-/

namespace Hmix

/-- An error as the compile tab lists it. The members it may lack are
`null`; `message` is `undefined` where the compiler gave none. -/
structure ICompilerError where
  fileName : Option String
  lineNumber : Option ℕ
  columnNumber : Option ℕ
  errorType : String
  message : Option Json

/-- A compiled contract: the compiler's data, and a `name`. -/
abbrev ICompilerContract := List (String × Json)

/-- The service's result object. -/
structure ICompilerResult where
  errors : List ICompilerError
  contracts : List ICompilerContract

/-- As the service is constructed with it. -/
def ICompilerResult.initial : ICompilerResult := ⟨[], []⟩

/-- What reads an output into the result object. -/
abbrev Parsing := EStateM Thrown ICompilerResult

/-! ## Reading values -/

namespace Json

/-- `value.name`. -/
def member (name : String) : Json → Parsing (Option Json)
  | null => throw .typeError
  | value => pure (value.field name)

/-- The entries `Object.keys` lists and `Object.assign` copies. -/
def ownEntries : Json → List (String × Json)
  | obj fields => fields
  | arr items => items.zipIdx.map fun (item, i) => (toString i, item)
  | str s => s.toList.zipIdx.map fun (c, i) => (toString i, .str (String.singleton c))
  | _ => []

/-- The entries under `Object.keys(value)`. -/
def keys : Json → Parsing (List (String × Json))
  | null => throw .typeError
  | value => pure value.ownEntries

end Json

/-- `Object.assign`, onto an object literal. -/
def objectAssign (target source : List (String × Json)) : List (String × Json) :=
  source.foldl (fun object (key, value) =>
    if object.any fun entry => entry.1 == key
    then object.map fun entry => if entry.1 == key then (key, value) else entry
    else object ++ [(key, value)]) target

/-! ## Patterns -/

/-- `.`, which matches no line terminator. -/
def dot (c : Char) : Bool := c ∉ ['\n', '\r', '\u2028', '\u2029']

/-- `/(.*?):(\d+):(\d+): (.*?): ([^]+)/`. -/
def errorPattern : Scanner ICompilerError := do
  let fileName ← Scanner.lazily dot
  Scanner.literal [':']
  let lineNumber ← Scanner.oneOrMore Char.isDigit
  Scanner.literal [':']
  let columnNumber ← Scanner.oneOrMore Char.isDigit
  Scanner.literal [':', ' ']
  let errorType ← Scanner.lazily dot
  Scanner.literal [':', ' ']
  let message ← Scanner.oneOrMore fun _ => true
  return {
    fileName := some (String.ofList fileName)
    lineNumber := some (parseInt lineNumber)
    columnNumber := some (parseInt columnNumber)
    errorType := String.ofList errorType
    message := some (.str (String.ofList message)) }
where
  /-- `parseInt(digits, 10)`, exact below 2^53. -/
  parseInt (digits : List Char) : ℕ :=
    digits.foldl (fun n c => 10 * n + (c.toNat - '0'.toNat)) 0

/-- The name in a contract's key, by `/(.*)\:([^.]+)/`. -/
def getContractName (contract : String) : String :=
  let pattern : Scanner (List Char) := do
    let _ ← Scanner.greedily dot
    Scanner.literal [':']
    Scanner.oneOrMore (· != '.')
  match pattern.exec contract.toList with
  | some name => String.ofList name
  | none => contract

/-! ## The two halves -/

/-- `parseError`. Text that does not fit the mold, and what is no text,
becomes the message. -/
def parseError (error : Option Json) : ICompilerError :=
  let unfit : ICompilerError := ⟨none, none, none, "error", error⟩
  match error with
  | some (.str text) => (errorPattern.exec text.toList).getD unfit
  | _ => unfit

/-- `error.message.includes('invalid checksum')`. -/
def mentionsChecksum (error : Json) : Parsing Bool := do
  match ← error.member "message" with
  | some (.str message) => return decide ("invalid checksum".toList <:+: message.toList)
  | some (.arr items) => return items.any fun
    | .str item => item == "invalid checksum"
    | _ => false
  | _ => throw .typeError

/-- The errors of an output, `error` first. -/
def outputErrors (result : Json) : Parsing (List Json) := do
  let error ← result.member "error"
  let errors ← result.member "errors"
  let first := (error.filter Json.truthy).toList
  match errors with
  | some (.arr items) => return first ++ items
  | some value => if value.truthy then throw .typeError else return first
  | none => return first

/-- `errors.filter(..)`, which excludes the invalid checksums. -/
def excludeChecksums : List Json → Parsing (List Json)
  | [] => return []
  | error :: errors => do
    let excluded ← mentionsChecksum error
    let filteredErrors ← excludeChecksums errors
    return if excluded then filteredErrors else error :: filteredErrors

/-- `parseErrors`. -/
def parseErrors (result : Json) : Parsing PUnit := do
  let errors ← outputErrors result
  let filteredErrors ← excludeChecksums errors
  modify fun latest => { latest with errors := [] }
  filteredErrors.forM fun error => do
    let formattedMessage ← error.member "formattedMessage"
    modify fun latest => { latest with errors := latest.errors ++ [parseError formattedMessage] }

/-- One contract, under the key the output has it. -/
def contractEntry (contract : String) (data : Json) : ICompilerContract :=
  objectAssign [("name", .str (getContractName contract))] data.ownEntries

/-- `parseContracts`. -/
def parseContracts (result : Json) : Parsing PUnit := do
  match ← result.member "contracts" with
  | none => return
  | some contracts =>
    if !contracts.truthy then
      return
    else
      modify fun latest => { latest with contracts := [] }
      (← contracts.keys).forM fun (_, context) => do
        (← context.keys).forM fun (contract, data) =>
          modify fun latest => { latest with
            contracts := latest.contracts ++ [contractEntry contract data] }

/-- **`parseCompilationResult`.** -/
def parseCompilationResult (result : Text) : Parsing PUnit := do
  match Json.parse result with
  | none => throw .syntaxError
  | some resultObject =>
    parseContracts resultObject
    parseErrors resultObject

end Hmix
