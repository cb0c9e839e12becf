import Hmix.Model.Calls
import Hmix.Model.Methods

/-!
# The library's contract object

What the run tab's calls leave open of a contract object, as the library makes it of an ABI:
its map of methods, and its codec. The tab has texts for all of it, and so the arguments
are texts, and the outputs are made texts.

How an error is shown, and how the text of a log is parsed, are parameters.
-/

namespace Hmix

open Buffer

/-! ## Values, as texts -/

mutual

/-- `String(value)`. -/
def AbiValue.string : AbiValue → Units
  | .text units => units
  | .number n => decimal n
  | .bn n => n.toText
  | .flag b => Hmix.units (if b then "true" else "false")
  | .buffer bytes => utf8Slice bytes
  | .array items => stringItems items

/-- `items.join(',')`. -/
def AbiValue.stringItems : List AbiValue → Units
  | [] => []
  | [item] => item.string
  | item :: items => item.string ++ unit ',' :: stringItems items

end

/-! ## The contract object -/

deriving instance DecidableEq for MethodABI

/-- What every object has is a function of the engine. No function of a contract has
its name. -/
def nativeMethod : MethodABI := ⟨"(native)", [], false⟩

/-- A method, as far as its calls are encoded by it. -/
def Found.methodABI : Found → MethodABI
  | .method item => ⟨item.name, item.inputTypes, item.constant⟩
  | .inherited => nativeMethod

/-- An item with the same signature. -/
def MethodABI.item (method : MethodABI) : AbiItem where
  type := "function"
  name := method.name
  inputs := method.inputs.map fun type => ⟨"", type, false⟩
  outputs := []
  constant := method.constant
  anonymous := false

/-- The properties of an event, as texts. Of a log that was not decoded there are none. -/
def eventLog : Option EventObject → EventLog
  | none => []
  | some event => event.properties.map fun (name, value) => (name, ofUnits value.string)

section

variable (keccak256 : String → Units) (shown : AbiError → String) (readLog : String → RawLog)
  (rpc : ℕ) (abi : List AbiItem) (address : String)

/-- **`new htmlcoinjs.Contract`**, of a client, an ABI and an address. -/
def libraryContract : ContractObject where
  rpc := rpc
  address := address
  findMethod method args :=
    ((MethodMap.ofAbi abi).findMethod method args.length).map Found.methodABI
  encodeInputs methodABI args := Except.mapError shown do
    let args := args.map fun arg => AbiValue.text (units arg)
    let calldata ← encodeInputs keccak256
      (if methodABI = nativeMethod then .inherited else .method methodABI.item) args
    return ofUnits calldata
  decodeOutputs methodABI output := Except.mapError shown do
    -- the method that was found: the last that has its signature
    match (functions abi).reverse.find? fun item => (Found.method item).methodABI = methodABI with
    | none => throw .typeError
    | some method =>
      return (← Hmix.decodeOutputs method (units output)).map fun v => ofUnits v.string
  decodeLog log := Except.mapError shown do
    return eventLog (← Hmix.decodeLog keccak256 abi (readLog log))

end

end Hmix
