import Hmix.Common.Machine
import Hmix.Common.Wp
import Hmix.Model.CompilerResult
import Mathlib.Logic.Function.Basic

/-!
# The contracts of the run tab

The compiler's output is parsed once, and the entries of a contract's ABI are
objects: the compiler service keeps them, the Details dialog shows them, and
the library's contract object is given the same array. For the view a contract
object gets a list of functions, which are copies.

What the library makes of a deployment comes in later, or never.
-/

namespace Hmix

/-- An object, by its members. -/
abbrev Members := List (String × Json)

namespace Members

/-- `object.key === text`. -/
def is (object : Members) (key text : String) : Bool :=
  match object.lookup key with
  | some (.str value) => value == text
  | _ => false

/-- A function, or the fallback. -/
def callable (method : Members) : Bool :=
  method.is "type" "function" || method.is "type" "fallback"

/-- A fallback is given a name for display. -/
def named (method : Members) : Members :=
  if method.is "type" "fallback" then objectAssign method [("name", .str "(fallback)")]
  else method

end Members

/-- **A reference**: to an entry of a compiled contract's ABI, or to a copy. -/
inductive MethodRef where
  | entry (contract index : ℕ)
  | copy (number : ℕ)
  deriving DecidableEq

/-- The objects there are. -/
structure Methods where
  members : MethodRef → Members
  /-- How many copies were made. -/
  copies : ℕ

/-- A contract of the compiler's output. `constructorArgs` is what is typed for
it in the tab. -/
structure CompiledContract where
  name : String
  abi : List MethodRef
  constructorArgs : String

/-- A `Contract` of the library, with the fields the tab adds. -/
structure HtmlcoinContract where
  name : String
  address : Option String
  /-- `info.abi`: the array that was compiled. -/
  abi : List MethodRef
  functions : List MethodRef
  expanded : Bool

/-- A deployment that is under way. -/
structure Deployment where
  contract : HtmlcoinContract
  args : List String
  senderAddress : String

/-- **The run tab**, as far as contracts go. -/
structure ContractTab where
  methods : Methods
  contracts : List CompiledContract
  /-- `_selectedContract`, by its place. -/
  selectedContract : ℕ
  contractAddress : Option String
  selectedUtxo : Option String
  deployments : List Deployment
  loadedContracts : List HtmlcoinContract
  logs : List String

/-- `text ? text.split(',') : []`. -/
def splitArgs (text : String) : List String :=
  if text = "" then [] else (text.toList.splitOn ',').map String.ofList

namespace Methods

variable (methods : Methods) (method : MethodRef)

/-- The object's members are others. -/
def assign (members : Members) : Methods :=
  { methods with members := Function.update methods.members method members }

/-- One round of the `map`: the fallback is named, and `Object.assign` copies
the members there are by then. -/
def display : Methods × MethodRef :=
  let named := methods.assign method (methods.members method).named
  let copy := MethodRef.copy named.copies
  ({ named.assign copy (named.members method) with copies := named.copies + 1 }, copy)

/-- The `map`, in the order of the array. -/
def displayAll (methods : Methods) : List MethodRef → Methods × List MethodRef
  | [] => (methods, [])
  | method :: rest =>
    let (methods, copy) := methods.display method
    let (methods, copies) := methods.displayAll rest
    (methods, copy :: copies)

end Methods

namespace ContractTab

/-- A program of the tab. -/
abbrev Running := EStateM Thrown ContractTab

/-- `TerminalService.log`. -/
def log (status : String) : Running PUnit :=
  modify fun x => { x with logs := x.logs ++ [status] }

/-- The getter of `selectedContract`, a member of which is read at once. -/
def selected : Running CompiledContract := do
  let x ← get
  match x.contracts[x.selectedContract]? with
  | none => throw .typeError
  | some contract => return contract

/-- **`currentHtmlcoinContract`.** -/
def currentHtmlcoinContract : Running HtmlcoinContract := do
  let contract ← selected
  let x ← get
  let (methods, functions) := x.methods.displayAll
    (contract.abi.filter fun method => (x.methods.members method).callable)
  set { x with methods := methods }
  return {
    name := contract.name
    address := x.contractAddress
    abi := contract.abi
    functions := functions.reverse
    expanded := true }

/-- `deploy`, up to the call of the library. It asks the selected account for
its address. -/
def deploy : Running PUnit := do
  let contract ← currentHtmlcoinContract
  let args := splitArgs (← selected).constructorArgs
  log ("Deploying: " ++ contract.name)
  let x ← get
  match x.selectedUtxo with
  | none => throw .typeError
  | some senderAddress =>
    modify fun x => { x with
      deployments := x.deployments ++ [⟨contract, args, senderAddress⟩] }

/-- A deployment has succeeded. -/
def deployed (deployment : ℕ) (address : String) : Running PUnit := do
  let x ← get
  match x.deployments[deployment]? with
  | none => return
  | some d =>
    log ("Deployed " ++ d.contract.name ++ " @" ++ address)
    modify fun x => { x with
      deployments := x.deployments.eraseIdx deployment
      loadedContracts := x.loadedContracts ++ [{ d.contract with address := address }] }

/-- A deployment has failed. -/
def failed (deployment : ℕ) (err : String) : Running PUnit := do
  modify fun x => { x with deployments := x.deployments.eraseIdx deployment }
  log err

/-- `atAddress`. -/
def atAddress : Running PUnit := do
  let contract ← currentHtmlcoinContract
  log ("Loaded " ++ contract.name ++ " @" ++ contract.address.getD "undefined")
  modify fun x => { x with loadedContracts := x.loadedContracts ++ [contract] }

end ContractTab

/-! ## Runs -/

/-- What happens in the run tab. -/
inductive ContractEvent where
  | selectContract (contract : ℕ)
  | setContractAddress (address : String)
  /-- The arguments of the constructor are typed. -/
  | setConstructorArgs (args : String)
  | selectUtxo (address : String)
  | deploy
  | deployed (deployment : ℕ) (address : String)
  | failed (deployment : ℕ) (err : String)
  | atAddress
  /-- Arguments are typed for a function of a loaded contract. -/
  | setArgs (method : MethodRef) (args : String)
  | removeContract (contract : ℕ)
  | toggleExpand (contract : ℕ)

open ContractTab in
/-- The program an event runs. -/
def ContractEvent.exec : ContractEvent → Running PUnit
  | .selectContract contract => modify fun x => { x with selectedContract := contract }
  | .setContractAddress address => modify fun x => { x with contractAddress := some address }
  | .setConstructorArgs args => modify fun x => { x with
      contracts := x.contracts.modify x.selectedContract fun c =>
        { c with constructorArgs := args } }
  | .selectUtxo address => modify fun x => { x with selectedUtxo := some address }
  | .deploy => ContractTab.deploy
  | .deployed deployment address => ContractTab.deployed deployment address
  | .failed deployment err => ContractTab.failed deployment err
  | .atAddress => ContractTab.atAddress
  | .setArgs method args => modify fun x => { x with
      methods := x.methods.assign method
        (objectAssign (x.methods.members method) [("args", .str args)]) }
  | .removeContract contract => modify fun x => { x with
      loadedContracts := x.loadedContracts.eraseIdx contract }
  | .toggleExpand contract => modify fun x => { x with
      loadedContracts := x.loadedContracts.modify contract fun c =>
        { c with expanded := !c.expanded } }

/-- **The compiler's output**: the contracts, with the entries of their ABIs. -/
abbrev Output := List (String × List Members)

/-- The objects that are parsed of an output. -/
def Output.methods (output : Output) : Methods where
  members
    | .entry contract index =>
      ((output[contract]?.bind fun c => c.2[index]?)).getD []
    | .copy _ => []
  copies := 0

/-- The tab after a compilation. -/
def ContractTab.ofOutput (output : Output) (selectedUtxo : Option String) : ContractTab where
  methods := output.methods
  contracts := output.mapIdx fun i (name, abi) =>
    ⟨name, (List.range abi.length).map (.entry i), ""⟩
  selectedContract := 0
  contractAddress := none
  selectedUtxo := selectedUtxo
  deployments := []
  loadedContracts := []
  logs := []

/-- **The run tab**, from a compilation on. -/
def contractDesk (output : Output) : Machine ContractTab ContractEvent where
  start := fun x => ∃ selectedUtxo, x = .ofOutput output selectedUtxo
  enabled := fun x e =>
    match e with
    | .setArgs method _ => ∃ c ∈ x.loadedContracts, method ∈ c.functions
    | _ => True
  step := fun x e => after e.exec x

end Hmix
