import Hmix.Model.Contracts
import Hmix.Model.Rpc
import Mathlib.Logic.Function.Basic

/-!
# Calling a loaded contract

`callOrSend` has the library call a constant function, and send to any other;
to a fallback it sends by itself. Each is a chain of requests to the node: the
next is made when the one before it is answered, by what is set up for that.
While a block is generated for a transaction the library waits for its receipt, by
requests of its own. An invocation keeps the requests it has made.

What the library's codec makes of an ABI, and what the node does, are
parameters; where either fails, it says why.
-/

namespace Hmix

/-- A method, as the library finds it in an ABI. -/
structure MethodABI where
  name : String
  inputs : List String
  constant : Bool

/-- What `callcontract` returns. -/
structure CallResult where
  excepted : String
  output : String
  log : List String

/-- An event of a contract, by its properties. -/
abbrev EventLog := List (String × String)

/-- A receipt, as far as its events go. -/
structure Receipt where
  log : List String

/-- The library's contract object, as far as calls go: the client it was made with,
its address, its map of methods, and what encodes and decodes for its ABI. -/
structure ContractObject where
  rpc : ℕ
  address : String
  findMethod : String → List String → Option MethodABI
  encodeInputs : MethodABI → List String → Except String String
  decodeOutputs : MethodABI → String → Except String (List String)
  decodeLog : String → Except String EventLog

/-- A function, as the view lists it, and the arguments that are typed for it. -/
structure ContractFn where
  name : String
  constant : Bool
  args : String

/-- What `sendtocontract` is given. -/
structure Transaction where
  address : String
  datahex : String
  amount : Json
  gasLimit : Json
  gasPrice : Rat
  senderAddress : String

/-- A request to the node. -/
inductive Rpc where
  | callcontract (address datahex senderAddress : String)
  | sendtocontract (transaction : Transaction)
  /-- With the confirmations it is to wait for, if it is. -/
  | gettransaction (txid : String) (waitconf : Option ℤ)
  | gettransactionreceipt (txid : String)
  | help (command : String)
  | generate (numBlocks : ℕ)

/-- **The node**: what it answers on a chain, and the chain it leaves. -/
structure Node (χ : Type) where
  callcontract : χ → String → String → String → Except String CallResult
  /-- An accepted transaction has an id. -/
  sendtocontract : χ → Transaction → Except String (String × χ)
  gettransaction : χ → String → Option ℤ → Except String TxInfo
  /-- Of a transaction that is not mined there is no receipt. -/
  gettransactionreceipt : χ → String → Except String (List Receipt)
  help : χ → String → Except String String
  generate : χ → ℕ → χ

namespace ContractObject

variable (contract : ContractObject)

/-- What is to be sent to the node for a call. -/
def encodeParams (method : String) (args : List String) : Except String (MethodABI × String) :=
  match contract.findMethod method args with
  | none => .error ("Unknown method to call: " ++ method)
  | some methodABI => return (methodABI, ← contract.encodeInputs methodABI args)

/-- What is to be sent to the node for a transaction. The library sends to no
constant method. -/
def encodeSend (method : String) (args : List String) : Except String String :=
  match contract.findMethod method args with
  | none => .error ("Unknown method to send: " ++ method)
  | some methodABI =>
    if methodABI.constant then .error ("cannot send to a constant method: " ++ method)
    else contract.encodeInputs methodABI args

/-- What is made of the result of a call. -/
def decodeCall (methodABI : MethodABI) (r : CallResult) :
    Except String (List String × List EventLog) := do
  if r.excepted ≠ "None" then
    throw ("Call exception: " ++ r.excepted)
  else
    let outputs ← if r.output = "" then pure [] else contract.decodeOutputs methodABI r.output
    return (outputs, ← r.log.mapM contract.decodeLog)

end ContractObject

/-- How far an invocation is: which request is to be answered next. -/
inductive Progress where
  | calling (methodABI : MethodABI) (datahex senderAddress : String)
  | sending (transaction : Transaction)
  | fetching (txid : String)
  | generating
  | done

/-- How far `tx.confirm(1)` is: which request of it is to be answered next. -/
inductive ConfirmProgress where
  | helping (txid : String)
  | fetching (txid : String) (hasTxWaitSupport : Bool) (c : Confirming Receipt)
  | receiving (txid : String) (hasTxWaitSupport : Bool) (c : Confirming Receipt) (tx : TxInfo)
  | ended

/-- **An invocation.** The requests it has made, and whether its transaction was
accepted, are kept for the statements only. -/
structure Invocation where
  contract : ContractObject
  fn : ContractFn
  stage : Progress
  requests : List Rpc
  accepted : Bool
  confirming : ConfirmProgress

/-- The name a fallback has, and nothing else: a function's is an identifier. -/
def ContractFn.isFallback (fn : ContractFn) : Bool := fn.name = "(fallback)"

namespace Invocation

variable (inv : Invocation)

/-- The next request is made. -/
def request (stage : Progress) (rpc : Rpc) : Invocation :=
  { inv with stage := stage, requests := inv.requests ++ [rpc] }

/-- `generateBlocks(1)`. -/
def generateBlocks : Invocation := inv.request .generating (.generate 1)

/-- Nothing is left to do. -/
def finish : Invocation := { inv with stage := .done }

/-- The next request of `tx.confirm(1)` is made. -/
def requestConfirm (confirming : ConfirmProgress) (rpc : Rpc) : Invocation :=
  { inv with confirming := confirming, requests := inv.requests ++ [rpc] }

/-- `tx.confirm(1)` has come to an end. -/
def finishConfirm : Invocation := { inv with confirming := .ended }

/-- The loop of `confirm` asks for the transaction, if it goes on. The pause before that
counts as part of the wait for the answer. -/
def poll (txid : String) (hasTxWaitSupport : Bool) (c : Confirming Receipt) : Invocation :=
  match c.outcome with
  | some _ => inv.finishConfirm
  | none => inv.requestConfirm (.fetching txid hasTxWaitSupport c)
    (.gettransaction txid c.waited.getLast?.join)

/-- `tx.confirm(1)`, up to what it waits for first, and `generateBlocks(1)`. Where the
client knows whether the node can wait, the loop goes on behind that. -/
def confirmAndGenerate (hasTxWaitSupport : Option Bool) (txid : String) : Invocation :=
  match hasTxWaitSupport with
  | none => (inv.requestConfirm (.helping txid) (.help "gettransaction")).generateBlocks
  | some waits => inv.generateBlocks.poll txid waits (.start waits)

end Invocation

/-- **The calls of the run tab.** -/
structure InvocationDesk (χ : Type) where
  chain : χ
  /-- The address of the selected account. -/
  selectedUtxo : Option String
  txValue : Json
  gasLimit : Json
  logs : List String
  invocations : List Invocation
  /-- `_hasTxWaitSupport`, of each client: whether its node can wait for confirmations. -/
  hasTxWaitSupport : ℕ → Option Bool

/-- What `logEvents` logs. -/
def logEvents (logs : List EventLog) : List String :=
  logs.map fun log => "Event Occurred: " ++
    log.foldl (fun eventData (property, value) => eventData ++ "\n" ++ property ++ ": " ++ value) ""

/-- The events of the receipt that `tx.confirm(1)` has resolved with. Nobody catches what
it is rejected with, or what a decoder throws. -/
def logReceipt (contract : ContractObject) (outcome : Option (Except String Receipt)) :
    List String :=
  match outcome with
  | some (.ok receipt) =>
    match receipt.log.mapM contract.decodeLog with
    | .ok logs => logEvents logs
    | .error _ => []
  | _ => []

/-- The first line of a help text names the parameter `waitconf`. -/
def namesWaitconf (helpmsg : String) : Bool :=
  "waitconf".toList <:+: helpmsg.toList.takeWhile (· ≠ '\n')

/-- An answer that is lost on the way is a failure. -/
def received {α : Type} (lost : Option String) (answer : Except String α) : Except String α :=
  match lost with
  | some err => .error err
  | none => answer

namespace InvocationDesk

variable {χ : Type} (x : InvocationDesk χ)

/-- Something is logged. -/
def log (status : List String) : InvocationDesk χ := { x with logs := x.logs ++ status }

/-- The `i`-th invocation has come further. -/
def update (i : ℕ) (inv : Invocation) : InvocationDesk χ :=
  { x with invocations := x.invocations.set i inv }

/-- An invocation is begun. -/
def begin (inv : Invocation) : InvocationDesk χ := { x with invocations := x.invocations ++ [inv] }

/-- **`callOrSend`**, up to the first request. It asks the selected account for
its address. -/
def callOrSend (contract : ContractObject) (fn : ContractFn) :
    EStateM Thrown (InvocationDesk χ) PUnit := do
  let args := splitArgs fn.args
  modify fun x => x.log ["Calling method: " ++ fn.name]
  let x ← get
  match x.selectedUtxo with
  | none => throw .typeError
  | some senderAddress =>
    let inv : Invocation := ⟨contract, fn, .done, [], false, .ended⟩
    let transaction (datahex : String) : Transaction := {
      address := contract.address
      datahex := datahex
      amount := x.txValue
      gasLimit := x.gasLimit
      gasPrice := 4 / 10000000
      senderAddress := senderAddress }
    if fn.isFallback then
      let t := transaction "00000000"
      set (x.begin (inv.request (.sending t) (.sendtocontract t)))
    else if fn.constant then
      match contract.encodeParams fn.name args with
      | .error err => set ((x.begin inv).log [err])
      | .ok (methodABI, calldata) =>
        set (x.begin (inv.request (.calling methodABI calldata senderAddress)
          (.callcontract contract.address calldata senderAddress)))
    else
      match contract.encodeSend fn.name args with
      | .error err => set ((x.begin inv).log [err])
      | .ok calldata =>
        let t := transaction calldata
        set (x.begin (inv.request (.sending t) (.sendtocontract t)))

/-- A call comes back. -/
def called (i : ℕ) (inv : Invocation) (methodABI : MethodABI)
    (result : Except String CallResult) : InvocationDesk χ :=
  match result >>= inv.contract.decodeCall methodABI with
  | .error err => (x.update i inv.finish).log [err]
  | .ok (outputs, logs) =>
    (x.update i inv.generateBlocks).log
      (("Outputs: " ++ String.intercalate "," outputs) :: logEvents logs)

/-- What `sendtocontract` returns comes back. The library asks for the
transaction then; for the fallback there is no library, and no `catch`. -/
def sent (i : ℕ) (inv : Invocation) (result : Except String (String × χ)) : InvocationDesk χ :=
  match result with
  | .error err =>
    (x.update i inv.finish).log (if inv.fn.isFallback then [] else [err])
  | .ok (txid, chain) =>
    let x := { x with chain := chain }
    let inv := { inv with accepted := true }
    if inv.fn.isFallback then
      (x.update i inv.generateBlocks).log ["TXID: " ++ txid]
    else
      x.update i (inv.request (.fetching txid) (.gettransaction txid none))

/-- The transaction comes back. Then its receipt is waited for, and a block generated. -/
def fetched (i : ℕ) (inv : Invocation) (txid : String) (result : Except String TxInfo) :
    InvocationDesk χ :=
  match result with
  | .error err => (x.update i inv.finish).log [err]
  | .ok tx =>
    (x.update i (inv.confirmAndGenerate (x.hasTxWaitSupport inv.contract.rpc) txid)).log
      ["TXID: " ++ tx.txid]

/-- **The node answers** the request of the `i`-th invocation, or the request is
lost. A request to mine is not. -/
def answer (node : Node χ) (i : ℕ) (lost : Option String) : InvocationDesk χ :=
  match x.invocations[i]? with
  | none => x
  | some inv =>
    match inv.stage with
    | .calling methodABI datahex senderAddress =>
      x.called i inv methodABI
        (received lost (node.callcontract x.chain inv.contract.address datahex senderAddress))
    | .sending transaction =>
      x.sent i inv (received lost (node.sendtocontract x.chain transaction))
    | .fetching txid =>
      x.fetched i inv txid (received lost (node.gettransaction x.chain txid none))
    | .generating => { x with chain := node.generate x.chain 1 }.update i inv.finish
    | .done => x

/-- `checkTransactionWaitSupport` comes back. -/
def helped (i : ℕ) (inv : Invocation) (txid : String) (result : Except String String) :
    InvocationDesk χ :=
  match result with
  | .error _ => x.update i inv.finishConfirm
  | .ok helpmsg =>
    let waits := namesWaitconf helpmsg
    { x with
      hasTxWaitSupport := Function.update x.hasTxWaitSupport inv.contract.rpc (some waits) }.update
        i (inv.poll txid waits (.start waits))

/-- The transaction comes back in the loop of `confirm`. -/
def polled (i : ℕ) (inv : Invocation) (txid : String) (hasTxWaitSupport : Bool)
    (c : Confirming Receipt) (result : Except String TxInfo) : InvocationDesk χ :=
  match result with
  | .error _ => x.update i inv.finishConfirm
  | .ok tx =>
    if 0 < tx.confirmations then
      x.update i (inv.requestConfirm (.receiving txid hasTxWaitSupport c tx)
        (.gettransactionreceipt tx.txid))
    else x.update i (inv.poll txid hasTxWaitSupport (c.next hasTxWaitSupport tx.confirmations))

/-- Its receipt comes back, the first of those that are returned. -/
def receipted (i : ℕ) (inv : Invocation) (txid : String) (hasTxWaitSupport : Bool)
    (c : Confirming Receipt) (tx : TxInfo) (result : Except String (List Receipt)) :
    InvocationDesk χ :=
  match result with
  | .error _ => x.update i inv.finishConfirm
  | .ok receipts =>
    let c := c.onReceipt 1 hasTxWaitSupport tx.confirmations receipts.head?
    (x.update i (inv.poll txid hasTxWaitSupport c)).log (logReceipt inv.contract c.outcome)

/-- **The node answers** the request that `tx.confirm(1)` of the `i`-th invocation has made, or the
request is lost. -/
def answerConfirm (node : Node χ) (i : ℕ) (lost : Option String) : InvocationDesk χ :=
  match x.invocations[i]? with
  | none => x
  | some inv =>
    match inv.confirming with
    | .helping txid => x.helped i inv txid (received lost (node.help x.chain "gettransaction"))
    | .fetching txid waits c =>
      x.polled i inv txid waits c
        (received lost (node.gettransaction x.chain txid c.waited.getLast?.join))
    | .receiving txid waits c tx =>
      x.receipted i inv txid waits c tx
        (received lost (node.gettransactionreceipt x.chain tx.txid))
    | .ended => x

end InvocationDesk

/-- What happens to the calls. -/
inductive InvocationEvent (χ : Type) where
  | selectUtxo (address : Option String)
  | setTxValue (value : Json)
  | setGasLimit (value : Json)
  | callOrSend (contract : ContractObject) (fn : ContractFn)
  | answer (i : ℕ) (lost : Option String)
  | answerConfirm (i : ℕ) (lost : Option String)
  /-- Others have sent, or mined. -/
  | outside (chain : χ)

/-- **The run tab and the node.** -/
def invocationDesk {χ : Type} (node : Node χ) : Machine (InvocationDesk χ) (InvocationEvent χ) where
  start := fun x => x.invocations = []
  enabled := fun _ _ => True
  step := fun x e =>
    match e with
    | .selectUtxo address => { x with selectedUtxo := address }
    | .setTxValue value => { x with txValue := value }
    | .setGasLimit value => { x with gasLimit := value }
    | .callOrSend contract fn => after (InvocationDesk.callOrSend contract fn) x
    | .answer i lost => x.answer node i lost
    | .answerConfirm i lost => x.answerConfirm node i lost
    | .outside chain => { x with chain := chain }

end Hmix
