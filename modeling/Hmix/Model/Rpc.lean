import Hmix.Common.Machine
import Hmix.Model.Json
import Mathlib.Data.Int.Notation

/-!
# Calls to the node, and receipts

`rawCall` posts a call, under a number of its own. A provider that wants it authorized
answers 402, and then the client waits for the authorization to change, and posts
the call once more with it. `confirm` asks for a transaction until it has been
confirmed often enough: with a node that can wait, for one more confirmation each time,
and else after a pause.

Of a response's body there is what is read of it, as text where it is made one.
-/

namespace Hmix

/-! ## Calls -/

/-- A call, as it is posted. -/
structure RpcCall where
  method : String
  params : List Json
  id : ℕ
  auth : Option String

/-- A response's body. -/
structure RpcBody where
  id : String
  state : String
  message : String
  /-- `error`: its `code` and its `message`. -/
  error : Option (String × String)
  result : Json
  /-- `String(data)`. -/
  text : String

/-- A response. -/
structure RpcResponse where
  status : ℕ
  statusText : String
  /-- `headers['content-type']`. -/
  contentType : Option String
  data : RpcBody

/-- What `rawCall` throws. -/
inductive RpcError where
  | error (message : String)
  /-- What the request failed with. -/
  | failed (err : String)
  | typeError

/-- A request of the client. -/
inductive HttpRequest where
  | post (call : RpcCall)
  | onchange (authID : String)

/-- How far a call is: what is to be answered next. -/
inductive RpcStage where
  | posted
  | authorizing (authID : String)
  | authorized
  | done (outcome : Except RpcError Json)

/-- **A call that is under way.** The requests it has made, and their answers, are
kept for the statements only. -/
structure RpcInvocation where
  call : RpcCall
  stage : RpcStage
  requests : List HttpRequest
  answers : List (Except String RpcResponse)

/-- What `rawCall` makes of the response. -/
def rpcResult (method : String) (res : RpcResponse) : Except RpcError Json :=
  if res.status = 401 then throw (.error res.statusText)
  else if res.status = 404 then throw (.error ("unknown method: " ++ method))
  else if res.status ≠ 200 then
    if res.contentType ≠ some "application/json" then
      throw (.error (toString res.status ++ " " ++ res.statusText ++ "\n" ++ res.data.text))
    else
      match res.data.error with
      | some (code, message) => throw (.error ("[" ++ code ++ "] " ++ message))
      | none => throw (.error res.data.text)
  else return res.data.result

namespace RpcInvocation

variable (inv : RpcInvocation)

/-- The next request is made. -/
def request (stage : RpcStage) (r : HttpRequest) : RpcInvocation :=
  { inv with stage := stage, requests := inv.requests ++ [r] }

/-- The call has come to an end. -/
def settle (outcome : Except RpcError Json) : RpcInvocation := { inv with stage := .done outcome }

/-- The call was posted for the first time. -/
def onPosted (res : RpcResponse) : RpcInvocation :=
  if res.status = 402 then
    inv.request (.authorizing res.data.id) (.onchange res.data.id)
  else inv.settle (rpcResult inv.call.method res)

/-- `authCall`. Of a state that is neither, nothing is returned, and `res.status` throws. -/
def onChanged (authID : String) (res : RpcResponse) : RpcInvocation :=
  if res.status ≠ 200 then inv.settle (.error (.error res.data.message))
  else if res.data.state = "denied" then
    inv.settle (.error (.error ("Authorization denied: " ++ authID)))
  else if res.data.state = "accepted" then
    inv.request .authorized (.post { inv.call with auth := some res.data.id })
  else inv.settle (.error .typeError)

/-- **The request is answered**, or has failed. -/
def answer (answer : Except String RpcResponse) : RpcInvocation :=
  match inv.stage with
  | .done _ => inv
  | stage =>
    let inv := { inv with answers := inv.answers ++ [answer] }
    match answer with
    | .error err => inv.settle (.error (.failed err))
    | .ok res =>
      match stage with
      | .posted => inv.onPosted res
      | .authorizing authID => inv.onChanged authID res
      | .authorized => inv.settle (rpcResult inv.call.method res)
      | .done _ => inv

end RpcInvocation

/-- **The client.** -/
structure RpcClient where
  idNonce : ℕ
  calls : List RpcInvocation

/-- What happens to the client. -/
inductive RpcEvent where
  | rawCall (method : String) (params : List Json)
  | answer (i : ℕ) (answer : Except String RpcResponse)

namespace RpcClient

variable (client : RpcClient)

/-- `rawCall`, up to the first request. -/
def rawCall (method : String) (params : List Json) : RpcClient :=
  let call : RpcCall := ⟨method, params, client.idNonce, none⟩
  { idNonce := client.idNonce + 1
    calls := client.calls ++ [⟨call, .posted, [.post call], []⟩] }

/-- The `i`-th call is answered. -/
def answer (i : ℕ) (answer : Except String RpcResponse) : RpcClient :=
  { client with calls := client.calls.modify i (·.answer answer) }

end RpcClient

/-- **The client and its provider.** -/
def rpcClient : Machine RpcClient RpcEvent where
  start := fun client => client = ⟨0, []⟩
  enabled := fun _ _ => True
  step := fun client e =>
    match e with
    | .rawCall method params => client.rawCall method params
    | .answer i answer => client.answer i answer

/-! ## Receipts -/

/-- A transaction, as the wallet has it. -/
structure TxInfo where
  txid : String
  confirmations : ℤ

section

variable {ρ : Type}

/-- A round of `confirm`: the transaction that is returned, and its receipt if that
is asked for. Either call may fail. -/
structure ConfirmRound (ρ : Type) where
  tx : Except String TxInfo
  receipt : Except String (Option ρ)

/-- **`confirm`**, in its loop. The rounds' requests are kept for the statements. -/
structure Confirming (ρ : Type) where
  curConfirmation : ℤ
  lastConfirmation : ℤ
  /-- What was emitted: with each receipt, how often it was confirmed. -/
  emitted : List (ℤ × ρ)
  /-- The `waitconf` of each request, if there is one. -/
  waited : List (Option ℤ)
  outcome : Option (Except String ρ)

namespace Confirming

/-- `confirm`, before its first answer. -/
def start (hasTxWaitSupport : Bool) : Confirming ρ :=
  ⟨1, 0, [], [if hasTxWaitSupport then some 1 else none], none⟩

variable (c : Confirming ρ)

/-- A call has failed. -/
def fail (err : String) : Confirming ρ := { c with outcome := some (.error err) }

/-- The end of a round: the next request. -/
def next (hasTxWaitSupport : Bool) (confirmations : ℤ) : Confirming ρ :=
  if hasTxWaitSupport then
    { c with
      lastConfirmation := confirmations
      curConfirmation := c.curConfirmation + 1
      waited := c.waited ++ [some (c.curConfirmation + 1)] }
  else { c with lastConfirmation := confirmations, waited := c.waited ++ [none] }

/-- The receipt comes back, if there is one. -/
def onReceipt (minconf : ℤ) (hasTxWaitSupport : Bool) (confirmations : ℤ) (receipt : Option ρ) :
    Confirming ρ :=
  match receipt with
  | none => c.fail "Cannot get transaction receipt"
  | some receipt =>
    let c :=
      if c.lastConfirmation < confirmations then
        { c with
          curConfirmation := confirmations
          emitted := c.emitted ++ [(confirmations, receipt)] }
      else c
    if minconf ≤ confirmations then { c with outcome := some (.ok receipt) }
    else c.next hasTxWaitSupport confirmations

/-- **A round of the loop.** -/
def round (minconf : ℤ) (hasTxWaitSupport : Bool) (r : ConfirmRound ρ) : Confirming ρ :=
  match c.outcome with
  | some _ => c
  | none =>
    match r.tx with
    | .error err => c.fail err
    | .ok tx =>
      if 0 < tx.confirmations then
        match r.receipt with
        | .error err => c.fail err
        | .ok receipt => c.onReceipt minconf hasTxWaitSupport tx.confirmations receipt
      else c.next hasTxWaitSupport tx.confirmations

end Confirming

/-- The loop, over the rounds there have been. -/
def confirm (minconf : ℤ) (hasTxWaitSupport : Bool) (rounds : List (ConfirmRound ρ)) :
    Confirming ρ :=
  rounds.foldl (fun c r => c.round minconf hasTxWaitSupport r) (.start hasTxWaitSupport)

end

end Hmix
