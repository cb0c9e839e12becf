import Hmix.Common.Machine
import Hmix.Model.Methods

/-!
# Subscriptions to a contract's logs

`onLog` asks the node for logs, decodes them, hands them to its listener, and asks again from the
block after those. A request without addresses is given the contract's, in the filter object
it came with, which other subscriptions may have been given as well.

The node is a parameter: of the chain it has and of a request, what it answers. So is what topics
select.
-/

namespace Hmix

/-! ## Requests -/

/-- A block, as a request names it. -/
inductive BlockName where
  | number (n : ℕ)
  /-- `"latest"`. -/
  | latest
  deriving DecidableEq

/-- What is asked for. -/
structure LogFilter where
  addresses : Option (List String)
  topics : Option (List (Option String))

/-- A filter object. -/
abbrev FilterRef := ℕ

/-- A request for logs, as a caller makes it. -/
structure LogRequest where
  fromBlock : Option BlockName
  toBlock : Option BlockName
  filter : Option FilterRef
  minconf : Option ℕ

/-- The parameters of `waitforlogs`. -/
structure WaitForLogs where
  fromBlock : Option BlockName
  toBlock : Option BlockName
  filter : LogFilter
  minconf : Option ℕ

/-- An entry of an answer. -/
structure LogEntry where
  contractAddress : String
  log : RawLog

/-- An answer. -/
structure LogResult where
  entries : List LogEntry
  nextblock : ℕ

/-- The filter, with an address if it has none. -/
def LogFilter.own (filter : LogFilter) (address : String) : LogFilter :=
  { filter with addresses := some (filter.addresses.getD [address]) }

/-- **`waitLogs`**, up to the answer: what is asked, and what the filters are then. -/
def waitLogs (filters : FilterRef → LogFilter) (address : String) (req : LogRequest) :
    (FilterRef → LogFilter) × WaitForLogs :=
  match req.filter with
  | none =>
    (filters, ⟨req.fromBlock, req.toBlock, LogFilter.own ⟨none, none⟩ address, req.minconf⟩)
  | some ref =>
    let filter := (filters ref).own address
    (Function.update filters ref filter, ⟨req.fromBlock, req.toBlock, filter, req.minconf⟩)

/-! ## The loop -/

/-- **A call of `onLog`**, in its loop. -/
structure Subscription where
  address : String
  /-- What the contract's log decoder knows. -/
  abi : List AbiItem
  opts : LogRequest
  nextblock : BlockName
  /-- What was asked, in order. -/
  asked : List WaitForLogs
  /-- The calls of the listener: the entries, each with its event. -/
  delivered : List (LogEntry × Option EventObject)
  /-- The loop has ended, and if no request failed, what the decoder threw. -/
  ended : Option (Option AbiError)

/-- The subscriptions of a client, with the filters there are, and the node's chain: the
logs of each block. -/
structure Subscribers where
  chain : List (List LogEntry)
  filters : FilterRef → LogFilter
  subscriptions : List Subscription

/-- `opts.fromBlock || "latest"`. -/
def firstBlock : Option BlockName → BlockName
  | some (.number n) => if n = 0 then .latest else .number n
  | some .latest => .latest
  | none => .latest

/-- A round of the loop, up to the answer. -/
def Subscription.ask (s : Subscription) (filters : FilterRef → LogFilter) :
    (FilterRef → LogFilter) × Subscription :=
  let (filters, request) := waitLogs filters s.address { s.opts with fromBlock := s.nextblock }
  (filters, { s with asked := s.asked ++ [request] })

section

variable (keccak256 : String → Units)

/-- The entries of an answer, decoded. -/
def decodeEntries (abi : List AbiItem) (entries : List LogEntry) :
    Coding (List (LogEntry × Option EventObject)) :=
  entries.mapM fun entry => do return (entry, ← decodeLog keccak256 abi entry.log)

end

/-! ## Runs -/

inductive SubscribersEvent where
  /-- A block is added to the chain. -/
  | mine (block : List LogEntry)
  | onLog (address : String) (abi : List AbiItem) (opts : LogRequest)
  /-- The node answers the request of the `i`-th subscription. -/
  | answer (i : ℕ)
  /-- That request fails. -/
  | fail (i : ℕ)

namespace Subscribers

variable (keccak256 : String → Units) (node : List (List LogEntry) → WaitForLogs → LogResult)
  (x : Subscribers)

/-- `onLog`. -/
def onLog (address : String) (abi : List AbiItem) (opts : LogRequest) : Subscribers :=
  let s : Subscription := ⟨address, abi, opts, firstBlock opts.fromBlock, [], [], none⟩
  let (filters, s) := s.ask x.filters
  { x with filters := filters, subscriptions := x.subscriptions ++ [s] }

/-- The loop goes on with an answer. An entry that cannot be decoded ends it, before any is handed
to the listener. -/
def receive (i : ℕ) (s : Subscription) (result : LogResult) : Subscribers :=
  match decodeEntries keccak256 s.abi result.entries with
  | .error e => { x with subscriptions := x.subscriptions.set i { s with ended := some (some e) } }
  | .ok entries =>
    let s := { s with
      delivered := s.delivered ++ entries
      nextblock := .number result.nextblock }
    let (filters, s) := s.ask x.filters
    { x with filters := filters, subscriptions := x.subscriptions.set i s }

/-- What is asked is answered of the chain as it is then. -/
def answer (i : ℕ) : Subscribers :=
  match x.subscriptions[i]? with
  | none => x
  | some s =>
    match s.asked.getLast? with
    | none => x
    | some request => x.receive keccak256 i s (node x.chain request)

/-- What `waitforlogs` throws ends the loop. -/
def fail (i : ℕ) : Subscribers :=
  { x with subscriptions := x.subscriptions.modify i fun s => { s with ended := some none } }

/-- The subscription is in its loop. -/
def Waiting (i : ℕ) : Prop := ∃ s ∈ x.subscriptions[i]?, s.ended = none

end Subscribers

/-- **The subscriptions of a client**, from when there is none, with the filters its callers have
made. -/
def subscribers (keccak256 : String → Units)
    (node : List (List LogEntry) → WaitForLogs → LogResult) (filters : FilterRef → LogFilter) :
    Machine Subscribers SubscribersEvent where
  start := fun x => ∃ chain, x = ⟨chain, filters, []⟩
  enabled := fun x e =>
    match e with
    | .mine _ | .onLog _ _ _ => True
    | .answer i | .fail i => x.Waiting i
  step := fun x e =>
    match e with
    | .mine block => { x with chain := x.chain ++ [block] }
    | .onLog address abi opts => x.onLog address abi opts
    | .answer i => x.answer keccak256 node i
    | .fail i => x.fail i

end Hmix
