import Hmix.Model.Codec
import Mathlib.Logic.Function.Basic

/-!
# The methods and the events of an ABI

The library finds a method by its signature, or by its name and how many arguments it is
given; encodes a call with the first bytes of the signature's hash in front; and takes
a log apart by the event whose signature hashes to its first topic.

The hash is a parameter: of a text, in 64 digits.
-/

namespace Hmix

open Buffer

/-- An input or an output. -/
structure AbiParam where
  name : String
  type : String
  /-- Of an event's input: it is a topic. -/
  indexed : Bool
  deriving DecidableEq

/-- An item of an ABI. -/
structure AbiItem where
  type : String
  name : String
  inputs : List AbiParam
  outputs : List AbiParam
  constant : Bool
  anonymous : Bool
  deriving DecidableEq

namespace AbiItem

variable (item : AbiItem)

/-- `getKeys(inputs, 'type')`. -/
def inputTypes : List String := item.inputs.map AbiParam.type

/-- The signature. -/
def signature : String := item.name ++ "(" ++ String.intercalate "," item.inputTypes ++ ")"

/-- The key of the name, and of how many arguments there are. -/
def arityKey (name : String) (arity : ℕ) : String := name ++ "#" ++ toString arity

/-- `key`. -/
def key : String := arityKey item.name item.inputs.length

end AbiItem

/-! ## The map of methods -/

/-- The names every object has from `Object.prototype`. -/
def inheritedNames : List String :=
  ["constructor", "toString", "toLocaleString", "valueOf", "hasOwnProperty", "isPrototypeOf",
    "propertyIsEnumerable", "__proto__", "__defineGetter__", "__defineSetter__",
    "__lookupGetter__", "__lookupSetter__"]

/-- The functions of an ABI. -/
def functions (abi : List AbiItem) : List AbiItem := abi.filter (·.type = "function")

/-- What is found under a name: a method, or what every object has. -/
inductive Found where
  | method (item : AbiItem)
  | inherited
  deriving DecidableEq

/-- The constructor of `MethodMap`, in its loop. -/
structure MethodMap where
  /-- The own properties of `methods`. -/
  methods : String → Option AbiItem
  keyCollisions : List String

namespace MethodMap

/-- One round of the loop. -/
def add (m : MethodMap) (method : AbiItem) : MethodMap :=
  if method.type ≠ "function" then m
  else
    let m := if (m.methods method.key).isSome then
        { m with keyCollisions := m.keyCollisions ++ [method.key] }
      else { m with methods := Function.update m.methods method.key (some method) }
    { m with methods := Function.update m.methods method.signature (some method) }

/-- `new MethodMap(abi)`, where the keys that collided are deleted at the end. -/
def ofAbi (abi : List AbiItem) : MethodMap :=
  let m := abi.foldl add ⟨fun _ => none, []⟩
  { m with methods := fun key => if key ∈ m.keyCollisions then none else m.methods key }

/-- `this.methods[key]`. -/
def get (m : MethodMap) (key : String) : Option Found :=
  match m.methods key with
  | some method => some (.method method)
  | none => if key ∈ inheritedNames then some .inherited else none

/-- **`findMethod`.** -/
def findMethod (m : MethodMap) (selector : String) (args : ℕ) : Option Found :=
  match m.get selector with
  | some method => some method
  | none => m.get (AbiItem.arityKey selector args)

end MethodMap

section

variable (keccak256 : String → Units)

/-! ## Calls -/

/-- `encodeSignature`. -/
def encodeSignature (method : AbiItem) : Units := (keccak256 method.signature).take 8

/-- `encodeMethod`. -/
def encodeMethod (method : AbiItem) (values : List AbiValue) : Coding Units := do
  let paramsEncoded ← encodeParams method.inputTypes values
  return encodeSignature keccak256 method ++ hexSlice paramsEncoded

/-- `encodeInputs`: what every object has is a function, and has no inputs. -/
def encodeInputs (method : Found) (args : List AbiValue) : Coding Units :=
  match method with
  | .method method => encodeMethod keccak256 method args
  | .inherited => throw (.error "[ethjs-abi] while getting keys, invalid params value undefined")

/-- `decodeOutputs`. -/
def decodeOutputs (method : AbiItem) (outputData : Units) : Coding (List AbiValue) := do
  decodeParams (method.outputs.map AbiParam.type) (← hexStringToBuffer outputData none none)

/-- `encodeConstructorParams`: where no constructor takes as many, it is as if one took
none. -/
def encodeConstructorParams (contract : List AbiItem) (params : List AbiValue) : Coding Units := do
  let types := ((contract.filter fun method =>
    method.type = "constructor" ∧ method.inputs.length = params.length).map
      AbiItem.inputTypes).head?.getD []
  return hexSlice (← encodeParams types params)

/-! ## Events -/

/-- An event, as it is decoded: its properties, in the order in which they were set. Those
with a number, which are not enumerable, are left out. -/
structure EventObject where
  /-- `length` is there, and cannot be set. -/
  sized : Bool
  properties : List (String × AbiValue)

/-- `event[name] = value`. -/
def EventObject.set (event : EventObject) (name : String) (value : AbiValue) :
    Coding EventObject :=
  if event.sized ∧ name = "length" then throw .typeError
  else if name ∈ event.properties.map Prod.fst then
    return { event with properties := event.properties.map fun p =>
      if p.1 = name then (name, value) else p }
  else return { event with properties := event.properties ++ [(name, value)] }

/-- The loop of `decodeParams`, where the values have names, and the values go into an object. -/
def decodeNamed (data : Bytes) : ℕ → List AbiParam → EventObject → Coding EventObject
  | _, [], event => return event
  | offset, input :: inputs, event => do
    let (value, consumed) ← readParam (← getParamCoder input.type) data offset
    let event ← if input.name = "" then pure event else event.set input.name value
    decodeNamed data (offset + consumed) inputs event

/-- `hexStringToBuffer(topics[k])`. -/
def readTopic (topics : List Units) (k : ℕ) : Coding Bytes :=
  match topics[k]? with
  | some topic => hexStringToBuffer topic none none
  | none => throw (.error "[ethjs-abi] invalid hex string")

/-- A round of the loop over the inputs in `decodeEvent`. An indexed one is read from
a topic. -/
def setIndexed (topics : List Units) (k : ℕ) (input : AbiParam) (event : EventObject) :
    Coding EventObject :=
  if input.indexed then do
    let topic ← readTopic topics k
    let coder ← getParamCoder input.type
    let (value, _) ← coder.decode topic 0
    event.set input.name value
  else return event

/-- The loop, from the `i`-th input on: which topic it is is counted among all inputs. -/
def decodeTopics (topics : List Units) (topicOffset : ℕ) :
    ℕ → List AbiParam → EventObject → Coding EventObject
  | _, [], event => return event
  | i, input :: inputs, event => do
    let event ← setIndexed topics (i + topicOffset) input event
    decodeTopics topics topicOffset (i + 1) inputs event

/-- **`decodeEvent`.** -/
def decodeEvent (eventObject : AbiItem) (data : Units) (topics : List Units) :
    Coding EventObject := do
  let nonIndexed := eventObject.inputs.filter fun input => !input.indexed
  let buffer ← hexStringToBuffer data none none
  let event ← decodeNamed buffer 0 nonIndexed ⟨eventObject.inputs ≠ [], []⟩
  let topicOffset := if eventObject.anonymous then 0 else 1
  let event ← decodeTopics topics topicOffset 0 eventObject.inputs event
  event.set "type" (.text (units eventObject.name))

/-- A log, as the node returns it. -/
structure RawLog where
  data : Units
  topics : List Units

/-- `eventMap[topic]`: of the events with this signature, the last. -/
def findEvent (abi : List AbiItem) (topic : Units) : Option AbiItem :=
  (abi.filter fun item => item.type = "event").reverse.find? fun item =>
    keccak256 item.signature = topic

/-- **The log decoder**, of a log: what it knows no event for has no result. -/
def decodeLog (abi : List AbiItem) (log : RawLog) : Coding (Option EventObject) :=
  match log.topics.head?.bind (findEvent keccak256 abi) with
  | none => return none
  | some eventObject => do return some (← decodeEvent eventObject log.data log.topics)

/-! ## The contract -/

/-- What `callcontract` returns, as far as it is decoded. -/
structure RawCallResult where
  excepted : String
  output : Units
  log : List RawLog

/-- `encodeParams` of a contract. -/
def encodeCall (abi : List AbiItem) (method : String) (args : List AbiValue) : Coding Units :=
  match (MethodMap.ofAbi abi).findMethod method args.length with
  | none => throw (.error ("Unknown method to call: " ++ method))
  | some methodABI => encodeInputs keccak256 methodABI args

/-- `methodABI.constant`. -/
def Found.constant : Found → Bool
  | .method item => item.constant
  | .inherited => false

/-- The first lines of `send`. -/
def encodeSend (abi : List AbiItem) (method : String) (args : List AbiValue) : Coding Units :=
  match (MethodMap.ofAbi abi).findMethod method args.length with
  | none => throw (.error ("Unknown method to send: " ++ method))
  | some methodABI =>
    if methodABI.constant then throw (.error ("cannot send to a constant method: " ++ method))
    else encodeInputs keccak256 methodABI args

/-- The rest of `call`: what is made of the result. -/
def decodeCall (abi : List AbiItem) (method : String) (args : List AbiValue) (r : RawCallResult) :
    Coding (List AbiValue × List (Option EventObject)) := do
  if r.excepted ≠ "None" then throw (.error ("Call exception: " ++ r.excepted))
  else
    let outputs ←
      if r.output = [] then pure []
      else
        match (MethodMap.ofAbi abi).findMethod method args.length with
        | some (.method methodABI) => decodeOutputs methodABI r.output
        | _ => throw .typeError
    return (outputs, ← r.log.mapM (decodeLog keccak256 abi))

end

end Hmix
