import Hmix.Common.Placed
import Hmix.Model.Buffer
import Hmix.Model.Imports

/-!
# The codec

The library encodes the arguments of a call by the types its ABI gives, and
decodes what the node returns. A type is read into a coder. Static values come
first, one behind the other; of a dynamic one there is an offset in its place, and
the value comes behind. The library is set up to write hexadecimal text without a prefix.

A value is a text, a BN, a boolean, a buffer or an array; the library
itself passes numbers. Where the kind of a value makes the engine throw a
`TypeError` of its own, its message is left out.
-/

namespace Hmix

/-- A value of JavaScript, as far as the codec takes or returns one. A number is a
length or an offset. -/
inductive AbiValue where
  | text (units : Units)
  | number (n : ℕ)
  | bn (n : BN)
  | flag (b : Bool)
  | buffer (bytes : Bytes)
  | array (items : List AbiValue)

/-- What the codec throws. -/
inductive AbiError where
  /-- An `Error`, by its message. -/
  | error (message : String)
  /-- That of `numberToBN`, which quotes its argument. -/
  | notNumber (arg : AbiValue)
  | typeError
  | rangeError

/-- A program of the codec. -/
abbrev Coding := Except AbiError

namespace Buffer

/-- `createBuffer`, as far as the length goes. -/
def createBuffer (bytes : Bytes) : Coding Bytes :=
  if maxLength < bytes.length then throw .rangeError else return bytes

/-- `checked`: a buffer that is allocated by its length has to be shorter still. -/
def checked (bytes : Bytes) : Coding Bytes :=
  if maxLength ≤ bytes.length then throw .rangeError else return bytes

/-- `Buffer.concat`. -/
def concat (list : List Bytes) : Coding Bytes := checked list.flatten

end Buffer

open Buffer

/-! ## Numbers -/

/-- `toLowerCase`, as far as the patterns can tell: no other character becomes one
that they have. -/
def lower (u : UInt16) : UInt16 := if unit 'A' ≤ u ∧ u ≤ unit 'Z' then u + 32 else u

/-- `\s`, of a code unit. -/
def isSpace (u : UInt16) : Bool := whiteSpace (Char.ofNat u.toNat)

/-- `trim`. -/
def trim (text : Units) : Units := (text.dropWhile isSpace).rdropWhile isSpace

/-- `[0-9]`. -/
def isDecimal (u : UInt16) : Bool := unit '0' ≤ u && u ≤ unit '9'

/-- `[a-fA-F]`. -/
def isLetter (u : UInt16) : Bool :=
  (unit 'a' ≤ u && u ≤ unit 'f') || (unit 'A' ≤ u && u ≤ unit 'F')

/-- `[0-9A-Fa-f]`. -/
def isHex (u : UInt16) : Bool := isDecimal u || isLetter u

/-- `0x`. -/
def hexPrefix : Units := [unit '0', unit 'x']

/-- `stripHexPrefix`. -/
def stripHexPrefix (str : Units) : Units := if str.take 2 = hexPrefix then str.drop 2 else str

/-- `/^-?[0-9]+$/`. -/
def isInteger (str : Units) : Bool :=
  let digits := if str.head? = some (unit '-') then str.tail else str
  !digits.isEmpty && digits.all isDecimal

/-- A number's text, when what is in front of its digits is off. -/
structure NumberText where
  isHexPrefixed : Bool
  /-- The multiplier is `-1`. -/
  negative : Bool
  stringArg : Units

/-- The first lines of `numberToBN`. -/
def numberText (arg : Units) : NumberText :=
  let formattedString := trim (arg.map lower)
  let stringArg := stripHexPrefix formattedString
  let negative := stringArg.take 1 = [unit '-']
  let stringArg := if negative then stripHexPrefix (stringArg.drop 1) else stringArg
  { isHexPrefixed := formattedString.take 2 = hexPrefix ∨
      formattedString.take 3 = unit '-' :: hexPrefix
    negative := negative
    stringArg := if stringArg = [] then [unit '0'] else stringArg }

/-- The others: in which base the digits are read. -/
def NumberText.base (t : NumberText) : Option ℕ :=
  let hexadecimal := !t.stringArg.isEmpty && t.stringArg.all isHex
  if (!isInteger t.stringArg && hexadecimal) || t.stringArg.all isLetter ||
      (t.isHexPrefixed && hexadecimal) then some 16
  else if isInteger t.stringArg && !t.isHexPrefixed then some 10
  else none

/-- `numberToBN`, of a string. -/
def numberToBN (arg : Units) : Coding BN :=
  let t := numberText arg
  match t.base with
  | some base => return (BN.ofText t.stringArg base).mul (BN.ofInt (if t.negative then -1 else 1))
  | none => throw (.notNumber (.text arg))

/-- `text.split('.')[0]`. -/
def beforePoint (text : Units) : Units := text.takeWhile (· != unit '.')

/-- The first lines of `encodeNumber`, and `numberToBN`. -/
def AbiValue.toBN : AbiValue → Coding BN
  | .text units => numberToBN (beforePoint units)
  | .number n => numberToBN (beforePoint (decimal n))
  | .bn n => numberToBN (beforePoint n.toText)
  -- it asks for the text of a buffer in base 10, which is no encoding
  | .buffer (_ :: _) => throw .typeError
  | value => throw (.notNumber value)

/-- `value ? 1 : 0`. -/
def AbiValue.truthy : AbiValue → Bool
  | .text units => units != []
  | .number n => n != 0
  | .bn _ => true
  | .flag b => b
  | .buffer _ => true
  | .array _ => true

/-- The number coder's `encode`. -/
def encodeNumber (size : ℕ) (signed : Bool) (value : AbiValue) : Coding Bytes := do
  let value ← value.toBN
  let value := (value.toTwos (size * 8)).maskn (size * 8)
  let value := if signed then (value.fromTwos (size * 8)).toTwos 256 else value
  match value.toArrayLike 32 with
  | some bytes => return bytes
  | none => throw (.error "byte array longer than desired length")

/-- Its `decode`. -/
def decodeNumber (size : ℕ) (signed : Bool) (data : Bytes) (offset : ℕ) : BN × ℕ :=
  let junkLength := 32 - size
  let value := BN.initArray (slice data (offset + junkLength) (offset + 32))
  let value := if signed then value.fromTwos (size * 8) else value.maskn (size * 8)
  (BN.ofText value.toText 10, 32)

/-- `uint256Coder.encode`, of a length or an offset. -/
def encodeLength (n : ℕ) : Coding Bytes := encodeNumber 32 false (.number n)

/-- `result.value.toNumber()`, of which the assertion may fail. -/
def lengthOf (result : BN × ℕ) : Coding (ℕ × ℕ) :=
  match result.1.toNumber with
  | some n => return (n, result.2)
  | none => throw (.error "Number can only safely store up to 53 bits")

/-- `uint256Coder.decode`, of a length or an offset. -/
def decodeLength (data : Bytes) (offset : ℕ) : Coding (ℕ × ℕ) :=
  lengthOf (decodeNumber 32 false data offset)

/-! ## Bytes and texts -/

/-- `hexStringToBuffer`, of a string: any size will do where none is expected. -/
def hexStringToBuffer (value : Units) (size : Option ℕ) (msg : Option String) : Coding Bytes :=
  if !(stripHexPrefix value).all isHex then
    throw (.error (msg.getD "[ethjs-abi] invalid hex string"))
  else
    let data := stripHexPrefix value
    let data := if data.length % 2 ≠ 0 then unit '0' :: data else data
    match size with
    | some size =>
      if data.length ≠ size * 2 then
        throw (.error (msg.getD s!"[ethjs-abi] Expects a {size} bytes hex string"))
      else createBuffer (hexWrite data)
    | none => createBuffer (hexWrite data)

/-- `hexOrBuffer`. What is done with a value of another kind throws. -/
def hexOrBuffer : AbiValue → Coding Bytes
  | .text units => hexStringToBuffer units none none
  | .buffer bytes => return bytes
  | _ => throw .typeError

/-- `parseInt(32 * Math.ceil(size / 32))`. -/
def alignSize (size : ℕ) : ℕ := 32 * ((size + 31) / 32)

/-- The fixed bytes coder's `encode`. -/
def encodeFixedBytes (value : AbiValue) : Coding Bytes := do
  let value ← hexOrBuffer value
  if value.length = 32 then return value
  else return copy value (List.replicate 32 0) 0

/-- Its `decode`. -/
def decodeFixedBytes (length : ℕ) (data : Bytes) (offset : ℕ) : Coding (Units × ℕ) :=
  if data.length ≠ 0 ∧ data.length < offset + 32 then
    throw (.error s!"[ethjs-abi] while decoding fixed bytes, invalid bytes data length: {length}")
  else return (hexSlice (slice data offset (offset + length)), 32)

/-- The address coder's `encode`. -/
def encodeAddress (input : AbiValue) : Coding Bytes := do
  let msg := "[ethjs-abi] while encoding invalid address; not alphanumeric 20 byte hex string"
  match input with
  | .text units =>
    let value ← hexStringToBuffer units (some 20) (some msg)
    return copy value (List.replicate 32 0) 12
  | _ => throw (.error msg)

/-- Its `decode`. -/
def decodeAddress (data : Bytes) (offset : ℕ) : Coding (Units × ℕ) :=
  if data.length = 0 then return ([], 32)
  else if data.length < offset + 32 then
    throw (.error (s!"[ethjs-abi] while decoding address data, invalid address data, " ++
      s!"invalid byte length {data.length}"))
  else return (hexSlice (slice data (offset + 12) (offset + 32)), 32)

/-- `encodeDynamicBytesHelper`. -/
def encodeDynamicBytesHelper (value : Bytes) : Coding Bytes := do
  let padding := List.replicate (alignSize value.length - value.length) 0
  concat [← encodeLength value.length, value, padding]

/-- `decodeDynamicBytesHelper`. -/
def decodeDynamicBytesHelper (data : Bytes) (offset : ℕ) : Coding (Bytes × ℕ) := do
  let invalid (needed : ℕ) : AbiError :=
    .error ("[ethjs-abi] while decoding dynamic bytes data, invalid bytes length: " ++
      s!"{data.length} should be less than {needed}")
  if data.length ≠ 0 ∧ data.length < offset + 32 then throw (invalid (offset + 32))
  else
    let (length, _) ← decodeLength data offset
    if data.length ≠ 0 ∧ data.length < offset + 32 + length then
      throw (invalid (offset + 32 + length))
    else return (slice data (offset + 32) (offset + 32 + length), 32 + alignSize length)

/-- `new Buffer(value, 'utf8')`. A BN has a length, and nothing under an index. Of an array
the items are made numbers; that is left out. -/
def stringBytes : AbiValue → Coding Bytes
  | .text units => createBuffer (utf8ToBytes units)
  | .number _ => throw
    (.error "If encoding is specified then the first argument must be a string")
  | .bn n => checked (List.replicate n.words.length 0)
  | .buffer bytes => checked bytes
  | .flag _ => throw .typeError
  | .array _ => throw .typeError

/-! ## Coders -/

/-- **A coder**, as `getParamCoder` builds one. The length of an array is absent where
it is `-1`. -/
inductive Coder where
  | number (size : ℕ) (signed : Bool)
  | boolean
  | fixedBytes (length : ℕ)
  | address
  | dynamicBytes
  | string
  | array (coder : Coder) (length : Option ℕ)
  deriving DecidableEq

namespace Coder

/-- `coder.dynamic`. -/
def dynamic : Coder → Bool
  | .dynamicBytes => true
  | .string => true
  | .array _ none => true
  | _ => false

/-- **`coder.encode`.** -/
def encode : Coder → AbiValue → Coding Bytes
  | .number size signed, value => encodeNumber size signed value
  | .boolean, value => encodeLength (if value.truthy then 1 else 0)
  | .fixedBytes _, value => encodeFixedBytes value
  | .address, value => encodeAddress value
  | .dynamicBytes, value => do encodeDynamicBytesHelper (← hexOrBuffer value)
  | .string, value => do encodeDynamicBytesHelper (← stringBytes value)
  | .array coder lengthInput, value => do
    match value with
    | .array items =>
      let result ← match lengthInput with
        | none => encodeLength items.length
        | some _ => pure []
      let length := lengthInput.getD items.length
      if length ≠ items.length then
        throw (.error (s!"[ethjs-abi] while encoding array, size mismatch array length {length} " ++
          s!"does not equal {items.length}"))
      else
        items.foldlM (fun result item => do concat [result, ← coder.encode item]) result
    | _ => throw (.error ("[ethjs-abi] while encoding array, invalid array data, " ++
        "not type Object (Array)"))

/-- **`coder.decode`**: the value at an offset, and how many bytes it took. -/
def decode : Coder → Bytes → ℕ → Coding (AbiValue × ℕ)
  | .number size signed, data, offset =>
    return (decodeNumber size signed data offset).map .bn id
  | .boolean, data, offset =>
    -- `isZero`
    return (decodeNumber 32 false data offset).map (fun value => .flag (value.words != [0])) id
  | .fixedBytes length, data, offset => do
    let (value, consumed) ← decodeFixedBytes length data offset
    return (.text value, consumed)
  | .address, data, offset => do
    let (value, consumed) ← decodeAddress data offset
    return (.text value, consumed)
  | .dynamicBytes, data, offset => do
    let (value, consumed) ← decodeDynamicBytesHelper data offset
    return (.text (hexSlice value), consumed)
  | .string, data, offset => do
    let (value, consumed) ← decodeDynamicBytesHelper data offset
    return (.text (utf8Slice value), consumed)
  | .array coder lengthInput, data, offset => do
    let (length, consumed) ← match lengthInput with
      | none => decodeLength data offset
      | some length => pure (length, 0)
    -- the loop is over the values, one behind the other
    let (value, rest) ← readMany (coder.decode data) length (offset + consumed)
    return (.array value, consumed + rest)

end Coder

/-! ## Types -/

/-- What a match of `paramTypePart` finds: an `int`, a `uint` or `bytes` with its
digits, another name, or brackets with digits. -/
inductive TypePart where
  | sized (name digits : List Char)
  | plain (name : List Char)
  | brackets (digits : List Char)

/-- `[0-9]*`. -/
def leadingDigits (type : List Char) : List Char × List Char := type.span Char.isDigit

/-- `type.match(paramTypePart)`, and what is left of the type. -/
def matchPart (type : List Char) : Option (TypePart × List Char) :=
  let named (name : List Char) :=
    if name.isPrefixOf type then some (name, type.drop name.length) else none
  match (["uint", "int", "bytes"].map String.toList).findSome? named with
  | some (name, rest) =>
    let (digits, rest) := leadingDigits rest
    some (.sized name digits, rest)
  | none =>
    match (["address", "bool", "string"].map String.toList).findSome? named with
    | some (name, rest) => some (.plain name, rest)
    | none =>
      match type with
      | '[' :: rest =>
        match leadingDigits rest with
        | (digits, ']' :: rest) => some (.brackets digits, rest)
        | _ => none
      | _ => none

/-- `parseInt(digits)`. -/
def parseDigits (digits : List Char) : ℕ :=
  digits.foldl (fun n c => n * 10 + (c.toNat - '0'.toNat)) 0

/-- `JSON.stringify(type)`. An ABI that was compiled has no type with a character that
would have to be escaped. -/
def quoted (type : List Char) : String := "\"" ++ String.ofList type ++ "\""

/-- One round of `getParamCoder`: the part, with what is left behind it. -/
def extendCoder (invalid : AbiError) (coder : Option Coder) (part : TypePart) (type : List Char) :
    Coding Coder :=
  let rest := String.ofList type
  match part with
  | .sized name digits =>
    if coder.isSome then throw invalid
    else if name = "bytes".toList then
      if digits = [] then return .dynamicBytes
      else
        let size := parseDigits digits
        if size = 0 ∨ 32 < size then
          throw (.error ("[ethjs-abi] while getting param coder for prefix bytes, invalid type " ++
            rest ++ s!", size {size} should be 0 or greater than 32"))
        else return .fixedBytes size
    else
      let intSize := if digits = [] then 256 else parseDigits digits
      if intSize = 0 ∨ 256 < intSize ∨ intSize % 8 ≠ 0 then
        throw (.error ("[ethjs-abi] while getting param coder for type " ++ rest ++ ", invalid " ++
          String.ofList name ++ "<N> width: " ++ rest))
      else return .number (intSize / 8) (name = "int".toList)
  | .plain name =>
    if coder.isSome then throw invalid
    else if name = "bool".toList then return .boolean
    else if name = "string".toList then return .string
    else return .address
  | .brackets digits =>
    match coder with
    | none => throw invalid
    | some coder =>
      if coder.dynamic then throw invalid
      else return .array coder (if digits = [] then none else some (parseDigits digits))

/-- The loop of `getParamCoder`. Each round takes a part off the type. -/
def coderLoop (invalid : AbiError) : ℕ → Option Coder → List Char → Coding (Option Coder)
  | 0, coder, _ => return coder
  | fuel + 1, coder, type =>
    if type = [] then return coder
    else
      match matchPart type with
      | none => throw invalid
      | some (part, type) => do
        let coder ← extendCoder invalid coder part type
        coderLoop invalid fuel (some coder) type

/-- **`getParamCoder`.** -/
def getParamCoder (type : String) : Coding Coder := do
  let invalid : AbiError := .error
    ("[ethjs-abi] while getting param coder (getParamCoder) type value " ++ quoted type.toList ++
      " is either invalid or unsupported by ethjs-abi.")
  match ← coderLoop invalid type.toList.length none type.toList with
  | none => throw invalid
  | some coder => return coder

/-! ## Parameters -/

/-- One round of the loop that copies the parts: into the data, at the offset and at
the dynamic offset. -/
def copyPart (state : Bytes × ℕ × ℕ) (part : Part UInt8) : Coding (Bytes × ℕ × ℕ) := do
  let (data, offset, dynamicOffset) := state
  if part.dynamic then
    let data := copy (← encodeLength dynamicOffset) data offset
    let data := copy part.value data dynamicOffset
    return (data, offset + 32, dynamicOffset + alignSize part.value.length)
  else
    return (copy part.value data offset, offset + alignSize part.value.length, dynamicOffset)

/-- **`encodeParams`**, up to the text. -/
def encodeParams (types : List String) (values : List AbiValue) : Coding Bytes := do
  if types.length ≠ values.length then
    throw (.error (s!"[ethjs-abi] while encoding params, types/values mismatch, Your contract " ++
      s!"requires {types.length} types (arguments), and you passed in {values.length}"))
  else
    let parts ← (types.zip values).mapM fun (type, value) => do
      let coder ← getParamCoder type
      return Part.mk coder.dynamic (← coder.encode value)
    let staticSize := (parts.map fun part =>
      if part.dynamic then 32 else alignSize part.value.length).sum
    let dynamicSize := (parts.map fun part =>
      if part.dynamic then alignSize part.value.length else 0).sum
    let data ← checked (List.replicate (staticSize + dynamicSize) 0)
    let (data, _) ← parts.foldlM copyPart (data, 0, staticSize)
    return data

/-- A round of the loop of `decodeParams`: the value, and how far the offset goes. Of a
dynamic one the word there says where the value is. -/
def readParam (coder : Coder) (data : Bytes) (offset : ℕ) : Coding (AbiValue × ℕ) := do
  if coder.dynamic then
    let (dynamicOffset, consumed) ← decodeLength data offset
    let (value, _) ← coder.decode data dynamicOffset
    return (value, consumed)
  else coder.decode data offset

/-- The loop of `decodeParams`. -/
def decodeLoop (data : Bytes) : ℕ → List String → Coding (List AbiValue)
  | _, [] => return []
  | offset, type :: types => do
    let (value, consumed) ← readParam (← getParamCoder type) data offset
    return value :: (← decodeLoop data (offset + consumed) types)

/-- **`decodeParams`**, of a buffer: the values, in their order. -/
def decodeParams (types : List String) (data : Bytes) : Coding (List AbiValue) :=
  decodeLoop data 0 types

end Hmix
