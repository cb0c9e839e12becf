import Hmix.Model.BigNumber

/-!
# Buffers

The library's buffers are those of the buffer module for browsers: bytes, and
the conversions from and to text, in hexadecimal and in UTF-8. A buffer that
would be too large is not made.
-/

namespace Hmix

/-- A buffer. -/
abbrev Bytes := List UInt8

namespace Buffer

/-- `K_MAX_LENGTH`. -/
def maxLength : ℕ := 0x7fffffff

/-- `~~n`: as an integer of 32 bits. -/
def toInt32 (n : ℕ) : ℤ := Int.bmod n 0x100000000

/-- `slice`: both ends are integers of 32 bits, and a negative one counts from the
end. -/
def slice (data : Bytes) (start stop : ℕ) : Bytes :=
  let len : ℤ := data.length
  let clamp (n : ℤ) : ℤ := if n < 0 then max (n + len) 0 else min n len
  let start := (clamp (toInt32 start)).toNat
  let stop := (clamp (toInt32 stop)).toNat
  (data.take (max start stop)).drop start

/-- `source.copy(target, targetStart)`: what does not fit is left out. -/
def copy (source target : Bytes) (targetStart : ℕ) : Bytes :=
  let targetStart := min targetStart target.length
  let source := source.take (target.length - targetStart)
  target.take targetStart ++ source ++ target.drop (targetStart + source.length)

/-! ## Hexadecimal -/

/-- `hexWrite`, of an even number of digits. -/
def hexWrite : Units → Bytes
  | a :: b :: rest => .ofNat (digitValue a * 16 + digitValue b) :: hexWrite rest
  | _ => []

/-- `hexSlice`, of all the bytes. -/
def hexSlice (bytes : Bytes) : Units :=
  bytes.flatMap fun b => [digitUnit (b.toNat / 16), digitUnit (b.toNat % 16)]

/-! ## UTF-8 -/

/-- `0xEF, 0xBF, 0xBD`: U+FFFD. -/
def replacement : Bytes := [0xEF, 0xBF, 0xBD]

/-- The bytes of a code point. -/
def encodePoint (codePoint : ℕ) : Bytes :=
  if codePoint < 0x80 then [.ofNat codePoint]
  else if codePoint < 0x800 then
    [.ofNat ((codePoint >>> 0x6) ||| 0xC0), .ofNat ((codePoint &&& 0x3F) ||| 0x80)]
  else if codePoint < 0x10000 then
    [.ofNat ((codePoint >>> 0xC) ||| 0xE0), .ofNat (((codePoint >>> 0x6) &&& 0x3F) ||| 0x80),
      .ofNat ((codePoint &&& 0x3F) ||| 0x80)]
  else
    [.ofNat ((codePoint >>> 0x12) ||| 0xF0), .ofNat (((codePoint >>> 0xC) &&& 0x3F) ||| 0x80),
      .ofNat (((codePoint >>> 0x6) &&& 0x3F) ||| 0x80), .ofNat ((codePoint &&& 0x3F) ||| 0x80)]

/-- The loop of `utf8ToBytes`, with the `leadSurrogate` it has. The bytes are
counted first, so that there is room for all. -/
def utf8Loop : Option ℕ → Units → Bytes
  | _, [] => []
  | leadSurrogate, u :: rest =>
    let codePoint := u.toNat
    if 0xD7FF < codePoint ∧ codePoint < 0xE000 then
      match leadSurrogate with
      | none =>
        -- unexpected trail
        if 0xDBFF < codePoint then replacement ++ utf8Loop none rest
        -- unpaired lead
        else if rest.isEmpty then replacement ++ utf8Loop none rest
        -- valid lead
        else utf8Loop (some codePoint) rest
      | some lead =>
        -- 2 leads in a row
        if codePoint < 0xDC00 then replacement ++ utf8Loop (some codePoint) rest
        -- valid surrogate pair
        else
          encodePoint ((((lead - 0xD800) <<< 10) ||| (codePoint - 0xDC00)) + 0x10000) ++
            utf8Loop none rest
    else
      -- valid bmp char, but last char was a lead
      (if leadSurrogate.isSome then replacement else []) ++ encodePoint codePoint ++
        utf8Loop none rest

/-- `utf8ToBytes`. -/
def utf8ToBytes (string : Units) : Bytes := utf8Loop none string

/-- A byte that goes on with a sequence: `(byte & 0xC0) === 0x80`. -/
def continues (byte : UInt8) : Bool := byte.toNat &&& 0xC0 == 0x80

/-- The code point that a sequence of bytes has, if it has one, and the bytes
that are left: behind it, or behind its first byte. -/
def decodePoint : Bytes → Option ℕ × Bytes
  | [] => (none, [])
  | firstByte :: rest =>
    let first := firstByte.toNat
    if 0xEF < first then
      match rest with
      | second :: third :: fourth :: behind =>
        let codePoint := ((first &&& 0xF) <<< 0x12) ||| ((second.toNat &&& 0x3F) <<< 0xC) |||
          ((third.toNat &&& 0x3F) <<< 0x6) ||| (fourth.toNat &&& 0x3F)
        if (continues second && continues third && continues fourth) ∧
            0xFFFF < codePoint ∧ codePoint < 0x110000
          then (some codePoint, behind)
        else (none, rest)
      | _ => (none, rest)
    else if 0xDF < first then
      match rest with
      | second :: third :: behind =>
        let codePoint := ((first &&& 0xF) <<< 0xC) ||| ((second.toNat &&& 0x3F) <<< 0x6) |||
          (third.toNat &&& 0x3F)
        if (continues second && continues third) ∧
            0x7FF < codePoint ∧ (codePoint < 0xD800 ∨ 0xDFFF < codePoint)
          then (some codePoint, behind)
        else (none, rest)
      | _ => (none, rest)
    else if 0xBF < first then
      match rest with
      | second :: behind =>
        let codePoint := ((first &&& 0x1F) <<< 0x6) ||| (second.toNat &&& 0x3F)
        if continues second ∧ 0x7F < codePoint then (some codePoint, behind)
        else (none, rest)
      | _ => (none, rest)
    else if first < 0x80 then (some first, rest)
    else (none, rest)

/-- The code units of a code point. -/
def pointUnits (codePoint : ℕ) : Units :=
  if 0xFFFF < codePoint then
    let codePoint := codePoint - 0x10000
    [.ofNat (((codePoint >>> 10) &&& 0x3FF) ||| 0xD800), .ofNat (0xDC00 ||| (codePoint &&& 0x3FF))]
  else [.ofNat codePoint]

/-- The loop of `utf8Slice`. Each round takes a byte at least. -/
def utf8Decode : ℕ → Bytes → Units
  | 0, _ => []
  | fuel + 1, bytes =>
    if bytes.isEmpty then []
    else
      let (codePoint, rest) := decodePoint bytes
      -- no valid code point: U+FFFD, and only 1 byte further
      pointUnits (codePoint.getD 0xFFFD) ++ utf8Decode fuel rest

/-- `utf8Slice`, of all the bytes. -/
def utf8Slice (bytes : Bytes) : Units := utf8Decode bytes.length bytes

/-! ## Code points -/

/-- `codePoint > 0xD7FF && codePoint < 0xE000`, of those above `0xDBFF` or not. -/
def isLead (u : UInt16) : Bool := 0xD800 ≤ u.toNat && u.toNat ≤ 0xDBFF

def isTrail (u : UInt16) : Bool := 0xDC00 ≤ u.toNat && u.toNat ≤ 0xDFFF

/-- What a code unit stands for by itself. -/
def alone (u : UInt16) : ℕ := if isLead u || isTrail u then 0xFFFD else u.toNat

/-- What a pair of surrogates stands for. -/
def pair (u v : UInt16) : ℕ := (u.toNat - 0xD800) * 0x400 + (v.toNat - 0xDC00) + 0x10000

/-- **The code points of a text.** -/
def points : Units → List ℕ
  | [] => []
  | [u] => [alone u]
  | u :: v :: rest =>
    if isLead u && isTrail v then pair u v :: points rest else alone u :: points (v :: rest)

end Buffer

/-- The code units of a string. -/
def units (s : String) : Units := s.toList.flatMap fun c => Buffer.pointUnits c.toNat

/-- A string by its code units. -/
def ofUnits (s : Units) : String := String.ofList ((Buffer.points s).map Char.ofNat)

end Hmix
