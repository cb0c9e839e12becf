import Hmix.Common.Numeral
import Mathlib.Data.List.DropRight

/-!
# Big numbers

The library's integers are those of bn.js: a sign, and words of 26 bits,
the lowest first. What is here is what the codec uses of it. An operation in
place is one that returns; of the `words` only the first `length` are kept,
since what an operation writes behind them is 0, or counted at once.

A string of JavaScript is its code units.
-/

namespace Hmix

/-- A string of JavaScript, by its code units. -/
abbrev Units := List UInt16

/-- The code unit of an ASCII character. -/
def unit (c : Char) : UInt16 := c.val.toUInt16

/-- What a digit stands for, of any base up to 16. -/
def digitValue (u : UInt16) : ℕ :=
  if unit 'a' ≤ u then u.toNat - 97 + 10
  else if unit 'A' ≤ u then u.toNat - 65 + 10
  else u.toNat - 48

/-- The digit, in lower case. -/
def digitUnit (n : ℕ) : UInt16 := if n < 10 then .ofNat (48 + n) else .ofNat (87 + n)

/-- `String(n)` of a natural number. -/
def decimal (n : ℕ) : Units :=
  if n = 0 then [unit '0'] else ((Nat.digits 10 n).map digitUnit).reverse

/-- A number of bn.js. `length` is that of the words. -/
structure BN where
  negative : Bool
  words : List ℕ
  deriving DecidableEq

namespace BN

/-! ## The words -/

/-- The loop of `strip`. -/
def stripWords : List ℕ → List ℕ
  | [] => []
  | w :: ws => w :: ws.rdropWhile (· == 0)

/-- `strip`, with `_normSign`: there is no `-0`. -/
def strip (a : BN) : BN :=
  let words := stripWords a.words
  ⟨a.negative && words != [0], words⟩

/-- `_expand`. -/
def expand (words : List ℕ) (size : ℕ) : List ℕ :=
  words ++ List.replicate (size - words.length) 0

/-- The loop of `_initArray` and of `_parseHex`: chunks of 24 bits, the lowest
first, are put into the words. The word behind the `j`-th is still 0, and
whether it is set or joined comes to the same. -/
def pack : List ℕ → List ℕ → ℕ → ℕ → List ℕ
  | words, [], _, _ => words
  | words, w :: chunks, j, off =>
    let words := words.modify j (· ||| ((w <<< off) % 0x4000000))
    let words := words.modify (j + 1) (· ||| ((w >>> (26 - off)) % 0x4000000))
    if 26 ≤ off + 24 then pack words chunks (j + 1) (off + 24 - 26)
    else pack words chunks j (off + 24)

/-- Three bytes at a time, from the last. -/
def byteChunks : List UInt8 → List ℕ
  | a :: b :: c :: rest =>
    (a.toNat ||| (b.toNat <<< 8) ||| (c.toNat <<< 16)) :: byteChunks rest
  | [a, b] => [a.toNat ||| (b.toNat <<< 8)]
  | [a] => [a.toNat]
  | [] => []

/-- `_initArray`, of a buffer: `new BN(bytes)`. -/
def initArray (number : List UInt8) : BN :=
  if number = [] then ⟨false, [0]⟩
  else
    let chunks := byteChunks number.reverse
    strip ⟨false, pack (List.replicate chunks.length 0) chunks 0 0⟩

/-- `parseHex`. -/
def parseHex (str : Units) : ℕ := str.foldl (fun r u => (r <<< 4) ||| digitValue u) 0

/-- `_parseHex`, of the digits. -/
def parseHexWords (number : Units) : List ℕ :=
  let chunks := (groupsOf 6 number.reverse).map fun group => parseHex group.reverse
  stripWords (pack (List.replicate chunks.length 0) chunks 0 0)

/-- `imuln`, from a carry on. -/
def mulWords (num : ℕ) : ℕ → List ℕ → List ℕ
  | carry, [] => if carry ≠ 0 then [carry] else []
  | carry, word :: words =>
    let w := word * num
    let lo := w % 0x4000000 + carry % 0x4000000
    lo % 0x4000000 :: mulWords num (carry / 0x4000000 + w / 0x4000000 + lo / 0x4000000) words

/-- The carry of `_iaddn`, from a word on. -/
def carryWords (w : ℕ) : List ℕ → List ℕ
  | [] => if 0x4000000 ≤ w then [w - 0x4000000, 1] else [w]
  | v :: words =>
    if 0x4000000 ≤ w then (w - 0x4000000) :: carryWords (v + 1) words else w :: v :: words

/-- `_iaddn`. -/
def addWord (num : ℕ) : List ℕ → List ℕ
  | [] => []
  | w :: words => carryWords (w + num) words

/-- `parseBase`, in base 10. -/
def parseBase (str : Units) : ℕ := str.foldl (fun r u => r * 10 + digitValue u) 0

/-- `_parseBase`, in base 10, of the digits: a word has room for seven. What is
left at the end is multiplied in by its own power. -/
def parseBaseWords (number : Units) : List ℕ :=
  (groupsOf 7 number).foldl
    (fun words group => addWord (parseBase group) (mulWords (10 ^ group.length) 0 words)) [0]

/-- `new BN(text, base)`, for base 10 and 16. -/
def ofText (text : Units) (base : ℕ) : BN :=
  let negative := text.head? = some (unit '-')
  let digits := if negative then text.tail else text
  strip ⟨negative, if base = 16 then parseHexWords digits else parseBaseWords digits⟩

/-- `modn`, from the highest word. -/
def modn (num : ℕ) (words : List ℕ) : ℕ :=
  words.reverse.foldl (fun acc word => (2 ^ 26 % num * acc + word) % num) 0

/-- `idivn`, with the carry that is left. -/
def divWords (num : ℕ) : List ℕ → List ℕ × ℕ
  | [] => ([], 0)
  | word :: words =>
    let (quotients, carry) := divWords num words
    let w := word + carry * 0x4000000
    (w / num :: quotients, w % num)

/-- `idivn`. -/
def idivn (num : ℕ) (words : List ℕ) : List ℕ := stripWords (divWords num words).1

/-- The loop of `toString`, in base 10: seven digits at a time. -/
def decimalGroups : ℕ → List ℕ → Units → Units
  | 0, _, out => out
  | fuel + 1, c, out =>
    if c = [0] then out
    else
      let r := decimal (modn 10000000 c)
      let c := idivn 10000000 c
      if c = [0] then decimalGroups fuel c (r ++ out)
      else decimalGroups fuel c (List.replicate (7 - r.length) (unit '0') ++ r ++ out)

/-- `toString(10)`. A round takes 23 bits, and a word has 26. -/
def toText (a : BN) : Units :=
  let out := decimalGroups (2 * a.words.length) a.words []
  let out := if a.words = [0] then unit '0' :: out else out
  if a.negative then unit '-' :: out else out

/-- `toNumber`, of a number that is not negative. `none` is the failed
assertion. -/
def toNumber (a : BN) : Option ℕ :=
  match a.words with
  | [w] => some w
  | [w, v] => some (w + v * 0x4000000)
  | [w, v, 1] => some (w + (0x10000000000000 + v * 0x4000000))
  | _ => none

/-! ## Bits -/

/-- `bitLength`. -/
def bitLength (words : List ℕ) : ℕ :=
  (words.length - 1) * 26 + (words.getLastD 0).size

/-- `byteLength`. -/
def byteLength (words : List ℕ) : ℕ := (bitLength words + 7) / 8

/-- The loop of `iushrn`, with the carry that is left: `r` bits, from the
highest word. -/
def shiftWords (r : ℕ) : List ℕ → List ℕ × ℕ
  | [] => ([], 0)
  | word :: words =>
    let (shifted, carry) := shiftWords r words
    (((carry <<< (26 - r)) ||| (word >>> r)) :: shifted, word % 2 ^ r)

/-- `iushrn`. -/
def iushrn (bits : ℕ) (words : List ℕ) : List ℕ :=
  let r := bits % 26
  let s := min (bits / 26) words.length
  let words := if s < words.length then words.drop s else [0]
  stripWords (shiftWords r words).1

/-- The loop of `toArrayLike`: the bytes, from the lowest. -/
def bytesOf : ℕ → List ℕ → List UInt8
  | 0, _ => []
  | fuel + 1, q =>
    if q = [0] then []
    else .ofNat (q.headD 0 &&& 0xff) :: bytesOf fuel (iushrn 8 q)

/-- `toArrayLike(Buffer, 'be', reqLength)`, of a number that is stripped. `none`
is a failed assertion. -/
def toArrayLike (a : BN) (reqLength : ℕ) : Option (List UInt8) :=
  if reqLength < byteLength a.words then none
  else
    let bytes := bytesOf (4 * a.words.length) a.words
    some (List.replicate (reqLength - bytes.length) 0 ++ bytes.reverse)

/-- `testn`. -/
def testn (a : BN) (bit : ℕ) : Bool :=
  match a.words[bit / 26]? with
  | none => false
  | some w => (w &&& (1 <<< (bit % 26))) != 0

/-- `inotn`: whole words, and what is left of the width. -/
def inotn (a : BN) (width : ℕ) : BN :=
  let words := expand a.words ((width + 25) / 26)
  let words := (words.take (width / 26)).map (fun w => 0x3ffffff - w % 0x4000000) ++
    words.drop (width / 26)
  let bitsLeft := width % 26
  let words :=
    if 0 < bitsLeft then
      words.modify (width / 26) fun w => (2 ^ bitsLeft - 1) - w % 2 ^ bitsLeft
    else words
  strip ⟨a.negative, words⟩

/-- `iaddn(1)`, of a number that is not negative. -/
def iadd1 (a : BN) : BN := ⟨a.negative, addWord 1 a.words⟩

/-- `ineg`. -/
def ineg (a : BN) : BN := ⟨if a.words = [0] then a.negative else !a.negative, a.words⟩

/-- `toTwos`. -/
def toTwos (a : BN) (width : ℕ) : BN :=
  if a.negative then (inotn ⟨false, a.words⟩ width).iadd1 else a

/-- `fromTwos`. -/
def fromTwos (a : BN) (width : ℕ) : BN :=
  if a.testn (width - 1) then (a.inotn width).iadd1.ineg else a

/-- `maskn`, of a number that is not negative. -/
def maskn (a : BN) (bits : ℕ) : BN :=
  let r := bits % 26
  let s := bits / 26
  if a.words.length ≤ s then a
  else
    let words := a.words.take (if r ≠ 0 then s + 1 else s)
    let words := if r ≠ 0 then words.modify s (· % 2 ^ r) else words
    strip ⟨a.negative, words⟩

/-! ## The integers -/

/-- A natural number's words. -/
def wordsOf (n : ℕ) : List ℕ := if n = 0 then [0] else Nat.digits 0x4000000 n

/-- **An integer**, as bn.js keeps it. -/
def ofInt (n : ℤ) : BN := ⟨decide (n < 0), wordsOf n.natAbs⟩

/-- The integer that is meant. -/
def toInt (a : BN) : ℤ :=
  if a.negative then -(Nat.ofDigits 0x4000000 a.words : ℕ) else (Nat.ofDigits 0x4000000 a.words : ℕ)

/-- `mul`. Which of its algorithms is taken depends on the lengths; what they
compute is the product. -/
def mul (a b : BN) : BN := ofInt (a.toInt * b.toInt)

end BN

end Hmix
