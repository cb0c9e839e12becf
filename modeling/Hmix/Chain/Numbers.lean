import Hmix.Chain.BigNumber
import Hmix.Model.Codec

/-!
# Numbers in words

The number coder writes a word of 32 bytes. What it writes is decided by the
integer that a value stands for, and nothing is ever refused for its size: an integer
that does not fit its type wraps, and `wrapped` is what is read of the word.
-/

namespace Hmix

open Buffer BN

/-! ## Slices -/

/-- Data in which an offset is an integer of 32 bits. -/
def Fits (data : Bytes) : Prop := data.length < 0x80000000

theorem toInt32_of_lt {n : ℕ} (h : n < 0x80000000) : toInt32 n = n := by
  have hsmall (m : ℕ) (hm : 2 * n < m) : Int.bmod n m = n := by
    rw [Int.bmod_def, Int.emod_eq_of_lt (by omega) (by omega), if_pos (by omega)]
  exact hsmall _ (by omega)

/-- `slice`, where both ends are small. -/
theorem slice_eq {data : Bytes} {start stop : ℕ} (hstart : start ≤ stop)
    (hstop : stop < 0x80000000) :
    slice data start stop = (data.take stop).drop start := by
  rw [slice, toInt32_of_lt hstop, toInt32_of_lt (by omega)]
  simp only [show ¬ ((start : ℕ) : ℤ) < 0 by omega, show ¬ ((stop : ℕ) : ℤ) < 0 by omega, if_false]
  rcases Nat.le_total data.length start with h | h
  · rw [List.drop_eq_nil_of_le, List.drop_eq_nil_of_le]
    · rw [List.length_take]
      omega
    · rw [List.length_take]
      omega
  · rw [show (min (start : ℤ) data.length).toNat = start by omega]
    rcases Nat.le_total data.length stop with h' | h'
    · rw [List.take_of_length_le h', List.take_of_length_le]
      omega
    · rw [show (max start (min (stop : ℤ) data.length).toNat) = stop by omega]

/-- What stands between is what is cut out. -/
theorem slice_append {before bytes behind : Bytes} (h : Fits (before ++ bytes ++ behind))
    {start stop : ℕ} (hstart : start = before.length)
    (hstop : stop = before.length + bytes.length) :
    slice (before ++ bytes ++ behind) start stop = bytes := by
  unfold Fits at h
  simp only [List.length_append] at h
  subst hstart hstop
  rw [slice_eq (by omega) (by omega), List.append_assoc, List.take_length_add_append,
    List.drop_left, List.take_left]

/-! ## The number coder -/

/-- What an integer is in a word, of `size` bytes of it. -/
def wordOf (size : ℕ) (signed : Bool) (n : ℤ) : ℕ :=
  if signed then (Int.bmod n (2 ^ (size * 8)) % (2 ^ 256 : ℕ)).toNat
  else (n % (2 ^ (size * 8) : ℕ)).toNat

/-- **What is read of the word.** -/
def wrapped (size : ℕ) (signed : Bool) (n : ℤ) : ℤ :=
  if signed then Int.bmod n (2 ^ (size * 8)) else n % (2 ^ (size * 8) : ℕ)

/-- A size that a type may have. -/
def Sized (size : ℕ) : Prop := 0 < size ∧ size ≤ 32

theorem numberToBN_eq {arg : Units} {b : BN} (h : numberToBN arg = .ok b) : b = ofInt b.toInt := by
  unfold numberToBN at h
  dsimp only at h
  split at h
  · cases h
    simp only [mul, toInt_ofInt]
  · cases h

/-- What a value stands for is an integer. -/
theorem toBN_eq {value : AbiValue} {b : BN} (h : value.toBN = .ok b) : b = ofInt b.toInt := by
  unfold AbiValue.toBN at h
  split at h
  · exact numberToBN_eq h
  · exact numberToBN_eq h
  · exact numberToBN_eq h
  · cases h
  · cases h

section

variable {size : ℕ}

theorem Sized.le_pow (h : Sized size) : 2 ^ (size * 8) ≤ 2 ^ 256 :=
  Nat.pow_le_pow_right (by norm_num) (by have := h.2; omega)

/-- The wrapped integer is not larger than the type. -/
theorem natAbs_bmod_lt (h : Sized size) (n : ℤ) :
    (Int.bmod n (2 ^ (size * 8))).natAbs < 2 ^ 256 := by
  have hpos : 0 < 2 ^ (size * 8) := by positivity
  have hlow := Int.le_bmod (x := n) hpos
  have hhigh := Int.bmod_lt (x := n) hpos
  have hle := h.le_pow
  generalize 2 ^ (size * 8) = m at hpos hlow hhigh hle ⊢
  omega

theorem wordOf_lt (h : Sized size) (signed : Bool) (n : ℤ) : wordOf size signed n < 2 ^ 256 := by
  have hle := h.le_pow
  unfold wordOf
  split_ifs
  · have := Int.emod_lt_of_pos (Int.bmod n (2 ^ (size * 8)))
      (show (0 : ℤ) < (2 ^ 256 : ℕ) by positivity)
    have := Int.emod_nonneg (Int.bmod n (2 ^ (size * 8)))
      (show ((2 ^ 256 : ℕ) : ℤ) ≠ 0 by positivity)
    omega
  · have := Int.emod_lt_of_pos n (show (0 : ℤ) < (2 ^ (size * 8) : ℕ) by positivity)
    have := Int.emod_nonneg n (show ((2 ^ (size * 8) : ℕ) : ℤ) ≠ 0 by positivity)
    omega

/-- An integer's remainder is a natural number. -/
theorem exists_emod_eq (n : ℤ) {m : ℕ} (hm : 0 < m) : ∃ k : ℕ, n % m = k ∧ k < m := by
  have := Int.emod_lt_of_pos n (show (0 : ℤ) < m by omega)
  have := Int.emod_nonneg n (show (m : ℤ) ≠ 0 by omega)
  exact ⟨(n % m).toNat, by omega, by omega⟩

/-- **The number coder writes the integer's word.** -/
theorem encodeNumber_eq (hsize : Sized size) (signed : Bool) (value : AbiValue) :
    encodeNumber size signed value =
      value.toBN.map fun b => toBytes 32 (wordOf size signed b.toInt) := by
  have hwidth : 0 < size * 8 := by have := hsize.1; omega
  have hpow : (256 : ℕ) ^ 32 = 2 ^ 256 := by norm_num
  rw [encodeNumber]
  cases hb : value.toBN with
  | error e => rfl
  | ok b =>
    obtain ⟨n, rfl⟩ : ∃ n, b = ofInt n := ⟨_, toBN_eq hb⟩
    have hword := wordOf_lt hsize signed n
    simp only [ok_bind, maskn_toTwos_ofInt _ hwidth, Except.map, toInt_ofInt]
    have hvalue : (if signed then
        ((ofInt (n % (2 ^ (size * 8) : ℕ))).fromTwos (size * 8)).toTwos 256
        else ofInt (n % (2 ^ (size * 8) : ℕ))) = ofInt (wordOf size signed n : ℕ) := by
      unfold wordOf
      obtain ⟨k, hk, hlt⟩ := exists_emod_eq n (m := 2 ^ (size * 8)) (by positivity)
      split_ifs
      · rw [hk, fromTwos_ofInt hwidth hlt, ← hk, Int.emod_bmod,
          toTwos_ofInt (by norm_num) (natAbs_bmod_lt hsize n)]
        congr 1
        have := Int.emod_nonneg (Int.bmod n (2 ^ (size * 8)))
          (show ((2 ^ 256 : ℕ) : ℤ) ≠ 0 by positivity)
        omega
      · rw [hk]
        rfl
    rw [hvalue, toArrayLike_ofInt, hpow, if_pos hword]
    rfl

/-- The last bytes of a word are its remainder. -/
theorem byteValue_drop {bytes : Bytes} (k : ℕ) (h : k ≤ bytes.length) :
    byteValue (bytes.drop (bytes.length - k)) = byteValue bytes % 256 ^ k := by
  have hsplit := @byteValue_append (bytes.take (bytes.length - k)) (bytes.drop (bytes.length - k))
  have hlength : (bytes.drop (bytes.length - k)).length = k := by
    rw [List.length_drop]
    omega
  have hlt := byteValue_lt (bytes.drop (bytes.length - k))
  rw [List.take_append_drop, hlength] at hsplit
  rw [hlength] at hlt
  rw [hsplit, Nat.mul_comm, Nat.mul_add_mod, Nat.mod_eq_of_lt hlt]

/-- **The number coder reads a word**, of which it takes the last bytes. -/
theorem decodeNumber_eq (hsize : Sized size) (signed : Bool) {before bytes behind : Bytes}
    (hlength : bytes.length = 32) (hfits : Fits (before ++ bytes ++ behind)) :
    decodeNumber size signed (before ++ bytes ++ behind) before.length =
      (ofInt (wrapped size signed (byteValue bytes)), 32) := by
  have hwidth : 0 < size * 8 := by have := hsize.1; omega
  have hle := hsize.2
  have hpow : (256 : ℕ) ^ size = 2 ^ (size * 8) := by
    rw [show 256 = 2 ^ 8 by norm_num, ← pow_mul, Nat.mul_comm]
  -- the junk is passed over
  have hslice : slice (before ++ bytes ++ behind) (before.length + (32 - size))
      (before.length + 32) = bytes.drop (bytes.length - size) := by
    have hsplit : before ++ bytes ++ behind =
        (before ++ bytes.take (bytes.length - size)) ++ bytes.drop (bytes.length - size) ++
          behind := by
      rw [List.append_assoc before (bytes.take _), List.take_append_drop]
    rw [hsplit] at hfits ⊢
    refine slice_append hfits ?_ ?_
    · rw [List.length_append, List.length_take]
      omega
    · rw [List.length_append, List.length_take, List.length_drop]
      omega
  obtain ⟨k, hk⟩ : ∃ k, k = byteValue bytes % 2 ^ (size * 8) := ⟨_, rfl⟩
  have hlt : k < 2 ^ (size * 8) := by
    rw [hk]
    exact Nat.mod_lt _ (by positivity)
  have hvalue : (if signed then (ofInt k).fromTwos (size * 8) else (ofInt k).maskn (size * 8)) =
      ofInt (wrapped size signed (byteValue bytes)) := by
    unfold wrapped
    split_ifs
    · rw [fromTwos_ofInt hwidth hlt, hk, Int.natCast_mod, Int.emod_bmod]
    · rw [maskn_ofInt _ hwidth, Nat.mod_eq_of_lt hlt, hk, Int.natCast_mod]
  rw [decodeNumber]
  rw [hslice, initArray_eq, byteValue_drop _ (by omega), hpow, ← hk, hvalue, ofText_toText]

/-- A word stands for what its integer wraps to. -/
theorem wrapped_wordOf (hsize : Sized size) (signed : Bool) (n : ℤ) :
    wrapped size signed (wordOf size signed n) = wrapped size signed n := by
  have hdvd : ((2 ^ (size * 8) : ℕ) : ℤ) ∣ (2 ^ 256 : ℕ) := by
    have := hsize.2
    exact Int.natCast_dvd_natCast.2 (pow_dvd_pow 2 (by omega))
  unfold wrapped wordOf
  split_ifs
  · obtain ⟨k, hk, -⟩ := exists_emod_eq (Int.bmod n (2 ^ (size * 8))) (m := 2 ^ 256)
      (by positivity)
    rw [hk, Int.toNat_natCast, ← hk, ← Int.emod_bmod, Int.emod_emod_of_dvd _ hdvd, Int.emod_bmod,
      Int.bmod_bmod]
  · obtain ⟨k, hk, hlt⟩ := exists_emod_eq n (m := 2 ^ (size * 8)) (by positivity)
    rw [hk, Int.toNat_natCast, Int.emod_eq_of_lt (by omega) (by omega)]

end

/-! ## Numbers in texts -/

/-- A number as it may be written: with a sign, with a prefix, and its digits. -/
def spelled (negative prefixed : Bool) (digits : Units) : Units :=
  (if negative then [unit '-'] else []) ++ (if prefixed then hexPrefix else []) ++ digits

/-- **In which base the digits are read.** Without a prefix it is for the digits to tell. -/
def spelledBase (prefixed : Bool) (digits : Units) : ℕ :=
  if prefixed || !digits.all isDecimal then 16 else 10

/-- The integer that is written. -/
def spelledValue (negative prefixed : Bool) (digits : Units) : ℤ :=
  (if negative then -1 else 1) * textValue (spelledBase prefixed digits) digits

theorem isDecimal_iff {u : UInt16} : isDecimal u ↔ 48 ≤ u.toNat ∧ u.toNat ≤ 57 := by
  rw [isDecimal, Bool.and_eq_true, decide_eq_true_eq, decide_eq_true_eq, UInt16.le_iff_toNat_le,
    UInt16.le_iff_toNat_le]
  rfl

theorem isLetter_iff {u : UInt16} :
    isLetter u ↔ (97 ≤ u.toNat ∧ u.toNat ≤ 102) ∨ (65 ≤ u.toNat ∧ u.toNat ≤ 70) := by
  simp only [isLetter, Bool.or_eq_true, Bool.and_eq_true, decide_eq_true_eq,
    UInt16.le_iff_toNat_le]
  rfl

/-- A code unit that may stand in a number. What holds of each is evaluated. -/
theorem spelled_unit {u : UInt16} (h : isHex u ∨ u = unit '-' ∨ u = unit 'x') :
    u.toNat < 128 := by
  rcases h with h | rfl | rfl
  · rw [isHex, Bool.or_eq_true, isDecimal_iff, isLetter_iff] at h
    omega
  · decide
  · decide

theorem isSpace_spelled {u : UInt16} (h : isHex u ∨ u = unit '-' ∨ u = unit 'x') :
    isSpace u = false := by
  have hall : ∀ n < 128, isHex (.ofNat n) ∨ UInt16.ofNat n = unit '-' ∨
      UInt16.ofNat n = unit 'x' → isSpace (.ofNat n) = false := by decide +kernel
  have := hall u.toNat (spelled_unit h)
  rw [UInt16.ofNat_toNat] at this
  exact this h

/-- `toLowerCase` leaves a digit the digit it is. -/
theorem lower_digit {u : UInt16} (h : isHex u) :
    isHex (lower u) ∧ isDecimal (lower u) = isDecimal u ∧ digitValue (lower u) = digitValue u ∧
      unit '0' ≤ lower u ∧ digitValue u < 16 := by
  have hall : ∀ n < 128, isHex (.ofNat n) → isHex (lower (.ofNat n)) ∧
      isDecimal (lower (.ofNat n)) = isDecimal (.ofNat n) ∧
      digitValue (lower (.ofNat n)) = digitValue (.ofNat n) ∧ unit '0' ≤ lower (.ofNat n) ∧
      digitValue (.ofNat n) < 16 := by decide +kernel
  have := hall u.toNat (spelled_unit (.inl h))
  rw [UInt16.ofNat_toNat] at this
  exact this h

/-- A decimal digit is one of base 10. -/
theorem digits_of_isDecimal {text : Units} (h : text.all isDecimal) : Numerals 10 text := by
  have hall : ∀ n < 128, isDecimal (.ofNat n) → unit '0' ≤ .ofNat n ∧
      digitValue (.ofNat n) < 10 := by decide +kernel
  intro u hu
  have hu := List.all_eq_true.1 h u hu
  have := hall u.toNat (by rw [isDecimal_iff] at hu; omega)
  rw [UInt16.ofNat_toNat] at this
  exact this hu

theorem trim_eq {text : Units} (h : ∀ u ∈ text, isSpace u = false) : trim text = text := by
  rw [trim, List.dropWhile_eq_self_iff.2, List.rdropWhile_eq_self_iff.2]
  · intro hne
    rw [h _ (List.getLast_mem hne)]
    simp
  · intro hlength
    rw [h _ (List.getElem_mem hlength)]
    simp

section

variable {digits : Units}

/-- What begins with another character is not made of digits. -/
theorem take_ne_of_digits {k : ℕ} {text : Units} {u : UInt16} (h : digits.all isHex)
    (hu : u ∈ text) (hhex : isHex u = false) : digits.take k ≠ text := by
  rintro rfl
  have := List.all_eq_true.1 h _ (List.mem_of_mem_take hu)
  rw [hhex] at this
  cases this

theorem stripHexPrefix_digits (h : digits.all isHex) : stripHexPrefix digits = digits :=
  if_neg (take_ne_of_digits h (u := unit 'x') (by decide) (by decide))

theorem stripHexPrefix_prefixed : stripHexPrefix (hexPrefix ++ digits) = digits := by
  rw [stripHexPrefix, if_pos (by rfl)]
  rfl

/-- What is in front of the digits is found. -/
theorem numberText_spelled (negative prefixed : Bool) (hne : digits ≠ [])
    (h : digits.all isHex) :
    numberText (spelled negative prefixed digits) = ⟨prefixed, negative, digits.map lower⟩ := by
  have hlower : (digits.map lower).all isHex := by
    rw [List.all_map, List.all_eq_true]
    exact fun u hu => (lower_digit (List.all_eq_true.1 h u hu)).1
  have hlowerNe : digits.map lower ≠ [] := by simpa using hne
  have hmap : (spelled negative prefixed digits).map lower =
      spelled negative prefixed (digits.map lower) := by
    cases negative <;> cases prefixed <;> rfl
  have hspaces : ∀ u ∈ spelled negative prefixed (digits.map lower), isSpace u = false := by
    intro u hu
    simp only [spelled, List.mem_append] at hu
    rcases hu with (hu | hu) | hu
    · split_ifs at hu
      · exact isSpace_spelled (.inr (.inl (List.mem_singleton.1 hu)))
      · simp at hu
    · split_ifs at hu
      · simp only [hexPrefix, List.mem_cons, List.not_mem_nil, or_false] at hu
        rcases hu with rfl | rfl
        · decide
        · decide
      · simp at hu
    · exact isSpace_spelled (.inl (List.all_eq_true.1 hlower u hu))
  unfold numberText
  rw [hmap, trim_eq hspaces]
  generalize digits.map lower = digits at hlower hlowerNe
  have hstrip := stripHexPrefix_digits hlower
  have hsign : digits.take 1 ≠ [unit '-'] :=
    take_ne_of_digits hlower (u := unit '-') (by decide) (by decide)
  have htwo : digits.take 2 ≠ hexPrefix :=
    take_ne_of_digits hlower (u := unit 'x') (by decide) (by decide)
  have hthree : digits.take 3 ≠ unit '-' :: hexPrefix :=
    take_ne_of_digits hlower (u := unit 'x') (by decide) (by decide)
  have hminus (text : Units) : stripHexPrefix (unit '-' :: text) = unit '-' :: text :=
    if_neg fun hlist => absurd (List.cons.inj hlist).1 (by decide)
  have hother (text : Units) : (unit '-' :: text).take 2 ≠ hexPrefix :=
    fun hlist => absurd (List.cons.inj hlist).1 (by decide)
  cases negative <;> cases prefixed
  · rw [show spelled false false digits = digits from rfl]
    simp only [hstrip, hsign, htwo, hthree, hlowerNe, decide_false, if_false, or_self]
  · rw [show spelled false true digits = hexPrefix ++ digits from rfl]
    simp only [stripHexPrefix_prefixed, hsign, hlowerNe, decide_false, if_false]
    rfl
  · rw [show spelled true false digits = unit '-' :: digits from rfl]
    simp only [hminus, List.take_succ_cons, List.take_zero, List.drop_succ_cons, List.drop_zero,
      decide_true, hstrip, hlowerNe, if_true, if_false, List.cons.injEq, true_and, htwo, or_false]
    rfl
  · rw [show spelled true true digits = unit '-' :: (hexPrefix ++ digits) from rfl]
    simp only [hminus, List.take_succ_cons, List.take_zero, List.drop_succ_cons, List.drop_zero,
      decide_true, stripHexPrefix_prefixed, hlowerNe, if_true, if_false]
    rfl

/-- **`numberToBN` reads what is written.** Without a prefix, a text with a letter in it is
hexadecimal all the same. -/
theorem numberToBN_spelled (negative prefixed : Bool) (hne : digits ≠ [])
    (h : digits.all isHex) :
    numberToBN (spelled negative prefixed digits) =
      .ok (ofInt (spelledValue negative prefixed digits)) := by
  have hlower (u : UInt16) (hu : u ∈ digits) := lower_digit (List.all_eq_true.1 h u hu)
  have hhex : (digits.map lower).all isHex := by
    rw [List.all_map, List.all_eq_true]
    exact fun u hu => (hlower u hu).1
  have hdecimal : (digits.map lower).all isDecimal = digits.all isDecimal := by
    rw [Bool.eq_iff_iff, List.all_map, List.all_eq_true, List.all_eq_true]
    exact forall₂_congr fun u hu => by rw [Function.comp, (hlower u hu).2.1]
  have hempty : (digits.map lower).isEmpty = false := by simpa using hne
  have hsign : (digits.map lower).head? ≠ some (unit '-') := by
    intro hhead
    have := List.all_eq_true.1 hhex _ (List.mem_of_mem_head? hhead)
    exact absurd this (by decide)
  have hvalue (b : ℕ) : textValue b (digits.map lower) = textValue b digits := by
    rw [textValue, textValue, List.map_map]
    congr 2
    exact List.map_congr_left fun u hu => (hlower u hu).2.2.1
  have hdigits : Numerals 16 (digits.map lower) := by
    intro u hu
    obtain ⟨v, hv, rfl⟩ := List.mem_map.1 hu
    obtain ⟨-, -, hsame, hge, hlt⟩ := hlower v hv
    exact ⟨hge, hsame ▸ hlt⟩
  have hinteger : isInteger (digits.map lower) = digits.all isDecimal := by
    rw [isInteger, if_neg hsign, hempty, hdecimal]
    rfl
  -- letters alone are no integer
  have hletters (hall : (digits.map lower).all isLetter) : digits.all isDecimal = false := by
    obtain ⟨u, rest, rfl⟩ := List.exists_cons_of_ne_nil hne
    have hu := List.all_eq_true.1 hall (lower u) (by simp)
    rw [isLetter_iff] at hu
    rw [List.all_cons, ← (hlower u (by simp)).2.1, Bool.and_eq_false_iff]
    left
    rw [← Bool.not_eq_true, isDecimal_iff]
    omega
  have hbase : (NumberText.mk prefixed negative (digits.map lower)).base =
      some (spelledBase prefixed digits) := by
    unfold NumberText.base spelledBase
    simp only [hinteger, hhex, hempty, Bool.not_false, Bool.and_true]
    cases hall : digits.all isDecimal
    · simp
    · cases hl : (digits.map lower).all isLetter
      · cases prefixed <;> simp
      · rw [hletters hl] at hall
        cases hall
  have hnumber : BN.ofText (digits.map lower) (spelledBase prefixed digits) =
      ofInt (textValue (spelledBase prefixed digits) digits) := by
    unfold spelledBase
    split_ifs with hor
    · rw [ofText_hex (by simpa using hne) hdigits, hvalue]
    · rw [Bool.or_eq_true, not_or, Bool.not_eq_true', Bool.not_eq_false] at hor
      rw [ofText_decimal (digits_of_isDecimal (hdecimal.trans hor.2)), hvalue]
  unfold numberToBN
  simp only [numberText_spelled negative prefixed hne h, hbase, hnumber, mul, toInt_ofInt]
  rw [spelledValue, Int.mul_comm]
  rfl

/-- What is behind a point is cut off. -/
theorem beforePoint_append {text behind : Units} (h : unit '.' ∉ text)
    (hbehind : behind = [] ∨ behind.head? = some (unit '.')) :
    beforePoint (text ++ behind) = text := by
  rw [beforePoint, List.takeWhile_append_of_pos]
  · rcases hbehind with rfl | hhead
    · simp
    · obtain ⟨rest, rfl⟩ := List.head?_eq_some_iff.1 hhead
      simp
  · intro u hu
    simpa using fun (heq : u = unit '.') => h (heq ▸ hu)

theorem point_notMem_spelled (negative prefixed : Bool) (h : digits.all isHex) :
    unit '.' ∉ spelled negative prefixed digits := by
  intro hmem
  simp only [spelled, List.mem_append] at hmem
  rcases hmem with (hmem | hmem) | hmem
  · split_ifs at hmem <;> exact absurd hmem (by decide)
  · split_ifs at hmem <;> exact absurd hmem (by decide)
  · exact absurd (List.all_eq_true.1 h _ hmem) (by decide)

/-- Of a text, the number coder takes the integer that is written before the point. -/
theorem toBN_text (negative prefixed : Bool) (hne : digits ≠ []) (h : digits.all isHex)
    {behind : Units} (hbehind : behind = [] ∨ behind.head? = some (unit '.')) :
    AbiValue.toBN (.text (spelled negative prefixed digits ++ behind)) =
      .ok (ofInt (spelledValue negative prefixed digits)) := by
  rw [AbiValue.toBN, beforePoint_append (point_notMem_spelled negative prefixed h) hbehind,
    numberToBN_spelled negative prefixed hne h]

end

/-- `String(n)` is decimal digits. -/
theorem decimal_spelled (n : ℕ) : decimal n ≠ [] ∧ (decimal n).all isDecimal := by
  obtain ⟨hdigits, hvalue⟩ := decimal_spec n
  constructor
  · intro hnil
    rw [hnil] at hvalue
    subst hvalue
    revert hnil
    decide
  · rw [List.all_eq_true]
    intro u hu
    obtain ⟨hge, hlt⟩ := hdigits u hu
    rw [isDecimal_iff]
    rw [UInt16.le_iff_toNat_le, show (unit '0').toNat = 48 from rfl] at hge
    unfold digitValue at hlt
    split_ifs at hlt <;> omega

/-- The text of an integer is read as that integer. -/
theorem numberToBN_decimal (negative : Bool) (n : ℕ) :
    numberToBN (spelled negative false (decimal n)) =
      .ok (ofInt ((if negative then -1 else 1) * n)) := by
  obtain ⟨hne, hall⟩ := decimal_spelled n
  have hhex : (decimal n).all isHex := by
    rw [List.all_eq_true] at hall ⊢
    exact fun u hu => by rw [isHex, hall u hu, Bool.true_or]
  rw [numberToBN_spelled negative false hne hhex, spelledValue, spelledBase, hall]
  simp only [Bool.not_true, Bool.or_self, Bool.false_eq_true, if_false, (decimal_spec n).2]

theorem beforePoint_decimal (negative : Bool) (n : ℕ) :
    beforePoint (spelled negative false (decimal n)) = spelled negative false (decimal n) := by
  have hhex : (decimal n).all isHex := by
    have hall := (decimal_spelled n).2
    rw [List.all_eq_true] at hall ⊢
    exact fun u hu => by rw [isHex, hall u hu, Bool.true_or]
  simpa using beforePoint_append (point_notMem_spelled negative false hhex) (Or.inl rfl)

theorem toBN_number (n : ℕ) : AbiValue.toBN (.number n) = .ok (ofInt n) := by
  have hpoint := beforePoint_decimal false n
  have hnumber := numberToBN_decimal false n
  rw [show spelled false false (decimal n) = decimal n from rfl] at hpoint hnumber
  rw [AbiValue.toBN, hpoint, hnumber]
  simp

theorem toBN_bn (n : ℤ) : AbiValue.toBN (.bn (ofInt n)) = .ok (ofInt n) := by
  have htext : (ofInt n).toText = spelled (n < 0) false (decimal n.natAbs) := by
    rw [toText_ofInt]
    by_cases h : n < 0
    · simp [spelled, h]
    · simp [spelled, h]
  rw [AbiValue.toBN, htext, beforePoint_decimal, numberToBN_decimal]
  congr 2
  by_cases h : n < 0
  · simp only [h, decide_true, if_true]
    omega
  · simp only [h, decide_false, Bool.false_eq_true, if_false]
    omega

/-! ## Lengths and offsets -/

theorem encodeLength_eq (n : ℕ) : encodeLength n = .ok (toBytes 32 (n % 2 ^ 256)) := by
  rw [encodeLength, encodeNumber_eq ⟨by norm_num, by norm_num⟩, toBN_number]
  simp only [Except.map, toInt_ofInt, wordOf, Bool.false_eq_true, if_false]
  congr 2

/-- A natural number that fits a word is itself. -/
theorem wrapped_nat {n : ℕ} (h : n < 2 ^ 256) : wrapped 32 false n = n := by
  rw [wrapped, if_neg (by simp), ← Int.natCast_emod, show 32 * 8 = 256 from rfl,
    Nat.mod_eq_of_lt h]

/-- **A length is read**, if it is a number that JavaScript can tell. -/
theorem reads_length {bytes : Bytes} (hlength : bytes.length = 32)
    (h : byteValue bytes < 2 ^ 53) : Reads Fits decodeLength bytes (byteValue bytes) := by
  intro before behind hfits
  have hdecode := decodeNumber_eq (⟨by norm_num, by norm_num⟩ : Sized 32) false hlength hfits
  rw [wrapped_nat (h.trans (by norm_num))] at hdecode
  have hnumber : (ofInt (byteValue bytes)).toNumber = some (byteValue bytes) := by
    rw [toNumber_ofInt, if_pos h]
  rw [decodeLength, hdecode, hlength, lengthOf]
  simp only [hnumber]
  rfl

end Hmix
