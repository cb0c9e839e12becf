import Hmix.Chain.Layout
import Hmix.Chain.Utf8

/-!
# What is read is what is kept

A value that has been written and read is not always the one that was given. But it
is what is read when it is written again: the second round trip changes nothing. Of a
text that is a number there is the integer it writes, modulo the range of its type; of one
that is hexadecimal there are its digits, in lower case and as many as make whole bytes.
-/

namespace Hmix

open Buffer BN

/-! ## Hexadecimal text -/

theorem hexSlice_cons (b : UInt8) (bytes : Bytes) :
    hexSlice (b :: bytes) =
      digitUnit (b.toNat / 16) :: digitUnit (b.toNat % 16) :: hexSlice bytes := rfl

theorem length_hexSlice (bytes : Bytes) : (hexSlice bytes).length = 2 * bytes.length := by
  induction bytes with
  | nil => rfl
  | cons b bytes ih =>
    rw [hexSlice_cons, List.length_cons, List.length_cons, List.length_cons, ih]
    omega

theorem isHex_digitUnit {d : ℕ} (h : d < 16) : isHex (digitUnit d) := by
  interval_cases d <;> decide

theorem isHex_hexSlice (bytes : Bytes) : (hexSlice bytes).all isHex := by
  induction bytes with
  | nil => rfl
  | cons b bytes ih =>
    have := b.toNat_lt
    rw [hexSlice_cons, List.all_cons, List.all_cons, ih, isHex_digitUnit (by omega),
      isHex_digitUnit (by omega)]
    rfl

/-- Bytes are what their digits write. -/
theorem hexWrite_hexSlice (bytes : Bytes) : hexWrite (hexSlice bytes) = bytes := by
  induction bytes with
  | nil => rfl
  | cons b bytes ih =>
    have := b.toNat_lt
    rw [hexSlice_cons, hexWrite, ih, digitValue_digitUnit (by omega),
      digitValue_digitUnit (by omega), Nat.mul_comm, Nat.div_add_mod, UInt8.ofNat_toNat]

/-- A digit's value is written in lower case. -/
theorem digitUnit_digitValue {u : UInt16} (h : isHex u) : digitUnit (digitValue u) = lower u := by
  have hall : ∀ n < 128, isHex (.ofNat n) →
      digitUnit (digitValue (.ofNat n)) = lower (.ofNat n) := by decide +kernel
  have := hall u.toNat (spelled_unit (.inl h))
  rw [UInt16.ofNat_toNat] at this
  exact this h

/-- Digits in pairs are what their bytes are written in, but for the case. -/
theorem hexSlice_hexWrite {digits : Units} (hhex : digits.all isHex)
    (heven : digits.length % 2 = 0) :
    hexSlice (hexWrite digits) = digits.map lower := by
  fun_induction hexWrite digits with
  | case1 a b rest ih =>
    simp only [List.all_cons, Bool.and_eq_true] at hhex
    obtain ⟨ha, hb, hrest⟩ := hhex
    obtain ⟨-, -, -, -, hlta⟩ := lower_digit ha
    obtain ⟨-, -, -, -, hltb⟩ := lower_digit hb
    have hbyte : (UInt8.ofNat (digitValue a * 16 + digitValue b)).toNat =
        digitValue a * 16 + digitValue b := UInt8.toNat_ofNat_of_lt' (by norm_num; omega)
    rw [hexSlice_cons, hbyte, show (digitValue a * 16 + digitValue b) / 16 = digitValue a by omega,
      show (digitValue a * 16 + digitValue b) % 16 = digitValue b by omega,
      digitUnit_digitValue ha, digitUnit_digitValue hb,
      ih hrest (by simp only [List.length_cons] at heven; omega)]
    rfl
  | case2 digits hshort =>
    rcases digits with _ | ⟨a, _ | ⟨b, rest⟩⟩
    · rfl
    · simp at heven
    · exact (hshort a b rest rfl).elim

/-- **The text of bytes is read as the bytes**, if there is a buffer as large. -/
theorem hexStringToBuffer_text (bytes : Bytes) (msg : Option String) :
    hexStringToBuffer (hexSlice bytes) none msg = createBuffer bytes ∧
      hexStringToBuffer (hexSlice bytes) (some bytes.length) msg = createBuffer bytes := by
  have hlength := length_hexSlice bytes
  have heven : ¬ (hexSlice bytes).length % 2 ≠ 0 := by omega
  have hsize : ¬ (hexSlice bytes).length ≠ bytes.length * 2 := by omega
  constructor <;>
    simp only [hexStringToBuffer, stripHexPrefix_digits (isHex_hexSlice bytes), isHex_hexSlice,
      Bool.not_true, Bool.false_eq_true, if_false, if_neg heven, if_neg hsize, hexWrite_hexSlice]

theorem createBuffer_eq {bytes bs : Bytes} (h : createBuffer bytes = .ok bs) : bs = bytes := by
  unfold createBuffer at h
  split_ifs at h
  cases h
  rfl

theorem createBuffer_fits {bytes : Bytes} (h : Fits bytes) : createBuffer bytes = .ok bytes := by
  unfold Fits at h
  rw [createBuffer, if_neg (by rw [maxLength]; omega)]
  rfl

theorem hexStringToBuffer_hexSlice {bytes : Bytes} (h : Fits bytes) (msg : Option String) :
    hexStringToBuffer (hexSlice bytes) none msg = .ok bytes := by
  rw [(hexStringToBuffer_text bytes msg).1, createBuffer_fits h]

/-! ## What is kept twice -/

theorem wrapped_wrapped (size : ℕ) (signed : Bool) (n : ℤ) :
    wrapped size signed (wrapped size signed n) = wrapped size signed n := by
  unfold wrapped
  split_ifs
  · exact Int.bmod_bmod
  · exact Int.emod_emod_of_dvd n (dvd_refl _)

/-- What is filled up is cut where it was. -/
theorem take_filled {size : ℕ} {bytes : Bytes} (h : bytes.length ≤ size) :
    (filled size bytes).take bytes.length = bytes := by
  rw [filled, List.take_take, Nat.min_eq_left h, List.take_left]

/-- Items that are kept, one by one. -/
theorem mapM_kept_iff {kept : AbiValue → Option AbiValue} {items values : List AbiValue} :
    items.mapM kept = some values ↔
      List.Forall₂ (fun item v => kept item = some v) items values := by
  constructor
  · intro h
    induction items generalizing values with
    | nil =>
      cases h
      exact .nil
    | cons item items ih =>
      simp only [List.mapM_cons, Option.bind_eq_bind, Option.bind_eq_some_iff] at h
      obtain ⟨v, hv, vs, hvs, h⟩ := h
      cases h
      exact .cons hv (ih hvs)
  · exact mapM_kept

/-- **What is kept is kept as it is**, where it can be written. -/
theorem Coder.kept_kept {coder : Coder} (hproper : coder.Proper) {value v : AbiValue} {bs : Bytes}
    (hkept : coder.kept value = some v) (hencode : coder.encode v = .ok bs) :
    coder.kept v = some v := by
  induction coder generalizing value v bs with
  | number size signed =>
    simp only [Coder.kept, Option.bind_eq_bind, Option.bind_eq_some_iff] at hkept
    obtain ⟨b, -, h⟩ := hkept
    cases h
    rw [Coder.kept, toBN_bn, Except.toOption]
    simp only [Option.bind_eq_bind, Option.bind_some, toInt_ofInt, wrapped_wrapped]
    rfl
  | boolean =>
    cases hkept
    rfl
  | fixedBytes length =>
    simp only [Coder.kept, Option.bind_eq_bind, Option.bind_eq_some_iff] at hkept
    obtain ⟨bytes, -, h⟩ := hkept
    cases h
    have hlength : ((filled 32 bytes).take length).length = length := by
      rw [List.length_take, length_filled, Nat.min_eq_left hproper.2]
    have hfits : Fits ((filled 32 bytes).take length) := by
      have := hproper.2
      unfold Fits
      omega
    generalize (filled 32 bytes).take length = cut at hlength hfits hencode ⊢
    have hcut := @take_filled 32 cut (by have := hproper.2; omega)
    rw [hlength] at hcut
    rw [Coder.kept, hexOrBuffer, hexStringToBuffer_hexSlice hfits none, Except.toOption]
    simp only [Option.bind_eq_bind, Option.bind_some, hcut]
    rfl
  | address =>
    cases value with
    | text units =>
      simp only [Coder.kept, Option.bind_eq_bind, Option.bind_eq_some_iff] at hkept
      obtain ⟨bytes, hbytes, h⟩ := hkept
      cases h
      have hlength : bytes.length = 20 := by
        cases hread : hexStringToBuffer units (some 20) none with
        | error e =>
          rw [hread] at hbytes
          cases hbytes
        | ok bytes' =>
          rw [hread] at hbytes
          cases hbytes
          exact hexStringToBuffer_size hread
      have hread := (hexStringToBuffer_text bytes none).2
      rw [hlength, createBuffer_fits (by unfold Fits; omega)] at hread
      rw [Coder.kept, hread]
      rfl
    | _ => cases hkept
  | dynamicBytes =>
    simp only [Coder.kept, Option.bind_eq_bind, Option.bind_eq_some_iff] at hkept
    obtain ⟨bytes, -, h⟩ := hkept
    cases h
    obtain ⟨bytes', hread, -⟩ := of_bind_ok hencode
    have hbuffer := hread
    rw [hexOrBuffer, (hexStringToBuffer_text bytes none).1] at hbuffer
    obtain rfl := createBuffer_eq hbuffer
    rw [Coder.kept, hread]
    rfl
  | string =>
    simp only [Coder.kept, Option.bind_eq_bind, Option.bind_eq_some_iff] at hkept
    obtain ⟨bytes, -, h⟩ := hkept
    cases h
    obtain ⟨bytes', hread, -⟩ := of_bind_ok hencode
    obtain rfl := createBuffer_eq hread
    rw [Coder.kept, hread]
    simp only [Except.toOption, Option.bind_eq_bind, Option.bind_some,
      utf8Slice_of_wellFormed (wellFormed_utf8Slice bytes)]
    rfl
  | array coder length ih =>
    cases value with
    | array items =>
      simp only [Coder.kept, Option.bind_eq_bind, Option.bind_eq_some_iff] at hkept
      obtain ⟨values, hvalues, h⟩ := hkept
      cases h
      -- each of the items was written
      obtain ⟨parts, hparts, -⟩ := encode_array hencode
      have hitems : List.Forall₂ (fun v v' => coder.kept v = some v') values values := by
        rw [List.forall₂_same]
        intro v hv
        obtain ⟨part, hpart⟩ := exists_forall₂.1 ⟨parts, hparts⟩ v hv
        obtain ⟨item, hitem⟩ :=
          exists_forall₂.1 ⟨items, (mapM_kept_iff.1 hvalues).flip⟩ v hv
        exact ih hproper.2 hitem hpart
      rw [Coder.kept, mapM_kept_iff.2 hitems]
      rfl
    | _ => cases hkept

/-- An array that is kept has as many items. -/
theorem Coder.kept_indexed {coder : Coder} {value v : AbiValue} (h : coder.kept value = some v)
    (hvalue : value.Indexed) : v.Indexed := by
  rintro values rfl
  cases coder with
  | array coder length =>
    cases value with
    | array items =>
      simp only [Coder.kept, Option.bind_eq_bind, Option.bind_eq_some_iff] at h
      obtain ⟨values', hvalues, h⟩ := h
      cases h
      rw [← (mapM_kept_iff.1 hvalues).length_eq]
      exact hvalue items rfl
    | _ => cases h
  | address => cases value <;> simp [Coder.kept, Option.bind_eq_some_iff] at h
  | _ => simp [Coder.kept, Option.bind_eq_some_iff] at h

/-- **A value goes through the bytes.** Of every type, what is written of a value is whole words
and is read, wherever it is put, as what is kept of the value; and that is read as itself when it
is written in turn. -/
theorem coder_round_trip {type : String} {coder : Coder} (htype : getParamCoder type = .ok coder)
    {value : AbiValue} (hvalue : value.Indexed) {bytes : Bytes}
    (hencode : coder.encode value = .ok bytes) :
    ∃ v, coder.kept value = some v ∧ 32 ∣ bytes.length ∧ Reads Fits coder.decode bytes v ∧
      ∀ bytes', coder.encode v = .ok bytes' → Reads Fits coder.decode bytes' v := by
  have hproper := (getParamCoder_iff.1 htype).proper
  obtain ⟨v, hwritten⟩ := Coder.encode_written hproper (fun _ => hvalue) hencode
  refine ⟨v, hwritten.kept, hwritten.aligned, hwritten.reads, fun bytes' hencode' => ?_⟩
  have hindexed := Coder.kept_indexed hwritten.kept hvalue
  obtain ⟨v', hwritten'⟩ := Coder.encode_written hproper (fun _ => hindexed) hencode'
  have hsame := hwritten'.kept.symm.trans (Coder.kept_kept hproper hwritten.kept hencode')
  exact Option.some.inj hsame ▸ hwritten'.reads

/-- Two `int8` in an array, of which the second is too large. -/
theorem coder_round_trip_int8 : ∃ v,
    (Coder.array (.number 1 true) (some 2)).kept
      (.array [.text (units "-1"), .text (units "200")]) = some v ∧
      32 ∣ (toBytes 32 (2 ^ 256 - 1) ++ toBytes 32 (2 ^ 256 - 56)).length ∧
      Reads Fits (Coder.array (.number 1 true) (some 2)).decode
        (toBytes 32 (2 ^ 256 - 1) ++ toBytes 32 (2 ^ 256 - 56)) v := by
  have htype : getParamCoder "int8[2]" = .ok (.array (.number 1 true) (some 2)) :=
    of_toOption (by decide +kernel)
  have hencode : (Coder.array (.number 1 true) (some 2)).encode
      (.array [.text (units "-1"), .text (units "200")]) =
        .ok (toBytes 32 (2 ^ 256 - 1) ++ toBytes 32 (2 ^ 256 - 56)) :=
    of_toOption (by decide +kernel)
  obtain ⟨v, hkept, haligned, hreads, -⟩ :=
    coder_round_trip htype (fun items h => by cases h; norm_num) hencode
  exact ⟨v, hkept, haligned, hreads⟩

/-! ## Parameters -/

/-- What is kept of parameters is kept as it is, where it can be written. -/
theorem keptParams_kept {types : List String} {values kept : List AbiValue}
    {parts : List (Part UInt8)} (hvalues : ∀ v ∈ values, v.Indexed)
    (hlength : types.length = values.length) (hkept : keptParams types values = some kept)
    (h : Encoded types kept parts) :
    (∀ v ∈ kept, v.Indexed) ∧ keptParams types kept = some kept := by
  induction types generalizing values kept parts with
  | nil =>
    cases hkept
    exact ⟨by simp, rfl⟩
  | cons type types ih =>
    cases values with
    | nil => cases hlength
    | cons value values =>
      rw [keptParams, List.zip_cons_cons, List.mapM_cons, ← keptParams] at hkept
      simp only [Option.bind_eq_bind, Option.bind_eq_some_iff] at hkept
      obtain ⟨v, ⟨coder, hcoder, hv⟩, rest, hrest, hkept⟩ := hkept
      cases hkept
      cases h with
      | cons hpart h =>
        obtain ⟨coder', hcoder', -, hencode⟩ := hpart
        rw [hcoder', Except.toOption] at hcoder
        cases hcoder
        have hproper := (getParamCoder_iff.1 hcoder').proper
        obtain ⟨hindexed, hrest'⟩ :=
          ih (fun u hu => hvalues u (List.mem_cons_of_mem value hu)) (by simpa using hlength)
            hrest h
        refine ⟨?_, ?_⟩
        · rw [List.forall_mem_cons]
          exact ⟨Coder.kept_indexed hv (hvalues value (by simp)), hindexed⟩
        · rw [keptParams, List.zip_cons_cons, List.mapM_cons, ← keptParams, hrest']
          simp [hcoder', Except.toOption, Coder.kept_kept hproper hv hencode]

/-- **Parameters go through the data.** What is read of what was written is what the types keep of
the values; and the second time it is what it was. -/
theorem params_round_trip {types : List String} {values : List AbiValue} {data : Bytes}
    (hvalues : ∀ v ∈ values, v.Indexed) (hencode : encodeParams types values = .ok data) :
    ∃ kept, keptParams types values = some kept ∧ decodeParams types data = .ok kept ∧
      ∀ data', encodeParams types kept = .ok data' → decodeParams types data' = .ok kept := by
  obtain ⟨kept, hkept, hdecoded⟩ := decodeParams_encodeParams hvalues hencode
  refine ⟨kept, hkept, hdecoded, fun data' hencode' => ?_⟩
  obtain ⟨hlength, -⟩ := encodeParams_layout hvalues hencode
  obtain ⟨-, parts, hparts⟩ := encoded_of_ok hencode'
  obtain ⟨hindexed, hsame⟩ := keptParams_kept hvalues hlength hkept hparts
  obtain ⟨kept', hkept', hdecoded'⟩ := decodeParams_encodeParams hindexed hencode'
  rw [hsame] at hkept'
  cases hkept'
  exact hdecoded'

/-- A number that is too large, and a text. -/
theorem params_round_trip_text : ∃ kept,
    keptParams ["uint8", "string"] [.text (units "0x101"), .text (units "hé")] = some kept ∧
      decodeParams ["uint8", "string"] (toBytes 32 1 ++ toBytes 32 64 ++ toBytes 32 3 ++
        [0x68, 0xC3, 0xA9] ++ List.replicate 29 0) = .ok kept := by
  have hencode : encodeParams ["uint8", "string"] [.text (units "0x101"), .text (units "hé")] =
      .ok (toBytes 32 1 ++ toBytes 32 64 ++ toBytes 32 3 ++ [0x68, 0xC3, 0xA9] ++
        List.replicate 29 0) := of_toOption (by decide +kernel)
  obtain ⟨kept, hkept, hdecoded, -⟩ := params_round_trip (by simp [AbiValue.Indexed]) hencode
  exact ⟨kept, hkept, hdecoded⟩

/-! ## What is typed -/

/-- An integer of a type's range. -/
def InRange (size : ℕ) (signed : Bool) (n : ℤ) : Prop :=
  if signed then -2 ^ (size * 8 - 1) ≤ n ∧ n < 2 ^ (size * 8 - 1) else 0 ≤ n ∧ n < 2 ^ (size * 8)

/-- What is in range does not wrap, and nothing else. -/
theorem wrapped_eq_iff {size : ℕ} (hsize : Sized size) (signed : Bool) (n : ℤ) :
    wrapped size signed n = n ↔ InRange size signed n := by
  have hpow : 2 ^ (size * 8) = 2 * 2 ^ (size * 8 - 1) := by
    rw [← pow_succ', Nat.sub_add_cancel (by have := hsize.1; omega)]
  unfold wrapped InRange
  split_ifs
  · have hhalf : (0 : ℤ) < 2 ^ (size * 8 - 1) := by positivity
    rw [hpow]
    constructor
    · intro h
      have hlow := @Int.le_bmod n (2 * 2 ^ (size * 8 - 1)) (by positivity)
      have hhigh := @Int.bmod_lt n (2 * 2 ^ (size * 8 - 1)) (by positivity)
      rw [h] at hlow hhigh
      push_cast at hlow hhigh
      omega
    · rintro ⟨hlow, hhigh⟩
      exact Int.bmod_eq_of_le (by push_cast; omega) (by push_cast; omega)
  · constructor
    · intro h
      have hpos : (0 : ℤ) < (2 ^ (size * 8) : ℕ) := by positivity
      have hlow := Int.emod_nonneg n hpos.ne'
      have hhigh := Int.emod_lt_of_pos n hpos
      rw [h] at hlow hhigh
      exact ⟨hlow, by exact_mod_cast hhigh⟩
    · rintro ⟨hlow, hhigh⟩
      exact Int.emod_eq_of_lt hlow (by exact_mod_cast hhigh)

/-- **A number that is typed.** It may have a sign, a prefix and what is behind a point. It is
never refused: what is read is the integer that is written before the point, modulo the range of
the type, and so it is that integer exactly if it is in range. -/
theorem number_typed {type : String} {size : ℕ} {signed : Bool}
    (htype : getParamCoder type = .ok (.number size signed)) (negative prefixed : Bool)
    {digits behind : Units} (hne : digits ≠ []) (hhex : digits.all isHex)
    (hbehind : behind = [] ∨ behind.head? = some (unit '.')) :
    ∃ bytes, (Coder.number size signed).encode
        (.text (spelled negative prefixed digits ++ behind)) = .ok bytes ∧
      bytes.length = 32 ∧ ∃ n : ℤ,
        Reads Fits (Coder.number size signed).decode bytes (.bn (ofInt n)) ∧
        InRange size signed n ∧ n ≡ spelledValue negative prefixed digits [ZMOD 2 ^ (size * 8)] ∧
        (n = spelledValue negative prefixed digits ↔
          InRange size signed (spelledValue negative prefixed digits)) := by
  have hproper : Sized size := (getParamCoder_iff.1 htype).proper
  have hvalue := toBN_text negative prefixed hne hhex hbehind
  generalize spelledValue negative prefixed digits = n at hvalue ⊢
  refine ⟨toBytes 32 (wordOf size signed n), ?_, ?_, wrapped size signed n,
    reads_number hproper signed n, ?_, ?_, wrapped_eq_iff hproper signed n⟩
  · rw [Coder.encode, encodeNumber_eq hproper, hvalue]
    simp only [Except.map, toInt_ofInt]
  · exact length_toBytes ((wordOf_lt hproper signed n).trans_eq (by norm_num))
  · exact (wrapped_eq_iff hproper signed _).1 (wrapped_wrapped size signed n)
  · unfold wrapped
    split_ifs
    · exact_mod_cast @Int.bmod_emod n (2 ^ (size * 8))
    · exact_mod_cast Int.mod_modEq n (2 ^ (size * 8) : ℕ)

/-- `ff.5` for an `int8`: there is a letter in it. -/
theorem number_typed_ff : ∃ bytes, (Coder.number 1 true).encode (.text (units "ff.5")) = .ok bytes ∧
    bytes.length = 32 ∧ ∃ n : ℤ, Reads Fits (Coder.number 1 true).decode bytes (.bn (ofInt n)) ∧
      InRange 1 true n ∧ n ≡ 255 [ZMOD 2 ^ 8] := by
  have htype : getParamCoder "int8" = .ok (.number 1 true) := of_toOption (by decide +kernel)
  obtain ⟨bytes, hencode, hlength, n, hreads, hrange, hmod, -⟩ :=
    @number_typed "int8" 1 true htype false false (units "ff") (units ".5") (by decide) (by decide)
      (.inr (by decide))
  exact ⟨bytes, hencode, hlength, n, hreads, hrange, hmod⟩

/-- The digits of a text, as whole bytes are written in. -/
def wholeBytes (text : Units) : Units :=
  (if (stripHexPrefix text).length % 2 = 0 then [] else [unit '0']) ++
    (stripHexPrefix text).map lower

/-- Digits that are cut, or filled up, to so many bytes. -/
def cutBytes (size : ℕ) (digits : Units) : Units :=
  (digits ++ List.replicate (2 * size) (unit '0')).take (2 * size)

theorem hexSlice_append (bytes bytes' : Bytes) :
    hexSlice (bytes ++ bytes') = hexSlice bytes ++ hexSlice bytes' := List.flatMap_append

theorem hexSlice_replicate_zero (n : ℕ) :
    hexSlice (List.replicate n 0) = List.replicate (2 * n) (unit '0') := by
  induction n with
  | zero => rfl
  | succ n ih =>
    rw [List.replicate_succ, hexSlice_cons, ih, Nat.mul_succ, List.replicate_succ,
      List.replicate_succ]
    rfl

theorem hexSlice_take (n : ℕ) (bytes : Bytes) :
    hexSlice (bytes.take n) = (hexSlice bytes).take (2 * n) := by
  induction bytes generalizing n with
  | nil => simp [hexSlice]
  | cons b bytes ih =>
    cases n with
    | zero => rfl
    | succ n =>
      rw [List.take_succ_cons, hexSlice_cons, hexSlice_cons, ih, Nat.mul_succ, List.take_succ_cons,
        List.take_succ_cons]

/-- The digits of fixed bytes. -/
theorem hexSlice_filled {size : ℕ} (hsize : size ≤ 32) (bytes : Bytes) :
    hexSlice ((filled 32 bytes).take size) = cutBytes size (hexSlice bytes) := by
  rw [hexSlice_take, filled, hexSlice_take, hexSlice_append, hexSlice_replicate_zero, cutBytes,
    List.take_take, Nat.min_eq_left (by omega), List.take_append, List.take_append,
    List.take_replicate, List.take_replicate]
  congr 2
  omega

/-- **Which texts are bytes**: those of hexadecimal digits, with a prefix or without one, and it is
their digits that are read. -/
theorem hexStringToBuffer_eq_ok {text : Units} {size : Option ℕ} {msg : Option String}
    {bytes : Bytes} : hexStringToBuffer text size msg = .ok bytes ↔
      (stripHexPrefix text).all isHex ∧ bytes.length ≤ maxLength ∧
        hexSlice bytes = wholeBytes text ∧ ∀ n ∈ size, bytes.length = n := by
  have hzero : lower (unit '0') = unit '0' := by decide
  obtain ⟨data, hdata⟩ : ∃ data, data = if (stripHexPrefix text).length % 2 ≠ 0 then
      unit '0' :: stripHexPrefix text else stripHexPrefix text := ⟨_, rfl⟩
  have heven : data.length % 2 = 0 := by
    rw [hdata]
    split_ifs with hodd
    · rw [List.length_cons]
      omega
    · omega
  have hlower : data.map lower = wholeBytes text := by
    rw [hdata, wholeBytes]
    by_cases hodd : (stripHexPrefix text).length % 2 = 0
    · rw [if_neg (not_not.2 hodd), if_pos hodd, List.nil_append]
    · rw [if_pos hodd, if_neg hodd, List.map_cons, hzero, List.singleton_append]
  have hwritten (hhex : (stripHexPrefix text).all isHex) :
      hexSlice bytes = wholeBytes text ↔ bytes = hexWrite data := by
    have hall : data.all isHex := by
      rw [hdata]
      split_ifs
      · rw [List.all_cons, hhex]
        rfl
      · exact hhex
    rw [← hlower, ← hexSlice_hexWrite hall heven]
    refine ⟨fun h => ?_, fun h => by rw [h]⟩
    rw [← hexWrite_hexSlice bytes, h, hexWrite_hexSlice]
  have hlength := length_hexWrite data
  unfold hexStringToBuffer
  simp only [← hdata]
  cases hhex : (stripHexPrefix text).all isHex
  · simp only [Bool.not_false, if_true, Bool.false_eq_true, false_and, iff_false]
    exact fun h => by cases h
  · rw [hwritten hhex]
    simp only [Bool.not_true, Bool.false_eq_true, if_false, true_and]
    have hbuffer : createBuffer (hexWrite data) = .ok bytes ↔
        bytes.length ≤ maxLength ∧ bytes = hexWrite data := by
      constructor
      · intro h
        obtain rfl := createBuffer_eq h
        unfold createBuffer at h
        split_ifs at h with hsize
        exact ⟨not_lt.1 hsize, rfl⟩
      · rintro ⟨hsize, rfl⟩
        rw [createBuffer, if_neg (not_lt.2 hsize)]
        rfl
    cases size with
    | none => simp [hbuffer]
    | some n =>
      dsimp only
      split_ifs with hn
      · refine iff_of_false (fun h => by cases h) ?_
        rintro ⟨-, rfl, hsize⟩
        have := hsize n rfl
        omega
      · rw [hbuffer]
        refine and_congr_right fun _ => (and_iff_left_of_imp ?_).symm
        rintro rfl m hm
        cases hm
        omega

/-- The coders of bytes. -/
def Coder.ofBytes : Coder → Bool
  | .fixedBytes _ => true
  | .address => true
  | .dynamicBytes => true
  | _ => false

/-- What is read of a text's digits: fixed bytes are cut, or filled up. -/
def Coder.cut : Coder → Units → Units
  | .fixedBytes size, digits => cutBytes size digits
  | _, digits => digits

theorem encodeDynamicBytesHelper_small {bytes : Bytes} (h : bytes.length < 2 ^ 30) :
    encodeDynamicBytesHelper bytes = .ok (behindLength bytes) := by
  have hword : (toBytes 32 bytes.length).length = 32 := length_toBytes (h.trans (by norm_num))
  rw [encodeDynamicBytesHelper, encodeLength_eq, ok_bind, Nat.mod_eq_of_lt (h.trans (by norm_num)),
    concat, checked, if_neg]
  · simp [behindLength]
    rfl
  · simp only [List.flatten_cons, List.length_append, List.flatten_nil, List.append_nil, hword,
      List.length_replicate, alignSize, maxLength]
    omega

/-- The digits of a text are in lower case, and in pairs. -/
theorem wholeBytes_spec {text : Units} (h : (stripHexPrefix text).all isHex) :
    (wholeBytes text).all isHex ∧ (wholeBytes text).map lower = wholeBytes text ∧
      (wholeBytes text).length % 2 = 0 ∧
      (wholeBytes text).length ≤ (stripHexPrefix text).length + 1 := by
  have hdigits : ∀ u ∈ wholeBytes text, isHex u ∧ lower u = u := by
    have hidem : ∀ n < 128, isHex (.ofNat n) → lower (lower (.ofNat n)) = lower (.ofNat n) := by
      decide +kernel
    intro u hu
    rw [wholeBytes, List.mem_append] at hu
    rcases hu with hu | hu
    · split_ifs at hu
      · cases hu
      · rw [List.mem_singleton.1 hu]
        decide
    · obtain ⟨v, hv, rfl⟩ := List.mem_map.1 hu
      have hv := List.all_eq_true.1 h v hv
      have hsame := hidem v.toNat (spelled_unit (.inl hv))
      rw [UInt16.ofNat_toNat] at hsame
      exact ⟨(lower_digit hv).1, hsame hv⟩
  refine ⟨List.all_eq_true.2 fun u hu => (hdigits u hu).1,
    (List.map_congr_left fun u hu => (hdigits u hu).2).trans (List.map_id' _), ?_, ?_⟩ <;>
  · rw [wholeBytes, List.length_append, List.length_map]
    split_ifs <;> simp <;> omega

/-- The bytes of a text, where it has them. -/
theorem exists_wholeBytes {text : Units} (h : (stripHexPrefix text).all isHex) :
    ∃ bytes, hexSlice bytes = wholeBytes text ∧ 2 * bytes.length = (wholeBytes text).length := by
  obtain ⟨hall, hlower, heven, -⟩ := wholeBytes_spec h
  refine ⟨hexWrite (wholeBytes text), ?_, ?_⟩
  · rw [hexSlice_hexWrite hall heven, hlower]
  · rw [length_hexWrite]
    omega

/-- A text of bytes is read as its digits. -/
theorem kept_typed {coder : Coder} (hproper : coder.Proper) (hbytes : coder.ofBytes) {text : Units}
    {bytes : Bytes} (hread : hexStringToBuffer text none none = .ok bytes)
    (hlt : bytes.length < 2 ^ 30) (haddress : coder = .address → bytes.length = 20) :
    ∃ bs, coder.encode (.text text) = .ok bs ∧
      coder.kept (.text text) = some (.text (coder.cut (wholeBytes text))) := by
  obtain ⟨hhex, hmax, hdigits, -⟩ := hexStringToBuffer_eq_ok.1 hread
  cases coder with
  | fixedBytes size =>
    refine ⟨if bytes.length = 32 then bytes else copy bytes (List.replicate 32 0) 0, ?_, ?_⟩
    · rw [Coder.encode, encodeFixedBytes, hexOrBuffer, hread, ok_bind]
      split_ifs <;> rfl
    · rw [Coder.kept, hexOrBuffer, hread, Except.toOption]
      simp only [Option.bind_eq_bind, Option.bind_some, hexSlice_filled hproper.2, hdigits]
      rfl
  | address =>
    have hsized (msg : Option String) : hexStringToBuffer text (some 20) msg = .ok bytes :=
      hexStringToBuffer_eq_ok.2 ⟨hhex, hmax, hdigits, by simpa using haddress rfl⟩
    refine ⟨copy bytes (List.replicate 32 0) 12, ?_, ?_⟩
    · rw [Coder.encode, encodeAddress]
      simp only [hsized, ok_bind]
      rfl
    · rw [Coder.kept, hsized none, ← hdigits]
      rfl
  | dynamicBytes =>
    refine ⟨behindLength bytes, ?_, ?_⟩
    · rw [Coder.encode, hexOrBuffer, hread, ok_bind, encodeDynamicBytesHelper_small hlt]
    · rw [Coder.kept, hexOrBuffer, hread, ← hdigits]
      rfl
  | _ => cases hbytes

/-- What a coder of bytes writes is a text of bytes. -/
theorem digits_of_encode {coder : Coder} (hbytes : coder.ofBytes) {text : Units} {bs : Bytes}
    (h : coder.encode (.text text) = .ok bs) :
    (stripHexPrefix text).all isHex ∧ (coder = .address → (wholeBytes text).length = 40) := by
  cases coder with
  | fixedBytes size =>
    obtain ⟨bytes, hread, -⟩ := of_bind_ok h
    rw [hexOrBuffer] at hread
    exact ⟨(hexStringToBuffer_eq_ok.1 hread).1, nofun⟩
  | address =>
    obtain ⟨bytes, hread, -⟩ := of_bind_ok h
    obtain ⟨hhex, -, hdigits, hsize⟩ := hexStringToBuffer_eq_ok.1 hread
    refine ⟨hhex, fun _ => ?_⟩
    rw [← hdigits, length_hexSlice, hsize 20 rfl]
  | dynamicBytes =>
    obtain ⟨bytes, hread, -⟩ := of_bind_ok h
    rw [hexOrBuffer] at hread
    exact ⟨(hexStringToBuffer_eq_ok.1 hread).1, nofun⟩
  | _ => cases hbytes

/-- **Bytes that are typed.** Their text has a prefix or none, and hexadecimal digits, of an address
as many as make 20 bytes; any other is refused. What is read is the digits in lower case, with a 0
in front if there is one too few, and of fixed bytes as many as the type has. -/
theorem bytes_typed {type : String} {coder : Coder} (htype : getParamCoder type = .ok coder)
    (hbytes : coder.ofBytes) {text : Units} (hsmall : text.length < 2 ^ 31 - 1) :
    if (stripHexPrefix text).all isHex ∧ (coder = .address → (wholeBytes text).length = 40) then
      ∃ bytes, coder.encode (.text text) = .ok bytes ∧
        Reads Fits coder.decode bytes (.text (coder.cut (wholeBytes text)))
    else ∃ e, coder.encode (.text text) = .error e := by
  have hproper := (getParamCoder_iff.1 htype).proper
  have hstrip : (stripHexPrefix text).length ≤ text.length := by
    rw [stripHexPrefix]
    split_ifs <;> simp
  split_ifs with h
  · obtain ⟨hhex, haddress⟩ := h
    obtain ⟨bytes, hdigits, hlength⟩ := exists_wholeBytes hhex
    obtain ⟨-, -, -, hlen⟩ := wholeBytes_spec hhex
    have hread : hexStringToBuffer text none none = .ok bytes :=
      hexStringToBuffer_eq_ok.2 ⟨hhex, by rw [maxLength]; omega, hdigits, by simp⟩
    obtain ⟨bs, hencode, hkept⟩ := kept_typed hproper hbytes hread (by omega)
      fun hcoder => by have := haddress hcoder; omega
    obtain ⟨v, hv⟩ := Coder.encode_written hproper (fun _ => indexed_text text) hencode
    rw [hv.kept] at hkept
    exact ⟨bs, hencode, Option.some.inj hkept ▸ hv.reads⟩
  · cases hencode : coder.encode (.text text) with
    | error e => exact ⟨e, rfl⟩
    | ok bs => exact absurd (digits_of_encode hbytes hencode) h

/-- An address of 39 digits: it is taken, with a 0 in front. -/
theorem bytes_typed_address : ∃ bytes,
    Coder.address.encode (.text (List.replicate 39 (unit 'F'))) = .ok bytes ∧
      Reads Fits Coder.address.decode bytes
        (.text (unit '0' :: List.replicate 39 (unit 'f'))) := by
  have htype : getParamCoder "address" = .ok .address := of_toOption (by decide +kernel)
  have htyped :=
    @bytes_typed "address" .address htype rfl (List.replicate 39 (unit 'F')) (by decide)
  rwa [if_pos (by decide)] at htyped

end Hmix
