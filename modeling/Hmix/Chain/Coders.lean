import Hmix.Chain.Numbers

/-!
# What a coder keeps

A value that a coder has written is read back wherever the bytes are put, but not
always as it was: a number wraps, fixed bytes are filled up or cut, and a
text in hexadecimal loses its prefix. `kept` is what is read. Only an array
that is dynamic can be nested in nothing, so a coder reads its bytes in one place.
-/

namespace Hmix

open Buffer BN

/-- A coder as a type gives it. -/
def Coder.Proper : Coder → Prop
  | .number size _ => Sized size
  | .fixedBytes length => Sized length
  | .array coder _ => coder.dynamic = false ∧ coder.Proper
  | _ => True

/-- A value of one word. -/
def Coder.word : Coder → Bool
  | .number _ _ => true
  | .boolean => true
  | .fixedBytes _ => true
  | .address => true
  | _ => false

theorem Coder.not_dynamic_of_word {coder : Coder} (h : coder.word) : coder.dynamic = false := by
  cases coder with
  | dynamicBytes => cases h
  | string => cases h
  | array coder length => cases h
  | _ => rfl

/-- Bytes that are filled up, or cut. -/
def filled (size : ℕ) (bytes : Bytes) : Bytes := (bytes ++ List.replicate size 0).take size

/-- **What is left of a value**, when it has been written and read. -/
def Coder.kept : Coder → AbiValue → Option AbiValue
  | .number size signed, value => do
    return .bn (ofInt (wrapped size signed (← value.toBN.toOption).toInt))
  | .boolean, value => return .flag value.truthy
  | .fixedBytes length, value => do
    return .text (hexSlice ((filled 32 (← (hexOrBuffer value).toOption)).take length))
  | .address, .text units => do
    return .text (hexSlice (← (hexStringToBuffer units (some 20) none).toOption))
  | .address, _ => none
  | .dynamicBytes, value => do return .text (hexSlice (← (hexOrBuffer value).toOption))
  | .string, value => do return .text (utf8Slice (← (stringBytes value).toOption))
  | .array coder _, .array items => do return .array (← items.mapM coder.kept)
  | .array _ _, _ => none

/-! ## Buffers -/

@[simp] theorem copy_zero (source : Bytes) (n : ℕ) :
    copy source (List.replicate n 0) 0 = filled n source := by
  rw [copy, filled]
  simp only [List.length_replicate, Nat.zero_min, Nat.sub_zero, Nat.zero_add,
    List.drop_replicate, List.take_append, List.take_replicate, List.length_take]
  congr 2
  omega

theorem length_filled (size : ℕ) (bytes : Bytes) : (filled size bytes).length = size := by
  simp [filled]

/-- What fits into zeros, with the zeros around it. -/
theorem copy_behind {source : Bytes} {n k : ℕ} (h : k + source.length = n) :
    copy source (List.replicate n 0) k = List.replicate k 0 ++ source := by
  subst h
  rw [copy]
  simp only [List.length_replicate, Nat.min_eq_left (Nat.le_add_right k source.length),
    Nat.add_sub_cancel_left, List.take_length, List.take_replicate, List.drop_replicate]
  simp

theorem checked_eq {bytes bs : Bytes} (h : checked bytes = .ok bs) :
    bs = bytes ∧ bytes.length < maxLength := by
  unfold checked at h
  split_ifs at h with hlength
  cases h
  exact ⟨rfl, by omega⟩

theorem length_alignSize (n : ℕ) : 32 ∣ alignSize n ∧ n ≤ alignSize n := by
  unfold alignSize
  omega

/-! ## Words -/

variable {before behind bytes bs : Bytes} {value v : AbiValue}

theorem reads_number {size : ℕ} (hsize : Sized size) (signed : Bool) (n : ℤ) :
    Reads Fits (Coder.number size signed).decode (toBytes 32 (wordOf size signed n))
      (.bn (ofInt (wrapped size signed n))) := by
  have hlength : (toBytes 32 (wordOf size signed n)).length = 32 :=
    length_toBytes ((wordOf_lt hsize signed n).trans_eq (by norm_num))
  intro before behind hfits
  rw [Coder.decode, decodeNumber_eq hsize signed hlength hfits, byteValue_toBytes,
    wrapped_wordOf hsize, hlength]
  rfl

theorem reads_boolean (b : Bool) :
    Reads Fits Coder.boolean.decode (toBytes 32 (if b then 1 else 0)) (.flag b) := by
  have hlength : (toBytes 32 (if b then 1 else 0)).length = 32 := by
    cases b <;> exact length_toBytes (by norm_num)
  intro before behind hfits
  have hdecode := decodeNumber_eq (⟨by norm_num, by norm_num⟩ : Sized 32) false hlength hfits
  rw [byteValue_toBytes, wrapped_nat (by split_ifs <;> norm_num)] at hdecode
  rw [Coder.decode, hdecode, hlength]
  cases b <;> rfl

/-- What is cut out of a word. -/
theorem slice_word (hlength : bytes.length = 32) (hfits : Fits (before ++ bytes ++ behind))
    {k n : ℕ} (h : k + n ≤ 32) :
    slice (before ++ bytes ++ behind) (before.length + k) (before.length + (k + n)) =
      (bytes.drop k).take n := by
  have hsplit : before ++ bytes ++ behind = (before ++ bytes.take k) ++ (bytes.drop k).take n ++
      ((bytes.drop k).drop n ++ behind) := by
    conv_lhs => rw [← List.take_append_drop k bytes, ← List.take_append_drop n (bytes.drop k)]
    simp only [List.append_assoc]
  rw [hsplit] at hfits ⊢
  refine slice_append hfits ?_ ?_
  · rw [List.length_append, List.length_take_of_le (by omega)]
  · rw [List.length_append, List.length_take_of_le (by omega),
      List.length_take_of_le (by rw [List.length_drop]; omega)]
    omega

theorem reads_fixedBytes {length : ℕ} (hsize : Sized length) (hlength : bytes.length = 32) :
    Reads Fits (Coder.fixedBytes length).decode bytes (.text (hexSlice (bytes.take length))) := by
  intro before behind hfits
  have hslice := slice_word (k := 0) (n := length) hlength hfits (by have := hsize.2; omega)
  rw [Nat.zero_add, Nat.add_zero, List.drop_zero] at hslice
  rw [Coder.decode, decodeFixedBytes, if_neg (by simp only [List.length_append]; omega), hslice,
    hlength]
  rfl

theorem reads_address (hlength : bytes.length = 20) :
    Reads Fits Coder.address.decode (List.replicate 12 0 ++ bytes) (.text (hexSlice bytes)) := by
  intro before behind hfits
  have hword : (List.replicate 12 0 ++ bytes : Bytes).length = 32 := by simp [hlength]
  have hslice := slice_word (k := 12) (n := 20) hword hfits (by norm_num)
  rw [List.drop_left' (by simp), List.take_of_length_le hlength.le] at hslice
  rw [Coder.decode, decodeAddress, if_neg (by simp only [List.length_append] at hword ⊢; omega),
    if_neg (by simp only [List.length_append] at hword ⊢; omega), hslice, hword]
  rfl

/-! ## Bytes of any length -/

/-- Bytes behind their length, up to a full word. -/
def behindLength (bytes : Bytes) : Bytes :=
  toBytes 32 bytes.length ++ bytes ++ List.replicate (alignSize bytes.length - bytes.length) 0

theorem encodeDynamicBytesHelper_eq (h : encodeDynamicBytesHelper bytes = .ok bs) :
    bs = behindLength bytes ∧ Fits bs := by
  rw [encodeDynamicBytesHelper, encodeLength_eq] at h
  simp only [ok_bind, concat] at h
  obtain ⟨rfl, hlength⟩ := checked_eq h
  have hsmall : bytes.length < 2 ^ 256 := by
    simp only [List.flatten_cons, List.length_append, maxLength] at hlength
    exact (show bytes.length < 2 ^ 31 by omega).trans (by norm_num)
  refine ⟨?_, ?_⟩
  · rw [Nat.mod_eq_of_lt hsmall]
    simp [behindLength]
  · exact lt_trans hlength (by norm_num [maxLength])

theorem length_behindLength (h : Fits (behindLength bytes)) :
    (behindLength bytes).length = 32 + alignSize bytes.length := by
  have hle := (length_alignSize bytes.length).2
  unfold Fits at h
  have hbytes : bytes.length < 0x80000000 := by
    simp only [behindLength, List.length_append] at h
    omega
  have hword : (toBytes 32 bytes.length).length = 32 :=
    length_toBytes (hbytes.trans_le (by norm_num))
  simp only [behindLength, List.length_append, hword, List.length_replicate]
  omega

/-- **Bytes behind their length are read.** -/
theorem reads_behindLength (h : Fits (behindLength bytes)) :
    Reads Fits decodeDynamicBytesHelper (behindLength bytes) bytes := by
  intro before behind hfits
  have hbytes : bytes.length < 0x80000000 := by
    unfold Fits at h
    simp only [behindLength, List.length_append] at h
    omega
  have hword : (toBytes 32 bytes.length).length = 32 :=
    length_toBytes (hbytes.trans_le (by norm_num))
  have hread := reads_length hword (by rw [byteValue_toBytes]; exact hbytes.trans (by norm_num))
  rw [byteValue_toBytes] at hread
  have hlength := hread.at hfits before
    (bytes ++ List.replicate (alignSize bytes.length - bytes.length) 0 ++ behind)
    (by simp only [behindLength, List.append_assoc]) rfl
  have hsplit : before ++ behindLength bytes ++ behind = (before ++ toBytes 32 bytes.length) ++
      bytes ++ (List.replicate (alignSize bytes.length - bytes.length) 0 ++ behind) := by
    simp only [behindLength, List.append_assoc]
  have hslice : slice (before ++ behindLength bytes ++ behind) (before.length + 32)
      (before.length + 32 + bytes.length) = bytes := by
    rw [hsplit] at hfits ⊢
    refine slice_append hfits ?_ ?_
    · rw [List.length_append, hword]
    · rw [List.length_append, hword]
  have hsize := length_behindLength h
  have hle := (length_alignSize bytes.length).2
  rw [decodeDynamicBytesHelper, if_neg (by simp only [List.length_append]; omega), hlength]
  simp only [ok_bind]
  rw [if_neg (by simp only [List.length_append]; omega), hslice, hsize]
  rfl

/-! ## Arrays -/

/-- The loop that puts the items behind one another. -/
theorem foldlM_concat {encode : AbiValue → Coding Bytes} {items : List AbiValue} {result : Bytes}
    (h : items.foldlM (fun result item => do concat [result, ← encode item]) result = .ok bs) :
    ∃ parts, List.Forall₂ (fun item part => encode item = .ok part) items parts ∧
      bs = result ++ parts.flatten := by
  induction items generalizing result with
  | nil =>
    cases h
    exact ⟨[], .nil, by simp⟩
  | cons item items ih =>
    rw [List.foldlM_cons] at h
    obtain ⟨joined, hjoined, h⟩ := of_bind_ok h
    obtain ⟨part, hitem, hjoined⟩ := of_bind_ok hjoined
    obtain ⟨rfl, -⟩ := checked_eq hjoined
    obtain ⟨parts, hparts, rfl⟩ := ih h
    exact ⟨part :: parts, .cons hitem hparts, by simp⟩

/-- What is kept of the items, one by one. -/
theorem mapM_kept {kept : AbiValue → Option AbiValue} {items values : List AbiValue}
    (h : List.Forall₂ (fun item v => kept item = some v) items values) :
    items.mapM kept = some values := by
  induction h with
  | nil => rfl
  | cons hitem _ ih => simp [List.mapM_cons, hitem, ih]

/-- An array has at most as many items as an array of JavaScript. -/
def AbiValue.Indexed (value : AbiValue) : Prop :=
  ∀ items, value = .array items → items.length < 2 ^ 32

theorem indexed_text (text : Units) : AbiValue.Indexed (.text text) := by
  simp [AbiValue.Indexed]

/-- Bytes that a coder wrote. -/
structure Written (coder : Coder) (value : AbiValue) (bytes : Bytes) (v : AbiValue) : Prop where
  kept : coder.kept value = some v
  reads : Reads Fits coder.decode bytes v
  aligned : 32 ∣ bytes.length
  word : coder.word → bytes.length = 32
  nonempty : coder.dynamic → bytes ≠ []

/-- Items that were written one by one. -/
theorem Written.items {coder : Coder} {items : List AbiValue} {parts : List Bytes}
    (h : List.Forall₂ (fun item part => ∃ v, Written coder item part v) items parts) :
    ∃ values, items.mapM coder.kept = some values ∧ values.length = items.length ∧
      Reads Fits (fun data => readMany (coder.decode data) values.length) parts.flatten values ∧
      32 ∣ parts.flatten.length := by
  suffices hall : ∃ values, List.Forall₂ (fun item v => coder.kept item = some v) items values ∧
      List.Forall₂ (Reads Fits coder.decode) parts values ∧ 32 ∣ parts.flatten.length by
    obtain ⟨values, hkept, hreads, haligned⟩ := hall
    exact ⟨values, mapM_kept hkept, hkept.length_eq.symm, reads_many hreads, haligned⟩
  induction h with
  | nil => exact ⟨[], .nil, .nil, by simp⟩
  | cons hitem _ ih =>
    obtain ⟨v, hv⟩ := hitem
    obtain ⟨values, hkept, hreads, haligned⟩ := ih
    refine ⟨v :: values, .cons hv.kept hkept, .cons hv.reads hreads, ?_⟩
    rw [List.flatten_cons, List.length_append]
    exact dvd_add hv.aligned haligned

/-- Bytes of any length, as two of the coders write them. -/
theorem written_behindLength {coder : Coder} (hword : ¬ coder.word)
    (hbs : bs = behindLength bytes ∧ Fits bs) (hkept : coder.kept value = some v)
    (hdecode : ∀ data offset n, decodeDynamicBytesHelper data offset = .ok (bytes, n) →
      coder.decode data offset = .ok (v, n)) : Written coder value bs v := by
  obtain ⟨rfl, hfits⟩ := hbs
  have hlength := length_behindLength hfits
  have haligned := (length_alignSize bytes.length).1
  refine ⟨hkept, ?_, by omega, fun hw => absurd hw hword, ?_⟩
  · intro before behind hdata
    exact hdecode _ _ _ (reads_behindLength hfits before behind hdata)
  · intro _ hnil
    rw [hnil] at hlength
    simp only [List.length_nil] at hlength
    omega

/-- The address coder has its own message for a text that is none. -/
theorem hexStringToBuffer_msg {units : Units} {size : Option ℕ} {msg : Option String}
    (h : hexStringToBuffer units size msg = .ok bytes) :
    hexStringToBuffer units size none = .ok bytes := by
  unfold hexStringToBuffer at h ⊢
  split_ifs at h ⊢ with hhex
  cases size with
  | none => exact h
  | some size =>
    dsimp only at h ⊢
    split_ifs at h ⊢ <;> exact h

theorem length_hexWrite (digits : Units) : (hexWrite digits).length = digits.length / 2 := by
  fun_induction hexWrite digits with
  | case1 a b rest ih =>
    rw [List.length_cons, ih]
    simp only [List.length_cons]
    omega
  | case2 digits hshort =>
    match digits, hshort with
    | [], _ => simp
    | [a], _ => simp
    | a :: b :: rest, hshort => exact (hshort a b rest rfl).elim

theorem hexStringToBuffer_size {units : Units} {size : ℕ} {msg : Option String}
    (h : hexStringToBuffer units (some size) msg = .ok bytes) : bytes.length = size := by
  unfold hexStringToBuffer at h
  dsimp only at h
  split_ifs at h with hhex hodd hlength hlength
  · unfold createBuffer at h
    split_ifs at h
    cases h
    rw [length_hexWrite]
    omega
  · unfold createBuffer at h
    split_ifs at h
    cases h
    rw [length_hexWrite]
    omega

/-- An array that is written: its items are, behind their number if that is not in the type. -/
theorem encode_array {coder : Coder} {length : Option ℕ} {items : List AbiValue}
    (h : (Coder.array coder length).encode (.array items) = .ok bs) :
    ∃ parts : List Bytes, List.Forall₂ (fun item part => coder.encode item = .ok part) items parts ∧
      match length with
      | none => bs = toBytes 32 (items.length % 2 ^ 256) ++ parts.flatten
      | some n => n = items.length ∧ bs = parts.flatten := by
  cases length with
  | none =>
    rw [Coder.encode, encodeLength_eq, ok_bind] at h
    simp only [Option.getD_none, ne_eq, not_true_eq_false, if_false] at h
    obtain ⟨parts, hitems, rfl⟩ := foldlM_concat h
    exact ⟨parts, hitems, rfl⟩
  | some n =>
    rw [Coder.encode] at h
    simp only [Option.getD_some, pure_bind] at h
    split_ifs at h with hne
    obtain ⟨parts, hitems, rfl⟩ := foldlM_concat h
    exact ⟨parts, hitems, not_not.1 hne, rfl⟩

/-- **What a coder writes is read**, and what is read is what it keeps. -/
theorem Coder.encode_written {coder : Coder} (hproper : coder.Proper)
    (hvalue : coder.dynamic → value.Indexed) (h : coder.encode value = .ok bs) :
    ∃ v, Written coder value bs v := by
  induction coder generalizing value bs with
  | number size signed =>
    rw [Coder.encode, encodeNumber_eq hproper] at h
    cases hb : value.toBN with
    | error e =>
      rw [hb] at h
      cases h
    | ok b =>
      rw [hb] at h
      cases h
      have hlength := length_toBytes ((wordOf_lt hproper signed b.toInt).trans_eq
        (show 2 ^ 256 = 256 ^ 32 by norm_num))
      exact ⟨_, by simp [Coder.kept, hb, Except.toOption], reads_number hproper signed _,
        by rw [hlength], fun _ => hlength, by simp [Coder.dynamic]⟩
  | boolean =>
    rw [Coder.encode, encodeLength_eq, Nat.mod_eq_of_lt (by split_ifs <;> norm_num)] at h
    cases h
    have hlength : (toBytes 32 (if value.truthy then 1 else 0)).length = 32 :=
      length_toBytes (by split_ifs <;> norm_num)
    exact ⟨_, rfl, reads_boolean _, by rw [hlength], fun _ => hlength, by simp [Coder.dynamic]⟩
  | fixedBytes length =>
    obtain ⟨bytes, hb, h⟩ := of_bind_ok h
    have hbs : bs = filled 32 bytes := by
      split_ifs at h with hlength
      · cases h
        rw [filled, List.take_append_of_le_length hlength.ge, List.take_of_length_le hlength.le]
      · cases h
        rw [copy_zero]
    subst hbs
    have hlength := length_filled 32 bytes
    exact ⟨_, by simp [Coder.kept, hb, Except.toOption], reads_fixedBytes hproper hlength,
      by rw [hlength], fun _ => hlength, by simp [Coder.dynamic]⟩
  | address =>
    cases value with
    | text units =>
      obtain ⟨bytes, hb, h⟩ := of_bind_ok h
      have hlength := hexStringToBuffer_size hb
      cases h
      rw [copy_behind (by rw [hlength])]
      refine ⟨_, ?_, reads_address hlength, by simp [hlength], fun _ => by simp [hlength],
        by simp [Coder.dynamic]⟩
      simp [Coder.kept, hexStringToBuffer_msg hb, Except.toOption]
    | _ => cases h
  | dynamicBytes =>
    obtain ⟨bytes, hb, h⟩ := of_bind_ok h
    refine ⟨.text (hexSlice bytes), written_behindLength (by simp [Coder.word])
      (encodeDynamicBytesHelper_eq h)
      (by simp [Coder.kept, hb, Except.toOption]) fun data offset n hread => ?_⟩
    rw [Coder.decode, hread]
    rfl
  | string =>
    obtain ⟨bytes, hb, h⟩ := of_bind_ok h
    refine ⟨.text (utf8Slice bytes), written_behindLength (by simp [Coder.word])
      (encodeDynamicBytesHelper_eq h)
      (by simp [Coder.kept, hb, Except.toOption]) fun data offset n hread => ?_⟩
    rw [Coder.decode, hread]
    rfl
  | array coder length ih =>
    cases value with
    | array items =>
      obtain ⟨parts, hitems, hbytes⟩ := encode_array h
      obtain ⟨values, hkept, hlength, hreads, haligned⟩ :=
        Written.items (hitems.imp fun item part hitem =>
          ih hproper.2 (fun hdyn => absurd hdyn (by simp [hproper.1])) hitem)
      cases length with
      | none =>
        obtain rfl : bs = _ := hbytes
        -- the length is written, and tells how many are read
        have hlt := hvalue rfl items rfl
        have hsmall : items.length < 2 ^ 53 := hlt.trans (by norm_num)
        rw [Nat.mod_eq_of_lt (hlt.trans (by norm_num))]
        have hword : (toBytes 32 items.length).length = 32 :=
          length_toBytes (hlt.trans (by norm_num))
        refine ⟨.array values, by simp [Coder.kept, hkept], ?_, ?_, by simp [Coder.word], ?_⟩
        · intro before behind hfits
          have hread := reads_length hword (by rw [byteValue_toBytes]; exact hsmall)
          rw [byteValue_toBytes] at hread
          have hfirst := hread.at hfits before (parts.flatten ++ behind)
            (by simp only [List.append_assoc]) rfl
          have hrest := hreads.at hfits (before ++ toBytes 32 items.length) behind
            (by simp only [List.append_assoc]) (by rw [List.length_append, hword])
          rw [hlength] at hrest
          simp only [Coder.decode, hfirst, ok_bind, hword, hrest]
          rw [List.length_append, hword]
          rfl
        · rw [List.length_append, hword]
          exact dvd_add (dvd_refl 32) haligned
        · intro _ hnil
          have := congrArg List.length hnil
          rw [List.length_append, hword, List.length_nil] at this
          omega
      | some n =>
        obtain ⟨rfl, rfl⟩ := hbytes
        refine ⟨.array values, by simp [Coder.kept, hkept], ?_, haligned, by simp [Coder.word],
          by simp [Coder.dynamic]⟩
        intro before behind hfits
        have hrest := hreads before behind hfits
        rw [hlength] at hrest
        simp only [Coder.decode, pure_bind, Nat.add_zero, hrest, ok_bind, Nat.zero_add]
        rfl
    | _ => cases h

end Hmix
