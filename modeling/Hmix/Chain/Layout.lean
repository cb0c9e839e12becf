import Hmix.Chain.Types

/-!
# The layout of parameters

The loop of `encodeParams` copies the parts into zeros, each head at the offset and each
tail at the dynamic offset, and what comes out is the layout of heads and tails. `decodeParams`
reads it in order, so a call's arguments come back as what their coders keep of them.
-/

namespace Hmix

open Buffer

/-- The word of an offset. -/
def offsetWord (n : ℕ) : Bytes := toBytes 32 (n % 2 ^ 256)

@[simp] theorem length_offsetWord (n : ℕ) : (offsetWord n).length = 32 :=
  length_toBytes ((Nat.mod_lt n (by norm_num)).trans_eq (by norm_num))

theorem byteValue_offsetWord {n : ℕ} (h : n < 2 ^ 256) : byteValue (offsetWord n) = n := by
  rw [offsetWord, byteValue_toBytes, Nat.mod_eq_of_lt h]

/-- The word of an offset in the data is read. -/
theorem reads_offsetWord (n : ℕ) (h : n < 0x80000000) :
    Reads Fits decodeLength (offsetWord n) n := by
  have hsmall : n < 2 ^ 53 := h.trans (by norm_num)
  have hvalue : byteValue (offsetWord n) = n :=
    byteValue_offsetWord (hsmall.trans (by norm_num))
  have hread := reads_length (length_offsetWord n) (hvalue.trans_lt hsmall)
  rwa [hvalue] at hread

theorem encodeLength_word (n : ℕ) : encodeLength n = .ok (offsetWord n) := encodeLength_eq n

/-! ## The copying loop -/

/-- What is copied takes the place of as many bytes. -/
theorem copy_middle {source middle : Bytes} (front behind : Bytes)
    (h : source.length = middle.length) :
    copy source (front ++ middle ++ behind) front.length = front ++ source ++ behind := by
  rw [copy]
  have hmin : min front.length (front ++ middle ++ behind).length = front.length := by
    simp only [List.length_append]
    omega
  have hsource : source.take ((front ++ middle ++ behind).length - front.length) = source := by
    refine List.take_of_length_le ?_
    simp only [List.length_append]
    omega
  rw [hmin, hsource, List.append_assoc front, List.take_left, ← List.append_assoc front, h,
    ← List.length_append, List.drop_left]

/-- A part of which nothing has to be filled up. -/
def Aligned (part : Part UInt8) : Prop := 32 ∣ part.value.length

theorem alignSize_of_dvd {n : ℕ} (h : 32 ∣ n) : alignSize n = n := by
  unfold alignSize
  omega

/-- A round, of a part that is dynamic: the offset is written, and the value there. -/
theorem copyPart_dynamic {p : Part UInt8} (hdyn : p.dynamic) (haligned : Aligned p)
    (front middle : Bytes) (heads rest : ℕ) :
    copyPart (front ++ List.replicate (32 + heads) 0 ++ middle ++
        List.replicate (p.value.length + rest) 0, front.length,
        front.length + (32 + heads) + middle.length) p =
      .ok ((front ++ offsetWord (front.length + (32 + heads) + middle.length)) ++
          List.replicate heads 0 ++ (middle ++ p.value) ++ List.replicate rest 0,
        front.length + 32, front.length + (32 + heads) + middle.length + p.value.length) := by
  generalize hoffset : front.length + (32 + heads) + middle.length = offset
  have hhead := copy_middle front
    (List.replicate heads 0 ++ middle ++ List.replicate (p.value.length + rest) 0)
    (show (offsetWord offset).length = (List.replicate 32 0).length by simp)
  have htail := copy_middle (front ++ offsetWord offset ++ List.replicate heads 0 ++ middle)
    (List.replicate rest 0) (show p.value.length = (List.replicate p.value.length 0).length by simp)
  have hfront :
      (front ++ offsetWord offset ++ List.replicate heads 0 ++ middle).length = offset := by
    simp only [List.length_append, length_offsetWord, List.length_replicate]
    omega
  rw [hfront] at htail
  rw [copyPart]
  simp only [hdyn, if_true, encodeLength_word, ok_bind, alignSize_of_dvd haligned]
  rw [List.replicate_add, List.replicate_add]
  simp only [List.append_assoc] at hhead htail ⊢
  rw [List.replicate_add] at hhead
  rw [hhead, htail]
  rfl

/-- A round, of one that is static. -/
theorem copyPart_static {p : Part UInt8} (hdyn : p.dynamic = false) (haligned : Aligned p)
    (front behind : Bytes) (heads offset : ℕ) :
    copyPart
        (front ++ List.replicate (p.value.length + heads) 0 ++ behind, front.length, offset) p =
      .ok ((front ++ p.value) ++ List.replicate heads 0 ++ behind, front.length + p.value.length,
        offset) := by
  have hcopy := copy_middle front (List.replicate heads 0 ++ behind)
    (show p.value.length = (List.replicate p.value.length 0).length by simp)
  rw [copyPart]
  simp only [hdyn, Bool.false_eq_true, if_false, alignSize_of_dvd haligned]
  rw [List.replicate_add]
  simp only [List.append_assoc] at hcopy ⊢
  rw [hcopy]
  rfl

/-- **The loop writes the layout**: the heads that are left, and the tails, into zeros. -/
theorem foldlM_copyPart {parts : List (Part UInt8)} (haligned : ∀ p ∈ parts, Aligned p)
    (front middle : Bytes) :
    ∃ offsets, parts.foldlM copyPart
        (front ++ List.replicate (parts.map (Part.headSize 32)).sum 0 ++ middle ++
          List.replicate (parts.map Part.tailSize).sum 0, front.length,
          front.length + (parts.map (Part.headSize 32)).sum + middle.length) =
      (.ok (front ++ Part.heads offsetWord
        (front.length + (parts.map (Part.headSize 32)).sum + middle.length) parts ++ middle ++
          Part.tails parts, offsets) : Coding (Bytes × ℕ × ℕ)) := by
  induction parts generalizing front middle with
  | nil => exact ⟨_, by simp [Part.heads, Part.tails]; rfl⟩
  | cons p parts ih =>
    have hp := haligned p (by simp)
    have hrest := fun q (hq : q ∈ parts) => haligned q (List.mem_cons_of_mem p hq)
    simp only [List.map_cons, List.sum_cons, Part.heads, List.foldlM_cons]
    rw [Part.tails, List.flatMap_cons, ← Part.tails]
    cases hdyn : p.dynamic
    · obtain ⟨offsets, hgo⟩ := ih hrest (front ++ p.value) middle
      refine ⟨offsets, ?_⟩
      simp only [Part.headSize, Part.tailSize, hdyn, Bool.false_eq_true, if_false, Nat.zero_add]
      have hround := copyPart_static hdyn hp front
        (middle ++ List.replicate (parts.map Part.tailSize).sum 0)
        (parts.map (Part.headSize 32)).sum
        (front.length + (p.value.length + (parts.map (Part.headSize 32)).sum) + middle.length)
      rw [List.length_append] at hgo
      simp only [← List.append_assoc, ← Nat.add_assoc] at hround hgo ⊢
      rw [hround, ok_bind, hgo]
      simp
    · obtain ⟨offsets, hgo⟩ := ih hrest
        (front ++ offsetWord (front.length + (32 + (parts.map (Part.headSize 32)).sum) +
          middle.length)) (middle ++ p.value)
      refine ⟨offsets, ?_⟩
      simp only [Part.headSize, Part.tailSize, hdyn, if_true]
      rw [copyPart_dynamic hdyn hp, ok_bind]
      simp only [List.length_append, length_offsetWord, ← List.append_assoc,
        ← Nat.add_assoc] at hgo ⊢
      rw [hgo]

/-! ## Parameters -/

/-- The parts of a call's parameters: by its coder, each value is written into one. -/
def Encoded (types : List String) (values : List AbiValue) (parts : List (Part UInt8)) : Prop :=
  List.Forall₂ (fun (tv : String × AbiValue) part => ∃ coder, getParamCoder tv.1 = .ok coder ∧
    part.dynamic = coder.dynamic ∧ coder.encode tv.2 = .ok part.value) (types.zip values) parts

/-- What the coders of the types keep of the values. -/
def keptParams (types : List String) (values : List AbiValue) : Option (List AbiValue) :=
  (types.zip values).mapM fun (type, value) => do
    (← (getParamCoder type).toOption).kept value

/-- Slots of the types: each is read by its coder. -/
def Slotted (types : List String) (slots : List (Slot AbiError UInt8 AbiValue)) : Prop :=
  List.Forall₂ (fun type s => ∃ coder, getParamCoder type = .ok coder ∧
    s.part.dynamic = coder.dynamic ∧ s.read = coder.decode) types slots

/-- **Parts that were written are slots of the layout**, of what is kept of the values. -/
theorem Encoded.slots {types : List String} {values : List AbiValue} {parts : List (Part UInt8)}
    (hvalues : ∀ v ∈ values, v.Indexed) (hlength : types.length = values.length)
    (h : Encoded types values parts) :
    ∃ slots : List (Slot AbiError UInt8 AbiValue), slots.map Slot.part = parts ∧
      Slotted types slots ∧ keptParams types values = some (slots.map Slot.value) ∧
      ∀ s ∈ slots, Reads Fits s.read s.part.value s.value ∧ Aligned s.part ∧
        (s.part.dynamic → s.part.value ≠ []) := by
  induction types generalizing values parts with
  | nil =>
    cases h
    exact ⟨[], rfl, .nil, rfl, by simp⟩
  | cons type types ih =>
    cases values with
    | nil => cases hlength
    | cons value values =>
      cases h with
      | @cons _ part _ parts hpart h =>
        obtain ⟨coder, hcoder, hdyn, hencode⟩ := hpart
        have hproper := (getParamCoder_iff.1 hcoder).proper
        obtain ⟨v, hv⟩ := Coder.encode_written hproper (fun _ => hvalues value (by simp)) hencode
        obtain ⟨slots, hparts, hslotted, hkept, hslots⟩ :=
          ih (fun v' hv' => hvalues v' (List.mem_cons_of_mem _ hv')) (by simpa using hlength) h
        refine ⟨⟨part, coder.decode, v⟩ :: slots, by rw [List.map_cons, hparts],
          .cons ⟨coder, hcoder, hdyn, rfl⟩ hslotted, ?_, ?_⟩
        · rw [keptParams, List.zip_cons_cons, List.mapM_cons, ← keptParams, hkept]
          simp [hcoder, Except.toOption, hv.kept]
        · rw [List.forall_mem_cons]
          exact ⟨⟨hv.reads, hv.aligned, fun hd => hv.nonempty (hdyn ▸ hd)⟩, hslots⟩

/-- Parts that were written fill whole words. -/
theorem Encoded.aligned {types : List String} {values : List AbiValue} {parts : List (Part UInt8)}
    (hvalues : ∀ v ∈ values, v.Indexed) (hlength : types.length = values.length)
    (h : Encoded types values parts) : ∀ p ∈ parts, Aligned p := by
  obtain ⟨slots, rfl, -, -, hslots⟩ := h.slots hvalues hlength
  intro p hp
  obtain ⟨s, hs, rfl⟩ := List.mem_map.1 hp
  exact (hslots s hs).2.1

/-- The parts are what the first loop of `encodeParams` returns. -/
theorem encoded_iff {types : List String} {values : List AbiValue} {parts : List (Part UInt8)} :
    ((types.zip values).mapM fun (type, value) => do
        let coder ← getParamCoder type
        return Part.mk coder.dynamic (← coder.encode value)) = .ok parts ↔
      Encoded types values parts := by
  rw [mapM_eq_ok]
  constructor
  · refine fun hparts => hparts.imp fun tv part hpart => ?_
    obtain ⟨coder, hcoder, hpart⟩ := of_bind_ok hpart
    obtain ⟨value, hvalue, hpart⟩ := of_bind_ok hpart
    cases hpart
    exact ⟨coder, hcoder, rfl, hvalue⟩
  · refine fun hparts => hparts.imp fun tv part hpart => ?_
    obtain ⟨coder, hcoder, hdyn, hencode⟩ := hpart
    simp only [hcoder, ok_bind, hencode, ← hdyn]
    rfl

/-- What was encoded was written part by part. -/
theorem encoded_of_ok {types : List String} {values : List AbiValue} {data : Bytes}
    (h : encodeParams types values = .ok data) :
    types.length = values.length ∧ ∃ parts, Encoded types values parts := by
  rw [encodeParams] at h
  split_ifs at h with hlength
  obtain ⟨parts, hparts, -⟩ := of_bind_ok h
  exact ⟨not_not.1 hlength, parts, encoded_iff.1 hparts⟩

/-- Parts that were written are laid out, if there is a buffer as large. -/
theorem encodeParams_parts {types : List String} {values : List AbiValue}
    {parts : List (Part UInt8)} (hvalues : ∀ v ∈ values, v.Indexed)
    (hlength : types.length = values.length) (h : Encoded types values parts) :
    encodeParams types values = if maxLength ≤ (Part.layout 32 offsetWord parts).length then
      .error .rangeError else .ok (Part.layout 32 offsetWord parts) := by
  have haligned := h.aligned hvalues hlength
  have hheads : (parts.map fun part => if part.dynamic then 32 else alignSize part.value.length) =
      parts.map (Part.headSize 32) :=
    List.map_congr_left fun p hp => by rw [alignSize_of_dvd (haligned p hp), Part.headSize]
  have htails : (parts.map fun part => if part.dynamic then alignSize part.value.length else 0) =
      parts.map Part.tailSize :=
    List.map_congr_left fun p hp => by rw [alignSize_of_dvd (haligned p hp), Part.tailSize]
  obtain ⟨offsets, hcopied⟩ := foldlM_copyPart haligned [] []
  simp only [List.nil_append, List.append_nil, List.length_nil, Nat.zero_add,
    Nat.add_zero] at hcopied
  rw [encodeParams, if_neg (not_not.2 hlength), encoded_iff.2 h, ok_bind]
  simp only [hheads, htails, checked, List.length_replicate]
  rw [Part.length_layout length_offsetWord]
  split_ifs
  · rfl
  · rw [pure_bind, List.replicate_add, hcopied]
    rfl

/-- **`encodeParams` writes the layout**, of parts that the coders wrote. -/
theorem encodeParams_layout {types : List String} {values : List AbiValue} {data : Bytes}
    (hvalues : ∀ v ∈ values, v.Indexed) (h : encodeParams types values = .ok data) :
    types.length = values.length ∧ ∃ parts, Encoded types values parts ∧
      data = Part.layout 32 offsetWord parts ∧ Fits data := by
  obtain ⟨hlength, parts, hparts⟩ := encoded_of_ok h
  rw [encodeParams_parts hvalues hlength hparts] at h
  split_ifs at h with hsize
  cases h
  refine ⟨hlength, parts, hparts, rfl, ?_⟩
  exact lt_trans (not_le.1 hsize) (by norm_num [maxLength])

/-- **What `encodeParams` returns**: as many values as there are types are written part by part,
and laid out with the static ones in their places, and behind these the dynamic ones. Nothing else
is refused but what is too large for a buffer. -/
theorem encodeParams_iff {types : List String} {values : List AbiValue} {data : Bytes}
    (hvalues : ∀ v ∈ values, v.Indexed) :
    encodeParams types values = .ok data ↔
      types.length = values.length ∧ data.length < maxLength ∧
        ∃ parts, Encoded types values parts ∧ (∀ p ∈ parts, 32 ∣ p.value.length) ∧
          data = Part.layout 32 offsetWord parts := by
  constructor
  · intro h
    obtain ⟨hlength, parts, hparts, rfl, -⟩ := encodeParams_layout hvalues h
    rw [encodeParams_parts hvalues hlength hparts] at h
    split_ifs at h with hsize
    exact ⟨hlength, not_le.1 hsize, parts, hparts, hparts.aligned hvalues hlength, rfl⟩
  · rintro ⟨hlength, hsize, parts, hparts, -, rfl⟩
    rw [encodeParams_parts hvalues hlength hparts, if_neg (not_le.2 hsize)]

/-- A boolean, and two bytes of which the first is 0. -/
theorem encodeParams_iff_pair :
    encodeParams ["bool", "bytes"] [.flag true, .text (units "0x102")] =
        .ok (toBytes 32 1 ++ toBytes 32 64 ++ toBytes 32 2 ++ [1, 2] ++ List.replicate 30 0) ∧
      ∃ parts, Encoded ["bool", "bytes"] [.flag true, .text (units "0x102")] parts ∧
        (∀ p ∈ parts, 32 ∣ p.value.length) ∧
        toBytes 32 1 ++ toBytes 32 64 ++ toBytes 32 2 ++ [1, 2] ++ List.replicate 30 0 =
          Part.layout 32 offsetWord parts := by
  have hencoded : encodeParams ["bool", "bytes"] [.flag true, .text (units "0x102")] =
      .ok (toBytes 32 1 ++ toBytes 32 64 ++ toBytes 32 2 ++ [1, 2] ++ List.replicate 30 0) :=
    of_toOption (by decide +kernel)
  have hvalues : ∀ v ∈ [AbiValue.flag true, .text (units "0x102")], v.Indexed := by
    simp [AbiValue.Indexed]
  exact ⟨hencoded, ((encodeParams_iff hvalues).1 hencoded).2.2⟩

/-- `decodeParams` reads the slots of its types. -/
theorem decodeLoop_eq {types : List String} {slots : List (Slot AbiError UInt8 AbiValue)}
    (h : Slotted types slots) (data : Bytes) (offset : ℕ) :
    decodeLoop data offset types =
      readParts decodeLength data offset (slots.map fun s => (s.part.dynamic, s.read)) := by
  induction h generalizing offset with
  | nil => rfl
  | @cons type s types slots hs _ ih =>
    obtain ⟨coder, hcoder, hdyn, hread⟩ := hs
    have hparam : readPart decodeLength coder.dynamic coder.decode data offset =
      readParam coder data offset := rfl
    rw [List.map_cons, decodeLoop, hcoder, ok_bind, readParts, hdyn, hread, hparam]
    simp only [ih]

/-- **The round trip of parameters**: what `encodeParams` wrote, `decodeParams` reads as what
the coders keep of the values. -/
theorem decodeParams_encodeParams {types : List String} {values : List AbiValue} {data : Bytes}
    (hvalues : ∀ v ∈ values, v.Indexed) (h : encodeParams types values = .ok data) :
    ∃ kept, keptParams types values = some kept ∧ decodeParams types data = .ok kept := by
  obtain ⟨hlength, parts, hencoded, rfl, hfits⟩ := encodeParams_layout hvalues h
  obtain ⟨slots, rfl, hslotted, hkept, hslots⟩ := hencoded.slots hvalues hlength
  refine ⟨slots.map Slot.value, hkept, ?_⟩
  rw [decodeParams, decodeLoop_eq hslotted]
  exact readParts_layout length_offsetWord reads_offsetWord (fun _ hdata => hdata.le)
    (fun s hs => (hslots s hs).1) (fun s hs => (hslots s hs).2.2) hfits

end Hmix
