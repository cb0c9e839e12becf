import Hmix.Chain.Kept
import Hmix.Chain.Methods
import Hmix.Model.Contracts

/-!
# What is typed for a call

The run tab has a text for all arguments, and splits it at the commas. So every argument
is a text: an array cannot be given, a boolean is true unless its text is empty, and
what the contract is sent is read back as what the coders keep of the texts.
-/

namespace Hmix

open Buffer

/-- The arguments of a typed text. -/
def typed (text : String) : List AbiValue := (splitArgs text).map fun arg => .text (units arg)

/-- A name, as Solidity has them: neither parentheses nor `#` are in it. -/
def Identifier (name : String) : Prop := '(' ∉ name.toList ∧ '#' ∉ name.toList

/-! ## What a text can be -/

/-- What was written for texts has no array in it. -/
theorem Encoded.no_array {types : List String} {texts : List Units} {parts : List (Part UInt8)}
    (hlength : types.length = texts.length) (h : Encoded types (texts.map .text) parts) :
    ∀ type ∈ types, ∀ coder length, getParamCoder type ≠ .ok (.array coder length) := by
  induction types generalizing texts parts with
  | nil => simp
  | cons type types ih =>
    cases texts with
    | nil => cases hlength
    | cons text texts =>
      cases h with
      | cons hpart h =>
        rw [List.forall_mem_cons]
        refine ⟨fun coder length harray => ?_, ih (by simpa using hlength) h⟩
        obtain ⟨coder', hcoder, -, hencode⟩ := hpart
        rw [harray] at hcoder
        cases hcoder
        cases hencode

/-- The parameters of texts: none of the types is an array, and they are read as what is kept. -/
theorem encodeParams_texts {types : List String} {texts : List Units} {data : Bytes}
    (h : encodeParams types (texts.map .text) = .ok data) :
    (∀ type ∈ types, ∀ coder length, getParamCoder type ≠ .ok (.array coder length)) ∧
      Fits data ∧ ∃ kept, keptParams types (texts.map .text) = some kept ∧
        decodeParams types data = .ok kept := by
  have hvalues : ∀ v ∈ texts.map AbiValue.text, v.Indexed := by
    intro v hv
    obtain ⟨text, -, rfl⟩ := List.mem_map.1 hv
    exact indexed_text text
  obtain ⟨hlength, parts, hencoded, -, hfits⟩ := encodeParams_layout hvalues h
  exact ⟨hencoded.no_array (by simpa using hlength), hfits, decodeParams_encodeParams hvalues h⟩

theorem typed_eq (text : String) : typed text = ((splitArgs text).map units).map .text := by
  rw [typed, List.map_map]
  rfl

/-! ## Calls -/

section

variable {keccak256 : String → Units} {abi : List AbiItem} {name text : String}
  {method : AbiItem} {datahex : Units}

theorem contains_signature (item : AbiItem) : '(' ∈ item.signature.toList := by
  simp [AbiItem.signature]

theorem contains_key (item : AbiItem) : '#' ∈ item.key.toList := by
  simp [AbiItem.key, AbiItem.arityKey]

/-- By a name only the name is found, and only if it is the only one. -/
theorem findMethod_identifier (hname : Identifier name) (args : ℕ) :
    (MethodMap.ofAbi abi).findMethod name args =
      if name ∈ inheritedNames then some .inherited else (byName abi name args).map .method := by
  have hsignature : bySignature abi name = none := by
    rw [bySignature, List.find?_eq_none]
    intro item _ heq
    exact hname.1 (of_decide_eq_true heq ▸ contains_signature item)
  have hkey : byKey abi name = none := by
    have hnil : (functions abi).filter (·.key = name) = [] := by
      rw [List.filter_eq_nil_iff]
      intro item _ heq
      exact hname.2 (of_decide_eq_true heq ▸ contains_key item)
    rw [byKey, hnil]
    rfl
  rw [findMethod_eq, hsignature, hkey]
  rfl

/-- **Which functions can be found.** By its name a function is found exactly if it is the only one
of the name that takes as many arguments, and no object has the name; where there are several none
of them is. By its signature it is found, or a later one that has the same. -/
theorem findMethod_function {f : AbiItem} (hf : f ∈ functions abi) (hname : Identifier f.name) :
    let overloads := (functions abi).filter fun g =>
      g.name = f.name ∧ g.inputs.length = f.inputs.length
    ((MethodMap.ofAbi abi).findMethod f.name f.inputs.length = some (.method f) ↔
      f.name ∉ inheritedNames ∧ overloads = [f]) ∧
    (overloads ≠ [f] → ∀ g,
      (MethodMap.ofAbi abi).findMethod f.name f.inputs.length ≠ some (.method g)) ∧
    ∀ args, (MethodMap.ofAbi abi).findMethod f.signature args =
      ((functions abi).filter (·.signature = f.signature)).getLast?.map .method := by
  intro overloads
  have hmem : f ∈ overloads := List.mem_filter.2 ⟨hf, by simp⟩
  have hone (g : AbiItem) (h : byName abi f.name f.inputs.length = some g) : overloads = [f] := by
    have hsingle : overloads = [g] := only_eq_some.1 h
    rw [hsingle, List.mem_singleton] at hmem
    rw [hsingle, hmem]
  refine ⟨?_, fun hmany g hfound => ?_, fun args => ?_⟩
  · rw [findMethod_identifier hname]
    constructor
    · intro h
      split_ifs at h with hinherited
      · cases h
      · obtain ⟨g, hg, -⟩ := Option.map_eq_some_iff.1 h
        exact ⟨hinherited, hone g hg⟩
    · rintro ⟨hinherited, hoverloads⟩
      have hfound : byName abi f.name f.inputs.length = some f := by
        rw [byName]
        exact congrArg only hoverloads
      rw [if_neg hinherited, hfound]
      rfl
  · rw [findMethod_identifier hname] at hfound
    split_ifs at hfound
    · cases hfound
    · obtain ⟨g', hg', -⟩ := Option.map_eq_some_iff.1 hfound
      exact hmany (hone g' hg')
  · have hlast : bySignature abi f.signature =
        ((functions abi).filter (·.signature = f.signature)).getLast? := by
      rw [bySignature, ← List.head?_filter, List.filter_reverse, List.head?_reverse]
    have hsome : ∃ g, bySignature abi f.signature = some g := by
      rw [hlast, ← Option.isSome_iff_exists, List.getLast?_isSome]
      exact List.ne_nil_of_mem (List.mem_filter.2 ⟨hf, by simp⟩)
    obtain ⟨g, hg⟩ := hsome
    rw [findMethod_eq, ← hlast, hg]
    rfl

/-- Two functions of one name, which take a number and an address. -/
theorem findMethod_function_overloads :
    ¬ ∃ g, (MethodMap.ofAbi [⟨"function", "burn", [⟨"", "uint256", false⟩], [], false, false⟩,
      ⟨"function", "burn", [⟨"", "address", false⟩], [], false, false⟩]).findMethod "burn" 1 =
        some (.method g) := by
  rintro ⟨g, hg⟩
  exact (@findMethod_function _ ⟨"function", "burn", [⟨"", "uint256", false⟩], [], false, false⟩
    (by decide) ⟨by decide, by decide⟩).2.1 (by decide) g hg

/-- What is encoded for a call is that of the only function of the name. -/
theorem encodeCall_identifier (hname : Identifier name) {args : List AbiValue}
    (h : encodeCall keccak256 abi name args = .ok datahex) :
    ∃ method params, byName abi name args.length = some method ∧
      encodeParams method.inputTypes args = .ok params ∧
      datahex = encodeSignature keccak256 method ++ hexSlice params := by
  rw [encodeCall, findMethod_identifier hname] at h
  split_ifs at h
  · cases h
  · cases hfound : byName abi name args.length with
    | none =>
      rw [hfound] at h
      cases h
    | some method =>
      rw [hfound] at h
      obtain ⟨params, hparams, h⟩ := of_bind_ok h
      cases h
      exact ⟨method, params, rfl, hparams, rfl⟩

/-- **A typed call.** What is sent begins with the signature of the only function that has the
name and takes as many arguments, of which none is an array; and the rest of it is read as what is
kept of the texts. -/
theorem encodeCall_typed (hname : Identifier name)
    (h : encodeCall keccak256 abi name (typed text) = .ok datahex) :
    ∃ method params kept, byName abi name (splitArgs text).length = some method ∧
      (∀ type ∈ method.inputTypes, ∀ coder length,
        getParamCoder type ≠ .ok (.array coder length)) ∧
      datahex = encodeSignature keccak256 method ++ hexSlice params ∧
      hexStringToBuffer (hexSlice params) none none = .ok params ∧
      keptParams method.inputTypes (typed text) = some kept ∧
      decodeParams method.inputTypes params = .ok kept := by
  obtain ⟨method, params, hmethod, hparams, rfl⟩ := encodeCall_identifier hname h
  rw [typed_eq] at hparams ⊢
  obtain ⟨harrays, hfits, kept, hkept, hdecoded⟩ := encodeParams_texts hparams
  exact ⟨method, params, kept, by simpa [typed] using hmethod, harrays, rfl,
    hexStringToBuffer_hexSlice hfits none, hkept, hdecoded⟩

/-- What is found by a name has it, and takes as many arguments. -/
theorem byName_some {arity : ℕ} (h : byName abi name arity = some method) :
    method ∈ functions abi ∧ method.name = name ∧ method.inputs.length = arity := by
  have hmem : method ∈ (functions abi).filter fun f =>
      f.name = name ∧ f.inputs.length = arity := by
    rw [only_eq_some.1 h]
    exact List.mem_singleton_self method
  simpa using hmem

/-- One argument is the whole text, and there is some. -/
theorem splitArgs_singleton {arg : String} (h : splitArgs text = [arg]) : arg ≠ "" := by
  unfold splitArgs at h
  split_ifs at h with hempty
  intro harg
  rw [List.map_eq_singleton_iff] at h
  obtain ⟨chars, hsplit, hchars⟩ := h
  have hall : [','].intercalate (text.toList.splitOn ',') = text.toList :=
    List.intercalate_splitOn ','
  rw [hsplit] at hall
  simp only [List.intercalate, List.intersperse_singleton, List.flatten_singleton] at hall
  refine hempty (String.toList_inj.1 ?_)
  rw [← hall, ← String.toList_ofList (l := chars), hchars, harg]

theorem units_ne_nil {s : String} (h : s ≠ "") : units s ≠ [] := by
  intro hnil
  refine h (String.toList_inj.1 ?_)
  cases hlist : s.toList with
  | nil => rfl
  | cons c cs =>
    rw [units, hlist, List.flatMap_cons, List.append_eq_nil_iff] at hnil
    have hpoint := hnil.1
    unfold pointUnits at hpoint
    split_ifs at hpoint

/-- **A typed boolean.** A function of one boolean is only ever called with `true`,
whatever is typed for it. -/
theorem encodeCall_only_bool (hname : Identifier name)
    (hbool : ∀ f ∈ functions abi, f.name = name → f.inputTypes = ["bool"])
    (h : encodeCall keccak256 abi name (typed text) = .ok datahex) :
    ∃ method ∈ functions abi, method.name = name ∧
      datahex = encodeSignature keccak256 method ++ hexSlice (toBytes 32 1) := by
  obtain ⟨method, params, hfound, hparams, rfl⟩ := encodeCall_identifier hname h
  obtain ⟨hmem, hmethod, hlength⟩ := byName_some hfound
  refine ⟨method, hmem, hmethod, ?_⟩
  have htypes := hbool method hmem hmethod
  obtain ⟨arg, harg⟩ : ∃ arg, splitArgs text = [arg] := by
    rw [← List.length_eq_one_iff]
    have := congrArg List.length htypes
    rw [AbiItem.inputTypes, List.length_map, hlength] at this
    simpa [typed] using this
  have htyped : typed text = [.text (units arg)] := by rw [typed, harg]; rfl
  rw [htypes, htyped] at hparams
  obtain ⟨-, parts, hencoded, rfl, -⟩ := encodeParams_layout
    (by simpa using indexed_text (units arg)) hparams
  cases hencoded with
  | cons hpart hrest =>
    cases hrest
    obtain ⟨coder, hcoder, hdyn, hencode⟩ := hpart
    have hboolean : getParamCoder "bool" = .ok .boolean := by rfl
    rw [hboolean] at hcoder
    cases hcoder
    have htrue : (AbiValue.text (units arg)).truthy = true := by
      simpa [AbiValue.truthy] using units_ne_nil (splitArgs_singleton harg)
    rw [Coder.encode, htrue, if_pos rfl, encodeLength_eq, Nat.mod_eq_of_lt (by norm_num),
      Except.ok.injEq] at hencode
    simp [Part.layout, Part.heads, Part.tails, hdyn, Coder.dynamic, ← hencode]

/-- `function set(bool flag)`. -/
def setFlag : AbiItem := ⟨"function", "set", [⟨"flag", "bool", false⟩], [], false, false⟩

/-- The hash of `set(bool)`. -/
def setFlagHash : Units :=
  units "5f76f6abe2c52ac50be4b7636c66aec1a852a633ce947685c045490f23448acc"

/-- `false` is typed, and `true` is sent. -/
theorem encodeCall_only_bool_false : ∃ method ∈ functions [setFlag], method.name = "set" ∧
    setFlagHash.take 8 ++ hexSlice (toBytes 32 1) =
      encodeSignature (fun _ => setFlagHash) method ++ hexSlice (toBytes 32 1) := by
  refine @encodeCall_only_bool (fun _ => setFlagHash) [setFlag] "set" "false" _ ?_ ?_ ?_
  · exact ⟨by decide, by decide⟩
  · decide
  · exact of_toOption (by decide +kernel)

/-! ## Deployments -/

/-- **Nothing typed is never refused**: a contract is deployed without arguments, however many its
constructor takes. -/
theorem encodeConstructorParams_nil (abi : List AbiItem) :
    encodeConstructorParams abi [] = .ok [] := by
  have htypes : ((abi.filter fun method => method.type = "constructor" ∧
      method.inputs.length = ([] : List AbiValue).length).map AbiItem.inputTypes).head?.getD [] =
      [] := by
    generalize hfound : abi.filter _ = found
    cases found with
    | nil => rfl
    | cons method rest =>
      have hmem : method ∈ abi.filter fun method => method.type = "constructor" ∧
          method.inputs.length = ([] : List AbiValue).length := by
        rw [hfound]
        simp
      rw [List.mem_filter, decide_eq_true_eq, List.length_nil, List.length_eq_zero_iff] at hmem
      simp [AbiItem.inputTypes, hmem.2.2]
  rw [encodeConstructorParams, htypes]
  rfl

theorem splitArgs_ne_nil (hne : text ≠ "") : splitArgs text ≠ [] := by
  rw [splitArgs, if_neg hne]
  simp

/-- What is sent behind the code for arguments: those of a constructor that takes as many. -/
theorem encodeConstructorParams_typed {calldata : Units} (hne : text ≠ "")
    (h : encodeConstructorParams abi (typed text) = .ok calldata) :
    ∃ method ∈ abi, method.type = "constructor" ∧
      method.inputs.length = (splitArgs text).length ∧ ∃ params, calldata = hexSlice params ∧
        encodeParams method.inputTypes (typed text) = .ok params := by
  have hlength : (typed text).length = (splitArgs text).length := by rw [typed, List.length_map]
  rw [encodeConstructorParams] at h
  generalize hfound : abi.filter (fun method => decide (method.type = "constructor" ∧
    method.inputs.length = (typed text).length)) = found at h
  cases found with
  | nil =>
    obtain ⟨params, hparams, -⟩ := of_bind_ok h
    rw [encodeParams, if_pos] at hparams
    · cases hparams
    · rw [hlength]
      simpa [eq_comm] using splitArgs_ne_nil hne
  | cons method rest =>
    have hmem : method ∈ abi.filter (fun method => decide (method.type = "constructor" ∧
        method.inputs.length = (typed text).length)) := by
      rw [hfound]
      simp
    rw [List.mem_filter, decide_eq_true_eq, hlength] at hmem
    obtain ⟨params, hparams, h⟩ := of_bind_ok h
    cases h
    exact ⟨method, hmem.1, hmem.2.1, hmem.2.2, params, rfl, hparams⟩

/-- **What a deployment is given.** Nothing typed is never refused, however many arguments
the constructor takes. What is typed goes by a constructor that takes as many, none
of them an array, and is read as what is kept of the texts. -/
theorem encodeConstructorParams_spec (abi : List AbiItem) :
    encodeConstructorParams abi (typed "") = .ok [] ∧
      ∀ text calldata, text ≠ "" → encodeConstructorParams abi (typed text) = .ok calldata →
        ∃ method ∈ abi, method.type = "constructor" ∧
          method.inputs.length = (splitArgs text).length ∧
          (∀ type ∈ method.inputTypes, ∀ coder length,
            getParamCoder type ≠ .ok (.array coder length)) ∧
          ∃ params kept, hexStringToBuffer calldata none none = .ok params ∧
            keptParams method.inputTypes (typed text) = some kept ∧
            decodeParams method.inputTypes params = .ok kept := by
  refine ⟨encodeConstructorParams_nil abi, fun text calldata hne h => ?_⟩
  obtain ⟨method, hmem, htype, hlength, params, rfl, hparams⟩ :=
    encodeConstructorParams_typed hne h
  rw [typed_eq] at hparams
  obtain ⟨harrays, hfits, kept, hkept, hdecoded⟩ := encodeParams_texts hparams
  exact ⟨method, hmem, htype, hlength, harrays, params, kept,
    hexStringToBuffer_hexSlice hfits none, by rwa [typed_eq], hdecoded⟩

end

end Hmix
