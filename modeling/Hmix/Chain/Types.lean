import Hmix.Chain.Coders

/-!
# Types that are read

`getParamCoder` takes a type apart from the left: a name with its digits, and then
brackets. What it accepts is a grammar, and of every type in it there is one coder. Brackets
behind a part that is dynamic are refused, so there are no arrays of texts, and only
the last brackets may be empty.
-/

namespace Hmix

/-! ## The grammar -/

/-- Digits, which may be none. -/
def Numeric (digits : List Char) : Prop := ∀ c ∈ digits, c.isDigit

/-- The name that a type begins with, and the coder of it. -/
inductive BaseType : List Char → Coder → Prop
  | address : BaseType "address".toList .address
  | bool : BaseType "bool".toList .boolean
  | string : BaseType "string".toList .string
  | bytes : BaseType "bytes".toList .dynamicBytes
  | fixedBytes {digits} (hdigits : Numeric digits) (hne : digits ≠ [])
      (hsize : Sized (parseDigits digits)) :
      BaseType ("bytes".toList ++ digits) (.fixedBytes (parseDigits digits))
  | number {digits size} (signed : Bool) (hdigits : Numeric digits)
      (hbits : (if digits = [] then 256 else parseDigits digits) = size * 8)
      (hsize : Sized size) :
      BaseType ((if signed then "int" else "uint").toList ++ digits) (.number size signed)

/-- The brackets behind it. -/
inductive Bracketed : Coder → List Char → Coder → Prop
  | nil (coder : Coder) : Bracketed coder [] coder
  | brackets {coder coder' : Coder} {digits rest : List Char} (hstatic : coder.dynamic = false)
      (hdigits : Numeric digits)
      (hrest : Bracketed
        (.array coder (if digits = [] then none else some (parseDigits digits))) rest coder') :
      Bracketed coder ('[' :: digits ++ ']' :: rest) coder'

/-- **A type, and its coder.** -/
def Typed (type : List Char) (coder : Coder) : Prop :=
  ∃ name rest base, type = name ++ rest ∧ BaseType name base ∧ Bracketed base rest coder

theorem BaseType.proper {name : List Char} {coder : Coder} (h : BaseType name coder) :
    coder.Proper := by
  cases h with
  | fixedBytes _ _ hsize => exact hsize
  | number _ _ _ hsize => exact hsize
  | _ => trivial

theorem Bracketed.proper {coder coder' : Coder} {rest : List Char}
    (h : Bracketed coder rest coder') (hproper : coder.Proper) : coder'.Proper := by
  induction h with
  | nil => exact hproper
  | brackets hstatic _ _ ih => exact ih ⟨hstatic, hproper⟩

/-- A coder of the grammar is proper. -/
theorem Typed.proper {type : List Char} {coder : Coder} (h : Typed type coder) :
    coder.Proper := by
  obtain ⟨name, rest, base, -, hname, hrest⟩ := h
  exact hrest.proper hname.proper

/-! ## A part -/

/-- The part's text. -/
def TypePart.text : TypePart → List Char
  | .sized name digits => name ++ digits
  | .plain name => name
  | .brackets digits => '[' :: digits ++ [']']

/-- A part that the pattern can match, where `rest` is behind it. -/
inductive TypePart.Matches : TypePart → List Char → Prop
  | sized {name digits rest} (hname : name ∈ ["uint", "int", "bytes"].map String.toList)
      (hdigits : Numeric digits) (hrest : ∀ c ∈ rest.head?, ¬ c.isDigit) :
      TypePart.Matches (.sized name digits) rest
  | plain {name rest} (hname : name ∈ ["address", "bool", "string"].map String.toList) :
      TypePart.Matches (.plain name) rest
  | brackets {digits rest} (hdigits : Numeric digits) : TypePart.Matches (.brackets digits) rest

theorem leadingDigits_spec (type : List Char) :
    type = (leadingDigits type).1 ++ (leadingDigits type).2 ∧ Numeric (leadingDigits type).1 ∧
      ∀ c ∈ (leadingDigits type).2.head?, ¬ c.isDigit := by
  rw [leadingDigits, List.span_eq_takeWhile_dropWhile]
  refine ⟨List.takeWhile_append_dropWhile.symm, fun c hc => List.mem_takeWhile_imp hc, ?_⟩
  intro c hc
  have := List.head?_dropWhile_not Char.isDigit type
  rw [Option.mem_def.1 hc] at this
  simpa using this

/-- Digits are read up to what is none. -/
theorem leadingDigits_append {digits rest : List Char} (hdigits : Numeric digits)
    (hrest : ∀ c ∈ rest.head?, ¬ c.isDigit) : leadingDigits (digits ++ rest) = (digits, rest) := by
  rw [leadingDigits, List.span_eq_takeWhile_dropWhile, List.takeWhile_append_of_pos hdigits,
    List.dropWhile_append_of_pos hdigits]
  cases rest with
  | nil => simp
  | cons c rest =>
    have := hrest c (by simp)
    simp [this]

/-- The name that a type was found to begin with. -/
theorem named_sound {names : List (List Char)} {type name rest : List Char}
    (h : names.findSome? (fun name => if name.isPrefixOf type then
      some (name, type.drop name.length) else none) = some (name, rest)) :
    name ∈ names ∧ type = name ++ rest := by
  obtain ⟨found, hmem, hfound⟩ := List.exists_of_findSome?_eq_some h
  split_ifs at hfound with hprefix
  cases hfound
  rw [List.isPrefixOf_iff_prefix] at hprefix
  exact ⟨hmem, (List.prefix_iff_eq_append.1 hprefix).symm⟩

theorem matchPart_sound {type rest : List Char} {part : TypePart}
    (h : matchPart type = some (part, rest)) :
    type = part.text ++ rest ∧ TypePart.Matches part rest := by
  unfold matchPart at h
  dsimp only at h
  split at h
  · next name behind hname =>
    obtain ⟨hmem, rfl⟩ := named_sound hname
    obtain ⟨hsplit, hdigits, hrest⟩ := leadingDigits_spec behind
    cases h
    exact ⟨by rw [TypePart.text, List.append_assoc, ← hsplit], .sized hmem hdigits hrest⟩
  · split at h
    · next name behind hname =>
      obtain ⟨hmem, rfl⟩ := named_sound hname
      cases h
      exact ⟨rfl, .plain hmem⟩
    · split at h
      · next behind _ _ =>
        obtain ⟨hsplit, hdigits, -⟩ := leadingDigits_spec behind
        split at h
        · next digits behind' hlead =>
          cases h
          rw [hlead] at hsplit hdigits
          exact ⟨by simp [TypePart.text, hsplit], .brackets hdigits⟩
        · cases h
      · cases h

theorem matchPart_complete {rest : List Char} {part : TypePart} (h : TypePart.Matches part rest) :
    matchPart (part.text ++ rest) = some (part, rest) := by
  have htexts : "uint".toList = ['u', 'i', 'n', 't'] ∧ "int".toList = ['i', 'n', 't'] ∧
      "bytes".toList = ['b', 'y', 't', 'e', 's'] ∧
      "address".toList = ['a', 'd', 'd', 'r', 'e', 's', 's'] ∧
      "bool".toList = ['b', 'o', 'o', 'l'] ∧
      "string".toList = ['s', 't', 'r', 'i', 'n', 'g'] := by decide
  obtain ⟨huint, hint, hbytes, haddress, hbool, hstring⟩ := htexts
  cases h with
  | sized hname hdigits hrest =>
    have hlead := leadingDigits_append hdigits hrest
    simp only [List.map_cons, List.map_nil, List.mem_cons, List.not_mem_nil, or_false, huint,
      hint, hbytes] at hname
    rcases hname with rfl | rfl | rfl <;>
      simp [matchPart, TypePart.text, huint, hint, hbytes, hlead]
  | plain hname =>
    simp only [List.map_cons, List.map_nil, List.mem_cons, List.not_mem_nil, or_false, haddress,
      hbool, hstring] at hname
    rcases hname with rfl | rfl | rfl <;>
      simp [matchPart, TypePart.text, huint, hint, hbytes, haddress, hbool, hstring]
  | @brackets digits _ hdigits =>
    have hlead : leadingDigits (digits ++ ']' :: rest) = (digits, ']' :: rest) :=
      leadingDigits_append hdigits (by simp)
    simp [matchPart, TypePart.text, huint, hint, hbytes, haddress, hbool, hstring, hlead]

/-! ## The loop -/

/-- Behind a coder there can only be brackets. -/
theorem extendCoder_some {invalid : AbiError} {coder coder' : Coder} {part : TypePart}
    {type : List Char} : extendCoder invalid (some coder) part type = .ok coder' ↔
      ∃ digits, part = .brackets digits ∧ coder.dynamic = false ∧
        coder' = .array coder (if digits = [] then none else some (parseDigits digits)) := by
  cases part with
  | brackets digits =>
    rw [extendCoder]
    constructor
    · intro h
      by_cases hdyn : coder.dynamic
      · rw [if_pos hdyn] at h
        cases h
      · rw [if_neg hdyn] at h
        exact ⟨digits, rfl, by simpa using hdyn, (Except.ok.inj h).symm⟩
    · rintro ⟨digits', hpart, hstatic, rfl⟩
      cases hpart
      simp only [hstatic, Bool.false_eq_true, if_false]
      rfl
  | _ =>
    constructor
    · intro h
      cases h
    · rintro ⟨digits', hpart, -⟩
      cases hpart

theorem coderLoop_sound {invalid : AbiError} {fuel : ℕ} {coder : Coder} {type : List Char}
    {result : Option Coder} (hfuel : type.length ≤ fuel)
    (h : coderLoop invalid fuel (some coder) type = .ok result) :
    ∃ coder', result = some coder' ∧ Bracketed coder type coder' := by
  induction fuel generalizing coder type with
  | zero =>
    cases h
    rw [Nat.le_zero, List.length_eq_zero_iff] at hfuel
    subst hfuel
    exact ⟨coder, rfl, .nil coder⟩
  | succ fuel ih =>
    rw [coderLoop] at h
    split_ifs at h with hnil
    · cases h
      subst hnil
      exact ⟨coder, rfl, .nil coder⟩
    · split at h
      · cases h
      · next part rest hpart =>
        obtain ⟨extended, hextend, h⟩ := of_bind_ok h
        obtain ⟨digits, rfl, hstatic, rfl⟩ := extendCoder_some.1 hextend
        obtain ⟨rfl, hmatches⟩ := matchPart_sound hpart
        cases hmatches with
        | brackets hdigits =>
          have hlength : rest.length ≤ fuel := by
            simp only [TypePart.text, List.length_append, List.length_cons,
              List.length_nil] at hfuel
            omega
          obtain ⟨coder', hresult, hrest⟩ := ih hlength h
          refine ⟨coder', hresult, ?_⟩
          rw [TypePart.text, List.append_assoc]
          exact .brackets hstatic hdigits hrest

/-- The loop takes brackets off, and goes on with what is behind them. -/
theorem Bracketed.coderLoop {invalid : AbiError} {coder coder' : Coder} {type : List Char}
    (h : Bracketed coder type coder') (rest : List Char) {fuel : ℕ}
    (hfuel : (type ++ rest).length ≤ fuel) :
    ∃ n, rest.length ≤ n ∧ Hmix.coderLoop invalid fuel (some coder) (type ++ rest) =
      Hmix.coderLoop invalid n (some coder') rest := by
  induction h generalizing fuel with
  | nil coder => exact ⟨fuel, hfuel, rfl⟩
  | @brackets coder coder' digits behind hstatic hdigits _ ih =>
    obtain ⟨fuel, rfl⟩ : ∃ n, fuel = n + 1 := by
      cases fuel with
      | zero => simp at hfuel
      | succ n => exact ⟨n, rfl⟩
    have hmatches : TypePart.Matches (.brackets digits) (behind ++ rest) := .brackets hdigits
    have hpart := matchPart_complete hmatches
    rw [TypePart.text, List.append_assoc, List.singleton_append] at hpart
    have hlength : (behind ++ rest).length ≤ fuel := by
      simp only [List.length_append, List.length_cons] at hfuel ⊢
      omega
    obtain ⟨n, hn, hgo⟩ := ih hlength
    refine ⟨n, hn, ?_⟩
    simp only [List.append_assoc, List.cons_append] at hpart ⊢
    rw [Hmix.coderLoop, if_neg (by simp), hpart]
    dsimp only
    rw [extendCoder_some.2 ⟨digits, rfl, hstatic, rfl⟩, ok_bind, hgo]

/-- What is in front of everything is a name. -/
theorem extendCoder_none {invalid : AbiError} {coder : Coder} {part : TypePart}
    {type rest : List Char} (hmatches : TypePart.Matches part rest)
    (h : extendCoder invalid none part type = .ok coder) : BaseType part.text coder := by
  cases hmatches with
  | @sized name digits _ hname hdigits _ =>
    simp only [extendCoder, Option.isSome_none, Bool.false_eq_true, if_false] at h
    simp only [List.map_cons, List.map_nil, List.mem_cons, List.not_mem_nil, or_false] at hname
    rw [TypePart.text]
    generalize hbits : (if digits = [] then 256 else parseDigits digits) = bits at h
    rcases hname with rfl | rfl | rfl
    · rw [if_neg (by decide)] at h
      split_ifs at h with hsize
      cases h
      exact .number false hdigits (by omega) ⟨by omega, by omega⟩
    · rw [if_neg (by decide)] at h
      split_ifs at h with hsize
      cases h
      exact .number true hdigits (by omega) ⟨by omega, by omega⟩
    · rw [if_pos rfl] at h
      split_ifs at h with hempty hsize
      · cases h
        subst hempty
        exact .bytes
      · cases h
        exact .fixedBytes hdigits hempty ⟨by omega, by omega⟩
  | plain hname =>
    simp only [extendCoder, Option.isSome_none, Bool.false_eq_true, if_false] at h
    simp only [List.map_cons, List.map_nil, List.mem_cons, List.not_mem_nil, or_false] at hname
    rcases hname with rfl | rfl | rfl
    · rw [if_neg (by decide), if_neg (by decide)] at h
      cases h
      exact .address
    · rw [if_pos rfl] at h
      cases h
      exact .bool
    · rw [if_neg (by decide), if_pos rfl] at h
      cases h
      exact .string
  | brackets => cases h

/-- A name is a part, and it is read. -/
theorem BaseType.part {name rest : List Char} {coder : Coder} (h : BaseType name coder)
    (hrest : ∀ c ∈ rest.head?, ¬ c.isDigit) (invalid : AbiError) (type : List Char) :
    ∃ part, part.text = name ∧ TypePart.Matches part rest ∧
      extendCoder invalid none part type = .ok coder := by
  cases h with
  | address => exact ⟨.plain _, rfl, .plain (by decide), rfl⟩
  | bool => exact ⟨.plain _, rfl, .plain (by decide), rfl⟩
  | string => exact ⟨.plain _, rfl, .plain (by decide), rfl⟩
  | bytes =>
    exact ⟨.sized "bytes".toList [], rfl, .sized (by decide) (by simp [Numeric]) hrest, rfl⟩
  | @fixedBytes digits hdigits hne hsize =>
    refine ⟨.sized "bytes".toList digits, rfl, .sized (by decide) hdigits hrest, ?_⟩
    have := hsize.1
    have := hsize.2
    simp only [extendCoder, Option.isSome_none, Bool.false_eq_true, if_false, if_true, hne]
    rw [if_neg (by omega)]
    rfl
  | @number digits size signed hdigits hbits hsize =>
    refine ⟨.sized _ digits, rfl, .sized (by cases signed <;> decide) hdigits hrest, ?_⟩
    have := hsize.1
    have := hsize.2
    simp only [extendCoder, Option.isSome_none, Bool.false_eq_true, if_false, hbits]
    rw [if_neg (by cases signed <;> decide), if_neg (by omega), Nat.mul_div_cancel _ (by norm_num)]
    cases signed <;> rfl

/-- Behind a name there is no digit that would be its own. -/
theorem Bracketed.head {coder coder' : Coder} {brackets rest : List Char}
    (h : Bracketed coder brackets coder') (hrest : ∀ c ∈ rest.head?, ¬ c.isDigit) :
    ∀ c ∈ (brackets ++ rest).head?, ¬ c.isDigit := by
  cases h with
  | nil => exact hrest
  | brackets => simp

theorem BaseType.length_pos {name : List Char} {coder : Coder} (h : BaseType name coder) :
    0 < name.length := by
  cases h with
  | number signed =>
    rw [List.length_append]
    cases signed <;> exact Nat.add_pos_left (by decide) _
  | fixedBytes =>
    rw [List.length_append]
    exact Nat.add_pos_left (by decide) _
  | _ => decide

/-- The loop takes a type off, and goes on with what is behind it. -/
theorem Typed.coderLoop {invalid : AbiError} {type rest : List Char} {coder : Coder}
    (h : Typed type coder) (hrest : ∀ c ∈ rest.head?, ¬ c.isDigit) :
    ∃ n, rest.length ≤ n ∧ Hmix.coderLoop invalid (type ++ rest).length none (type ++ rest) =
      Hmix.coderLoop invalid n (some coder) rest := by
  obtain ⟨name, brackets, base, rfl, hname, hbrackets⟩ := h
  have hpos := hname.length_pos
  obtain ⟨part, rfl, hmatches, hextend⟩ :=
    hname.part (hbrackets.head hrest) invalid (brackets ++ rest)
  rw [List.append_assoc]
  obtain ⟨fuel, hfuel⟩ : ∃ fuel, (part.text ++ (brackets ++ rest)).length = fuel + 1 := by
    rw [List.length_append]
    exact ⟨part.text.length + (brackets ++ rest).length - 1, by omega⟩
  have hlength : (brackets ++ rest).length ≤ fuel := by
    rw [List.length_append] at hfuel
    omega
  obtain ⟨n, hn, hgo⟩ := hbrackets.coderLoop rest hlength
  refine ⟨n, hn, ?_⟩
  rw [hfuel, Hmix.coderLoop, if_neg, matchPart_complete hmatches]
  · dsimp only
    rw [hextend, ok_bind, hgo]
  · intro hnil
    rw [hnil] at hfuel
    cases hfuel

/-- **`getParamCoder` accepts the grammar, and nothing else.** -/
theorem getParamCoder_iff {type : String} {coder : Coder} :
    getParamCoder type = .ok coder ↔ Typed type.toList coder := by
  unfold getParamCoder
  generalize hinvalid : AbiError.error _ = invalid
  generalize type.toList = text
  constructor
  · intro h
    obtain ⟨result, hloop, h⟩ := of_bind_ok h
    cases text with
    | nil =>
      cases hloop
      cases h
    | cons c text =>
      rw [List.length_cons, coderLoop, if_neg (by simp)] at hloop
      split at hloop
      · cases hloop
      · next part rest hpart =>
        obtain ⟨base, hextend, hloop⟩ := of_bind_ok hloop
        obtain ⟨htext, hmatches⟩ := matchPart_sound hpart
        have hname := extendCoder_none hmatches hextend
        have hlength : rest.length ≤ text.length := by
          have hlengths := congrArg List.length htext
          have hpos := hname.length_pos
          rw [List.length_cons, List.length_append] at hlengths
          omega
        obtain ⟨coder', rfl, hrest⟩ := coderLoop_sound hlength hloop
        cases h
        exact ⟨part.text, rest, base, htext, hname, hrest⟩
  · intro h
    obtain ⟨n, -, hloop⟩ := @Typed.coderLoop invalid text [] coder h (by simp)
    rw [List.append_nil] at hloop
    have hnil : coderLoop invalid n (some coder) [] = .ok (some coder) := by cases n <;> rfl
    dsimp only
    rw [hloop, hnil]
    rfl

/-- Behind a coder that is dynamic nothing can follow. -/
theorem coderLoop_dynamic {invalid : AbiError} {coder : Coder} (hdyn : coder.dynamic) {n : ℕ}
    {rest : List Char} (hn : rest.length ≤ n) (hne : rest ≠ []) :
    ∃ e, coderLoop invalid n (some coder) rest = .error e := by
  obtain ⟨n, rfl⟩ : ∃ m, n = m + 1 := by
    cases n with
    | zero => exact absurd (List.length_eq_zero_iff.1 (Nat.le_zero.1 hn)) hne
    | succ m => exact ⟨m, rfl⟩
  rw [coderLoop, if_neg hne]
  cases hpart : matchPart rest with
  | none => exact ⟨_, rfl⟩
  | some found =>
    obtain ⟨part, behind⟩ := found
    cases hextend : extendCoder invalid (some coder) part behind with
    | error e =>
      refine ⟨e, ?_⟩
      dsimp only
      rw [hextend]
      rfl
    | ok extended =>
      obtain ⟨digits, -, hstatic, -⟩ := extendCoder_some.1 hextend
      rw [hdyn] at hstatic
      cases hstatic

/-- **Which types there are.** A type is accepted exactly if it is in the grammar, of each there
is one coder, and none is longer than one that is dynamic but for its digits: arrays of texts, of
bytes and of arrays whose length is not given are refused. -/
theorem types_accepted (type : String) :
    (∀ coder, getParamCoder type = .ok coder ↔ Typed type.toList coder) ∧
    (∀ coder coder', Typed type.toList coder → Typed type.toList coder' → coder = coder') ∧
    ∀ coder rest, Typed type.toList coder → coder.dynamic → rest ≠ "" →
      (∀ c ∈ rest.toList.head?, ¬ c.isDigit) → ∃ e, getParamCoder (type ++ rest) = .error e := by
  refine ⟨fun coder => getParamCoder_iff, fun coder coder' h h' => ?_,
    fun coder rest h hdyn hne hdigit => ?_⟩
  · have hsame := (getParamCoder_iff.2 h).symm.trans (getParamCoder_iff.2 h')
    exact Except.ok.inj hsame
  · have hrest : rest.toList ≠ [] := fun hnil => hne (String.toList_inj.1 hnil)
    rw [getParamCoder]
    simp only [String.toList_append]
    generalize AbiError.error _ = invalid
    obtain ⟨n, hn, hloop⟩ := @Typed.coderLoop invalid _ _ _ h hdigit
    obtain ⟨e, he⟩ := @coderLoop_dynamic invalid coder hdyn n _ hn hrest
    refine ⟨e, ?_⟩
    rw [hloop, he]
    rfl

example : (getParamCoder "string[2]").toOption = none := by decide +kernel

end Hmix
