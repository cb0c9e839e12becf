import Hmix.Chain.Layout
import Hmix.Model.Methods

/-!
# Which method is found

The map of methods is filled in one pass, and the keys that collided are
deleted after it. What is left of the pass: by its signature, the last function is found
that has it; by its name and how many arguments there are, the only one, and where
there are several, none.
-/

namespace Hmix

/-! ## Keys -/

theorem toList_toString (n : ℕ) : (toString n).toList = Nat.toDigits 10 n := Nat.toList_repr

/-- A number's text is digits. -/
theorem sharp_notMem_toString (n : ℕ) : '#' ∉ (toString n).toList := by
  rw [toList_toString]
  intro hmem
  exact absurd (Nat.isDigit_of_mem_toDigits (by decide) (by decide) hmem) (by decide)

/-- What is in front of the first `#` is told apart. -/
theorem takeWhile_sharp {digits rest : List Char} (h : '#' ∉ digits) :
    (digits ++ '#' :: rest).takeWhile (· != '#') = digits := by
  rw [List.takeWhile_append_of_pos]
  · simp
  · intro c hc
    simpa using fun (heq : c = '#') => h (heq ▸ hc)

/-- What is behind the last `#` is the number. -/
theorem arityKey_inj {name name' : String} {n n' : ℕ}
    (h : AbiItem.arityKey name n = AbiItem.arityKey name' n') : name = name' ∧ n = n' := by
  have hsharp : "#".toList.reverse = ['#'] := by decide
  have hlist := congrArg (List.reverse ∘ String.toList) h
  simp only [AbiItem.arityKey, Function.comp, String.toList_append, List.reverse_append, hsharp,
    List.singleton_append] at hlist
  have hdigits := congrArg (List.takeWhile (· != '#')) hlist
  rw [takeWhile_sharp (by simpa using sharp_notMem_toString n),
    takeWhile_sharp (by simpa using sharp_notMem_toString n')] at hdigits
  rw [hdigits, List.append_cancel_left_eq, List.cons.injEq, List.reverse_inj] at hlist
  refine ⟨String.toList_inj.1 hlist.2, ?_⟩
  rw [List.reverse_inj, toList_toString, toList_toString] at hdigits
  rw [← Nat.ofDigitChars_ten_toDigits (n := n), hdigits, Nat.ofDigitChars_ten_toDigits]

/-- A signature ends in a parenthesis, and a key does not. -/
theorem signature_ne_arityKey (item : AbiItem) (name : String) (n : ℕ) :
    item.signature ≠ AbiItem.arityKey name n := by
  intro h
  have hlast := congrArg (List.getLast? ∘ String.toList) h
  have hparen : ")".toList = [')'] := by decide
  obtain ⟨digits, d, hd⟩ : ∃ digits d, (toString n).toList = digits ++ [d] :=
    ⟨_, _, (List.dropLast_append_getLast
      (by rw [toList_toString]; exact Nat.toDigits_ne_nil)).symm⟩
  have hdigit : d.isDigit := by
    refine Nat.isDigit_of_mem_toDigits (b := 10) (n := n) (by decide) (by decide) ?_
    rw [← toList_toString, hd]
    simp
  simp only [AbiItem.signature, AbiItem.arityKey, Function.comp, String.toList_append, hparen, hd,
    ← List.append_assoc, List.getLast?_concat] at hlast
  cases hlast
  exact absurd hdigit (by decide)

/-- No object has a key from the start. -/
theorem arityKey_notMem_inherited (name : String) (n : ℕ) :
    AbiItem.arityKey name n ∉ inheritedNames := by
  intro hmem
  have hall : ∀ s ∈ inheritedNames, '#' ∉ s.toList := by decide
  refine hall _ hmem ?_
  simp [AbiItem.arityKey]

/-! ## The pass -/

/-- The only item of a list. -/
def only {α : Type} : List α → Option α
  | [a] => some a
  | _ => none

theorem only_eq_some {α : Type} {l : List α} {a : α} : only l = some a ↔ l = [a] := by
  rcases l with _ | ⟨b, _ | ⟨c, l⟩⟩ <;> simp [only]

/-- **What a round leaves under a key.** A key that is there is left to the first. -/
theorem MethodMap.add_methods (m : MethodMap) {method : AbiItem} (h : method.type = "function")
    (key : String) : (m.add method).methods key =
      if key = method.signature then some method
      else if key = method.key ∧ m.methods key = none then some method else m.methods key := by
  unfold MethodMap.add
  rw [if_neg (by simpa using h)]
  by_cases hsig : key = method.signature
  · subst hsig
    simp
  · by_cases hkey : key = method.key
    · subst hkey
      cases hfound : m.methods method.key <;> simp [hfound, hsig]
    · cases m.methods method.key <;> simp [hsig, hkey]

theorem MethodMap.add_collisions (m : MethodMap) {method : AbiItem}
    (h : method.type = "function") :
    (m.add method).keyCollisions =
      if (m.methods method.key).isSome then m.keyCollisions ++ [method.key]
      else m.keyCollisions := by
  unfold MethodMap.add
  rw [if_neg (by simpa using h)]
  split_ifs <;> rfl

theorem MethodMap.add_other (m : MethodMap) {item : AbiItem} (h : item.type ≠ "function") :
    m.add item = m := if_pos h

/-- **The pass over an ABI**: what is under each key after it, and which keys collided. -/
structure Passed (abi : List AbiItem) (m : MethodMap) : Prop where
  methods (key : String) : m.methods key =
    (((functions abi).reverse.find? (·.signature = key)).or
      ((functions abi).find? (·.key = key)))
  collisions (key : String) : key ∈ m.keyCollisions ↔
    2 ≤ ((functions abi).filter (·.key = key)).length

theorem functions_concat (abi : List AbiItem) (item : AbiItem) :
    functions (abi ++ [item]) =
      functions abi ++ if item.type = "function" then [item] else [] := by
  rw [functions, List.filter_append]
  congr 1
  by_cases h : item.type = "function" <;> simp [h]

/-- Under a function's key there is one as soon as a function had it. -/
theorem Passed.isSome_key {abi : List AbiItem} {m : MethodMap} (h : Passed abi m)
    (item : AbiItem) : (m.methods item.key).isSome ↔
      0 < ((functions abi).filter (·.key = item.key)).length := by
  have hnone : (functions abi).reverse.find? (·.signature = item.key) = none := by
    simp [AbiItem.key, signature_ne_arityKey]
  rw [h.methods, hnone, Option.none_or, List.find?_isSome, List.length_filter_pos_iff]

/-- A round keeps to the pass. -/
theorem Passed.add {abi : List AbiItem} {m : MethodMap} (h : Passed abi m) (item : AbiItem) :
    Passed (abi ++ [item]) (m.add item) := by
  by_cases hfn : item.type = "function"
  · refine ⟨fun key => ?_, fun key => ?_⟩
    · rw [m.add_methods hfn, functions_concat, if_pos hfn, List.reverse_append,
        List.reverse_singleton, List.singleton_append, List.find?_cons, List.find?_append,
        h.methods]
      by_cases hsig : item.signature = key
      · simp [hsig]
      · by_cases hkey : item.key = key
        · cases (functions abi).reverse.find? (·.signature = key) <;>
            cases (functions abi).find? (·.key = key) <;> simp [hsig, hkey, Ne.symm hsig]
        · simp [hsig, hkey, Ne.symm hsig, Ne.symm hkey]
    · rw [m.add_collisions hfn, functions_concat, if_pos hfn, List.filter_append,
        List.length_append]
      have hcollided := h.collisions key
      by_cases hkey : item.key = key
      · subst hkey
        rw [List.filter_singleton, decide_eq_true rfl, cond_true, List.length_singleton]
        split_ifs with hsome
        · have := (h.isSome_key item).1 hsome
          simp
          omega
        · have := mt (h.isSome_key item).2 hsome
          rw [hcollided]
          omega
      · rw [List.filter_singleton, decide_eq_false hkey, cond_false, List.length_nil, Nat.add_zero,
          ← hcollided]
        split_ifs
        · simp [Ne.symm hkey]
        · rfl
  · rw [MethodMap.add_other m hfn]
    refine ⟨fun key => ?_, fun key => ?_⟩
    · rw [functions_concat, if_neg hfn, List.append_nil, h.methods]
    · rw [functions_concat, if_neg hfn, List.append_nil, h.collisions]

/-- The whole pass. -/
theorem passed_foldl (abi : List AbiItem) :
    Passed abi (abi.foldl MethodMap.add ⟨fun _ => none, []⟩) := by
  induction abi using List.reverseRecOn with
  | nil => exact ⟨fun key => rfl, fun key => by simp [functions]⟩
  | append_singleton abi item ih =>
    rw [List.foldl_append]
    exact ih.add item

/-! ## What is found -/

/-- By its signature, the last. -/
def bySignature (abi : List AbiItem) (selector : String) : Option AbiItem :=
  (functions abi).reverse.find? (·.signature = selector)

/-- By its key, the only one. -/
def byKey (abi : List AbiItem) (selector : String) : Option AbiItem :=
  only ((functions abi).filter (·.key = selector))

/-- By its name and how many inputs it has, the only one. -/
def byName (abi : List AbiItem) (name : String) (arity : ℕ) : Option AbiItem :=
  only ((functions abi).filter fun f => f.name = name ∧ f.inputs.length = arity)

theorem head?_eq_only {α : Type} {l : List α} (h : l.length < 2) : l.head? = only l := by
  match l, h with
  | [], _ => rfl
  | [a], _ => rfl

/-- **What is under a key of the map.** -/
theorem ofAbi_methods (abi : List AbiItem) (key : String) :
    (MethodMap.ofAbi abi).methods key = (bySignature abi key).or (byKey abi key) := by
  have hpassed := passed_foldl abi
  rw [MethodMap.ofAbi]
  dsimp only
  simp only [hpassed.methods, hpassed.collisions]
  rw [← bySignature, byKey]
  generalize hfound : (functions abi).filter (·.key = key) = found
  split_ifs with hmany
  · -- what collided is no signature
    obtain ⟨item, hitem⟩ : ∃ item, item ∈ found :=
      List.exists_mem_of_length_pos (by omega)
    rw [← hfound, List.mem_filter, decide_eq_true_eq] at hitem
    have hnone : bySignature abi key = none := by
      rw [← hitem.2]
      simp [bySignature, AbiItem.key, signature_ne_arityKey]
    rw [hnone, Option.none_or]
    match found, hmany with
    | _ :: _ :: _, _ => rfl
  · rw [← List.head?_filter, hfound, head?_eq_only (by omega)]

/-- **What is found**: by its signature, by its key, or by its name and the number
of arguments; and a function whose name every object has is not found by it. -/
theorem findMethod_eq (abi : List AbiItem) (selector : String) (args : ℕ) :
    (MethodMap.ofAbi abi).findMethod selector args =
      match (bySignature abi selector).or (byKey abi selector) with
      | some f => some (.method f)
      | none =>
        if selector ∈ inheritedNames then some .inherited
        else (byName abi selector args).map .method := by
  have hkey : (bySignature abi (AbiItem.arityKey selector args)).or
      (byKey abi (AbiItem.arityKey selector args)) = byName abi selector args := by
    have hnone : bySignature abi (AbiItem.arityKey selector args) = none := by
      simp [bySignature, signature_ne_arityKey]
    rw [hnone, Option.none_or, byKey, byName]
    congr 2
    funext f
    rw [decide_eq_decide, AbiItem.key]
    exact ⟨arityKey_inj, fun ⟨hname, hlength⟩ => by rw [hname, hlength]⟩
  unfold MethodMap.findMethod MethodMap.get
  rw [ofAbi_methods, ofAbi_methods, hkey]
  cases (bySignature abi selector).or (byKey abi selector) with
  | some f => rfl
  | none =>
    rw [if_neg (arityKey_notMem_inherited selector args)]
    split_ifs with hinherited
    · rfl
    · cases byName abi selector args <;> rfl

end Hmix
