import Hmix.Model.Contracts

/-!
# The contracts of the run tab, and the compiler's output

The view's functions are copies, so nothing that is typed for them reaches the
ABI. But the `map` that makes them names a fallback before it copies it, and
what it names is the compiler's own entry. A contract's ABI is the compiler's
until the first contract object is built of it, and then its fallbacks are
named, for the Details dialog and for every later contract object.
-/

namespace Hmix

/-! ## One member -/

section objectAssign

variable {object : Members} {key k : String} {value : Json}

/-- An assignment made twice is made once. -/
theorem objectAssign_same : objectAssign (objectAssign object [(k, value)]) [(k, value)] =
    objectAssign object [(k, value)] := by
  simp only [objectAssign, List.foldl_cons, List.foldl_nil]
  by_cases hany : object.any (fun entry => entry.1 == k)
  · simp only [if_pos hany]
    obtain ⟨entry, hmem, hk⟩ := List.any_eq_true.1 hany
    rw [if_pos (List.any_eq_true.2 ⟨_, List.mem_map_of_mem hmem, by simp [hk]⟩), List.map_map]
    refine List.map_congr_left fun entry _ => ?_
    by_cases hk : entry.1 = k <;> simp [hk]
  · have hnone : ∀ entry ∈ object, ¬ entry.1 = k := fun entry hmem hk =>
      hany (List.any_eq_true.2 ⟨entry, hmem, beq_iff_eq.2 hk⟩)
    rw [if_neg hany, if_pos (by simp), List.map_append]
    refine congrArg₂ _ ((List.map_congr_left fun entry hmem => ?_).trans (List.map_id _)) (by simp)
    simp [hnone entry hmem]

theorem lookup_map_assign (hne : key ≠ k) :
    (object.map fun entry => if entry.1 == k then (k, value) else entry).lookup key =
      object.lookup key := by
  induction object with
  | nil => rfl
  | cons entry object ih =>
    obtain ⟨key', value'⟩ := entry
    by_cases hk : key' = k
    · subst hk
      simpa [List.lookup_cons, beq_eq_false_iff_ne.2 hne] using ih
    · simp only [List.map_cons, beq_iff_eq, hk, if_false, List.lookup_cons]
      rw [← ih]
      simp

/-- The other members stay. -/
theorem lookup_objectAssign (hne : key ≠ k) :
    (objectAssign object [(k, value)]).lookup key = object.lookup key := by
  simp only [objectAssign, List.foldl_cons, List.foldl_nil]
  split_ifs
  · exact lookup_map_assign hne
  · simp [List.lookup_append, List.lookup_cons, beq_eq_false_iff_ne.2 hne]

end objectAssign

namespace Members

variable {method : Members}

/-- A name changes no other member. -/
theorem is_named {key text : String} (hne : key ≠ "name") :
    method.named.is key text = method.is key text := by
  unfold named
  split_ifs
  · simp only [is, lookup_objectAssign hne]
  · rfl

@[simp] theorem callable_named : method.named.callable = method.callable := by
  simp only [callable, is_named (show "type" ≠ "name" by decide)]

@[simp] theorem named_named : method.named.named = method.named := by
  rw [named, is_named (by decide)]
  split_ifs with h
  · rw [named, if_pos h, objectAssign_same]
  · rfl

/-- What the view does not list is not named. -/
theorem named_of_not_callable (h : method.callable = false) : method.named = method := by
  have hfallback : method.is "type" "fallback" = false := (Bool.or_eq_false_iff.1 h).2
  rw [named, hfallback, if_neg Bool.false_ne_true]

end Members

/-! ## The objects -/

namespace Methods

variable {methods : Methods} {method : MethodRef}

theorem members_assign {members : Members} (m : MethodRef) :
    (methods.assign method members).members m =
      if m = method then members else methods.members m :=
  Function.update_apply _ _ _ _

/-- **One round**: the entry is named, and there is one more copy, of the named
entry. -/
theorem members_display (methods : Methods) (method m : MethodRef) :
    (methods.display method).1.members m =
      if m = .copy methods.copies ∨ m = method then (methods.members method).named
      else methods.members m := by
  have hcopies : (methods.assign method (methods.members method).named).copies = methods.copies :=
    rfl
  simp only [display, members_assign, hcopies, if_true]
  by_cases hm : m = .copy methods.copies <;> simp [hm]

/-- **The `map`**: the entries it goes through are named, older copies stay as
they are, and its copies are of the named entries. -/
theorem displayAll_spec (methods : Methods) {refs : List MethodRef}
    (hrefs : ∀ m ∈ refs, ∃ c i, m = .entry c i) :
    (∀ c i, (methods.displayAll refs).1.members (.entry c i) =
      if .entry c i ∈ refs then (methods.members (.entry c i)).named
      else methods.members (.entry c i)) ∧
    (∀ n < methods.copies,
      (methods.displayAll refs).1.members (.copy n) = methods.members (.copy n)) ∧
    (∀ m ∈ (methods.displayAll refs).2, ∃ n, m = .copy n) ∧
    (methods.displayAll refs).2.map (methods.displayAll refs).1.members =
      refs.map fun m => (methods.members m).named := by
  induction refs generalizing methods with
  | nil => simp [displayAll]
  | cons m refs ih =>
    obtain ⟨c', i', rfl⟩ := hrefs m List.mem_cons_self
    have hrest : ∀ m ∈ refs, ∃ c i, m = .entry c i := fun m hm =>
      hrefs m (List.mem_cons_of_mem _ hm)
    have hdisplay := members_display methods (.entry c' i')
    obtain ⟨hentries, hcopies, hnew, hmap⟩ :=
      ih (methods.display (.entry c' i')).1 hrest
    have hcount : (methods.display (.entry c' i')).1.copies = methods.copies + 1 := rfl
    refine ⟨fun c i => ?_, fun n hn => ?_, ?_, ?_⟩
    · refine (hentries c i).trans ?_
      rw [hdisplay]
      by_cases hm : MethodRef.entry c i = .entry c' i' <;> simp [hm]
    · refine (hcopies n (by omega)).trans ((hdisplay _).trans (if_neg ?_))
      simp only [MethodRef.copy.injEq, reduceCtorEq, or_false]
      omega
    · exact List.forall_mem_cons.2 ⟨⟨methods.copies, rfl⟩, hnew⟩
    · refine congrArg₂ List.cons ?_ (hmap.trans (List.map_congr_left fun m hm => ?_))
      · exact (hcopies methods.copies (by omega)).trans ((hdisplay _).trans (if_pos (.inl rfl)))
      · obtain ⟨c, i, rfl⟩ := hrest m hm
        rw [hdisplay]
        by_cases hm : MethodRef.entry c i = .entry c' i' <;> simp [hm]

end Methods

/-! ## The tab -/

namespace ContractTab

/-- The compiled contracts, with their ABIs as they read by now. -/
def output (x : ContractTab) : Output :=
  x.contracts.map fun contract => (contract.name, contract.abi.map x.methods.members)

/-- A contract object of which the view has copies only. -/
def Copied (contract : HtmlcoinContract) : Prop := ∀ m ∈ contract.functions, ∃ n, m = .copy n

/-- **Where the tab is**: it has the contracts that were compiled, an entry is
as it was compiled or named, and what the view has are copies. -/
structure Compiled (output : Output) (x : ContractTab) : Prop where
  contracts : ∀ c,
    x.contracts[c]?.map (fun contract : CompiledContract => (contract.name, contract.abi)) =
      output[c]?.map fun contract =>
        (contract.1, (List.range contract.2.length).map (MethodRef.entry c))
  entries : ∀ c i, x.methods.members (.entry c i) = output.methods.members (.entry c i) ∨
    x.methods.members (.entry c i) = (output.methods.members (.entry c i)).named
  loaded : ∀ contract ∈ x.loadedContracts, Copied contract
  deploying : ∀ d ∈ x.deployments, Copied d.contract

variable {output : Output} {x : ContractTab}

theorem compiled_ofOutput (output : Output) (selectedUtxo : Option String) :
    Compiled output (ofOutput output selectedUtxo) where
  contracts c := by
    simp only [ofOutput, List.getElem?_mapIdx, Option.map_map]
    rfl
  entries _ _ := .inl rfl
  loaded _ h := absurd h List.not_mem_nil
  deploying _ h := absurd h List.not_mem_nil

/-- Past the end of an ABI there is nothing. -/
theorem Compiled.entry_none (h : Compiled output x) {c i : ℕ}
    (hnone : output.methods.members (.entry c i) = []) :
    x.methods.members (.entry c i) = [] := by
  have hnamed : Members.named [] = [] := rfl
  simpa [hnone, hnamed] using h.entries c i

/-- **A contract's ABI is the compiler's** where each of its entries is. -/
theorem Compiled.output_eq (h : Compiled output x) (c : ℕ) : x.output[c]? = output[c]? ↔
    ∀ i, x.methods.members (.entry c i) = output.methods.members (.entry c i) := by
  have hcontract := h.contracts c
  have hread : ∀ i, output.methods.members (.entry c i) =
      ((output[c]?.bind fun c => c.2[i]?)).getD [] := fun _ => rfl
  simp only [ContractTab.output, List.getElem?_map]
  cases hc : output[c]? with
  | none =>
    simp only [hc, Option.map_none, Option.map_eq_none_iff] at hcontract
    simp only [hcontract, Option.map_none, true_iff]
    exact fun i => (h.entry_none (by rw [hread, hc]; rfl)).trans (by rw [hread, hc]; rfl)
  | some contract =>
    obtain ⟨name, abi⟩ := contract
    simp only [hc, Option.map_some, Option.map_eq_some_iff] at hcontract
    obtain ⟨compiled, hcompiled, heq⟩ := hcontract
    obtain ⟨rfl, habi⟩ := Prod.mk.inj heq
    simp only [hcompiled, Option.map_some, habi, List.map_map, Option.some.injEq, Prod.mk.injEq,
      true_and]
    simp only [hread, hc, Option.bind_some]
    constructor
    · intro hmap i
      by_cases hi : i < abi.length
      · simpa [hi] using congrArg (fun l => (l[i]?).getD []) hmap
      · have hnone : abi[i]? = none := List.getElem?_eq_none (Nat.le_of_not_lt hi)
        rw [hnone]
        exact h.entry_none (by rw [hread, hc, Option.bind_some, hnone]; rfl)
    · intro hentries
      refine List.ext_getElem (by simp) fun i hi hi' => ?_
      simp [hentries i, hi']

/-! ## Building a contract object -/

/-- Naming an entry again is naming what was compiled. -/
theorem Compiled.named_entry (h : Compiled output x) (c i : ℕ) :
    (x.methods.members (.entry c i)).named = (output.methods.members (.entry c i)).named := by
  rcases h.entries c i with heq | heq <;> rw [heq]
  exact Members.named_named

theorem Compiled.callable_entry (h : Compiled output x) (c i : ℕ) :
    (x.methods.members (.entry c i)).callable = (output.methods.members (.entry c i)).callable := by
  rcases h.entries c i with heq | heq <;> rw [heq]
  exact Members.callable_named

/-- **What building an object of the contracts in `built` does** to the entries:
they are named. -/
def Named (built : ℕ → Prop) (x x' : ContractTab) : Prop :=
  ∀ c i, (built c → x'.methods.members (.entry c i) = (x.methods.members (.entry c i)).named) ∧
    (¬ built c → x'.methods.members (.entry c i) = x.methods.members (.entry c i))

/-- Named entries are as they were compiled, or named. -/
theorem Compiled.entries_named {built : ℕ → Prop} {x' : ContractTab} (h : Compiled output x)
    (hnamed : Named built x x') (c i : ℕ) :
    x'.methods.members (.entry c i) = output.methods.members (.entry c i) ∨
      x'.methods.members (.entry c i) = (output.methods.members (.entry c i)).named := by
  by_cases hbuilt : built c
  · exact .inr (((hnamed c i).1 hbuilt).trans (h.named_entry c i))
  · rw [(hnamed c i).2 hbuilt]
    exact h.entries c i

/-- **The view's functions**: the functions and fallbacks of the ABI, in reverse
order, and the fallbacks named. -/
def Listed (contract : String × List Members) (functions : List Members) : Prop :=
  functions = ((contract.2.filter Members.callable).map Members.named).reverse

theorem wp_selected {Q : CompiledContract → ContractTab → Prop} {E : Thrown → ContractTab → Prop} :
    wp selected Q E x ↔ (∀ contract ∈ x.contracts[x.selectedContract]?, Q contract x) ∧
      (x.contracts[x.selectedContract]? = none → E .typeError x) := by
  simp only [selected, wp_bind, wp_get]
  cases x.contracts[x.selectedContract]? <;> simp

/-- The ABI of a compiled contract is its entries. -/
theorem Compiled.abi_eq (h : Compiled output x) {c : ℕ} {contract : CompiledContract}
    (hmem : contract ∈ x.contracts[c]?) : ∃ compiled ∈ output[c]?,
      contract.abi = (List.range compiled.2.length).map (.entry c) ∧
      compiled.2 = (List.range compiled.2.length).map fun i =>
        output.methods.members (.entry c i) := by
  have hcontract := h.contracts c
  rw [Option.mem_def.1 hmem, Option.map_some] at hcontract
  obtain ⟨compiled, hcompiled, heq⟩ := Option.map_eq_some_iff.1 hcontract.symm
  refine ⟨compiled, hcompiled, (Prod.mk.inj heq).2.symm, ?_⟩
  refine List.ext_getElem (by simp) fun i hi _ => ?_
  simp [Output.methods, Option.mem_def.1 hcompiled, List.getElem?_eq_getElem hi]

/-- What the view lists is in the ABI. -/
theorem Compiled.lt_of_callable (h : Compiled output x) {c i : ℕ} {compiled : String × List Members}
    (hcompiled : compiled ∈ output[c]?) (hcallable : (x.methods.members (.entry c i)).callable) :
    i < compiled.2.length := by
  refine Nat.lt_of_not_le fun hle => ?_
  have hnil : output.methods.members (.entry c i) = [] := by
    simp [Output.methods, Option.mem_def.1 hcompiled, List.getElem?_eq_none hle]
  rw [h.entry_none hnil] at hcallable
  exact Bool.false_ne_true hcallable

/-- **A contract object is built**: the entries of the selected contract are
named, and the view gets its list. -/
theorem Compiled.currentHtmlcoinContract (h : Compiled output x) :
    wp currentHtmlcoinContract (fun contract x' =>
        Named (fun c => c = x.selectedContract) x x' ∧ (∃ methods, x' = { x with methods }) ∧
          Copied contract ∧ ∃ compiled ∈ output[x.selectedContract]?,
            Listed compiled (contract.functions.map x'.methods.members))
      (fun _ x' => x' = x ∧ output[x.selectedContract]? = none) x := by
  simp only [ContractTab.currentHtmlcoinContract, wp_bind, wp_selected]
  refine ⟨fun contract hmem => ?_, fun hnone => ⟨trivial, ?_⟩⟩
  · obtain ⟨compiled, hcompiled, habi, hread⟩ := h.abi_eq hmem
    have hentries : ∀ m ∈ contract.abi.filter (fun m => (x.methods.members m).callable),
        ∃ i, m = .entry x.selectedContract i := by
      intro m hm
      obtain ⟨i, -, hi⟩ := List.mem_map.1 (habi ▸ List.mem_of_mem_filter hm)
      exact ⟨i, hi.symm⟩
    have hspec := x.methods.displayAll_spec fun m hm => ⟨_, hentries m hm⟩
    rw [wp_get]
    rcases hdisplay : x.methods.displayAll
      (contract.abi.filter fun m => (x.methods.members m).callable) with ⟨methods, functions⟩
    rw [hdisplay] at hspec
    obtain ⟨hnamed, -, hcopies, hmap⟩ := hspec
    refine ⟨fun c i => ⟨?_, fun hne => ?_⟩, ⟨methods, rfl⟩, fun m hm => ?_, compiled, hcompiled, ?_⟩
    · rintro rfl
      refine (hnamed _ i).trans ?_
      split_ifs with hmem'
      · rfl
      -- An entry that is not listed has no name to get.
      · refine (Members.named_of_not_callable (Bool.eq_false_iff.2 fun hcallable => hmem' ?_)).symm
        refine List.mem_filter.2 ⟨habi ▸ List.mem_map_of_mem (List.mem_range.2 ?_), hcallable⟩
        exact h.lt_of_callable hcompiled hcallable
    · refine (hnamed c i).trans (if_neg fun hmem' => hne ?_)
      obtain ⟨j, hj⟩ := hentries _ hmem'
      exact (MethodRef.entry.inj hj).1
    · exact hcopies m (List.mem_reverse.1 hm)
    · rw [Listed, List.map_reverse]
      refine congrArg List.reverse (hmap.trans ?_)
      rw [hread, habi]
      simp only [List.filter_map, List.map_map, Function.comp_def, h.named_entry, h.callable_entry]
  · simpa [hnone] using (h.contracts x.selectedContract).symm

/-- There is nothing to name of a contract that there is not. -/
theorem Compiled.named_none (h : Compiled output x) (hnone : output[x.selectedContract]? = none) :
    Named (fun c => c = x.selectedContract) x x := by
  refine fun c i => ⟨?_, fun _ => rfl⟩
  rintro rfl
  have hnil : output.methods.members (.entry x.selectedContract i) = [] := by
    simp [Output.methods, hnone]
  rw [h.entry_none hnil]
  rfl

theorem Compiled.deploy (h : Compiled output x) :
    wp deploy (fun _ x' => Compiled output x' ∧ Named (fun c => c = x.selectedContract) x x')
      (fun _ x' => Compiled output x' ∧ Named (fun c => c = x.selectedContract) x x') x := by
  simp only [ContractTab.deploy, wp_bind]
  refine h.currentHtmlcoinContract.mono ?_ ?_
  · rintro contract - ⟨hnamed, ⟨methods, rfl⟩, hcopied, -⟩
    have hentries := h.entries_named hnamed
    rw [wp_bind, wp_selected]
    refine ⟨fun compiled _ => ?_, fun _ => ⟨⟨h.contracts, hentries, h.loaded, h.deploying⟩, hnamed⟩⟩
    simp only [wp_bind, log, wp_modify, wp_get]
    cases hutxo : x.selectedUtxo with
    | none => exact ⟨⟨h.contracts, hentries, h.loaded, h.deploying⟩, hnamed⟩
    | some senderAddress =>
      refine ⟨⟨h.contracts, hentries, h.loaded, ?_⟩, hnamed⟩
      exact List.forall_mem_append.2 ⟨h.deploying, List.forall_mem_singleton.2 hcopied⟩
  · rintro - x' ⟨rfl, hnone⟩
    exact ⟨h, h.named_none hnone⟩

theorem Compiled.atAddress (h : Compiled output x) :
    wp atAddress (fun _ x' => Compiled output x' ∧ Named (fun c => c = x.selectedContract) x x')
      (fun _ x' => Compiled output x' ∧ Named (fun c => c = x.selectedContract) x x') x := by
  simp only [ContractTab.atAddress, wp_bind]
  refine h.currentHtmlcoinContract.mono ?_ ?_
  · rintro contract - ⟨hnamed, ⟨methods, rfl⟩, hcopied, -⟩
    refine ⟨⟨h.contracts, h.entries_named hnamed, ?_, h.deploying⟩, hnamed⟩
    exact List.forall_mem_append.2 ⟨h.loaded, List.forall_mem_singleton.2 hcopied⟩
  · rintro - x' ⟨rfl, hnone⟩
    exact ⟨h, h.named_none hnone⟩

/-- A deployed contract is added as it was built. -/
theorem Compiled.deployed (h : Compiled output x) (deployment : ℕ) (address : String) :
    wp (deployed deployment address) (fun _ x' => Compiled output x' ∧ x'.methods = x.methods)
      (fun _ x' => Compiled output x' ∧ x'.methods = x.methods) x := by
  simp only [ContractTab.deployed, wp_bind, wp_get]
  cases hd : x.deployments[deployment]? with
  | none => exact ⟨h, rfl⟩
  | some d =>
    have hcopied : Copied d.contract := h.deploying d (List.mem_of_getElem? hd)
    refine ⟨⟨h.contracts, h.entries, ?_, fun d' hd' => ?_⟩, rfl⟩
    · exact List.forall_mem_append.2 ⟨h.loaded, List.forall_mem_singleton.2 hcopied⟩
    · exact h.deploying d' (List.mem_of_mem_eraseIdx hd')

/-! ## One event -/

/-- An object of the contract is built. -/
def Builds (c : ℕ) (x : ContractTab) (e : ContractEvent) : Prop :=
  (e = .deploy ∨ e = .atAddress) ∧ c = x.selectedContract

variable {e : ContractEvent}

/-- The arguments of a constructor are no part of what was compiled. -/
theorem Compiled.contracts_modify (h : Compiled output x) (i : ℕ) (args : String) (c : ℕ) :
    (x.contracts.modify i fun contract => { contract with constructorArgs := args })[c]?.map
        (fun contract : CompiledContract => (contract.name, contract.abi)) =
      output[c]?.map fun contract =>
        (contract.1, (List.range contract.2.length).map (MethodRef.entry c)) := by
  refine (congrArg _ (List.getElem?_modify _ _ _ _)).trans (Eq.trans ?_ (h.contracts c))
  cases x.contracts[c]? with
  | none => rfl
  | some contract =>
    simp only [Option.map_eq_map, Option.map_some]
    split_ifs <;> rfl

/-- **Where no object is built**, the entries stay. -/
theorem Compiled.step_unbuilt (h : Compiled output x) (he : (contractDesk output).enabled x e)
    (hunbuilt : ¬ (e = .deploy ∨ e = .atAddress)) :
    Compiled output ((contractDesk output).step x e) ∧
      ∀ c i, ((contractDesk output).step x e).methods.members (.entry c i) =
        x.methods.members (.entry c i) := by
  cases e with
  | deploy => exact absurd (.inl rfl) hunbuilt
  | atAddress => exact absurd (.inr rfl) hunbuilt
  | selectContract contract =>
    exact ⟨⟨h.contracts, h.entries, h.loaded, h.deploying⟩, fun _ _ => rfl⟩
  | setContractAddress address =>
    exact ⟨⟨h.contracts, h.entries, h.loaded, h.deploying⟩, fun _ _ => rfl⟩
  | setConstructorArgs args =>
    exact ⟨⟨h.contracts_modify _ args, h.entries, h.loaded, h.deploying⟩, fun _ _ => rfl⟩
  | selectUtxo address =>
    exact ⟨⟨h.contracts, h.entries, h.loaded, h.deploying⟩, fun _ _ => rfl⟩
  | deployed deployment address =>
    obtain ⟨hcompiled, hmethods⟩ := wp_iff_after.1 (h.deployed deployment address)
    exact ⟨hcompiled, fun c i => congrArg (·.members (.entry c i)) hmethods⟩
  | failed deployment err =>
    refine ⟨⟨h.contracts, h.entries, h.loaded, fun d hd => ?_⟩, fun _ _ => rfl⟩
    exact h.deploying d (List.mem_of_mem_eraseIdx hd)
  | setArgs method args =>
    obtain ⟨contract, hcontract, hmem⟩ := he
    obtain ⟨n, rfl⟩ := h.loaded contract hcontract method hmem
    have hsame : ∀ c i, ((contractDesk output).step x (.setArgs (.copy n) args)).methods.members
        (.entry c i) = x.methods.members (.entry c i) := fun c i =>
      (Methods.members_assign _).trans (if_neg nofun)
    refine ⟨⟨h.contracts, fun c i => ?_, h.loaded, h.deploying⟩, hsame⟩
    rw [hsame]
    exact h.entries c i
  | removeContract contract =>
    refine ⟨⟨h.contracts, h.entries, fun c hc => ?_, h.deploying⟩, fun _ _ => rfl⟩
    exact h.loaded c (List.mem_of_mem_eraseIdx hc)
  | toggleExpand contract =>
    refine ⟨⟨h.contracts, h.entries, fun c hc => ?_, h.deploying⟩, fun _ _ => rfl⟩
    obtain ⟨j, hj⟩ := List.getElem?_of_mem hc
    obtain ⟨c', hc', rfl⟩ := Option.map_eq_some_iff.1 ((List.getElem?_modify _ _ _ _).symm.trans hj)
    have hcopied := h.loaded c' (List.mem_of_getElem? hc')
    split_ifs <;> exact hcopied

/-- **What an event does to the entries**: where it builds an object of a
contract, those of the contract are named. -/
theorem Compiled.step (h : Compiled output x) (he : (contractDesk output).enabled x e) :
    Compiled output ((contractDesk output).step x e) ∧
      Named (fun c => Builds c x e) x ((contractDesk output).step x e) := by
  by_cases hor : e = .deploy ∨ e = .atAddress
  · have hbuilt : Compiled output ((contractDesk output).step x e) ∧
        Named (fun c => c = x.selectedContract) x ((contractDesk output).step x e) := by
      rcases hor with rfl | rfl
      · exact wp_iff_after.1 h.deploy
      · exact wp_iff_after.1 h.atAddress
    refine ⟨hbuilt.1, fun c i => ⟨fun hbuilds => (hbuilt.2 c i).1 hbuilds.2, fun hbuilds => ?_⟩⟩
    exact (hbuilt.2 c i).2 fun hc => hbuilds ⟨hor, hc⟩
  · obtain ⟨hcompiled, hsame⟩ := h.step_unbuilt he hor
    exact ⟨hcompiled, fun c i => ⟨fun hbuilds => absurd hbuilds.1 hor, fun _ => hsame c i⟩⟩

/-! ## Every run -/

/-- **A careful step**: of a contract of which an object is built, each fallback
has the name already. -/
def Careful (output : Output) (c : ℕ) (x : ContractTab) (e : ContractEvent) : Prop :=
  Builds c x e → ∀ contract ∈ output[c]?, ∀ method ∈ contract.2, method.named = method

/-- Where it is careful, a step leaves the contract's ABI; where it is not, it
does not, whatever was done before. -/
theorem Compiled.step_output (h : Compiled output x) (he : (contractDesk output).enabled x e)
    (c : ℕ) :
    ((contractDesk output).step x e).output[c]? = output[c]? ↔
      x.output[c]? = output[c]? ∧ Careful output c x e := by
  obtain ⟨hstep, hnamed⟩ := h.step he
  rw [hstep.output_eq, h.output_eq]
  have hcareful : (∀ i, (output.methods.members (.entry c i)).named =
      output.methods.members (.entry c i)) ↔
      ∀ contract ∈ output[c]?, ∀ method ∈ contract.2, method.named = method := by
    constructor
    · intro hnamed contract hcontract method hmem
      obtain ⟨i, hi⟩ := List.getElem?_of_mem hmem
      simpa [Output.methods, Option.mem_def.1 hcontract, hi] using hnamed i
    · intro hnamed i
      simp only [Output.methods]
      cases hmethod : output[c]?.bind (fun contract => contract.2[i]?) with
      | none => rfl
      | some method =>
        obtain ⟨contract, hcontract, hi⟩ := Option.bind_eq_some_iff.1 hmethod
        exact hnamed contract hcontract method (List.mem_of_getElem? hi)
  by_cases hbuilds : Builds c x e
  · simp only [Careful, hbuilds, true_imp_iff, ← hcareful, (hnamed c _).1 hbuilds, h.named_entry]
    refine ⟨fun heq => ⟨fun i => ?_, heq⟩, And.right⟩
    rcases h.entries c i with hi | hi
    · exact hi
    · exact hi.trans (heq i)
  · simp only [Careful, hbuilds, false_imp_iff, and_true, (hnamed c _).2 hbuilds]

/-- **When a compiled contract's ABI is the compiler's.** In every run, exactly
when no step built an object of the contract while a fallback of it had no such
name; and whatever was built, the next object's list is the ABI's functions and
fallbacks, in reverse order, and the fallbacks named. -/
theorem abi_kept_iff (output : Output) (selectedUtxo : Option String) (es : List ContractEvent)
    (ha : (contractDesk output).Admits (ofOutput output selectedUtxo) es) :
    let x := (contractDesk output).run (ofOutput output selectedUtxo) es
    (∀ c, x.output[c]? = output[c]? ↔
      (contractDesk output).Each (Careful output c) (ofOutput output selectedUtxo) es) ∧
    wp ContractTab.currentHtmlcoinContract (fun contract x' =>
        ∃ compiled ∈ output[x.selectedContract]?,
          Listed compiled (contract.functions.map x'.methods.members))
      (fun _ _ => output[x.selectedContract]? = none) x := by
  intro x
  have h := compiled_ofOutput output selectedUtxo
  have hkept := fun s e (hs : Compiled output s) he => (hs.step (e := e) he).1
  refine ⟨fun c => ?_, ?_⟩
  · have hrun := ha.run_iff (Q := fun x => x.output[c]? = output[c]?) h hkept
      fun s e hs he => hs.step_output he c
    exact hrun.trans (and_iff_right ((h.output_eq c).2 fun _ => rfl))
  · exact (ha.invariant h hkept).currentHtmlcoinContract.mono (fun _ _ h' => h'.2.2.2)
      fun _ _ h' => h'.2

/-- A contract without a fallback. -/
def withoutFallback : Output := [("Token", [[("type", .str "function"), ("name", .str "f")]])]

theorem abi_kept_withoutFallback :
    ((contractDesk withoutFallback).run (ofOutput withoutFallback none)
      [.atAddress, .atAddress]).output[0]? = withoutFallback[0]? := by
  have hcareful : ∀ x e, Careful withoutFallback 0 x e := by
    rintro x e - contract hcontract method hmethod
    cases hcontract
    obtain rfl := List.mem_singleton.1 hmethod
    rfl
  exact ((abi_kept_iff withoutFallback none [.atAddress, .atAddress]
    ⟨trivial, trivial, trivial⟩).1 0).2 ⟨hcareful _ _, hcareful _ _, trivial⟩

/-- A contract with a fallback. -/
def withFallback : Output := [("Fallback", [[("type", .str "fallback")]])]

/-- **Loading it names the entry.** -/
theorem abi_after_atAddress : ¬ ∀ output selectedUtxo es,
    (contractDesk output).Admits (ofOutput output selectedUtxo) es →
      ((contractDesk output).run (ofOutput output selectedUtxo) es).output = output := by
  intro h
  have hmembers := congrArg (List.map fun contract => contract.2.map List.length)
    (h withFallback none [.atAddress] ⟨trivial, trivial⟩)
  exact absurd hmembers (by decide)

end ContractTab

end Hmix
