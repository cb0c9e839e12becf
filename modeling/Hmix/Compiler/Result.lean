import Hmix.Model.CompilerResult
import Mathlib.Data.List.Chain

/-!
# The stored result and the output it is of

Of a well-formed output the two parsers make `CompilerOutput.contracts` and
`CompilerOutput.errors`, and neither throws. The errors are replaced at
every call. The contracts are replaced only where the output has a
`contracts` map: one without it leaves those of the output before.
-/

namespace Hmix

/-! ## Well-formed outputs -/

/-- An error entry, with the two texts that are read of it. -/
def WellFormedError (error : Json) : Prop :=
  ∃ message formattedMessage fields, error = .obj fields ∧
    error.field "message" = some (.str message) ∧
    error.field "formattedMessage" = some (.str formattedMessage)

/-- **An output of the compiler**: an object, with an optional map from
source to contract name to data, and optional errors. -/
structure CompilerOutput where
  fields : List (String × Json)
  contracts_map : ∀ value, (Json.obj fields).field "contracts" = some value →
    ∃ sources, value = .obj sources ∧ ∀ source ∈ sources, ∃ contracts,
      source.2 = .obj contracts ∧ ∀ contract ∈ contracts, ∃ data, contract.2 = .obj data
  error_entry : ∀ value, (Json.obj fields).field "error" = some value → WellFormedError value
  errors_entries : ∀ value, (Json.obj fields).field "errors" = some value →
    ∃ items, value = .arr items ∧ ∀ item ∈ items, WellFormedError item

namespace CompilerOutput

/-- The value the output's text denotes. -/
def json (output : CompilerOutput) : Json := .obj output.fields

/-- The output has a `contracts` map, possibly an empty one. -/
def HasContracts (output : CompilerOutput) : Prop :=
  (output.json.field "contracts").isSome = true

instance (output : CompilerOutput) : Decidable output.HasContracts :=
  inferInstanceAs (Decidable (_ = true))

/-- The contracts of one source. -/
def contractsOf (entries : List (String × Json)) : List ICompilerContract :=
  entries.map fun contract => contractEntry contract.1 contract.2

/-- The contracts of every source. -/
def contractsOfSources (sources : List (String × Json)) : List ICompilerContract :=
  sources.flatMap fun source => contractsOf source.2.ownEntries

@[simp] theorem contractsOfSources_cons (source : String) (entries rest : List (String × Json)) :
    contractsOfSources ((source, .obj entries) :: rest) =
      contractsOf entries ++ contractsOfSources rest := rfl

/-- **The contracts of an output**, one for each source and name. -/
def contracts (output : CompilerOutput) : List ICompilerContract :=
  contractsOfSources ((output.json.field "contracts").elim [] Json.ownEntries)

/-- The error entries of an output, `error` first. -/
def reported (output : CompilerOutput) : List Json :=
  (output.json.field "error").toList ++
    match output.json.field "errors" with
    | some (.arr items) => items
    | _ => []

/-- Whether an entry's message mentions an invalid checksum. -/
def excluded (error : Json) : Bool :=
  match error.field "message" with
  | some (.str message) => decide ("invalid checksum".toList <:+: message.toList)
  | _ => false

/-- Error entries, parsed. -/
def parsed (errors : List Json) : List ICompilerError :=
  errors.map fun error => parseError (error.field "formattedMessage")

/-- **The errors of an output**, parsed, in order, without the invalid
checksums. -/
def errors (output : CompilerOutput) : List ICompilerError :=
  parsed (output.reported.filter fun error => !excluded error)

end CompilerOutput

open CompilerOutput

/-! ## What the parsers make of them -/

variable {output : CompilerOutput} {latest : ICompilerResult}

theorem member_obj {fields : List (String × Json)} (name : String) :
    (Json.obj fields).member name = pure ((Json.obj fields).field name) := rfl

theorem WellFormedError.mentionsChecksum {error : Json} (h : WellFormedError error) :
    mentionsChecksum error = pure (excluded error) := by
  obtain ⟨message, formattedMessage, fields, rfl, hmessage, -⟩ := h
  simp only [Hmix.mentionsChecksum, member_obj, pure_bind, excluded, hmessage]

theorem excludeChecksums_eq {errors : List Json} (h : ∀ error ∈ errors, WellFormedError error) :
    excludeChecksums errors = pure (errors.filter fun error => !excluded error) := by
  induction errors with
  | nil => rfl
  | cons error errors ih =>
    have hrest := ih fun e he => h e (List.mem_cons_of_mem _ he)
    simp only [excludeChecksums, (h error List.mem_cons_self).mentionsChecksum, hrest, pure_bind,
      List.filter_cons]
    cases excluded error <;> rfl

theorem outputErrors_eq (output : CompilerOutput) :
    outputErrors output.json = pure output.reported := by
  simp only [outputErrors, CompilerOutput.json, member_obj, pure_bind, reported]
  have hfirst : ((Json.obj output.fields).field "error").filter Json.truthy =
      (Json.obj output.fields).field "error" := by
    rcases herror : (Json.obj output.fields).field "error" with - | value
    · rfl
    · obtain ⟨_, _, fields, rfl, -⟩ := output.error_entry value herror
      rfl
  rw [hfirst]
  rcases herrors : (Json.obj output.fields).field "errors" with - | value
  · simp
  · obtain ⟨items, rfl, -⟩ := output.errors_entries value herrors
    rfl

theorem wellFormed_reported (output : CompilerOutput) :
    ∀ error ∈ output.reported, WellFormedError error := by
  intro error he
  rcases List.mem_append.1 he with he | he
  · exact output.error_entry error (Option.mem_toList.1 he)
  · rcases herrors : output.json.field "errors" with - | value
    · simp [herrors] at he
    · obtain ⟨items, rfl, hitems⟩ := output.errors_entries value herrors
      simp only [herrors] at he
      exact hitems error he

/-- **The errors are replaced.** -/
theorem parseErrors_spec (output : CompilerOutput) (latest : ICompilerResult) :
    wp (parseErrors output.json)
      (fun _ latest' => latest' = { latest with errors := output.errors }) (fun _ _ => False)
      latest := by
  have hwf := wellFormed_reported output
  simp only [parseErrors, outputErrors_eq, excludeChecksums_eq hwf, pure_bind, wp_bind, wp_modify]
  -- what is pushed, and what is left to push, are the output's errors
  refine (wp_forM (I := fun rest latest' => (∀ error ∈ rest, WellFormedError error) ∧
      { latest' with errors := latest'.errors ++ parsed rest } =
        { latest with errors := output.errors }) ?_ _ _ ⟨?_, ?_⟩).imp ?_
  · rintro error rest latest' ⟨hrest, heq⟩
    obtain ⟨_, _, fields, rfl, -⟩ := hrest error List.mem_cons_self
    simp only [member_obj, pure_bind, wp_modify]
    refine ⟨fun e he => hrest e (List.mem_cons_of_mem _ he), ?_⟩
    simpa [parsed] using heq
  · exact fun error he => hwf error (List.mem_of_mem_filter he)
  · rfl
  · rintro - latest' ⟨-, heq⟩
    simp only [parsed, List.map_nil, List.append_nil] at heq
    exact heq

/-- **The contracts are replaced, where there is a map of them.** -/
theorem parseContracts_spec (output : CompilerOutput) (latest : ICompilerResult) :
    wp (parseContracts output.json)
      (fun _ latest' => latest' = if output.HasContracts
        then { latest with contracts := output.contracts } else latest) (fun _ _ => False)
      latest := by
  simp only [parseContracts, CompilerOutput.json, member_obj, pure_bind]
  by_cases hhas : output.HasContracts
  · obtain ⟨value, hmap⟩ := Option.isSome_iff_exists.1 hhas
    obtain ⟨sources, rfl, hsources⟩ := output.contracts_map value hmap
    have hcontracts : output.contracts = contractsOfSources sources := by
      rw [CompilerOutput.contracts, hmap]
      rfl
    rw [if_pos hhas, hcontracts, show (Json.obj output.fields).field "contracts" = _ from hmap]
    simp only [Json.truthy, Json.keys, Bool.not_true, Bool.false_eq_true, if_false, wp_bind,
      wp_modify, wp_pure, Json.ownEntries]
    -- over the sources, and over the contracts of each
    refine (wp_forM (I := fun rest latest' => (∀ source ∈ rest, source ∈ sources) ∧
        { latest' with contracts := latest'.contracts ++ contractsOfSources rest } =
        { latest with contracts := contractsOfSources sources })
        ?_ _ _ ⟨fun _ h => h, rfl⟩).imp ?_
    · rintro ⟨source, context⟩ rest latest' ⟨hrest, heq⟩
      obtain ⟨entries, hentries, -⟩ := hsources _ (hrest _ List.mem_cons_self)
      obtain rfl : context = .obj entries := hentries
      simp only [wp_bind, wp_pure]
      refine (wp_forM (I := fun left latest'' =>
          { latest'' with contracts := latest''.contracts ++ contractsOf left } =
          { latest' with contracts := latest'.contracts ++ contractsOf entries })
          ?_ _ _ rfl).imp ?_
      · rintro ⟨contract, data⟩ left latest'' heq'
        rw [wp_modify]
        simpa [contractsOf] using heq'
      · rintro - latest'' heq'
        refine ⟨fun s hs => hrest s (List.mem_cons_of_mem _ hs), ?_⟩
        have heq'' : latest'' =
            { latest' with contracts := latest'.contracts ++ contractsOf entries } := by
          simpa only [contractsOf, List.map_nil, List.append_nil] using heq'
        rw [← heq, heq'', contractsOfSources_cons, List.append_assoc]
    · rintro - latest' ⟨-, heq⟩
      simp only [contractsOfSources, List.flatMap_nil, List.append_nil] at heq
      exact heq
  · have hmap : (Json.obj output.fields).field "contracts" = none :=
      Option.not_isSome_iff_eq_none.1 hhas
    rw [if_neg hhas, hmap]
    rfl

/-- **What one output leaves** of the stored result. -/
theorem parseCompilationResult_spec (output : CompilerOutput) (latest : ICompilerResult) :
    wp (parseCompilationResult (.json output.json))
      (fun _ latest' => latest' = { errors := output.errors, contracts :=
        if output.HasContracts then output.contracts else latest.contracts })
      (fun _ _ => False) latest := by
  simp only [parseCompilationResult, Json.parse, wp_bind]
  refine (parseContracts_spec output latest).imp fun _ latest' h => ?_
  refine (parseErrors_spec output latest').imp fun _ latest'' h' => ?_
  rw [h', h]
  split_ifs <;> rfl

/-! ## Sequences of outputs -/

/-- The stored result, once an output more was parsed. -/
def ICompilerResult.next (latest : ICompilerResult) (output : CompilerOutput) : ICompilerResult :=
  after (parseCompilationResult (.json output.json)) latest

/-- The stored result, after a sequence of outputs. -/
def ICompilerResult.run (latest : ICompilerResult) (outputs : List CompilerOutput) :
    ICompilerResult := outputs.foldl ICompilerResult.next latest

/-- **The stored result is the output's**: nothing of an earlier one
remains. -/
def ICompilerResult.IsOf (latest : ICompilerResult) (output : CompilerOutput) : Prop :=
  latest.contracts = output.contracts ∧ latest.errors = output.errors

theorem next_eq (latest : ICompilerResult) (output : CompilerOutput) :
    latest.next output = { errors := output.errors, contracts :=
      if output.HasContracts then output.contracts else latest.contracts } :=
  (parseCompilationResult_spec output latest).after (I := fun latest' => latest' = _)
    (fun _ _ h => h) fun _ _ h => h.elim

theorem contracts_of_not_hasContracts (h : ¬ output.HasContracts) : output.contracts = [] := by
  rw [CompilerOutput.contracts, Option.not_isSome_iff_eq_none.1 h]
  rfl

/-- One call replaces the contracts, unless there is no map and there were
some. -/
theorem next_isOf_iff (latest : ICompilerResult) (output : CompilerOutput) :
    (latest.next output).IsOf output ↔ output.HasContracts ∨ latest.contracts = [] := by
  simp only [ICompilerResult.IsOf, next_eq, and_true]
  by_cases h : output.HasContracts
  · simp [h]
  · simp [h, contracts_of_not_hasContracts h]

/-- Every call of a sequence leaves its own output. -/
def EachIsOf (latest : ICompilerResult) (outputs : List CompilerOutput) : Prop :=
  ∀ before output, before ++ [output] <+: outputs →
    (latest.run (before ++ [output])).IsOf output

theorem eachIsOf_cons {outputs : List CompilerOutput} :
    EachIsOf latest (output :: outputs) ↔
      (latest.next output).IsOf output ∧ EachIsOf (latest.next output) outputs := by
  refine ⟨fun h => ⟨h [] output ?_, fun before o hpre => h (output :: before) o ?_⟩, ?_⟩
  · exact List.prefix_append [output] outputs
  · exact List.cons_prefix_cons.2 ⟨rfl, hpre⟩
  · rintro ⟨hone, hrest⟩ before o hpre
    cases before with
    | nil =>
      obtain ⟨rfl, -⟩ := List.cons_prefix_cons.1 hpre
      exact hone
    | cons o' before =>
      obtain ⟨rfl, hpre'⟩ := List.cons_prefix_cons.1 hpre
      exact hrest before o hpre'

/-- From any stored result: the first output has to meet it, and every
later one the output before it. -/
theorem eachIsOf_iff (outputs : List CompilerOutput) (latest : ICompilerResult) :
    EachIsOf latest outputs ↔
      (∀ output ∈ outputs.head?, output.HasContracts ∨ latest.contracts = []) ∧
        outputs.IsChain fun previous output => output.HasContracts ∨ previous.contracts = [] := by
  induction outputs generalizing latest with
  | nil =>
    refine ⟨fun _ => ⟨nofun, .nil⟩, fun _ before output hpre => ?_⟩
    exact absurd (List.prefix_nil.1 hpre) (by simp)
  | cons output outputs ih =>
    rw [eachIsOf_cons, next_isOf_iff, ih, List.isChain_cons]
    simp only [List.head?_cons, Option.mem_some_iff, forall_eq']
    refine and_congr_right fun hfirst => ?_
    have hcontracts : (latest.next output).contracts = output.contracts :=
      ((next_isOf_iff latest output).2 hfirst).1
    rw [hcontracts]

/-- **Nothing of an earlier output remains**, after every call of a sequence
from a new service, exactly if each output that has no `contracts` map
comes first or follows one that lists no contract. -/
theorem result_is_of_last_output (outputs : List CompilerOutput) :
    EachIsOf .initial outputs ↔
      outputs.IsChain fun previous output => output.HasContracts ∨ previous.contracts = [] := by
  rw [eachIsOf_iff]
  exact and_iff_right fun _ _ => .inr rfl

/-- One contract, compiled. -/
def compiled : CompilerOutput where
  fields := [("contracts", .obj [("A.sol", .obj [("A", .obj [("abi", .arr [])])])])]
  contracts_map := by
    rintro value h
    obtain rfl := Option.some.inj h
    exact ⟨_, rfl, by simp⟩
  error_entry := nofun
  errors_entries := nofun

/-- An output with an error and no contracts. -/
def failed : CompilerOutput where
  fields := [("errors", .arr [.obj [("message", .str "Expected token"),
    ("formattedMessage", .str "A.sol:1:1: ParserError: Expected token")]])]
  contracts_map := nofun
  error_entry := nofun
  errors_entries := by
    rintro value h
    obtain rfl := Option.some.inj h
    refine ⟨_, rfl, fun item hitem => ?_⟩
    rw [List.mem_singleton] at hitem
    exact ⟨_, _, _, hitem, by rw [hitem]; rfl, by rw [hitem]; rfl⟩

/-- **A failure keeps the contracts of the success before it.** -/
theorem failed_keeps_contracts : ¬ ∀ outputs : List CompilerOutput,
    EachIsOf .initial outputs := by
  intro h
  have hlast := (h [compiled, failed] [compiled] failed (List.prefix_refl _)).1
  simp only [ICompilerResult.run, List.cons_append, List.nil_append, List.foldl_cons,
    List.foldl_nil, next_eq] at hlast
  exact absurd (congrArg List.length hlast) (by decide)

end Hmix
