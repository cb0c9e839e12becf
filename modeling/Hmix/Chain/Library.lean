import Hmix.Chain.Events
import Hmix.Chain.Rpc
import Hmix.Model.Library
import Hmix.Tabs.Calls

/-!
# The library under the run tab

With the library's contract objects the texts that are typed, the codec and the desk's machine
come together. In any run what goes to the node is what was typed for the function that is the
only one of its name, and what is logged of a call is what is kept of the values the node
returned.
-/

namespace Hmix

open Buffer

/-! ## Strings -/

theorem toNat_ofNat_scalar {p : ℕ} (h : Scalar p) : (Char.ofNat p).toNat = p := by
  have hvalid : p.isValidChar := by
    unfold Scalar at h
    unfold Nat.isValidChar
    omega
  rw [Char.ofNat, dif_pos hvalid]
  rfl

/-- What is well formed is the string's code units. -/
theorem units_ofUnits {s : Units} (h : wellFormed s) : units (ofUnits s) = s := by
  rw [units, ofUnits, String.toList_ofList, List.flatMap_map]
  refine Eq.trans (List.flatMap_congr fun p hp => ?_) (points_pointUnits h)
  rw [toNat_ofNat_scalar (scalar_of_mem_points hp)]

theorem wellFormed_of_hex {s : Units} (h : s.all isHex) : wellFormed s := by
  induction s with
  | nil => rfl
  | cons u s ih =>
    rw [List.all_cons, Bool.and_eq_true] at h
    have hsmall := spelled_unit (.inl h.1)
    have hlead : isLead u = false := by
      simp only [isLead, Bool.and_eq_false_iff, decide_eq_false_iff_not]
      omega
    have htrail : isTrail u = false := by
      simp only [isTrail, Bool.and_eq_false_iff, decide_eq_false_iff_not]
      omega
    cases s with
    | nil => simp [wellFormed, hlead, htrail]
    | cons v s => simp [wellFormed, hlead, htrail, ih h.2]

/-! ## What is encoded -/

section

variable {keccak256 : String → Units} {shown : AbiError → String} {readLog : String → RawLog}
  {rpc : ℕ} {abi : List AbiItem} {address name text : String} {fn : ContractFn}

theorem libraryContract_findMethod (method : String) (args : List String) :
    (libraryContract keccak256 shown readLog rpc abi address).findMethod method args =
      ((MethodMap.ofAbi abi).findMethod method args.length).map Found.methodABI := rfl

theorem mapError_eq_ok {ε ε' α : Type} {f : ε → ε'} {x : Except ε α} {a : α} :
    x.mapError f = .ok a ↔ x = .ok a := by
  cases x <;> simp [Except.mapError]

/-- No function of a contract has the name of what the engine has. -/
theorem methodABI_ne_native {item : AbiItem} (h : Identifier item.name) :
    (Found.method item).methodABI ≠ nativeMethod := by
  intro heq
  have hname : item.name = "(native)" := congrArg MethodABI.name heq
  have := h.1
  rw [hname] at this
  exact this (by decide)

/-- A method is encoded by its name and its types. -/
theorem encodeInputs_methodABI {found : Found} {args : List AbiValue}
    (h : ∀ item, found = .method item → Identifier item.name) :
    encodeInputs keccak256 (if found.methodABI = nativeMethod then .inherited
      else .method found.methodABI.item) args = encodeInputs keccak256 found args := by
  cases found with
  | inherited => rw [if_pos (show Found.inherited.methodABI = nativeMethod from rfl)]
  | method item =>
    have htypes : (Found.method item).methodABI.item.inputTypes = item.inputTypes := by
      rw [AbiItem.inputTypes, MethodABI.item, List.map_map]
      exact List.map_id _
    have hsignature : (Found.method item).methodABI.item.signature = item.signature := by
      rw [AbiItem.signature, htypes]
      rfl
    rw [if_neg (methodABI_ne_native (h item rfl)), encodeInputs, encodeInputs, encodeMethod,
      encodeMethod, encodeSignature, encodeSignature, htypes, hsignature]

/-- **What the calldata of a typed call means**: the only function of the name that takes as many
arguments, and behind its signature what is read as what is kept of the texts. A function that is
sent to is not constant. -/
def Means (keccak256 : String → Units) (abi : List AbiItem) (fn : ContractFn) (datahex : String) :
    Prop :=
  ∃ method params kept, byName abi fn.name (splitArgs fn.args).length = some method ∧
    (fn.constant = false → method.constant = false) ∧
    units datahex = encodeSignature keccak256 method ++ hexSlice params ∧
    keptParams method.inputTypes (typed fn.args) = some kept ∧
    decodeParams method.inputTypes params = .ok kept

/-- The method that is called is one that was found in the contract's ABI. -/
structure Calls (contract : ContractObject) (fn : ContractFn) (methodABI : MethodABI) : Prop where
  name : Identifier fn.name
  native : methodABI ≠ nativeMethod
  found : contract.findMethod fn.name (splitArgs fn.args) = some methodABI

/-- It is the only function of its name. -/
theorem Calls.method {methodABI : MethodABI}
    (h : Calls (libraryContract keccak256 shown readLog rpc abi address) fn methodABI) :
    ∃ method, byName abi fn.name (splitArgs fn.args).length = some method ∧
      methodABI = (Found.method method).methodABI := by
  have hfound := h.found
  rw [libraryContract_findMethod, findMethod_identifier h.name] at hfound
  split_ifs at hfound
  · cases hfound
    exact absurd rfl h.native
  · simp only [Option.map_map, Option.map_eq_some_iff] at hfound
    obtain ⟨method, hmethod, rfl⟩ := hfound
    exact ⟨method, hmethod, rfl⟩

/-- What is encoded for a method that was found by its name. -/
theorem means_of_encodeInputs (hkeccak : ∀ s, (keccak256 s).all isHex) (hname : Identifier fn.name)
    {found : Found} {datahex : String}
    (hfound : (MethodMap.ofAbi abi).findMethod fn.name (splitArgs fn.args).length = some found)
    (hconstant : fn.constant = false → found.methodABI.constant = false)
    (h : (libraryContract keccak256 shown readLog rpc abi address).encodeInputs found.methodABI
      (splitArgs fn.args) = .ok datahex) :
    Means keccak256 abi fn datahex ∧
      Calls (libraryContract keccak256 shown readLog rpc abi address) fn found.methodABI := by
  have hlength : (typed fn.args).length = (splitArgs fn.args).length := by
    rw [typed, List.length_map]
  have hown : ∀ item, found = .method item →
      byName abi fn.name (splitArgs fn.args).length = some item := by
    rintro item rfl
    rw [findMethod_identifier hname] at hfound
    split_ifs at hfound
    · cases hfound
    · obtain ⟨item', hitem, heq⟩ := Option.map_eq_some_iff.1 hfound
      cases heq
      exact hitem
  obtain ⟨calldata, hcalldata, hdatahex⟩ := of_bind_ok (mapError_eq_ok.1 h)
  cases hdatahex
  rw [encodeInputs_methodABI fun item hitem => (byName_some (hown item hitem)).2.1 ▸ hname]
    at hcalldata
  have hcall : encodeCall keccak256 abi fn.name (typed fn.args) = .ok calldata := by
    rw [encodeCall, hlength, hfound]
    exact hcalldata
  obtain ⟨method, params, kept, hmethod, -, rfl, -, hkept, hdecoded⟩ := encodeCall_typed hname hcall
  have hhex : (encodeSignature keccak256 method ++ hexSlice params).all isHex := by
    rw [List.all_append, isHex_hexSlice, Bool.and_true, List.all_eq_true]
    exact fun u hu => List.all_eq_true.1 (hkeccak _) u (List.mem_of_mem_take hu)
  cases found with
  | inherited => cases hcalldata
  | method item =>
    have hitem : Identifier item.name := (byName_some (hown item rfl)).2.1 ▸ hname
    refine ⟨⟨method, params, kept, hmethod, fun hfn => ?_, units_ofUnits (wellFormed_of_hex hhex),
      hkept, hdecoded⟩, hname, methodABI_ne_native hitem, ?_⟩
    · rw [hown item rfl] at hmethod
      cases hmethod
      exact hconstant hfn
    · rw [libraryContract_findMethod, hfound]
      rfl

/-- A transaction. -/
theorem means_of_encodeSend (hkeccak : ∀ s, (keccak256 s).all isHex) (hname : Identifier fn.name)
    {datahex : String}
    (h : (libraryContract keccak256 shown readLog rpc abi address).encodeSend fn.name
      (splitArgs fn.args) = .ok datahex) : Means keccak256 abi fn datahex := by
  rw [ContractObject.encodeSend, libraryContract_findMethod] at h
  cases hfound : (MethodMap.ofAbi abi).findMethod fn.name (splitArgs fn.args).length with
  | none =>
    rw [hfound] at h
    cases h
  | some found =>
    simp only [hfound, Option.map_some] at h
    split_ifs at h with hconstant
    exact (means_of_encodeInputs hkeccak hname hfound (fun _ => by simpa using hconstant) h).1

/-- A call, of a function that is constant. -/
theorem means_of_encodeParams (hkeccak : ∀ s, (keccak256 s).all isHex)
    (hname : Identifier fn.name) (hcalls : fn.constant) {datahex : String} {methodABI : MethodABI}
    (h : (libraryContract keccak256 shown readLog rpc abi address).encodeParams fn.name
      (splitArgs fn.args) = .ok (methodABI, datahex)) :
    Means keccak256 abi fn datahex ∧
      Calls (libraryContract keccak256 shown readLog rpc abi address) fn methodABI := by
  rw [ContractObject.encodeParams, libraryContract_findMethod] at h
  cases hfound : (MethodMap.ofAbi abi).findMethod fn.name (splitArgs fn.args).length with
  | none =>
    rw [hfound] at h
    cases h
  | some found =>
    simp only [hfound, Option.map_some] at h
    obtain ⟨datahex', hencode, h⟩ := of_bind_ok h
    cases h
    exact means_of_encodeInputs hkeccak hname hfound (fun hfn => by simp [hfn] at hcalls) hencode

end

/-! ## What is decoded -/

section

variable {keccak256 : String → Units} {shown : AbiError → String} {readLog : String → RawLog}
  {rpc : ℕ} {abi : List AbiItem} {address name : String} {method : AbiItem}

/-- A log is decoded as the library decodes it. -/
theorem decodeLog_library {log : String} {event : EventLog} :
    (libraryContract keccak256 shown readLog rpc abi address).decodeLog log = .ok event ↔
      ∃ object, Hmix.decodeLog keccak256 abi (readLog log) = .ok object ∧
        event = eventLog object := by
  simp only [libraryContract, mapError_eq_ok]
  cases Hmix.decodeLog keccak256 abi (readLog log) with
  | error e => exact iff_of_false (fun h => by cases h) (by simp)
  | ok object =>
    rw [ok_bind]
    exact ⟨fun h => ⟨object, rfl, (Except.ok.inj h).symm⟩, by
      rintro ⟨object', hobject, rfl⟩
      cases hobject
      rfl⟩

/-- Logs of the contract, one after the other. -/
theorem decodeLogs_library {logs : List (AbiItem × Given × String)}
    (hlogs : ∀ l ∈ logs, Logged keccak256 abi l.1 l.2.1 (readLog l.2.2)) :
    if ∀ l ∈ logs, ReadableInputs l.1.inputs then
      ∃ objects, List.Forall₂ (fun (l : AbiItem × Given × String) object =>
          DecodedAs l.1 l.2.1 object) logs objects ∧
        (logs.map fun l => l.2.2).mapM
          (libraryContract keccak256 shown readLog rpc abi address).decodeLog =
            .ok (objects.map fun o => eventLog (some o))
    else ∃ err, (logs.map fun l => l.2.2).mapM
      (libraryContract keccak256 shown readLog rpc abi address).decodeLog = .error err := by
  refine mapM_of_good fun l hl => ?_
  have hdecoded := (hlogs l hl).decodeLog
  split_ifs at hdecoded ⊢
  · obtain ⟨object, htells, hobject⟩ := hdecoded
    exact ⟨object, htells, decodeLog_library.2 ⟨some object, hobject, rfl⟩⟩
  · obtain ⟨e, he⟩ := hdecoded
    exact ⟨shown e, by simp only [libraryContract, he]; rfl⟩

end

/-! ## What goes to the node -/

section

variable {χ : Type} {node : Node χ} {keccak256 : String → Units} {shown : AbiError → String}
  {readLog : String → RawLog}

/-- **The request that is made for a function**, of a contract at an address. -/
inductive Submits (keccak256 : String → Units) (abi : List AbiItem) (address : String)
    (fn : ContractFn) : Rpc → Prop
  | call {datahex senderAddress : String} (hfallback : ¬ fn.isFallback) (hconstant : fn.constant)
      (h : Means keccak256 abi fn datahex) :
      Submits keccak256 abi address fn (.callcontract address datahex senderAddress)
  | send {transaction : Transaction} (hfallback : ¬ fn.isFallback) (hconstant : fn.constant = false)
      (haddress : transaction.address = address)
      (h : Means keccak256 abi fn transaction.datahex) :
      Submits keccak256 abi address fn (.sendtocontract transaction)
  | fallback {transaction : Transaction} (hfallback : fn.isFallback)
      (haddress : transaction.address = address) (hdatahex : transaction.datahex = "00000000") :
      Submits keccak256 abi address fn (.sendtocontract transaction)

/-- A block is asked for; in front of it what the node can do, if the client does not know. -/
def BlockRequest (rpcs : List Rpc) : Prop :=
  rpcs = [.help "gettransaction", .generate 1] ∨ rpcs = [.generate 1]

/-- **What is asked for a transaction that was fetched**: a block, then the transaction as often as
`confirm` asks for it in some rounds, and its receipt once at most. -/
def ConfirmRequests (txid : String) (rpcs : List Rpc) : Prop :=
  ∃ front, BlockRequest front ∧ (rpcs = front ∨
    ∃ (waits : Bool) (rounds : List (ConfirmRound Receipt)) (receipts : List String),
      receipts.length ≤ 1 ∧ rpcs = front ++
        (confirm 1 waits rounds).waited.map (.gettransaction txid) ++
          receipts.map .gettransactionreceipt)

/-- **What follows the request of an invocation**: a block at most; or the transaction, and what is
asked for it if it was fetched. -/
def FollowUps (rpcs : List Rpc) : Prop :=
  rpcs = [] ∨ rpcs = [.generate 1] ∨
    ∃ txid behind, rpcs = .gettransaction txid none :: behind ∧
      (behind = [] ∨ ConfirmRequests txid behind)

/-- What has been asked for a transaction, when `tx.confirm(1)` has come so far. -/
inductive ConfirmRequestsAt (txid : String) : ConfirmProgress → List Rpc → Prop
  | helping : ConfirmRequestsAt txid (.helping txid) [.help "gettransaction", .generate 1]
  | fetching {front : List Rpc} {waits : Bool} {rounds : List (ConfirmRound Receipt)}
      (hfront : BlockRequest front) (hnone : (confirm 1 waits rounds).outcome = none) :
      ConfirmRequestsAt txid (.fetching txid waits (confirm 1 waits rounds))
        (front ++ (confirm 1 waits rounds).waited.map (.gettransaction txid))
  | receiving {front : List Rpc} {waits : Bool} {rounds : List (ConfirmRound Receipt)}
      {tx : TxInfo} (hfront : BlockRequest front) (hnone : (confirm 1 waits rounds).outcome = none)
      (hpos : 0 < tx.confirmations) :
      ConfirmRequestsAt txid (.receiving txid waits (confirm 1 waits rounds) tx)
        (front ++ (confirm 1 waits rounds).waited.map (.gettransaction txid) ++
          [.gettransactionreceipt tx.txid])
  | ended {rpcs : List Rpc} (h : ConfirmRequests txid rpcs) : ConfirmRequestsAt txid .ended rpcs

/-- What follows the request, of an invocation that has come so far. -/
inductive FollowUpsAt : Progress → ConfirmProgress → List Rpc → Prop
  | calling {methodABI : MethodABI} {datahex senderAddress : String} :
      FollowUpsAt (.calling methodABI datahex senderAddress) .ended []
  | sending {transaction : Transaction} : FollowUpsAt (.sending transaction) .ended []
  | fetching {txid : String} : FollowUpsAt (.fetching txid) .ended [.gettransaction txid none]
  | failed {rpcs : List Rpc} (h : rpcs = [] ∨ ∃ txid, rpcs = [.gettransaction txid none]) :
      FollowUpsAt .done .ended rpcs
  | block {stage : Progress} (h : stage.Finished) : FollowUpsAt stage .ended [.generate 1]
  | confirming {stage : Progress} {confirming : ConfirmProgress} {txid : String}
      {rpcs : List Rpc} (h : stage.Finished) (hconfirm : ConfirmRequestsAt txid confirming rpcs) :
      FollowUpsAt stage confirming (.gettransaction txid none :: rpcs)

/-- **What an invocation has asked of the node**: nothing, or what its function is for. -/
def Invocation.Asked (keccak256 : String → Units) (shown : AbiError → String)
    (readLog : String → RawLog) (inv : Invocation) : Prop :=
  ∃ rpc abi address, inv.contract = libraryContract keccak256 shown readLog rpc abi address ∧
    (∀ methodABI datahex senderAddress, inv.stage = .calling methodABI datahex senderAddress →
      Calls inv.contract inv.fn methodABI) ∧
    ((inv.stage = .done ∧ inv.confirming = .ended ∧ inv.requests = []) ∨
      ∃ first rest, inv.requests = first :: rest ∧ Submits keccak256 abi address inv.fn first ∧
        FollowUpsAt inv.stage inv.confirming rest)

/-- A request of a library's contract, by a function that it has: its name is an identifier, or
it is the fallback. -/
def OfLibrary (keccak256 : String → Units) (shown : AbiError → String)
    (readLog : String → RawLog) (e : InvocationEvent χ) : Prop :=
  ∀ contract fn, e = .callOrSend contract fn →
    (∃ rpc abi address, contract = libraryContract keccak256 shown readLog rpc abi address) ∧
      (fn.isFallback ∨ Identifier fn.name)

/-! ### One invocation -/

section

variable {txid : String} {confirming : ConfirmProgress} {rpcs : List Rpc} {stage : Progress}

theorem ConfirmRequestsAt.requests (h : ConfirmRequestsAt txid confirming rpcs) :
    ConfirmRequests txid rpcs := by
  cases h with
  | helping => exact ⟨_, .inl rfl, .inl rfl⟩
  | fetching hfront => exact ⟨_, hfront, .inr ⟨_, _, [], by simp, (List.append_nil _).symm⟩⟩
  | @receiving _ _ _ tx hfront => exact ⟨_, hfront, .inr ⟨_, _, [tx.txid], by simp, rfl⟩⟩
  | ended h => exact h

theorem FollowUpsAt.followUps (h : FollowUpsAt stage confirming rpcs) : FollowUps rpcs := by
  cases h with
  | calling => exact .inl rfl
  | sending => exact .inl rfl
  | fetching => exact .inr (.inr ⟨_, [], rfl, .inl rfl⟩)
  | failed h =>
    rcases h with rfl | ⟨txid, rfl⟩
    · exact .inl rfl
    · exact .inr (.inr ⟨txid, [], rfl, .inl rfl⟩)
  | block => exact .inr (.inl rfl)
  | confirming _ hconfirm => exact .inr (.inr ⟨_, _, rfl, .inr hconfirm.requests⟩)

/-- Nothing is left to do but what `tx.confirm(1)` does. -/
theorem FollowUpsAt.finish (h : FollowUpsAt stage confirming rpcs) :
    FollowUpsAt .done confirming rpcs := by
  cases h with
  | calling => exact .failed (.inl rfl)
  | sending => exact .failed (.inl rfl)
  | fetching => exact .failed (.inr ⟨_, rfl⟩)
  | failed h => exact .failed h
  | block => exact .block trivial
  | confirming _ hconfirm => exact .confirming trivial hconfirm

/-- Only behind a transaction that was fetched is there anything to confirm. -/
theorem FollowUpsAt.confirmAt (h : FollowUpsAt stage confirming rpcs) (hended : confirming ≠ .ended) :
    ∃ txid behind, rpcs = .gettransaction txid none :: behind ∧
      ConfirmRequestsAt txid confirming behind ∧ stage.Finished := by
  cases h with
  | confirming hfinished hconfirm => exact ⟨_, _, rfl, hconfirm, hfinished⟩
  | _ => exact absurd rfl hended

/-- The first request is to be answered. -/
def Progress.First : Progress → Prop
  | .calling .. | .sending _ => True
  | _ => False

theorem FollowUpsAt.first (h : FollowUpsAt stage confirming rpcs) (hfirst : stage.First) :
    confirming = .ended ∧ rpcs = [] := by
  cases h with
  | calling => exact ⟨rfl, rfl⟩
  | sending => exact ⟨rfl, rfl⟩
  | fetching => exact hfirst.elim
  | failed => exact hfirst.elim
  | block h => cases stage <;> first | exact hfirst.elim | exact h.elim
  | confirming h => cases stage <;> first | exact hfirst.elim | exact h.elim

theorem FollowUpsAt.fetched (h : FollowUpsAt (.fetching txid) confirming rpcs) :
    rpcs = [.gettransaction txid none] := by
  cases h with
  | fetching => rfl
  | block h => exact h.elim
  | confirming h => exact h.elim

end

namespace Invocation

variable {inv inv' : Invocation}

/-- An invocation comes further, and keeps what it has asked. -/
theorem Asked.finish (h : inv.Asked keccak256 shown readLog) :
    inv.finish.Asked keccak256 shown readLog := by
  obtain ⟨rpc, abi, address, hcontract, -,
    ⟨-, hended, hnone⟩ | ⟨first, rest, hrequests, hsubmits, hfollowed⟩⟩ := h
  · exact ⟨rpc, abi, address, hcontract, nofun, .inl ⟨rfl, hended, hnone⟩⟩
  · exact ⟨rpc, abi, address, hcontract, nofun,
      .inr ⟨first, rest, hrequests, hsubmits, hfollowed.finish⟩⟩

/-- Something follows the request that was made first. -/
theorem Asked.request (h : inv.Asked keccak256 shown readLog) (hfirst : inv.stage.First)
    {stage : Progress} {rpc : Rpc}
    (hcalling : ∀ methodABI datahex sender, stage ≠ .calling methodABI datahex sender)
    (hfollows : FollowUpsAt stage .ended [rpc]) :
    (inv.request stage rpc).Asked keccak256 shown readLog := by
  obtain ⟨client, abi, address, hcontract, -,
    ⟨hdone, -⟩ | ⟨first, rest, hrequests, hsubmits, hfollowed⟩⟩ := h
  · rw [hdone] at hfirst
    exact hfirst.elim
  · obtain ⟨hended, rfl⟩ := hfollowed.first hfirst
    refine ⟨client, abi, address, hcontract, fun methodABI datahex sender hstage =>
      absurd hstage (hcalling methodABI datahex sender), .inr ⟨first, [rpc], ?_, hsubmits, ?_⟩⟩
    · rw [Invocation.request, hrequests]
      rfl
    · show FollowUpsAt stage inv.confirming [rpc]
      rw [hended]
      exact hfollows

/-- A block is generated, when nothing else was asked for since. -/
theorem Asked.generateBlocks (h : inv.Asked keccak256 shown readLog) (hfirst : inv.stage.First) :
    inv.generateBlocks.Asked keccak256 shown readLog :=
  h.request hfirst nofun (.block trivial)

/-- The transaction is asked for, behind the one that was sent. -/
theorem Asked.fetch (h : inv.Asked keccak256 shown readLog) (hfirst : inv.stage.First)
    (txid : String) : (({ inv with accepted := true } : Invocation).request (.fetching txid)
      (.gettransaction txid none)).Asked keccak256 shown readLog := by
  have haccepted : ({ inv with accepted := true } : Invocation).Asked keccak256 shown readLog := h
  exact haccepted.request hfirst nofun .fetching

/-- The transaction was fetched: what is to be confirmed is asked for, and a block. -/
theorem Asked.confirmAndGenerate (h : inv.Asked keccak256 shown readLog) {txid : String}
    (hstage : inv.stage = .fetching txid) (hasTxWaitSupport : Option Bool) :
    (inv.confirmAndGenerate hasTxWaitSupport txid).Asked keccak256 shown readLog := by
  obtain ⟨rpc, abi, address, hcontract, -,
    ⟨hdone, -⟩ | ⟨first, rest, hrequests, hsubmits, hfollowed⟩⟩ := h
  · rw [hstage] at hdone
    cases hdone
  · rw [hstage] at hfollowed
    obtain rfl := hfollowed.fetched
    cases hasTxWaitSupport with
    | none =>
      refine ⟨rpc, abi, address, hcontract, nofun, .inr ⟨first, .gettransaction txid none ::
        [.help "gettransaction", .generate 1], ?_, hsubmits, .confirming trivial .helping⟩⟩
      show inv.requests ++ [_] ++ [_] = _
      rw [hrequests]
      rfl
    | some waits =>
      have hstart : ConfirmRequestsAt txid (.fetching txid waits (Hmix.confirm 1 waits []))
          ([.generate 1] ++ (Hmix.confirm 1 waits ([] : List (ConfirmRound Receipt))).waited.map
            (.gettransaction txid)) := .fetching (.inr rfl) rfl
      refine ⟨rpc, abi, address, hcontract, nofun, .inr ⟨first, _, ?_, hsubmits,
        FollowUpsAt.confirming trivial hstart⟩⟩
      show inv.requests ++ [_] ++ [_] = _
      rw [hrequests]
      rfl

/-- **`tx.confirm(1)` comes further**, and asks for what it needs then. -/
theorem Asked.confirm (h : inv.Asked keccak256 shown readLog) (hended : inv.confirming ≠ .ended)
    (hasks : Asks inv inv') (hstep : ∀ txid behind asked, inv'.requests = inv.requests ++ asked →
      ConfirmRequestsAt txid inv.confirming behind →
        ConfirmRequestsAt txid inv'.confirming (behind ++ asked)) :
    inv'.Asked keccak256 shown readLog := by
  obtain ⟨rpc, abi, address, hcontract, hcalls,
    ⟨-, hended', -⟩ | ⟨first, rest, hrequests, hsubmits, hfollowed⟩⟩ := h
  · exact absurd hended' hended
  · obtain ⟨asked, hasked, -⟩ := hasks.requests
    obtain ⟨txid, behind, rfl, hconfirm, hfinished⟩ := hfollowed.confirmAt hended
    refine ⟨rpc, abi, address, hasks.contract.trans hcontract, ?_, .inr ⟨first,
      .gettransaction txid none :: (behind ++ asked), ?_, hasks.fn ▸ hsubmits, ?_⟩⟩
    · rw [hasks.stage, hasks.fn, hasks.contract]
      exact hcalls
    · rw [hasked, hrequests]
      rfl
    · rw [hasks.stage]
      exact .confirming hfinished (hstep txid behind asked hasked hconfirm)

/-- While something of `tx.confirm(1)` is to be answered, it is known what has been asked for. -/
theorem Asked.confirmAt (h : inv.Asked keccak256 shown readLog) (hended : inv.confirming ≠ .ended) :
    ∃ txid behind, ConfirmRequestsAt txid inv.confirming behind := by
  obtain ⟨rpc, abi, address, -, -, ⟨-, hended', -⟩ | ⟨first, rest, -, -, hfollowed⟩⟩ := h
  · exact absurd hended' hended
  · obtain ⟨txid, behind, -, hconfirm, -⟩ := hfollowed.confirmAt hended
    exact ⟨txid, behind, hconfirm⟩

/-- It is given up. -/
theorem Asked.finishConfirm (h : inv.Asked keccak256 shown readLog)
    (hended : inv.confirming ≠ .ended) : inv.finishConfirm.Asked keccak256 shown readLog := by
  refine h.confirm hended asks_finishConfirm fun txid behind asked hasked hconfirm => ?_
  obtain rfl : asked = [] := List.self_eq_append_right.1 hasked
  rw [List.append_nil]
  exact .ended hconfirm.requests

/-- Where the loop of `confirm` goes on, the transaction is asked for as `confirm` does. -/
theorem Asked.poll (h : inv.Asked keccak256 shown readLog) (hended : inv.confirming ≠ .ended)
    {t : String} {waits : Bool} {c : Confirming Receipt} {polls : List (Option ℤ)}
    {w : Option ℤ} (hnone : c.outcome = none) (hwaited : c.waited = polls ++ [w])
    (hstep : ∀ txid behind, ConfirmRequestsAt txid inv.confirming behind → t = txid ∧
      ∃ front rounds, BlockRequest front ∧ c = Hmix.confirm 1 waits rounds ∧
        behind = front ++ polls.map (.gettransaction txid)) :
    (inv.poll t waits c).Asked keccak256 shown readLog := by
  have hpoll : inv.poll t waits c =
      inv.requestConfirm (.fetching t waits c) (.gettransaction t w) := by
    rw [Invocation.poll, hnone, hwaited, List.getLast?_concat]
    rfl
  rw [hpoll]
  refine h.confirm hended (asks_requestConfirm _ trivial) fun txid behind asked hasked hconfirm => ?_
  obtain rfl : [Rpc.gettransaction t w] = asked := List.append_cancel_left hasked
  obtain ⟨rfl, front, rounds, hfront, rfl, rfl⟩ := hstep txid behind hconfirm
  have hmap : front ++ polls.map (Rpc.gettransaction t) ++ [.gettransaction t w] =
      front ++ (Hmix.confirm 1 waits rounds).waited.map (.gettransaction t) := by
    rw [hwaited, List.map_append, List.append_assoc]
    rfl
  rw [hmap]
  exact .fetching hfront hnone

end Invocation

namespace InvocationDesk

variable {x : InvocationDesk χ}

/-- What every invocation has asked. -/
def Asked (keccak256 : String → Units) (shown : AbiError → String) (readLog : String → RawLog)
    (x : InvocationDesk χ) : Prop :=
  ∀ inv ∈ x.invocations, inv.Asked keccak256 shown readLog

theorem Asked.update (h : x.Asked keccak256 shown readLog) {y : InvocationDesk χ} {i : ℕ}
    {inv : Invocation} (hset : y.invocations = x.invocations.set i inv)
    (hinv : inv.Asked keccak256 shown readLog) : y.Asked keccak256 shown readLog := by
  intro inv' hmem
  rw [hset] at hmem
  rcases List.mem_or_eq_of_mem_set hmem with hmem | rfl
  · exact h inv' hmem
  · exact hinv

/-- A call comes back. -/
theorem Asked.called (h : x.Asked keccak256 shown readLog) (i : ℕ) {inv : Invocation}
    (hinv : inv.Asked keccak256 shown readLog) {methodABI : MethodABI} {datahex sender : String}
    (hstage : inv.stage = .calling methodABI datahex sender) (result : Except String CallResult) :
    (x.called i inv methodABI result).Asked keccak256 shown readLog := by
  simp only [InvocationDesk.called]
  cases result >>= inv.contract.decodeCall methodABI with
  | error err => exact h.update rfl hinv.finish
  | ok decoded => exact h.update rfl (hinv.generateBlocks (hstage ▸ trivial))

/-- A transaction is accepted, or not. -/
theorem Asked.sent (h : x.Asked keccak256 shown readLog) (i : ℕ) {inv : Invocation}
    (hinv : inv.Asked keccak256 shown readLog) {transaction : Transaction}
    (hstage : inv.stage = .sending transaction) (result : Except String (String × χ)) :
    (x.sent i inv result).Asked keccak256 shown readLog := by
  simp only [InvocationDesk.sent]
  cases result with
  | error err => exact h.update rfl hinv.finish
  | ok reply =>
    have haccepted : ({ inv with accepted := true } : Invocation).Asked keccak256 shown readLog :=
      hinv
    dsimp only
    split_ifs
    · exact h.update rfl (haccepted.generateBlocks (hstage ▸ trivial))
    · exact h.update rfl (hinv.fetch (hstage ▸ trivial) _)

/-- The transaction comes back. -/
theorem Asked.fetched (h : x.Asked keccak256 shown readLog) (i : ℕ) {inv : Invocation}
    (hinv : inv.Asked keccak256 shown readLog) {txid : String} (hstage : inv.stage = .fetching txid)
    (result : Except String TxInfo) :
    (x.fetched i inv txid result).Asked keccak256 shown readLog := by
  simp only [InvocationDesk.fetched]
  cases result with
  | error err => exact h.update rfl hinv.finish
  | ok tx => exact h.update rfl (hinv.confirmAndGenerate hstage _)

/-- **An answer**: the invocation asks for what comes next, or for nothing more. -/
theorem Asked.answer (h : x.Asked keccak256 shown readLog) (i : ℕ) (lost : Option String) :
    (x.answer node i lost).Asked keccak256 shown readLog := by
  cases hinv : x.invocations[i]? with
  | none =>
    simp only [InvocationDesk.answer, hinv]
    exact h
  | some inv =>
    have hasked := h inv (List.mem_of_getElem? hinv)
    simp only [InvocationDesk.answer, hinv]
    cases hstage : inv.stage with
    | calling methodABI datahex senderAddress => exact h.called i hasked hstage _
    | sending transaction => exact h.sent i hasked hstage _
    | fetching txid => exact h.fetched i hasked hstage _
    | generating => exact Asked.update h rfl hasked.finish
    | done => exact h

/-- What the node can do comes back: `confirm` asks for the transaction for the first time. -/
theorem Asked.helped (h : x.Asked keccak256 shown readLog) (i : ℕ) {inv : Invocation}
    (hinv : inv.Asked keccak256 shown readLog) {txid : String}
    (hconfirming : inv.confirming = .helping txid) (result : Except String String) :
    (x.helped i inv txid result).Asked keccak256 shown readLog := by
  have hended : inv.confirming ≠ .ended := by rw [hconfirming]; nofun
  cases result with
  | error err => exact h.update rfl (hinv.finishConfirm hended)
  | ok helpmsg =>
    have hwaited : (Confirming.start (namesWaitconf helpmsg) : Confirming Receipt).waited =
        [] ++ [if namesWaitconf helpmsg then some 1 else none] := rfl
    refine h.update rfl (hinv.poll hended rfl hwaited ?_)
    intro txid' behind hconfirm
    rw [hconfirming] at hconfirm
    cases hconfirm
    exact ⟨rfl, _, [], .inl rfl, rfl, (List.append_nil _).symm⟩

/-- The transaction comes back in the loop of `confirm`. -/
theorem Asked.polled (h : x.Asked keccak256 shown readLog) (i : ℕ) {inv : Invocation}
    (hinv : inv.Asked keccak256 shown readLog) {txid : String} {waits : Bool}
    {c : Confirming Receipt} (hconfirming : inv.confirming = .fetching txid waits c)
    (result : Except String TxInfo) :
    (x.polled i inv txid waits c result).Asked keccak256 shown readLog := by
  have hended : inv.confirming ≠ .ended := by rw [hconfirming]; nofun
  cases result with
  | error err => exact h.update rfl (hinv.finishConfirm hended)
  | ok tx =>
    rw [InvocationDesk.polled]
    split_ifs with hpos
    · refine h.update rfl (hinv.confirm hended (Invocation.asks_requestConfirm _ trivial) ?_)
      intro txid' behind asked hasked hconfirm
      obtain rfl : [Rpc.gettransactionreceipt tx.txid] = asked := List.append_cancel_left hasked
      rw [hconfirming] at hconfirm
      cases hconfirm with
      | fetching hfront hnone => exact .receiving hfront hnone hpos
    · have hnone : c.outcome = none := by
        obtain ⟨txid', behind, hconfirm⟩ := hinv.confirmAt hended
        rw [hconfirming] at hconfirm
        cases hconfirm with
        | fetching _ hnone => exact hnone
      obtain ⟨w, hwaited⟩ := @Confirming.waited_next _ waits c tx.confirmations
      refine h.update rfl (hinv.poll hended ((c.outcome_next _).trans hnone) hwaited ?_)
      intro txid' behind hconfirm
      rw [hconfirming] at hconfirm
      cases hconfirm with
      | @fetching front _ rounds hfront =>
        refine ⟨rfl, front, rounds ++ [⟨.ok tx, .ok none⟩], hfront, ?_, rfl⟩
        rw [confirm_concat, Confirming.round_of_unconfirmed hnone hpos]

/-- Its receipt comes back. -/
theorem Asked.receipted (h : x.Asked keccak256 shown readLog) (i : ℕ) {inv : Invocation}
    (hinv : inv.Asked keccak256 shown readLog) {txid : String} {waits : Bool}
    {c : Confirming Receipt} {tx : TxInfo}
    (hconfirming : inv.confirming = .receiving txid waits c tx)
    (result : Except String (List Receipt)) :
    (x.receipted i inv txid waits c tx result).Asked keccak256 shown readLog := by
  have hended : inv.confirming ≠ .ended := by rw [hconfirming]; nofun
  cases result with
  | error err => exact h.update rfl (hinv.finishConfirm hended)
  | ok receipts =>
    obtain ⟨txid', behind, hconfirm⟩ := hinv.confirmAt hended
    rw [hconfirming] at hconfirm
    cases hconfirm with
    | @receiving _ _ rounds _ _ _ hpos =>
      obtain ⟨outcome, houtcome⟩ := @Confirming.onReceipt_outcome _ 1 waits
        (confirm 1 waits rounds) tx.confirmations hpos receipts.head?
      have hpoll := hinv.finishConfirm hended
      refine h.update rfl ?_
      rw [Invocation.poll, houtcome]
      exact hpoll

/-- **An answer to `tx.confirm(1)`.** -/
theorem Asked.answerConfirm (h : x.Asked keccak256 shown readLog) (i : ℕ)
    (lost : Option String) : (x.answerConfirm node i lost).Asked keccak256 shown readLog := by
  cases hinv : x.invocations[i]? with
  | none =>
    simp only [InvocationDesk.answerConfirm, hinv]
    exact h
  | some inv =>
    have hasked := h inv (List.mem_of_getElem? hinv)
    simp only [InvocationDesk.answerConfirm, hinv]
    cases hconfirming : inv.confirming with
    | helping txid => exact h.helped i hasked hconfirming _
    | fetching txid waits c => exact h.polled i hasked hconfirming _
    | receiving txid waits c tx => exact h.receipted i hasked hconfirming _
    | ended => exact h

/-- **An invocation is begun**: it asks for what was typed, or for nothing. -/
theorem callOrSend_asked (hkeccak : ∀ s, (keccak256 s).all isHex) {rpc : ℕ} {abi : List AbiItem}
    {address : String} {fn : ContractFn} (hname : fn.isFallback ∨ Identifier fn.name) :
    wp (callOrSend (libraryContract keccak256 shown readLog rpc abi address) fn)
      (fun _ x' => ∃ inv : Invocation, x'.invocations = x.invocations ++ [inv] ∧
        inv.Asked keccak256 shown readLog)
      (fun _ x' => x'.invocations = x.invocations) x := by
  have hasks {transaction : Transaction}
      (hsubmits : Submits keccak256 abi address fn (.sendtocontract transaction)) :
      (Invocation.mk (libraryContract keccak256 shown readLog rpc abi address) fn
        (.sending transaction) [.sendtocontract transaction] false .ended).Asked keccak256 shown
          readLog :=
    ⟨rpc, abi, address, rfl, nofun, .inr ⟨_, [], rfl, hsubmits, .sending⟩⟩
  have hnone : (Invocation.mk (libraryContract keccak256 shown readLog rpc abi address) fn .done []
      false .ended).Asked keccak256 shown readLog :=
    ⟨rpc, abi, address, rfl, nofun, .inl ⟨rfl, rfl, rfl⟩⟩
  simp only [callOrSend, wp_bind, wp_modify, wp_get, log]
  cases x.selectedUtxo with
  | none => exact rfl
  | some senderAddress =>
    dsimp only
    rw [wp_ite]
    refine ⟨fun hfallback => ?_, fun hfallback => ?_⟩
    · exact ⟨_, rfl, hasks (.fallback hfallback rfl rfl)⟩
    · have hidentifier := hname.resolve_left hfallback
      rw [wp_ite]
      refine ⟨fun hconstant => ?_, fun hconstant => ?_⟩
      · cases hencode : (libraryContract keccak256 shown readLog rpc abi address).encodeParams
          fn.name (splitArgs fn.args) with
        | error err => exact ⟨_, rfl, hnone⟩
        | ok params =>
          obtain ⟨hmeans, hcalls⟩ := means_of_encodeParams hkeccak hidentifier hconstant hencode
          refine ⟨_, rfl, rpc, abi, address, rfl, ?_,
            .inr ⟨_, [], rfl, .call hfallback hconstant hmeans, .calling⟩⟩
          rintro methodABI datahex sender hstage
          cases hstage
          exact hcalls
      · cases hencode : (libraryContract keccak256 shown readLog rpc abi address).encodeSend fn.name
          (splitArgs fn.args) with
        | error err => exact ⟨_, rfl, hnone⟩
        | ok calldata =>
          have hmeans := means_of_encodeSend hkeccak hidentifier hencode
          exact ⟨_, rfl, hasks (.send hfallback (by simpa using hconstant) rfl hmeans)⟩

/-- The runs of the run tab with the library's contracts. -/
def libraryDesk (node : Node χ) (keccak256 : String → Units) (shown : AbiError → String)
    (readLog : String → RawLog) : Machine (InvocationDesk χ) (InvocationEvent χ) :=
  (invocationDesk node).under fun _ e => OfLibrary keccak256 shown readLog e

/-- Every run. -/
theorem asked_of_reachable (hkeccak : ∀ s, (keccak256 s).all isHex)
    (h : (libraryDesk node keccak256 shown readLog).Reachable x) :
    x.Asked keccak256 shown readLog := by
  refine h.invariant (fun x hstart inv hinv => ?_) fun x e hx he => ?_
  · rw [show x.invocations = [] from hstart] at hinv
    cases hinv
  · cases e with
    | selectUtxo address => exact hx
    | setTxValue value => exact hx
    | setGasLimit value => exact hx
    | outside chain => exact hx
    | answer i lost => exact hx.answer i lost
    | answerConfirm i lost => exact hx.answerConfirm i lost
    | callOrSend contract fn =>
      obtain ⟨⟨rpc, abi, address, rfl⟩, hname⟩ := he.2 contract fn rfl
      refine (callOrSend_asked hkeccak hname).after ?_ ?_
      · rintro - x' ⟨inv, hnew, hinv⟩ inv' hmem
        rw [hnew, List.mem_append, List.mem_singleton] at hmem
        rcases hmem with hmem | rfl
        · exact hx inv' hmem
        · exact hinv
      · intro _ x' hsame inv' hmem
        rw [hsame] at hmem
        exact hx inv' hmem

/-- **What goes to the node**, in every run of the run tab with the library's contracts: each click
asks for one thing at most, of the contract it was on, and that means what was typed for the
function; then at most for a block, or for the transaction and what confirms it. -/
theorem requests_typed (hkeccak : ∀ s, (keccak256 s).all isHex)
    (h : (libraryDesk node keccak256 shown readLog).Reachable x) :
    ∀ inv ∈ x.invocations, ∃ rpc abi address,
      inv.contract = libraryContract keccak256 shown readLog rpc abi address ∧
        (inv.requests = [] ∨ ∃ first rest, inv.requests = first :: rest ∧
          Submits keccak256 abi address inv.fn first ∧ FollowUps rest) := by
  intro inv hinv
  obtain ⟨rpc, abi, address, hcontract, -, hrequests⟩ := asked_of_reachable hkeccak h inv hinv
  refine ⟨rpc, abi, address, hcontract, hrequests.imp (fun hnone => hnone.2.2) ?_⟩
  rintro ⟨first, rest, hrequests, hsubmits, hfollowed⟩
  exact ⟨first, rest, hrequests, hsubmits, hfollowed.followUps⟩

/-- A contract with `set(bool)`. -/
def flagContract : ContractObject :=
  libraryContract (fun _ => setFlagHash) (fun _ => "Error") (fun _ => ⟨[], []⟩) 0 [setFlag]
    "contract"

/-- The run tab, of a node that accepts whatever is sent. -/
def flagDesk : Machine (InvocationDesk ℕ) (InvocationEvent ℕ) :=
  libraryDesk counting (fun _ => setFlagHash) (fun _ => "Error") (fun _ => ⟨[], []⟩)

/-- A click on `set`, where `true` is typed, and every answer to it. -/
def clickOnce : List (InvocationEvent ℕ) :=
  [.callOrSend flagContract ⟨"set", false, "true"⟩, .answer 0 none, .answer 0 none,
    .answer 0 none, .answerConfirm 0 none, .answerConfirm 0 none, .answerConfirm 0 none]

/-- The transaction is sent and fetched; the node is asked what it can do, and for a block; then for
the transaction again, and for its receipt. -/
theorem requests_typed_once :
    ∃ inv ∈ (flagDesk.run uncalled clickOnce).invocations, inv.requests.length = 6 ∧
      ∃ rpc abi address, inv.contract = libraryContract (fun _ => setFlagHash) (fun _ => "Error")
        (fun _ => ⟨[], []⟩) rpc abi address ∧
        (inv.requests = [] ∨ ∃ first rest, inv.requests = first :: rest ∧
          Submits (fun _ => setFlagHash) abi address inv.fn first ∧ FollowUps rest) := by
  have hreach : flagDesk.Reachable (flagDesk.run uncalled clickOnce) := by
    refine .run (.start rfl) ⟨⟨trivial, ?_⟩, ⟨trivial, nofun⟩, ⟨trivial, nofun⟩,
      ⟨trivial, nofun⟩, ⟨trivial, nofun⟩, ⟨trivial, nofun⟩, ⟨trivial, nofun⟩, trivial⟩
    rintro contract fn heq
    cases heq
    exact ⟨⟨_, _, _, rfl⟩, .inr ⟨by decide, by decide⟩⟩
  obtain ⟨inv, hinv, hlength⟩ : ∃ inv ∈ (flagDesk.run uncalled clickOnce).invocations,
      inv.requests.length = 6 := by
    decide +kernel
  exact ⟨inv, hinv, hlength, requests_typed (fun _ => by decide +kernel) hreach inv hinv⟩

open TipJar

/-- **What is logged of a receipt**, in every run: its events, if all can be read. Otherwise nobody
hears of any of them. -/
theorem receipt_logged (hkeccak : ∀ s, (keccak256 s).all isHex)
    (h : (libraryDesk node keccak256 shown readLog).Reachable x) {i : ℕ} {inv : Invocation}
    (hinv : x.invocations[i]? = some inv) {txid : String} {waits : Bool}
    {c : Confirming Receipt} {tx : TxInfo}
    (hconfirming : inv.confirming = .receiving txid waits c tx) :
    (∃ rpc abi address, inv.contract = libraryContract keccak256 shown readLog rpc abi address) ∧
    ∀ rpc abi address, inv.contract = libraryContract keccak256 shown readLog rpc abi address →
      ∀ logs receipts, (∀ l ∈ logs, Logged keccak256 abi l.1 l.2.1 (readLog l.2.2)) →
        node.gettransactionreceipt x.chain tx.txid = .ok (⟨logs.map fun l => l.2.2⟩ :: receipts) →
          if ∀ l ∈ logs, ReadableInputs l.1.inputs then
            ∃ objects, List.Forall₂ (fun (l : AbiItem × Given × String) object =>
                DecodedAs l.1 l.2.1 object) logs objects ∧
              (x.answerConfirm node i none).logs =
                x.logs ++ logEvents (objects.map fun o => eventLog (some o))
          else (x.answerConfirm node i none).logs = x.logs := by
  have hasked := asked_of_reachable hkeccak h inv (List.mem_of_getElem? hinv)
  have hpos : 0 < tx.confirmations := by
    obtain ⟨txid', behind, hconfirm⟩ := hasked.confirmAt (by rw [hconfirming]; nofun)
    rw [hconfirming] at hconfirm
    cases hconfirm with
    | receiving _ _ hpos => exact hpos
  obtain ⟨rpc, abi, address, hlibrary, -⟩ := hasked
  refine ⟨⟨rpc, abi, address, hlibrary⟩, fun rpc abi address hcontract => ?_⟩
  intro logs receipts hlogs hanswer
  have houtcome : (c.onReceipt 1 waits tx.confirmations
      (some ⟨logs.map fun l => l.2.2⟩)).outcome = some (.ok ⟨logs.map fun l => l.2.2⟩) := by
    rw [Confirming.onReceipt]
    simp only [if_pos (show (1 : ℤ) ≤ tx.confirmations from hpos)]
  have hstep : (x.answerConfirm node i none).logs =
      x.logs ++ logReceipt inv.contract (some (.ok ⟨logs.map fun l => l.2.2⟩)) := by
    simp only [InvocationDesk.answerConfirm, hinv, hconfirming, hanswer, received, receipted,
      List.head?_cons, houtcome]
    rfl
  have hall := @decodeLogs_library keccak256 shown readLog rpc abi address logs hlogs
  rw [hstep, hcontract]
  simp only [logReceipt]
  split_ifs at hall ⊢
  · obtain ⟨objects, hobjects, hall⟩ := hall
    exact ⟨objects, hobjects, by rw [hall]⟩
  · obtain ⟨err, herr⟩ := hall
    rw [herr]
    exact List.append_nil _

end InvocationDesk

end

end Hmix
