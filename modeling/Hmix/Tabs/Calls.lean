import Hmix.Common.Entries
import Hmix.Model.Calls

/-!
# What a call does on the chain

The library's `call` only asks the node. But `callOrSend` generates a block
after every invocation that succeeds, a call too; and after a transaction only
once the library has fetched it. So an invocation keeps to what it should do
exactly while no call succeeds and no accepted transaction fails to be fetched.
That the receipt of a transaction is waited for makes no difference: it only asks.
-/

namespace Hmix

/-! ## What an invocation should do -/

/-- The request sends nothing, and mines nothing. -/
def Rpc.Reads : Rpc → Prop
  | .callcontract .. | .gettransaction .. | .gettransactionreceipt _ | .help _ => True
  | .sendtocontract _ | .generate _ => False

/-- The blocks the request generates. -/
def Rpc.blocks : Rpc → ℕ
  | .generate numBlocks => numBlocks
  | _ => 0

theorem Rpc.Reads.blocks {r : Rpc} (h : r.Reads) : r.blocks = 0 := by
  cases r with
  | generate numBlocks => exact absurd h not_false
  | _ => rfl

/-- A function that is marked constant. -/
def ContractFn.calls (fn : ContractFn) : Bool := fn.constant && !fn.isFallback

/-- There is no answer left to wait for but that blocks were generated. -/
def Progress.Finished : Progress → Prop
  | .generating | .done => True
  | _ => False

namespace Invocation

/-- The blocks it has had generated. -/
def blocks (inv : Invocation) : ℕ := inv.requests.foldl (fun blocks rpc => blocks + rpc.blocks) 0

/-- **What an invocation should do.** Of a constant function, it only reads; of
another, it generates one block for the transaction if that was accepted. -/
structure Lawful (inv : Invocation) : Prop where
  reads : inv.fn.calls → ∀ r ∈ inv.requests, r.Reads
  blocks : ¬ inv.fn.calls → inv.stage.Finished → inv.blocks = if inv.accepted then 1 else 0

/-- **How far it is**, and what it has done so far. -/
def Sound (inv : Invocation) : Prop :=
  match inv.stage with
  | .calling .. => inv.fn.calls ∧ ∀ r ∈ inv.requests, r.Reads
  | .sending _ => ¬ inv.fn.calls ∧ inv.blocks = 0 ∧ inv.accepted = false
  | .fetching _ => ¬ inv.fn.calls ∧ inv.blocks = 0 ∧ inv.accepted
  | .generating => .generate 1 ∈ inv.requests
  | .done => True

variable {inv : Invocation}

@[simp] theorem blocks_generateBlocks : inv.generateBlocks.blocks = inv.blocks + 1 := by
  simp [blocks, generateBlocks, request, Rpc.blocks]

@[simp] theorem blocks_request (stage : Progress) (rpc : Rpc) :
    (inv.request stage rpc).blocks = inv.blocks + rpc.blocks := by
  simp [blocks, request]

@[simp] theorem blocks_finish : inv.finish.blocks = inv.blocks := rfl

theorem sound_generateBlocks : inv.generateBlocks.Sound :=
  List.mem_append_right _ (List.mem_singleton_self _)

/-- A constant function's invocation should not generate a block. -/
theorem not_lawful_generateBlocks (h : inv.fn.calls) : ¬ inv.generateBlocks.Lawful := fun hlawful =>
  hlawful.reads h (.generate 1) (List.mem_append_right _ (List.mem_singleton_self _))

/-- It does what it should while a transaction of it is under way. -/
theorem lawful_of_unfinished (hcalls : ¬ inv.fn.calls) (h : ¬ inv.stage.Finished) : inv.Lawful :=
  ⟨fun hcalls' => absurd hcalls' hcalls, fun _ hfinished => absurd hfinished h⟩

/-- And for a transaction it has to have generated a block. -/
theorem lawful_iff_of_finished (inv : Invocation) (hcalls : ¬ inv.fn.calls)
    (h : inv.stage.Finished) : inv.Lawful ↔ inv.blocks = if inv.accepted then 1 else 0 :=
  ⟨fun hlawful => hlawful.blocks hcalls h,
    fun hblocks => ⟨fun hcalls' => absurd hcalls' hcalls, fun _ _ => hblocks⟩⟩

/-- **What `tx.confirm(1)` does to its invocation**: it makes requests that only read. -/
structure Asks (inv inv' : Invocation) : Prop where
  contract : inv'.contract = inv.contract
  fn : inv'.fn = inv.fn
  stage : inv'.stage = inv.stage
  accepted : inv'.accepted = inv.accepted
  requests : ∃ asked, inv'.requests = inv.requests ++ asked ∧ ∀ r ∈ asked, r.Reads

theorem Asks.refl (inv : Invocation) : Asks inv inv :=
  ⟨rfl, rfl, rfl, rfl, [], (List.append_nil _).symm, by simp⟩

theorem asks_finishConfirm : Asks inv inv.finishConfirm :=
  ⟨rfl, rfl, rfl, rfl, [], (List.append_nil _).symm, by simp⟩

theorem asks_requestConfirm (confirming : ConfirmProgress) {rpc : Rpc} (h : rpc.Reads) :
    Asks inv (inv.requestConfirm confirming rpc) :=
  ⟨rfl, rfl, rfl, rfl, [rpc], rfl, List.forall_mem_singleton.2 h⟩

theorem asks_poll (txid : String) (hasTxWaitSupport : Bool) (c : Confirming Receipt) :
    Asks inv (inv.poll txid hasTxWaitSupport c) := by
  unfold poll
  cases c.outcome with
  | none => exact asks_requestConfirm _ trivial
  | some outcome => exact asks_finishConfirm

variable {inv' : Invocation}

theorem Asks.blocks (h : Asks inv inv') : inv'.blocks = inv.blocks := by
  obtain ⟨asked, hrequests, hreads⟩ := h.requests
  rw [Invocation.blocks, hrequests, List.foldl_append, ← Invocation.blocks]
  clear hrequests
  generalize inv.blocks = blocks
  induction asked with
  | nil => rfl
  | cons r asked ih =>
    rw [List.forall_mem_cons] at hreads
    rw [List.foldl_cons, hreads.1.blocks]
    exact ih hreads.2

theorem Asks.reads (h : Asks inv inv') :
    (∀ r ∈ inv'.requests, r.Reads) ↔ ∀ r ∈ inv.requests, r.Reads := by
  obtain ⟨asked, hrequests, hreads⟩ := h.requests
  rw [hrequests, List.forall_mem_append]
  exact and_iff_left hreads

theorem Asks.lawful (h : Asks inv inv') : inv'.Lawful ↔ inv.Lawful := by
  have hblocks := h.blocks
  constructor
  · rintro ⟨hreads, hb⟩
    rw [h.fn] at hreads hb
    rw [h.stage, h.accepted, hblocks] at hb
    exact ⟨fun hcalls => h.reads.1 (hreads hcalls), hb⟩
  · rintro ⟨hreads, hb⟩
    refine ⟨fun hcalls => h.reads.2 (hreads (h.fn ▸ hcalls)), ?_⟩
    rw [h.fn, h.stage, h.accepted, hblocks]
    exact hb

theorem Asks.sound (h : Asks inv inv') (hsound : inv.Sound) : inv'.Sound := by
  unfold Sound at hsound ⊢
  rw [h.stage, h.fn, h.accepted, h.blocks]
  cases hstage : inv.stage with
  | calling methodABI datahex senderAddress =>
    rw [hstage] at hsound
    exact ⟨hsound.1, h.reads.2 hsound.2⟩
  | generating =>
    rw [hstage] at hsound
    obtain ⟨asked, hrequests, -⟩ := h.requests
    rw [hrequests]
    exact List.mem_append_left _ hsound
  | sending | fetching | done =>
    rw [hstage] at hsound
    exact hsound

/-- The block is generated before or after the first of those requests. -/
theorem asks_confirmAndGenerate (hasTxWaitSupport : Option Bool) (txid : String) :
    ∃ mid, Asks inv mid ∧
      Asks mid.generateBlocks (inv.confirmAndGenerate hasTxWaitSupport txid) := by
  unfold confirmAndGenerate
  cases hasTxWaitSupport with
  | none =>
    have hasks := @asks_requestConfirm inv (.helping txid) (.help "gettransaction") trivial
    exact ⟨_, hasks, .refl _⟩
  | some waits => exact ⟨inv, .refl _, asks_poll _ _ _⟩

/-- An invocation that is begun, before it makes a request. -/
def fresh (contract : ContractObject) (fn : ContractFn) : Invocation :=
  ⟨contract, fn, .done, [], false, .ended⟩

variable {contract : ContractObject} {fn : ContractFn}

/-- If it makes none, it has done what it should. -/
theorem lawful_fresh : (fresh contract fn).Lawful :=
  ⟨fun _ _ h => absurd h List.not_mem_nil, fun _ _ => rfl⟩

theorem fresh_calling (hcalls : fn.calls) (methodABI : MethodABI) (datahex sender : String) :
    let inv := (fresh contract fn).request (.calling methodABI datahex sender)
      (.callcontract contract.address datahex sender)
    inv.Sound ∧ inv.Lawful :=
  have hreads : ∀ r ∈ [Rpc.callcontract contract.address datahex sender], r.Reads :=
    List.forall_mem_singleton.2 trivial
  ⟨⟨hcalls, hreads⟩, fun _ => hreads, fun hnot => absurd hcalls hnot⟩

theorem fresh_sending (hcalls : ¬ fn.calls) (transaction : Transaction) :
    let inv := (fresh contract fn).request (.sending transaction) (.sendtocontract transaction)
    inv.Sound ∧ inv.Lawful :=
  ⟨⟨hcalls, rfl, rfl⟩, lawful_of_unfinished hcalls not_false⟩

end Invocation

/-! ## One answer -/

namespace InvocationDesk

variable {χ : Type} {node : Node χ} {x : InvocationDesk χ} {i : ℕ} {lost : Option String}
  {inv : Invocation}

/-- **The answer is one after which an invocation does what it should**: a call
fails, and a transaction that was accepted is fetched. -/
def Fine (node : Node χ) (x : InvocationDesk χ) (inv : Invocation) (lost : Option String) : Prop :=
  match inv.stage with
  | .calling methodABI datahex senderAddress =>
    ∃ err, received lost (node.callcontract x.chain inv.contract.address datahex senderAddress) >>=
      inv.contract.decodeCall methodABI = .error err
  | .fetching txid => ∃ tx, received lost (node.gettransaction x.chain txid none) = .ok tx
  | _ => True

/-- **The invocation comes further**, by an answer of which it is known whether
it is fine: it does what it should exactly then, and the chain stays where it
should only read. -/
structure Answered (x x' : InvocationDesk χ) (i : ℕ) (inv inv' : Invocation) (fine : Prop) :
    Prop where
  invocations : x'.invocations = x.invocations.set i inv'
  fn : inv'.fn = inv.fn
  sound : inv'.Sound
  lawful : inv'.Lawful ↔ inv.Lawful ∧ fine
  chain : inv.fn.calls → inv.Lawful → x'.chain = x.chain

/-- A call comes back: it should have failed. -/
theorem answered_called (hcalls : inv.fn.calls) (hreads : ∀ r ∈ inv.requests, r.Reads)
    (methodABI : MethodABI) (result : Except String CallResult) :
    ∃ inv', Answered x (x.called i inv methodABI result) i inv inv'
      (∃ err, result >>= inv.contract.decodeCall methodABI = .error err) := by
  have hlawful : inv.Lawful := ⟨fun _ => hreads, fun hnot => absurd hcalls hnot⟩
  simp only [called]
  cases result >>= inv.contract.decodeCall methodABI with
  | error err =>
    have hlawful' : inv.finish.Lawful := ⟨fun _ => hreads, fun hnot => absurd hcalls hnot⟩
    exact ⟨inv.finish, rfl, rfl, trivial, iff_of_true hlawful' ⟨hlawful, err, rfl⟩, fun _ _ => rfl⟩
  | ok result =>
    refine ⟨inv.generateBlocks, rfl, rfl, Invocation.sound_generateBlocks,
      iff_of_false (Invocation.not_lawful_generateBlocks hcalls) ?_, fun _ _ => rfl⟩
    rintro ⟨-, err, h⟩
    cases h

/-- A transaction is accepted, or not. -/
theorem answered_sent (hcalls : ¬ inv.fn.calls) (hlawful : inv.Lawful) (hblocks : inv.blocks = 0)
    (haccepted : inv.accepted = false) (result : Except String (String × χ)) :
    ∃ inv', Answered x (x.sent i inv result) i inv inv' True := by
  simp only [sent]
  cases result with
  | error err =>
    refine ⟨inv.finish, rfl, rfl, trivial, iff_of_true ?_ ⟨hlawful, trivial⟩,
      fun hcalls' => absurd hcalls' hcalls⟩
    refine (Invocation.lawful_iff_of_finished inv.finish hcalls trivial).2 ?_
    rw [Invocation.blocks_finish, hblocks]
    simp [Invocation.finish, haccepted]
  | ok reply =>
    obtain ⟨txid, chain⟩ := reply
    dsimp only
    split_ifs with hfallback
    · refine ⟨_, rfl, rfl, Invocation.sound_generateBlocks, iff_of_true ?_ ⟨hlawful, trivial⟩,
        fun hcalls' => absurd hcalls' hcalls⟩
      refine (Invocation.lawful_iff_of_finished
        (Invocation.generateBlocks { inv with accepted := true }) hcalls trivial).2 ?_
      rw [Invocation.blocks_generateBlocks]
      exact congrArg (· + 1) hblocks
    · refine ⟨_, rfl, rfl, ⟨hcalls, ?_, rfl⟩,
        iff_of_true (Invocation.lawful_of_unfinished hcalls not_false) ⟨hlawful, trivial⟩,
        fun hcalls' => absurd hcalls' hcalls⟩
      exact (Invocation.blocks_request _ _).trans hblocks

/-- The transaction comes back: it should. -/
theorem answered_fetched (hcalls : ¬ inv.fn.calls) (hlawful : inv.Lawful)
    (hblocks : inv.blocks = 0) (haccepted : inv.accepted) (txid : String)
    (result : Except String TxInfo) :
    ∃ inv', Answered x (x.fetched i inv txid result) i inv inv' (∃ tx, result = .ok tx) := by
  simp only [fetched]
  cases result with
  | error err =>
    refine ⟨inv.finish, rfl, rfl, trivial, iff_of_false ?_ (fun h => by cases h.2.choose_spec),
      fun _ _ => rfl⟩
    rw [Invocation.lawful_iff_of_finished inv.finish hcalls trivial, Invocation.blocks_finish,
      hblocks]
    simp [Invocation.finish, haccepted]
  | ok tx =>
    obtain ⟨mid, hmid, hasks⟩ :=
      @Invocation.asks_confirmAndGenerate inv (x.hasTxWaitSupport inv.contract.rpc) txid
    refine ⟨_, rfl, hasks.fn.trans hmid.fn, hasks.sound Invocation.sound_generateBlocks,
      iff_of_true ?_ ⟨hlawful, tx, rfl⟩, fun _ _ => rfl⟩
    have hcalls' : ¬ mid.generateBlocks.fn.calls := by
      show ¬ mid.fn.calls
      rwa [hmid.fn]
    have haccepted' : mid.generateBlocks.accepted := hmid.accepted.trans haccepted
    rw [hasks.lawful, Invocation.lawful_iff_of_finished mid.generateBlocks hcalls' trivial,
      Invocation.blocks_generateBlocks, hmid.blocks, hblocks, if_pos haccepted']

/-- **One answer**: the invocation it is for comes further, and does what it
should exactly if the answer is fine. -/
theorem answered_answer (node : Node χ) (lost : Option String) (hinv : x.invocations[i]? = some inv)
    (hsound : inv.Sound) :
    ∃ inv', Answered x (x.answer node i lost) i inv inv' (Fine node x inv lost) := by
  unfold Invocation.Sound at hsound
  simp only [answer, hinv, Fine]
  cases hstage : inv.stage with
  | calling methodABI datahex senderAddress =>
    rw [hstage] at hsound
    exact answered_called hsound.1 hsound.2 methodABI _
  | sending transaction =>
    rw [hstage] at hsound
    obtain ⟨hcalls, hblocks, haccepted⟩ := hsound
    exact answered_sent hcalls (Invocation.lawful_of_unfinished hcalls (hstage ▸ not_false)) hblocks
      haccepted _
  | fetching txid =>
    rw [hstage] at hsound
    obtain ⟨hcalls, hblocks, haccepted⟩ := hsound
    exact answered_fetched hcalls (Invocation.lawful_of_unfinished hcalls (hstage ▸ not_false))
      hblocks haccepted txid _
  | generating =>
    rw [hstage] at hsound
    have hfinished : inv.stage.Finished := hstage ▸ trivial
    refine ⟨inv.finish, rfl, rfl, trivial, ?_, fun hcalls hlawful => ?_⟩
    · exact ⟨fun h => ⟨⟨h.reads, fun hcalls _ => h.blocks hcalls trivial⟩, trivial⟩,
        fun h => ⟨h.1.reads, fun hcalls _ => h.1.blocks hcalls hfinished⟩⟩
    · exact absurd (hlawful.reads hcalls _ hsound) not_false
  | done =>
    refine ⟨inv, ?_, rfl, ?_, (and_iff_left trivial).symm, fun _ _ => rfl⟩
    · obtain ⟨hi, hget⟩ := List.getElem?_eq_some_iff.1 hinv
      exact hget ▸ (List.set_getElem_self hi).symm
    · rw [Invocation.Sound, hstage]
      trivial

/-- **An answer to `tx.confirm(1)`** is always fine. -/
theorem answered_answerConfirm (node : Node χ) (lost : Option String)
    (hinv : x.invocations[i]? = some inv) (hsound : inv.Sound) :
    ∃ inv', Answered x (x.answerConfirm node i lost) i inv inv' True := by
  suffices hasks : ∃ inv', (x.answerConfirm node i lost).invocations = x.invocations.set i inv' ∧
      Invocation.Asks inv inv' ∧ (x.answerConfirm node i lost).chain = x.chain by
    obtain ⟨inv', hset, hasks, hchain⟩ := hasks
    exact ⟨inv', hset, hasks.fn, hasks.sound hsound, hasks.lawful.trans (and_iff_left trivial).symm,
      fun _ _ => hchain⟩
  simp only [answerConfirm, hinv]
  cases hconfirming : inv.confirming with
  | helping txid =>
    dsimp only
    cases received lost (node.help x.chain "gettransaction") with
    | error err => exact ⟨_, rfl, Invocation.asks_finishConfirm, rfl⟩
    | ok helpmsg => exact ⟨_, rfl, Invocation.asks_poll _ _ _, rfl⟩
  | fetching txid waits c =>
    dsimp only
    cases received lost (node.gettransaction x.chain txid c.waited.getLast?.join) with
    | error err => exact ⟨_, rfl, Invocation.asks_finishConfirm, rfl⟩
    | ok tx =>
      rw [polled]
      split_ifs
      · exact ⟨_, rfl, Invocation.asks_requestConfirm _ trivial, rfl⟩
      · exact ⟨_, rfl, Invocation.asks_poll _ _ _, rfl⟩
  | receiving txid waits c tx =>
    dsimp only
    cases received lost (node.gettransactionreceipt x.chain tx.txid) with
    | error err => exact ⟨_, rfl, Invocation.asks_finishConfirm, rfl⟩
    | ok receipts => exact ⟨_, rfl, Invocation.asks_poll _ _ _, rfl⟩
  | ended =>
    refine ⟨inv, ?_, .refl inv, rfl⟩
    obtain ⟨hi, hget⟩ := List.getElem?_eq_some_iff.1 hinv
    exact hget ▸ (List.set_getElem_self hi).symm

/-! ## One event -/

/-- **An invocation is begun**, unless it throws. -/
theorem callOrSend_spec (contract : ContractObject) (fn : ContractFn) :
    wp (callOrSend contract fn)
      (fun _ x' => x'.chain = x.chain ∧ ∃ inv : Invocation, inv.fn = fn ∧
        x'.invocations = x.invocations ++ [inv] ∧ inv.Sound ∧ inv.Lawful)
      (fun _ x' => x'.chain = x.chain ∧ x'.invocations = x.invocations) x := by
  simp only [callOrSend, wp_bind, wp_modify, wp_get, log]
  cases x.selectedUtxo with
  | none => exact ⟨rfl, rfl⟩
  | some senderAddress =>
    dsimp only
    rw [wp_ite]
    refine ⟨fun hfallback => ?_, fun hfallback => ?_⟩
    · exact ⟨rfl, _, rfl, rfl, Invocation.fresh_sending (by simp [ContractFn.calls, hfallback]) _⟩
    · rw [wp_ite]
      refine ⟨fun hconstant => ?_, fun hconstant => ?_⟩
      · cases contract.encodeParams fn.name (splitArgs fn.args) with
        | error err => exact ⟨rfl, _, rfl, rfl, trivial, Invocation.lawful_fresh⟩
        | ok params =>
          have hcalls : fn.calls := by simp [ContractFn.calls, hfallback, hconstant]
          exact ⟨rfl, _, rfl, rfl, Invocation.fresh_calling hcalls _ _ _⟩
      · cases contract.encodeSend fn.name (splitArgs fn.args) with
        | error err => exact ⟨rfl, _, rfl, rfl, trivial, Invocation.lawful_fresh⟩
        | ok calldata =>
          exact ⟨rfl, _, rfl, rfl,
            Invocation.fresh_sending (by simp [ContractFn.calls, hconstant]) _⟩

/-- A step is careful if what it answers is answered well. -/
def Careful (node : Node χ) (x : InvocationDesk χ) (e : InvocationEvent χ) : Prop :=
  ∀ i lost, e = .answer i lost → ∀ inv ∈ x.invocations[i]?, Fine node x inv lost

/-- Every invocation is as far as it has come. -/
def Sound (x : InvocationDesk χ) : Prop := ∀ inv ∈ x.invocations, inv.Sound

/-- Every invocation does what it should. -/
def Lawful (x : InvocationDesk χ) : Prop := ∀ inv ∈ x.invocations, inv.Lawful

variable {e : InvocationEvent χ}

/-- An invocation that has come further does so among the others. -/
theorem Sound.answered (h : x.Sound) (hinv : x.invocations[i]? = some inv) {x' : InvocationDesk χ}
    {inv' : Invocation} {fine : Prop} (hanswered : Answered x x' i inv inv' fine) :
    x'.Sound ∧ (x'.Lawful ↔ x.Lawful ∧ fine) := by
  rw [InvocationDesk.Sound, Lawful, hanswered.invocations]
  refine ⟨fun inv₁ hmem => ?_, forall_mem_set_iff hinv hanswered.lawful⟩
  rcases List.mem_or_eq_of_mem_set hmem with hmem | rfl
  · exact h inv₁ hmem
  · exact hanswered.sound

/-- **An answer.** -/
theorem Sound.answer (h : x.Sound) : (x.answer node i lost).Sound ∧
    ((x.answer node i lost).Lawful ↔ x.Lawful ∧ Careful node x (.answer i lost)) := by
  cases hinv : x.invocations[i]? with
  | none =>
    have hsame : x.answer node i lost = x := by simp only [InvocationDesk.answer, hinv]
    rw [hsame]
    refine ⟨h, (and_iff_left ?_).symm⟩
    rintro _ _ ⟨⟩ inv hmem
    rw [hinv] at hmem
    cases hmem
  | some inv =>
    obtain ⟨inv', hanswered⟩ :=
      answered_answer node lost hinv (h inv (List.mem_of_getElem? hinv))
    have hcareful : Careful node x (.answer i lost) ↔ Fine node x inv lost := by
      refine ⟨fun hc => hc i lost rfl inv hinv, ?_⟩
      rintro hfine _ _ ⟨⟩ inv₁ hmem
      obtain rfl : inv = inv₁ := Option.some.inj (hinv.symm.trans hmem)
      exact hfine
    rw [hcareful]
    exact h.answered hinv hanswered

/-- One to `tx.confirm(1)`. -/
theorem Sound.answerConfirm (h : x.Sound) : (x.answerConfirm node i lost).Sound ∧
    ((x.answerConfirm node i lost).Lawful ↔ x.Lawful) := by
  cases hinv : x.invocations[i]? with
  | none =>
    have hsame : x.answerConfirm node i lost = x := by
      simp only [InvocationDesk.answerConfirm, hinv]
    rw [hsame]
    exact ⟨h, Iff.rfl⟩
  | some inv =>
    obtain ⟨inv', hanswered⟩ :=
      answered_answerConfirm node lost hinv (h inv (List.mem_of_getElem? hinv))
    exact (h.answered hinv hanswered).imp_right fun hlawful =>
      hlawful.trans (and_iff_left trivial)

/-- **One event**: each invocation is as far as it has come, and does what it
should if it did before and the step is careful. -/
theorem Sound.step (h : x.Sound) : ((invocationDesk node).step x e).Sound ∧
    (((invocationDesk node).step x e).Lawful ↔ x.Lawful ∧ Careful node x e) := by
  cases e with
  | selectUtxo address => exact ⟨h, (and_iff_left nofun).symm⟩
  | setTxValue value => exact ⟨h, (and_iff_left nofun).symm⟩
  | setGasLimit value => exact ⟨h, (and_iff_left nofun).symm⟩
  | outside chain => exact ⟨h, (and_iff_left nofun).symm⟩
  | answer i lost => exact h.answer
  | answerConfirm i lost =>
    exact h.answerConfirm.imp_right fun hlawful => hlawful.trans (and_iff_left nofun).symm
  | callOrSend contract fn =>
    refine (callOrSend_spec contract fn).after (I := fun x' : InvocationDesk χ => x'.Sound ∧
      (x'.Lawful ↔ x.Lawful ∧ Careful node x (.callOrSend contract fn))) ?_ ?_
    · rintro - x' ⟨-, inv, -, hnew, hsound, hlawful⟩
      rw [InvocationDesk.Sound, Lawful, hnew, List.forall_mem_append, List.forall_mem_append]
      refine ⟨⟨h, List.forall_mem_singleton.2 hsound⟩, ?_⟩
      exact (and_congr_right' (iff_of_true (List.forall_mem_singleton.2 hlawful) nofun))
    · rintro - x' ⟨-, hsame⟩
      rw [InvocationDesk.Sound, Lawful, hsame]
      exact ⟨h, (and_iff_left nofun).symm⟩

/-! ## Every run -/

/-- Nothing is invoked but constant functions, and nobody else does anything. -/
def OnlyCalls : InvocationEvent χ → Prop
  | .callOrSend _ fn => fn.calls
  | .outside _ => False
  | _ => True

/-- An answer leaves the chain, and the functions that are invoked, if they are constant. -/
theorem Answered.chain_calls {x' : InvocationDesk χ} {inv' : Invocation} {fine : Prop}
    (h : Answered x x' i inv inv' fine) (hlawful : x.Lawful)
    (hcalls : ∀ inv ∈ x.invocations, inv.fn.calls) (hmem : inv ∈ x.invocations) :
    x'.chain = x.chain ∧ ∀ inv ∈ x'.invocations, inv.fn.calls := by
  refine ⟨h.chain (hcalls inv hmem) (hlawful inv hmem), fun inv₁ hmem₁ => ?_⟩
  rw [h.invocations] at hmem₁
  rcases List.mem_or_eq_of_mem_set hmem₁ with hmem₁ | rfl
  · exact hcalls inv₁ hmem₁
  · exact h.fn ▸ hcalls inv hmem

/-- **Constant functions leave the chain**, while they do what they should. -/
theorem Sound.chain_step (h : x.Sound) (hlawful : x.Lawful)
    (hcalls : ∀ inv ∈ x.invocations, inv.fn.calls) (he : OnlyCalls e) :
    ((invocationDesk node).step x e).chain = x.chain ∧
      ∀ inv ∈ ((invocationDesk node).step x e).invocations, inv.fn.calls := by
  cases e with
  | selectUtxo address => exact ⟨rfl, hcalls⟩
  | setTxValue value => exact ⟨rfl, hcalls⟩
  | setGasLimit value => exact ⟨rfl, hcalls⟩
  | outside chain => exact he.elim
  | answer i lost =>
    change (x.answer node i lost).chain = _ ∧ ∀ inv ∈ (x.answer node i lost).invocations, _
    cases hinv : x.invocations[i]? with
    | none =>
      have hsame : x.answer node i lost = x := by simp only [InvocationDesk.answer, hinv]
      rw [hsame]
      exact ⟨rfl, hcalls⟩
    | some inv =>
      have hmem := List.mem_of_getElem? hinv
      obtain ⟨inv', hanswered⟩ := answered_answer node lost hinv (h inv hmem)
      exact hanswered.chain_calls hlawful hcalls hmem
  | answerConfirm i lost =>
    change (x.answerConfirm node i lost).chain = _ ∧
      ∀ inv ∈ (x.answerConfirm node i lost).invocations, _
    cases hinv : x.invocations[i]? with
    | none =>
      have hsame : x.answerConfirm node i lost = x := by
        simp only [InvocationDesk.answerConfirm, hinv]
      rw [hsame]
      exact ⟨rfl, hcalls⟩
    | some inv =>
      have hmem := List.mem_of_getElem? hinv
      obtain ⟨inv', hanswered⟩ := answered_answerConfirm node lost hinv (h inv hmem)
      exact hanswered.chain_calls hlawful hcalls hmem
  | callOrSend contract fn =>
    refine (callOrSend_spec contract fn).after (I := fun x' : InvocationDesk χ =>
      x'.chain = x.chain ∧ ∀ inv ∈ x'.invocations, inv.fn.calls) ?_ ?_
    · rintro - x' ⟨hchain, inv, hfn, hnew, -⟩
      rw [hnew, List.forall_mem_append]
      exact ⟨hchain, hcalls, List.forall_mem_singleton.2 (hfn ▸ he)⟩
    · rintro - x' ⟨hchain, hsame⟩
      exact ⟨hchain, hsame ▸ hcalls⟩

theorem Sound.chain_run {es : List (InvocationEvent χ)} (h : x.Sound) (hlawful : x.Lawful)
    (hcalls : ∀ inv ∈ x.invocations, inv.fn.calls)
    (hcareful : (invocationDesk node).Each (Careful node) x es) (hes : ∀ e ∈ es, OnlyCalls e) :
    ((invocationDesk node).run x es).chain = x.chain := by
  induction es generalizing x with
  | nil => rfl
  | cons e es ih =>
    obtain ⟨he, hes⟩ := List.forall_mem_cons.1 hes
    obtain ⟨hchain, hcalls'⟩ := h.chain_step hlawful hcalls he
    exact (ih h.step.1 (h.step.2.2 ⟨hlawful, hcareful.1⟩) hcalls' hcareful.2 hes).trans hchain

/-- **When invocations do what they should.** In every run each does exactly
when no call succeeded and no accepted transaction failed to be fetched; and
then a run of constant functions alone leaves the chain as it was. -/
theorem invocations_lawful_iff (node : Node χ) (x₀ : InvocationDesk χ) (h : x₀.invocations = [])
    (es : List (InvocationEvent χ)) :
    let x := (invocationDesk node).run x₀ es
    ((∀ inv ∈ x.invocations, inv.Lawful) ↔ (invocationDesk node).Each (Careful node) x₀ es) ∧
    ((invocationDesk node).Each (Careful node) x₀ es → (∀ e ∈ es, OnlyCalls e) →
      x.chain = x₀.chain) := by
  intro x
  have hnone : ∀ P : Invocation → Prop, ∀ inv ∈ x₀.invocations, P inv := fun P inv hmem =>
    absurd (h ▸ hmem) List.not_mem_nil
  have hadmits := Machine.admits_of_enabled (M := invocationDesk node) (fun _ _ => trivial) x₀ es
  have hrun := hadmits.run_iff (Q := Lawful) (hnone Invocation.Sound)
    (fun _ _ hs _ => Sound.step hs |>.1) fun _ _ hs _ => (Sound.step hs).2
  exact ⟨hrun.trans (and_iff_right (hnone _)),
    fun hcareful hes => Sound.chain_run (hnone _) (hnone _) (hnone _) hcareful hes⟩

/-- A node whose chain is its height. It accepts whatever is sent, and has mined it by the first
block. -/
def counting : Node ℕ where
  callcontract _ _ _ _ := .ok ⟨"None", "", []⟩
  sendtocontract height _ := .ok ("txid", height)
  gettransaction height txid _ := .ok ⟨txid, height⟩
  gettransactionreceipt height _ := .ok (if height = 0 then [] else [⟨[]⟩])
  help _ _ := .ok "gettransaction \"txid\" ( include_watchonly waitconf )\n"
  generate height numBlocks := height + numBlocks

/-- A contract that gets, which is constant, and sets. -/
def getAndSet : ContractObject where
  rpc := 0
  address := "contract"
  findMethod name _ := some ⟨name, [], name == "get"⟩
  encodeInputs _ _ := .ok ""
  decodeOutputs _ _ := .ok []
  decodeLog _ := .ok []

/-- No call was made yet. -/
def uncalled : InvocationDesk ℕ := ⟨0, some "sender", .num 0, .num 400000, [], [], fun _ => none⟩

/-- It is set, and every request is answered. -/
def setOnce : List (InvocationEvent ℕ) :=
  [.callOrSend getAndSet ⟨"set", false, ""⟩, .answer 0 none, .answer 0 none, .answer 0 none,
    .answerConfirm 0 none, .answerConfirm 0 none, .answerConfirm 0 none]

theorem setOnce_lawful : Lawful ((invocationDesk counting).run uncalled setOnce) := by
  refine (invocations_lawful_iff counting uncalled rfl setOnce).1.2
    ⟨nofun, ?_, ?_, ?_, nofun, nofun, nofun, trivial⟩
  · rintro _ _ ⟨⟩ inv hmem
    obtain rfl := Option.some.inj hmem
    trivial
  · rintro _ _ ⟨⟩ inv hmem
    obtain rfl := Option.some.inj hmem
    exact ⟨⟨"txid", 0⟩, rfl⟩
  · rintro _ _ ⟨⟩ inv hmem
    obtain rfl := Option.some.inj hmem
    trivial

/-- It is got, and every request is answered. -/
def getOnce : List (InvocationEvent ℕ) :=
  [.callOrSend getAndSet ⟨"get", true, ""⟩, .answer 0 none, .answer 0 none]

/-- **A call of a constant function mines a block.** -/
theorem getOnce_mines : ¬ ∀ (node : Node ℕ) (x₀ : InvocationDesk ℕ) (es : List (InvocationEvent ℕ)),
    x₀.invocations = [] → let x := (invocationDesk node).run x₀ es
    (∀ inv ∈ x.invocations, inv.Lawful) ∧ ((∀ e ∈ es, OnlyCalls e) → x.chain = x₀.chain) := by
  intro h
  have hcalls : ∀ e ∈ getOnce, OnlyCalls e := List.forall_mem_cons.2
    ⟨rfl, List.forall_mem_cons.2 ⟨trivial, List.forall_mem_singleton.2 trivial⟩⟩
  exact absurd ((h counting uncalled getOnce rfl).2 hcalls) (by decide)

end InvocationDesk

end Hmix
