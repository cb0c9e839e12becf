import Hmix.Model.Rpc
import Mathlib.Data.List.Range
import Mathlib.Order.Basic

/-!
# What a call to the node asks for

A call posts once, and once more only with an authorization that was asked for and
accepted; and it returns only what a response of status 200 has in it. The calls of a
client are told apart by their numbers, whatever order the answers come in.

`confirm` resolves only with the receipt of a transaction that has been
confirmed often enough. With a node that waits as it is asked to, it asks each time for
one confirmation more than there have been, and so comes to an end.
-/

namespace Hmix

/-! ## Calls -/

namespace RpcInvocation

/-- **How far a call is, and what it has asked for.** -/
inductive Sound : RpcInvocation → Prop
  | posted (call : RpcCall) : Sound ⟨call, .posted, [.post call], []⟩
  | authorizing (call : RpcCall) (res : RpcResponse) (hstatus : res.status = 402) :
      Sound ⟨call, .authorizing res.data.id, [.post call, .onchange res.data.id], [.ok res]⟩
  | authorized (call : RpcCall) (res res' : RpcResponse) (hstatus : res.status = 402)
      (hstatus' : res'.status = 200) (haccepted : res'.data.state = "accepted") :
      Sound ⟨call, .authorized, [.post call, .onchange res.data.id,
        .post { call with auth := some res'.data.id }], [.ok res, .ok res']⟩
  | once (call : RpcCall) (outcome : Except RpcError Json) (answer : Except String RpcResponse)
      (houtcome : ∀ v, outcome = .ok v → ∃ res, answer = .ok res ∧ res.status = 200 ∧
        res.data.result = v) :
      Sound ⟨call, .done outcome, [.post call], [answer]⟩
  | refused (call : RpcCall) (e : RpcError) (res : RpcResponse) (answer : Except String RpcResponse)
      (hstatus : res.status = 402) :
      Sound ⟨call, .done (.error e), [.post call, .onchange res.data.id], [.ok res, answer]⟩
  | twice (call : RpcCall) (outcome : Except RpcError Json) (res res' : RpcResponse)
      (answer : Except String RpcResponse) (hstatus : res.status = 402)
      (hstatus' : res'.status = 200) (haccepted : res'.data.state = "accepted")
      (houtcome : ∀ v, outcome = .ok v → ∃ res, answer = .ok res ∧ res.status = 200 ∧
        res.data.result = v) :
      Sound ⟨call, .done outcome, [.post call, .onchange res.data.id,
        .post { call with auth := some res'.data.id }], [.ok res, .ok res', answer]⟩

/-- Only a response of status 200 has a result. -/
theorem rpcResult_ok {method : String} {res : RpcResponse} {v : Json}
    (h : rpcResult method res = .ok v) : res.status = 200 ∧ res.data.result = v := by
  unfold rpcResult at h
  split_ifs at h with h401 h404 h200 hjson
  · split at h <;> cases h
  · cases h
    exact ⟨not_not.1 h200, rfl⟩

variable {inv : RpcInvocation}

/-- **The step lemma**: what an answer leads to is sound. -/
theorem Sound.answer (h : inv.Sound) (answer : Except String RpcResponse) :
    (inv.answer answer).Sound := by
  have hfailed (err : String) : ∀ v : Json, (Except.error (.failed err) : Except RpcError Json) =
      .ok v → ∃ res, answer = .ok res ∧ res.status = 200 ∧ res.data.result = v := nofun
  cases h with
  | posted call =>
    cases answer with
    | error err => exact .once call _ _ (hfailed err)
    | ok res =>
      show (RpcInvocation.onPosted ⟨call, .posted, [.post call], [.ok res]⟩ res).Sound
      unfold RpcInvocation.onPosted
      split_ifs with hstatus
      · exact .authorizing call res hstatus
      · exact .once call _ _ fun v hv => ⟨res, rfl, rpcResult_ok hv⟩
  | authorizing call res hstatus =>
    cases answer with
    | error err => exact .refused call _ res _ hstatus
    | ok res' =>
      show (RpcInvocation.onChanged ⟨call, .authorizing res.data.id,
        [.post call, .onchange res.data.id], [.ok res, .ok res']⟩ res.data.id res').Sound
      unfold RpcInvocation.onChanged
      split_ifs with hstatus' hdenied haccepted
      · exact .refused call _ res _ hstatus
      · exact .refused call _ res _ hstatus
      · exact .authorized call res res' hstatus (not_not.1 hstatus') haccepted
      · exact .refused call _ res _ hstatus
  | authorized call res res' hstatus hstatus' haccepted =>
    cases answer with
    | error err => exact .twice call _ res res' _ hstatus hstatus' haccepted (hfailed err)
    | ok res'' =>
      exact .twice call _ res res' _ hstatus hstatus' haccepted
        fun v hv => ⟨res'', rfl, rpcResult_ok hv⟩
  | once call outcome first houtcome => exact .once call outcome first houtcome
  | refused call e res first hstatus => exact .refused call e res first hstatus
  | twice call outcome res res' last hstatus hstatus' haccepted houtcome =>
    exact .twice call outcome res res' last hstatus hstatus' haccepted houtcome

@[simp] theorem call_settle (outcome : Except RpcError Json) :
    (inv.settle outcome).call = inv.call := rfl

@[simp] theorem call_onPosted (res : RpcResponse) : (inv.onPosted res).call = inv.call := by
  unfold RpcInvocation.onPosted
  split_ifs <;> rfl

@[simp] theorem call_onChanged (authID : String) (res : RpcResponse) :
    (inv.onChanged authID res).call = inv.call := by
  unfold RpcInvocation.onChanged
  split_ifs <;> rfl

/-- An answer does not change which call it is. -/
@[simp] theorem call_answer (answer : Except String RpcResponse) :
    (inv.answer answer).call = inv.call := by
  unfold RpcInvocation.answer
  cases inv.stage <;> cases answer <;> simp

/-- The requests, in their order. -/
theorem Sound.requests (h : inv.Sound) :
    ∃ a b, inv.requests <+: [.post inv.call, .onchange a, .post { inv.call with auth := some b }] ∧
      inv.requests ≠ [] := by
  cases h with
  | posted call => exact ⟨"", "", by simp⟩
  | once call => exact ⟨"", "", by simp⟩
  | authorizing call res => exact ⟨res.data.id, "", by simp⟩
  | refused call e res => exact ⟨res.data.id, "", by simp⟩
  | authorized call res res' => exact ⟨res.data.id, res'.data.id, by simp⟩
  | twice call outcome res res' => exact ⟨res.data.id, res'.data.id, by simp⟩

/-- A post with an authorization. -/
theorem Sound.authorized_post (h : inv.Sound) (hauth : inv.call.auth = none) {b : String}
    (hpost : .post { inv.call with auth := some b } ∈ inv.requests) :
    ∃ res res', inv.answers.take 2 = [.ok res, .ok res'] ∧ res.status = 402 ∧
      .onchange res.data.id ∈ inv.requests ∧ res'.status = 200 ∧
      res'.data.state = "accepted" ∧ res'.data.id = b := by
  have hfirst : (HttpRequest.post { inv.call with auth := some b }) ≠ .post inv.call := by
    intro heq
    have := congrArg RpcCall.auth (HttpRequest.post.inj heq)
    rw [hauth] at this
    cases this
  cases h with
  | posted call => simp [hfirst] at hpost
  | once call => simp [hfirst] at hpost
  | authorizing call res => simp [hfirst] at hpost
  | refused call e res => simp [hfirst] at hpost
  | authorized call res res' hstatus hstatus' haccepted =>
    simp only [List.mem_cons, hfirst, reduceCtorEq, List.not_mem_nil, or_false, false_or,
      HttpRequest.post.injEq, RpcCall.mk.injEq, Option.some.injEq, true_and] at hpost
    exact ⟨res, res', rfl, hstatus, by simp, hstatus', haccepted, hpost.symm⟩
  | twice call outcome res res' answer hstatus hstatus' haccepted =>
    simp only [List.mem_cons, hfirst, reduceCtorEq, List.not_mem_nil, or_false, false_or,
      HttpRequest.post.injEq, RpcCall.mk.injEq, Option.some.injEq, true_and] at hpost
    exact ⟨res, res', rfl, hstatus, by simp, hstatus', haccepted, hpost.symm⟩

/-- What a call returns was answered. -/
theorem Sound.result (h : inv.Sound) {v : Json} (hdone : inv.stage = .done (.ok v)) :
    ∃ res, inv.answers.getLast? = some (.ok res) ∧ res.status = 200 ∧ res.data.result = v := by
  cases h with
  | posted call => cases hdone
  | authorizing call => cases hdone
  | authorized call => cases hdone
  | refused call => cases hdone
  | once call outcome answer houtcome =>
    cases hdone
    obtain ⟨res, rfl, hstatus, hresult⟩ := houtcome v rfl
    exact ⟨res, rfl, hstatus, hresult⟩
  | twice call outcome res res' answer _ _ _ houtcome =>
    cases hdone
    obtain ⟨res, rfl, hstatus, hresult⟩ := houtcome v rfl
    exact ⟨res, rfl, hstatus, hresult⟩

end RpcInvocation

/-- What holds of a client: its calls are numbered as they were made, and each is sound. -/
structure RpcClient.Sound (client : RpcClient) : Prop where
  ids : client.calls.map (fun inv => inv.call.id) = List.range client.idNonce
  auth : ∀ inv ∈ client.calls, inv.call.auth = none
  calls : ∀ inv ∈ client.calls, inv.Sound

theorem RpcClient.Sound.step {client : RpcClient} (h : client.Sound) (e : RpcEvent) :
    (rpcClient.step client e).Sound := by
  cases e with
  | rawCall method params =>
    refine ⟨?_, ?_, ?_⟩
    · show (client.calls ++ [_]).map _ = List.range (client.idNonce + 1)
      rw [List.map_append, h.ids, List.range_succ]
      rfl
    · intro inv hinv
      rcases List.mem_append.1 hinv with hinv | hinv
      · exact h.auth inv hinv
      · rw [List.mem_singleton.1 hinv]
    · intro inv hinv
      rcases List.mem_append.1 hinv with hinv | hinv
      · exact h.calls inv hinv
      · rw [List.mem_singleton.1 hinv]
        exact .posted _
  | answer i answer =>
    have hmem (inv) (hinv : inv ∈ client.calls.modify i (·.answer answer)) :
        inv ∈ client.calls ∨ ∃ inv' ∈ client.calls, inv = inv'.answer answer := by
      obtain ⟨j, hj⟩ := List.mem_iff_getElem?.1 hinv
      rw [List.getElem?_modify] at hj
      obtain ⟨inv', hinv', rfl⟩ := Option.map_eq_some_iff.1 hj
      have hmem := List.mem_of_getElem? hinv'
      split_ifs
      · exact .inr ⟨inv', hmem, rfl⟩
      · exact .inl hmem
    refine ⟨?_, ?_, ?_⟩
    · refine Eq.trans ?_ h.ids
      refine List.ext_getElem? fun j => ?_
      show ((client.calls.modify i (·.answer answer)).map _)[j]? = _
      rw [List.getElem?_map, List.getElem?_map, List.getElem?_modify]
      cases client.calls[j]? with
      | none => rfl
      | some inv =>
        simp only [Option.map_eq_map, Option.map_some]
        split_ifs <;> simp
    · intro inv hinv
      rcases hmem inv hinv with hinv | ⟨inv', hinv', rfl⟩
      · exact h.auth inv hinv
      · rw [RpcInvocation.call_answer]
        exact h.auth inv' hinv'
    · intro inv hinv
      rcases hmem inv hinv with hinv | ⟨inv', hinv', rfl⟩
      · exact h.calls inv hinv
      · exact (h.calls inv' hinv').answer answer

/-- **Every run of the client.** -/
theorem RpcClient.sound {client : RpcClient} (h : rpcClient.Reachable client) : client.Sound := by
  refine h.invariant (fun client hstart => ?_) fun client e hsound _ => hsound.step e
  rw [show client = ⟨0, []⟩ from hstart]
  exact ⟨rfl, by simp, by simp⟩

/-- **What the client asks for**, in every run: the calls have numbers of their own; each posts
once, and then only asks for an authorization, and then only posts with one that was accepted; and
what it returns is the result of its last response, of status 200. -/
theorem rpcClient_runs {client : RpcClient} (h : rpcClient.Reachable client) :
    (client.calls.map fun inv => inv.call.id).Nodup ∧ ∀ inv ∈ client.calls,
      (∃ a b, inv.requests ≠ [] ∧ inv.requests <+:
        [.post inv.call, .onchange a, .post { inv.call with auth := some b }]) ∧
      (∀ b, .post { inv.call with auth := some b } ∈ inv.requests →
        ∃ res res', inv.answers.take 2 = [.ok res, .ok res'] ∧ res.status = 402 ∧
          .onchange res.data.id ∈ inv.requests ∧ res'.status = 200 ∧
          res'.data.state = "accepted" ∧ res'.data.id = b) ∧
      ∀ v, inv.stage = .done (.ok v) → ∃ res, inv.answers.getLast? = some (.ok res) ∧
        res.status = 200 ∧ res.data.result = v := by
  obtain ⟨hids, hauth, hcalls⟩ := RpcClient.sound h
  refine ⟨hids ▸ List.nodup_range, fun inv hinv => ⟨?_, ?_, ?_⟩⟩
  · obtain ⟨a, b, hprefix, hne⟩ := (hcalls inv hinv).requests
    exact ⟨a, b, hne, hprefix⟩
  · exact fun b hpost => (hcalls inv hinv).authorized_post (hauth inv hinv) hpost
  · exact fun v hdone => (hcalls inv hinv).result hdone

/-- A provider that asks for an authorization, is given it, and answers. -/
def authorizedOnce : List RpcEvent :=
  [.rawCall "getinfo" [],
    .answer 0 (.ok ⟨402, "Payment Required", none, ⟨"auth", "", "", none, .null, ""⟩⟩),
    .answer 0 (.ok ⟨200, "OK", none, ⟨"auth", "accepted", "", none, .null, ""⟩⟩),
    .answer 0 (.ok ⟨200, "OK", none, ⟨"0", "", "", none, .str "info", ""⟩⟩)]

theorem rpcClient_runs_authorized : ∃ inv ∈ (rpcClient.run ⟨0, []⟩ authorizedOnce).calls,
    inv.stage = .done (.ok (.str "info")) ∧ ∃ res, inv.answers.getLast? = some (.ok res) ∧
      res.status = 200 ∧ res.data.result = .str "info" := by
  have hadmits : rpcClient.Admits ⟨0, []⟩ authorizedOnce :=
    Machine.admits_of_enabled (fun _ _ => trivial) _ _
  have hruns := rpcClient_runs ((Machine.Reachable.start rfl).run hadmits)
  have hmem := List.getElem_mem (l := (rpcClient.run ⟨0, []⟩ authorizedOnce).calls) Nat.zero_lt_one
  exact ⟨_, hmem, rfl, (hruns.2 _ hmem).2.2 _ rfl⟩

/-! ## Receipts -/

section

variable {ρ : Type} {minconf : ℤ} {hasTxWaitSupport : Bool}

theorem confirm_concat (minconf : ℤ) (hasTxWaitSupport : Bool) (rounds : List (ConfirmRound ρ))
    (r : ConfirmRound ρ) : confirm minconf hasTxWaitSupport (rounds ++ [r]) =
      (confirm minconf hasTxWaitSupport rounds).round minconf hasTxWaitSupport r := by
  rw [confirm, List.foldl_append]
  rfl

/-- How often the transaction of a round has been confirmed. -/
def ConfirmRound.confirmations (r : ConfirmRound ρ) : ℤ :=
  match r.tx with
  | .ok tx => tx.confirmations
  | .error _ => 0

/-- A round of which the transaction has been confirmed often enough, and the receipt is there. -/
def ConfirmRound.Enough (minconf : ℤ) (receipt : ρ) (r : ConfirmRound ρ) : Prop :=
  r.receipt = .ok (some receipt) ∧ 0 < r.confirmations ∧ minconf ≤ r.confirmations

@[simp] theorem Confirming.outcome_next (c : Confirming ρ) (confirmations : ℤ) :
    (c.next hasTxWaitSupport confirmations).outcome = c.outcome := by
  unfold Confirming.next
  split_ifs <;> rfl

theorem Confirming.waited_next (c : Confirming ρ) (confirmations : ℤ) :
    ∃ w, (c.next hasTxWaitSupport confirmations).waited = c.waited ++ [w] := by
  unfold Confirming.next
  split_ifs <;> exact ⟨_, rfl⟩

/-- Once there is an outcome, nothing changes. -/
theorem Confirming.round_of_outcome {c : Confirming ρ} {outcome : Except String ρ}
    (h : c.outcome = some outcome) (r : ConfirmRound ρ) :
    c.round minconf hasTxWaitSupport r = c := by
  rw [Confirming.round, h]

/-- A round of which the receipt is asked for, and comes back. -/
theorem Confirming.round_of_receipt {c : Confirming ρ} (h : c.outcome = none) {r : ConfirmRound ρ}
    {receipt : Option ρ} (hpos : 0 < r.confirmations) (hreceipt : r.receipt = .ok receipt) :
    c.round minconf hasTxWaitSupport r =
      c.onReceipt minconf hasTxWaitSupport r.confirmations receipt := by
  unfold Confirming.round
  unfold ConfirmRound.confirmations at hpos ⊢
  cases htx : r.tx with
  | error err => simp [htx] at hpos
  | ok tx =>
    simp only [htx] at hpos
    simp only [h, if_pos hpos, hreceipt]

/-- A round of a transaction that is not confirmed. -/
theorem Confirming.round_of_unconfirmed {c : Confirming ρ} (h : c.outcome = none) {tx : TxInfo}
    (hpos : ¬ 0 < tx.confirmations) (receipt : Except String (Option ρ)) :
    c.round minconf hasTxWaitSupport ⟨.ok tx, receipt⟩ =
      c.next hasTxWaitSupport tx.confirmations := by
  unfold Confirming.round
  simp only [h, if_neg hpos]

/-- A receipt that has enough confirmations, or is not there, ends the loop. -/
theorem Confirming.onReceipt_outcome (c : Confirming ρ) {confirmations : ℤ}
    (henough : minconf ≤ confirmations) (receipt : Option ρ) :
    ∃ outcome, (c.onReceipt minconf hasTxWaitSupport confirmations receipt).outcome =
      some outcome := by
  cases receipt with
  | none => exact ⟨_, rfl⟩
  | some receipt =>
    rw [Confirming.onReceipt]
    simp only [if_pos henough]
    exact ⟨_, rfl⟩

/-- **What a round can do**, where there is no outcome yet: it ends, or it asks again, and it has
emitted if the transaction has more confirmations than before. -/
theorem Confirming.round_cases {c : Confirming ρ} (h : c.outcome = none) (r : ConfirmRound ρ) :
    (r.confirmations ≤ 0 ∧
      c.round minconf hasTxWaitSupport r = c.next hasTxWaitSupport r.confirmations) ∨
    (∃ err, c.round minconf hasTxWaitSupport r = c.fail err) ∨
    (∃ receipt, r.Enough minconf receipt ∧
      (c.round minconf hasTxWaitSupport r).outcome = some (.ok receipt)) ∨
    (∃ receipt, r.receipt = .ok (some receipt) ∧ 0 < r.confirmations ∧
      r.confirmations < minconf ∧ c.round minconf hasTxWaitSupport r =
        (if c.lastConfirmation < r.confirmations then
          { c with
            curConfirmation := r.confirmations
            emitted := c.emitted ++ [(r.confirmations, receipt)] }
        else c).next hasTxWaitSupport r.confirmations) := by
  by_cases hpos : 0 < r.confirmations
  · cases hreceipt : r.receipt with
    | error err =>
      refine .inr (.inl ⟨err, ?_⟩)
      unfold Confirming.round
      unfold ConfirmRound.confirmations at hpos
      cases htx : r.tx with
      | error err => simp [htx] at hpos
      | ok tx =>
        simp only [htx] at hpos
        simp only [h, if_pos hpos, hreceipt]
    | ok receipt =>
      rw [Confirming.round_of_receipt h hpos hreceipt]
      cases receipt with
      | none => exact .inr (.inl ⟨_, rfl⟩)
      | some receipt =>
        rw [Confirming.onReceipt]
        by_cases henough : minconf ≤ r.confirmations
        · refine .inr (.inr (.inl ⟨receipt, ⟨hreceipt, hpos, henough⟩, ?_⟩))
          simp only [if_pos henough]
        · refine .inr (.inr (.inr ⟨receipt, rfl, hpos, by omega, ?_⟩))
          simp only [if_neg henough]
  · unfold Confirming.round
    unfold ConfirmRound.confirmations at hpos ⊢
    cases htx : r.tx with
    | error err => exact .inr (.inl ⟨err, by rw [h]⟩)
    | ok tx =>
      simp only [htx] at hpos
      exact .inl ⟨Int.not_lt.1 hpos, by simp only [h, if_neg hpos]⟩

/-- **`confirm` resolves** only with the receipt of a round that had enough confirmations. -/
theorem confirm_outcome {rounds : List (ConfirmRound ρ)} {receipt : ρ}
    (h : (confirm minconf hasTxWaitSupport rounds).outcome = some (.ok receipt)) :
    ∃ r ∈ rounds, r.Enough minconf receipt := by
  induction rounds using List.reverseRecOn with
  | nil => cases h
  | append_singleton rounds r ih =>
    rw [confirm_concat] at h
    cases hbefore : (confirm minconf hasTxWaitSupport rounds).outcome with
    | some outcome =>
      rw [Confirming.round_of_outcome hbefore] at h
      obtain ⟨r', hr', henough⟩ := ih h
      exact ⟨r', List.mem_append_left _ hr', henough⟩
    | none =>
      have hround := @Confirming.round_cases _ minconf hasTxWaitSupport _ hbefore r
      rcases hround with
        ⟨-, hround⟩ | ⟨err, hround⟩ | ⟨receipt', henough, hround⟩ | ⟨receipt', -, -, -, hround⟩
      · simp [hround, hbefore] at h
      · rw [hround] at h
        cases h
      · rw [hround] at h
        cases h
        exact ⟨r, by simp, henough⟩
      · rw [hround, Confirming.outcome_next] at h
        split_ifs at h <;> simp [hbefore] at h

/-- A transaction that is confirmed once. -/
theorem confirm_outcome_once :
    ∃ r ∈ [ConfirmRound.mk (.ok ⟨"tx", 0⟩) (.ok none), ⟨.ok ⟨"tx", 1⟩, .ok (some "receipt")⟩],
      r.Enough 1 "receipt" :=
  @confirm_outcome _ 1 false _ "receipt" rfl

/-- **A node that waits**: it answers when the transaction has been confirmed as often as
was asked, and then it has the receipt. -/
def Waits (minconf : ℤ) (rounds : List (ConfirmRound ρ)) : Prop :=
  ∀ before r behind, rounds = before ++ r :: behind →
    (confirm minconf true before).outcome = none →
      (∃ receipt, r.receipt = .ok (some receipt)) ∧
        ∀ w, (confirm minconf true before).waited.getLast? = some (some w) → w ≤ r.confirmations

/-- What has been asked of such a node, while there is no outcome: each time one confirmation more
than there were. -/
structure Counting (minconf : ℤ) (rounds : List (ConfirmRound ρ)) (c : Confirming ρ) : Prop where
  outcome : c.outcome = none
  current : c.curConfirmation = c.lastConfirmation + 1
  asked : c.waited.getLast? = some (some c.curConfirmation)
  bound : ∀ r ∈ rounds, r.confirmations ≤ c.lastConfirmation
  waited : c.waited = some 1 :: rounds.map fun r => some (r.confirmations + 1)
  emitted : c.emitted.map Prod.fst = rounds.map (·.confirmations)
  increasing : (0 :: rounds.map (·.confirmations)).Pairwise (· < ·)
  short : rounds.length ≤ c.lastConfirmation
  few : ∀ r ∈ rounds, r.confirmations < minconf
  under : c.lastConfirmation < max 1 minconf

theorem Counting.start (minconf : ℤ) : Counting minconf [] (.start true : Confirming ρ) where
  outcome := rfl
  current := rfl
  asked := rfl
  bound := by simp
  waited := rfl
  emitted := rfl
  increasing := by simp
  short := Int.le_refl 0
  few := by simp
  under := by
    show (0 : ℤ) < max 1 minconf
    omega

/-- **A round of a node that waits** counts one more, or ends the loop. -/
theorem Counting.round {rounds : List (ConfirmRound ρ)} {c : Confirming ρ}
    (h : Counting minconf rounds c) {r : ConfirmRound ρ} {receipt : ρ}
    (hreceipt : r.receipt = .ok (some receipt)) (hwaited : c.curConfirmation ≤ r.confirmations) :
    if minconf ≤ r.confirmations then
      (c.round minconf true r).outcome = some (.ok receipt) ∧
        (c.round minconf true r).emitted = c.emitted ++ [(r.confirmations, receipt)] ∧
        (c.round minconf true r).waited = c.waited
    else Counting minconf (rounds ++ [r]) (c.round minconf true r) := by
  have hcurrent := h.current
  have hshort := h.short
  have hpos : 0 < r.confirmations := by omega
  have hmore : c.lastConfirmation < r.confirmations := by omega
  rw [Confirming.round_of_receipt h.outcome hpos hreceipt, Confirming.onReceipt]
  simp only [if_pos hmore]
  split_ifs with henough
  · exact ⟨rfl, rfl, rfl⟩
  · rw [Confirming.next, if_pos rfl]
    exact {
      outcome := h.outcome
      current := rfl
      asked := List.getLast?_concat
      bound := by
        intro r' hr'
        rcases List.mem_append.1 hr' with hr' | hr'
        · exact Int.le_of_lt (Int.lt_of_le_of_lt (h.bound r' hr') hmore)
        · obtain rfl := List.mem_singleton.1 hr'
          exact Int.le_refl _
      waited := by
        rw [List.map_append, ← List.cons_append, ← h.waited]
        rfl
      emitted := by
        simp only [List.map_append, h.emitted]
        rfl
      increasing := by
        rw [List.map_append, ← List.cons_append, List.pairwise_append]
        refine ⟨h.increasing, by simp, ?_⟩
        intro a ha b hb
        rw [List.map_singleton, List.mem_singleton] at hb
        subst hb
        rcases List.mem_cons.1 ha with rfl | ha
        · exact hpos
        · obtain ⟨r', hr', rfl⟩ := List.mem_map.1 ha
          exact Int.lt_of_le_of_lt (h.bound r' hr') hmore
      short := by
        rw [List.length_append, List.length_singleton]
        push_cast
        omega
      few := by
        intro r' hr'
        rcases List.mem_append.1 hr' with hr' | hr'
        · exact h.few r' hr'
        · rw [List.mem_singleton.1 hr']
          omega
      under := by
        show r.confirmations < max 1 minconf
        omega }

/-- The loop, over rounds of a node that waits: it counts, or it has ended in a round that had
enough, and counted up to it. -/
theorem Waits.cases {rounds : List (ConfirmRound ρ)} (h : Waits minconf rounds) :
    Counting minconf rounds (confirm minconf true rounds) ∨
      ∃ before r behind receipt, rounds = before ++ r :: behind ∧ r.Enough minconf receipt ∧
        Counting minconf before (confirm minconf true before) ∧
        (confirm minconf true before).lastConfirmation < r.confirmations ∧
        (confirm minconf true rounds).outcome = some (.ok receipt) ∧
        (confirm minconf true rounds).emitted =
          (confirm minconf true before).emitted ++ [(r.confirmations, receipt)] ∧
        (confirm minconf true rounds).waited = (confirm minconf true before).waited := by
  induction rounds using List.reverseRecOn with
  | nil => exact .inl (.start minconf)
  | append_singleton rounds r ih =>
    have hbefore : Waits minconf rounds := fun before r' behind hrounds =>
      h before r' (behind ++ [r]) (by rw [hrounds]; simp)
    rw [confirm_concat]
    rcases ih hbefore with hcounting | ⟨before, r', behind, receipt, hrounds, henough, hcounting,
      hmore, houtcome, hemitted, hwaited⟩
    · obtain ⟨⟨receipt, hreceipt⟩, hasked⟩ := h rounds r [] rfl hcounting.outcome
      have hge := hasked _ hcounting.asked
      have hround := hcounting.round hreceipt hge
      split_ifs at hround with henough
      · obtain ⟨houtcome, hemitted, hwaited⟩ := hround
        have hpos : 0 < r.confirmations := by
          have := hcounting.current
          have := hcounting.short
          omega
        have hmore : (confirm minconf true rounds).lastConfirmation < r.confirmations := by
          have := hcounting.current
          omega
        exact .inr ⟨rounds, r, [], receipt, rfl, ⟨hreceipt, hpos, henough⟩, hcounting, hmore,
          houtcome, hemitted, hwaited⟩
      · exact .inl hround
    · rw [Confirming.round_of_outcome houtcome]
      exact .inr ⟨before, r', behind ++ [r], receipt, by rw [hrounds]; simp, henough, hcounting,
        hmore, houtcome, hemitted, hwaited⟩

/-- **With a node that waits `confirm` comes to an end**: after as many rounds as there are
confirmations to wait for it has resolved. It has asked for one confirmation more each time, and
emitted each time, with more confirmations than before. -/
theorem confirm_waits {rounds : List (ConfirmRound ρ)} (h : Waits minconf rounds)
    (hlength : max 1 minconf ≤ rounds.length) :
    ∃ before r behind receipt, rounds = before ++ r :: behind ∧ r.Enough minconf receipt ∧
      (∀ r' ∈ before, r'.confirmations < minconf) ∧
      (confirm minconf true rounds).outcome = some (.ok receipt) ∧
      (confirm minconf true rounds).emitted.map Prod.fst =
        (before ++ [r]).map (·.confirmations) ∧
      ((before ++ [r]).map (·.confirmations)).Pairwise (· < ·) ∧
      (confirm minconf true rounds).waited =
        some 1 :: before.map fun r => some (r.confirmations + 1) := by
  rcases h.cases with hcounting | ⟨before, r, behind, receipt, hrounds, henough, hcounting,
    hmore, houtcome, hemitted, hwaited⟩
  · -- too many rounds to be still counting
    have := hcounting.short
    have := hcounting.under
    omega
  · refine ⟨before, r, behind, receipt, hrounds, henough, hcounting.few, houtcome, ?_, ?_, ?_⟩
    · rw [hemitted, List.map_append, List.map_append, hcounting.emitted]
      rfl
    · rw [List.map_append, List.pairwise_append]
      refine ⟨(List.pairwise_cons.1 hcounting.increasing).2, by simp, ?_⟩
      intro a ha b hb
      obtain ⟨r', hr', rfl⟩ := List.mem_map.1 ha
      rw [List.map_singleton, List.mem_singleton] at hb
      subst hb
      exact Int.lt_of_le_of_lt (hcounting.bound r' hr') hmore
    · rw [hwaited, hcounting.waited]

/-- A transaction that is confirmed twice, the one time after the other. -/
def confirmedTwice : List (ConfirmRound String) :=
  [⟨.ok ⟨"tx", 1⟩, .ok (some "first")⟩, ⟨.ok ⟨"tx", 2⟩, .ok (some "second")⟩]

theorem confirm_waits_twice : ∃ before r behind receipt, confirmedTwice = before ++ r :: behind ∧
    r.Enough 2 receipt ∧ (confirm 2 true confirmedTwice).outcome = some (.ok receipt) := by
  have hwaits : Waits 2 confirmedTwice := by
    intro before r behind hrounds hnone
    match before, hrounds with
    | [], hrounds =>
      cases hrounds
      exact ⟨⟨_, rfl⟩, by simp [confirm, Confirming.start, ConfirmRound.confirmations]⟩
    | [_], hrounds =>
      cases hrounds
      refine ⟨⟨_, rfl⟩, ?_⟩
      simp [confirm, Confirming.start, Confirming.round, Confirming.onReceipt, Confirming.next,
        ConfirmRound.confirmations]
    | _ :: _ :: _ :: _, hrounds => cases hrounds
  obtain ⟨before, r, behind, receipt, hrounds, henough, -, houtcome, -⟩ :=
    confirm_waits hwaits (by decide)
  exact ⟨before, r, behind, receipt, hrounds, henough, houtcome⟩

end

end Hmix
