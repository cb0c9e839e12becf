import Hmix.Model.Accounts

/-!
# Whose accounts are listed

The last reply that arrived is what is listed, wherever it was asked for,
and only a reply ends the loading. So once nothing is outstanding the list
is of the node at the URL there is exactly where a call succeeded after the
last one was made, and the last to succeed was made at that URL. Whether
that is so depends on the order of events alone, not on what is reported.
-/

namespace Hmix

/-- What a call has reported: a failed one has reported nothing. -/
def Call.reported (reports : ℕ → List Utxo) (call : ℕ) (c : Call) : Option (List Utxo) :=
  match c.outcome with
  | .outstanding => none
  | .succeeded => some (listAccounts (reports call))
  | .failed => some []

namespace AccountList

/-- **The accounts are right**: nothing is loading, the list is what some call
at the URL there is has reported, and so is the account that is selected. -/
structure Right (reports : ℕ → List Utxo) (x : AccountList) : Prop where
  loadingUtxos : x.loadingUtxos = false
  utxos : ∃ (call : ℕ) (c : Call), x.inquiries.calls[call]? = some c ∧
    c.url = rpcUrl x.inquiries.storage ∧ c.reported reports call = some x.utxos
  selectedUtxo : ∀ utxo ∈ x.selectedUtxo, utxo ∈ x.utxos
  unselected : x.selectedUtxo = none → x.utxos = []

end AccountList

/-- What an event leaves of the last call to succeed since the last request. -/
def AccountEvent.answer (last : Option ℕ) : AccountEvent → Option ℕ
  | .getUtxos => none
  | .succeed call => some call
  | _ => last

/-- **The last call to succeed**, where no request was made after it did. -/
def lastAnswer (es : List AccountEvent) : Option ℕ := es.foldl AccountEvent.answer none

/-! ## What a run has listed -/

section

variable {reports : ℕ → List Utxo} {x : AccountList} {last : Option ℕ}

/-- The list is of the last call to succeed, and nothing is loading where no
request was made since. -/
structure ListsLast (reports : ℕ → List Utxo) (last : Option ℕ) (x : AccountList) : Prop where
  loadingUtxos : x.loadingUtxos = false ↔ last ≠ none
  utxos : ∀ call ∈ last, x.utxos = listAccounts (reports call) ∧
    ∃ c ∈ x.inquiries.calls[call]?, c.outcome = .succeeded
  selectedUtxo : ∀ utxo ∈ x.selectedUtxo, utxo ∈ x.utxos
  unselected : x.selectedUtxo = none → x.utxos = []

/-- A call that succeeded is not touched by the outcome of another. -/
theorem succeeded_settle {i : Inquiries} {call other : ℕ} {outcome : Outcome}
    (h : ∃ c ∈ i.calls[call]?, c.outcome = .succeeded) (hother : i.Outstanding other) :
    ∃ c ∈ (i.settle other outcome).calls[call]?, c.outcome = .succeeded := by
  obtain ⟨c, hc, hsucceeded⟩ := h
  have hne : other ≠ call := by
    rintro rfl
    obtain ⟨c', hc', houtstanding⟩ := hother
    obtain rfl := Option.some.inj (hc.symm.trans hc')
    rw [hsucceeded] at houtstanding
    cases houtstanding
  -- the other entries of the list stay
  refine ⟨c, ?_, hsucceeded⟩
  simpa [Inquiries.settle, List.getElem?_modify, hne] using hc

theorem listsLast_step {e : AccountEvent} (h : ListsLast reports last x)
    (he : (accountDesk reports).enabled x e) :
    ListsLast reports (e.answer last) ((accountDesk reports).step x e) := by
  cases e with
  | setRpcUrl url refused =>
    have hcalls : (x.inquiries.setRpcUrl url refused).calls = x.inquiries.calls := by
      unfold Inquiries.setRpcUrl
      split <;> rfl
    refine ⟨h.loadingUtxos, fun call hcall => ?_, h.selectedUtxo, h.unselected⟩
    change x.utxos = _ ∧ ∃ c ∈ (x.inquiries.setRpcUrl url refused).calls[call]?, _
    rw [hcalls]
    exact h.utxos call hcall
  | change => exact h
  | getUtxos =>
    exact ⟨iff_of_false Bool.noConfusion fun hne => hne rfl, nofun, h.selectedUtxo, h.unselected⟩
  | succeed call =>
    obtain ⟨c, hc, -⟩ := he
    refine ⟨iff_of_true rfl (Option.some_ne_none call), ?_, fun utxo hutxo => ?_, fun hnone => ?_⟩
    · rintro _ ⟨⟩
      refine ⟨rfl, { c with outcome := .succeeded }, ?_, rfl⟩
      change (x.inquiries.calls.modify call _)[call]? = _
      rw [List.getElem?_modify, hc]
      simp
    · exact List.mem_of_mem_head? hutxo
    · exact List.head?_eq_none_iff.1 hnone
  | fail call =>
    -- nothing catches it: the list and the flag are as they were
    refine ⟨h.loadingUtxos, fun other hother => ?_, h.selectedUtxo, h.unselected⟩
    exact ⟨(h.utxos other hother).1, succeeded_settle (h.utxos other hother).2 he⟩
  | selectUtxo index =>
    change ListsLast reports last (x.selectUtxo index)
    unfold AccountList.selectUtxo
    split
    · exact h
    · next utxo hutxo =>
      refine ⟨h.loadingUtxos, h.utxos, ?_, nofun⟩
      rintro _ ⟨⟩
      exact List.mem_of_getElem? hutxo

theorem listsLast_run {es : List AccountEvent} (h : ListsLast reports last x)
    (ha : (accountDesk reports).Admits x es) :
    ListsLast reports (es.foldl AccountEvent.answer last) ((accountDesk reports).run x es) := by
  induction es generalizing x last with
  | nil => exact h
  | cons e es ih => exact ih (listsLast_step h ha.1) ha.2

theorem listsLast_ngOnInit (storage : LocalStorage) :
    ListsLast reports none (.ngOnInit storage) :=
  ⟨iff_of_false Bool.noConfusion fun hne => hne rfl, nofun, nofun, fun _ => rfl⟩

/-- **What is asked does not depend on what is reported.** -/
theorem inquiries_step (e : AccountEvent) :
    ((accountDesk reports).step x e).inquiries = x.inquiries.act e := by
  cases e with
  | selectUtxo index =>
    change (x.selectUtxo index).inquiries = x.inquiries
    unfold AccountList.selectUtxo
    split <;> rfl
  | _ => rfl

theorem inquiries_run (es : List AccountEvent) (x : AccountList) :
    ((accountDesk reports).run x es).inquiries = inquiryDesk.run x.inquiries es := by
  induction es generalizing x with
  | nil => rfl
  | cons e es ih => exact (ih _).trans (congrArg (inquiryDesk.run · es) (inquiries_step e))

theorem admits_accountDesk {es : List AccountEvent}
    (h : inquiryDesk.Admits x.inquiries es) : (accountDesk reports).Admits x es := by
  induction es generalizing x with
  | nil => trivial
  | cons e es ih =>
    refine ⟨h.1, ih ?_⟩
    rw [inquiries_step]
    exact h.2

end

/-! ## The accounts of the node at the URL there is -/

/-- One output each, so that no two calls report the same. -/
def tellingReports (call : ℕ) : List Utxo := [⟨"", call⟩]

theorem listAccounts_telling (call : ℕ) : listAccounts (tellingReports call) = [⟨"", call⟩] := by
  simp [listAccounts, tellingReports, addBalance]

/-- What a run has asked. -/
def asked (storage : LocalStorage) (es : List AccountEvent) : Inquiries :=
  inquiryDesk.run (AccountList.ngOnInit storage).inquiries es

/-- **The accounts are right, whatever is reported**, exactly where a call
succeeded after the last request was made, and the last one to succeed was made
at the URL there is. Other calls may be outstanding, or not. -/
theorem accounts_right_iff {storage : LocalStorage} {es : List AccountEvent}
    (h : inquiryDesk.Admits (AccountList.ngOnInit storage).inquiries es) :
    (∀ reports, ((accountDesk reports).run (.ngOnInit storage) es).Right reports) ↔
      ∃ call c, lastAnswer es = some call ∧ (asked storage es).calls[call]? = some c ∧
        c.url = rpcUrl (asked storage es).storage := by
  have hlists : ∀ reports, ListsLast reports (lastAnswer es)
      ((accountDesk reports).run (.ngOnInit storage) es) := fun reports =>
    listsLast_run (listsLast_ngOnInit storage) (admits_accountDesk h)
  have hinquiries : ∀ reports, ((accountDesk reports).run (.ngOnInit storage) es).inquiries =
      asked storage es := fun reports => inquiries_run es _
  constructor
  · -- reports that tell the calls apart tell whose accounts are listed
    intro hright
    obtain ⟨hloading, ⟨call, c, hc, hurl, hreported⟩, -, -⟩ := hright tellingReports
    obtain ⟨last, hlast⟩ := Option.ne_none_iff_exists'.1
      ((hlists tellingReports).loadingUtxos.1 hloading)
    obtain ⟨hutxos, -⟩ := (hlists tellingReports).utxos last hlast
    rw [hutxos, listAccounts_telling] at hreported
    rw [hinquiries] at hc hurl
    have heq : call = last := by
      unfold Call.reported at hreported
      split at hreported
      · cases hreported
      · rw [listAccounts_telling] at hreported
        simpa using hreported
      · cases hreported
    exact ⟨call, c, by rw [heq]; exact hlast, hc, hurl⟩
  · rintro ⟨call, c, hlast, hc, hurl⟩ reports
    have hfinal := hlists reports
    refine ⟨hfinal.loadingUtxos.2 ?_, ⟨call, c, ?_, ?_, ?_⟩, hfinal.selectedUtxo, hfinal.unselected⟩
    · exact fun hnone => Option.some_ne_none call (hlast.symm.trans hnone)
    · rw [hinquiries]
      exact hc
    · rw [hinquiries]
      exact hurl
    · obtain ⟨hutxos, c', hc', hsucceeded⟩ := hfinal.utxos call hlast
      rw [hinquiries] at hc'
      obtain rfl := Option.some.inj (hc.symm.trans hc')
      rw [hutxos, Call.reported, hsucceeded]

/-- The node answers the call that is made when the tab is shown. -/
theorem answered_accounts_right :
    ((accountDesk tellingReports).run (.ngOnInit .empty) [.succeed 0]).Right tellingReports := by
  have hadmits : inquiryDesk.Admits (AccountList.ngOnInit .empty).inquiries [.succeed 0] :=
    ⟨⟨⟨_, .outstanding⟩, rfl, rfl⟩, trivial⟩
  exact (accounts_right_iff hadmits).2 ⟨0, _, rfl, rfl, rfl⟩ tellingReports

/-- The node answers, and then the URL is changed. -/
def urlChanged : List AccountEvent :=
  [.succeed 0, .setRpcUrl "http://localhost:9888" false, .change]

/-- **The accounts of an earlier URL stay** when it is changed. -/
theorem accounts_of_earlier_url : ¬ ∀ (storage : LocalStorage) (es : List AccountEvent),
    inquiryDesk.Admits (AccountList.ngOnInit storage).inquiries es →
      (∀ call, ¬ (asked storage es).Outstanding call) → ∀ reports,
        ((accountDesk reports).run (.ngOnInit storage) es).Right reports := by
  intro h
  have hright := h .empty urlChanged ⟨⟨⟨_, .outstanding⟩, rfl, rfl⟩, trivial, trivial, trivial⟩ ?_
    tellingReports
  · obtain ⟨call, c, hc, hurl, -⟩ := hright.utxos
    have hcalls : ((accountDesk tellingReports).run (.ngOnInit .empty) urlChanged).inquiries.calls =
        [⟨.str defaultRpcUrl, .succeeded⟩] := rfl
    rw [hcalls] at hc
    obtain rfl := List.mem_singleton.1 (List.mem_of_getElem? hc)
    exact absurd (Json.str.inj hurl) (by decide)
  · rintro call ⟨c, hc, houtstanding⟩
    have hcalls : (asked .empty urlChanged).calls = [⟨.str defaultRpcUrl, .succeeded⟩] := rfl
    rw [hcalls] at hc
    obtain rfl := List.mem_singleton.1 (List.mem_of_getElem? hc)
    cases houtstanding

end Hmix
