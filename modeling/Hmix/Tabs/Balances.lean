import Hmix.Model.Accounts
import Mathlib.Algebra.BigOperators.Group.List.Basic
import Mathlib.Data.List.Dedup
import Mathlib.Tactic.Linarith
import Mathlib.Tactic.Ring

/-!
# The accounts of a reply

What a list of outputs says of an address is the sum of the address's
amounts (`total`). Adding an output to the balances adds its amount to its
own address's total and to no other, so the balances say of every address
what the reply says, with one entry for each. Sorting and cutting keep that,
and what is cut off is no larger than what stays.
-/

namespace Hmix

/-! ## The largest entries of a list -/

section

variable {α : Type} (size : α → ℚ) (k : ℕ) (entries : List α)

/-- The `k` largest entries, the largest first. -/
def largest : List α := (entries.mergeSort fun a b => decide (size b ≤ size a)).take k

/-- The entries that are left. -/
def smallest : List α := (entries.mergeSort fun a b => decide (size b ≤ size a)).drop k

theorem largest_append_smallest_perm :
    (largest size k entries ++ smallest size k entries).Perm entries := by
  rw [largest, smallest, List.take_append_drop]
  exact List.mergeSort_perm entries _

/-- **Every entry is at least as large as those behind it**, left or not. -/
theorem pairwise_largest_append_smallest :
    (largest size k entries ++ smallest size k entries).Pairwise fun a b => size b ≤ size a := by
  rw [largest, smallest, List.take_append_drop]
  have htrans : ∀ a b c : α, decide (size b ≤ size a) = true → decide (size c ≤ size b) = true →
      decide (size c ≤ size a) = true := by
    simp only [decide_eq_true_eq]
    exact fun a b c hab hbc => hbc.trans hab
  have htotal : ∀ a b : α, (decide (size b ≤ size a) || decide (size a ≤ size b)) = true := by
    simp only [Bool.or_eq_true, decide_eq_true_eq]
    exact fun a b => le_total (size b) (size a)
  exact (List.pairwise_mergeSort htrans htotal entries).imp fun h => of_decide_eq_true h

theorem length_largest : (largest size k entries).length = min k entries.length := by
  rw [largest, List.length_take, List.length_mergeSort]

end

/-! ## What a list says of an address -/

/-- What the outputs of an address come to. -/
def total (outputs : List Utxo) (address : String) : ℚ :=
  ((outputs.filter fun utxo => utxo.address == address).map Utxo.amount).sum

section

variable {outputs balances : List Utxo} {utxo : Utxo} {address : String}

theorem total_cons : total (utxo :: outputs) address =
    (if utxo.address = address then utxo.amount else 0) + total outputs address := by
  by_cases h : utxo.address = address
  · simp [total, h]
  · simp [total, h]

theorem total_append (outputs outputs' : List Utxo) (address : String) :
    total (outputs ++ outputs') address = total outputs address + total outputs' address := by
  simp [total]

theorem total_eq_zero (h : address ∉ outputs.map Utxo.address) : total outputs address = 0 := by
  have hnone : (outputs.filter fun utxo => utxo.address == address) = [] := by
    refine List.filter_eq_nil_iff.2 fun u hu heq => h ?_
    exact List.mem_map.2 ⟨u, hu, by simpa using heq⟩
  rw [total, hnone]
  rfl

/-- With one entry for each address, an entry's amount is its total. -/
theorem total_of_mem (hnodup : (outputs.map Utxo.address).Nodup) (h : utxo ∈ outputs) :
    total outputs utxo.address = utxo.amount := by
  obtain ⟨before, behind, rfl⟩ := List.append_of_mem h
  rw [List.map_append, List.map_cons, List.nodup_middle] at hnodup
  obtain ⟨hnot, -⟩ := List.nodup_cons.1 hnodup
  rw [← List.map_append] at hnot
  have hothers := total_eq_zero hnot
  rw [total_append] at hothers
  rw [total_append, total_cons, if_pos rfl]
  linarith

/-! ## Adding an output -/

theorem address_addBalance_of_mem (h : utxo.address ∈ balances.map Utxo.address) :
    (addBalance balances utxo).map Utxo.address = balances.map Utxo.address := by
  have hany : (balances.any fun b => b.address == utxo.address) = true := by
    obtain ⟨b, hb, heq⟩ := List.mem_map.1 h
    exact List.any_eq_true.2 ⟨b, hb, by simp [heq]⟩
  rw [addBalance, if_pos hany, List.map_map]
  refine List.map_congr_left fun b _ => ?_
  simp only [Function.comp_apply]
  split <;> rfl

theorem addBalance_of_notMem (h : utxo.address ∉ balances.map Utxo.address) :
    addBalance balances utxo = balances ++ [utxo] := by
  have hany : (balances.any fun b => b.address == utxo.address) = false := by
    refine List.any_eq_false.2 fun b hb heq => h ?_
    exact List.mem_map.2 ⟨b, hb, by simpa using heq⟩
  rw [addBalance, hany]
  rfl

theorem mem_address_addBalance : address ∈ (addBalance balances utxo).map Utxo.address ↔
    address ∈ balances.map Utxo.address ∨ address = utxo.address := by
  by_cases h : utxo.address ∈ balances.map Utxo.address
  · rw [address_addBalance_of_mem h]
    exact ⟨.inl, fun h' => h'.elim id fun heq => heq ▸ h⟩
  · rw [addBalance_of_notMem h, List.map_append, List.mem_append, List.map_singleton,
      List.mem_singleton]

theorem nodup_addBalance (hnodup : (balances.map Utxo.address).Nodup) :
    ((addBalance balances utxo).map Utxo.address).Nodup := by
  by_cases h : utxo.address ∈ balances.map Utxo.address
  · rw [address_addBalance_of_mem h]
    exact hnodup
  · rw [addBalance_of_notMem h, List.map_append, List.map_singleton]
    exact List.nodup_append_comm.1 (List.nodup_cons.2 ⟨h, hnodup⟩)

/-- **An output adds to its own address**, and to no other. -/
theorem total_addBalance (hnodup : (balances.map Utxo.address).Nodup) :
    total (addBalance balances utxo) address =
      total balances address + (if utxo.address = address then utxo.amount else 0) := by
  by_cases h : utxo.address ∈ balances.map Utxo.address
  · -- the one entry of the address is in between others
    obtain ⟨b, hb, heq⟩ := List.mem_map.1 h
    obtain ⟨before, behind, rfl⟩ := List.append_of_mem hb
    rw [List.map_append, List.map_cons, List.nodup_middle] at hnodup
    obtain ⟨hnot, -⟩ := List.nodup_cons.1 hnodup
    have hothers : ∀ others : List Utxo, (∀ b' ∈ others, b' ∈ before ++ behind) →
        (others.map fun b' => if b'.address == utxo.address then
          ({ b' with amount := b'.amount + utxo.amount } : Utxo) else b') = others := by
      intro others hsub
      refine (List.map_congr_left fun b' hb' => if_neg fun hb'eq => hnot ?_).trans (List.map_id _)
      rw [← List.map_append, heq]
      exact List.mem_map.2 ⟨b', hsub b' hb', by simpa using hb'eq⟩
    have hany : ((before ++ b :: behind).any fun b' => b'.address == utxo.address) = true :=
      List.any_eq_true.2 ⟨b, hb, by simp [heq]⟩
    rw [addBalance, if_pos hany, List.map_append, List.map_cons,
      hothers before fun b' hb' => List.mem_append_left _ hb',
      hothers behind fun b' hb' => List.mem_append_right _ hb', if_pos (by simp [heq]),
      total_append, total_append, total_cons, total_cons, heq]
    split_ifs <;> ring
  · rw [addBalance_of_notMem h, total_append, total_cons]
    simp [total]

/-- **The balances of a reply**: one entry for each address, that says what the
reply does. -/
theorem balances_spec (result balances : List Utxo) (hnodup : (balances.map Utxo.address).Nodup) :
    ((result.foldl addBalance balances).map Utxo.address).Nodup ∧
      (∀ address, address ∈ (result.foldl addBalance balances).map Utxo.address ↔
        address ∈ balances.map Utxo.address ∨ address ∈ result.map Utxo.address) ∧
      ∀ address, total (result.foldl addBalance balances) address =
        total balances address + total result address := by
  induction result generalizing balances with
  | nil => exact ⟨hnodup, by simp, by simp [total]⟩
  | cons utxo result ih =>
    obtain ⟨hnodup', hmem, htotal⟩ := ih (addBalance balances utxo) (nodup_addBalance hnodup)
    refine ⟨hnodup', fun address => ?_, fun address => ?_⟩
    · rw [List.foldl_cons, hmem, mem_address_addBalance, List.map_cons, List.mem_cons, or_assoc]
    · rw [List.foldl_cons, htotal, total_addBalance hnodup, total_cons, add_assoc]

end

/-! ## The accounts -/

/-- **What should be listed of a reply.** -/
structure TenLargest (result utxos : List Utxo) (selectedUtxo : Option Utxo) : Prop where
  /-- One entry for each address that is listed. -/
  distinct : (utxos.map Utxo.address).Nodup
  /-- An entry is of the reply, and sums up what is there of its address. -/
  summed : ∀ utxo ∈ utxos, utxo.address ∈ result.map Utxo.address ∧
    utxo.amount = total result utxo.address
  /-- All addresses are listed, or ten of them. -/
  length : utxos.length = min 10 (result.map Utxo.address).dedup.length
  decreasing : utxos.Pairwise fun a b => b.amount ≤ a.amount
  /-- What is omitted is no larger. -/
  omitted : ∀ address ∈ result.map Utxo.address, address ∉ utxos.map Utxo.address →
    ∀ utxo ∈ utxos, total result address ≤ utxo.amount
  selected : selectedUtxo = utxos.head?
  /-- What is selected is the largest of all. -/
  largest : ∀ utxo ∈ selectedUtxo, ∀ address ∈ result.map Utxo.address,
    total result address ≤ utxo.amount

/-- **After a reply** the ten largest accounts are listed, and the first is
selected. -/
theorem lists_ten_largest (x : AccountList) (call : ℕ) (result : List Utxo) :
    TenLargest result (x.listed call result).utxos (x.listed call result).selectedUtxo := by
  obtain ⟨hnodup, hmem, htotal⟩ := balances_spec result [] List.nodup_nil
  set balances := result.foldl addBalance []
  have hperm := largest_append_smallest_perm Utxo.amount 10 balances
  have hpairwise := pairwise_largest_append_smallest Utxo.amount 10 balances
  have hsummed : ∀ utxo ∈ balances, utxo.address ∈ result.map Utxo.address ∧
      utxo.amount = total result utxo.address := by
    intro utxo hutxo
    have haddress := (hmem utxo.address).1 (List.mem_map_of_mem hutxo)
    refine ⟨by simpa using haddress, ?_⟩
    rw [← total_of_mem hnodup hutxo, htotal]
    simp [total]
  change TenLargest result (largest Utxo.amount 10 balances)
    (largest Utxo.amount 10 balances).head?
  set utxos := largest Utxo.amount 10 balances
  set rest := smallest Utxo.amount 10 balances
  obtain ⟨hdecreasing, -, hrest⟩ := List.pairwise_append.1 hpairwise
  have hlisted : ∀ address ∈ result.map Utxo.address, ∃ utxo ∈ utxos ++ rest,
      utxo.address = address ∧ utxo.amount = total result address := by
    intro address haddress
    obtain ⟨utxo, hutxo, rfl⟩ := List.mem_map.1 ((hmem address).2 (.inr haddress))
    exact ⟨utxo, hperm.mem_iff.2 hutxo, rfl, (hsummed utxo hutxo).2⟩
  refine ⟨?_, fun utxo hutxo => ?_, ?_, hdecreasing, fun address haddress hnot utxo hutxo => ?_,
    rfl, fun utxo hutxo address haddress => ?_⟩
  · have hboth := (hperm.map Utxo.address).nodup_iff.2 hnodup
    rw [List.map_append] at hboth
    exact hboth.of_append_left
  · exact hsummed utxo (hperm.mem_iff.1 (List.mem_append_left _ hutxo))
  · have hlength : (balances.map Utxo.address).Perm (result.map Utxo.address).dedup := by
      refine (List.perm_ext_iff_of_nodup hnodup (List.nodup_dedup _)).2 fun address => ?_
      rw [hmem, List.mem_dedup]
      simp
    rw [length_largest, ← hlength.length_eq, List.length_map]
  · obtain ⟨other, hother, rfl, hamount⟩ := hlisted address haddress
    rw [← hamount]
    rcases List.mem_append.1 hother with hother | hother
    · exact absurd (List.mem_map_of_mem hother) hnot
    · exact hrest utxo hutxo other hother
  · obtain ⟨other, hother, -, hamount⟩ := hlisted address haddress
    obtain ⟨utxos', hutxos⟩ := List.head?_eq_some_iff.1 hutxo
    rw [hutxos, List.cons_append] at hpairwise hother
    rw [← hamount]
    rcases List.mem_cons.1 hother with rfl | hother
    · exact le_rfl
    · exact (List.pairwise_cons.1 hpairwise).1 other hother

end Hmix
