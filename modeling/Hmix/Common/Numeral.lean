import Mathlib.Data.Nat.Digits.Lemmas
import Mathlib.Data.Nat.Size

/-!
# Positional numerals

A number is written by its digits in a base, the lowest first, and
`Nat.ofDigits` reads it. `Nat.digits` writes the shortest list; a list that
a program holds may be longer, or come from the highest digit on, or in groups.
`Below` says that its entries are digits at all. With the base 256 a
number of fixed width is a list of bytes, the highest first, and to read
a shorter list is to read the front of it.
-/

namespace Hmix

/-- The entries are digits of the base. -/
def Below (b : ℕ) (l : List ℕ) : Prop := ∀ d ∈ l, d < b

section Below

variable {b d : ℕ} {l l' : List ℕ}

@[simp] theorem below_nil : Below b [] := by simp [Below]

@[simp] theorem below_cons : Below b (d :: l) ↔ d < b ∧ Below b l := by simp [Below]

@[simp] theorem below_append : Below b (l ++ l') ↔ Below b l ∧ Below b l' := by
  simp [Below, or_imp, forall_and]

theorem below_replicate_zero (hb : 0 < b) (k : ℕ) : Below b (List.replicate k 0) := by
  intro d hd
  rw [List.eq_of_mem_replicate hd]
  exact hb

theorem Below.take (h : Below b l) (k : ℕ) : Below b (l.take k) := fun d hd =>
  h d (List.mem_of_mem_take hd)

theorem Below.drop (h : Below b l) (k : ℕ) : Below b (l.drop k) := fun d hd =>
  h d (List.mem_of_mem_drop hd)

theorem Below.reverse (h : Below b l) : Below b l.reverse := fun d hd =>
  h d (List.mem_reverse.1 hd)

theorem below_digits (hb : 1 < b) (n : ℕ) : Below b (Nat.digits b n) := fun _ hd =>
  Nat.digits_lt_base hb hd

end Below

/-! ## Reading -/

section Reading

variable {b : ℕ}

/-- A program that reads from the highest digit on multiplies as it goes. -/
theorem foldl_digits (l : List ℕ) (acc : ℕ) :
    l.foldl (fun r d => r * b + d) acc = acc * b ^ l.length + Nat.ofDigits b l.reverse := by
  induction l generalizing acc with
  | nil => simp
  | cons d l ih =>
    rw [List.foldl_cons, ih, List.reverse_cons, Nat.ofDigits_append, Nat.ofDigits_singleton,
      List.length_cons, List.length_reverse]
    ring

/-- A digit taken from the base's last counts up to the last number of the width. -/
theorem ofDigits_complement {l : List ℕ} (h : Below b l) :
    Nat.ofDigits b (l.map fun d => b - 1 - d) = b ^ l.length - 1 - Nat.ofDigits b l := by
  induction l with
  | nil => simp
  | cons d l ih =>
    rw [below_cons] at h
    have hvalue : Nat.ofDigits b l < b ^ l.length := by
      obtain rfl | hb : b = 1 ∨ 1 < b := by omega
      · have hzero : Nat.ofDigits 1 l = 0 := by
          rw [Nat.ofDigits_one]
          exact List.sum_eq_zero fun d hd => by have := h.2 d hd; omega
        simp [hzero]
      · exact Nat.ofDigits_lt_base_pow_length hb h.2
    have hpow : b * Nat.ofDigits b l + b ≤ b * b ^ l.length := by
      rw [← Nat.mul_succ]
      exact Nat.mul_le_mul_left b hvalue
    have hdiff : b * (b ^ l.length - 1 - Nat.ofDigits b l) =
        b * b ^ l.length - b - b * Nat.ofDigits b l := by
      rw [Nat.mul_sub, Nat.mul_sub, Nat.mul_one]
    rw [List.map_cons, Nat.ofDigits_cons, Nat.ofDigits_cons, ih h.2, hdiff, List.length_cons,
      pow_succ']
    omega

/-- The bits of a number whose upper part is not 0. -/
theorem size_two_pow_mul {k low top : ℕ} (hlow : low < 2 ^ k) (htop : top ≠ 0) :
    (low + 2 ^ k * top).size = k + top.size := by
  refine le_antisymm (Nat.size_le.2 ?_) ?_
  · have htop' : top + 1 ≤ 2 ^ top.size := Nat.lt_size_self top
    have := Nat.mul_le_mul_left (2 ^ k) htop'
    rw [Nat.mul_succ] at this
    rw [pow_add]
    omega
  · obtain ⟨m, hm⟩ : ∃ m, top.size = m + 1 :=
      ⟨top.size - 1, by have := Nat.size_pos.2 (Nat.pos_of_ne_zero htop); omega⟩
    have htop' : 2 ^ m ≤ top := Nat.lt_size.1 (by omega)
    have := Nat.mul_le_mul_left (2 ^ k) htop'
    rw [hm, show k + (m + 1) = (k + m) + 1 by omega]
    refine Nat.lt_size.2 ?_
    rw [pow_add]
    omega

end Reading

/-! ## Groups -/

section Groups

variable {α : Type} {k : ℕ}

/-- A list in groups of `k`, of which the last may be shorter. -/
def groupsOf (k : ℕ) (l : List α) : List (List α) := go l.length l
where
  go : ℕ → List α → List (List α)
    | 0, _ => []
    | fuel + 1, l => if l.isEmpty then [] else l.take k :: go fuel (l.drop k)

/-- The first group, and those of what is left. -/
theorem groupsOf_cons (hk : 0 < k) {l : List α} (h : l ≠ []) :
    groupsOf k l = l.take k :: groupsOf k (l.drop k) := by
  -- fuel that is enough is as good as any that is more
  have hgo : ∀ (fuel : ℕ) (l : List α), l.length ≤ fuel → groupsOf.go k fuel l = groupsOf k l := by
    intro fuel
    induction fuel using Nat.strong_induction_on with
    | _ fuel ih =>
      intro l hl
      rcases fuel with _ | fuel
      · simp [List.eq_nil_of_length_eq_zero (Nat.le_zero.1 hl), groupsOf, groupsOf.go]
      · rcases l with _ | ⟨a, l⟩
        · simp [groupsOf, groupsOf.go]
        · have hdrop : ((a :: l).drop k).length ≤ l.length := by
            rw [List.length_drop, List.length_cons]
            omega
          rw [List.length_cons] at hl
          simp only [groupsOf, groupsOf.go, List.length_cons, List.isEmpty_cons, Bool.false_eq_true,
            if_false]
          rw [ih fuel (by omega) _ (by omega)]
          rcases Nat.lt_or_ge l.length (fuel + 1) with hlt | hge
          · rw [ih l.length hlt _ hdrop]
          · omega
  obtain ⟨a, rest, rfl⟩ := List.exists_cons_of_ne_nil h
  have hdrop : ((a :: rest).drop k).length ≤ rest.length := by
    rw [List.length_drop, List.length_cons]
    omega
  rw [groupsOf, List.length_cons, groupsOf.go, if_neg (by simp), hgo _ _ hdrop]

@[simp] theorem groupsOf_nil : groupsOf k ([] : List α) = [] := rfl

/-- Groups, by what is left behind the first. -/
theorem groups_induction (hk : 0 < k) {p : List α → Prop} (nil : p [])
    (group : ∀ l, l ≠ [] → p (l.drop k) → p l) (l : List α) : p l := by
  induction hn : l.length using Nat.strong_induction_on generalizing l with
  | _ n ih =>
    by_cases hl : l = []
    · exact hl ▸ nil
    · have hlength : (l.drop k).length < n := by
        have := List.length_pos_iff.2 hl
        rw [List.length_drop]
        omega
      exact group l hl (ih _ hlength _ rfl)

theorem groupsOf_flatten (hk : 0 < k) (l : List α) : (groupsOf k l).flatten = l := by
  induction l using groups_induction hk with
  | nil => rfl
  | group l hl ih => rw [groupsOf_cons hk hl, List.flatten_cons, ih, List.take_append_drop]

theorem length_le_of_mem_groupsOf (hk : 0 < k) {l g : List α} (h : g ∈ groupsOf k l) :
    g.length ≤ k := by
  induction l using groups_induction hk with
  | nil => simp at h
  | group l hl ih =>
    rw [groupsOf_cons hk hl, List.mem_cons] at h
    obtain rfl | h := h
    · exact List.length_take_le k l
    · exact ih h

theorem groupsOf_map {β : Type} (hk : 0 < k) (f : α → β) (l : List α) :
    groupsOf k (l.map f) = (groupsOf k l).map (List.map f) := by
  induction l using groups_induction hk with
  | nil => rfl
  | group l hl ih =>
    rw [groupsOf_cons hk (by simpa using hl), groupsOf_cons hk hl, ← List.map_take, ← List.map_drop,
      ih, List.map_cons]

/-- **Digits that are read in groups** are the digits of a larger base. -/
theorem ofDigits_groupsOf (hk : 0 < k) {b : ℕ} (hb : 1 < b) {l : List ℕ} (h : Below b l) :
    Below (b ^ k) ((groupsOf k l).map (Nat.ofDigits b)) ∧
      Nat.ofDigits (b ^ k) ((groupsOf k l).map (Nat.ofDigits b)) = Nat.ofDigits b l := by
  induction l using groups_induction hk with
  | nil => simp
  | group l hl ih =>
    obtain ⟨hbelow, hvalue⟩ := ih (h.drop k)
    have hfirst : Nat.ofDigits b (l.take k) < b ^ k :=
      (Nat.ofDigits_lt_base_pow_length hb (h.take k)).trans_le
        (Nat.pow_le_pow_right (by omega) (List.length_take_le k l))
    rw [groupsOf_cons hk hl, List.map_cons, below_cons, Nat.ofDigits_cons, hvalue]
    refine ⟨⟨hfirst, hbelow⟩, ?_⟩
    rcases Nat.lt_or_ge l.length k with hlt | hge
    · rw [List.drop_eq_nil_of_le hlt.le, List.take_of_length_le hlt.le]
      simp
    · conv_rhs => rw [← List.take_append_drop k l]
      rw [Nat.ofDigits_append, List.length_take_of_le hge]

end Groups

/-! ## Bytes -/

section Bytes

variable {k n : ℕ} {bs bs' : List UInt8}

/-- The number that bytes write, the highest first. -/
def byteValue (bs : List UInt8) : ℕ := Nat.ofDigits 256 (bs.map UInt8.toNat).reverse

/-- **A number in `k` bytes**, the highest first. -/
def toBytes (k n : ℕ) : List UInt8 := ((Nat.digitsAppend 256 k n).map UInt8.ofNat).reverse

@[simp] theorem byteValue_nil : byteValue [] = 0 := rfl

theorem below_bytes (bs : List UInt8) : Below 256 (bs.map UInt8.toNat).reverse := by
  intro d hd
  obtain ⟨b, -, rfl⟩ := List.mem_map.1 (List.mem_reverse.1 hd)
  exact b.toNat_lt

theorem byteValue_append :
    byteValue (bs ++ bs') = byteValue bs * 256 ^ bs'.length + byteValue bs' := by
  rw [byteValue, List.map_append, List.reverse_append, Nat.ofDigits_append, List.length_reverse,
    List.length_map, Nat.add_comm, Nat.mul_comm]
  rfl

theorem byteValue_lt (bs : List UInt8) : byteValue bs < 256 ^ bs.length := by
  have h := Nat.ofDigits_lt_base_pow_length (by norm_num : 1 < 256) (below_bytes bs)
  rwa [List.length_reverse, List.length_map] at h

theorem length_toBytes (h : n < 256 ^ k) : (toBytes k n).length = k := by
  rw [toBytes, List.length_reverse, List.length_map, Nat.length_digitsAppend (by norm_num) k h]

theorem byteValue_toBytes (k n : ℕ) : byteValue (toBytes k n) = n := by
  have hmap : ((Nat.digitsAppend 256 k n).map UInt8.ofNat).map UInt8.toNat =
      Nat.digitsAppend 256 k n := by
    rw [List.map_map]
    refine List.map_congr_left (g := id) (fun d hd => ?_) |>.trans (List.map_id _)
    exact UInt8.toNat_ofNat_of_lt' (Nat.lt_of_mem_digitsAppend (by norm_num) k d hd)
  rw [byteValue, toBytes, List.map_reverse, List.reverse_reverse, hmap, Nat.digitsAppend,
    Nat.ofDigits_append_replicate_zero, Nat.ofDigits_digits]

/-- Bytes are determined by their number and how many they are. -/
theorem byteValue_inj (hlength : bs.length = bs'.length) (h : byteValue bs = byteValue bs') :
    bs = bs' := by
  have hrev := Nat.ofDigits_inj_of_len_eq (by norm_num) (by simpa using hlength) (below_bytes bs)
    (below_bytes bs') h
  exact (List.map_inj_right fun a b hab => UInt8.toNat_inj.1 hab).1 (List.reverse_inj.1 hrev)

theorem toBytes_byteValue (bs : List UInt8) : toBytes bs.length (byteValue bs) = bs :=
  byteValue_inj (length_toBytes (byteValue_lt bs)) (byteValue_toBytes _ _)

end Bytes

end Hmix
