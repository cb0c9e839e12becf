import Hmix.Common.Entries
import Hmix.Model.BigNumber
import Mathlib.Data.Nat.Bitwise
import Mathlib.Data.Int.ModEq
import Mathlib.Tactic.LinearCombination
import Mathlib.Tactic.Ring
import Mathlib.Tactic.NormNum

/-!
# What the words compute

`Means` says of words what number they are for: they are digits in the base
`2 ^ 26`, and there is at least one. An operation is correct when it takes
words that mean one number to words that mean the right one; what `strip` then
leaves is determined by the number alone, so that every operation becomes an
equation between integers.
-/

namespace Hmix

namespace BN

/-- **The words are for the number.** -/
structure Means (words : List ℕ) (n : ℕ) : Prop where
  ne_nil : words ≠ []
  below : Below 0x4000000 words
  value : Nat.ofDigits 0x4000000 words = n

variable {words : List ℕ} {n : ℕ}

theorem means_wordsOf (n : ℕ) : Means (wordsOf n) n := by
  by_cases hn : n = 0
  · subst hn
    exact ⟨by simp [wordsOf], by simp [wordsOf], by simp [wordsOf]⟩
  · refine ⟨?_, ?_, ?_⟩ <;> rw [wordsOf, if_neg hn]
    · exact Nat.digits_ne_nil_iff_ne_zero.2 hn
    · exact below_digits (by norm_num) n
    · exact Nat.ofDigits_digits _ n

@[simp] theorem wordsOf_eq_zero : wordsOf n = [0] ↔ n = 0 := by
  constructor
  · intro h
    have hvalue := (means_wordsOf n).value
    rw [h] at hvalue
    simpa using hvalue.symm
  · rintro rfl
    rfl

/-- **The words that `strip` leaves are the number's.** -/
theorem stripWords_eq (h : Means words n) : stripWords words = wordsOf n := by
  obtain ⟨hne, hbelow, rfl⟩ := h
  obtain ⟨w, ws, rfl⟩ := List.exists_cons_of_ne_nil hne
  rw [below_cons] at hbelow
  -- the zeros that go count for nothing
  obtain ⟨k, hk⟩ : ∃ k, ws = ws.rdropWhile (· == 0) ++ List.replicate k 0 := by
    refine ⟨(ws.rtakeWhile (· == 0)).length, ?_⟩
    conv_lhs => rw [← List.rdropWhile_append_rtakeWhile (p := (· == 0)) (l := ws)]
    congr 1
    refine List.eq_replicate_iff.2 ⟨rfl, fun d hd => ?_⟩
    simpa using List.mem_rtakeWhile_imp hd
  set kept := ws.rdropWhile (· == 0) with hkept
  have hvalue : Nat.ofDigits 0x4000000 (w :: ws) = Nat.ofDigits 0x4000000 (w :: kept) := by
    rw [hk, ← List.cons_append, Nat.ofDigits_append_replicate_zero]
  have hkeptBelow : Below 0x4000000 (w :: kept) := by
    rw [below_cons]
    refine ⟨hbelow.1, ?_⟩
    rw [hk, below_append] at hbelow
    exact hbelow.2.1
  rw [stripWords, ← hkept, hvalue, wordsOf]
  by_cases hkeptNil : kept = []
  · rw [hkeptNil, Nat.ofDigits_singleton]
    split_ifs with hw
    · rw [hw]
    · exact (Nat.digits_of_lt _ w hw hbelow.1).symm
  · have hlast : ∀ h : kept ≠ [], kept.getLast h ≠ 0 := fun h hzero =>
      List.rdropWhile_last_not (p := (· == 0)) (l := ws) h (by simpa using hzero)
    have hdigits : Nat.digits 0x4000000 (Nat.ofDigits 0x4000000 (w :: kept)) = w :: kept := by
      refine Nat.digits_ofDigits _ (by norm_num) _ hkeptBelow fun _ => ?_
      rw [List.getLast_cons hkeptNil]
      exact hlast hkeptNil
    rw [if_neg, hdigits]
    intro hzero
    rw [hzero] at hdigits
    simp at hdigits

theorem strip_eq (negative : Bool) (h : Means words n) :
    strip ⟨negative, words⟩ = ⟨negative && n != 0, wordsOf n⟩ := by
  rw [strip, stripWords_eq h]
  by_cases hn : n = 0
  · simp [hn, wordsOf]
  · have hne : wordsOf n ≠ [0] := fun h => hn (wordsOf_eq_zero.1 h)
    rw [bne_iff_ne.2 hne, bne_iff_ne.2 hn]

/-- What `strip` leaves of a number without a sign. -/
theorem strip_nat (h : Means words n) : strip ⟨false, words⟩ = ofInt n := by
  rw [strip_eq false h]
  simp [ofInt]

@[simp] theorem toInt_ofInt (n : ℤ) : (ofInt n).toInt = n := by
  have hvalue := (means_wordsOf n.natAbs).value
  unfold toInt ofInt
  simp only [hvalue, decide_eq_true_eq]
  split_ifs with h <;> omega

@[simp] theorem ofInt_words_zero (n : ℤ) : (ofInt n).words = [0] ↔ n = 0 := by
  rw [ofInt, wordsOf_eq_zero, Int.natAbs_eq_zero]

/-! ## Adding and multiplying -/

/-- `imuln`: each word leaves a carry below the factor. -/
theorem mulWords_spec {num carry : ℕ} (hnum : 0 < num) (hbase : num ≤ 0x4000000)
    (hcarry : carry < num) {words : List ℕ} (hwords : Below 0x4000000 words) :
    Below 0x4000000 (mulWords num carry words) ∧
      Nat.ofDigits 0x4000000 (mulWords num carry words) =
        Nat.ofDigits 0x4000000 words * num + carry := by
  induction words generalizing carry with
  | nil =>
    rw [mulWords]
    split_ifs with h
    · simp
      omega
    · simp_all
  | cons word words ih =>
    rw [below_cons] at hwords
    have hprod : word * num + carry < 0x4000000 * num := by
      have := Nat.mul_le_mul_right num (Nat.le_sub_one_of_lt hwords.1)
      rw [Nat.sub_mul] at this
      omega
    -- the word and the carry it leaves are the product's halves
    have hsplit : carry / 0x4000000 + word * num / 0x4000000 +
        (word * num % 0x4000000 + carry % 0x4000000) / 0x4000000 =
          (word * num + carry) / 0x4000000 := by omega
    have hlow : (word * num % 0x4000000 + carry % 0x4000000) % 0x4000000 =
        (word * num + carry) % 0x4000000 := by omega
    have hcarry' : (word * num + carry) / 0x4000000 < num :=
      Nat.div_lt_of_lt_mul hprod
    obtain ⟨hbelow, hvalue⟩ := ih hcarry' hwords.2
    simp only [mulWords]
    rw [hsplit, hlow, below_cons, Nat.ofDigits_cons, Nat.ofDigits_cons, hvalue]
    refine ⟨⟨Nat.mod_lt _ (by norm_num), hbelow⟩, ?_⟩
    have := Nat.mod_add_div (word * num + carry) 0x4000000
    rw [Nat.mul_add, Nat.add_mul]
    linarith [Nat.mul_assoc 0x4000000 (Nat.ofDigits 0x4000000 words) num]

/-- `imuln` of words that mean a number. -/
theorem Means.mulWords (h : Means words n) {num : ℕ} (hnum : 0 < num) (hbase : num ≤ 0x4000000) :
    Means (mulWords num 0 words) (n * num) := by
  obtain ⟨hne, hbelow, rfl⟩ := h
  obtain ⟨hbelow', hvalue⟩ := mulWords_spec hnum hbase hnum hbelow
  refine ⟨?_, hbelow', by simpa using hvalue⟩
  obtain ⟨w, ws, rfl⟩ := List.exists_cons_of_ne_nil hne
  simp [BN.mulWords]

/-- The carry of `_iaddn`: only the first word may be too large, and by less than
the base. -/
theorem carryWords_spec {w : ℕ} {ws : List ℕ} (hw : w < 2 * 0x4000000)
    (hws : Below 0x4000000 ws) :
    Below 0x4000000 (carryWords w ws) ∧
      Nat.ofDigits 0x4000000 (carryWords w ws) = Nat.ofDigits 0x4000000 (w :: ws) := by
  induction ws generalizing w with
  | nil =>
    rw [carryWords]
    split_ifs with h
    · rw [Nat.ofDigits_cons, Nat.ofDigits_singleton, Nat.ofDigits_singleton, below_cons,
        below_cons]
      exact ⟨⟨by omega, by norm_num, below_nil⟩, by omega⟩
    · rw [below_cons]
      exact ⟨⟨by omega, below_nil⟩, rfl⟩
  | cons v ws ih =>
    rw [below_cons] at hws
    rw [carryWords]
    split_ifs with h
    · obtain ⟨hbelow, hvalue⟩ := ih (w := v + 1) (by omega) hws.2
      rw [below_cons, Nat.ofDigits_cons, hvalue, Nat.ofDigits_cons, Nat.ofDigits_cons,
        Nat.ofDigits_cons]
      exact ⟨⟨by omega, hbelow⟩, by omega⟩
    · simp only [below_cons]
      exact ⟨⟨by omega, hws⟩, trivial⟩

/-- `_iaddn` of words that mean a number. -/
theorem Means.addWord (h : Means words n) {num : ℕ} (hnum : num < 0x4000000) :
    Means (addWord num words) (n + num) := by
  obtain ⟨hne, hbelow, rfl⟩ := h
  obtain ⟨w, ws, rfl⟩ := List.exists_cons_of_ne_nil hne
  rw [below_cons] at hbelow
  obtain ⟨hbelow', hvalue⟩ := carryWords_spec (w := w + num) (by omega) hbelow.2
  refine ⟨?_, hbelow', ?_⟩
  · cases ws <;> simp only [BN.addWord, carryWords] <;> split_ifs <;> simp
  · rw [BN.addWord, hvalue, Nat.ofDigits_cons, Nat.ofDigits_cons]
    omega

/-! ## Chunks of 24 bits -/

private theorem word_split {off : ℕ} (hoff : off < 26) :
    0x4000000 = 2 ^ off * 2 ^ (26 - off) := by
  rw [← pow_add, show off + (26 - off) = 26 by omega]
  norm_num

/-- A chunk that is shifted: what goes into the word, and what into the next. -/
private theorem shifted_chunk {c w off : ℕ} (hc : c < 2 ^ off) (hw : w < 2 ^ 24) (hoff : off < 26) :
    c ||| (w <<< off) % 0x4000000 = c + 2 ^ off * (w % 2 ^ (26 - off)) ∧
      (w >>> (26 - off)) % 0x4000000 = w / 2 ^ (26 - off) := by
  constructor
  · have hbase := word_split hoff
    have hshift : (w <<< off) % 0x4000000 = 2 ^ off * (w % 2 ^ (26 - off)) := by
      rw [Nat.shiftLeft_eq, Nat.mul_comm, hbase, Nat.mul_mod_mul_left]
    rw [hshift, Nat.or_comm, ← Nat.two_pow_add_eq_or_of_lt hc, Nat.add_comm]
  · rw [Nat.shiftRight_eq_div_pow, Nat.mod_eq_of_lt]
    exact (Nat.div_le_self _ _).trans_lt (by omega)

/-- **The loop over the chunks.** The words before the `j`-th are full, the `j`-th has
`off` bits, and those behind it are still 0. There is room for all chunks. -/
theorem pack_spec (chunks pre : List ℕ) (c z off : ℕ) (hchunks : Below (2 ^ 24) chunks)
    (hpre : Below 0x4000000 pre) (hc : c < 2 ^ off) (hoff : off < 26)
    (hroom : 24 * chunks.length + off ≤ 26 * (z + 1)) :
    Below 0x4000000 (pack (pre ++ c :: List.replicate z 0) chunks pre.length off) ∧
      Nat.ofDigits 0x4000000 (pack (pre ++ c :: List.replicate z 0) chunks pre.length off) =
        Nat.ofDigits 0x4000000 pre +
          0x4000000 ^ pre.length * (c + 2 ^ off * Nat.ofDigits (2 ^ 24) chunks) := by
  induction chunks generalizing pre c z off with
  | nil =>
    have hlt : c < 0x4000000 :=
      hc.trans_le (Nat.pow_le_pow_right (by norm_num) (by omega : off ≤ 26))
    rw [pack, below_append, below_cons, Nat.ofDigits_append, Nat.ofDigits_cons,
      Nat.ofDigits_replicate_zero]
    exact ⟨⟨hpre, hlt, below_replicate_zero (by norm_num) z⟩, by simp⟩
  | cons w chunks ih =>
    rw [below_cons] at hchunks
    rw [List.length_cons] at hroom
    obtain ⟨hlow, hhigh⟩ := shifted_chunk hc hchunks.1 hoff
    rw [pack]
    simp only [modify_length, hlow, hhigh]
    by_cases hfull : 26 ≤ off + 24
    · -- the word is full, and the rest of the chunk begins the next
      have hbase := word_split hoff
      have hfill : c + 2 ^ off * (w % 2 ^ (26 - off)) < 0x4000000 := by
        have : w % 2 ^ (26 - off) + 1 ≤ 2 ^ (26 - off) := Nat.mod_lt _ (by positivity)
        have := Nat.mul_le_mul_left (2 ^ off) this
        rw [Nat.mul_add] at this
        omega
      have hparts := Nat.mod_add_div w (2 ^ (26 - off))
      rw [if_pos hfull]
      obtain rfl | ⟨z, rfl⟩ : z = 0 ∨ ∃ z', z = z' + 1 := by
        cases z <;> simp
      · obtain rfl : off = 2 := by omega
        obtain rfl : chunks = [] := List.eq_nil_of_length_eq_zero (by omega)
        have hw : w < 2 ^ (26 - 2) := hchunks.1
        rw [List.replicate_zero, modify_behind, pack, below_append, below_cons,
          Nat.ofDigits_append, Nat.ofDigits_singleton, Nat.ofDigits_singleton, Nat.mod_eq_of_lt hw]
        rw [Nat.mod_eq_of_lt hw] at hfill
        exact ⟨⟨hpre, hfill, below_nil⟩, rfl⟩
      · rw [List.replicate_succ, modify_length_succ, Nat.zero_or,
          show off + 24 - 26 = off - 2 by omega]
        have hnext : w / 2 ^ (26 - off) < 2 ^ (off - 2) := by
          rw [Nat.div_lt_iff_lt_mul (by positivity), ← pow_add,
            show off - 2 + (26 - off) = 24 by omega]
          exact hchunks.1
        have hpre' : Below 0x4000000 (pre ++ [c + 2 ^ off * (w % 2 ^ (26 - off))]) := by
          simp only [below_append, below_cons, below_nil, and_true]
          exact ⟨hpre, hfill⟩
        obtain ⟨hbelow, hvalue⟩ := ih _ _ z _ hchunks.2 hpre' hnext (by omega) (by omega)
        simp only [List.length_append, List.length_singleton, List.append_assoc,
          List.singleton_append] at hbelow hvalue
        refine ⟨hbelow, ?_⟩
        rw [hvalue, Nat.ofDigits_append, Nat.ofDigits_singleton, Nat.ofDigits_cons, pow_succ]
        have hnextWord : 0x4000000 * (w / 2 ^ (26 - off)) =
            2 ^ off * (2 ^ (26 - off) * (w / 2 ^ (26 - off))) := by
          rw [hbase, Nat.mul_assoc]
        have hrest : 0x4000000 * 2 ^ (off - 2) = 2 ^ off * 2 ^ 24 := by
          rw [show 0x4000000 = 2 ^ 26 by norm_num, ← pow_add, ← pow_add,
            show 26 + (off - 2) = off + 24 by omega]
        calc Nat.ofDigits 0x4000000 pre
              + 0x4000000 ^ pre.length * (c + 2 ^ off * (w % 2 ^ (26 - off)))
              + 0x4000000 ^ pre.length * 0x4000000 *
                (w / 2 ^ (26 - off) + 2 ^ (off - 2) * Nat.ofDigits (2 ^ 24) chunks)
            = Nat.ofDigits 0x4000000 pre + 0x4000000 ^ pre.length *
                (c + 2 ^ off * (w % 2 ^ (26 - off)) + 0x4000000 * (w / 2 ^ (26 - off)) +
                  0x4000000 * 2 ^ (off - 2) * Nat.ofDigits (2 ^ 24) chunks) := by ring
          _ = Nat.ofDigits 0x4000000 pre + 0x4000000 ^ pre.length *
                (c + 2 ^ off * (w % 2 ^ (26 - off) + 2 ^ (26 - off) * (w / 2 ^ (26 - off))) +
                  2 ^ off * 2 ^ 24 * Nat.ofDigits (2 ^ 24) chunks) := by
              rw [hnextWord, hrest]; ring
          _ = _ := by rw [hparts]; ring
    · -- the chunk fits
      have hsmall : w < 2 ^ (26 - off) :=
        hchunks.1.trans_le (Nat.pow_le_pow_right (by norm_num) (by omega))
      have hc' : c + 2 ^ off * w < 2 ^ (off + 24) := by
        have : w + 1 ≤ 2 ^ 24 := hchunks.1
        have := Nat.mul_le_mul_left (2 ^ off) this
        rw [Nat.mul_add] at this
        rw [pow_add]
        omega
      have hkeep : (pre ++ (c + 2 ^ off * w) :: List.replicate z 0).modify (pre.length + 1)
          (· ||| 0) = pre ++ (c + 2 ^ off * w) :: List.replicate z 0 := by
        cases z with
        | zero => exact modify_behind _ _ _
        | succ z => rw [List.replicate_succ, modify_length_succ, Nat.or_zero]
      rw [if_neg hfull, Nat.mod_eq_of_lt hsmall, Nat.div_eq_of_lt hsmall, hkeep]
      obtain ⟨hbelow, hvalue⟩ := ih _ _ z _ hchunks.2 hpre hc' (by omega) (by omega)
      refine ⟨hbelow, ?_⟩
      rw [hvalue, Nat.ofDigits_cons, pow_add]
      ring

/-- All chunks, into words that are all 0. -/
theorem pack_means {chunks : List ℕ} (hchunks : Below (2 ^ 24) chunks) (hne : chunks ≠ []) :
    Means (pack (List.replicate chunks.length 0) chunks 0 0)
      (Nat.ofDigits (2 ^ 24) chunks) := by
  obtain ⟨z, hz⟩ : ∃ z, chunks.length = z + 1 :=
    ⟨chunks.length - 1, by have := List.length_pos_iff.2 hne; omega⟩
  have h := pack_spec chunks [] 0 z 0 hchunks below_nil (by norm_num) (by norm_num) (by omega)
  rw [hz, List.replicate_succ]
  simp only [List.nil_append, List.length_nil, Nat.ofDigits_nil, pow_zero, one_mul, zero_add] at h
  refine ⟨?_, h.1, h.2⟩
  -- a list that is empty has no room for the word that was there
  have hlength : ∀ (chunks words : List ℕ) (j off : ℕ),
      (pack words chunks j off).length = words.length := by
    intro chunks
    induction chunks with
    | nil => intros; rfl
    | cons w chunks ih =>
      intro words j off
      rw [pack]
      split_ifs <;> simp [ih]
  exact List.ne_nil_of_length_pos (by rw [hlength]; simp)

/-! ## Bytes and digits that are read -/

/-- A byte's chunks are the byte string. -/
theorem byteChunks_spec (bytes : List UInt8) :
    Below (2 ^ 24) (byteChunks bytes) ∧
      Nat.ofDigits (2 ^ 24) (byteChunks bytes) = Nat.ofDigits 256 (bytes.map UInt8.toNat) := by
  have hor8 (a : UInt8) (n : ℕ) : a.toNat ||| n <<< 8 = a.toNat + 256 * n := by
    rw [Nat.shiftLeft_eq, Nat.or_comm, Nat.mul_comm,
      ← Nat.two_pow_add_eq_or_of_lt (i := 8) a.toNat_lt n, Nat.add_comm]
  fun_induction byteChunks bytes with
  | case1 a b c rest ih =>
    have h3 : a.toNat ||| b.toNat <<< 8 ||| c.toNat <<< 16 =
        a.toNat + 256 * (b.toNat + 256 * c.toNat) := by
      rw [Nat.or_assoc, show 16 = 8 + 8 by rfl, Nat.shiftLeft_add, ← Nat.shiftLeft_or_distrib,
        hor8 a, hor8 b]
    have ha := a.toNat_lt
    have hb := b.toNat_lt
    have hc := c.toNat_lt
    rw [h3, below_cons, Nat.ofDigits_cons, ih.2]
    simp only [List.map_cons, Nat.ofDigits_cons]
    exact ⟨⟨by omega, ih.1⟩, by omega⟩
  | case2 a b =>
    have ha := a.toNat_lt
    have hb := b.toNat_lt
    rw [hor8, below_cons]
    simp only [List.map_cons, List.map_nil, Nat.ofDigits_cons, Nat.ofDigits_nil]
    exact ⟨⟨by omega, below_nil⟩, by omega⟩
  | case3 a =>
    have ha := a.toNat_lt
    rw [below_cons]
    simp only [List.map_cons, List.map_nil, Nat.ofDigits_cons, Nat.ofDigits_nil]
    exact ⟨⟨by omega, below_nil⟩, by omega⟩
  | case4 => simp

/-- **`new BN(bytes)`** is the number the bytes write, the highest first. -/
theorem initArray_eq (bytes : List UInt8) : initArray bytes = ofInt (byteValue bytes) := by
  rw [initArray]
  split_ifs with h
  · subst h
    rfl
  · obtain ⟨hbelow, hvalue⟩ := byteChunks_spec bytes.reverse
    have hne : byteChunks bytes.reverse ≠ [] := by
      have : bytes.reverse ≠ [] := by simpa using h
      generalize bytes.reverse = l at this
      unfold byteChunks
      split <;> simp_all
    rw [strip_nat (pack_means hbelow hne), hvalue, byteValue, List.map_reverse]

/-! ## Text that is read -/

/-- The text is digits of the base. -/
def Numerals (b : ℕ) (text : Units) : Prop := ∀ u ∈ text, unit '0' ≤ u ∧ digitValue u < b

theorem Numerals.below {b : ℕ} {text : Units} (h : Numerals b text) :
    Below b (text.map digitValue) := by
  intro d hd
  obtain ⟨u, hu, rfl⟩ := List.mem_map.1 hd
  exact (h u hu).2

theorem Numerals.reverse {b : ℕ} {text : Units} (h : Numerals b text) : Numerals b text.reverse :=
  fun u hu => h u (List.mem_reverse.1 hu)

/-- The number that digits write. -/
def textValue (b : ℕ) (text : Units) : ℕ := Nat.ofDigits b (text.map digitValue).reverse

theorem foldl_text (b : ℕ) (text : Units) (acc : ℕ) :
    text.foldl (fun r u => r * b + digitValue u) acc =
      acc * b ^ text.length + textValue b text := by
  have h := foldl_digits (b := b) (text.map digitValue) acc
  rwa [List.foldl_map, List.length_map] at h

theorem textValue_append (b : ℕ) (text text' : Units) :
    textValue b (text ++ text') = textValue b text * b ^ text'.length + textValue b text' := by
  rw [textValue, List.map_append, List.reverse_append, Nat.ofDigits_append, List.length_reverse,
    List.length_map, Nat.add_comm, Nat.mul_comm]
  rfl

theorem textValue_lt {b : ℕ} (hb : 1 < b) {text : Units} (h : Numerals b text) :
    textValue b text < b ^ text.length := by
  have hlt := Nat.ofDigits_lt_base_pow_length hb h.below.reverse
  rwa [List.length_reverse, List.length_map] at hlt

/-- Digits of 4 bits are shifted in. -/
theorem parseHex_eq {text : Units} (h : Numerals 16 text) : parseHex text = textValue 16 text := by
  have hstep : ∀ acc, text.foldl (fun r u => (r <<< 4) ||| digitValue u) acc =
      text.foldl (fun r u => r * 16 + digitValue u) acc := by
    induction text with
    | nil => exact fun _ => rfl
    | cons u text ih =>
      intro acc
      have hu := (h u (by simp)).2
      have hor : (acc <<< 4) ||| digitValue u = acc * 16 + digitValue u := by
        rw [Nat.shiftLeft_eq, Nat.mul_comm acc, ← Nat.two_pow_add_eq_or_of_lt (i := 4) hu]
      rw [List.foldl_cons, List.foldl_cons, hor, ih fun v hv => h v (by simp [hv])]
  rw [parseHex, hstep, foldl_text]
  omega

/-- Digits of a group are digits. -/
theorem digits_of_mem_groupsOf {b k : ℕ} (hk : 0 < k) {text group : Units}
    (hgroup : group ∈ groupsOf k text) (h : Numerals b text) : Numerals b group := by
  intro u hu
  refine h u ?_
  rw [← groupsOf_flatten hk text]
  exact List.mem_flatten.2 ⟨group, hgroup, hu⟩

/-- **Hexadecimal text** is read six digits at a time, from the end. -/
theorem parseHexWords_eq {text : Units} (hne : text ≠ []) (h : Numerals 16 text) :
    parseHexWords text = wordsOf (textValue 16 text) := by
  have hchunks : (groupsOf 6 text.reverse).map (fun group => parseHex group.reverse) =
      (groupsOf 6 (text.reverse.map digitValue)).map (Nat.ofDigits 16) := by
    rw [groupsOf_map (by norm_num), List.map_map]
    refine List.map_congr_left fun group hgroup => ?_
    have hdigits := digits_of_mem_groupsOf (by norm_num) hgroup h.reverse
    rw [parseHex_eq hdigits.reverse, textValue, List.map_reverse, List.reverse_reverse]
    rfl
  obtain ⟨hbelow, hvalue⟩ := ofDigits_groupsOf (by norm_num : 0 < 6) (by norm_num) h.reverse.below
  have hnonempty : (groupsOf 6 (text.reverse.map digitValue)).map (Nat.ofDigits 16) ≠ [] := by
    rw [groupsOf_cons (by norm_num) (by simpa using hne)]
    simp
  rw [show 16 ^ 6 = 2 ^ 24 by norm_num] at hbelow hvalue
  rw [parseHexWords, hchunks, stripWords_eq (pack_means hbelow hnonempty), hvalue, textValue,
    List.map_reverse]

/-- **Decimal text** is read seven digits at a time, from the front. -/
theorem parseBaseWords_means {text : Units} (h : Numerals 10 text) :
    Means (parseBaseWords text) (textValue 10 text) := by
  -- the groups that were read mean what they write
  have hgroups : ∀ (groups : List Units) (words : List ℕ) (n : ℕ), Means words n →
      (∀ group ∈ groups, group.length ≤ 7 ∧ Numerals 10 group) →
      Means (groups.foldl (fun words group =>
          addWord (parseBase group) (mulWords (10 ^ group.length) 0 words)) words)
        (n * 10 ^ groups.flatten.length + textValue 10 groups.flatten) := by
    intro groups
    induction groups with
    | nil => intro words n hwords _; simpa [textValue] using hwords
    | cons group groups ih =>
      intro words n hwords hall
      obtain ⟨hlength, hdigits⟩ := hall group (by simp)
      have hvalue : parseBase group = textValue 10 group := by
        rw [parseBase, foldl_text]
        omega
      have hpow : 10 ^ group.length ≤ 10 ^ 7 := Nat.pow_le_pow_right (by norm_num) hlength
      have hsmall : parseBase group < 0x4000000 := by
        have := textValue_lt (by norm_num) hdigits
        omega
      have hpos : 0 < 10 ^ group.length := Nat.pow_pos (by norm_num)
      have hnext := (hwords.mulWords hpos (by omega)).addWord hsmall
      have hrest := ih _ _ hnext fun g hg => hall g (by simp [hg])
      rw [List.foldl_cons, List.flatten_cons, textValue_append, List.length_append, pow_add]
      rw [hvalue] at hrest ⊢
      convert hrest using 1
      ring
  have hzero : Means [0] 0 := means_wordsOf 0
  have hall := hgroups (groupsOf 7 text) [0] 0 hzero fun group hgroup =>
    ⟨length_le_of_mem_groupsOf (by norm_num) hgroup,
      digits_of_mem_groupsOf (by norm_num) hgroup h⟩
  rw [groupsOf_flatten (by norm_num), Nat.zero_mul, Nat.zero_add] at hall
  exact hall

/-- `new BN(digits, 16)`. -/
theorem ofText_hex {text : Units} (hne : text ≠ []) (h : Numerals 16 text) :
    ofText text 16 = ofInt (textValue 16 text) := by
  obtain ⟨u, rest, rfl⟩ := List.exists_cons_of_ne_nil hne
  have hsign : u ≠ unit '-' := fun hu => absurd (h u (by simp)).1 (by rw [hu]; decide)
  have hhead : ((u :: rest).head? = some (unit '-')) ↔ False := by simpa using hsign
  simp only [ofText, hhead, decide_false, if_false, if_true]
  have hmeans := means_wordsOf (textValue 16 (u :: rest))
  rw [← parseHexWords_eq hne h] at hmeans
  exact strip_nat hmeans

/-- `new BN(digits, 10)`, without a sign. -/
theorem ofText_decimal {text : Units} (h : Numerals 10 text) :
    ofText text 10 = ofInt (textValue 10 text) := by
  have hhead : (text.head? = some (unit '-')) ↔ False := by
    refine iff_false_intro fun hu => ?_
    exact absurd (h _ (List.mem_of_mem_head? hu)).1 (by decide)
  simp only [ofText, hhead, decide_false, if_false]
  exact strip_nat (parseBaseWords_means h)

/-- `new BN(digits, 10)`, with one. -/
theorem ofText_minus {text : Units} (h : Numerals 10 text) :
    ofText (unit '-' :: text) 10 = ofInt (-(textValue 10 text : ℤ)) := by
  simp only [ofText, List.head?_cons, decide_true, if_true, List.tail_cons]
  rw [if_neg (by norm_num), strip_eq true (parseBaseWords_means h)]
  rcases Nat.eq_zero_or_pos (textValue 10 text) with hzero | hpos
  · rw [hzero]
    rfl
  · have hne : textValue 10 text ≠ 0 := by omega
    simp [ofInt, hne, hpos]

/-! ## Dividing, and text that is written -/

/-- `modn`. -/
theorem modn_eq (num : ℕ) (words : List ℕ) :
    modn num words = Nat.ofDigits 0x4000000 words % num := by
  rw [modn, List.foldl_reverse]
  induction words with
  | nil => simp
  | cons w words ih =>
    rw [List.foldr_cons, ih, Nat.ofDigits_cons, Nat.add_comm w,
      show 2 ^ 26 = 0x4000000 by norm_num, Nat.add_mod, ← Nat.mul_mod, ← Nat.add_mod]

/-- `idivn`: the quotients are words, and the carry is what is left. -/
theorem divWords_spec {num : ℕ} (hnum : 0 < num) {words : List ℕ} (h : Below 0x4000000 words) :
    Below 0x4000000 (divWords num words).1 ∧
      Nat.ofDigits 0x4000000 (divWords num words).1 = Nat.ofDigits 0x4000000 words / num ∧
      (divWords num words).2 = Nat.ofDigits 0x4000000 words % num := by
  induction words with
  | nil => simp [divWords]
  | cons w words ih =>
    rw [below_cons] at h
    obtain ⟨hbelow, hvalue, hcarry⟩ := ih h.2
    have hlt := Nat.mod_lt (Nat.ofDigits 0x4000000 words) hnum
    have hdivmod := Nat.div_add_mod (Nat.ofDigits 0x4000000 words) num
    rw [Nat.ofDigits_cons]
    simp only [divWords]
    rw [below_cons, Nat.ofDigits_cons, hvalue, hcarry]
    set q := Nat.ofDigits 0x4000000 words / num
    set r := Nat.ofDigits 0x4000000 words % num
    have hsum : w + 0x4000000 * Nat.ofDigits 0x4000000 words =
        w + r * 0x4000000 + num * (0x4000000 * q) := by
      rw [← hdivmod]
      ring
    refine ⟨⟨?_, hbelow⟩, ?_, ?_⟩
    · rw [Nat.div_lt_iff_lt_mul hnum]
      have : (r + 1) * 0x4000000 ≤ num * 0x4000000 := Nat.mul_le_mul_right _ hlt
      linarith
    · rw [hsum, Nat.add_mul_div_left _ _ hnum]
    · rw [hsum, Nat.add_mul_mod_self_left]

theorem idivn_wordsOf {num : ℕ} (hnum : 0 < num) (n : ℕ) :
    idivn num (wordsOf n) = wordsOf (n / num) := by
  obtain ⟨hne, hbelow, hvalue⟩ := means_wordsOf n
  obtain ⟨hbelow', hvalue', -⟩ := divWords_spec hnum hbelow
  refine stripWords_eq ⟨?_, hbelow', by rw [hvalue', hvalue]⟩
  obtain ⟨w, ws, hw⟩ := List.exists_cons_of_ne_nil hne
  rw [hw]
  simp [divWords]

@[simp] theorem modn_wordsOf (num n : ℕ) : modn num (wordsOf n) = n % num := by
  rw [modn_eq, (means_wordsOf n).value]

/-- Seven digits, and those before them. -/
theorem decimal_split {n : ℕ} (h : 0 < n / 10000000) :
    decimal n = decimal (n / 10000000) ++
      (List.replicate (7 - (decimal (n % 10000000)).length) (unit '0') ++
        decimal (n % 10000000)) := by
  set q := n / 10000000
  set r := n % 10000000 with hr
  have hlength : (Nat.digits 10 r).length ≤ 7 := by
    rw [Nat.digits_length_le_iff (by norm_num)]
    exact Nat.mod_lt _ (by norm_num)
  have hdigits : Nat.digits 10 n =
      Nat.digits 10 r ++ List.replicate (7 - (Nat.digits 10 r).length) 0 ++ Nat.digits 10 q := by
    rw [Nat.digits_append_zeroes_append_digits (by norm_num) h, Nat.add_sub_cancel' hlength]
    congr 1
    exact (Nat.mod_add_div n 10000000).symm
  have hn : n ≠ 0 := by
    rintro rfl
    simp [q] at h
  have hzeros (k : ℕ) : ((List.replicate k 0).map digitUnit).reverse =
      List.replicate k (unit '0') := by
    rw [List.map_replicate, List.reverse_replicate]
    rfl
  have hout : decimal n = decimal q ++ (List.replicate (7 - (Nat.digits 10 r).length) (unit '0') ++
      ((Nat.digits 10 r).map digitUnit).reverse) := by
    rw [decimal, if_neg hn, decimal, if_neg (by omega), hdigits, List.map_append, List.map_append,
      List.reverse_append, List.reverse_append, hzeros]
  rw [hout]
  congr 1
  -- zero has a digit of its own
  by_cases hzero : r = 0
  · rw [hzero]
    rfl
  · rw [decimal, if_neg hzero, List.length_reverse, List.length_map]

/-- `toString(10)` in groups. -/
theorem decimalGroups_eq {fuel n : ℕ} (h : n < 10 ^ (7 * fuel)) (out : Units) :
    decimalGroups fuel (wordsOf n) out = if n = 0 then out else decimal n ++ out := by
  induction fuel generalizing n out with
  | zero =>
    obtain rfl : n = 0 := by simpa using h
    simp [decimalGroups]
  | succ fuel ih =>
    have hrest : n / 10000000 < 10 ^ (7 * fuel) := by
      rw [Nat.div_lt_iff_lt_mul (by norm_num), show 10000000 = 10 ^ 7 by norm_num, ← pow_add]
      exact h
    rw [decimalGroups]
    simp only [wordsOf_eq_zero, modn_wordsOf, idivn_wordsOf (by norm_num : 0 < 10000000)]
    split_ifs with hn hq
    · rfl
    · rw [ih hrest, if_pos hq]
      have : n < 10000000 := by omega
      rw [Nat.mod_eq_of_lt this]
    · rw [ih hrest, if_neg hq, decimal_split (Nat.pos_of_ne_zero hq)]
      simp

/-- **`toString(10)`** writes the number. -/
theorem toText_ofInt (n : ℤ) :
    (ofInt n).toText = if n < 0 then unit '-' :: decimal n.natAbs else decimal n.natAbs := by
  have hfuel : n.natAbs < 10 ^ (7 * (2 * (wordsOf n.natAbs).length)) := by
    have hlt := Nat.ofDigits_lt_base_pow_length (by norm_num) (means_wordsOf n.natAbs).below
    rw [(means_wordsOf n.natAbs).value] at hlt
    refine hlt.trans_le ?_
    rw [show 7 * (2 * (wordsOf n.natAbs).length) = 14 * (wordsOf n.natAbs).length by ring, pow_mul]
    exact Nat.pow_le_pow_left (by norm_num) _
  have hout := decimalGroups_eq hfuel []
  simp only [toText, ofInt, hout, wordsOf_eq_zero, decide_eq_true_eq]
  by_cases hzero : n.natAbs = 0
  · simp [hzero, decimal]
  · simp [hzero]

/-! ## The round trip of text -/

theorem digitValue_digitUnit {d : ℕ} (h : d < 16) : digitValue (digitUnit d) = d := by
  interval_cases d <;> decide

/-- What `String(n)` writes is digits, and they write `n`. -/
theorem decimal_spec (n : ℕ) : Numerals 10 (decimal n) ∧ textValue 10 (decimal n) = n := by
  have hdigits (d : ℕ) (h : d < 10) : unit '0' ≤ digitUnit d := by
    interval_cases d <;> decide
  unfold decimal
  split_ifs with hn
  · subst hn
    refine ⟨fun u hu => ?_, rfl⟩
    rw [List.mem_singleton.1 hu]
    decide
  · constructor
    · intro u hu
      obtain ⟨d, hd, rfl⟩ := List.mem_map.1 (List.mem_reverse.1 hu)
      have hlt : d < 10 := Nat.digits_lt_base (by norm_num) hd
      exact ⟨hdigits d hlt, by rw [digitValue_digitUnit (by omega)]; exact hlt⟩
    · have hmap : ((Nat.digits 10 n).map digitUnit).map digitValue = Nat.digits 10 n := by
        rw [List.map_map]
        refine List.map_congr_left (g := id) (fun d hd => ?_) |>.trans (List.map_id _)
        have hlt : d < 10 := Nat.digits_lt_base (by norm_num) hd
        exact digitValue_digitUnit (by omega)
      rw [textValue, List.map_reverse, List.reverse_reverse, hmap, Nat.ofDigits_digits]

/-- **What is written is read back**: `new BN(value.toString(10))`. -/
theorem ofText_toText (n : ℤ) : ofText (ofInt n).toText 10 = ofInt n := by
  obtain ⟨hdigits, hvalue⟩ := decimal_spec n.natAbs
  rw [toText_ofInt]
  split_ifs with h
  · rw [ofText_minus hdigits, hvalue, Int.ofNat_natAbs_of_nonpos h.le, Int.neg_neg]
  · rw [ofText_decimal hdigits, hvalue, Int.natAbs_of_nonneg (by omega)]

/-! ## Bits -/

/-- The loop of `iushrn`: the words are shifted, and the carry is what falls out. -/
theorem shiftWords_spec {r : ℕ} (hr : r < 26) {words : List ℕ} (h : Below 0x4000000 words) :
    Below 0x4000000 (shiftWords r words).1 ∧
      Nat.ofDigits 0x4000000 (shiftWords r words).1 = Nat.ofDigits 0x4000000 words / 2 ^ r ∧
      (shiftWords r words).2 = Nat.ofDigits 0x4000000 words % 2 ^ r := by
  have hbase := word_split hr
  induction words with
  | nil => simp [shiftWords]
  | cons w words ih =>
    rw [below_cons] at h
    obtain ⟨hbelow, hvalue, hcarry⟩ := ih h.2
    have hdivmod := Nat.div_add_mod (Nat.ofDigits 0x4000000 words) (2 ^ r)
    have hlt := Nat.mod_lt (Nat.ofDigits 0x4000000 words) (by positivity : 2 ^ r > 0)
    have hshift : w >>> r < 2 ^ (26 - r) := by
      rw [Nat.shiftRight_eq_div_pow, Nat.div_lt_iff_lt_mul (by positivity), Nat.mul_comm, ← hbase]
      exact h.1
    rw [Nat.ofDigits_cons]
    simp only [shiftWords]
    rw [below_cons, Nat.ofDigits_cons, hvalue, hcarry, Nat.shiftLeft_eq,
      Nat.mul_comm _ (2 ^ (26 - r)), ← Nat.two_pow_add_eq_or_of_lt hshift,
      Nat.shiftRight_eq_div_pow]
    rw [Nat.shiftRight_eq_div_pow] at hshift
    set q := Nat.ofDigits 0x4000000 words / 2 ^ r
    set c := Nat.ofDigits 0x4000000 words % 2 ^ r
    have hsum : w + 0x4000000 * Nat.ofDigits 0x4000000 words =
        w + 2 ^ r * (2 ^ (26 - r) * c + 0x4000000 * q) := by
      rw [← hdivmod, hbase]
      ring
    refine ⟨⟨?_, hbelow⟩, ?_, ?_⟩
    · have := Nat.mul_le_mul_left (2 ^ (26 - r)) (hlt : c + 1 ≤ 2 ^ r)
      rw [Nat.mul_comm (2 ^ (26 - r)) (2 ^ r), ← hbase, Nat.mul_succ] at this
      omega
    · rw [hsum, Nat.add_mul_div_left _ _ (by positivity)]
      ring
    · rw [hsum, Nat.add_mul_mod_self_left]

/-- `iushrn`. -/
theorem iushrn_wordsOf (bits n : ℕ) : iushrn bits (wordsOf n) = wordsOf (n / 2 ^ bits) := by
  obtain ⟨hne, hbelow, hvalue⟩ := means_wordsOf n
  have hr : bits % 26 < 26 := Nat.mod_lt _ (by norm_num)
  have hsplit : n / 2 ^ bits = n / 0x4000000 ^ (bits / 26) / 2 ^ (bits % 26) := by
    rw [Nat.div_div_eq_div_mul, show 0x4000000 = 2 ^ 26 by norm_num, ← pow_mul, ← pow_add,
      Nat.div_add_mod]
  have hdrop : n / 0x4000000 ^ (bits / 26) =
      Nat.ofDigits 0x4000000 ((wordsOf n).drop (bits / 26)) := by
    conv_lhs => rw [← hvalue]
    exact Nat.ofDigits_div_pow_eq_ofDigits_drop _ (by norm_num) _ hbelow
  -- the words that are left mean the quotient by whole words
  have hrest : Means
      (if min (bits / 26) (wordsOf n).length < (wordsOf n).length
        then (wordsOf n).drop (min (bits / 26) (wordsOf n).length) else [0])
      (n / 0x4000000 ^ (bits / 26)) := by
    rw [hdrop]
    rcases Nat.lt_or_ge (bits / 26) (wordsOf n).length with hlt | hge
    · rw [Nat.min_eq_left hlt.le, if_pos hlt]
      exact ⟨by simp [hlt], hbelow.drop _, rfl⟩
    · rw [Nat.min_eq_right hge, if_neg (by simp), List.drop_eq_nil_of_le hge]
      exact means_wordsOf 0
  obtain ⟨hne', hbelow', hvalue'⟩ := hrest
  obtain ⟨hshifted, hshiftedValue, -⟩ := shiftWords_spec hr hbelow'
  rw [hsplit]
  refine stripWords_eq ⟨?_, hshifted, by rw [hshiftedValue, hvalue']⟩
  obtain ⟨w, ws, hw⟩ := List.exists_cons_of_ne_nil hne'
  rw [hw]
  simp [shiftWords]

/-- The bytes, from the lowest. -/
theorem bytesOf_eq {fuel n : ℕ} (h : n < 256 ^ fuel) :
    bytesOf fuel (wordsOf n) = (Nat.digits 256 n).map UInt8.ofNat := by
  induction fuel generalizing n with
  | zero =>
    obtain rfl : n = 0 := by simpa using h
    simp [bytesOf]
  | succ fuel ih =>
    rw [bytesOf]
    simp only [wordsOf_eq_zero]
    split_ifs with hn
    · simp [hn]
    · have hrest : n / 256 < 256 ^ fuel := by
        rw [Nat.div_lt_iff_lt_mul (by norm_num), ← pow_succ]
        exact h
      have hlow : (wordsOf n).headD 0 &&& 0xff = n % 256 := by
        have hvalue := (means_wordsOf n).value
        obtain ⟨w, ws, hw⟩ := List.exists_cons_of_ne_nil (means_wordsOf n).ne_nil
        rw [hw, Nat.ofDigits_cons] at hvalue
        rw [hw, List.headD_cons, show 0xff = 2 ^ 8 - 1 by norm_num, Nat.and_two_pow_sub_one_eq_mod]
        omega
      rw [hlow, iushrn_wordsOf, show 2 ^ 8 = 256 by norm_num, ih hrest,
        Nat.digits_def' (by norm_num) (Nat.pos_of_ne_zero hn), List.map_cons]

/-- `bitLength`. -/
theorem bitLength_wordsOf (n : ℕ) : bitLength (wordsOf n) = n.size := by
  by_cases hn : n = 0
  · subst hn
    decide
  · have hne : Nat.digits 0x4000000 n ≠ [] := Nat.digits_ne_nil_iff_ne_zero.2 hn
    have htop := Nat.getLast_digit_ne_zero 0x4000000 hn
    have hvalue := Nat.ofDigits_digits 0x4000000 n
    have hsplit := List.dropLast_append_getLast hne
    have hlow := Nat.ofDigits_lt_base_pow_length (b := 0x4000000) (by norm_num)
      fun d hd => below_digits (by norm_num) n d (List.mem_of_mem_dropLast hd)
    have hpow (m : ℕ) : 0x4000000 ^ m = 2 ^ (m * 26) := by
      rw [show 0x4000000 = 2 ^ 26 by norm_num, ← pow_mul, Nat.mul_comm]
    rw [← hsplit, Nat.ofDigits_append, Nat.ofDigits_singleton, hpow] at hvalue
    rw [hpow] at hlow
    have hsize := size_two_pow_mul hlow htop
    rw [hvalue, List.length_dropLast] at hsize
    rw [bitLength, wordsOf, if_neg hn, List.getLastD_eq_getLast?,
      List.getLast?_eq_getLast_of_ne_nil hne, Option.getD_some, hsize]

/-- **`toArrayLike`**: the number in that many bytes, if it fits. -/
theorem toArrayLike_ofInt (n k : ℕ) :
    (ofInt n).toArrayLike k = if n < 256 ^ k then some (toBytes k n) else none := by
  have hfit : k < byteLength (wordsOf n) ↔ ¬ n < 256 ^ k := by
    rw [byteLength, bitLength_wordsOf, show 256 = 2 ^ 8 by norm_num, ← pow_mul, Nat.not_lt,
      ← Nat.lt_size]
    omega
  have hwords : (ofInt n).words = wordsOf n := rfl
  have hfuel : n < 256 ^ (4 * (wordsOf n).length) := by
    have hlt := Nat.ofDigits_lt_base_pow_length (by norm_num) (means_wordsOf n).below
    rw [(means_wordsOf n).value] at hlt
    refine hlt.trans_le ?_
    rw [pow_mul]
    exact Nat.pow_le_pow_left (by norm_num) _
  rw [toArrayLike, hwords, bytesOf_eq hfuel]
  simp only [hfit]
  split_ifs with h
  · rw [toBytes, Nat.digitsAppend, List.map_append, List.reverse_append, List.map_replicate,
      List.reverse_replicate, List.length_map]
    rfl
  · rfl

/-- A word of the number. -/
theorem getElem?_wordsOf (n i : ℕ) :
    ((wordsOf n)[i]?).getD 0 = n / 0x4000000 ^ i % 0x4000000 := by
  by_cases hn : n = 0
  · subst hn
    rcases i with _ | i <;> simp [wordsOf]
  · rw [wordsOf, if_neg hn, ← List.getD_eq_getElem?_getD, Nat.getD_digits n i (by norm_num)]

/-- `testn`. -/
theorem testn_ofInt (n bit : ℕ) : (ofInt n).testn bit = n.testBit bit := by
  have hword := getElem?_wordsOf n (bit / 26)
  have hbit : n.testBit bit = (n / 0x4000000 ^ (bit / 26) % 0x4000000).testBit (bit % 26) := by
    rw [show 0x4000000 = 2 ^ 26 by norm_num, ← pow_mul, Nat.testBit_mod_two_pow,
      Nat.testBit_div_two_pow, Nat.mod_add_div]
    simp [Nat.mod_lt]
  rw [testn, show (ofInt n).words = wordsOf n from rfl, hbit, ← hword]
  cases (wordsOf n)[bit / 26]? with
  | none => simp
  | some w =>
    show (w &&& 1 <<< (bit % 26) != 0) = w.testBit (bit % 26)
    rw [Nat.shiftLeft_eq, Nat.one_mul, Nat.and_two_pow]
    cases w.testBit (bit % 26) <;> simp

/-- Whole words, and the bits of one more. -/
private theorem two_pow_words (bits : ℕ) :
    2 ^ bits = 0x4000000 ^ (bits / 26) * 2 ^ (bits % 26) := by
  rw [show 0x4000000 = 2 ^ 26 by norm_num, ← pow_mul, ← pow_add, Nat.div_add_mod]

private theorem mod_two_pow_words (n bits : ℕ) :
    n % 2 ^ bits = n % 0x4000000 ^ (bits / 26) +
      0x4000000 ^ (bits / 26) * (n / 0x4000000 ^ (bits / 26) % 0x4000000 % 2 ^ (bits % 26)) := by
  have hdvd : 2 ^ (bits % 26) ∣ 0x4000000 :=
    ⟨2 ^ (26 - bits % 26), word_split (Nat.mod_lt _ (by norm_num))⟩
  rw [two_pow_words, Nat.mod_mul, Nat.mod_mod_of_dvd _ hdvd]

/-- `maskn`. -/
theorem maskn_ofInt (n : ℕ) {bits : ℕ} (hbits : 0 < bits) :
    (ofInt n).maskn bits = ofInt (n % 2 ^ bits : ℕ) := by
  obtain ⟨hne, hbelow, hvalue⟩ := means_wordsOf n
  have hwords : (ofInt n).words = wordsOf n := rfl
  have hsign : (ofInt n).negative = false := by simp [ofInt]
  rw [maskn]
  simp only [hwords, hsign]
  split_ifs with hlength hr
  · -- all its words are kept
    have hlt := Nat.ofDigits_lt_base_pow_length (by norm_num) hbelow
    rw [hvalue] at hlt
    have hpow : 0x4000000 ^ (wordsOf n).length ≤ 2 ^ bits := by
      rw [two_pow_words]
      exact (Nat.pow_le_pow_right (by norm_num) hlength).trans
        (Nat.le_mul_of_pos_right _ (by positivity))
    rw [Nat.mod_eq_of_lt (hlt.trans_le hpow)]
  · rw [not_le] at hlength
    have hword := getElem?_wordsOf n (bits / 26)
    rw [List.getElem?_eq_getElem hlength, Option.getD_some] at hword
    have hsplit : (wordsOf n).take (bits / 26 + 1) =
        (wordsOf n).take (bits / 26) ++ [(wordsOf n)[bits / 26]] :=
      List.take_succ_eq_append_getElem hlength
    have hlen : ((wordsOf n).take (bits / 26)).length = bits / 26 :=
      List.length_take_of_le hlength.le
    have hmodify := modify_length ((wordsOf n).take (bits / 26)) ((wordsOf n)[bits / 26]) []
      (· % 2 ^ (bits % 26))
    rw [hlen] at hmodify
    rw [hsplit, hmodify]
    refine strip_nat ⟨by simp, ?_, ?_⟩
    · rw [below_append, below_cons]
      have := hbelow _ (List.getElem_mem hlength)
      exact ⟨hbelow.take _, (Nat.mod_le _ _).trans_lt this, below_nil⟩
    · rw [Nat.ofDigits_append, Nat.ofDigits_singleton, hlen,
        ← Nat.ofDigits_mod_pow_eq_ofDigits_take _ (by norm_num) _ hbelow, hvalue, hword,
        mod_two_pow_words n bits]
  · rw [not_le] at hlength
    rw [not_not] at hr
    have hpos : 0 < bits / 26 := by omega
    refine strip_nat ⟨?_, hbelow.take _, ?_⟩
    · simp only [ne_eq, List.take_eq_nil_iff, hne, or_false]
      omega
    · rw [← Nat.ofDigits_mod_pow_eq_ofDigits_take _ (by norm_num) _ hbelow, hvalue,
        two_pow_words, hr, pow_zero, Nat.mul_one]

/-- The words above are 0. -/
theorem expand_means (size : ℕ) (h : Means words n) : Means (expand words size) n := by
  obtain ⟨hne, hbelow, hvalue⟩ := h
  refine ⟨by simp [expand, hne], ?_, ?_⟩
  · rw [expand, below_append]
    exact ⟨hbelow, below_replicate_zero (by norm_num) _⟩
  · rw [expand, Nat.ofDigits_append_replicate_zero, hvalue]

private theorem complement_split {p r a b : ℕ} (ha : a < p) (hb : b < r) :
    p - 1 - a + p * (r - 1 - b) = p * r - 1 - (a + p * b) := by
  obtain ⟨k, rfl⟩ : ∃ k, r = b + 1 + k := ⟨r - (b + 1), by omega⟩
  rw [show b + 1 + k - 1 - b = k by omega, Nat.mul_add, Nat.mul_add, Nat.mul_one]
  omega

/-- **`inotn`**: the bits of the width are the others, and those of the last word that
are above it are gone. Whole words above stay. -/
theorem inotn_ofInt (n : ℕ) {width : ℕ} (hwidth : 0 < width) :
    (ofInt n).inotn width = ofInt (2 ^ width - 1 - n % 2 ^ width +
      0x4000000 ^ ((width + 25) / 26) * (n / 0x4000000 ^ ((width + 25) / 26)) : ℕ) := by
  have hwords : (ofInt n).words = wordsOf n := rfl
  have hsign : (ofInt n).negative = false := by simp [ofInt]
  obtain ⟨hne, hbelow, hvalue⟩ := expand_means ((width + 25) / 26) (means_wordsOf n)
  have hlength : (width + 25) / 26 ≤ (expand (wordsOf n) ((width + 25) / 26)).length := by
    rw [expand, List.length_append, List.length_replicate]
    omega
  rw [inotn]
  simp only [hwords, hsign]
  generalize expand (wordsOf n) ((width + 25) / 26) = words at hne hbelow hvalue hlength
  set low := (words.take (width / 26)).map (fun w => 0x3ffffff - w % 0x4000000) with hlow
  have hcompl : low = (words.take (width / 26)).map fun d => 0x4000000 - 1 - d := by
    refine List.map_congr_left fun w hw => ?_
    rw [Nat.mod_eq_of_lt (hbelow.take _ w hw)]
  have hlen : (words.take (width / 26)).length = width / 26 :=
    List.length_take_of_le (by omega)
  have hlowLen : low.length = width / 26 := by rw [hlow, List.length_map, hlen]
  have hlowBelow : Below 0x4000000 low := by
    intro d hd
    obtain ⟨w, -, rfl⟩ := List.mem_map.1 hd
    omega
  have hlowValue : Nat.ofDigits 0x4000000 low =
      0x4000000 ^ (width / 26) - 1 - n % 0x4000000 ^ (width / 26) := by
    rw [hcompl, ofDigits_complement (hbelow.take _), hlen,
      ← Nat.ofDigits_mod_pow_eq_ofDigits_take _ (by norm_num) _ hbelow, hvalue]
  have hdrop : Nat.ofDigits 0x4000000 (words.drop (width / 26)) = n / 0x4000000 ^ (width / 26) := by
    rw [← Nat.ofDigits_div_pow_eq_ofDigits_drop _ (by norm_num) _ hbelow, hvalue]
  split_ifs with hr
  · -- a word of which only the lower bits are in the width
    have hceil : (width + 25) / 26 = width / 26 + 1 := by omega
    rw [hceil] at hlength ⊢
    obtain ⟨x, rest, hx⟩ : ∃ x rest, words.drop (width / 26) = x :: rest :=
      ⟨_, _, List.drop_eq_getElem_cons (by omega)⟩
    have hrest : Below 0x4000000 (x :: rest) := hx ▸ hbelow.drop _
    rw [below_cons] at hrest
    rw [hx, Nat.ofDigits_cons] at hdrop
    have hxValue : x = n / 0x4000000 ^ (width / 26) % 0x4000000 := by omega
    have hrestValue : Nat.ofDigits 0x4000000 rest = n / 0x4000000 ^ (width / 26 + 1) := by
      rw [pow_succ, ← Nat.div_div_eq_div_mul]
      omega
    have hmodify := modify_length low x rest
      (fun w => (2 ^ (width % 26) - 1) - w % 2 ^ (width % 26))
    rw [hlowLen] at hmodify
    rw [hx, hmodify]
    refine strip_nat ⟨by simp, ?_, ?_⟩
    · have hpow : 2 ^ (width % 26) ≤ 2 ^ 26 := Nat.pow_le_pow_right (by norm_num) (by omega)
      rw [below_append, below_cons]
      exact ⟨hlowBelow, by omega, hrest.2⟩
    · rw [Nat.ofDigits_append, Nat.ofDigits_cons, hlowValue, hlowLen, hrestValue, hxValue,
        mod_two_pow_words n width, two_pow_words width, Nat.mul_add, ← Nat.add_assoc, pow_succ,
        Nat.mul_assoc]
      congr 1
      exact complement_split (Nat.mod_lt _ (by positivity)) (Nat.mod_lt _ (by positivity))
  · have hceil : (width + 25) / 26 = width / 26 := by omega
    refine strip_nat ⟨?_, ?_, ?_⟩
    · have : 0 < width / 26 := by omega
      exact List.append_ne_nil_of_left_ne_nil (List.ne_nil_of_length_pos (by omega)) _
    · exact below_append.2 ⟨hlowBelow, hbelow.drop _⟩
    · rw [Nat.ofDigits_append, hlowValue, hlowLen, hdrop, hceil, two_pow_words width,
        show width % 26 = 0 by omega, pow_zero, Nat.mul_one]

/-- `iaddn(1)`. -/
theorem iadd1_ofInt (n : ℕ) : (ofInt n).iadd1 = ofInt (n + 1 : ℕ) := by
  -- the last word does not become 0
  have hlast : ∀ (ws : List ℕ) (w : ℕ), (w :: ws).getLast (by simp) ≠ 0 →
      ∀ h, (carryWords w ws).getLast h ≠ 0 := by
    intro ws
    induction ws with
    | nil =>
      intro w hw h
      rw [List.getLast_singleton] at hw
      simp only [carryWords] at h ⊢
      split_ifs <;> simp [hw]
    | cons v ws ih =>
      intro w hw h
      rw [List.getLast_cons (by simp)] at hw
      have hv : ((v + 1) :: ws).getLast (by simp) ≠ 0 := by
        cases ws with
        | nil => simp
        | cons u ws => simpa using hw
      by_cases hfull : 0x4000000 ≤ w
      · have hne : carryWords (v + 1) ws ≠ [] := by
          cases ws <;> simp only [carryWords] <;> split_ifs <;> simp
        simp only [carryWords, if_pos hfull]
        rw [List.getLast_cons hne]
        exact ih _ hv hne
      · simp only [carryWords, if_neg hfull]
        rw [List.getLast_cons (by simp)]
        exact hw
  obtain ⟨hne, hbelow, hvalue⟩ : Means (addWord 1 (wordsOf n)) (n + 1) :=
    (means_wordsOf n).addWord (by norm_num)
  have hdigits : Nat.digits 0x4000000 (n + 1) = addWord 1 (wordsOf n) := by
    rw [← hvalue]
    refine Nat.digits_ofDigits _ (by norm_num) _ hbelow fun h => ?_
    obtain ⟨w, ws, hw⟩ := List.exists_cons_of_ne_nil (means_wordsOf n).ne_nil
    simp only [hw, addWord]
    refine hlast ws (w + 1) ?_ _
    cases ws with
    | nil => simp
    | cons v ws =>
      have hn : n ≠ 0 := by
        rintro rfl
        simp [wordsOf] at hw
      have hdig : Nat.digits 0x4000000 n = w :: v :: ws := by rw [← hw, wordsOf, if_neg hn]
      have := Nat.getLast_digit_ne_zero 0x4000000 hn
      simpa [hdig] using this
  have hsign : (ofInt n).negative = false := by simp [ofInt]
  rw [iadd1, hsign, show (ofInt n).words = wordsOf n from rfl, ← hdigits, ofInt,
    Int.natAbs_natCast, wordsOf, if_neg (Nat.succ_ne_zero n), decide_eq_false (by omega)]

/-- `ineg`. -/
theorem ineg_ofInt (n : ℤ) : (ofInt n).ineg = ofInt (-n) := by
  rw [ineg]
  simp only [ofInt_words_zero]
  by_cases hn : n = 0
  · subst hn
    rfl
  · simp only [if_neg hn, ofInt, Int.natAbs_neg, mk.injEq, and_true]
    by_cases h : n < 0 <;> simp [h] <;> omega

/-! ## Two's complement -/

private theorem le_words_pow (width : ℕ) : 2 ^ width ∣ 0x4000000 ^ ((width + 25) / 26) := by
  rw [show 0x4000000 = 2 ^ 26 by norm_num, ← pow_mul]
  exact pow_dvd_pow 2 (by omega)

private theorem abs_ofInt (n : ℤ) : (⟨false, (ofInt n).words⟩ : BN) = ofInt n.natAbs := by
  have hsign : ¬ (n.natAbs : ℤ) < 0 := by omega
  simp only [ofInt, hsign, decide_false, Int.natAbs_natCast]

/-- `toTwos`, of a number that fits. -/
theorem toTwos_ofInt {n : ℤ} {width : ℕ} (hwidth : 0 < width) (h : n.natAbs < 2 ^ width) :
    (ofInt n).toTwos width = ofInt (n % (2 ^ width : ℕ)) := by
  by_cases hn : n < 0
  · have hsign : (ofInt n).negative = true := by simp [ofInt, hn]
    have hword := Nat.le_of_dvd (by positivity) (le_words_pow width)
    rw [toTwos, if_pos hsign, abs_ofInt, inotn_ofInt _ hwidth, iadd1_ofInt, Nat.mod_eq_of_lt h,
      Nat.div_eq_of_lt (h.trans_le hword), Nat.mul_zero, Nat.add_zero, ← Int.add_emod_right,
      Int.emod_eq_of_lt (by omega) (by omega)]
    congr 1
    omega
  · have hsign : (ofInt n).negative = false := by simp [ofInt, hn]
    rw [toTwos, if_neg (by simp [hsign]), Int.emod_eq_of_lt (by omega) (by omega)]

/-- **`toTwos` and `maskn`**: what does not fit wraps. -/
theorem maskn_toTwos_ofInt (n : ℤ) {width : ℕ} (hwidth : 0 < width) :
    ((ofInt n).toTwos width).maskn width = ofInt (n % (2 ^ width : ℕ)) := by
  by_cases hn : n < 0
  · have hsign : (ofInt n).negative = true := by simp [ofInt, hn]
    obtain ⟨k, hk⟩ := le_words_pow width
    rw [toTwos, if_pos hsign, abs_ofInt, inotn_ofInt _ hwidth, iadd1_ofInt, maskn_ofInt _ hwidth,
      hk]
    -- both are congruent to the number
    have hlt := Nat.mod_lt n.natAbs (show 2 ^ width > 0 by positivity)
    have hdiv := Nat.mod_add_div n.natAbs (2 ^ width)
    generalize n.natAbs / (2 ^ width * k) = q
    generalize 2 ^ width = m at hlt hdiv ⊢
    congr 1
    rw [Int.natCast_mod]
    refine Int.ModEq.eq (Int.modEq_iff_dvd.2 ⟨-(1 + k * q + (n.natAbs / m : ℕ)), ?_⟩)
    have hsub : ((m - 1 - n.natAbs % m + m * k * q + 1 : ℕ) : ℤ) =
        m - (n.natAbs % m : ℕ) + m * (k * q) := by
      rw [Nat.mul_assoc]
      push_cast [Nat.sub_sub, Nat.cast_sub (show 1 + n.natAbs % m ≤ m by omega)]
      ring
    have hdiv' : ((n.natAbs % m : ℕ) : ℤ) + m * (n.natAbs / m : ℕ) = -n := by
      rw [← Nat.cast_mul, ← Nat.cast_add, hdiv]
      omega
    rw [hsub]
    linear_combination hdiv'
  · have hsign : (ofInt n).negative = false := by simp [ofInt, hn]
    obtain ⟨k, rfl⟩ : ∃ k : ℕ, n = k := ⟨n.toNat, by omega⟩
    rw [toTwos, if_neg (by simp [hsign]), maskn_ofInt _ hwidth, Int.natCast_mod]

/-- **`fromTwos`**: the upper half is negative. -/
theorem fromTwos_ofInt {n width : ℕ} (hwidth : 0 < width) (h : n < 2 ^ width) :
    (ofInt n).fromTwos width = ofInt (Int.bmod n (2 ^ width)) := by
  have hpow : 2 ^ width = 2 * 2 ^ (width - 1) := by
    rw [← pow_succ', Nat.sub_add_cancel hwidth]
  have hmod : ((n : ℤ) % (2 ^ width : ℕ)) = n := Int.emod_eq_of_lt (by omega) (by omega)
  rw [fromTwos, testn_ofInt, Int.bmod_def, hmod]
  by_cases hhalf : n < 2 ^ (width - 1)
  · rw [Nat.testBit_lt_two_pow hhalf, if_neg (by simp), if_pos (by omega)]
  · have hbit : n.testBit (width - 1) = true :=
      Nat.testBit_of_two_pow_le_and_two_pow_add_one_gt (by omega)
        (by rw [Nat.sub_add_cancel hwidth]; exact h)
    have hword := Nat.le_of_dvd (by positivity) (le_words_pow width)
    rw [if_pos hbit, inotn_ofInt _ hwidth, iadd1_ofInt, ineg_ofInt, Nat.mod_eq_of_lt h,
      Nat.div_eq_of_lt (h.trans_le hword), Nat.mul_zero, Nat.add_zero, if_neg (by omega)]
    congr 1
    omega

/-- **`toNumber`**: what a double holds. -/
theorem toNumber_ofInt (n : ℕ) : (ofInt n).toNumber = if n < 2 ^ 53 then some n else none := by
  have hone {m : ℕ} (h : m < 0x4000000) : wordsOf m = [m] := by
    rw [wordsOf]
    split_ifs with hm
    · rw [hm]
    · exact Nat.digits_of_lt _ m hm h
  have hmore {m : ℕ} (h : 0x4000000 ≤ m) :
      wordsOf m = m % 0x4000000 :: wordsOf (m / 0x4000000) := by
    rw [wordsOf, wordsOf, if_neg (by omega), if_neg (by omega),
      Nat.digits_def' (by norm_num) (by omega)]
  rw [toNumber, show (ofInt n).words = wordsOf n from rfl]
  by_cases h1 : n < 0x4000000
  · rw [hone h1, if_pos (by omega)]
  · rw [hmore (by omega)]
    by_cases h2 : n / 0x4000000 < 0x4000000
    · rw [hone h2, if_pos (by omega)]
      simp only [Option.some.injEq]
      omega
    · rw [hmore (by omega)]
      by_cases h3 : n / 0x4000000 / 0x4000000 < 0x4000000
      · rw [hone h3]
        -- of three words the third has to be 1
        by_cases h53 : n < 2 ^ 53
        · rw [show n / 0x4000000 / 0x4000000 = 1 by omega, if_pos h53]
          simp only [Option.some.injEq]
          omega
        · rw [if_neg h53]
          have : n / 0x4000000 / 0x4000000 ≠ 1 := by omega
          split <;> simp_all
      · rw [hmore (by omega), if_neg (by omega)]
        obtain ⟨w, ws, hw⟩ := List.exists_cons_of_ne_nil
          (means_wordsOf (n / 0x4000000 / 0x4000000 / 0x4000000)).ne_nil
        rw [hw]
        split <;> simp_all

/-- The bytes of an integer's two's complement. -/
theorem toArrayLike_twos (n : ℤ) {size : ℕ} (h : 0 < size) :
    ∃ k : ℕ, n % (2 ^ (size * 8) : ℕ) = k ∧ k < 256 ^ size ∧
      (((ofInt n).toTwos (size * 8)).maskn (size * 8)).toArrayLike size =
        some (toBytes size k) := by
  have hpow : 256 ^ size = 2 ^ (size * 8) := by
    rw [show 256 = 2 ^ 8 by norm_num, ← pow_mul, Nat.mul_comm]
  have hpos : 0 < 2 ^ (size * 8) := by positivity
  have hnonneg := Int.emod_nonneg n (show ((2 ^ (size * 8) : ℕ) : ℤ) ≠ 0 by positivity)
  have hlt := Int.emod_lt_of_pos n (show (0 : ℤ) < (2 ^ (size * 8) : ℕ) by positivity)
  obtain ⟨k, hk⟩ := Int.eq_ofNat_of_zero_le hnonneg
  have hsmall : k < 256 ^ size := by omega
  refine ⟨k, hk, hsmall, ?_⟩
  rw [maskn_toTwos_ofInt n (by omega), hk, toArrayLike_ofInt, if_pos hsmall]

/-- **Integers and bytes.** An integer is written in as many bytes as are asked for, and read
from them as what it is modulo their range, about 0; and bytes are what is written of the
integer that is read from them. In digits an integer is read as itself. -/
theorem twos_round_trip {size : ℕ} (h : 0 < size) :
    (∀ n : ℤ, ∃ bytes, bytes.length = size ∧
      (((ofInt n).toTwos (size * 8)).maskn (size * 8)).toArrayLike size = some bytes ∧
      (initArray bytes).fromTwos (size * 8) = ofInt (Int.bmod n (2 ^ (size * 8)))) ∧
    (∀ bytes : List UInt8, bytes.length = size →
      ((((initArray bytes).fromTwos (size * 8)).toTwos (size * 8)).maskn (size * 8)).toArrayLike
        size = some bytes) ∧
    ∀ n : ℤ, ofText (ofInt n).toText 10 = ofInt n := by
  have hwidth : 0 < size * 8 := by omega
  have hpow : 256 ^ size = 2 ^ (size * 8) := by
    rw [show 256 = 2 ^ 8 by norm_num, ← pow_mul, Nat.mul_comm]
  refine ⟨fun n => ?_, fun bytes hlength => ?_, ofText_toText⟩
  · obtain ⟨k, hk, hlt, hbytes⟩ := toArrayLike_twos n h
    refine ⟨toBytes size k, length_toBytes hlt, hbytes, ?_⟩
    rw [initArray_eq, byteValue_toBytes, fromTwos_ofInt hwidth (hpow ▸ hlt), ← hk, Int.emod_bmod]
  · have hlt : byteValue bytes < 2 ^ (size * 8) := by
      rw [← hpow, ← hlength]
      exact byteValue_lt bytes
    obtain ⟨k, hk, -, hbytes⟩ := toArrayLike_twos (Int.bmod (byteValue bytes) (2 ^ (size * 8))) h
    have hvalue : k = byteValue bytes := by
      rw [Int.bmod_emod, Int.emod_eq_of_lt (by omega) (by exact_mod_cast hlt)] at hk
      omega
    rw [initArray_eq, fromTwos_ofInt hwidth hlt, hbytes, hvalue, ← hlength, toBytes_byteValue]

/-- A byte, as an `int8`. -/
theorem twos_round_trip_byte : 0 < 1 ∧ ∀ bytes : List UInt8, bytes.length = 1 →
    ((((initArray bytes).fromTwos 8).toTwos 8).maskn 8).toArrayLike 1 = some bytes :=
  ⟨Nat.one_pos, (twos_round_trip Nat.one_pos).2.1⟩

end BN

end Hmix
