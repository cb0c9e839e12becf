import Hmix.Model.Buffer
import Mathlib.Tactic.NormNum
import Mathlib.Tactic.IntervalCases

/-!
# Text that goes through UTF-8

The code units of a text are read as code points (`points`), where a surrogate
that has no partner counts as U+FFFD, and `encodePoint` writes a code point as
UTF-8 has it. The loop of `utf8ToBytes` does that, but for one thing: of two
leads at the end of a text it never gets to the second (`heard`).
What `utf8Slice` reads is always well formed, so a text comes back from its bytes
exactly when it was.
-/

namespace Hmix

namespace Buffer

/-! ## Code points and code units -/

/-- A code point that is no surrogate. -/
def Scalar (p : ℕ) : Prop := p < 0x110000 ∧ (p < 0xD800 ∨ 0xDFFF < p)

/-- No surrogate is without its partner. -/
def wellFormed : Units → Bool
  | [] => true
  | [u] => !isLead u && !isTrail u
  | u :: v :: rest =>
    if isLead u then isTrail v && wellFormed rest else !isTrail u && wellFormed (v :: rest)

/-- **What is heard of a text**: of two leads at its end, only the first. -/
def heard : Units → Units
  | [] => []
  | [u] => [u]
  | [u, v] => if isLead u && isLead v then [u] else [u, v]
  | u :: v :: w :: rest => u :: heard (v :: w :: rest)

theorem scalar_alone (u : UInt16) : Scalar (alone u) := by
  have hu := u.toNat_lt
  unfold alone Scalar isLead isTrail
  split_ifs with h
  · omega
  · simp only [Bool.or_eq_true, Bool.and_eq_true, decide_eq_true_eq] at h
    omega

theorem scalar_pair {u v : UInt16} (hu : isLead u) (hv : isTrail v) : Scalar (pair u v) := by
  simp only [isLead, isTrail, Bool.and_eq_true, decide_eq_true_eq] at hu hv
  unfold pair Scalar
  omega

theorem scalar_of_mem_points {s : Units} {p : ℕ} (h : p ∈ points s) : Scalar p := by
  induction s using points.induct with
  | case1 => simp [points] at h
  | case2 u =>
    rw [points, List.mem_singleton] at h
    exact h ▸ scalar_alone u
  | case3 u v rest hpair ih =>
    rw [points, if_pos hpair, List.mem_cons] at h
    rw [Bool.and_eq_true] at hpair
    obtain rfl | h := h
    · exact scalar_pair hpair.1 hpair.2
    · exact ih h
  | case4 u v rest hpair ih =>
    rw [points, if_neg hpair, List.mem_cons] at h
    obtain rfl | h := h
    · exact scalar_alone u
    · exact ih h

/-! ## Bytes of a code point -/

/-- The bytes, by division. -/
theorem encodePoint_eq {p : ℕ} (h : p < 0x110000) :
    encodePoint p =
      if p < 0x80 then [.ofNat p]
      else if p < 0x800 then [.ofNat (p / 64 + 0xC0), .ofNat (p % 64 + 0x80)]
      else if p < 0x10000 then
        [.ofNat (p / 4096 + 0xE0), .ofNat (p / 64 % 64 + 0x80), .ofNat (p % 64 + 0x80)]
      else
        [.ofNat (p / 262144 + 0xF0), .ofNat (p / 4096 % 64 + 0x80), .ofNat (p / 64 % 64 + 0x80),
          .ofNat (p % 64 + 0x80)] := by
  have hmask (x : ℕ) : x &&& 0x3F = x % 64 := Nat.and_two_pow_sub_one_eq_mod x 6
  have h80 {x : ℕ} (hx : x < 64) : x ||| 0x80 = x + 0x80 := by
    rw [Nat.or_comm, ← Nat.two_pow_add_eq_or_of_lt (i := 7) (by omega) 1, Nat.add_comm]
  have hC0 {x : ℕ} (hx : x < 64) : x ||| 0xC0 = x + 0xC0 := by
    rw [Nat.or_comm, ← Nat.two_pow_add_eq_or_of_lt (i := 6) (by omega) 3, Nat.add_comm]
  have hE0 {x : ℕ} (hx : x < 32) : x ||| 0xE0 = x + 0xE0 := by
    rw [Nat.or_comm, ← Nat.two_pow_add_eq_or_of_lt (i := 5) (by omega) 7, Nat.add_comm]
  have hF0 {x : ℕ} (hx : x < 16) : x ||| 0xF0 = x + 0xF0 := by
    rw [Nat.or_comm, ← Nat.two_pow_add_eq_or_of_lt (i := 4) (by omega) 15, Nat.add_comm]
  unfold encodePoint
  simp only [Nat.shiftRight_eq_div_pow, hmask, Nat.reducePow]
  split_ifs with h1 h2 h3
  · rfl
  · rw [hC0 (by omega), h80 (by omega)]
  · rw [hE0 (by omega), h80 (by omega), h80 (by omega)]
  · rw [hF0 (by omega), h80 (by omega), h80 (by omega), h80 (by omega)]

/-- **The bytes are those of UTF-8.** -/
theorem encodePoint_char (c : Char) : encodePoint c.toNat = String.utf8EncodeChar c := by
  have hscalar : c.toNat < 0x110000 := by
    have := c.valid
    simp only [UInt32.isValidChar, Nat.isValidChar] at this
    show c.val.toNat < _
    omega
  have h7F : c.toNat < 0x80 ↔ c.toNat ≤ 0x7f := by omega
  have h7FF : c.toNat < 0x800 ↔ c.toNat ≤ 0x7ff := by omega
  have hFFFF : c.toNat < 0x10000 ↔ c.toNat ≤ 0xffff := by omega
  rw [encodePoint_eq hscalar, String.utf8EncodeChar, show c.val.toNat = c.toNat from rfl]
  simp only [h7F, h7FF, hFFFF]
  split_ifs with h1 h2 h3
  · rfl
  · rw [Nat.mod_eq_of_lt (show c.toNat / 64 < 0x20 by omega)]
  · rw [Nat.mod_eq_of_lt (show c.toNat / 4096 < 0x10 by omega)]
  · rw [Nat.mod_eq_of_lt (show c.toNat / 262144 < 0x08 by omega)]

theorem continues_iff (b : UInt8) : continues b = true ↔ b.toNat / 64 = 2 := by
  have hall : ∀ n : Fin 256, (n.val &&& 0xC0 == 0x80) = decide (n.val / 64 = 2) := by
    decide +kernel
  have h := hall ⟨b.toNat, b.toNat_lt⟩
  rw [continues, h, decide_eq_true_eq]

private theorem and_3F (x : ℕ) : x &&& 0x3F = x % 64 := Nat.and_two_pow_sub_one_eq_mod x 6

private theorem join_bits {k x y : ℕ} (hy : y < 2 ^ k) : (x <<< k) ||| y = x * 2 ^ k + y := by
  rw [Nat.shiftLeft_eq, Nat.mul_comm, ← Nat.two_pow_add_eq_or_of_lt hy]

/-- What `decodePoint` makes of 2 bytes. -/
theorem two_bytes (a b : ℕ) :
    ((a &&& 0x1F) <<< 0x6) ||| (b &&& 0x3F) = a % 32 * 64 + b % 64 := by
  have ha : a &&& 0x1F = a % 32 := Nat.and_two_pow_sub_one_eq_mod a 5
  rw [ha, and_3F, join_bits (by omega)]
  norm_num

/-- What it makes of 3. -/
theorem three_bytes (a b c : ℕ) :
    ((a &&& 0xF) <<< 0xC) ||| ((b &&& 0x3F) <<< 0x6) ||| (c &&& 0x3F) =
      a % 16 * 4096 + (b % 64 * 64 + c % 64) := by
  have ha : a &&& 0xF = a % 16 := Nat.and_two_pow_sub_one_eq_mod a 4
  rw [ha, and_3F, and_3F, Nat.or_assoc, join_bits (k := 6) (by omega),
    join_bits (by omega)]
  norm_num

/-- What it makes of 4. -/
theorem four_bytes (a b c d : ℕ) :
    ((a &&& 0xF) <<< 0x12) ||| ((b &&& 0x3F) <<< 0xC) ||| ((c &&& 0x3F) <<< 0x6) |||
        (d &&& 0x3F) =
      a % 16 * 262144 + (b % 64 * 4096 + (c % 64 * 64 + d % 64)) := by
  have ha : a &&& 0xF = a % 16 := Nat.and_two_pow_sub_one_eq_mod a 4
  rw [ha, and_3F, and_3F, and_3F, Nat.or_assoc, join_bits (k := 6) (by omega),
    Nat.or_assoc, join_bits (k := 12) (by omega), join_bits (by omega)]
  norm_num

/-- **A code point is read from its bytes**, and what is behind them is left. -/
theorem decodePoint_encodePoint {p : ℕ} (h : Scalar p) (rest : Bytes) :
    decodePoint (encodePoint p ++ rest) = (some p, rest) := by
  obtain ⟨hlt, hsur⟩ := h
  have hbyte {n : ℕ} (hn : n < 256) : (UInt8.ofNat n).toNat = n := UInt8.toNat_ofNat_of_lt' hn
  have hcont {n : ℕ} (hn : n < 64) : continues (UInt8.ofNat (n + 0x80)) = true := by
    rw [continues_iff, hbyte (by omega)]
    omega
  rw [encodePoint_eq hlt]
  split_ifs with h1 h2 h3
  · have hb : (UInt8.ofNat p).toNat = p := hbyte (by omega)
    simp only [List.cons_append, List.nil_append, decodePoint, hb]
    rw [if_neg (by omega), if_neg (by omega), if_neg (by omega), if_pos h1]
  · have ha : (UInt8.ofNat (p / 64 + 0xC0)).toNat = p / 64 + 0xC0 := hbyte (by omega)
    have hb : (UInt8.ofNat (p % 64 + 0x80)).toNat = p % 64 + 0x80 := hbyte (by omega)
    have hpoint : (p / 64 + 0xC0) % 32 * 64 + (p % 64 + 0x80) % 64 = p := by omega
    simp only [List.cons_append, List.nil_append, decodePoint, ha, hb, two_bytes, hpoint]
    rw [if_neg (by omega), if_neg (by omega), if_pos (by omega),
      if_pos ⟨hcont (by omega), by omega⟩]
  · have ha : (UInt8.ofNat (p / 4096 + 0xE0)).toNat = p / 4096 + 0xE0 := hbyte (by omega)
    have hb : (UInt8.ofNat (p / 64 % 64 + 0x80)).toNat = p / 64 % 64 + 0x80 := hbyte (by omega)
    have hc : (UInt8.ofNat (p % 64 + 0x80)).toNat = p % 64 + 0x80 := hbyte (by omega)
    have hpoint : (p / 4096 + 0xE0) % 16 * 4096 +
        ((p / 64 % 64 + 0x80) % 64 * 64 + (p % 64 + 0x80) % 64) = p := by omega
    simp only [List.cons_append, List.nil_append, decodePoint, ha, hb, hc, three_bytes, hpoint]
    rw [if_neg (by omega), if_pos (by omega),
      if_pos ⟨by rw [hcont (by omega), hcont (by omega)]; rfl, by omega, hsur⟩]
  · have ha : (UInt8.ofNat (p / 262144 + 0xF0)).toNat = p / 262144 + 0xF0 := hbyte (by omega)
    have hb : (UInt8.ofNat (p / 4096 % 64 + 0x80)).toNat = p / 4096 % 64 + 0x80 :=
      hbyte (by omega)
    have hc : (UInt8.ofNat (p / 64 % 64 + 0x80)).toNat = p / 64 % 64 + 0x80 := hbyte (by omega)
    have hd : (UInt8.ofNat (p % 64 + 0x80)).toNat = p % 64 + 0x80 := hbyte (by omega)
    have hpoint : (p / 262144 + 0xF0) % 16 * 262144 + ((p / 4096 % 64 + 0x80) % 64 * 4096 +
        ((p / 64 % 64 + 0x80) % 64 * 64 + (p % 64 + 0x80) % 64)) = p := by omega
    simp only [List.cons_append, List.nil_append, decodePoint, ha, hb, hc, hd, four_bytes, hpoint]
    rw [if_pos (by omega),
      if_pos ⟨by rw [hcont (by omega), hcont (by omega), hcont (by omega)]; rfl, by omega, hlt⟩]

/-! ## There and back -/

/-- What is read is no surrogate. -/
theorem scalar_of_decodePoint {bytes rest : Bytes} {p : ℕ}
    (h : decodePoint bytes = (some p, rest)) : Scalar p := by
  unfold decodePoint at h
  unfold Scalar
  split at h
  · simp at h
  · dsimp only at h
    simp only [two_bytes, three_bytes, four_bytes] at h
    split_ifs at h
    · split at h
      · split_ifs at h
        · simp only [Prod.mk.injEq, Option.some.injEq] at h
          omega
        · simp at h
      · simp at h
    · split at h
      · split_ifs at h
        · simp only [Prod.mk.injEq, Option.some.injEq] at h
          omega
        · simp at h
      · simp at h
    · split at h
      · split_ifs at h
        · simp only [Prod.mk.injEq, Option.some.injEq] at h
          omega
        · simp at h
      · simp at h
    · simp only [Prod.mk.injEq, Option.some.injEq] at h
      omega
    · simp at h

/-- **Code points come back from their bytes.** -/
theorem utf8Slice_points {ps : List ℕ} (h : ∀ p ∈ ps, Scalar p) :
    utf8Slice (ps.flatMap encodePoint) = ps.flatMap pointUnits := by
  -- fuel for every byte is enough
  have hne (p : ℕ) : encodePoint p ≠ [] := by unfold encodePoint; split_ifs <;> simp
  have hloop : ∀ (ps : List ℕ) (fuel : ℕ), (∀ p ∈ ps, Scalar p) →
      (ps.flatMap encodePoint).length ≤ fuel →
      utf8Decode fuel (ps.flatMap encodePoint) = ps.flatMap pointUnits := by
    intro ps
    induction ps with
    | nil => intro fuel _ _; cases fuel <;> simp [utf8Decode]
    | cons p ps ih =>
      intro fuel hps hfuel
      rw [List.flatMap_cons, List.length_append] at hfuel
      have hpos := List.length_pos_iff.2 (hne p)
      obtain ⟨fuel, rfl⟩ : ∃ k, fuel = k + 1 := ⟨fuel - 1, by omega⟩
      have hempty : (encodePoint p ++ ps.flatMap encodePoint).isEmpty = false := by
        simp [hne p]
      rw [List.flatMap_cons, utf8Decode, hempty, if_neg (by simp),
        decodePoint_encodePoint (hps p (by simp))]
      simp only [Option.getD_some]
      rw [ih fuel (fun q hq => hps q (by simp [hq])) (by omega), List.flatMap_cons]
  exact hloop ps _ h le_rfl

/-! ## Texts -/

/-- The code units of a code point, by division. -/
theorem pointUnits_eq {p : ℕ} (h : p < 0x110000) :
    pointUnits p =
      if 0xFFFF < p then
        [.ofNat ((p - 0x10000) / 1024 + 0xD800), .ofNat ((p - 0x10000) % 1024 + 0xDC00)]
      else [.ofNat p] := by
  have hmask (x : ℕ) : x &&& 0x3FF = x % 1024 := Nat.and_two_pow_sub_one_eq_mod x 10
  have hD800 {x : ℕ} (hx : x < 1024) : x ||| 0xD800 = x + 0xD800 := by
    rw [Nat.or_comm, ← Nat.two_pow_add_eq_or_of_lt (i := 11) (by omega) 27, Nat.add_comm]
  have hDC00 {x : ℕ} (hx : x < 1024) : 0xDC00 ||| x = x + 0xDC00 := by
    rw [← Nat.two_pow_add_eq_or_of_lt (i := 10) (by omega) 55, Nat.add_comm]
  unfold pointUnits
  simp only [Nat.shiftRight_eq_div_pow, hmask, Nat.reducePow]
  split_ifs with h1
  · rw [Nat.mod_eq_of_lt (show (p - 0x10000) / 1024 < 1024 by omega), hD800 (by omega),
      hDC00 (by omega)]
  · rfl

private theorem unit_toNat {n : ℕ} (h : n < 0x10000) : (UInt16.ofNat n).toNat = n :=
  UInt16.toNat_ofNat_of_lt' h

/-- **A code point is a pair of surrogates, or one unit that is none.** -/
theorem pointUnits_cases {p : ℕ} (h : Scalar p) :
    (∃ u v, pointUnits p = [u, v] ∧ isLead u ∧ isTrail v ∧ pair u v = p) ∨
      ∃ u, pointUnits p = [u] ∧ ¬ isLead u ∧ ¬ isTrail u ∧ u.toNat = p := by
  obtain ⟨hlt, hsur⟩ := h
  rw [pointUnits_eq hlt]
  split_ifs with h1
  · have hu : (UInt16.ofNat ((p - 0x10000) / 1024 + 0xD800)).toNat =
        (p - 0x10000) / 1024 + 0xD800 := unit_toNat (by omega)
    have hv : (UInt16.ofNat ((p - 0x10000) % 1024 + 0xDC00)).toNat =
        (p - 0x10000) % 1024 + 0xDC00 := unit_toNat (by omega)
    refine .inl ⟨_, _, rfl, ?_, ?_, ?_⟩
    · simp only [isLead, hu, Bool.and_eq_true, decide_eq_true_eq]
      omega
    · simp only [isTrail, hv, Bool.and_eq_true, decide_eq_true_eq]
      omega
    · rw [pair, hu, hv]
      omega
  · have hu : (UInt16.ofNat p).toNat = p := unit_toNat (by omega)
    refine .inr ⟨_, rfl, ?_, ?_, hu⟩
    · simp only [isLead, hu, Bool.and_eq_true, decide_eq_true_eq]
      omega
    · simp only [isTrail, hu, Bool.and_eq_true, decide_eq_true_eq]
      omega

/-- A code point in front changes nothing. -/
theorem wellFormed_append {p : ℕ} (h : Scalar p) (s : Units) :
    wellFormed (pointUnits p ++ s) = wellFormed s := by
  obtain ⟨u, v, hp, hu, hv, -⟩ | ⟨u, hp, hu, hv, -⟩ := pointUnits_cases h <;> rw [hp]
  · simp [wellFormed, hu, hv]
  · cases s <;> simp [wellFormed, hu, hv]

/-- It is the first to be read. -/
theorem points_append {p : ℕ} (h : Scalar p) (s : Units) :
    points (pointUnits p ++ s) = p :: points s := by
  obtain ⟨u, v, hp, hu, hv, rfl⟩ | ⟨u, hp, hu, hv, rfl⟩ := pointUnits_cases h <;> rw [hp]
  · simp [points, hu, hv]
  · cases s <;> simp [points, alone, hu, hv]

/-- What is written in code units is well formed. -/
theorem wellFormed_points {ps : List ℕ} (h : ∀ p ∈ ps, Scalar p) :
    wellFormed (ps.flatMap pointUnits) = true := by
  induction ps with
  | nil => rfl
  | cons p ps ih =>
    rw [List.flatMap_cons, wellFormed_append (h p (by simp))]
    exact ih fun q hq => h q (by simp [hq])

theorem pointUnits_alone {u : UInt16} (hlead : ¬ isLead u) (htrail : ¬ isTrail u) :
    pointUnits (alone u) = [u] := by
  have hu : ¬ 0xFFFF < u.toNat := by have := u.toNat_lt; omega
  have hunits : pointUnits u.toNat = [.ofNat u.toNat] := by
    unfold pointUnits
    simp only [if_neg hu]
  have halone : alone u = u.toNat := by simp [alone, hlead, htrail]
  rw [halone, hunits, UInt16.ofNat_toNat]

theorem pointUnits_pair {u v : UInt16} (hu : isLead u) (hv : isTrail v) :
    pointUnits (pair u v) = [u, v] := by
  have hscalar := scalar_pair hu hv
  simp only [isLead, isTrail, Bool.and_eq_true, decide_eq_true_eq] at hu hv
  have hlead : UInt16.ofNat ((pair u v - 0x10000) / 1024 + 0xD800) = u := by
    refine UInt16.toNat_inj.1 ?_
    rw [unit_toNat (by unfold pair; omega), pair]
    omega
  have htrail : UInt16.ofNat ((pair u v - 0x10000) % 1024 + 0xDC00) = v := by
    refine UInt16.toNat_inj.1 ?_
    rw [unit_toNat (by omega), pair]
    omega
  rw [pointUnits_eq hscalar.1, if_pos (by unfold pair; omega), hlead, htrail]

/-- The code points of a text that is well formed write it again. -/
theorem points_pointUnits {s : Units} (h : wellFormed s) : (points s).flatMap pointUnits = s := by
  induction s using points.induct with
  | case1 => rfl
  | case2 u =>
    simp only [wellFormed, Bool.and_eq_true, Bool.not_eq_true'] at h
    simp [points, pointUnits_alone (u := u) (by simp [h.1]) (by simp [h.2])]
  | case3 u v rest hpair ih =>
    rw [Bool.and_eq_true] at hpair
    rw [wellFormed, if_pos hpair.1, hpair.2, Bool.true_and] at h
    rw [points, if_pos (by simp [hpair]), List.flatMap_cons, pointUnits_pair hpair.1 hpair.2, ih h]
    rfl
  | case4 u v rest hpair ih =>
    by_cases hlead : isLead u
    · rw [wellFormed, if_pos hlead, Bool.and_eq_true] at h
      exact absurd (by simp [hlead, h.1]) hpair
    · rw [wellFormed, if_neg hlead, Bool.and_eq_true, Bool.not_eq_true'] at h
      rw [points, if_neg hpair, List.flatMap_cons,
        pointUnits_alone hlead (by simp [h.1]), ih h.2]
      rfl

/-- A text that is well formed does not end in a lead. -/
theorem last_of_wellFormed {s : Units} {u : UInt16} (h : wellFormed s)
    (hu : s.getLast? = some u) : ¬ isLead u := by
  induction s using wellFormed.induct with
  | case1 => simp at hu
  | case2 v =>
    obtain rfl : v = u := by simpa using hu
    simp only [wellFormed, Bool.and_eq_true, Bool.not_eq_true'] at h
    simp [h.1]
  | case3 v w rest hlead ih =>
    rw [wellFormed, if_pos hlead, Bool.and_eq_true] at h
    cases rest with
    | nil =>
      obtain rfl : w = u := by simpa using hu
      have := h.1
      simp only [isTrail, isLead, Bool.and_eq_true, decide_eq_true_eq] at this ⊢
      omega
    | cons x rest => exact ih h.2 (by simpa using hu)
  | case4 v w rest hlead ih =>
    rw [wellFormed, if_neg hlead, Bool.and_eq_true] at h
    exact ih h.2 (by simpa using hu)

theorem heard_of_wellFormed {s : Units} (h : wellFormed s) : heard s = s := by
  have hlast : ∀ s : Units, (∀ u, s.getLast? = some u → ¬ isLead u) → heard s = s := by
    intro s
    induction s using heard.induct with
    | case1 => exact fun _ => rfl
    | case2 u => exact fun _ => rfl
    | case3 u v hboth =>
      intro hu
      rw [Bool.and_eq_true] at hboth
      exact absurd hboth.2 (hu v (by simp))
    | case4 u v hboth =>
      intro _
      rw [heard, if_neg hboth]
    | case5 u v w rest ih =>
      intro hu
      rw [heard, ih fun x hx => hu x (by simpa using hx)]
  exact hlast s fun u hu => last_of_wellFormed h hu

/-! ## The loop -/

theorem heard_cons {u : UInt16} (h : ¬ isLead u) (rest : Units) :
    heard (u :: rest) = u :: heard rest := by
  match rest with
  | [] => rfl
  | [v] => simp [heard, h]
  | v :: w :: rest => rfl

theorem points_cons {u : UInt16} (h : ¬ isLead u) (rest : Units) :
    points (u :: rest) = alone u :: points rest := by
  cases rest <;> simp [points, h]

/-- The first unit of a text is heard. -/
theorem exists_heard_cons (u : UInt16) (rest : Units) : ∃ t, heard (u :: rest) = u :: t := by
  match rest with
  | [] => exact ⟨[], rfl⟩
  | [v] =>
    rw [heard]
    split_ifs
    · exact ⟨[], rfl⟩
    · exact ⟨[v], rfl⟩
  | v :: w :: rest => exact ⟨_, rfl⟩

private theorem encodePoint_alone {u : UInt16} (h : isLead u ∨ isTrail u) :
    encodePoint (alone u) = replacement := by
  rw [alone, if_pos (by simpa using h)]
  decide

private theorem joined_pair (l : UInt16) {u : UInt16} (hu : isTrail u) :
    (((l.toNat - 0xD800) <<< 10) ||| (u.toNat - 0xDC00)) + 0x10000 = pair l u := by
  simp only [isTrail, Bool.and_eq_true, decide_eq_true_eq] at hu
  rw [pair, join_bits (by omega)]
  norm_num

private theorem surrogate_iff (u : UInt16) :
    (0xD7FF < u.toNat ∧ u.toNat < 0xE000) ↔ isLead u ∨ isTrail u := by
  simp only [isLead, isTrail, Bool.and_eq_true, decide_eq_true_eq]
  omega

private theorem not_lead_of_trail {u : UInt16} (h : isTrail u) : ¬ isLead u := by
  simp only [isLead, isTrail, Bool.and_eq_true, decide_eq_true_eq] at h ⊢
  omega

private theorem lead_bounds {u : UInt16} (h : isLead u) :
    ¬ 0xDBFF < u.toNat ∧ u.toNat < 0xDC00 := by
  simp only [isLead, Bool.and_eq_true, decide_eq_true_eq] at h
  omega

private theorem trail_bounds {u : UInt16} (h : isTrail u) :
    0xDBFF < u.toNat ∧ ¬ u.toNat < 0xDC00 := by
  simp only [isTrail, Bool.and_eq_true, decide_eq_true_eq] at h
  omega

/-- **The loop writes the code points of what is heard**, with a lead before it or
without one. -/
theorem utf8Loop_eq (s : Units) :
    utf8Loop none s = (points (heard s)).flatMap encodePoint ∧
      ∀ l, isLead l → s ≠ [] →
        utf8Loop (some l.toNat) s = (points (heard (l :: s))).flatMap encodePoint := by
  induction s with
  | nil => simp [utf8Loop, heard, points]
  | cons u rest ih =>
    obtain ⟨hnone, hsome⟩ := ih
    by_cases hlead : isLead u
    · obtain ⟨hlow, hhigh⟩ := lead_bounds hlead
      have hsur := (surrogate_iff u).2 (.inl hlead)
      constructor
      · -- a lead waits for its partner, unless it is the last
        simp only [utf8Loop, if_pos hsur, if_neg hlow]
        by_cases hrest : rest = []
        · subst hrest
          simp [utf8Loop, heard, points, encodePoint_alone (.inl hlead)]
        · rw [if_neg (by simpa using hrest), hsome u hlead hrest]
      · -- the lead before it is alone, and this one waits
        intro l hl _
        simp only [utf8Loop, if_pos hsur, if_pos hhigh]
        by_cases hrest : rest = []
        · subst hrest
          simp [utf8Loop, heard, points, hl, hlead, encodePoint_alone (.inl hl)]
        · obtain ⟨v, rest, rfl⟩ := List.exists_cons_of_ne_nil hrest
          obtain ⟨t, ht⟩ := exists_heard_cons u (v :: rest)
          have htrail : ¬ isTrail u := fun h => not_lead_of_trail h hlead
          have hnext : heard (l :: u :: v :: rest) = l :: heard (u :: v :: rest) := rfl
          rw [hsome u hlead hrest, hnext, ht, points, if_neg (by simp [htrail]),
            List.flatMap_cons, encodePoint_alone (.inl hl)]
    · have hheard := heard_cons hlead rest
      constructor
      · rw [hheard, points_cons hlead, List.flatMap_cons, ← hnone]
        by_cases htrail : isTrail u
        · have hsur := (surrogate_iff u).2 (.inr htrail)
          simp only [utf8Loop, if_pos hsur, if_pos (trail_bounds htrail).1,
            encodePoint_alone (.inr htrail)]
        · have hsur : ¬ (0xD7FF < u.toNat ∧ u.toNat < 0xE000) := by
            rw [surrogate_iff]
            simp [hlead, htrail]
          simp [utf8Loop, if_neg hsur, alone, hlead, htrail]
      · intro l hl _
        have hheard' : heard (l :: u :: rest) = l :: u :: heard rest := by
          cases rest with
          | nil => simp [heard, hlead]
          | cons v rest => rw [heard, hheard]
        rw [hheard']
        by_cases htrail : isTrail u
        · have hsur := (surrogate_iff u).2 (.inr htrail)
          simp only [utf8Loop, if_pos hsur, if_neg (trail_bounds htrail).2]
          rw [joined_pair l htrail, points, if_pos (by simp [hl, htrail]), List.flatMap_cons, hnone]
        · have hsur : ¬ (0xD7FF < u.toNat ∧ u.toNat < 0xE000) := by
            rw [surrogate_iff]
            simp [hlead, htrail]
          rw [points, if_neg (by simp [htrail]), List.flatMap_cons, points_cons hlead,
            List.flatMap_cons, encodePoint_alone (.inl hl), ← hnone]
          simp [utf8Loop, if_neg hsur, alone, hlead, htrail]

/-- **The bytes of a text** are those of the code points that are heard. -/
theorem utf8ToBytes_eq (s : Units) : utf8ToBytes s = (points (heard s)).flatMap encodePoint :=
  (utf8Loop_eq s).1

/-- What is heard is what is read again. -/
theorem utf8Slice_utf8ToBytes (s : Units) :
    utf8Slice (utf8ToBytes s) = (points (heard s)).flatMap pointUnits := by
  rw [utf8ToBytes_eq, utf8Slice_points fun _ => scalar_of_mem_points]

/-- **Whatever bytes are read, the text is well formed.** -/
theorem wellFormed_utf8Slice (bytes : Bytes) : wellFormed (utf8Slice bytes) := by
  have hloop : ∀ (fuel : ℕ) (bytes : Bytes), wellFormed (utf8Decode fuel bytes) := by
    intro fuel
    induction fuel with
    | zero => exact fun _ => rfl
    | succ fuel ih =>
      intro bytes
      rw [utf8Decode]
      split_ifs
      · rfl
      · have hscalar : Scalar ((decodePoint bytes).1.getD 0xFFFD) := by
          cases hp : (decodePoint bytes).1 with
          | none => exact ⟨by norm_num, by norm_num⟩
          | some p => exact scalar_of_decodePoint (Prod.ext hp rfl)
        rw [wellFormed_append hscalar]
        exact ih _
  exact hloop _ bytes

/-- What is well formed comes back. -/
theorem utf8Slice_of_wellFormed {s : Units} (h : wellFormed s) : utf8Slice (utf8ToBytes s) = s := by
  rw [utf8Slice_utf8ToBytes, heard_of_wellFormed h, points_pointUnits h]

/-- **A text comes back from its bytes exactly when it is well formed.** Otherwise what
comes back is what was heard, with U+FFFD for each surrogate that is alone. -/
theorem utf8_round_trip (s : Units) :
    utf8Slice (utf8ToBytes s) = (points (heard s)).flatMap pointUnits ∧
      wellFormed (utf8Slice (utf8ToBytes s)) ∧
        (utf8Slice (utf8ToBytes s) = s ↔ wellFormed s) := by
  refine ⟨utf8Slice_utf8ToBytes s, wellFormed_utf8Slice _, fun h => ?_, fun h => ?_⟩
  · rw [← h]
    exact wellFormed_utf8Slice _
  · exact utf8Slice_of_wellFormed h

/-- The second of two leads at the end is lost: one unit comes back of two. -/
example : utf8Slice (utf8ToBytes [0xD800, 0xD800]) = [0xFFFD] := by decide

end Buffer

/-! ## Strings -/

theorem scalar_char (c : Char) : Buffer.Scalar c.toNat := by
  have := c.valid
  simp only [UInt32.isValidChar, Nat.isValidChar] at this
  show c.val.toNat < _ ∧ _
  unfold Char.toNat
  omega

theorem points_units (s : String) : Buffer.points (units s) = s.toList.map Char.toNat := by
  rw [units]
  induction s.toList with
  | nil => rfl
  | cons c cs ih => rw [List.flatMap_cons, Buffer.points_append (scalar_char c), ih, List.map_cons]

/-- **The bytes of a string are UTF-8**, and it comes back from them. -/
theorem utf8_units (s : String) :
    Buffer.utf8ToBytes (units s) = s.toList.flatMap String.utf8EncodeChar ∧
      Buffer.utf8Slice (Buffer.utf8ToBytes (units s)) = units s := by
  have hmem : ∀ p ∈ s.toList.map Char.toNat, Buffer.Scalar p := by
    intro p hp
    obtain ⟨c, -, rfl⟩ := List.mem_map.1 hp
    exact scalar_char c
  have hwell : Buffer.wellFormed (units s) := by
    have h := Buffer.wellFormed_points hmem
    rwa [List.flatMap_map] at h
  refine ⟨?_, Buffer.utf8Slice_of_wellFormed hwell⟩
  rw [Buffer.utf8ToBytes_eq, Buffer.heard_of_wellFormed hwell, points_units, List.flatMap_map]
  exact List.flatMap_congr fun c _ => Buffer.encodePoint_char c

end Hmix
