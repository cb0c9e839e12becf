import Mathlib.Algebra.GroupWithZero.Nat
import Mathlib.Tactic.SplitIfs

/-!
# One entry of a list

A list of which one entry is set or modified, or that has one entry more: what stands at a
place of it then, what is kept of the whole, and what the change does to a sum.
-/

namespace Hmix

variable {α β : Type} {xs : List α} {i j : ℕ} {x y : α}

/-! ## What stands at a place -/

theorem of_getElem?_set (h : (xs.set i y)[j]? = some x) :
    (j = i ∧ x = y) ∨ (j ≠ i ∧ xs[j]? = some x) := by
  rw [List.getElem?_set] at h
  split_ifs at h with hij
  · exact .inl ⟨hij.symm, (Option.some.inj h).symm⟩
  · exact .inr ⟨fun hji => hij hji.symm, h⟩

theorem of_getElem?_modify {g : α → α} (h : (xs.modify i g)[j]? = some x) :
    ∃ z, xs[j]? = some z ∧ ((j = i ∧ x = g z) ∨ (j ≠ i ∧ x = z)) := by
  simp only [List.getElem?_modify, Option.map_eq_map, Option.map_eq_some_iff] at h
  obtain ⟨z, hz, rfl⟩ := h
  refine ⟨z, hz, ?_⟩
  split_ifs with hij
  · exact .inl ⟨hij.symm, rfl⟩
  · exact .inr ⟨fun hji => hij hji.symm, rfl⟩

theorem of_getElem?_concat (h : (xs ++ [y])[i]? = some x) :
    xs[i]? = some x ∨ (i = xs.length ∧ x = y) := by
  rcases Nat.lt_or_ge i xs.length with hi | hi
  · rw [List.getElem?_append_left hi] at h
    exact .inl h
  · rw [List.getElem?_append_right hi] at h
    have hlt : i - xs.length < [y].length := (List.getElem?_eq_some_iff.1 h).1
    rw [List.length_singleton] at hlt
    exact .inr ⟨by omega, List.mem_singleton.1 (List.mem_of_getElem? h)⟩

section

variable (pre : List α) (a b : α) (l : List α) (f : α → α)

theorem modify_length : (pre ++ a :: l).modify pre.length f = pre ++ f a :: l := by
  induction pre with
  | nil => rfl
  | cons x pre ih => simpa using ih

theorem modify_length_succ :
    (pre ++ a :: b :: l).modify (pre.length + 1) f = pre ++ a :: f b :: l := by
  have h := modify_length (pre ++ [a]) b l f
  simpa using h

theorem modify_behind : (pre ++ [a]).modify (pre.length + 1) f = pre ++ [a] := by
  induction pre with
  | nil => rfl
  | cons x pre ih => simpa using ih

end

/-! ## What is kept of the whole -/

variable {f : α → β} {g : α → α}

/-- What a change of one entry keeps of it is kept of the list. -/
theorem map_modify (h : ∀ x, f (g x) = f x) : (xs.modify i g).map f = xs.map f := by
  induction xs generalizing i with
  | nil => cases i <;> rfl
  | cons z xs ih =>
    cases i with
    | zero => simp [h]
    | succ i => simp [ih]

theorem map_set (hx : xs[i]? = some x) (h : f y = f x) : (xs.set i y).map f = xs.map f := by
  induction xs generalizing i with
  | nil => rfl
  | cons z xs ih =>
    cases i with
    | zero =>
      obtain rfl : z = x := Option.some.inj hx
      simp [h]
    | succ i => simp [ih hx]

/-- Where the new entry has `P` exactly if the old one has and `C`, so have all. -/
theorem forall_mem_set_iff {P : α → Prop} {C : Prop} {a b : α} :
    ∀ {l : List α} {i : ℕ}, l[i]? = some a → (P b ↔ P a ∧ C) →
      ((∀ c ∈ l.set i b, P c) ↔ (∀ c ∈ l, P c) ∧ C)
  | [], _, h, _ => by simp at h
  | a' :: l, 0, h, hP => by
    obtain rfl : a' = a := by simpa using h
    simp only [List.set_cons_zero, List.forall_mem_cons, hP]
    exact and_right_comm
  | a' :: l, i + 1, h, hP => by
    simp only [List.set_cons_succ, List.forall_mem_cons,
      forall_mem_set_iff (l := l) (by simpa using h) hP]
    exact and_assoc.symm

/-- One entry is changed, and the sum by as much. -/
theorem sum_map_modify (g : α → ℕ) (f : α → α) (h : xs[i]? = some x) :
    ((xs.modify i f).map g).sum + g x = (xs.map g).sum + g (f x) := by
  induction xs generalizing i with
  | nil => cases h
  | cons y xs ih =>
    cases i with
    | zero =>
      obtain rfl : y = x := Option.some.inj h
      simp only [List.modify_zero_cons, List.map_cons, List.sum_cons]
      omega
    | succ i =>
      have hxs : ((xs.modify i f).map g).sum + g x = (xs.map g).sum + g (f x) := ih h
      simp only [List.modify_succ_cons, List.map_cons, List.sum_cons]
      omega

end Hmix
