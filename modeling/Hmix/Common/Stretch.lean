import Mathlib.Data.List.Basic

/-!
# Stretches of a log

A log only grows, and who reads it has got as far as some place in it. What lies between two places
is a stretch: stretches that meet are one, and what is added to the log changes none that
ends in it.
-/

namespace Hmix

variable {α : Type}

/-- **The stretch** of a log from one place up to another. -/
def stretch (log : List α) (start next : ℕ) : List α := (log.take next).drop start

variable {log : List α} {start middle next : ℕ}

theorem stretch_self : stretch log start start = [] := by
  rw [stretch, List.drop_eq_nil_iff, List.length_take]
  exact Nat.min_le_left _ _

/-- Stretches that meet. -/
theorem stretch_append (h : start ≤ middle) (h' : middle ≤ next) :
    stretch log start middle ++ stretch log middle next = stretch log start next := by
  have hfront : log.take middle = (log.take next).take middle := by
    rw [List.take_take, Nat.min_eq_left h']
  have hback : (log.take next).drop middle =
      ((log.take next).drop start).drop (middle - start) := by
    rw [List.drop_drop, Nat.add_sub_cancel' h]
  rw [stretch, stretch, stretch, hfront, hback, List.drop_take, List.take_append_drop]

/-- **A log that grows** keeps the stretches that end in it, and those that have not begun. -/
theorem stretch_grow (more : List α) (h : next ≤ max start log.length) :
    stretch (log ++ more) start next = stretch log start next := by
  by_cases hnext : next ≤ log.length
  · rw [stretch, List.take_append_of_le_length hnext, stretch]
  · -- it has not begun, with the old log or with the new
    have hstart : next ≤ start := by omega
    have hnone (l : List α) : stretch l start next = [] := by
      rw [stretch, List.drop_eq_nil_iff, List.length_take]
      omega
    rw [hnone, hnone]

/-- What is in a stretch is in one that goes further. -/
theorem mem_stretch_of_le {a : α} {next' : ℕ} (h : a ∈ stretch log start next)
    (hnext : next ≤ next') : a ∈ stretch log start next' := by
  rw [stretch, ← Nat.min_eq_left hnext, ← List.take_take] at h
  rw [stretch]
  exact ((List.take_prefix next _).sublist.drop start).subset h

/-- It is in the one that goes to the end. -/
theorem mem_stretch_length {a : α} (h : a ∈ stretch log start next) :
    a ∈ stretch log start log.length := by
  rw [stretch, List.take_length]
  exact ((List.take_prefix next log).sublist.drop start).subset h

end Hmix
