import Mathlib.Data.List.Forall2
import Mathlib.Tactic.Ring

/-!
# Values in place

A reader is given data and an offset, and returns a value with how far it has
gone. `Reads` says that certain symbols are read as a value wherever
they stand in data that fits, and so readers are put together without a
word about offsets: one behind the other (`readMany`), and in a layout of
heads and tails (`readParts`), where in the head of a dynamic part there is
only the offset of its tail.
-/

namespace Hmix

variable {σ ε α β : Type}

/-- A program that returned goes on. -/
theorem ok_bind (a : α) (f : α → Except ε β) : (Except.ok a >>= f) = f a := rfl

/-- One that has returned has returned from its first part. -/
theorem of_bind_ok {x : Except ε α} {f : α → Except ε β} {b : β} (h : (x >>= f) = .ok b) :
    ∃ a, x = .ok a ∧ f a = .ok b := by
  cases x with
  | error e => cases h
  | ok a => exact ⟨a, rfl, h⟩

/-- What is returned can be compared as an option, where errors cannot. -/
theorem of_toOption {x : Except ε α} {a : α} (h : x.toOption = some a) : x = .ok a := by
  cases x with
  | error e => cases h
  | ok b => exact congrArg Except.ok (Option.some.inj h)

/-- Two lists are related place by place. -/
theorem rel_of_forall₂ {R : α → β → Prop} {as : List α} {bs : List β} (h : List.Forall₂ R as bs)
    {i : ℕ} {a : α} {b : β} (ha : as[i]? = some a) (hb : bs[i]? = some b) : R a b := by
  obtain ⟨hi, rfl⟩ := List.getElem?_eq_some_iff.1 ha
  obtain ⟨hi', rfl⟩ := List.getElem?_eq_some_iff.1 hb
  exact h.get hi hi'

/-- A list of what there is to each of another. -/
theorem exists_forall₂ {R : α → β → Prop} {as : List α} :
    (∃ bs, List.Forall₂ R as bs) ↔ ∀ a ∈ as, ∃ b, R a b := by
  induction as with
  | nil => exact ⟨fun _ => by simp, fun _ => ⟨[], .nil⟩⟩
  | cons a as ih =>
    rw [List.forall_mem_cons, ← ih]
    constructor
    · rintro ⟨_, hall⟩
      cases hall with
      | cons hb hbs => exact ⟨⟨_, hb⟩, _, hbs⟩
    · rintro ⟨⟨b, hb⟩, bs, hbs⟩
      exact ⟨b :: bs, .cons hb hbs⟩

/-- One that is run over a list returns what it returns of each. -/
theorem mapM_eq_ok {f : α → Except ε β} {as : List α} {bs : List β} :
    as.mapM f = .ok bs ↔ List.Forall₂ (fun a b => f a = .ok b) as bs := by
  constructor
  · intro h
    induction as generalizing bs with
    | nil =>
      cases h
      exact .nil
    | cons a as ih =>
      rw [List.mapM_cons] at h
      obtain ⟨b, hb, h⟩ := of_bind_ok h
      obtain ⟨bs, hbs, h⟩ := of_bind_ok h
      cases h
      exact .cons hb (ih hbs)
  · intro h
    induction h with
    | nil => rfl
    | cons hb _ ih => rw [List.mapM_cons, hb, ok_bind, ih]; rfl

/-- **Where it returns exactly of the good ones**, it returns if all are good, and throws
otherwise. -/
theorem mapM_of_good {γ ι : Type} {f : α → Except ε γ} {x : ι → α} {y : β → γ} {good : ι → Prop}
    [DecidablePred good] {R : ι → β → Prop} {is : List ι}
    (h : ∀ i ∈ is, if good i then ∃ b, R i b ∧ f (x i) = .ok (y b) else ∃ e, f (x i) = .error e) :
    if ∀ i ∈ is, good i then ∃ bs, List.Forall₂ R is bs ∧ (is.map x).mapM f = .ok (bs.map y)
    else ∃ e, (is.map x).mapM f = .error e := by
  split_ifs with hgood
  · have hone (i) (hi : i ∈ is) : ∃ b, R i b ∧ f (x i) = .ok (y b) := by
      have hi' := h i hi
      rwa [if_pos (hgood i hi)] at hi'
    obtain ⟨bs, hbs⟩ := exists_forall₂.2 hone
    refine ⟨bs, hbs.imp fun _ _ h => h.1, ?_⟩
    rw [mapM_eq_ok, List.forall₂_map_left_iff, List.forall₂_map_right_iff]
    exact hbs.imp fun _ _ h => h.2
  · push Not at hgood
    obtain ⟨i, hi, hbad⟩ := hgood
    have hthrows := h i hi
    rw [if_neg hbad] at hthrows
    obtain ⟨e, he⟩ := hthrows
    cases hall : (is.map x).mapM f with
    | error e => exact ⟨e, rfl⟩
    | ok cs =>
      rw [mapM_eq_ok, List.forall₂_map_left_iff] at hall
      obtain ⟨c, hc⟩ := exists_forall₂.1 ⟨cs, hall⟩ i hi
      rw [he] at hc
      cases hc

/-- What it throws, it throws of one. -/
theorem exists_of_mapM_error {f : α → Except ε β} {as : List α} {e : ε}
    (h : as.mapM f = .error e) : ∃ a ∈ as, f a = .error e := by
  induction as with
  | nil => cases h
  | cons a as ih =>
    rw [List.mapM_cons] at h
    cases hfirst : f a with
    | error e' =>
      rw [hfirst] at h
      cases h
      exact ⟨a, List.mem_cons_self, hfirst⟩
    | ok b =>
      rw [hfirst, ok_bind] at h
      cases hrest : as.mapM f with
      | error e' =>
        rw [hrest] at h
        cases h
        obtain ⟨a', ha', he⟩ := ih hrest
        exact ⟨a', List.mem_cons_of_mem _ ha', he⟩
      | ok bs =>
        rw [hrest] at h
        cases h

/-- A reader: of data, and an offset in it. -/
abbrev Reader (ε σ α : Type) := List σ → ℕ → Except ε (α × ℕ)

/-- **The symbols are read as the value**, wherever they stand in data that fits. -/
def Reads (fits : List σ → Prop) (r : Reader ε σ α) (symbols : List σ) (a : α) : Prop :=
  ∀ before behind, fits (before ++ symbols ++ behind) →
    r (before ++ symbols ++ behind) before.length = .ok (a, symbols.length)

section

variable {fits : List σ → Prop} {r : Reader ε σ α} {symbols : List σ} {a : α}

/-- A reader that is used at the place the symbols have. -/
theorem Reads.at (h : Reads fits r symbols a) {data : List σ} (hfits : fits data)
    (before behind : List σ) (hdata : data = before ++ symbols ++ behind) {offset : ℕ}
    (hoffset : offset = before.length) : r data offset = .ok (a, symbols.length) := by
  subst hdata hoffset
  exact h before behind hfits

/-- What is made of the value. -/
theorem Reads.map {r' : Reader ε σ β} {f : α → β} (h : Reads fits r symbols a)
    (hr : ∀ data offset a n, r data offset = .ok (a, n) → r' data offset = .ok (f a, n)) :
    Reads fits r' symbols (f a) := fun before behind hfits =>
  hr _ _ _ _ (h before behind hfits)

end

/-! ## One behind the other -/

/-- `n` values, one behind the other. -/
def readMany (read : ℕ → Except ε (α × ℕ)) : ℕ → ℕ → Except ε (List α × ℕ)
  | 0, _ => return ([], 0)
  | n + 1, offset => do
    let (a, consumed) ← read offset
    let (as, rest) ← readMany read n (offset + consumed)
    return (a :: as, consumed + rest)

/-- **What is read one by one is read in a row.** -/
theorem reads_many {fits : List σ → Prop} {r : Reader ε σ α} {items : List (List σ)}
    {values : List α} (h : List.Forall₂ (Reads fits r) items values) :
    Reads fits (fun data => readMany (r data) values.length) items.flatten values := by
  induction h with
  | nil => intro before behind _; simp [readMany]; rfl
  | @cons item value items values hitem hitems ih =>
    intro before behind hfits
    have hfirst := hitem.at hfits before (items.flatten ++ behind) (by simp) rfl
    have hrest := ih.at hfits (before ++ item) behind (by simp) rfl
    rw [List.length_append] at hrest
    show (do
      let (a, consumed) ← r (before ++ (item :: items).flatten ++ behind) before.length
      let (as, rest) ← readMany (r (before ++ (item :: items).flatten ++ behind)) values.length
        (before.length + consumed)
      return (a :: as, consumed + rest)) = _
    simp only [hfirst, ok_bind, hrest]
    rw [List.flatten_cons, List.length_append]
    rfl

/-! ## Heads and tails -/

/-- A part: its symbols, and whether they go behind the others. -/
structure Part (σ : Type) where
  dynamic : Bool
  value : List σ

namespace Part

variable (width : ℕ)

/-- What a part takes among the heads. -/
def headSize (p : Part σ) : ℕ := if p.dynamic then width else p.value.length

/-- What it takes behind them. -/
def tailSize (p : Part σ) : ℕ := if p.dynamic then p.value.length else 0

variable (word : ℕ → List σ)

/-- **The heads**, for tails that begin at an offset. -/
def heads : ℕ → List (Part σ) → List σ
  | _, [] => []
  | offset, p :: ps =>
    if p.dynamic then word offset ++ heads (offset + p.value.length) ps
    else p.value ++ heads offset ps

/-- **The tails.** -/
def tails (ps : List (Part σ)) : List σ := ps.flatMap fun p => if p.dynamic then p.value else []

/-- **The layout**: the heads, and the tails behind them. -/
def layout (ps : List (Part σ)) : List σ :=
  heads word (ps.map (headSize width)).sum ps ++ tails ps

variable {width word}

theorem length_heads (hword : ∀ n, (word n).length = width) (offset : ℕ) (ps : List (Part σ)) :
    (heads word offset ps).length = (ps.map (headSize width)).sum := by
  induction ps generalizing offset with
  | nil => rfl
  | cons p ps ih =>
    rw [heads, List.map_cons, List.sum_cons, headSize]
    split_ifs
    · rw [List.length_append, hword, ih]
    · rw [List.length_append, ih]

theorem length_tails (ps : List (Part σ)) : (tails ps).length = (ps.map tailSize).sum := by
  induction ps with
  | nil => rfl
  | cons p ps ih =>
    rw [tails, List.flatMap_cons, List.length_append, ← tails, ih, List.map_cons, List.sum_cons,
      tailSize]
    split_ifs <;> rfl

theorem length_layout (hword : ∀ n, (word n).length = width) (ps : List (Part σ)) :
    (layout width word ps).length = (ps.map (headSize width)).sum + (ps.map tailSize).sum := by
  rw [layout, List.length_append, length_heads hword, length_tails]

end Part

/-- Reading a part: a static one in its place, and of a dynamic one the offset, and then
the value there. -/
def readPart (readWord : Reader ε σ ℕ) (dynamic : Bool) (r : Reader ε σ α) : Reader ε σ α :=
  fun data offset => do
    if dynamic then
      let (tail, consumed) ← readWord data offset
      let (a, _) ← r data tail
      return (a, consumed)
    else r data offset

/-- Reading parts in their order. -/
def readParts (readWord : Reader ε σ ℕ) (data : List σ) :
    ℕ → List (Bool × Reader ε σ α) → Except ε (List α)
  | _, [] => return []
  | offset, (dynamic, r) :: rest => do
    let (a, consumed) ← readPart readWord dynamic r data offset
    return a :: (← readParts readWord data (offset + consumed) rest)

/-- A part that a reader reads as a value. -/
structure Slot (ε σ α : Type) where
  part : Part σ
  read : Reader ε σ α
  value : α

section

variable {fits : List σ → Prop} {readWord : Reader ε σ ℕ} {word : ℕ → List σ} {width bound : ℕ}

/-- The parts that are left, with what was there before: heads, and tails. -/
theorem readParts_slots (hword : ∀ n, (word n).length = width)
    (hread : ∀ n < bound, Reads fits readWord (word n) n)
    (hfits : ∀ data, fits data → data.length ≤ bound)
    {slots : List (Slot ε σ α)} (hslots : ∀ s ∈ slots, Reads fits s.read s.part.value s.value)
    (hpos : ∀ s ∈ slots, s.part.dynamic → s.part.value ≠ []) {data : List σ}
    (hdataFits : fits data) (front middle : List σ)
    (hdata : data = front ++ Part.heads word
        (front.length + ((slots.map Slot.part).map (Part.headSize width)).sum + middle.length)
        (slots.map Slot.part) ++ middle ++ Part.tails (slots.map Slot.part)) :
    readParts readWord data front.length (slots.map fun s => (s.part.dynamic, s.read)) =
      .ok (slots.map Slot.value) := by
  induction slots generalizing front middle with
  | nil => rfl
  | cons s rest ih =>
    have hrest := fun t (ht : t ∈ rest) => hslots t (List.mem_cons_of_mem s ht)
    have hposRest := fun t (ht : t ∈ rest) => hpos t (List.mem_cons_of_mem s ht)
    have hs := hslots s (by simp)
    simp only [List.map_cons, List.sum_cons, Part.heads, Part.headSize] at hdata
    rw [Part.tails, List.flatMap_cons, ← Part.tails] at hdata
    rw [List.map_cons, List.map_cons]
    by_cases hdyn : s.part.dynamic
    · -- the head holds where the tail is
      simp only [if_pos hdyn] at hdata
      set offset := front.length + (width + ((rest.map Slot.part).map (Part.headSize width)).sum) +
        middle.length
      have hlt : offset < bound := by
        have hlength := congrArg List.length hdata
        have hvalue := List.length_pos_iff.2 (hpos s (by simp) hdyn)
        have := hfits data hdataFits
        simp only [List.length_append, hword, Part.length_heads hword] at hlength
        omega
      have hhead := (hread offset hlt).at hdataFits front
        (Part.heads word (offset + s.part.value.length) (rest.map Slot.part) ++ middle ++
          (s.part.value ++ Part.tails (rest.map Slot.part)))
        (by rw [hdata]; simp only [List.append_assoc]) rfl
      have htail : s.read data offset = _ := hs.at hdataFits
        (front ++ word offset ++ Part.heads word (offset + s.part.value.length)
          (rest.map Slot.part) ++ middle)
        (Part.tails (rest.map Slot.part)) (by rw [hdata]; simp only [List.append_assoc])
        (by simp only [List.length_append, hword, Part.length_heads hword]; omega)
      have hgo := ih hrest hposRest (front ++ word offset) (middle ++ s.part.value)
        (by
          rw [hdata, List.length_append, List.length_append, hword]
          rw [show front.length + width + ((rest.map Slot.part).map (Part.headSize width)).sum +
            (middle.length + s.part.value.length) = offset + s.part.value.length by omega]
          simp only [List.append_assoc])
      rw [List.length_append, hword] at hgo
      rw [hword] at hhead
      simp only [readParts, readPart, if_pos hdyn, hhead, ok_bind, htail, pure_bind, hgo]
      rfl
    · rw [Bool.not_eq_true] at hdyn
      simp only [hdyn, Bool.false_eq_true, if_false, List.nil_append] at hdata
      have hhead := hs.at hdataFits front
        (Part.heads word (front.length + (s.part.value.length +
            ((rest.map Slot.part).map (Part.headSize width)).sum) + middle.length)
          (rest.map Slot.part) ++ middle ++ Part.tails (rest.map Slot.part))
        (by rw [hdata]; simp only [List.append_assoc]) rfl
      have hgo := ih hrest hposRest (front ++ s.part.value) middle
        (by
          rw [hdata, List.length_append, Nat.add_assoc front.length s.part.value.length]
          simp only [List.append_assoc])
      rw [List.length_append] at hgo
      simp only [readParts, readPart, hdyn, Bool.false_eq_true, if_false, hhead, ok_bind, hgo]
      rfl

/-- **A layout is read part by part.** -/
theorem readParts_layout (hword : ∀ n, (word n).length = width)
    (hread : ∀ n < bound, Reads fits readWord (word n) n)
    (hfits : ∀ data, fits data → data.length ≤ bound) {slots : List (Slot ε σ α)}
    (hslots : ∀ s ∈ slots, Reads fits s.read s.part.value s.value)
    (hpos : ∀ s ∈ slots, s.part.dynamic → s.part.value ≠ [])
    (hlayout : fits (Part.layout width word (slots.map Slot.part))) :
    readParts readWord (Part.layout width word (slots.map Slot.part)) 0
        (slots.map fun s => (s.part.dynamic, s.read)) = .ok (slots.map Slot.value) :=
  readParts_slots hword hread hfits hslots hpos hlayout [] [] (by simp [Part.layout])

end

end Hmix
