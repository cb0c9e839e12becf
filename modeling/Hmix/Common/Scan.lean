import Mathlib.Data.List.Infix

/-!
# Backtracking scanners

A scanner reads a prefix of a text in every way it can, in the order a
backtracking regular expression would try them: its results are a list of
what was read with the text that remains, best first. Sequencing is that
of lists, so a pattern is written as a `do` block with one line for each of
its parts, and `exec` is the first success from the leftmost place there
is one.
-/

namespace Hmix

/-- **A scanner**: the ways to read a prefix, best first, each with the
rest of the text. -/
def Scanner (α : Type) := List Char → List (α × List Char)

namespace Scanner

variable {α β : Type}

instance : Monad Scanner where
  pure a := fun text => [(a, text)]
  bind m f := fun text => (m text).flatMap fun (a, rest) => f a rest

/-- The prefixes whose characters all satisfy `p`, the shortest first. -/
def spans (p : Char → Bool) : Scanner (List Char)
  | [] => [([], [])]
  | c :: cs => ([], c :: cs) ::
      (if p c then (spans p cs).map fun (read, rest) => (c :: read, rest) else [])

/-- `p*?`: as few as will do. -/
def lazily (p : Char → Bool) : Scanner (List Char) := spans p

/-- `p*`: as many as will do. -/
def greedily (p : Char → Bool) : Scanner (List Char) := fun text => (spans p text).reverse

/-- One character. -/
def char (p : Char → Bool) : Scanner Char
  | c :: cs => if p c then [(c, cs)] else []
  | [] => []

/-- `p+`: as many as will do, and at least one. -/
def oneOrMore (p : Char → Bool) : Scanner (List Char) := do
  let c ← char p
  let cs ← greedily p
  return c :: cs

/-- The characters of `word`, one after the other. -/
def literal : List Char → Scanner PUnit
  | [] => pure ⟨⟩
  | c :: cs => do
    let _ ← char (· == c)
    literal cs

/-- The best success at the head of the text: a pattern that begins with
`^`. -/
def execHere (m : Scanner α) (text : List Char) : Option α := ((m text).head?).map Prod.fst

/-- **`exec`**: the best success from the leftmost place there is one. -/
def exec (m : Scanner α) (text : List Char) : Option α := text.tails.findSome? (execHere m)

/-! ## What can be read

Which successes there are, whatever their order: a scanner reads what its
parts read, one after the other. -/

section

variable {m : Scanner α} {f : α → Scanner β} {p : Char → Bool} {text rest : List Char}

theorem mem_pure {a b : α} : (b, rest) ∈ (pure a : Scanner α) text ↔ b = a ∧ rest = text := by
  change (b, rest) ∈ [(a, text)] ↔ _
  rw [List.mem_singleton, Prod.mk.injEq]

theorem mem_bind {b : β} : (b, rest) ∈ (m >>= f) text ↔
    ∃ a left, (a, left) ∈ m text ∧ (b, rest) ∈ f a left := by
  change (b, rest) ∈ (m text).flatMap (fun (a, left) => f a left) ↔ _
  simp only [List.mem_flatMap, Prod.exists]

theorem mem_spans {read : List Char} :
    (read, rest) ∈ spans p text ↔ text = read ++ rest ∧ ∀ c ∈ read, p c = true := by
  induction text generalizing read with
  | nil =>
    rw [spans, List.mem_singleton, Prod.mk.injEq, eq_comm (a := []), List.append_eq_nil_iff]
    exact ⟨fun h => ⟨h, by simp [h.1]⟩, fun h => h.1⟩
  | cons c cs ih =>
    rw [spans, List.mem_cons, Prod.mk.injEq]
    constructor
    · rintro (⟨rfl, rfl⟩ | h)
      · exact ⟨rfl, fun c hc => absurd hc List.not_mem_nil⟩
      · split_ifs at h with hc
        · obtain ⟨⟨read', rest'⟩, hmem, heq⟩ := List.mem_map.1 h
          obtain ⟨rfl, rfl⟩ := Prod.mk.inj heq
          obtain ⟨rfl, hall⟩ := ih.1 hmem
          exact ⟨rfl, List.forall_mem_cons.2 ⟨hc, hall⟩⟩
        · cases h
    · rintro ⟨heq, hall⟩
      rcases read with - | ⟨d, read⟩
      · exact .inl ⟨rfl, heq.symm⟩
      · obtain ⟨rfl, rfl⟩ := List.cons.inj heq
        obtain ⟨hc, hall⟩ := List.forall_mem_cons.1 hall
        rw [if_pos hc]
        exact .inr (List.mem_map.2 ⟨(read, rest), ih.2 ⟨rfl, hall⟩, rfl⟩)

theorem mem_greedily {read : List Char} :
    (read, rest) ∈ greedily p text ↔ text = read ++ rest ∧ ∀ c ∈ read, p c = true :=
  List.mem_reverse.trans mem_spans

theorem mem_char {c : Char} : (c, rest) ∈ char p text ↔ text = c :: rest ∧ p c = true := by
  rcases text with - | ⟨d, text⟩
  · exact iff_of_false List.not_mem_nil fun h => by cases h.1
  · simp only [char]
    split_ifs with hd
    · rw [List.mem_singleton, Prod.mk.injEq, List.cons.injEq, eq_comm (a := c),
        eq_comm (a := rest)]
      exact ⟨fun h => ⟨h, h.1 ▸ hd⟩, fun h => h.1⟩
    · refine iff_of_false List.not_mem_nil fun h => hd ?_
      obtain ⟨rfl, -⟩ := List.cons.inj h.1
      exact h.2

theorem mem_oneOrMore {read : List Char} : (read, rest) ∈ oneOrMore p text ↔
    text = read ++ rest ∧ read ≠ [] ∧ ∀ c ∈ read, p c = true := by
  simp only [oneOrMore, mem_bind, mem_pure, mem_char, mem_greedily]
  constructor
  · rintro ⟨c, _, ⟨rfl, hc⟩, cs, _, ⟨rfl, hcs⟩, rfl, rfl⟩
    exact ⟨rfl, List.cons_ne_nil c cs, List.forall_mem_cons.2 ⟨hc, hcs⟩⟩
  · rintro ⟨rfl, hne, hall⟩
    obtain ⟨c, cs, rfl⟩ := List.exists_cons_of_ne_nil hne
    obtain ⟨hc, hcs⟩ := List.forall_mem_cons.1 hall
    exact ⟨c, cs ++ rest, ⟨rfl, hc⟩, cs, rest, ⟨rfl, hcs⟩, rfl, rfl⟩

theorem mem_literal {u : PUnit} : ∀ {word text : List Char},
    (u, rest) ∈ literal word text ↔ text = word ++ rest
  | [], text => by
    rw [literal, mem_pure, List.nil_append]
    exact ⟨fun h => h.2.symm, fun h => ⟨rfl, h.symm⟩⟩
  | c :: word, text => by
    simp only [literal, mem_bind, mem_char, mem_literal, beq_iff_eq]
    constructor
    · rintro ⟨c', _, ⟨rfl, rfl⟩, rfl⟩
      rfl
    · rintro rfl
      exact ⟨c, word ++ rest, ⟨rfl, rfl⟩, rfl⟩

/-- A success at the head of the text, where all of them read the same. -/
theorem execHere_eq_some_iff {a : α} (h : ∀ b rest b' rest', (b, rest) ∈ m text →
    (b', rest') ∈ m text → b = b') : execHere m text = some a ↔ ∃ rest, (a, rest) ∈ m text := by
  unfold execHere
  constructor
  · intro ha
    obtain ⟨⟨b, rest⟩, hhead, rfl⟩ := Option.map_eq_some_iff.1 ha
    exact ⟨rest, List.mem_of_mem_head? hhead⟩
  · rintro ⟨rest, hmem⟩
    rcases hm : m text with - | ⟨⟨b, rest'⟩, others⟩
    · rw [hm] at hmem
      cases hmem
    · have hb : (b, rest') ∈ m text := by
        rw [hm]
        exact List.mem_cons_self
      exact congrArg some (h b rest' a rest hb hmem)

end

/-! ## What is read first

Where a text can be read in several ways, the order decides. Each rule below
names the best success of a part; a lazy part is the one that needs to know
that nothing shorter would have done. -/

/-- **The best success**: what is read, and what remains. -/
def Reads (m : Scanner α) (text : List Char) (a : α) (rest : List Char) : Prop :=
  (m text).head? = some (a, rest)

section

variable {m : Scanner α} {f : α → Scanner β} {p : Char → Bool} {text read rest : List Char}

theorem reads_pure (a : α) (text : List Char) : Reads (pure a) text a text := rfl

/-- The best of the first part will do for the second. -/
theorem Reads.bind {a : α} {b : β} {left : List Char} (h : Reads m text a left)
    (hf : Reads (f a) left b rest) : Reads (m >>= f) text b rest := by
  obtain ⟨others, hm⟩ := List.head?_eq_some_iff.1 h
  obtain ⟨others', hf'⟩ := List.head?_eq_some_iff.1 hf
  change ((m text).flatMap fun (a, rest) => f a rest).head? = _
  simp [hm, hf']

theorem reads_literal : ∀ (word rest : List Char), Reads (literal word) (word ++ rest) ⟨⟩ rest
  | [], rest => reads_pure _ rest
  | c :: word, rest => by
    have hc : Reads (char (· == c)) (c :: (word ++ rest)) c (word ++ rest) := by
      simp [Reads, char]
    exact hc.bind (reads_literal word rest)

/-- The longest prefix comes last. -/
theorem getLast?_spans (hall : ∀ c ∈ read, p c = true) (hrest : ∀ c ∈ rest.head?, p c = false) :
    (spans p (read ++ rest)).getLast? = some (read, rest) := by
  induction read with
  | nil =>
    rcases rest with - | ⟨c, rest⟩
    · rfl
    · have hc : p c = false := hrest c rfl
      simp [spans, hc]
  | cons c read ih =>
    obtain ⟨hc, hall⟩ := List.forall_mem_cons.1 hall
    rw [List.cons_append, spans, if_pos hc, List.getLast?_cons, List.getLast?_map, ih hall]
    rfl

/-- **A greedy part takes all it can.** -/
theorem reads_oneOrMore (hne : read ≠ []) (hall : ∀ c ∈ read, p c = true)
    (hrest : ∀ c ∈ rest.head?, p c = false) : Reads (oneOrMore p) (read ++ rest) read rest := by
  obtain ⟨c, read, rfl⟩ := List.exists_cons_of_ne_nil hne
  obtain ⟨hc, hall⟩ := List.forall_mem_cons.1 hall
  have hchar : Reads (char p) (c :: (read ++ rest)) c (read ++ rest) := by
    simp [Reads, char, hc]
  have hgreedily : Reads (greedily p) (read ++ rest) read rest := by
    rw [Reads, greedily, List.head?_reverse]
    exact getLast?_spans hall hrest
  exact hchar.bind (hgreedily.bind (reads_pure (c :: read) rest))

/-- **A lazy part takes as little as will do**: with nothing shorter could the
rest be read. -/
theorem Reads.lazily {f : List Char → Scanner β} {b : β} {left : List Char}
    (hall : ∀ c ∈ read, p c = true)
    (hshorter : ∀ taken skipped, read = taken ++ skipped → skipped ≠ [] →
      f taken (skipped ++ rest) = [])
    (hf : Reads (f read) rest b left) : Reads (lazily p >>= f) (read ++ rest) b left := by
  change ((spans p (read ++ rest)).flatMap fun (a, rest) => f a rest).head? = _
  induction read generalizing f with
  | nil =>
    obtain ⟨others, hf'⟩ := List.head?_eq_some_iff.1 hf
    rw [List.nil_append]
    cases rest <;> simp [spans, hf']
  | cons c read ih =>
    obtain ⟨hc, hall⟩ := List.forall_mem_cons.1 hall
    have hnone : f [] (c :: (read ++ rest)) = [] := hshorter [] (c :: read) rfl (by simp)
    have hrest := ih (f := fun taken => f (c :: taken)) hall
      (fun taken skipped heq hne => hshorter (c :: taken) skipped (by rw [heq]; rfl) hne) hf
    simp only [List.cons_append, spans, if_pos hc, List.flatMap_cons, hnone, List.nil_append,
      List.flatMap_map]
    exact hrest

/-- A success at the head of the text is the one `exec` finds. -/
theorem Reads.exec {a : α} (h : Reads m text a rest) : exec m text = some a := by
  have hhere : execHere m text = some a := by rw [execHere, h]; rfl
  cases text with
  | nil => simp [Scanner.exec, hhere]
  | cons c text => simp [Scanner.exec, hhere]

/-- **`exec` finds nothing** where there is no success at any place. -/
theorem exec_eq_none_iff :
    exec m text = none ↔ ∀ before behind, text = before ++ behind → m behind = [] := by
  simp only [Scanner.exec, List.findSome?_eq_none_iff, List.mem_tails, execHere,
    Option.map_eq_none_iff, List.head?_eq_none_iff]
  constructor
  · rintro h before behind rfl
    exact h behind (List.suffix_append before behind)
  · rintro h behind ⟨before, rfl⟩
    exact h before behind rfl

end

end Scanner

end Hmix
