import Hmix.Model.CompilerResult
import Mathlib.Algebra.GroupWithZero.Nat

/-!
# Reading an error back

`parseError` takes the first text of the shape `name:line:column: type:
message`, wherever that begins, and takes the name and the type as short as
it can. A formatted error is read back as what was formatted if its name has
no place in it, `:digits:digits: `, and its type no colon with a space: a
place that began inside the name and ended behind it would have four colons
(`located_ne_append`).
-/

namespace Hmix

/-! ## Formatted errors -/

/-- A place in a text: a line and a column. -/
def located (line column : List Char) : List Char :=
  ':' :: (line ++ ':' :: (column ++ [':', ' ']))

/-- Decimal digits, and at least one. -/
structure Digits (digits : List Char) : Prop where
  ne_nil : digits ≠ []
  digit : ∀ c ∈ digits, c.isDigit = true

/-- **The shape of an error**, after its file name. -/
def shape (line column errorType message : List Char) : List Char :=
  located line column ++ (errorType ++ [':', ' '] ++ message)

/-- **The text has the shape of an error somewhere.** The file name may be empty,
so it is part of what comes before. -/
def Shaped (text : List Char) : Prop :=
  ∃ before line column errorType message, text = before ++ shape line column errorType message ∧
    Digits line ∧ Digits column ∧ (∀ c ∈ errorType, dot c = true) ∧ message ≠ []

/-- **An error as the compiler formats it.** -/
structure FormattedError where
  fileName : String
  lineNumber : ℕ
  columnNumber : ℕ
  errorType : String
  message : String
  fileName_dot : ∀ c ∈ fileName.toList, dot c = true
  /-- The name has no place in it. -/
  fileName_free : ∀ line column, Digits line → Digits column →
    ¬ located line column <:+: fileName.toList
  lineNumber_lt : lineNumber < 2 ^ 53
  columnNumber_lt : columnNumber < 2 ^ 53
  errorType_dot : ∀ c ∈ errorType.toList, dot c = true
  errorType_free : ¬ [':', ' '] <:+: errorType.toList
  message_ne : message ≠ ""

namespace FormattedError

/-- The text of it. -/
def text (e : FormattedError) : String :=
  e.fileName ++ ":" ++ toString e.lineNumber ++ ":" ++ toString e.columnNumber ++ ": " ++
    e.errorType ++ ": " ++ e.message

/-- What should be read. -/
def parsed (e : FormattedError) : ICompilerError where
  fileName := some e.fileName
  lineNumber := some e.lineNumber
  columnNumber := some e.columnNumber
  errorType := e.errorType
  message := some (.str e.message)

end FormattedError

/-! ## What the pattern reads -/

section

variable {line column errorType message rest : List Char}

/-- The pattern, after the file name. -/
def afterName (fileName : List Char) : Scanner ICompilerError := do
  Scanner.literal [':']
  let lineNumber ← Scanner.oneOrMore Char.isDigit
  Scanner.literal [':']
  let columnNumber ← Scanner.oneOrMore Char.isDigit
  Scanner.literal [':', ' ']
  let errorType ← Scanner.lazily dot
  Scanner.literal [':', ' ']
  let message ← Scanner.oneOrMore fun _ => true
  return {
    fileName := some (String.ofList fileName)
    lineNumber := some (errorPattern.parseInt lineNumber)
    columnNumber := some (errorPattern.parseInt columnNumber)
    errorType := String.ofList errorType
    message := some (.str (String.ofList message)) }

theorem errorPattern_eq : errorPattern = Scanner.lazily dot >>= afterName := rfl

/-- **What can be read after a file name** has the shape. -/
theorem mem_afterName {fileName text : List Char} {error : ICompilerError}
    (h : (error, rest) ∈ afterName fileName text) :
    ∃ line column errorType message, text = shape line column errorType message ++ rest ∧
      Digits line ∧ Digits column ∧ (∀ c ∈ errorType, dot c = true) ∧ message ≠ [] := by
  simp only [afterName, Scanner.mem_bind, Scanner.mem_literal, Scanner.mem_oneOrMore,
    Scanner.mem_pure] at h
  obtain ⟨-, _, rfl, line, _, ⟨rfl, hline⟩, -, _, rfl, column, _, ⟨rfl, hcolumn⟩, -, _, rfl,
    errorType, _, htype, -, _, rfl, message, _, ⟨rfl, hmessage, -⟩, -, rfl⟩ := h
  obtain ⟨rfl, hdot⟩ := Scanner.mem_spans.1 htype
  exact ⟨line, column, errorType, message, by simp [shape, located], ⟨hline.1, hline.2⟩,
    ⟨hcolumn.1, hcolumn.2⟩, hdot, hmessage⟩

/-- A type that has no colon with a space ends at the first. -/
theorem colon_space_unique {taken skipped message' : List Char}
    (hfree : ¬ [':', ' '] <:+: errorType) (htype : errorType = taken ++ skipped)
    (hne : skipped ≠ []) : skipped ++ ':' :: ' ' :: message ≠ ':' :: ' ' :: message' := by
  intro heq
  rcases skipped with - | ⟨c, - | ⟨d, skipped⟩⟩
  · exact hne rfl
  · -- one colon is skipped, and the next character would be a space
    simp at heq
  · obtain ⟨rfl, rfl, -⟩ : c = ':' ∧ d = ' ' ∧ _ := by simpa using heq
    exact hfree ⟨taken, skipped, by simp [htype]⟩

/-- What is no digit is not among digits. -/
theorem Digits.count_eq_zero {c : Char} (h : Digits line) (hc : c.isDigit = false) :
    line.count c = 0 :=
  List.count_eq_zero.2 fun hmem => absurd ((h.digit c hmem).symm.trans hc) (by decide)

theorem count_colon_located (hline : Digits line) (hcolumn : Digits column) :
    (located line column).count ':' = 3 := by
  have hl : line.count ':' = 0 := hline.count_eq_zero rfl
  have hc : column.count ':' = 0 := hcolumn.count_eq_zero rfl
  simp [located, hl, hc]

theorem count_space_located (hline : Digits line) (hcolumn : Digits column) :
    (located line column).count ' ' = 1 := by
  have hl : line.count ' ' = 0 := hline.count_eq_zero rfl
  have hc : column.count ' ' = 0 := hcolumn.count_eq_zero rfl
  simp [located, hl, hc]

/-- A place ends with its space. -/
theorem space_mem_of_located {before behind : List Char}
    (h : located line column = before ++ behind) (hne : behind ≠ []) : ' ' ∈ behind := by
  have hend : located line column = (':' :: (line ++ ':' :: (column ++ [':']))) ++ [' '] := by
    simp [located]
  have hlast : (before ++ behind).getLast? = some ' ' := by
    rw [← h, hend, List.getLast?_append_of_ne_nil _ (by simp)]
    rfl
  rw [List.getLast?_append_of_ne_nil _ hne] at hlast
  exact List.mem_of_getLast? hlast

/-- **No place begins before another and ends in it**: a text that has a place
at its head, and is followed by one, has the whole of its own. -/
theorem located_prefix {line' column' skipped rest' : List Char} (hline : Digits line)
    (hcolumn : Digits column) (hline' : Digits line') (hcolumn' : Digits column')
    (hne : skipped ≠ [])
    (heq : skipped ++ (located line column ++ rest) = located line' column' ++ rest') :
    located line' column' <+: skipped := by
  rcases List.append_eq_append_iff.1 heq with ⟨behind, hplace, hrest⟩ | ⟨behind, hskipped, -⟩
  · by_contra hnot
    have hbehind : behind ≠ [] := by
      rintro rfl
      exact hnot (by rw [hplace, List.append_nil])
    have hspace : 0 < behind.count ' ' :=
      List.count_pos_iff.2 (space_mem_of_located hplace hbehind)
    -- the first colon is skipped, so two are left for what is behind
    have htwo : behind.count ':' ≤ 2 := by
      have hthree := count_colon_located hline' hcolumn'
      rw [hplace, List.count_append] at hthree
      have hhead : 0 < skipped.count ':' := by
        obtain ⟨c, skipped', rfl⟩ := List.exists_cons_of_ne_nil hne
        obtain rfl : ':' = c := (List.cons.inj hplace).1
        simp
      omega
    rcases List.append_eq_append_iff.1 hrest with ⟨more, hbehind', -⟩ | ⟨more, hplace', -⟩
    · have hthree := count_colon_located hline hcolumn
      rw [hbehind', List.count_append] at htwo
      omega
    · -- and the space of the other place is not behind them
      have hone := count_space_located hline hcolumn
      have hthree := count_colon_located hline hcolumn
      rw [hplace', List.count_append] at hone hthree
      by_cases hmore : more = []
      · subst hmore
        simp only [List.count_nil] at hthree
        omega
      · have hspace' : 0 < more.count ' ' :=
          List.count_pos_iff.2 (space_mem_of_located hplace' hmore)
        omega
  · exact ⟨behind, hskipped.symm⟩

end

/-! ## The two halves -/

section

variable {line column errorType message fileName : List Char}

/-- **What is read first after the name**: the numbers to their ends, the type
to its colon, and all the rest. -/
theorem reads_afterName (hline : Digits line) (hcolumn : Digits column)
    (hdot : ∀ c ∈ errorType, dot c = true) (hfree : ¬ [':', ' '] <:+: errorType)
    (hmessage : message ≠ []) : (afterName fileName).Reads
      (shape line column errorType message)
      { fileName := some (String.ofList fileName)
        lineNumber := some (errorPattern.parseInt line)
        columnNumber := some (errorPattern.parseInt column)
        errorType := String.ofList errorType
        message := some (.str (String.ofList message)) } [] := by
  have hcolon : ∀ {rest : List Char}, ∀ c ∈ (':' :: rest).head?, c.isDigit = false := by
    rintro rest c ⟨⟩
    rfl
  have hshape : shape line column errorType message = [':'] ++ (line ++ ([':'] ++ (column ++
      ([':', ' '] ++ (errorType ++ ([':', ' '] ++ message)))))) := by
    simp [shape, located]
  rw [hshape]
  refine (Scanner.reads_literal _ _).bind ?_
  refine (Scanner.reads_oneOrMore hline.ne_nil hline.digit hcolon).bind ?_
  refine (Scanner.reads_literal _ _).bind ?_
  refine (Scanner.reads_oneOrMore hcolumn.ne_nil hcolumn.digit hcolon).bind ?_
  refine (Scanner.reads_literal _ _).bind ?_
  refine Scanner.Reads.lazily hdot (fun taken skipped htype hne => ?_) ?_
  · refine List.eq_nil_iff_forall_not_mem.2 fun ⟨_, _⟩ hmem => ?_
    simp only [Scanner.mem_bind, Scanner.mem_literal] at hmem
    obtain ⟨-, _, heq, -⟩ := hmem
    exact colon_space_unique hfree htype hne heq
  · refine (Scanner.reads_literal _ _).bind ?_
    have hall : (Scanner.oneOrMore fun _ => true).Reads message message [] := by
      have h := @Scanner.reads_oneOrMore (fun _ => true) message [] hmessage (fun _ _ => rfl)
        (fun _ hc => absurd hc (Option.not_mem_none _))
      rwa [List.append_nil] at h
    exact hall.bind (Scanner.reads_pure _ _)

/-- **A formatted error is the best success**, at the head of its text. -/
theorem reads_errorPattern (hname : ∀ c ∈ fileName, dot c = true)
    (hplace : ∀ line column, Digits line → Digits column →
      ¬ located line column <:+: fileName)
    (hline : Digits line) (hcolumn : Digits column) (hdot : ∀ c ∈ errorType, dot c = true)
    (hfree : ¬ [':', ' '] <:+: errorType) (hmessage : message ≠ []) :
    errorPattern.exec (fileName ++ shape line column errorType message) = some
      { fileName := some (String.ofList fileName)
        lineNumber := some (errorPattern.parseInt line)
        columnNumber := some (errorPattern.parseInt column)
        errorType := String.ofList errorType
        message := some (.str (String.ofList message)) } := by
  rw [errorPattern_eq]
  refine Scanner.Reads.exec (Scanner.Reads.lazily hname (fun taken skipped heq hne => ?_)
    (reads_afterName hline hcolumn hdot hfree hmessage))
  -- a place that is found sooner is in the name
  refine List.eq_nil_iff_forall_not_mem.2 fun ⟨_, _⟩ hmem => ?_
  obtain ⟨line', column', errorType', message', htext, hline', hcolumn', -⟩ := mem_afterName hmem
  simp only [shape, List.append_assoc] at htext
  have hpre := located_prefix hline hcolumn hline' hcolumn' hne htext
  exact hplace line' column' hline' hcolumn' (hpre.isInfix.trans ⟨taken, [], by simp [heq]⟩)

/-- **Nothing is found** in a text that has the shape nowhere. -/
theorem exec_errorPattern_eq_none {text : List Char} (h : ¬ Shaped text) :
    errorPattern.exec text = none := by
  rw [errorPattern_eq, Scanner.exec_eq_none_iff]
  rintro before behind rfl
  refine List.eq_nil_iff_forall_not_mem.2 fun ⟨error, rest⟩ hmem => h ?_
  obtain ⟨fileName, left, hname, hafter⟩ := Scanner.mem_bind.1 hmem
  obtain ⟨rfl, -⟩ := Scanner.mem_spans.1 hname
  obtain ⟨line, column, errorType, message, rfl, hline, hcolumn, hdot, hmessage⟩ :=
    mem_afterName hafter
  exact ⟨before ++ fileName, line, column, errorType, message ++ rest, by simp [shape], hline,
    hcolumn, hdot, by simp [hmessage]⟩

end

/-! ## Decimal numbers -/

theorem digits_toString (n : ℕ) : Digits (toString n).toList := by
  have hdigits : (toString n).toList = Nat.toDigits 10 n := Nat.toList_repr
  rw [hdigits]
  exact ⟨Nat.toDigits_ne_nil, fun c hc => Nat.isDigit_of_mem_toDigits (by decide) (by decide) hc⟩

/-- `parseInt` reads what was written. -/
theorem parseInt_toString (n : ℕ) : errorPattern.parseInt (toString n).toList = n := by
  have hdigits : (toString n).toList = Nat.toDigits 10 n := Nat.toList_repr
  rw [hdigits, errorPattern.parseInt, ← Nat.ofDigitChars_eq_foldl]
  exact Nat.ofDigitChars_ten_toDigits

/-- **`parseError` reads back what was formatted**, and of a text that has the
shape nowhere it makes the whole a message. -/
theorem parseError_reads_back :
    (∀ e : FormattedError, parseError (some (.str e.text)) = e.parsed) ∧
    ∀ text : String, ¬ Shaped text.toList →
      parseError (some (.str text)) = ⟨none, none, none, "error", some (.str text)⟩ := by
  constructor
  · intro e
    have htext : e.text.toList = e.fileName.toList ++ shape (toString e.lineNumber).toList
        (toString e.columnNumber).toList e.errorType.toList e.message.toList := by
      simp [FormattedError.text, shape, located]
    have hmessage : e.message.toList ≠ [] := by
      simpa [String.toList_eq_nil_iff] using e.message_ne
    simp only [parseError, htext, reads_errorPattern e.fileName_dot e.fileName_free
      (digits_toString _) (digits_toString _) e.errorType_dot e.errorType_free hmessage,
      Option.getD_some, parseInt_toString, String.ofList_toList, FormattedError.parsed]
  · intro text hshape
    simp only [parseError, exec_errorPattern_eq_none hshape, Option.getD_none]

/-- An error in a file with colons and numbers in its name. -/
def FormattedError.straddling : FormattedError where
  fileName := "A.sol:1"
  lineNumber := 2
  columnNumber := 30
  errorType := "ParserError"
  message := "Expected ;\n"
  fileName_dot := by simp [dot]
  fileName_free := fun line column hline hcolumn h => by
    -- a place has a space, and the name has none
    obtain ⟨before, behind, heq⟩ := h
    have hspace := congrArg (List.count ' ') heq
    rw [List.count_append, List.count_append, count_space_located hline hcolumn] at hspace
    simp at hspace
  lineNumber_lt := by decide
  columnNumber_lt := by decide
  errorType_dot := by simp [dot]
  errorType_free := fun h => by simpa using h.subset List.mem_cons_self
  message_ne := by decide

theorem straddling_reads_back :
    parseError (some (.str "A.sol:1:2:30: ParserError: Expected ;\n")) =
      FormattedError.straddling.parsed :=
  parseError_reads_back.1 .straddling

end Hmix
