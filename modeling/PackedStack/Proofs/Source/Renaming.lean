import PackedStack.Proofs.Source.Statements
import PackedStack.Proofs.Symbol.Resolution
import PackedStack.Proofs.Text.Words

/-!
# Renaming the labels of a source

A label is named where it is defined and, behind a mark, where it is used. Renaming changes the two
and keeps everything else of a line (`Line.rename`). A line with an operand says the same about any
other operand in its place (`Statement.operand_cases`), and a marked operand is a token whatever
name it marks, so that the renamed line makes the renamed statement (`Line.parse_rename`). Reading a
renamed source therefore gives the renamed program (`Source.read_rename`).
-/

namespace PackedStack

/-! ## The text after the first word -/

namespace Text

/-- The line with the text after its first word changed. The blank characters around it stay. -/
def changeAfterFirstWord (f : List Char → List Char) (cs : List Char) : List Char :=
  let rest := cs.dropWhile fun c => !isBlank c
  firstWord cs ++ (rest.takeWhile isBlank ++ (f (trim rest) ++
    ((rest.dropWhile isBlank).reverse.takeWhile isBlank).reverse))

theorem firstWord_cons {c : Char} (h : isBlank c = false) (cs : List Char) :
    firstWord (c :: cs) = c :: firstWord cs := by
  rw [firstWord, List.takeWhile_cons_of_pos (by simp [h])]
  rfl

theorem afterFirstWord_changeAfterFirstWord {f : List Char → List Char} {cs : List Char}
    (hne : afterFirstWord cs ≠ []) (hf : Trimmed (f (afterFirstWord cs))) :
    afterFirstWord (changeAfterFirstWord f cs) = f (afterFirstWord cs) := by
  refine afterFirstWord_append List.all_takeWhile ?_ List.all_takeWhile hf
    (by rw [List.all_reverse, List.all_takeWhile])
  -- the character that ends the word is blank
  have hhead := List.head?_dropWhile_not (fun c => !isBlank c) cs
  rw [afterFirstWord] at hne
  cases hrest : cs.dropWhile fun c => !isBlank c with
  | nil =>
    rw [hrest] at hne
    exact absurd rfl hne
  | cons b rest =>
    rw [hrest] at hhead
    have hb : isBlank b := by simpa using hhead
    rw [List.takeWhile_cons_of_pos hb]
    exact List.cons_ne_nil _ _

end Text

/-! ## Operands -/

namespace Labels

/-- A marked token with its name changed, and any other token as it is. -/
def renameToken (r : String → String) (token : String) : String :=
  match token.toList with
  | '&' :: name => "&" ++ r (String.ofList name)
  | _ => token

variable {r : String → String} {token : String}

theorem renameToken_of_marked (h : token.toList.head? = some '&') :
    renameToken r token = "&" ++ r (unmarked token) := by
  obtain ⟨cs, hcs⟩ := List.head?_eq_some_iff.1 h
  simp only [renameToken, unmarked, hcs]

theorem renameToken_of_not_marked (h : token.toList.head? ≠ some '&') :
    renameToken r token = token := by
  rw [renameToken]
  split
  · rename_i hcs
    exact absurd (hcs ▸ rfl) h
  · rfl

theorem head?_renameToken_of_marked (h : token.toList.head? = some '&') :
    (renameToken r token).toList.head? = some '&' := by
  rw [renameToken_of_marked h, head?_mark]

theorem unmarked_renameToken (h : token.toList.head? = some '&') :
    unmarked (renameToken r token) = r (unmarked token) := by
  rw [renameToken_of_marked h, unmarked_mark]

theorem toList_renameToken_ne_nil (h : token.toList ≠ []) : (renameToken r token).toList ≠ [] := by
  by_cases hmarked : token.toList.head? = some '&'
  · rw [renameToken_of_marked hmarked, String.toList_append]
    exact List.cons_ne_nil '&' _
  · rwa [renameToken_of_not_marked hmarked]

/-- A token stays a token without blank characters at its ends. -/
theorem trimmed_renameToken (hr : ∀ name, ∀ c ∈ (r name).toList.getLast?, Text.isBlank c = false)
    (h : Text.Trimmed token.toList) : Text.Trimmed (renameToken r token).toList := by
  by_cases hmarked : token.toList.head? = some '&'
  · rw [renameToken_of_marked hmarked, String.toList_append]
    exact Text.trimmed_cons (by decide) (hr _)
  · rwa [renameToken_of_not_marked hmarked]

end Labels

namespace Operand

variable (r : String → String)

def rename : Operand → Operand
  | value w => value w
  | token t => token (Labels.renameToken r t)

@[simp] theorem rename_value (w : Word) : (value w).rename r = value w := rfl

theorem parse_renameToken (text : String) :
    Operand.parse (Labels.renameToken r text) = (Operand.parse text).rename r := by
  by_cases hmarked : text.toList.head? = some '&'
  · have htext := Word.parse?_of_marked hmarked
    have hrenamed := Word.parse?_of_marked (Labels.head?_renameToken_of_marked (r := r) hmarked)
    rw [Operand.parse, Operand.parse, htext, hrenamed]
    rfl
  · rw [Labels.renameToken_of_not_marked hmarked, Operand.parse]
    split
    · rfl
    · rw [rename, Labels.renameToken_of_not_marked hmarked]

theorem text_rename (o : Operand) : (o.rename r).text = Labels.renameToken r o.text := by
  cases o with
  | value w =>
    have hmarked : w.toDecimal.toList.head? ≠ some '&' := by
      intro h
      have hnone := Word.parse?_of_marked h
      rw [Word.parse?_toDecimal] at hnone
      cases hnone
    exact (Labels.renameToken_of_not_marked hmarked).symm
  | token t => rfl

end Operand

/-! ## Statements -/

namespace Statement

/-- The statement with its labels renamed, those that it defines and those that its operand names.
-/
def rename (r : String → String) : Statement → Statement
  | label name => label (r name)
  | instruction i => instruction (i.map (Operand.rename r))
  | data operand => data (operand.rename r)
  | s => s

/-- A statement with an operand is known by the first two characters of its line. -/
theorem operand_cases {text : String} {s : Statement} (h : parse text = .ok s)
    (hs : s.operands ≠ []) :
    Text.afterFirstWord text.toList ≠ [] ∧
      ((∃ w, text.toList = '.' :: 'd' :: w) ∨ ∃ w, text.toList = 'l' :: 'i' :: w) := by
  cases readFrom_of_parse h with
  | data hline hne => exact ⟨hne, .inl ⟨_, hline⟩⟩
  | literal hline hne => exact ⟨hne, .inr ⟨_, hline⟩⟩
  | _ => exact absurd rfl hs

end Statement

/-! ## Errors -/

/-- The cause with the label renamed that it names. -/
def Cause.rename (r : String → String) : Cause → Cause
  | undefinedLabel name => undefinedLabel (r name)
  | cause => cause

def Error.rename (r : String → String) (e : Error) : Error := { e with cause := e.cause.rename r }

namespace Statement

variable (r : String → String)

theorem rename_failure?_requireOperand (word rest : List Char) :
    (failure? (requireOperand word rest)).map (Cause.rename r) =
      failure? (requireOperand word rest) := by
  rw [requireOperand]
  split <;> rfl

theorem rename_failure?_parseCount (text : String) :
    (failure? (parseCount text)).map (Cause.rename r) = failure? (parseCount text) := by
  rw [parseCount]
  split
  · split <;> rfl
  · rfl

/-- A line that makes no statement is not refused for the name of a label. -/
theorem rename_failure?_parse (text : String) :
    (failure? (parse text)).map (Cause.rename r) = failure? (parse text) := by
  simp only [parse]
  split
  · rfl
  · simp only [parseDirective]
    split
    · rw [failure?_map, rename_failure?_requireOperand]
    · rw [failure?_map, rename_failure?_requireOperand]
    · rfl
    · rfl
    · rfl
    · have hrequire := rename_failure?_requireOperand r (Text.firstWord text.toList)
        (Text.afterFirstWord text.toList)
      cases hoperand : requireOperand (Text.firstWord text.toList)
          (Text.afterFirstWord text.toList) with
      | error cause => rw [hoperand] at hrequire; exact hrequire
      | ok operand =>
        have hcount := rename_failure?_parseCount r operand
        show (failure? (parseCount operand >>= fun count => .ok (allocate count))).map _ =
          failure? (parseCount operand >>= fun count => .ok (allocate count))
        cases hparse : parseCount operand with
        | error cause => rw [hparse] at hcount; exact hcount
        | ok count => rfl
    · rfl
  · simp only [parseInstruction]
    split
    · rw [failure?_map, rename_failure?_requireOperand]
    · rfl
    · rfl

end Statement

/-! ## Lines -/

namespace Line

/-- The text of a line with the name behind the mark of its operand changed. -/
def renamedOperand (r : String → String) (line : Line) : String :=
  String.ofList (Text.changeAfterFirstWord
    (fun cs => (Labels.renameToken r (String.ofList cs)).toList) line.text.toList)

/-- The line with its labels renamed: the name of a label where it is defined, and the name behind
the mark of an operand where it is used. -/
def rename (r : String → String) (line : Line) : Line :=
  match line.statement? with
  | some (.label name) => { line with text := ":" ++ r name }
  | some (.data _) | some (.instruction ⟨_, some _⟩) => { line with text := line.renamedOperand r }
  | _ => line

variable {r : String → String}
  (hr : ∀ name, ∀ c ∈ (r name).toList.getLast?, Text.isBlank c = false)

theorem number_rename (line : Line) : (line.rename r).number = line.number := by
  rw [rename]
  split <;> rfl

theorem rename_of_parse_eq_error {line : Line} {cause : Cause}
    (h : Statement.parse line.text = .error cause) : line.rename r = line := by
  have hnone : line.statement? = none := by
    rw [statement?, h]
    rfl
  rw [rename, hnone]

include hr

/-- The operand of a line is renamed in its place, behind the same two characters. -/
theorem renamedOperand_spec {line : Line} {c d : Char} {w : List Char}
    (htext : line.text.toList = c :: d :: w) (hc : Text.isBlank c = false)
    (hd : Text.isBlank d = false) (hne : Text.afterFirstWord line.text.toList ≠ []) :
    (∃ w', (line.renamedOperand r).toList = c :: d :: w') ∧
      String.ofList (Text.afterFirstWord (line.renamedOperand r).toList) =
        Labels.renameToken r line.operandText ∧
      Text.afterFirstWord (line.renamedOperand r).toList ≠ [] := by
  have htrimmed : Text.Trimmed (Labels.renameToken r line.operandText).toList := by
    refine Labels.trimmed_renameToken hr ?_
    rw [operandText, String.toList_ofList]
    exact Text.trimmed_trim _
  have hafter : Text.afterFirstWord (line.renamedOperand r).toList =
      (Labels.renameToken r line.operandText).toList := by
    rw [renamedOperand, String.toList_ofList]
    exact Text.afterFirstWord_changeAfterFirstWord hne htrimmed
  refine ⟨?_, ?_, ?_⟩
  · rw [renamedOperand, String.toList_ofList, htext, Text.changeAfterFirstWord,
      Text.firstWord_cons hc, Text.firstWord_cons hd]
    exact ⟨_, rfl⟩
  · rw [hafter, String.ofList_toList]
  · rw [hafter]
    refine Labels.toList_renameToken_ne_nil ?_
    rwa [operandText, String.toList_ofList]

/-- The renamed line makes the renamed statement. -/
theorem parse_rename (line : Line) :
    Statement.parse (line.rename r).text =
      (Statement.parse line.text).map (Statement.rename r) := by
  cases h : Statement.parse line.text with
  | error cause =>
    rw [rename_of_parse_eq_error h, h]
    rfl
  | ok s =>
    have hsome := statement?_eq_some_iff.2 h
    by_cases hs : s.operands = []
    · cases s with
      | label name =>
        rw [rename, hsome]
        simp [Statement.parse, Except.map, Statement.rename]
      | data operand => cases hs
      | instruction i =>
        obtain ⟨opcode, operand⟩ := i
        cases operand with
        | none => rw [rename, hsome]; exact h
        | some operand => cases hs
      | _ => rw [rename, hsome]; exact h
    · obtain ⟨hne, hfront⟩ := Statement.operand_cases h hs
      rcases hfront with ⟨w, hw⟩ | ⟨w, hw⟩
      · obtain ⟨⟨w', hw'⟩, htext, hne'⟩ := renamedOperand_spec hr hw (by decide) (by decide) hne
        rw [Statement.parse_data hw hne] at h
        cases h
        rw [rename, hsome]
        show Statement.parse (line.renamedOperand r) = _
        rw [Statement.parse_data hw' hne', htext, Operand.parse_renameToken]
        rfl
      · obtain ⟨⟨w', hw'⟩, htext, hne'⟩ := renamedOperand_spec hr hw (by decide) (by decide) hne
        rw [Statement.parse_lit hw hne] at h
        cases h
        rw [rename, hsome]
        show Statement.parse (line.renamedOperand r) = _
        rw [Statement.parse_lit hw' hne', htext, Operand.parse_renameToken]
        rfl

end Line

/-- Reading a renamed source gives the renamed program, or the same error. -/
theorem Source.read_rename {r : String → String}
    (hr : ∀ name, ∀ c ∈ (r name).toList.getLast?, Text.isBlank c = false) (lines : List Line) :
    read (lines.map (Line.rename r)) =
      mapBoth (List.map (Prod.map (Line.rename r) (Statement.rename r))) (Error.rename r)
        (read lines) := by
  refine mapM_map_eq_mapBoth fun line _ => ?_
  rw [Line.parse_rename hr]
  cases h : Statement.parse line.text with
  | ok s => rfl
  | error cause =>
    have hcause := Statement.rename_failure?_parse r line.text
    rw [h] at hcause
    have hrename : cause.rename r = cause := Option.some.inj hcause
    rw [Line.rename_of_parse_eq_error h]
    show Except.error ((Error.ofCause cause).locatedAt line) =
      Except.error ((Error.ofCause (cause.rename r)).locatedAt line)
    rw [hrename]

end PackedStack
