import PackedStack.Proofs.Source.Load
import PackedStack.Proofs.Source.Statements
import PackedStack.Proofs.Symbol.Resolution

/-!
# References to labels

A label is defined by its name behind a colon, as it stands there, and is referred to by its name
behind a mark, in text that is cut into words and trimmed before it is looked at. Both ways lead to
the same name if the name does not end in a blank character, which no name in loaded source does
(`Source.not_isBlank_of_label`): the mark keeps the front of the name from being trimmed and the
whole from being taken for a number (`Labels.resolve_mark`). A text without a mark is a number if it
can be one, and otherwise a name (`Labels.resolve_of_not_marked`). Resolving the cells of an image
gives what resolving the texts of its operands gives (`Image.resolve_parse`).
-/

namespace PackedStack

/-! ## What names and tokens stand for -/

namespace Labels

/-- The address of the label with the given name. -/
def resolveName (labels : Labels) (name : String) : Except Cause Word :=
  match labels.lookup name with
  | some offset => .ok (Word.ofAddress offset)
  | none => .error (.undefinedLabel name)

variable (labels : Labels)

theorem resolve_mark (name : String) : labels.resolve ("&" ++ name) = labels.resolveName name := by
  rw [Labels.resolve, Word.parse?_of_marked (head?_mark name), unmarked_mark]
  rfl

theorem resolve_of_not_marked {token : String} (h : token.toList.head? ≠ some '&') :
    labels.resolve token =
      match Word.parse? token with
      | some w => .ok w
      | none => labels.resolveName token := by
  rw [Labels.resolve, unmarked_of_not_marked h]
  rfl

/-- A name that is defined can be resolved, whether or not it was defined before. -/
theorem exists_resolveName_define (name : String) (definition : Definition) :
    ∃ w, (labels.define name definition).resolveName name = .ok w := by
  rw [resolveName, lookup_define, if_pos rfl]
  cases labels.lookup name with
  | none => exact ⟨_, rfl⟩
  | some offset => exact ⟨_, rfl⟩

/-- A name stands for the same whatever other names are defined. -/
theorem resolveName_define_of_ne {name other : String} (h : other ≠ name)
    (definition : Definition) :
    (labels.define other definition).resolveName name = labels.resolveName name := by
  rw [resolveName, lookup_define, if_neg (Ne.symm h), Option.or_none, resolveName]

end Labels

/-! ## Images -/

/-- Cells that were read from texts resolve as the texts do. -/
theorem Image.resolve_parse (labels : Labels) (texts : List String) :
    (Image.empty.append (texts.map fun text => .data (Operand.parse text))).resolve labels =
      (texts.mapM labels.resolve).map fun words => Image.empty.append (words.map .data) := by
  have hcell : ∀ text ∈ texts, Cell.resolve labels (.data (Operand.parse text)) =
      mapBoth .data id (labels.resolve text) := by
    intro text _
    rw [Cell.resolve, ← Operand.resolve_parse]
    show (Operand.resolve labels (Operand.parse text)).map _ = _
    cases (Operand.parse text).resolve labels <;> rfl
  rw [Image.resolve, toList_append, toList_empty, List.nil_append, mapM_map_eq_mapBoth hcell]
  cases texts.mapM labels.resolve with
  | error cause => rfl
  | ok words =>
    show Except.ok _ = Except.ok _
    simp [Image.append, Image.empty]

/-! ## Lines -/

namespace Statement

/-- A line that pushes what stands behind its first word. -/
theorem parse_lit_append {text : String} (h : Text.Trimmed text.toList) (hne : text.toList ≠ []) :
    parse ("lit " ++ text) = .ok (.instruction ⟨.lit, some (.parse text)⟩) := by
  have hword : ['l', 'i', 't'].all fun c => !Text.isBlank c := by decide
  have hline : ("lit " ++ text).toList = ['l', 'i', 't'] ++ ' ' :: text.toList := by
    rw [String.toList_append]
    rfl
  have hafter : Text.afterFirstWord ("lit " ++ text).toList = text.toList := by
    rw [hline, Text.afterFirstWord_append_space hword h]
  rw [parse_lit hline (by rwa [hafter]), hafter, String.ofList_toList]

/-- A line that lays down what stands behind its first word. -/
theorem parse_data_append {text : String} (h : Text.Trimmed text.toList) (hne : text.toList ≠ []) :
    parse (".data " ++ text) = .ok (.data (.parse text)) := by
  have hword : ['.', 'd', 'a', 't', 'a'].all fun c => !Text.isBlank c := by decide
  have hline : (".data " ++ text).toList = ['.', 'd', 'a', 't', 'a'] ++ ' ' :: text.toList := by
    rw [String.toList_append]
    rfl
  have hafter : Text.afterFirstWord (".data " ++ text).toList = text.toList := by
    rw [hline, Text.afterFirstWord_append_space hword h]
  rw [parse_data hline (by rwa [hafter]), hafter, String.ofList_toList]

theorem parse_colon_append (name : String) : parse (":" ++ name) = .ok (.label name) := by
  have hline : (":" ++ name).toList = ':' :: name.toList := by
    rw [String.toList_append]
    rfl
  rw [parse_label hline, String.ofList_toList]

end Statement

theorem Operand.parse_mark (name : String) :
    Operand.parse ("&" ++ name) = .token ("&" ++ name) := by
  rw [Operand.parse, Word.parse?_of_marked (Labels.head?_mark name)]

theorem Labels.trimmed_mark {name : String}
    (h : ∀ c ∈ name.toList.getLast?, Text.isBlank c = false) :
    Text.Trimmed ("&" ++ name).toList := by
  rw [String.toList_append]
  exact Text.trimmed_cons (by decide) h

/-- No label that a loaded line defines ends in a blank character. -/
theorem Source.not_isBlank_of_label {bytes : List UInt8} {lines : List Line}
    (h : Source.load bytes = .ok lines) {line : Line} (hline : line ∈ lines) {name : String}
    (hname : Statement.parse line.text = .ok (.label name)) :
    ∀ c ∈ name.toList.getLast?, Text.isBlank c = false := by
  obtain ⟨-, htrimmed, -⟩ := Source.of_mem_load h hline
  cases Statement.readFrom_of_parse hname with
  | label htext =>
    intro c hc
    rw [String.toList_ofList] at hc
    rw [htext] at htrimmed
    refine htrimmed.2 c ?_
    rw [List.getLast?_cons_of_ne_nil]
    · exact hc
    · rintro rfl
      cases hc

/-- Every label that a source can define can be referred to, and no reference is misread. Names do
not end in blank characters. Such a name is defined as it stands behind a colon, and is what a mark
in front of it refers to, whatever it looks like: its address once it is defined, an error before,
and in no case a number or the address of another label. A text without a mark is the number that it
denotes, or else a name. The cells of an image resolve as the texts that they were read from. -/
theorem references_never_misread (labels : Labels) :
    (∀ bytes lines, Source.load bytes = .ok lines → ∀ line ∈ lines, ∀ name,
        Statement.parse line.text = .ok (.label name) →
          ∀ c ∈ name.toList.getLast?, Text.isBlank c = false) ∧
      (∀ name : String, (∀ c ∈ name.toList.getLast?, Text.isBlank c = false) →
        Statement.parse (":" ++ name) = .ok (.label name) ∧
        Statement.parse ("lit &" ++ name) =
          .ok (.instruction ⟨.lit, some (.token ("&" ++ name))⟩) ∧
        Statement.parse (".data &" ++ name) = .ok (.data (.token ("&" ++ name))) ∧
        labels.resolve ("&" ++ name) = labels.resolveName name ∧
        (∀ definition, ∃ w, (labels.define name definition).resolve ("&" ++ name) = .ok w) ∧
        ∀ other definition, other ≠ name →
          (labels.define other definition).resolve ("&" ++ name) =
            labels.resolve ("&" ++ name)) ∧
      (∀ text : String, Text.Trimmed text.toList → text.toList ≠ [] →
        text.toList.head? ≠ some '&' →
        Statement.parse ("lit " ++ text) = .ok (.instruction ⟨.lit, some (.parse text)⟩) ∧
        Statement.parse (".data " ++ text) = .ok (.data (.parse text)) ∧
        labels.resolve text =
          match Word.parse? text with
          | some w => .ok w
          | none => labels.resolveName text) ∧
      ∀ texts : List String,
        (Image.empty.append (texts.map fun text => .data (Operand.parse text))).resolve labels =
          (texts.mapM labels.resolve).map fun words => Image.empty.append (words.map .data) := by
  refine ⟨fun bytes lines h line hline name => Source.not_isBlank_of_label h hline,
    fun name hname => ?_, fun text htrimmed hne hmark => ?_, Image.resolve_parse labels⟩
  · have htrimmed := Labels.trimmed_mark hname
    have hne : ("&" ++ name).toList ≠ [] := by
      rw [String.toList_append]
      exact List.cons_ne_nil _ _
    have hlit := Statement.parse_lit_append htrimmed hne
    have hdata := Statement.parse_data_append htrimmed hne
    rw [Operand.parse_mark, ← String.append_assoc] at hlit hdata
    simp only [Labels.resolve_mark]
    exact ⟨Statement.parse_colon_append name, hlit, hdata, trivial,
      labels.exists_resolveName_define name,
      fun other definition hother => labels.resolveName_define_of_ne hother definition⟩
  · exact ⟨Statement.parse_lit_append htrimmed hne, Statement.parse_data_append htrimmed hne,
      labels.resolve_of_not_marked hmark⟩

/-- A name that looks like a number, and one with a mark and a space in front. -/
theorem references_never_misread_lookalikes :
    let labels := (Labels.empty.define "-0x1" ⟨7, 1, ":-0x1"⟩).define " &5" ⟨9, 2, ": &5"⟩
    Text.isBlank '5' = false ∧
      Statement.parse "lit & &5" = .ok (.instruction ⟨.lit, some (.token "& &5")⟩) ∧
      labels.resolve "& &5" = .ok 9#32 ∧ labels.resolve "&-0x1" = .ok 7#32 ∧
      Statement.parse ".data -0x1" = .ok (.data (.value 0xffffffff#32)) ∧
      labels.resolve "-0x1" = .ok 0xffffffff#32 := by
  intro labels
  obtain ⟨hload, hname, htext, -⟩ := references_never_misread labels
  have hlines : Source.load (Utf8.encode (printRows [": &5"])) = .ok (Source.numbered [": &5"]) :=
    Source.load_printRows (by decide)
  have hblank : ∀ c ∈ " &5".toList.getLast?, Text.isBlank c = false :=
    hload _ _ hlines ⟨1, ": &5"⟩ (by decide) _ rfl
  have hspaced := hname " &5" hblank
  have htrimmed : Text.Trimmed "-0x1".toList := by decide
  have hnumeric := hname "-0x1" htrimmed.2
  have hbare := htext "-0x1" htrimmed (by decide) (by decide)
  exact ⟨hblank '5' (by decide), hspaced.2.1, hspaced.2.2.2.1, hnumeric.2.2.2.1, hbare.2.1,
    hbare.2.2⟩

end PackedStack
