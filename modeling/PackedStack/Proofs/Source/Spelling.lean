import PackedStack.Proofs.Source.Statements
import PackedStack.Proofs.Text.Words

/-!
# The spelling of statements

A statement that was read from a line can be spelled in the shortest way, and reads back from that
(`Statement.parse_spell`). The spelling has no newline in it if the line had none
(`Statement.newline_not_mem_spell`), and no blank character at its ends if the line had none
(`Statement.trimmed_spell`), but for the spelling of an empty text. So it is a line by itself
(`Statement.spellable_of_parse`).
-/

namespace PackedStack

namespace Text

/-- The trimmed text behind a word of two characters. -/
theorem afterFirstWord_of_trimmed {a b : Char} {cs : List Char} (ha : isBlank a = false)
    (hb : isBlank b = false) (h : Trimmed cs) : afterFirstWord (a :: b :: ' ' :: cs) = cs := by
  have hword : [a, b].all fun c => !isBlank c := by simp [ha, hb]
  exact afterFirstWord_append_space hword h

theorem trimmed_of_all {cs : List Char} (h : cs.all fun c => !isBlank c) : Trimmed cs :=
  trimmed_of_forall fun c hc => by simpa using List.all_eq_true.1 h c hc

theorem trimmed_of_word {a b : Char} {cs : List Char} (ha : isBlank a = false) (h : Trimmed cs)
    (hne : cs ≠ []) : Trimmed (a :: b :: ' ' :: cs) := by
  have hlast : (a :: b :: ' ' :: cs).getLast? = cs.getLast? := by
    rw [List.getLast?_cons_of_ne_nil (by simp), List.getLast?_cons_of_ne_nil (by simp),
      List.getLast?_cons_of_ne_nil hne]
  refine ⟨fun c hc => ?_, fun c hc => h.2 c (hlast ▸ hc)⟩
  rwa [← Option.some.inj hc]

theorem isBlank_of_mem_decimal {c : Char} {n : Nat} (h : c ∈ Numeral.decimal n) :
    isBlank c = false :=
  isBlank_of_isDigit (Nat.isDigit_of_mem_toDigits (by decide) (by decide) h)

theorem isBlank_of_mem_toDecimal {c : Char} {w : Word} (h : c ∈ w.toDecimal.toList) :
    isBlank c = false := by
  rw [Word.toDecimal, String.toList_ofList] at h
  cases hv : w.toInt with
  | ofNat n =>
    rw [hv] at h
    exact isBlank_of_mem_decimal h
  | negSucc n =>
    rw [hv] at h
    rcases List.mem_cons.1 h with rfl | h
    · decide
    · exact isBlank_of_mem_decimal h

end Text

namespace Operand

/-- An operand that was read from a text is the number in it or the text itself. -/
theorem parse_eq_value_or_token (t : String) :
    (∃ w, parse t = value w) ∨ parse t = token t := by
  rw [parse]
  split
  · exact .inl ⟨_, rfl⟩
  · exact .inr rfl

/-- The text of an operand can stand in a line, and reads as the operand. -/
structure Written (o : Operand) : Prop where
  parse_text : parse o.text = o
  trimmed : Text.Trimmed o.text.toList
  ne_nil : o.text.toList ≠ []

theorem written_parse {cs : List Char} (h : Text.Trimmed cs) (hne : cs ≠ []) :
    (parse (String.ofList cs)).Written := by
  rcases parse_eq_value_or_token (String.ofList cs) with ⟨w, hw⟩ | htoken
  · have hself : parse w.toDecimal = value w := by rw [parse, Word.parse?_toDecimal]
    rw [hw]
    refine ⟨hself, Text.trimmed_of_forall fun c hc => Text.isBlank_of_mem_toDecimal hc, ?_⟩
    intro hnil
    have hparse := Word.parse?_toDecimal w
    rw [Word.parse?, show w.toDecimal.toList = [] from hnil] at hparse
    cases hparse
  · have htext : (token (String.ofList cs)).text.toList = cs := String.toList_ofList
    rw [htoken]
    exact ⟨htoken, by rwa [htext], by rwa [htext]⟩

theorem not_mem_text_parse {c : Char} {t : String} (hblank : Text.isBlank c) (h : c ∉ t.toList) :
    c ∉ (parse t).text.toList := by
  rcases parse_eq_value_or_token t with ⟨w, hw⟩ | htoken
  · rw [hw]
    intro hmem
    rw [Text.isBlank_of_mem_toDecimal hmem] at hblank
    cases hblank
  · rw [htoken]
    exact h

end Operand

namespace Statement

/-! ## The characters of a spelling -/

theorem toList_spell_label (cs : List Char) :
    (spell (label (String.ofList cs))).toList = ':' :: cs := by
  show (":" ++ String.ofList cs).toList = _
  simp

theorem toList_spell_literal (o : Operand) :
    (spell (instruction ⟨.lit, some o⟩)).toList = 'l' :: 'i' :: ' ' :: o.text.toList := by
  show ("li" ++ " " ++ o.text).toList = _
  simp

theorem toList_spell_data (o : Operand) :
    (spell (data o)).toList = '.' :: 'd' :: ' ' :: o.text.toList := by
  show (".d " ++ o.text).toList = _
  simp

theorem toList_spell_output (cs : List Char) :
    (spell (output (String.ofList cs))).toList = '.' :: 'o' :: ' ' :: cs := by
  show (".o " ++ String.ofList cs).toList = _
  simp

theorem toList_spell_text (cs : List Char) :
    (spell (text (String.ofList cs))).toList = '.' :: 's' :: ' ' :: cs := by
  show (".s " ++ String.ofList cs).toList = _
  simp

theorem toList_spell_allocate (count : Nat) :
    (spell (allocate count)).toList = '.' :: 'a' :: ' ' :: Numeral.decimal count := by
  show (".a " ++ String.ofList (Numeral.decimal count)).toList = _
  simp

/-! ## Reading a spelling -/

/-- The text behind the first word of a spelling with an operand. -/
theorem afterFirstWord_spell {s : Statement} {a b : Char} {cs : List Char}
    (h : s.spell.toList = a :: b :: ' ' :: cs) (ha : Text.isBlank a = false)
    (hb : Text.isBlank b = false) (hcs : Text.Trimmed cs) :
    Text.afterFirstWord s.spell.toList = cs := by
  rw [h, Text.afterFirstWord_of_trimmed ha hb hcs]

/-- The spelling of a statement reads as the statement. -/
theorem parse_spell {line : String} {s : Statement} (h : parse line = .ok s) :
    parse s.spell = .ok s := by
  have htrimmed : Text.Trimmed (Text.afterFirstWord line.toList) := Text.trimmed_trim _
  cases readFrom_of_parse h with
  | label hline => exact parse_label (toList_spell_label _)
  | packing mode => cases mode <;> rfl
  | instruction hne =>
    rename_i opcode
    cases opcode with
    | lit => exact absurd rfl hne
    | _ => rfl
  | literal hline hne =>
    obtain ⟨hself, htrimmed, hne⟩ := Operand.written_parse htrimmed hne
    generalize Operand.parse (String.ofList (Text.afterFirstWord line.toList)) = o at *
    have htext := toList_spell_literal o
    have hafter := afterFirstWord_spell htext (by decide) (by decide) htrimmed
    rw [parse_lit htext (by rwa [hafter]), hafter, String.ofList_toList, hself]
  | data hline hne =>
    obtain ⟨hself, htrimmed, hne⟩ := Operand.written_parse htrimmed hne
    generalize Operand.parse (String.ofList (Text.afterFirstWord line.toList)) = o at *
    have htext := toList_spell_data o
    have hafter := afterFirstWord_spell htext (by decide) (by decide) htrimmed
    rw [parse_data htext (by rwa [hafter]), hafter, String.ofList_toList, hself]
  | output hne =>
    generalize Text.afterFirstWord line.toList = cs at *
    have htext := toList_spell_output cs
    have hafter := afterFirstWord_spell htext (by decide) (by decide) htrimmed
    rw [parse_directive htext, hafter]
    show (requireOperand _ cs).map output = _
    rw [requireOperand_of_ne_nil hne]
    rfl
  | text =>
    generalize Text.afterFirstWord line.toList = cs at *
    have htext := toList_spell_text cs
    have hafter := afterFirstWord_spell htext (by decide) (by decide) htrimmed
    rw [parse_directive htext, hafter]
    rfl
  | allocate hcount =>
    rename_i count
    have htext := toList_spell_allocate count
    have hafter := afterFirstWord_spell htext (by decide) (by decide) (Text.trimmed_decimal count)
    exact parse_count htext hcount hafter

theorem newline_not_mem_spell {line : String} {s : Statement} (h : parse line = .ok s)
    (hline : '\n' ∉ line.toList) : '\n' ∉ s.spell.toList := by
  have hafter : '\n' ∉ Text.afterFirstWord line.toList := fun hmem =>
    hline (Text.mem_of_mem_afterFirstWord hmem)
  have hoperand :
      '\n' ∉ (Operand.parse (String.ofList (Text.afterFirstWord line.toList))).text.toList :=
    Operand.not_mem_text_parse (by decide) (by rwa [String.toList_ofList])
  cases readFrom_of_parse h with
  | label hname =>
    rw [toList_spell_label, ← hname]
    exact hline
  | packing mode => cases mode <;> decide
  | instruction hne =>
    rename_i opcode
    cases opcode <;> decide
  | literal => simpa [toList_spell_literal] using hoperand
  | data => simpa [toList_spell_data] using hoperand
  | output => simpa [toList_spell_output] using hafter
  | text => simpa [toList_spell_text] using hafter
  | allocate =>
    rename_i count _
    have hdecimal : '\n' ∉ Numeral.decimal count := fun hmem =>
      absurd (Text.isBlank_of_mem_decimal hmem) (by decide)
    simpa [toList_spell_allocate] using hdecimal

/-- Only the spelling of an empty text ends in a blank character. -/
theorem trimmed_spell {line : String} {s : Statement} (h : parse line = .ok s)
    (hline : Text.Trimmed line.toList) : Text.Trimmed s.spell.toList ∨ s = text "" := by
  have htrimmed : Text.Trimmed (Text.afterFirstWord line.toList) := Text.trimmed_trim _
  cases readFrom_of_parse h with
  | label hname =>
    rw [toList_spell_label, ← hname]
    exact .inl hline
  | packing mode =>
    refine .inl (Text.trimmed_of_all ?_)
    cases mode <;> decide
  | instruction hne =>
    rename_i opcode
    refine .inl (Text.trimmed_of_all ?_)
    cases opcode <;> decide
  | literal _ hne =>
    rw [toList_spell_literal]
    have hwritten := Operand.written_parse htrimmed hne
    exact .inl (Text.trimmed_of_word (by decide) hwritten.trimmed hwritten.ne_nil)
  | data _ hne =>
    rw [toList_spell_data]
    have hwritten := Operand.written_parse htrimmed hne
    exact .inl (Text.trimmed_of_word (by decide) hwritten.trimmed hwritten.ne_nil)
  | output hne =>
    rw [toList_spell_output]
    exact .inl (Text.trimmed_of_word (by decide) htrimmed hne)
  | text =>
    by_cases hne : Text.afterFirstWord line.toList = []
    · exact .inr (by rw [hne])
    · rw [toList_spell_text]
      exact .inl (Text.trimmed_of_word (by decide) htrimmed hne)
  | allocate =>
    rename_i count _
    rw [toList_spell_allocate]
    exact .inl (Text.trimmed_of_word (by decide) (Text.trimmed_decimal count) Nat.toDigits_ne_nil)

/-- The spelling of a statement can stand in a source, and its line there reads as the statement. -/
structure Spellable (s : Statement) : Prop where
  newline_not_mem : '\n' ∉ s.spell.toList
  getLast?_ne : s.spell.toList.getLast? ≠ some '\r'
  trim_ne_nil : Text.trim s.spell.toList ≠ []
  parse_trim : parse (String.ofList (Text.trim s.spell.toList)) = .ok s

theorem spellable_of_parse {line : String} {s : Statement} (h : parse line = .ok s)
    (hline : Text.Trimmed line.toList) (hnewline : '\n' ∉ line.toList) : s.Spellable := by
  have hself := parse_spell h
  rcases trimmed_spell h hline with htrimmed | rfl
  · have htrim := Text.trim_of_trimmed htrimmed
    refine ⟨newline_not_mem_spell h hnewline, fun hlast => ?_, fun hnil => ?_, ?_⟩
    · exact absurd (htrimmed.2 _ hlast) (by decide)
    · rw [htrim, String.toList_eq_nil_iff] at hnil
      rw [hnil] at hself
      cases hself
    · rwa [htrim, String.ofList_toList]
  · exact ⟨by decide, by decide, by decide, rfl⟩

end Statement

end PackedStack
