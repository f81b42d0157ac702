import PackedStack.Proofs.Source.Statements
import PackedStack.Proofs.Text.Utf8
import PackedStack.Proofs.Text.Words

/-!
# Which lines are statements

A line has one first word and one trimmed text behind it (`Text.parts_iff`). What it says is told by
its first characters and these two parts: the grammar (`Statement.ReadsAs`) has one rule for every
kind of statement and for every way in which a line can fail to be one. Reading a line follows the
grammar (`Statement.readsAs_parse`), and the grammar leaves no choice
(`Statement.parse_of_readsAs`), so that every text is read by exactly one rule
(`lines_read_exactly`).

All names that are looked up are two characters below 128. Such a name can be looked for in the
first two bytes of a line as well as in its first two characters (`Statement.leading?_mnemonic`,
`Statement.leading?_directive`).
-/

namespace PackedStack

/-! ## The grammar -/

namespace Opcode

theorem length_mnemonic (o : Opcode) : o.mnemonic.toList.length = 2 := by
  cases o <;> decide

theorem ofMnemonic?_take_eq_some_iff {line : List Char} {o : Opcode} :
    ofMnemonic? (String.ofList (line.take 2)) = some o ↔ o.mnemonic.toList <+: line := by
  rw [ofMnemonic?_eq_some_iff, List.prefix_iff_eq_take, length_mnemonic, ← String.toList_inj,
    String.toList_ofList]

/-- No mnemonic starts like a label or a directive. -/
theorem not_isPrefix_of_mnemonic {o : Opcode} {c : Char} (hc : c = ':' ∨ c = '.') {line : List Char}
    (h : o.mnemonic.toList <+: line) : ¬ [c] <+: line := by
  have hhead : o.mnemonic.toList.head? ≠ some c := by
    rcases hc with rfl | rfl <;> cases o <;> decide
  obtain ⟨tail, rfl⟩ := h
  rintro ⟨tail', htail'⟩
  cases hletters : o.mnemonic.toList with
  | nil => exact absurd (length_mnemonic o) (by simp [hletters])
  | cons b letters =>
    rw [hletters] at hhead htail'
    exact hhead (congrArg some (List.head_eq_of_cons_eq htail').symm)

theorem lt_of_mem_mnemonic {o : Opcode} {c : Char} (h : c ∈ o.mnemonic.toList) : c.toNat < 128 := by
  have hall : o.mnemonic.toList.all fun c => c.toNat < 128 := by cases o <;> decide
  exact of_decide_eq_true (List.all_eq_true.1 hall c h)

end Opcode

namespace Statement

/-- The characters by which directives are known. -/
def directiveKeys : List Char := ['o', 'd', 'p', 'u', 's', 'a']

/-- The directives that need an operand. -/
def operandKeys : List Char := ['o', 'd', 'a']

/-- The count that a text gives, if it is a numeral of a word that is not negative. -/
def IsCount (text : List Char) (count : Nat) : Prop :=
  (Word.parse? (String.ofList text)).map BitVec.toInt = some (count : Int)

/-- What a line with the given first word and text behind it says, or why it says nothing. -/
inductive ReadsAs (line word rest : List Char) : Except Cause Statement → Prop
  | label {name : List Char} (h : line = ':' :: name) :
    ReadsAs line word rest (.ok (.label (String.ofList name)))
  | output (h : ['.', 'o'] <+: line) (hrest : rest ≠ []) :
    ReadsAs line word rest (.ok (.output (String.ofList rest)))
  | data (h : ['.', 'd'] <+: line) (hrest : rest ≠ []) :
    ReadsAs line word rest (.ok (.data (.parse (String.ofList rest))))
  | packed (h : ['.', 'p'] <+: line) : ReadsAs line word rest (.ok (.packing .packed))
  | unpacked (h : ['.', 'u'] <+: line) : ReadsAs line word rest (.ok (.packing .unpacked))
  | text (h : ['.', 's'] <+: line) : ReadsAs line word rest (.ok (.text (String.ofList rest)))
  | allocate {count : Nat} (h : ['.', 'a'] <+: line) (hcount : IsCount rest count) :
    ReadsAs line word rest (.ok (.allocate count))
  | directiveWithoutOperand {key : Char} (hkey : key ∈ operandKeys) (h : ['.', key] <+: line)
      (hrest : rest = []) :
    ReadsAs line word rest (.error (.missingOperand (String.ofList word)))
  | badCount (h : ['.', 'a'] <+: line) (hrest : rest ≠ [])
      (hcount : ∀ count, ¬ IsCount rest count) :
    ReadsAs line word rest (.error (.invalidOperand (String.ofList rest) "count"))
  | unknownDirective (h : ['.'] <+: line) (hkey : ∀ key ∈ directiveKeys, ¬ ['.', key] <+: line) :
    ReadsAs line word rest (.error (.unknownDirective (String.ofList word)))
  | literal (h : Opcode.lit.mnemonic.toList <+: line) (hrest : rest ≠ []) :
    ReadsAs line word rest (.ok (.instruction ⟨.lit, some (.parse (String.ofList rest))⟩))
  | literalWithoutOperand (h : Opcode.lit.mnemonic.toList <+: line) (hrest : rest = []) :
    ReadsAs line word rest (.error (.missingOperand (String.ofList word)))
  | instruction {opcode : Opcode} (hne : opcode ≠ .lit) (h : opcode.mnemonic.toList <+: line) :
    ReadsAs line word rest (.ok (.instruction ⟨opcode, none⟩))
  | unknownInstruction (hlabel : ¬ [':'] <+: line) (hdot : ¬ ['.'] <+: line)
      (h : ∀ opcode : Opcode, ¬ opcode.mnemonic.toList <+: line) :
    ReadsAs line word rest (.error (.unknownInstruction (String.ofList word)))

/-! ## Counts -/

theorem parseCount_cases (cs : List Char) :
    (∃ count, IsCount cs count ∧ parseCount (String.ofList cs) = .ok count) ∨
      (∀ count, ¬ IsCount cs count) ∧
        parseCount (String.ofList cs) = .error (.invalidOperand (String.ofList cs) "count") := by
  rw [parseCount]
  cases hparse : Word.parse? (String.ofList cs) with
  | none => exact .inr ⟨fun count => by simp [IsCount, hparse], rfl⟩
  | some w =>
    by_cases hw : 0 ≤ w.toInt
    · have hnat : w.toInt = w.toNat := by
        have hlt := w.isLt
        rw [BitVec.toInt_eq_toNat_cond] at hw ⊢
        split at hw <;> omega
      exact .inl ⟨w.toNat, by simp [IsCount, hparse, hnat], if_pos hw⟩
    · refine .inr ⟨fun count hcount => ?_, if_neg hw⟩
      have hint : w.toInt = count := by simpa [IsCount, hparse] using hcount
      omega

theorem parseCount_of_isCount {cs : List Char} {count : Nat} (h : IsCount cs count) :
    parseCount (String.ofList cs) = .ok count := by
  rcases parseCount_cases cs with ⟨count', h', hparse⟩ | ⟨hnone, -⟩
  · have hcast : (count : Int) = count' := Option.some.inj (h.symm.trans h')
    rw [hparse, Int.ofNat_inj.1 hcast]
  · exact absurd h (hnone count)

theorem ne_nil_of_isCount {cs : List Char} {count : Nat} (h : IsCount cs count) : cs ≠ [] := by
  rintro rfl
  cases h

/-! ## Reading follows the grammar -/

/-- A line that starts with neither a colon nor a dot is an instruction. -/
theorem parse_eq_parseInstruction {line : String} (hlabel : ¬ [':'] <+: line.toList)
    (hdot : ¬ ['.'] <+: line.toList) :
    parse line = parseInstruction line.toList (Text.firstWord line.toList)
      (Text.afterFirstWord line.toList) := by
  simp only [parse]
  split
  · rename_i name hname
    exact absurd ⟨name, hname.symm⟩ hlabel
  · rename_i afterDot hafter
    exact absurd ⟨afterDot, hafter.symm⟩ hdot
  · rfl

section

variable {line afterDot word rest : List Char}

theorem readsAs_parseDirective (hline : line = '.' :: afterDot) :
    ReadsAs line word rest (parseDirective afterDot word rest) := by
  subst hline
  unfold parseDirective
  split
  · by_cases hrest : rest = []
    · subst hrest
      exact .directiveWithoutOperand (show 'o' ∈ operandKeys by decide) ⟨_, rfl⟩ rfl
    · rw [requireOperand_of_ne_nil hrest]
      exact .output ⟨_, rfl⟩ hrest
  · by_cases hrest : rest = []
    · subst hrest
      exact .directiveWithoutOperand (show 'd' ∈ operandKeys by decide) ⟨_, rfl⟩ rfl
    · rw [requireOperand_of_ne_nil hrest]
      exact .data ⟨_, rfl⟩ hrest
  · exact .packed ⟨_, rfl⟩
  · exact .unpacked ⟨_, rfl⟩
  · exact .text ⟨_, rfl⟩
  · by_cases hrest : rest = []
    · subst hrest
      exact .directiveWithoutOperand (show 'a' ∈ operandKeys by decide) ⟨_, rfl⟩ rfl
    · rw [requireOperand_of_ne_nil hrest]
      rcases parseCount_cases rest with ⟨count, hcount, hparse⟩ | ⟨hnone, hparse⟩
      · show ReadsAs _ _ _ (parseCount (String.ofList rest) >>= _)
        rw [hparse]
        exact .allocate ⟨_, rfl⟩ hcount
      · show ReadsAs _ _ _ (parseCount (String.ofList rest) >>= _)
        rw [hparse]
        exact .badCount ⟨_, rfl⟩ hrest hnone
  · rename_i ho hd hp hu hs ha
    refine .unknownDirective ⟨_, rfl⟩ fun key hkey hprefix => ?_
    obtain ⟨tail, htail⟩ := hprefix
    obtain rfl : key :: tail = afterDot := List.tail_eq_of_cons_eq htail
    simp only [directiveKeys, List.mem_cons, List.not_mem_nil, or_false] at hkey
    rcases hkey with rfl | rfl | rfl | rfl | rfl | rfl
    · exact ho tail rfl
    · exact hd tail rfl
    · exact hp tail rfl
    · exact hu tail rfl
    · exact hs tail rfl
    · exact ha tail rfl

theorem readsAs_parseInstruction (hlabel : ¬ [':'] <+: line) (hdot : ¬ ['.'] <+: line) :
    ReadsAs line word rest (parseInstruction line word rest) := by
  unfold parseInstruction
  split
  · rename_i hlit
    rw [Opcode.ofMnemonic?_take_eq_some_iff] at hlit
    by_cases hrest : rest = []
    · subst hrest
      exact .literalWithoutOperand hlit rfl
    · rw [requireOperand_of_ne_nil hrest]
      exact .literal hlit hrest
  · rename_i opcode hne hopcode
    exact .instruction hne (Opcode.ofMnemonic?_take_eq_some_iff.1 hopcode)
  · rename_i hnone
    refine .unknownInstruction hlabel hdot fun opcode hopcode => ?_
    rw [Opcode.ofMnemonic?_take_eq_some_iff.2 hopcode] at hnone
    cases hnone

end

theorem readsAs_parse (line : String) :
    ReadsAs line.toList (Text.firstWord line.toList) (Text.afterFirstWord line.toList)
      (parse line) := by
  by_cases hlabel : [':'] <+: line.toList
  · obtain ⟨name, hname⟩ := hlabel
    rw [parse_label hname.symm]
    exact .label hname.symm
  · by_cases hdot : ['.'] <+: line.toList
    · obtain ⟨afterDot, hafter⟩ := hdot
      rw [parse_directive hafter.symm]
      exact readsAs_parseDirective hafter.symm
    · rw [parse_eq_parseInstruction hlabel hdot]
      exact readsAs_parseInstruction hlabel hdot

/-! ## The grammar leaves no choice -/

theorem parse_of_mnemonic {line : String} {opcode : Opcode}
    (h : opcode.mnemonic.toList <+: line.toList) :
    parse line = match opcode with
      | .lit => (requireOperand (Text.firstWord line.toList) (Text.afterFirstWord line.toList)).map
          fun operand => .instruction ⟨.lit, some (.parse operand)⟩
      | opcode => .ok (.instruction ⟨opcode, none⟩) := by
  rw [parse_eq_parseInstruction (Opcode.not_isPrefix_of_mnemonic (.inl rfl) h)
    (Opcode.not_isPrefix_of_mnemonic (.inr rfl) h), parseInstruction,
    Opcode.ofMnemonic?_take_eq_some_iff.2 h]
  cases opcode <;> rfl

/-- The operand of an allocation is read as a count. -/
theorem parseDirective_allocate {tail word rest : List Char} (hrest : rest ≠ []) :
    parseDirective ('a' :: tail) word rest = (parseCount (String.ofList rest)).map allocate := by
  show (requireOperand word rest >>= fun operand => parseCount operand >>= _) = _
  rw [requireOperand_of_ne_nil hrest]
  generalize String.ofList rest = operand
  show (parseCount operand >>= _) = _
  cases parseCount operand <;> rfl

theorem parseDirective_of_unknown {afterDot word rest : List Char}
    (h : ∀ key ∈ directiveKeys, ¬ ['.', key] <+: '.' :: afterDot) :
    parseDirective afterDot word rest = .error (.unknownDirective (String.ofList word)) := by
  unfold parseDirective
  split
  · exact absurd ⟨_, rfl⟩ (h 'o' (by decide))
  · exact absurd ⟨_, rfl⟩ (h 'd' (by decide))
  · exact absurd ⟨_, rfl⟩ (h 'p' (by decide))
  · exact absurd ⟨_, rfl⟩ (h 'u' (by decide))
  · exact absurd ⟨_, rfl⟩ (h 's' (by decide))
  · exact absurd ⟨_, rfl⟩ (h 'a' (by decide))
  · rfl

theorem parse_of_readsAs {line : String} {result : Except Cause Statement}
    (h : ReadsAs line.toList (Text.firstWord line.toList) (Text.afterFirstWord line.toList)
      result) : parse line = result := by
  cases h with
  | label h => exact parse_label h
  | output h hrest =>
    obtain ⟨tail, htail⟩ := h
    rw [parse_directive htail.symm]
    show (requireOperand _ _).map _ = _
    rw [requireOperand_of_ne_nil hrest]
    rfl
  | data h hrest =>
    obtain ⟨tail, htail⟩ := h
    exact parse_data htail.symm hrest
  | packed h | unpacked h | text h =>
    obtain ⟨tail, htail⟩ := h
    rw [parse_directive htail.symm]
    rfl
  | allocate h hcount =>
    obtain ⟨tail, htail⟩ := h
    rw [parse_directive htail.symm]
    show parseDirective ('a' :: tail) _ _ = _
    rw [parseDirective_allocate (ne_nil_of_isCount hcount), parseCount_of_isCount hcount]
    rfl
  | directiveWithoutOperand hkey h hrest =>
    obtain ⟨tail, htail⟩ := h
    rw [parse_directive htail.symm, hrest]
    simp only [operandKeys, List.mem_cons, List.not_mem_nil, or_false] at hkey
    rcases hkey with rfl | rfl | rfl <;> rfl
  | badCount h hrest hcount =>
    obtain ⟨tail, htail⟩ := h
    rw [parse_directive htail.symm]
    show parseDirective ('a' :: tail) _ _ = _
    rw [parseDirective_allocate hrest]
    rcases parseCount_cases (Text.afterFirstWord line.toList) with ⟨count, h, -⟩ | ⟨-, hparse⟩
    · exact absurd h (hcount count)
    · rw [hparse]
      rfl
  | unknownDirective h hkey =>
    obtain ⟨afterDot, hafter⟩ := h
    rw [parse_directive hafter.symm]
    exact parseDirective_of_unknown fun key hmem hprefix => hkey key hmem (hafter ▸ hprefix)
  | literal h hrest =>
    rw [parse_of_mnemonic h]
    show (requireOperand _ _).map _ = _
    rw [requireOperand_of_ne_nil hrest]
    rfl
  | literalWithoutOperand h hrest =>
    rw [parse_of_mnemonic h, hrest]
    rfl
  | instruction hne h =>
    rename_i opcode
    rw [parse_of_mnemonic h]
    cases opcode with
    | lit => exact absurd rfl hne
    | _ => rfl
  | unknownInstruction hlabel hdot h =>
    have hnone : Opcode.ofMnemonic? (String.ofList (line.toList.take 2)) = none :=
      Option.eq_none_iff_forall_ne_some.2 fun opcode hopcode =>
        h opcode (Opcode.ofMnemonic?_take_eq_some_iff.1 hopcode)
    rw [parse_eq_parseInstruction hlabel hdot, parseInstruction, hnone]

theorem parse_eq_iff_readsAs {line : String} {result : Except Cause Statement} :
    parse line = result ↔
      ReadsAs line.toList (Text.firstWord line.toList) (Text.afterFirstWord line.toList)
        result := by
  refine ⟨?_, parse_of_readsAs⟩
  rintro rfl
  exact readsAs_parse line

/-! ## Names told by bytes -/

theorem leading?_mnemonic (line : String) (opcode : Opcode) :
    Utf8.leading? 2 line = some opcode.mnemonic ↔ opcode.mnemonic.toList <+: line.toList := by
  have hbytes := Utf8.leading?_eq_some_iff line fun _ => Opcode.lt_of_mem_mnemonic (o := opcode)
  rwa [Opcode.length_mnemonic] at hbytes

theorem leading?_directive (line : String) {key : Char} (hkey : key ∈ directiveKeys) :
    Utf8.leading? 2 (String.ofList (Text.firstWord line.toList)) = some (String.ofList ['.', key]) ↔
      ['.', key] <+: line.toList := by
  have hall : directiveKeys.all fun c => c.toNat < 128 && !Text.isBlank c := by decide
  obtain ⟨hlt, hblank⟩ := Bool.and_eq_true_iff.1 (List.all_eq_true.1 hall key hkey)
  have hascii : ∀ c ∈ (String.ofList ['.', key]).toList, c.toNat < 128 := by
    simpa using of_decide_eq_true hlt
  have hbytes := Utf8.leading?_eq_some_iff (String.ofList (Text.firstWord line.toList)) hascii
  have hlength : ['.', key].length = 2 := rfl
  rw [String.toList_ofList, String.toList_ofList, hlength] at hbytes
  have hword : ['.', key].all fun c => !Text.isBlank c := by
    rw [List.all_cons, List.all_cons, hblank]
    decide
  rw [hbytes, Text.isPrefix_firstWord_iff hword]

end Statement

/-- Every text, blank or not, has one first word and one trimmed text behind it, and is read as the
grammar says of these: a line is a statement, with the operand that the grammar gives it, exactly if
a rule for that statement applies, and otherwise fails for the reason that a rule gives. The names
in the rules can be told by two bytes as well as by two characters: those of opcodes by the first
bytes of the line, those of directives by the first bytes of its first word. -/
theorem lines_read_exactly (line : String) :
    ∃ word rest,
      (∀ word' rest', Text.Parts line.toList word' rest' ↔ word' = word ∧ rest' = rest) ∧
      (∀ result, Statement.parse line = result ↔
        Statement.ReadsAs line.toList word rest result) ∧
      (∀ opcode : Opcode, Utf8.leading? 2 line = some opcode.mnemonic ↔
        opcode.mnemonic.toList <+: line.toList) ∧
      ∀ key ∈ Statement.directiveKeys,
        Utf8.leading? 2 (String.ofList word) = some (String.ofList ['.', key]) ↔
          ['.', key] <+: line.toList :=
  ⟨Text.firstWord line.toList, Text.afterFirstWord line.toList, fun _ _ => Text.parts_iff,
    fun _ => Statement.parse_eq_iff_readsAs, Statement.leading?_mnemonic line,
    fun _ => Statement.leading?_directive line⟩

/-- A directive whose second byte is the first of two, with an ideographic space behind it. -/
theorem lines_read_exactly_inside_character :
    Text.Parts ".é\u3000&x ".toList ['.', 'é'] ['&', 'x'] ∧
      Statement.ReadsAs ".é\u3000&x ".toList ['.', 'é'] ['&', 'x']
        (.error (.unknownDirective ".é")) ∧
      'd' ∈ Statement.directiveKeys ∧ Utf8.leading? 2 ".é" ≠ some ".d" := by
  obtain ⟨word, rest, hparts, hread, -, hkey⟩ := lines_read_exactly ".é\u3000&x "
  have h : Text.Parts ".é\u3000&x ".toList ['.', 'é'] ['&', 'x'] :=
    Text.parts_iff.2 ⟨by decide, by decide⟩
  obtain ⟨rfl, rfl⟩ := (hparts _ _).1 h
  refine ⟨h, (hread _).1 rfl, by decide, fun hbytes => ?_⟩
  exact absurd ((hkey 'd' (by decide)).1 hbytes) (by decide)

end PackedStack
