import PackedStack.Proofs.Assembly.SecondPass

/-!
# The map of an assembly

Image and map are resolved apart from one another, and still an entry for a literal or a pointer
tells what the cell at its offset holds. Before the second pass such an entry shows the operand that
the layout put there (`Layout.literal_of_mem_entriesFrom`), and the second pass turns it into a
pointer exactly if that operand is marked (`Assembly.MadeFrom.operand_of_mem_map`), so that the two
resolve alike (`map_truthful`).
-/

namespace PackedStack

namespace Image

theorem mem_codeAddresses_iff {α : Type} {image : Image α} {address : Nat} :
    address ∈ image.codeAddresses ↔ ∃ c, image.toList[address]? = some c ∧ c.isCode := by
  simp [codeAddresses, List.mem_zipIdx_iff_getElem?]

theorem of_getElem?_data {image : Image Word} {address : Nat} {w : Word}
    (h : image.toList[address]? = some (.data w)) :
    address < image.size ∧ address ∉ image.codeAddresses ∧ image.contents[address]? = some w := by
  refine ⟨?_, ?_, ?_⟩
  · rw [← length_toList]
    exact (List.getElem?_eq_some_iff.1 h).1
  · rw [mem_codeAddresses_iff, h]
    rintro ⟨c, hc, hcode⟩
    obtain rfl := Option.some.inj hc
    cases hcode
  · rw [contents, List.getElem?_map, h]
    rfl

end Image

namespace Assembly.MadeFrom

variable {a : Assembly} {program : List (Line × Statement)}

/-- An operand that the layout puts at an address is there with its value, and not as code. -/
theorem cell_of_data (h : a.MadeFrom program) {address : Nat} {o : Operand}
    (ho : (Layout.cells (Layout.blocks (State.startup program)))[address]? = some (.data o)) :
    ∃ w, o.resolve a.labels = .ok w ∧ a.image.toList[address]? = some (.data w) := by
  refine ⟨o.valueIn a.labels, h.resolves _ (List.mem_of_getElem? ho), ?_⟩
  rw [h.image, List.getElem?_map, ho]
  rfl

/-- An entry for a literal or a pointer comes from the operand that the layout put at its offset. -/
theorem operand_of_mem_map (h : a.MadeFrom program) {e : Entry} (he : e ∈ a.map)
    (hkind : e.kind = .literal ∨ e.kind = .pointer) :
    ∃ o w, (Layout.cells (Layout.blocks (State.startup program)))[e.offset]? = some (.data o) ∧
      o.resolve a.labels = .ok w ∧ a.image.toList[e.offset]? = some (.data w) ∧
      (e.kind = .literal ∧ e.value = o.text ∧ o.text.toList.head? ≠ some '&' ∨
        e.kind = .pointer ∧ e.value = w.toDecimal ∧ o.text.toList.head? = some '&') := by
  obtain ⟨e', he', hresolve⟩ := exists_of_mem_of_mapM h.map he
  obtain ⟨hpointer, hliteral⟩ := Layout.literal_of_mem_entriesFrom he'
  rcases Entry.resolve_cases hresolve with ⟨rfl, hunmarked⟩ | ⟨hlit, hmarked, w, hw, rfl⟩
  · have hlit : e.kind = .literal := hkind.resolve_right hpointer
    obtain ⟨o, ho, hvalue⟩ := hliteral hlit
    obtain ⟨w, hw, hcell⟩ := h.cell_of_data ho
    exact ⟨o, w, ho, hw, hcell, .inl ⟨hlit, hvalue, hvalue ▸ hunmarked hlit⟩⟩
  · obtain ⟨o, ho, hvalue⟩ := hliteral hlit
    obtain ⟨w', hw', hcell⟩ := h.cell_of_data ho
    -- both walks resolve the same text
    rw [hvalue, Labels.resolve_text, hw'] at hw
    cases hw
    exact ⟨o, w, ho, hw', hcell, .inr ⟨rfl, rfl, hvalue ▸ hmarked⟩⟩

end Assembly.MadeFrom

/-- A token in the layout is the operand of a line, or else names `main`. -/
theorem Source.mem_operandTexts_of_token {program : List (Line × Statement)}
    (hparse : ∀ p ∈ program, Statement.parse p.1.text = .ok p.2) {c : Cell Operand} {text : String}
    (hc : c ∈ Layout.cells (Layout.blocks (State.startup program)))
    (htext : c.content = .token text) :
    text ∈ ("&" ++ State.entryLabel) :: operandTexts (program.map (·.1)) := by
  have hmem : text ∈ ((State.startup program).flatMap (·.operands)).filterMap (·.token?) := by
    rw [← Layout.filterMap_cells_blocks _ (f := Operand.token?) fun _ => rfl]
    exact List.mem_filterMap.2 ⟨c, hc, by rw [htext]; rfl⟩
  rw [State.startup, List.flatMap_append, List.filterMap_append, ← map_parse_operandTexts hparse]
    at hmem
  rcases List.mem_append.1 hmem with hentry | hsource
  · rw [List.mem_singleton.1 hentry]
    exact List.mem_cons_self
  · obtain ⟨o, ho, htoken⟩ := List.mem_filterMap.1 hsource
    obtain ⟨written, hwritten, rfl⟩ := List.mem_map.1 ho
    rw [Operand.eq_of_parse_eq_token (Operand.token?_eq_some_iff.1 htoken)]
    exact List.mem_cons_of_mem _ hwritten

/-- The map tells the truth about the image. The cell at the offset of a literal or a pointer is no
code and holds what the value of the entry resolves to. For a literal that is a number or the
address of a label; for a pointer it is the address of the label that the source names at that
place, and the entry shows it in decimal. -/
theorem map_truthful {lines : List Line} {a : Assembly} (h : assemble lines = .ok a) :
    ∃ program, Source.read lines = .ok program ∧ ∀ e ∈ a.map,
      e.kind = .literal ∨ e.kind = .pointer →
        e.offset < a.image.size ∧ e.offset ∉ a.image.codeAddresses ∧
        ∃ w, a.image.contents[e.offset]? = some w ∧ a.labels.resolve e.value = .ok w ∧
          (e.kind = .literal → e.value.toList.head? ≠ some '&' ∧
            (Word.parse? e.value = some w ∨
              ∃ offset, a.labels.lookup e.value = some offset ∧ w = Word.ofAddress offset)) ∧
          (e.kind = .pointer → e.value = w.toDecimal ∧
            ∃ name offset,
              (Layout.cells (Layout.blocks (State.startup program)))[e.offset]? =
                some (.data (.token ("&" ++ name))) ∧
              "&" ++ name ∈ ("&" ++ State.entryLabel) :: Source.operandTexts lines ∧
              a.labels.lookup name = some offset ∧ w = Word.ofAddress offset) := by
  obtain ⟨program, hread, hmade⟩ := Assembly.madeFrom_of_assemble h
  obtain ⟨rfl, hparse⟩ := Source.of_read_eq_ok hread
  refine ⟨program, hread, fun e he hkind => ?_⟩
  obtain ⟨o, w, ho, hw, hcell, hentry⟩ := hmade.operand_of_mem_map he hkind
  obtain ⟨hlt, hdata, hcontent⟩ := Image.of_getElem?_data hcell
  have htext : a.labels.resolve o.text = .ok w := by rw [Labels.resolve_text, hw]
  refine ⟨hlt, hdata, w, hcontent, ?_⟩
  rcases hentry with ⟨hlit, hvalue, hunmarked⟩ | ⟨hptr, hvalue, hmarked⟩
  · rw [hvalue, hlit]
    refine ⟨htext, fun _ => ⟨hunmarked, ?_⟩, fun hptr => by cases hptr⟩
    rcases Labels.resolve_cases htext with hnumber | ⟨-, hlabel⟩
    · exact .inl hnumber
    · exact .inr (Labels.unmarked_of_not_marked hunmarked ▸ hlabel)
  · have hself : a.labels.resolve e.value = .ok w := by simp [hvalue, Labels.resolve]
    have hname := Labels.eq_mark_append_unmarked hmarked
    have htoken := Operand.eq_token_of_marked hmarked
    obtain ⟨offset, hlookup, haddress⟩ := Labels.resolve_of_marked htext hmarked
    rw [hptr]
    refine ⟨hself, ?_, fun _ => ⟨hvalue, _, offset, ?_, ?_, hlookup, haddress⟩⟩
    · intro hlit
      cases hlit
    · rw [ho, ← hname, ← htoken]
    · rw [← hname]
      exact Source.mem_operandTexts_of_token hparse (List.mem_of_getElem? ho) htoken

/-- The pointer in a source that names one label with the mark and without it. -/
theorem map_truthful_pointer :
    ∃ a program,
      assemble [⟨1, ":main"⟩, ⟨2, "lit &x"⟩, ⟨3, "lit x"⟩, ⟨4, "ret"⟩, ⟨5, ":x"⟩, ⟨6, ".data -1"⟩] =
        .ok a ∧
      Source.read [⟨1, ":main"⟩, ⟨2, "lit &x"⟩, ⟨3, "lit x"⟩, ⟨4, "ret"⟩, ⟨5, ":x"⟩,
        ⟨6, ".data -1"⟩] = .ok program ∧
      ⟨.pointer, "5", 3⟩ ∈ a.map ∧ 3 < a.image.size ∧ 3 ∉ a.image.codeAddresses ∧
      ∃ w, a.image.contents[3]? = some w ∧ a.labels.resolve "5" = .ok w ∧ "5" = w.toDecimal ∧
        ∃ name offset,
          (Layout.cells (Layout.blocks (State.startup program)))[3]? =
            some (.data (.token ("&" ++ name))) ∧
          a.labels.lookup name = some offset ∧ w = Word.ofAddress offset := by
  obtain ⟨a, ha, he⟩ : ∃ a, assemble [⟨1, ":main"⟩, ⟨2, "lit &x"⟩, ⟨3, "lit x"⟩, ⟨4, "ret"⟩,
      ⟨5, ":x"⟩, ⟨6, ".data -1"⟩] = .ok a ∧ ⟨.pointer, "5", 3⟩ ∈ a.map := ⟨_, rfl, by decide⟩
  obtain ⟨program, hread, htrue⟩ := map_truthful ha
  obtain ⟨hlt, hdata, w, hw, hresolve, -, hpointer⟩ := htrue _ he (.inr rfl)
  obtain ⟨hdecimal, name, offset, hcell, -, hlookup⟩ := hpointer rfl
  exact ⟨a, program, ha, hread, he, hlt, hdata, w, hw, hresolve, hdecimal, name, offset, hcell,
    hlookup⟩

end PackedStack
