import PackedStack.Proofs.Source.Load
import PackedStack.Text.Split

/-!
# Loading whole texts

Loading decodes line by line, but bytes load exactly if they are a text as a whole
(`Source.failure?_load`): a piece between two newlines of a text is a text, and a text with its line
end is one again. What is loaded of a text are its pieces between newlines, trimmed and numbered, as
far as they are not blank (`Source.load_encode`). The other way round, every list of lines that
could have been loaded is loaded from the text that has each line at its number
(`Source.load_arrange`).
-/

namespace PackedStack

namespace Source

/-! ## Numbering -/

/-- The lines among texts that are numbered from the given number on. -/
def numberedFrom (first : Nat) (texts : List String) : List Line :=
  (texts.zipIdx first).filterMap fun t => line? t.2 t.1

theorem numbered_eq_numberedFrom (texts : List String) :
    numbered texts = numberedFrom 1 texts :=
  rfl

theorem numberedFrom_cons (first : Nat) (text : String) (texts : List String) :
    numberedFrom first (text :: texts) =
      (line? first text).toList ++ numberedFrom (first + 1) texts := by
  rw [numberedFrom, List.zipIdx_cons, List.filterMap_cons, ← numberedFrom]
  cases line? first text <;> rfl

/-- Only the trimmed text matters. -/
theorem line?_congr {text text' : String} (h : Text.trim text.toList = Text.trim text'.toList)
    (number : Nat) : line? number text = line? number text' := by
  rw [line?, line?, h]

/-- A text is the given line at its number if it is that of the line with blank characters around
it. -/
theorem line?_eq_some_self_iff {text : String} {line : Line} :
    line? line.number text = some line ↔
      Text.TrimsTo text.toList line.text.toList ∧ line.text.toList ≠ [] := by
  rw [line?_eq_some_iff, Text.trimsTo_iff]
  constructor
  · rintro ⟨hne, hline⟩
    have htext : line.text.toList = Text.trim text.toList := by
      rw [hline, String.toList_ofList]
    rw [htext]
    exact ⟨rfl, hne⟩
  · rintro ⟨htrim, hne⟩
    rw [htrim, String.ofList_toList]
    exact ⟨hne, rfl⟩

theorem line?_of_trimmed {line : Line} (hne : line.text.toList ≠ [])
    (h : Text.Trimmed line.text.toList) : line? line.number line.text = some line :=
  line?_eq_some_self_iff.2 ⟨Text.trimsTo_iff.2 (Text.trim_of_trimmed h), hne⟩

theorem number_of_line? {number : Nat} {text : String} {line : Line}
    (h : line? number text = some line) : line.number = number := by
  obtain ⟨-, rfl⟩ := line?_eq_some_iff.1 h
  rfl

theorem mem_numberedFrom_iff {first : Nat} {texts : List String} {line : Line} :
    line ∈ numberedFrom first texts ↔
      ∃ text, first ≤ line.number ∧ texts[line.number - first]? = some text ∧
        line? line.number text = some line := by
  rw [numberedFrom, List.mem_filterMap]
  constructor
  · rintro ⟨⟨text, number⟩, hmem, hline⟩
    obtain rfl := number_of_line? hline
    obtain ⟨hle, htext⟩ := List.mk_mem_zipIdx_iff_le_and_getElem?_sub.1 hmem
    exact ⟨text, hle, htext, hline⟩
  · rintro ⟨text, hle, htext, hline⟩
    exact ⟨(text, line.number), List.mk_mem_zipIdx_iff_le_and_getElem?_sub.2 ⟨hle, htext⟩, hline⟩

/-- The lines among pieces of a text are trimmed pieces. -/
theorem mem_numbered_ofList_iff {pieces : List (List Char)} {line : Line} :
    line ∈ numbered (pieces.map String.ofList) ↔ 0 < line.number ∧
      ∃ piece, pieces[line.number - 1]? = some piece ∧
        Text.TrimsTo piece line.text.toList ∧ line.text.toList ≠ [] := by
  rw [numbered_eq_numberedFrom, mem_numberedFrom_iff, List.getElem?_map]
  constructor
  · rintro ⟨text, hpos, htext, hline⟩
    obtain ⟨piece, hpiece, rfl⟩ := Option.map_eq_some_iff.1 htext
    rw [line?_eq_some_self_iff, String.toList_ofList] at hline
    exact ⟨hpos, piece, hpiece, hline⟩
  · rintro ⟨hpos, piece, hpiece, hline⟩
    refine ⟨String.ofList piece, hpos, by rw [hpiece]; rfl, ?_⟩
    rwa [line?_eq_some_self_iff, String.toList_ofList]

theorem pairwise_numberedFrom (first : Nat) (texts : List String) :
    (numberedFrom first texts).Pairwise fun l l' => l.number < l'.number := by
  induction texts generalizing first with
  | nil => exact .nil
  | cons text texts ih =>
    rw [numberedFrom_cons, List.pairwise_append]
    refine ⟨?_, ih (first + 1), fun line hline line' hline' => ?_⟩
    · cases line? first text <;> simp
    · have hnumber := number_of_line? (Option.mem_toList.1 hline)
      obtain ⟨-, hle, -⟩ := mem_numberedFrom_iff.1 hline'
      omega

/-! ## Pieces of bytes and of text -/

theorem cut_of_not_mem {line : List UInt8} (h : 10 ∉ line) (hne : line ≠ []) :
    cut line = [line] := by
  induction line with
  | nil => exact absurd rfl hne
  | cons b line ih =>
    rw [List.mem_cons, not_or] at h
    rw [cut_cons_of_ne (Ne.symm h.1)]
    cases line with
    | nil => rfl
    | cons b' line => rw [ih h.2 (List.cons_ne_nil _ _)]

theorem flatten_cut (bytes : List UInt8) : (cut bytes).flatten = bytes := by
  induction bytes with
  | nil => rfl
  | cons b bytes ih =>
    by_cases hb : b = 10
    · subst hb
      rw [cut_cons_newline, List.flatten_cons, ih]
      rfl
    · rw [cut_cons_of_ne hb]
      cases hcut : cut bytes with
      | nil =>
        rw [hcut] at ih
        rw [← ih]
        rfl
      | cons piece rest =>
        rw [hcut, List.flatten_cons] at ih
        rw [← ih]
        rfl

/-- What a line loses is a line end. -/
theorem exists_eq_chomp_append (piece : List UInt8) :
    ∃ lineEnd : String, piece = chomp piece ++ Utf8.encode lineEnd := by
  rw [chomp]
  split
  · rename_i rest hreverse
    refine ⟨"\r\n", ?_⟩
    rw [← List.reverse_reverse piece, hreverse, List.reverse_cons, List.reverse_cons]
    simp; rfl
  · rename_i rest _ hreverse
    refine ⟨"\n", ?_⟩
    rw [← List.reverse_reverse piece, hreverse, List.reverse_cons]
    rfl
  · exact ⟨"", (List.append_nil piece).symm⟩

/-- The piece of a text before a newline decodes, and to the same line. -/
theorem exists_decode?_chomp (text : String) :
    ∃ text', Utf8.decode? (chomp (Utf8.encode text ++ [10])) = some text' ∧
      Text.trim text'.toList = Text.trim text.toList := by
  rw [chomp_append_newline]
  by_cases hlast : text.toList.getLast? = some '\r'
  · obtain ⟨front, hfront⟩ := List.getLast?_eq_some_iff.1 hlast
    have hencode : Utf8.encode text = Utf8.encode (String.ofList front) ++ [13] := by
      rw [Utf8.encode_eq_flatMap, hfront, List.flatMap_append, Utf8.encode_eq_flatMap,
        String.toList_ofList]
      rfl
    refine ⟨String.ofList front, ?_, ?_⟩
    · rw [hencode, List.getLast?_concat, if_pos rfl, List.dropLast_concat, Utf8.decode?_encode]
    · rw [hfront, String.toList_ofList, Text.trim_append_singleton_of_isBlank (by decide)]
  · rw [if_neg (Utf8.getLast?_encode_ne hlast)]
    exact ⟨text, Utf8.decode?_encode text, rfl⟩

/-- The pieces of the bytes of a text decode, and are the same lines as the pieces of the text. -/
theorem exists_mapM_decode? (cs : List Char) :
    ∃ texts,
      (cut (Utf8.encode (String.ofList cs))).mapM (fun piece => Utf8.decode? (chomp piece)) =
          some texts ∧
        ∀ first, numberedFrom first texts =
          numberedFrom first ((Text.splitOn '\n' cs).map String.ofList) := by
  -- By induction on the pieces of the text, each of which is shorter than what is left.
  induction hlength : cs.length using Nat.strongRecOn generalizing cs with
  | ind n ih =>
    by_cases hnewline : '\n' ∈ cs
    · obtain ⟨piece, rest, rfl, hpiece⟩ := List.eq_append_cons_of_mem hnewline
      rw [List.length_append, List.length_cons] at hlength
      obtain ⟨texts, htexts, hnumbered⟩ := ih rest.length (by omega) rest rfl
      obtain ⟨text, htext, htrim⟩ := exists_decode?_chomp (String.ofList piece)
      have hbytes : 10 ∉ Utf8.encode (String.ofList piece) := by
        rwa [Utf8.newline_mem_encode_iff, String.toList_ofList]
      refine ⟨text :: texts, ?_, fun first => ?_⟩
      · rw [Utf8.encode_append_newline, cut_append_newline hbytes, List.mapM_cons, htext, htexts]
        rfl
      · rw [Text.splitOn_append_cons hpiece, List.map_cons, numberedFrom_cons, numberedFrom_cons,
          line?_congr htrim, hnumbered]
    · have hbytes : 10 ∉ Utf8.encode (String.ofList cs) := by
        rwa [Utf8.newline_mem_encode_iff, String.toList_ofList]
      rw [Text.splitOn_of_not_mem hnewline, List.map_singleton]
      by_cases hnil : Utf8.encode (String.ofList cs) = []
      · rw [Utf8.encode_eq_nil_iff.1 hnil]
        exact ⟨[], rfl, fun _ => rfl⟩
      · refine ⟨[String.ofList cs], ?_, fun _ => rfl⟩
        rw [cut_of_not_mem hbytes hnil, List.mapM_cons, chomp_of_not_mem hbytes,
          Utf8.decode?_encode]
        rfl

theorem load_encode (text : String) :
    load (Utf8.encode text) =
      .ok (numbered ((Text.splitOn '\n' text.toList).map String.ofList)) := by
  obtain ⟨texts, hdecode, hnumbered⟩ := exists_mapM_decode? text.toList
  rw [String.ofList_toList] at hdecode
  rw [numbered_eq_numberedFrom, ← hnumbered, load, hdecode]
  rfl

/-- Pieces that decode one by one are the bytes of a text. -/
theorem exists_encode_flatten {pieces : List (List UInt8)} {texts : List String}
    (h : pieces.mapM (fun piece => Utf8.decode? (chomp piece)) = some texts) :
    ∃ text, Utf8.encode text = pieces.flatten := by
  rw [mapM_eq_some_iff] at h
  induction pieces generalizing texts with
  | nil => exact ⟨"", rfl⟩
  | cons piece pieces ih =>
    obtain ⟨text, texts', rfl, htext, htexts⟩ := List.map_eq_cons_iff.1 h.symm
    obtain ⟨text', htext'⟩ := ih htexts.symm
    obtain ⟨lineEnd, hpiece⟩ := exists_eq_chomp_append piece
    refine ⟨text ++ lineEnd ++ text', ?_⟩
    rw [List.flatten_cons, ← htext', Utf8.encode_append, Utf8.encode_append,
      Utf8.decode?_eq_some_iff.1 htext.symm, ← hpiece]

theorem failure?_load (bytes : List UInt8) :
    failure? (load bytes) =
      if (Utf8.decode? bytes).isSome then none else some (.readFailed .invalidUtf8) := by
  cases hdecode : Utf8.decode? bytes with
  | some text =>
    rw [← Utf8.decode?_eq_some_iff.1 hdecode, load_encode]
    rfl
  | none =>
    rw [load]
    split
    · rename_i texts htexts
      obtain ⟨text, htext⟩ := exists_encode_flatten htexts
      rw [flatten_cut] at htext
      rw [Utf8.decode?_eq_some_iff.2 htext] at hdecode
      cases hdecode
    · rfl

/-! ## Arranging lines -/

/-- Lines that a source can have: numbered from 1 in increasing order, and each a text without a
newline and without blank characters at its ends. -/
structure Loadable (lines : List Line) : Prop where
  pairwise : lines.Pairwise fun l l' => l.number < l'.number
  pos : ∀ line ∈ lines, 0 < line.number
  ne_nil : ∀ line ∈ lines, line.text.toList ≠ []
  trimmed : ∀ line ∈ lines, Text.Trimmed line.text.toList
  newline_not_mem : ∀ line ∈ lines, '\n' ∉ line.text.toList

theorem loadable_of_load {bytes : List UInt8} {lines : List Line} (h : load bytes = .ok lines) :
    Loadable lines := by
  have htext : ∀ line ∈ lines, line.text.toList ≠ [] ∧ Text.Trimmed line.text.toList ∧
      '\n' ∉ line.text.toList := fun _ hline => of_mem_load h hline
  rw [load] at h
  split at h
  · rename_i texts _
    cases h
    refine ⟨pairwise_numberedFrom 1 texts, fun line hline => ?_,
      fun line hline => (htext line hline).1, fun line hline => (htext line hline).2.1,
      fun line hline => (htext line hline).2.2⟩
    obtain ⟨-, hpos, -⟩ := mem_numberedFrom_iff.1 hline
    exact hpos
  · cases h

theorem Loadable.of_cons {line : Line} {lines : List Line} (h : Loadable (line :: lines)) :
    Loadable lines :=
  ⟨h.pairwise.of_cons, fun l hl => h.pos l (List.mem_cons_of_mem line hl),
    fun l hl => h.ne_nil l (List.mem_cons_of_mem line hl),
    fun l hl => h.trimmed l (List.mem_cons_of_mem line hl),
    fun l hl => h.newline_not_mem l (List.mem_cons_of_mem line hl)⟩

theorem numberedFrom_blank (first n : Nat) (texts : List String) :
    numberedFrom first (List.replicate n "" ++ texts) = numberedFrom (first + n) texts := by
  induction n generalizing first with
  | zero => rfl
  | succ n ih =>
    rw [List.replicate_succ, List.cons_append, numberedFrom_cons, ih, Nat.add_right_comm]
    rfl

/-- Lines are numbered as they were arranged. -/
theorem numberedFrom_arrangeFrom {lines : List Line} (h : Loadable lines) {first : Nat}
    (hfirst : ∀ line ∈ lines, first ≤ line.number) :
    numberedFrom first ((Text.splitOn '\n' (arrangeFrom first lines)).map String.ofList) =
      lines := by
  induction lines generalizing first with
  | nil => rfl
  | cons line lines ih =>
    have hmem : line ∈ line :: lines := List.mem_cons_self
    have hnext : ∀ line' ∈ lines, line.number + 1 ≤ line'.number :=
      (List.pairwise_cons.1 h.pairwise).1
    rw [arrangeFrom, List.append_assoc, Text.splitOn_replicate_append,
      Text.splitOn_append_cons (h.newline_not_mem line hmem), List.map_append, List.map_replicate,
      List.map_cons, String.ofList_toList, String.ofList_nil, numberedFrom_blank,
      Nat.add_sub_cancel' (hfirst line hmem), numberedFrom_cons,
      line?_of_trimmed (h.ne_nil line hmem) (h.trimmed line hmem), ih h.of_cons hnext]
    rfl

theorem load_arrange {lines : List Line} (h : Loadable lines) :
    load (Utf8.encode (arrange lines)) = .ok lines := by
  rw [load_encode, numbered_eq_numberedFrom, arrange, String.toList_ofList,
    numberedFrom_arrangeFrom h h.pos]

end Source

/-- Loading is as if the whole text was read at once. Bytes fail to load exactly if they are not a
text. A text gives the lines, in increasing order of their numbers, that its pieces between newlines
are at their positions when trimmed, unless blank. Every list of lines that could come from a source
does so from the text that has them at their numbers. -/
theorem load_reads_whole_text :
    (∀ bytes : List UInt8, failure? (Source.load bytes) =
        if (Utf8.decode? bytes).isSome then none else some (.readFailed .invalidUtf8)) ∧
      (∀ text : String, ∃ lines, Source.load (Utf8.encode text) = .ok lines ∧
        lines.Pairwise (fun l l' => l.number < l'.number) ∧
        ∀ line, line ∈ lines ↔ 0 < line.number ∧
          ∃ piece, (Text.splitOn '\n' text.toList)[line.number - 1]? = some piece ∧
            Text.TrimsTo piece line.text.toList ∧ line.text.toList ≠ []) ∧
      ∀ lines : List Line,
        Source.load (Utf8.encode (Source.arrange lines)) = .ok lines ↔ Source.Loadable lines := by
  refine ⟨Source.failure?_load, fun text => ?_, fun lines => ?_⟩
  · exact ⟨_, Source.load_encode text, Source.pairwise_numberedFrom 1 _,
      fun line => Source.mem_numbered_ofList_iff⟩
  · exact ⟨Source.loadable_of_load, Source.load_arrange⟩

/-- A newline inside a character, and lines with a carriage return and with blank lines between
them. -/
theorem load_reads_whole_text_inside_character :
    failure? (Source.load [0xc3, 10, 0xa9]) = some (.readFailed .invalidUtf8) ∧
      Source.Loadable [⟨2, "a\rb"⟩, ⟨5, "é"⟩] ∧
      Source.load (Utf8.encode (Source.arrange [⟨2, "a\rb"⟩, ⟨5, "é"⟩])) =
        .ok [⟨2, "a\rb"⟩, ⟨5, "é"⟩] := by
  have hdecode : Utf8.decode? [0xc3, 10, 0xa9] = none := by decide
  have hfailure := load_reads_whole_text.1 [0xc3, 10, 0xa9]
  rw [hdecode] at hfailure
  have hlines : Source.Loadable [⟨2, "a\rb"⟩, ⟨5, "é"⟩] :=
    ⟨by decide, by decide, by decide, by decide, by decide⟩
  exact ⟨hfailure, hlines, (load_reads_whole_text.2.2 _).2 hlines⟩

end PackedStack
