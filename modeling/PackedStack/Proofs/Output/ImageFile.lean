import PackedStack.Output.Artifact

/-!
# The image file

Every word takes up four bytes of the image file, so that the bytes of the word at an address are
found at four times the address (`Artifact.take_drop_imageBytes`). Cutting the file into fours gives
the words back (`Artifact.readImage?_imageBytes`), and any bytes that can be cut so are the file of
the words that come out (`Artifact.imageBytes_of_readImage?`). Slots and codes can be read back from
words in the same way, so that the file tells every opcode of an image (`image_file_decodable`).
-/

namespace PackedStack

namespace Artifact

theorem imageBytes_cons (w : Word) (words : List Word) :
    imageBytes (w :: words) = w.unpack.toList ++ imageBytes words :=
  List.flatMap_cons

theorem length_imageBytes (words : List Word) : (imageBytes words).length = 4 * words.length := by
  induction words with
  | nil => rfl
  | cons w words ih =>
    rw [imageBytes_cons, List.length_append, ih, List.length_cons, Nat.mul_succ, Nat.add_comm]
    rfl

theorem take_drop_imageBytes {words : List Word} {a : Nat} {w : Word} (h : words[a]? = some w) :
    ((imageBytes words).drop (4 * a)).take 4 = w.unpack.toList := by
  obtain ⟨ha, rfl⟩ := List.getElem?_eq_some_iff.1 h
  have hsplit : imageBytes words =
      imageBytes (words.take a) ++ (words[a].unpack.toList ++ imageBytes (words.drop (a + 1))) := by
    rw [← imageBytes_cons, ← List.drop_eq_getElem_cons ha, imageBytes, imageBytes, imageBytes,
      ← List.flatMap_append, List.take_append_drop]
  have hlen : (imageBytes (words.take a)).length = 4 * a := by
    rw [length_imageBytes, List.length_take, Nat.min_eq_left (Nat.le_of_lt ha)]
  rw [hsplit, List.drop_left' hlen]
  exact List.take_left' rfl

theorem getElem?_imageBytes {words : List Word} {a : Nat} {w : Word} (h : words[a]? = some w)
    {s : Nat} (hs : s < 4) : (imageBytes words)[4 * a + s]? = w.unpack.toList[s]? := by
  rw [← take_drop_imageBytes h, List.getElem?_take_of_lt hs, List.getElem?_drop]

@[simp] theorem readImage?_imageBytes (words : List Word) :
    readImage? (imageBytes words) = some words := by
  induction words with
  | nil => rfl
  | cons w words ih =>
    rw [imageBytes_cons]
    show (readImage? (imageBytes words)).map (Word.pack w.unpack :: ·) = _
    rw [ih, Word.pack_unpack]
    rfl

theorem imageBytes_of_readImage? {bytes : List UInt8} {words : List Word}
    (h : readImage? bytes = some words) : imageBytes words = bytes := by
  fun_induction readImage? bytes generalizing words with
  | case1 => cases h; rfl
  | case2 b0 b1 b2 b3 rest ih =>
    obtain ⟨words', hrest, rfl⟩ := Option.map_eq_some_iff.1 h
    rw [imageBytes_cons, Word.unpack_pack, ih hrest]
    rfl
  | case3 => cases h

end Artifact

/-- Words, their slots and the image file determine each other. Four bytes make one word and come
back from it, the lowest bits first; a word is code exactly if each of its bytes is the code of an
opcode. The file has four bytes for each word, at four times its address, so that it can be cut into
the words again, and the byte at place `s` among those of a code word is the code of its opcode in
slot `s`. -/
theorem image_file_decodable :
    (∀ b : Slots UInt8, (Word.pack b).unpack = b) ∧
      (∀ w : Word,
        Word.pack w.unpack = w ∧
          w.unpack.toList =
            (List.range 4).map (fun s => UInt8.ofBitVec (w.extractLsb' (8 * s) 8)) ∧
          (∀ ops, Word.decode? w = some ops ↔ Word.pack (ops.map Opcode.code) = w) ∧
          (Word.decode? w = none ↔ ∃ b ∈ w.unpack.toList, 27 ≤ b.toNat)) ∧
      (∀ words : List Word,
        let bytes := Artifact.imageBytes words
        bytes.length = 4 * words.length ∧
          Artifact.readImage? bytes = some words ∧
          ∀ a w, words[a]? = some w →
            (bytes.drop (4 * a)).take 4 = w.unpack.toList ∧
              ∀ ops, Word.decode? w = some ops →
                ∀ s < 4, bytes[4 * a + s]? = ops.toList[s]?.map Opcode.code) ∧
      ∀ bytes words, Artifact.readImage? bytes = some words →
        Artifact.imageBytes words = bytes := by
  refine ⟨Word.unpack_pack, fun w => ⟨w.pack_unpack, w.toList_unpack, fun ops =>
    Word.decode?_eq_some_iff, Word.decode?_eq_none_iff⟩, fun words => ?_, fun bytes words =>
    Artifact.imageBytes_of_readImage?⟩
  refine ⟨Artifact.length_imageBytes words, Artifact.readImage?_imageBytes words, ?_⟩
  intro a w hw
  refine ⟨Artifact.take_drop_imageBytes hw, fun ops hops s hs => ?_⟩
  have hslots : w.unpack = ops.map Opcode.code := by
    rw [← Word.decode?_eq_some_iff.1 hops, Word.encode, Word.unpack_pack]
  rw [Artifact.getElem?_imageBytes hw hs, hslots, ← List.getElem?_map]
  rfl

/-- A word with all bits set is no code, and the opcode in the last slot of the word behind it is
the last byte of the file. -/
theorem image_file_decodable_last_slot :
    let slots : Slots Opcode := ⟨.lit, .jump, .nop, .halt⟩
    let words : List Word := [0xFFFFFFFF, Word.encode slots]
    words[1]? = some (Word.encode slots) ∧ Word.decode? (Word.encode slots) = some slots ∧
      (Artifact.imageBytes words)[4 * 1 + 3]? = some 26 ∧ Word.decode? 0xFFFFFFFF = none := by
  intro slots words
  obtain ⟨-, -, hplaces⟩ := image_file_decodable.2.2.1 words
  have hops : Word.decode? (Word.encode slots) = some slots := by decide
  exact ⟨rfl, hops, (hplaces 1 (Word.encode slots) rfl).2 slots hops 3 (by decide),
    (image_file_decodable.2.1 0xFFFFFFFF).2.2.2.2 (by decide)⟩

end PackedStack
