import Mathlib.Data.List.Basic
import PackedStack.Text.Utf8

/-!
# Characters in bytes of text

The bytes of a text are those of its characters, one after another (`encode_eq_flatMap`). A byte
below 128 stands for the character of that code and for nothing else (`mem_utf8EncodeChar_iff`), so
that newlines can be found in bytes (`newline_mem_encode_iff`), and names of characters below 128 in
the first bytes of a text, also if these end inside a character (`leading?_eq_some_iff`).
-/

namespace PackedStack.Utf8

theorem encode_eq_flatMap (text : String) :
    encode text = text.toList.flatMap String.utf8EncodeChar := by
  rw [encode, ← String.utf8Encode_toList, List.utf8Encode, List.toList_data_toByteArray]

/-- A byte below 128 stands for a character by itself. -/
theorem mem_utf8EncodeChar_iff {b : UInt8} (hb : b.toNat < 128) {c : Char} :
    b ∈ String.utf8EncodeChar c ↔ c.toNat = b.toNat := by
  have hsmall : ∀ n < 256, b = UInt8.ofNat n ↔ b.toNat = n := by
    intro n hn
    rw [← UInt8.toNat_inj, UInt8.toNat_ofNat_of_lt' hn]
  have hc : c.toNat = c.val.toNat := rfl
  simp only [String.utf8EncodeChar]
  split
  · rw [List.mem_singleton, hsmall _ (by omega)]
    omega
  · split
    · simp only [List.mem_cons, List.not_mem_nil, or_false]
      rw [hsmall _ (by omega), hsmall _ (by omega)]
      omega
    · split
      · simp only [List.mem_cons, List.not_mem_nil, or_false]
        rw [hsmall _ (by omega), hsmall _ (by omega), hsmall _ (by omega)]
        omega
      · simp only [List.mem_cons, List.not_mem_nil, or_false]
        rw [hsmall _ (by omega), hsmall _ (by omega), hsmall _ (by omega), hsmall _ (by omega)]
        omega

theorem newline_mem_encode_iff {text : String} : 10 ∈ encode text ↔ '\n' ∈ text.toList := by
  rw [encode_eq_flatMap, List.mem_flatMap]
  constructor
  · rintro ⟨c, hc, hbyte⟩
    have hcode := (mem_utf8EncodeChar_iff (by decide)).1 hbyte
    rwa [Char.toNat_inj.1 (hcode.trans (by decide : (10 : UInt8).toNat = '\n'.toNat))] at hc
  · intro hnewline
    exact ⟨'\n', hnewline, (mem_utf8EncodeChar_iff (by decide)).2 (by decide)⟩

/-- Only a carriage return ends in the byte of one. -/
theorem getLast?_encode_ne {text : String} (h : text.toList.getLast? ≠ some '\r') :
    (encode text).getLast? ≠ some 13 := by
  intro hlast
  rw [encode_eq_flatMap] at hlast
  rcases List.eq_nil_or_concat text.toList with hnil | ⟨front, c, hconcat⟩
  · rw [hnil] at hlast
    cases hlast
  · rw [List.concat_eq_append] at hconcat
    rw [hconcat, List.getLast?_concat] at h
    have hne : String.utf8EncodeChar c ≠ [] := String.utf8EncodeChar_ne_nil
    rw [hconcat, List.flatMap_append, List.flatMap_singleton, List.getLast?_append,
      List.getLast?_eq_some_getLast hne, Option.some_or] at hlast
    have hbyte : 13 ∈ String.utf8EncodeChar c := Option.some.inj hlast ▸ List.getLast_mem hne
    have hcode := (mem_utf8EncodeChar_iff (by decide)).1 hbyte
    exact h (congrArg some (Char.toNat_inj.1 (hcode.trans (by decide))))

theorem encode_append_newline (cs rest : List Char) :
    encode (String.ofList (cs ++ '\n' :: rest)) =
      encode (String.ofList cs) ++ 10 :: encode (String.ofList rest) := by
  simp only [encode_eq_flatMap, String.toList_ofList, List.flatMap_append, List.flatMap_cons]
  rfl

theorem encode_eq_nil_iff {text : String} : encode text = [] ↔ text = "" := by
  have hnil : decode? [] = some "" := decode?_encode ""
  rw [← decode?_eq_some_iff, hnil, Option.some.injEq, eq_comm]

/-! ## The first bytes of a text -/

/-- The text that the first bytes of a text are, if there are as many and they end between two
characters. -/
def leading? (n : Nat) (text : String) : Option String :=
  if n ≤ (encode text).length then decode? ((encode text).take n) else none

theorem utf8EncodeChar_of_lt {c : Char} (hc : c.toNat < 128) :
    String.utf8EncodeChar c = [UInt8.ofNat c.toNat] := by
  have hval : c.val.toNat = c.toNat := rfl
  simp only [String.utf8EncodeChar]
  rw [if_pos (by omega), hval]

theorem length_encode_of_lt {key : String} (hkey : ∀ c ∈ key.toList, c.toNat < 128) :
    (encode key).length = key.toList.length := by
  rw [encode_eq_flatMap, List.flatMap_congr fun c hc => utf8EncodeChar_of_lt (hkey c hc),
    ← List.map_eq_flatMap, List.length_map]

/-- The bytes of characters below 128 are found only where the characters are. -/
theorem isPrefix_of_isPrefix_encode {key cs : List Char} (hkey : ∀ c ∈ key, c.toNat < 128)
    (h : key.flatMap String.utf8EncodeChar <+: cs.flatMap String.utf8EncodeChar) : key <+: cs := by
  induction key generalizing cs with
  | nil => exact List.nil_prefix
  | cons k key ih =>
    have hk := hkey k List.mem_cons_self
    have hbyte : (UInt8.ofNat k.toNat).toNat = k.toNat :=
      UInt8.toNat_ofNat_of_lt' (Nat.lt_trans hk (by decide))
    rw [List.flatMap_cons, utf8EncodeChar_of_lt hk, List.singleton_append] at h
    cases cs with
    | nil => simp at h
    | cons c cs =>
      obtain ⟨b, bytes, hbytes⟩ :=
        List.exists_cons_of_ne_nil (String.utf8EncodeChar_ne_nil (c := c))
      -- The first byte is below 128, so that it is a character by itself.
      have hb : UInt8.ofNat k.toNat = b := by
        rw [List.flatMap_cons, hbytes, List.cons_append, List.cons_prefix_cons] at h
        exact h.1
      have hmem : UInt8.ofNat k.toNat ∈ String.utf8EncodeChar c := by
        rw [hbytes, hb]
        exact List.mem_cons_self
      have hcode := (mem_utf8EncodeChar_iff (by omega)).1 hmem
      obtain rfl : c = k := Char.toNat_inj.1 (hcode.trans hbyte)
      rw [List.flatMap_cons, utf8EncodeChar_of_lt hk, List.singleton_append,
        List.cons_prefix_cons] at h
      rw [List.cons_prefix_cons]
      exact ⟨rfl, ih (fun d hd => hkey d (List.mem_cons_of_mem c hd)) h.2⟩

/-- A name of characters below 128 is told by the first bytes of a text as by the first
characters. -/
theorem leading?_eq_some_iff (text : String) {key : String}
    (hkey : ∀ c ∈ key.toList, c.toNat < 128) :
    leading? key.toList.length text = some key ↔ key.toList <+: text.toList := by
  have hlength := length_encode_of_lt hkey
  have hbytes : encode key <+: encode text ↔ key.toList <+: text.toList := by
    rw [encode_eq_flatMap, encode_eq_flatMap]
    refine ⟨isPrefix_of_isPrefix_encode hkey, ?_⟩
    rintro ⟨rest, hrest⟩
    rw [← hrest, List.flatMap_append]
    exact List.prefix_append _ _
  rw [← hbytes, List.prefix_iff_eq_take, hlength, leading?]
  split
  · exact decode?_eq_some_iff
  · rename_i hshort
    simp only [reduceCtorEq, false_iff]
    intro htake
    have hle := congrArg List.length htake
    rw [List.length_take, hlength] at hle
    omega

end PackedStack.Utf8
