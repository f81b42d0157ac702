import Mathlib.Data.List.TakeWhile
import PackedStack.Text.Blank
import PackedStack.Text.Numeral

/-!
# The words of a line

Trimmed text has no blank character at its ends (`trimmed_trim`), and trimming finds such a text
again whatever blank characters stand around it (`trim_append`). The text after the first word of a
line is therefore what stands there, without the blank characters around it
(`afterFirstWord_append`). A line has one first word and one trimmed text behind it (`parts_iff`).
-/

namespace PackedStack.Text

/-- No blank character stands at either end. -/
def Trimmed (cs : List Char) : Prop :=
  (∀ c ∈ cs.head?, isBlank c = false) ∧ ∀ c ∈ cs.getLast?, isBlank c = false

theorem trimmed_of_forall {cs : List Char} (h : ∀ c ∈ cs, isBlank c = false) : Trimmed cs :=
  ⟨fun c hc => h c (List.mem_of_mem_head? hc), fun c hc => h c (List.mem_of_mem_getLast? hc)⟩

/-- A character in front that is not blank leaves the end to look at. -/
theorem trimmed_cons {c : Char} (hc : isBlank c = false) {cs : List Char}
    (h : ∀ d ∈ cs.getLast?, isBlank d = false) : Trimmed (c :: cs) := by
  refine ⟨fun d hd => Option.some.inj hd ▸ hc, fun d hd => ?_⟩
  cases cs with
  | nil => exact Option.some.inj hd ▸ hc
  | cons c' cs => exact h d (by rwa [List.getLast?_cons_cons] at hd)

theorem isBlank_of_head?_dropWhile {cs : List Char} {c : Char}
    (h : c ∈ (cs.dropWhile isBlank).head?) : isBlank c = false := by
  have hhead := List.head?_dropWhile_not isBlank cs
  rw [h] at hhead
  simpa using hhead

/-- What is trimmed at the back is a front part of what is trimmed at the front. -/
theorem dropWhile_isBlank_eq_append (cs : List Char) :
    cs.dropWhile isBlank =
      trim cs ++ ((cs.dropWhile isBlank).reverse.takeWhile isBlank).reverse := by
  rw [trim, ← List.reverse_append, List.takeWhile_append_dropWhile, List.reverse_reverse]

theorem trimmed_trim (cs : List Char) : Trimmed (trim cs) := by
  refine ⟨fun c hc => ?_, fun c hc => ?_⟩
  · obtain ⟨ds, hds⟩ := List.head?_eq_some_iff.1 hc
    have hhead : c ∈ (cs.dropWhile isBlank).head? := by
      rw [dropWhile_isBlank_eq_append, hds]
      rfl
    exact isBlank_of_head?_dropWhile hhead
  · rw [trim, List.getLast?_reverse] at hc
    exact isBlank_of_head?_dropWhile hc

theorem mem_of_mem_trim {c : Char} {cs : List Char} (h : c ∈ trim cs) : c ∈ cs := by
  have hfront := List.mem_reverse.1 ((List.dropWhile_sublist _).mem (List.mem_reverse.1 h))
  exact (List.dropWhile_sublist _).mem hfront

theorem mem_of_mem_afterFirstWord {c : Char} {cs : List Char} (h : c ∈ afterFirstWord cs) :
    c ∈ cs :=
  (List.dropWhile_sublist _).mem (mem_of_mem_trim h)

/-- Blank characters are dropped up to the first that is not blank. -/
theorem dropWhile_isBlank_append {lead cs : List Char} (hlead : lead.all isBlank)
    (h : ∀ c ∈ cs.head?, isBlank c = false) : (lead ++ cs).dropWhile isBlank = cs := by
  rw [List.dropWhile_append_of_pos (List.all_eq_true.1 hlead)]
  cases cs with
  | nil => rfl
  | cons c cs => exact List.dropWhile_cons_of_neg (by simp [h c rfl])

theorem trim_append {lead cs tail : List Char} (hlead : lead.all isBlank) (h : Trimmed cs)
    (htail : tail.all isBlank) : trim (lead ++ (cs ++ tail)) = cs := by
  have hback : (tail.reverse ++ cs.reverse).dropWhile isBlank = cs.reverse := by
    refine dropWhile_isBlank_append (by rwa [List.all_reverse]) ?_
    rw [List.head?_reverse]
    exact h.2
  cases cs with
  | nil =>
    have hall : (lead ++ tail).all isBlank := by rw [List.all_append, hlead, htail]; rfl
    have hfront : (lead ++ tail ++ []).dropWhile isBlank = [] :=
      dropWhile_isBlank_append hall (by simp)
    rw [List.append_nil] at hfront
    rw [trim, List.nil_append, hfront]
    rfl
  | cons c cs =>
    have hfront : (lead ++ (c :: cs ++ tail)).dropWhile isBlank = c :: cs ++ tail :=
      dropWhile_isBlank_append hlead h.1
    rw [trim, hfront, List.reverse_append, hback, List.reverse_reverse]

theorem trim_of_trimmed {cs : List Char} (h : Trimmed cs) : trim cs = cs := by
  have htrim := trim_append List.all_nil h List.all_nil
  rwa [List.append_nil] at htrim

theorem trimmed_iff {cs : List Char} : Trimmed cs ↔ trim cs = cs :=
  ⟨trim_of_trimmed, fun h => h ▸ trimmed_trim cs⟩

instance (cs : List Char) : Decidable (Trimmed cs) := decidable_of_iff _ trimmed_iff.symm

/-- Trimming takes off blank characters only. -/
theorem exists_eq_append_trim (cs : List Char) :
    ∃ lead tail, cs = lead ++ (trim cs ++ tail) ∧ lead.all isBlank ∧ tail.all isBlank := by
  refine ⟨cs.takeWhile isBlank, ((cs.dropWhile isBlank).reverse.takeWhile isBlank).reverse, ?_,
    List.all_takeWhile, by rw [List.all_reverse, List.all_takeWhile]⟩
  rw [← dropWhile_isBlank_eq_append, List.takeWhile_append_dropWhile]

/-- A blank character in front makes no difference. -/
theorem trim_cons_of_isBlank {b : Char} (hb : isBlank b) (cs : List Char) :
    trim (b :: cs) = trim cs := by
  rw [trim, List.dropWhile_cons_of_pos hb, ← trim]

/-- A blank character at the back makes no difference. -/
theorem trim_append_singleton_of_isBlank {b : Char} (hb : isBlank b) (cs : List Char) :
    trim (cs ++ [b]) = trim cs := by
  obtain ⟨lead, tail, hcs, hlead, htail⟩ := exists_eq_append_trim cs
  have htail' : (tail ++ [b]).all isBlank := by simp [htail, hb]
  have happend : cs ++ [b] = lead ++ (trim cs ++ (tail ++ [b])) := by
    rw [← List.append_assoc (trim cs), ← List.append_assoc lead, ← hcs]
  rw [happend, trim_append hlead (trimmed_trim cs) htail']

/-- The text after a word that a blank character ends. -/
theorem afterFirstWord_append {word lead cs tail : List Char} (hword : word.all fun c => !isBlank c)
    (hne : lead ≠ []) (hlead : lead.all isBlank) (h : Trimmed cs) (htail : tail.all isBlank) :
    afterFirstWord (word ++ (lead ++ (cs ++ tail))) = cs := by
  obtain ⟨b, lead', rfl⟩ := List.exists_cons_of_ne_nil hne
  have hb : isBlank b := List.all_eq_true.1 hlead b List.mem_cons_self
  have hdrop : (word ++ (b :: lead' ++ (cs ++ tail))).dropWhile (fun c => !isBlank c) =
      b :: lead' ++ (cs ++ tail) := by
    rw [List.dropWhile_append_of_pos (List.all_eq_true.1 hword)]
    exact List.dropWhile_cons_of_neg (by simp [hb])
  rw [afterFirstWord, hdrop, trim_append hlead h htail]

/-- The trimmed text behind a word and a space. -/
theorem afterFirstWord_append_space {word cs : List Char} (hword : word.all fun c => !isBlank c)
    (h : Trimmed cs) : afterFirstWord (word ++ ' ' :: cs) = cs := by
  have hgap : [' '].all isBlank := by decide
  have hafter := afterFirstWord_append hword (List.cons_ne_nil _ _) hgap h List.all_nil
  rwa [List.append_nil] at hafter

theorem isBlank_of_isDigit {c : Char} (h : c.isDigit) : isBlank c = false := by
  have hrange : 48 ≤ c.toNat ∧ c.toNat ≤ 57 := by
    simpa [Char.isDigit, UInt32.le_iff_toNat_le] using h
  simp only [isBlank, blankRanges, List.any_cons, List.any_nil, Bool.or_false, Bool.or_eq_false_iff,
    Bool.and_eq_false_iff, decide_eq_false_iff_not]
  omega

theorem trimmed_decimal (n : Nat) : Trimmed (Numeral.decimal n) :=
  trimmed_of_forall fun _ hc =>
    isBlank_of_isDigit (Nat.isDigit_of_mem_toDigits (by decide) (by decide) hc)

/-! ## The two parts of a line -/

/-- A text is what is left of another without the blank characters around it. -/
def TrimsTo (cs core : List Char) : Prop :=
  ∃ lead tail, cs = lead ++ (core ++ tail) ∧ lead.all isBlank ∧ tail.all isBlank ∧ Trimmed core

/-- The first word of a line and the trimmed text behind it. The word ends at the first blank
character, or else is the whole line. -/
inductive Parts : List Char → List Char → List Char → Prop
  | word {word : List Char} (h : word.all fun c => !isBlank c) : Parts word word []
  | rest {word after rest : List Char} {b : Char} (h : word.all fun c => !isBlank c)
      (hb : isBlank b) (hrest : TrimsTo after rest) : Parts (word ++ b :: after) word rest

theorem trimsTo_iff {cs core : List Char} : TrimsTo cs core ↔ trim cs = core := by
  constructor
  · rintro ⟨lead, tail, rfl, hlead, htail, hcore⟩
    exact trim_append hlead hcore htail
  · rintro rfl
    obtain ⟨lead, tail, hcs, hlead, htail⟩ := exists_eq_append_trim cs
    exact ⟨lead, tail, hcs, hlead, htail, trimmed_trim cs⟩

/-- A word goes on up to the first blank character. -/
theorem takeWhile_append_blank {word : List Char} (h : word.all fun c => !isBlank c) {b : Char}
    (hb : isBlank b) (after : List Char) :
    (word ++ b :: after).takeWhile (fun c => !isBlank c) = word ∧
      (word ++ b :: after).dropWhile (fun c => !isBlank c) = b :: after := by
  have hword := List.all_eq_true.1 h
  rw [List.takeWhile_append_of_pos hword, List.dropWhile_append_of_pos hword]
  simp [hb]

theorem parts_iff {cs word rest : List Char} :
    Parts cs word rest ↔ word = firstWord cs ∧ rest = afterFirstWord cs := by
  constructor
  · intro h
    cases h with
    | word hword =>
      have htake : cs.takeWhile (fun c => !isBlank c) = cs :=
        List.takeWhile_eq_self_iff.2 (List.all_eq_true.1 hword)
      have hdrop : cs.dropWhile (fun c => !isBlank c) = [] :=
        List.dropWhile_eq_nil_iff.2 (List.all_eq_true.1 hword)
      rw [firstWord, afterFirstWord, htake, hdrop]
      exact ⟨rfl, rfl⟩
    | rest hword hb hrest =>
      obtain ⟨htake, hdrop⟩ := takeWhile_append_blank hword hb _
      rw [firstWord, afterFirstWord, htake, hdrop, trim_cons_of_isBlank hb]
      exact ⟨rfl, (trimsTo_iff.1 hrest).symm⟩
  · rintro ⟨rfl, rfl⟩
    have hword : (firstWord cs).all fun c => !isBlank c := List.all_takeWhile
    have hsplit := List.takeWhile_append_dropWhile (p := fun c => !isBlank c) (l := cs)
    have hhead := List.head?_dropWhile_not (fun c => !isBlank c) cs
    rw [afterFirstWord]
    cases hdrop : cs.dropWhile fun c => !isBlank c with
    | nil =>
      rw [hdrop, List.append_nil, ← firstWord] at hsplit
      rw [hsplit] at hword ⊢
      exact .word hword
    | cons b after =>
      rw [hdrop] at hhead hsplit
      have hb : isBlank b := by simpa using hhead
      rw [← firstWord] at hsplit
      rw [trim_cons_of_isBlank hb]
      have hparts : Parts (firstWord cs ++ b :: after) (firstWord cs) (trim after) :=
        .rest hword hb (trimsTo_iff.2 rfl)
      rwa [hsplit] at hparts

/-- The first word starts like its line, as far as there are no blank characters. -/
theorem isPrefix_firstWord_iff {key cs : List Char} (hkey : key.all fun c => !isBlank c) :
    key <+: firstWord cs ↔ key <+: cs := by
  constructor
  · exact fun h => h.trans (List.takeWhile_prefix _)
  · rintro ⟨tail, rfl⟩
    rw [firstWord, List.takeWhile_append_of_pos (List.all_eq_true.1 hkey)]
    exact List.prefix_append _ _

end PackedStack.Text
