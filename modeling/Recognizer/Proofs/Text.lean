import Mathlib.Data.List.DropRight
import Mathlib.Data.List.Induction
import Recognizer.Text

/-!
What texts are read as and written as. Trimming leaves one core. What is encoded in bytes is decoded
again. A text is nothing, or a last line without a line feed, or a line with its line feed and the
text behind it, so a reader of lines is determined by these three cases, and it gives back the words
that were written one to a line. A text of decimal digits without a needless zero is the one way to
write its number. A quoted text has no line feed, so it keeps to the line it stands on.
-/

namespace Recognizer.Text

section Trimming

/-- The core stands in the text with nothing but white space before and behind it, and has none at
its own ends. -/
structure IsCore (text core : List Char) : Prop where
  inside : ∃ front back, text = front ++ core ++ back ∧
    (∀ character ∈ front, isBlank character = true) ∧ ∀ character ∈ back, isBlank character = true
  starts : ∀ first ∈ core.head?, isBlank first = false
  ends : ∀ last ∈ core.getLast?, isBlank last = false

variable {text core : List Char}

theorem isCore_trim (text : List Char) : IsCore text (trim text) where
  inside := by
    refine ⟨text.takeWhile isBlank, (text.dropWhile isBlank).rtakeWhile isBlank, ?_,
      fun _ => List.mem_takeWhile_imp, fun _ => List.mem_rtakeWhile_imp⟩
    change text = _ ++ (text.dropWhile isBlank).rdropWhile isBlank ++ _
    rw [List.append_assoc, List.rdropWhile_append_rtakeWhile, List.takeWhile_append_dropWhile]
  starts := by
    intro first head
    -- what is left begins where the text begins without its leading white space
    obtain ⟨cut, same⟩ : trim text <+: text.dropWhile isBlank := List.rdropWhile_prefix isBlank _
    have bare := List.head?_dropWhile_not isBlank text
    rw [← same, List.head?_append, Option.mem_def.mp head] at bare
    simpa using bare
  ends := by
    intro last final
    have filled : trim text ≠ [] := by
      intro empty
      rw [empty] at final
      cases final
    have bare := List.rdropWhile_last_not isBlank (text.dropWhile isBlank) filled
    rw [Option.mem_def, List.getLast?_eq_some_getLast filled] at final
    cases final
    exact Bool.eq_false_iff.mpr bare

theorem dropEndWhile_append {drops : Char → Bool} {back : List Char}
    (dropped : ∀ character ∈ back, drops character = true) (front : List Char) :
    dropEndWhile drops (front ++ back) = dropEndWhile drops front := by
  have behind : ∀ character ∈ back.reverse, drops character = true := by
    intro character member
    exact dropped character (List.mem_reverse.mp member)
  rw [dropEndWhile, List.reverse_append, List.dropWhile_append_of_pos behind]
  rfl

theorem trim_of_isCore (found : IsCore text core) : trim text = core := by
  obtain ⟨front, back, split, before, behind⟩ := found.inside
  rw [trim, split, List.append_assoc, List.dropWhile_append_of_pos before]
  cases core with
  | nil =>
    rw [List.nil_append, List.dropWhile_eq_nil_iff.mpr behind]
    rfl
  | cons first rest =>
    have bare : isBlank first = false := found.starts first rfl
    rw [List.cons_append, List.dropWhile_cons_of_neg (by simp [bare]), ← List.cons_append,
      dropEndWhile_append behind]
    exact dropEndWhile_eq_self found.ends

end Trimming

section Bytes

theorem fromUTF8?_toUTF8 (text : String) : String.fromUTF8? text.toUTF8 = some text :=
  dif_pos text.isValidUTF8

theorem fromUTF8?_eq_none {bytes : ByteArray} (invalid : ¬bytes.IsValidUTF8) :
    String.fromUTF8? bytes = none :=
  dif_neg invalid

def encoded (text : List Char) : List UInt8 := text.flatMap String.utf8EncodeChar

theorem toByteArray_encoded (text : List Char) :
    (encoded text).toByteArray = (String.ofList text).toUTF8 := by
  rw [String.toUTF8_eq_toByteArray, String.toByteArray_ofList]
  rfl

theorem exists_text_of_valid {bytes : ByteArray} (valid : bytes.IsValidUTF8) :
    ∃ text, bytes = (String.ofList text).toUTF8 := by
  obtain ⟨text, same⟩ := valid
  exact ⟨text, same.trans (toByteArray_encoded text)⟩

theorem encoded_append (front back : List Char) :
    encoded (front ++ back) = encoded front ++ encoded back :=
  List.flatMap_append

theorem encoded_ne_nil {text : List Char} (filled : text ≠ []) : encoded text ≠ [] := by
  obtain ⟨character, rest, rfl⟩ := List.exists_cons_of_ne_nil filled
  exact List.append_ne_nil_of_left_ne_nil String.utf8EncodeChar_ne_nil _

/-- The first of several bytes is at least 192, and those behind it are at least 128. -/
theorem high_of_several {character : Char} (several : 127 < character.val.toNat) :
    ∀ byte ∈ String.utf8EncodeChar character, 128 ≤ byte.toNat := by
  fun_cases String.utf8EncodeChar character with
  | case1 code low => exact absurd low (Nat.not_le.mpr several)
  | case2 | case3 | case4 =>
    simp only [List.forall_mem_cons, UInt8.toNat_ofNat', List.not_mem_nil, false_implies,
      implies_true, and_true]
    omega

theorem eq_newline_of_byte {character : Char} (inside : 10 ∈ String.utf8EncodeChar character) :
    character = '\n' := by
  by_cases several : 127 < character.val.toNat
  · exact absurd (high_of_several several 10 inside) (by decide)
  · rw [String.utf8EncodeChar, if_pos (Nat.not_lt.mp several), List.mem_singleton] at inside
    have value := congrArg UInt8.toNat inside
    rw [UInt8.toNat_ofNat', Nat.mod_eq_of_lt (by omega)] at value
    exact Char.toNat_inj.mp value.symm

theorem newline_not_mem_encoded {text : List Char} (whole : '\n' ∉ text) : 10 ∉ encoded text := by
  rw [encoded, List.mem_flatMap]
  rintro ⟨character, member, inside⟩
  exact whole (eq_newline_of_byte inside ▸ member)

end Bytes

section Reading

variable {line rest : List Char}

theorem line_induction {motive : List Char → Prop} (nothing : motive [])
    (last : ∀ line, '\n' ∉ line → line ≠ [] → motive line)
    (ended : ∀ line rest, '\n' ∉ line → motive rest → motive (line ++ '\n' :: rest))
    (text : List Char) : motive text := by
  -- the text behind the first line feed is shorter
  induction measured : text.length using Nat.strongRecOn generalizing text with
  | ind size ih =>
    by_cases broken : '\n' ∈ text
    · obtain ⟨line, rest, rfl, whole⟩ := List.eq_append_cons_of_mem broken
      have shorter : rest.length < size := by
        rw [← measured, List.length_append, List.length_cons]
        omega
      exact ended line rest whole (ih rest.length shorter rest rfl)
    · by_cases filled : text = []
      · exact filled ▸ nothing
      · exact last text broken filled

theorem wordLines_line (whole : '\n' ∉ line) :
    wordLines (line ++ '\n' :: rest) = withoutReturns line :: wordLines rest := by
  rw [wordLines, lines_line line rest whole]
  rfl

theorem wordLines_last (whole : '\n' ∉ line) (filled : line ≠ []) :
    wordLines line = [withoutReturns line] := by
  rw [wordLines, lines_last line whole filled]
  rfl

theorem withoutReturns_return (line : List Char) :
    withoutReturns (line ++ ['\r']) = withoutReturns line := by
  simp [withoutReturns, dropEndWhile]

end Reading

section Writing

/-- A word that is the whole of a line and ends where the line does. -/
structure FitsLine (word : List Char) : Prop where
  whole : '\n' ∉ word
  finished : word.getLast? ≠ some '\r'

instance (word : List Char) : Decidable (FitsLine word) :=
  decidable_of_iff ('\n' ∉ word ∧ word.getLast? ≠ some '\r')
    ⟨fun fits => ⟨fits.1, fits.2⟩, fun fits => ⟨fits.whole, fits.finished⟩⟩

def endings : List (List Char) := [['\n'], ['\r', '\n']]

/-- The text has the words one to a line, whichever ending each of them has. The last line may do
without one if its word is not empty. -/
inductive Written : List (List Char) → List Char → Prop where
  | nothing : Written [] []
  | last {word : List Char} (filled : word ≠ []) : Written [word] word
  | line {word ending text : List Char} {words : List (List Char)} (ends : ending ∈ endings)
      (written : Written words text) : Written (word :: words) (word ++ ending ++ text)

variable {word text : List Char} {words : List (List Char)}

theorem FitsLine.withoutReturns_eq (fits : FitsLine word) : withoutReturns word = word := by
  apply dropEndWhile_eq_self
  intro last ends
  have other : last ≠ '\r' := by
    rintro rfl
    exact fits.finished ends
  simpa using other

/-- Whatever stands behind the word, the line is read as the word. -/
theorem FitsLine.wordLines_ending (fits : FitsLine word) {ending : List Char}
    (ends : ending ∈ endings) (text : List Char) :
    wordLines (word ++ ending ++ text) = word :: wordLines text := by
  rcases List.mem_cons.mp ends with rfl | other
  · rw [List.append_assoc, List.singleton_append, wordLines_line fits.whole,
      fits.withoutReturns_eq]
  · obtain rfl := List.mem_singleton.mp other
    have split : word ++ ['\r', '\n'] ++ text = (word ++ ['\r']) ++ '\n' :: text := by simp
    have whole : '\n' ∉ word ++ ['\r'] := by simp [fits.whole]
    rw [split, wordLines_line whole, withoutReturns_return, fits.withoutReturns_eq]

theorem Written.wordLines_eq (written : Written words text) (fits : ∀ word ∈ words, FitsLine word) :
    wordLines text = words := by
  induction written with
  | nothing => rfl
  | last filled =>
    have here := fits _ List.mem_cons_self
    rw [wordLines_last here.whole filled, here.withoutReturns_eq]
  | line ends _ ih =>
    have here := fits _ List.mem_cons_self
    rw [here.wordLines_ending ends, ih fun word member => fits word (List.mem_cons_of_mem _ member)]

end Writing

section Numerals

structure IsNumeral (text : List Char) : Prop where
  filled : text ≠ []
  digits : ∀ character ∈ text, character.isDigit = true
  led : text.head? = some '0' → text.length = 1

theorem toDigits_inj {number other : Nat}
    (same : Nat.toDigits 10 number = Nat.toDigits 10 other) : number = other := by
  have read := congrArg (Nat.ofDigitChars 10 · 0) same
  simpa only [Nat.ofDigitChars_ten_toDigits] using read

theorem head?_toDigits {number : Nat} (zero : (Nat.toDigits 10 number).head? = some '0') :
    number = 0 := by
  induction number using Nat.strongRecOn with
  | ind number ih =>
    rw [Nat.toDigits_eq_if (by decide)] at zero
    split at zero
    · exact Nat.digitChar_eq_zero.mp (Option.some.inj zero)
    · next large =>
      rw [List.head?_append_of_ne_nil _ Nat.toDigits_ne_nil] at zero
      have nothing := ih (number / 10) (by omega) zero
      omega

theorem exists_digit_of_isDigit {character : Char} (digit : character.isDigit = true) :
    ∃ value < 10, Nat.digitChar value = character ∧ character.toNat - '0'.toNat = value := by
  have bounds : 48 ≤ character.toNat ∧ character.toNat ≤ 57 := by
    simpa [Char.isDigit, UInt32.le_iff_toNat_le] using digit
  have small : character.toNat - '0'.toNat < 10 := by
    change character.toNat - 48 < 10
    omega
  refine ⟨_, small, Char.toNat_inj.mp ?_, rfl⟩
  rw [Nat.toNat_digitChar_of_lt_ten small]
  change 48 + (character.toNat - 48) = character.toNat
  omega

theorem IsNumeral.toDigits_eq {text : List Char} (numeral : IsNumeral text) :
    Nat.toDigits 10 (Nat.ofDigitChars 10 text 0) = text := by
  induction text using List.reverseRecOn with
  | nil => exact absurd rfl numeral.filled
  | append_singleton front last ih =>
    obtain ⟨digit, small, shown, read⟩ := exists_digit_of_isDigit (numeral.digits last (by simp))
    rw [Nat.ofDigitChars_append, Nat.ofDigitChars_cons, Nat.ofDigitChars_nil, read]
    by_cases alone : front = []
    · subst alone
      rw [Nat.ofDigitChars_nil, Nat.mul_zero, Nat.zero_add, Nat.toDigits_of_lt_base small, shown]
      rfl
    · have short : front.head? ≠ some '0' := by
        intro zero
        have size := numeral.led (by rw [List.head?_append, zero]; rfl)
        have some := List.length_pos_iff.mpr alone
        rw [List.length_append, List.length_singleton] at size
        omega
      have written := ih ⟨alone, fun character member =>
        numeral.digits character (List.mem_append_left _ member), fun zero => absurd zero short⟩
      have positive : 0 < Nat.ofDigitChars 10 front 0 := by
        apply Nat.pos_of_ne_zero
        intro zero
        rw [zero] at written
        exact short (written ▸ rfl)
      rw [← Nat.toDigits_append_toDigits (by decide) positive small, written,
        Nat.toDigits_of_lt_base small, shown]

theorem isNumeral_iff {text : List Char} :
    IsNumeral text ↔ ∃ value, text = Nat.toDigits 10 value := by
  constructor
  · intro numeral
    exact ⟨_, numeral.toDigits_eq.symm⟩
  · rintro ⟨value, rfl⟩
    refine ⟨Nat.toDigits_ne_nil, fun character member =>
      Nat.isDigit_of_mem_toDigits (by decide) (by decide) member, fun zero => ?_⟩
    rw [head?_toDigits zero]
    rfl

end Numerals

section Quoting

def Unbroken (text : String) : Prop := '\n' ∉ text.toList

instance (text : String) : Decidable (Unbroken text) :=
  inferInstanceAs (Decidable ('\n' ∉ text.toList))

@[simp] theorem unbroken_append {front back : String} :
    Unbroken (front ++ back) ↔ Unbroken front ∧ Unbroken back := by
  simp [Unbroken]

theorem unbroken_join {texts : List String} (unbroken : ∀ text ∈ texts, Unbroken text) :
    Unbroken (String.join texts) := by
  rw [Unbroken, String.toList_join, List.mem_flatMap]
  rintro ⟨text, member, inside⟩
  exact unbroken text member inside

theorem unbroken_singleton {character : Char} (other : character ≠ '\n') :
    Unbroken (String.singleton character) := by
  simpa [Unbroken] using other.symm

theorem newline_not_mem_toDigits {base : Nat} (several : 1 < base) (number : Nat) :
    '\n' ∉ Nat.toDigits base number := by
  -- the last digit is cut off as long as there is one before it
  induction number using Nat.strongRecOn with
  | ind number ih =>
    rw [Nat.toDigits_eq_if several]
    split
    · simp
    · next large =>
      have smaller : number / base < number := Nat.div_lt_self (by omega) several
      simp [ih _ smaller]

theorem unbroken_toString (number : Nat) : Unbroken (toString number) := by
  rw [Unbroken, Nat.toString_eq_repr, Nat.toList_repr]
  exact newline_not_mem_toDigits (by decide) number

theorem unbroken_codePoint (character : Char) : Unbroken (codePoint character) := by
  rw [codePoint, unbroken_append, unbroken_append]
  refine ⟨⟨by decide, ?_⟩, by decide⟩
  rw [Unbroken, String.toList_ofList]
  exact newline_not_mem_toDigits (by decide) character.toNat

/-- The line feed has an escape of its own, so what is not escaped is another character. -/
theorem unbroken_escape (delimiter character : Char) : Unbroken (escape delimiter character) := by
  unfold escape
  split
  · decide
  split
  · decide
  split
  · decide
  split
  · decide
  next other =>
    split
    · simpa [Unbroken, eq_comm] using other
    split
    · exact unbroken_codePoint character
    · exact unbroken_singleton other

theorem unbroken_enclose {delimiter : Char} (other : delimiter ≠ '\n') (text : List Char) :
    Unbroken (enclose delimiter text) := by
  rw [enclose, unbroken_append, unbroken_append]
  refine ⟨⟨unbroken_singleton other, unbroken_join ?_⟩, unbroken_singleton other⟩
  exact List.forall_mem_map.mpr fun character _ => unbroken_escape delimiter character

theorem unbroken_quotedSymbol (symbol : Char) : Unbroken (quotedSymbol symbol) :=
  unbroken_enclose (by decide) [symbol]

theorem unbroken_quotedWord (word : List Char) : Unbroken (quotedWord word) :=
  unbroken_enclose (by decide) word

end Quoting

end Recognizer.Text
