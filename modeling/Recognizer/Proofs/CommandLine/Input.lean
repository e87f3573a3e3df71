import Recognizer.Proofs.CommandLine.Verdicts

/-!
Words from the input, line by line. The bytes are cut behind every line feed before any of them is
decoded, and each line is decoded on its own; the first one that is no text ends the reading. No
byte of another character is a line feed, so the lines of the bytes are the lines of the text, and
the input is read as if it were decoded as a whole. A check looks at no word before all of them are
read: it gives the verdicts of the words that were written, or none at all.
-/

namespace Recognizer.CommandLine

open Text

section Bytes

def byteLines : List UInt8 → List (List UInt8)
  | [] => []
  | byte :: rest =>
    if byte = 10 then [byte] :: byteLines rest
    else
      match byteLines rest with
      | [] => [[byte]]
      | line :: later => (byte :: line) :: later

variable {line rest : List UInt8}

theorem flatten_byteLines (bytes : List UInt8) : (byteLines bytes).flatten = bytes := by
  induction bytes with
  | nil => rfl
  | cons byte rest ih =>
    rw [byteLines]
    split
    · rw [List.flatten_cons, ih, List.singleton_append]
    · cases later : byteLines rest <;> rw [later] at ih <;> simp [← ih]

theorem byteLines_line (whole : 10 ∉ line) :
    byteLines (line ++ 10 :: rest) = (line ++ [10]) :: byteLines rest := by
  induction line with
  | nil => simp [byteLines]
  | cons byte others ih =>
    rw [List.mem_cons, not_or] at whole
    rw [List.cons_append, byteLines, if_neg (Ne.symm whole.1), ih whole.2]
    rfl

theorem byteLines_last (whole : 10 ∉ line) (filled : line ≠ []) : byteLines line = [line] := by
  induction line with
  | nil => exact absurd rfl filled
  | cons byte others ih =>
    rw [List.mem_cons, not_or] at whole
    rw [byteLines, if_neg (Ne.symm whole.1)]
    cases others with
    | nil => rfl
    | cons next later => rw [ih whole.2 (List.cons_ne_nil next later)]

end Bytes

section Reader

/-- A line without its line feed, and without one carriage return before that. -/
def withoutEnding (line : List Char) : List Char :=
  if line.getLast? = some '\n' then
    if line.dropLast.getLast? = some '\r' then line.dropLast.dropLast else line.dropLast
  else line

def readLine (bytes : List UInt8) : Except Fault (List Char) :=
  match String.fromUTF8? bytes.toByteArray with
  | some text => .ok (withoutReturns (withoutEnding text.toList))
  | none => .error (.unreadable .invalidText)

def readWords (input : ByteArray) : Except Fault (List (List Char)) :=
  (byteLines input.data.toList).mapM readLine

variable {line : List Char}

theorem withoutEnding_last (whole : '\n' ∉ line) : withoutEnding line = line :=
  if_neg fun ends => whole (List.mem_of_getLast? ends)

/-- It does not matter that a carriage return may be gone before the others are dropped. -/
theorem withoutReturns_withoutEnding (line : List Char) :
    withoutReturns (withoutEnding (line ++ ['\n'])) = withoutReturns line := by
  rw [withoutEnding, if_pos List.getLast?_concat, List.dropLast_concat]
  split
  next returns =>
    obtain ⟨front, rfl⟩ := List.getLast?_eq_some_iff.mp returns
    rw [List.dropLast_concat, withoutReturns_return]
  next => rfl

theorem readLine_encoded (line : List Char) :
    readLine (encoded line) = .ok (withoutReturns (withoutEnding line)) := by
  rw [readLine, toByteArray_encoded, fromUTF8?_toUTF8]
  simp only [String.toList_ofList]

/-- The bytes of a text have the lines of the text. -/
theorem mapM_readLine_encoded (text : List Char) :
    (byteLines (encoded text)).mapM readLine = .ok (wordLines text) := by
  induction text using line_induction with
  | nothing => rfl
  | last line whole filled =>
    rw [byteLines_last (newline_not_mem_encoded whole) (encoded_ne_nil filled),
      wordLines_last whole filled, List.mapM_cons, readLine_encoded, withoutEnding_last whole]
    rfl
  | ended line rest whole ih =>
    have cut : encoded (line ++ '\n' :: rest) = encoded line ++ 10 :: encoded rest :=
      encoded_append line ('\n' :: rest)
    have first : encoded line ++ [10] = encoded (line ++ ['\n']) :=
      (encoded_append line ['\n']).symm
    rw [cut, byteLines_line (newline_not_mem_encoded whole), wordLines_line whole, List.mapM_cons,
      ih, first, readLine_encoded, withoutReturns_withoutEnding]
    rfl

/-- Lines that are all text are a text together. -/
theorem mapM_readLine_invalid (lines : List (List UInt8))
    (invalid : ¬lines.flatten.toByteArray.IsValidUTF8) :
    lines.mapM readLine = .error (.unreadable .invalidText) := by
  induction lines with
  | nil => exact absurd ByteArray.isValidUTF8_empty invalid
  | cons line rest ih =>
    rw [List.mapM_cons]
    by_cases valid : line.toByteArray.IsValidUTF8
    · have later : ¬rest.flatten.toByteArray.IsValidUTF8 := by
        intro validRest
        rw [List.flatten_cons, List.toByteArray_append] at invalid
        exact invalid (valid.append validRest)
      obtain ⟨word, read⟩ : ∃ word, readLine line = .ok word := by
        rw [readLine, String.fromUTF8?, dif_pos valid]
        exact ⟨_, rfl⟩
      rw [read, ih later]
      rfl
    · have failed : readLine line = .error (.unreadable .invalidText) := by
        rw [readLine, fromUTF8?_eq_none valid]
      rw [failed]
      rfl

theorem readWords_toUTF8 (text : List Char) :
    readWords (String.ofList text).toUTF8 = .ok (wordLines text) := by
  rw [readWords, ← toByteArray_encoded, List.toList_data_toByteArray]
  exact mapM_readLine_encoded text

theorem readWords_invalid {input : ByteArray} (invalid : ¬input.IsValidUTF8) :
    readWords input = .error (.unreadable .invalidText) := by
  have whole : (byteLines input.data.toList).flatten.toByteArray = input := by
    apply ByteArray.ext
    rw [flatten_byteLines, List.data_toByteArray, Array.toArray_toList]
  apply mapM_readLine_invalid
  rwa [whole]

/-- The input is read as if it were decoded as a whole. -/
theorem readWords_eq (input : ByteArray) : readWords input = inputWords input := by
  by_cases valid : input.IsValidUTF8
  · obtain ⟨text, rfl⟩ := exists_text_of_valid valid
    rw [readWords_toUTF8, inputWords, fromUTF8?_toUTF8]
    simp only [String.toList_ofList]
  · rw [readWords_invalid valid, inputWords, fromUTF8?_eq_none valid]

end Reader

section Session

variable {config : Config} {sandbox : Sandbox} {words : List (List Char)}

theorem map_ofList (words : List (List Char)) :
    (words.map String.ofList).map String.toList = words := by
  simp [Function.comp_def]

theorem supplies_arguments (filled : words ≠ []) :
    Supplies config sandbox (words.map String.ofList) words sandbox := by
  have supplies : Supplies config sandbox (words.map String.ofList)
      ((words.map String.ofList).map String.toList) sandbox := .arguments (by simp [filled])
  rwa [map_ofList] at supplies

theorem supplies_config (filled : words ≠ []) :
    Supplies { config with words := words.map String.ofList } sandbox [] words sandbox := by
  have supplies : Supplies { config with words := words.map String.ofList } sandbox []
      ((words.map String.ofList).map String.toList) sandbox := .config (by simp [filled])
  rwa [map_ofList] at supplies

/-- A check whose input cannot be read has done nothing else than to read it. -/
theorem runCheck_unread (wordless : config.words = []) {fault : Fault}
    (unread : readWords sandbox.input = .error fault) (dfa : Dfa) (strict : Bool) :
    (runCheck Sandbox.host dfa config [] strict).run.run sandbox =
      (.error fault, sandbox.drained) := by
  rw [runCheck, ExceptT.run_bind, StateT.run_bind, wordsToCheck_input wordless, ← readWords_eq,
    unread]
  rfl

end Session

/-- Reading gives back the words that were written, whatever stands behind each of them. A check of
what was read prints the lines of these words and ends as they decide, as if they had come from the
arguments or the configuration. An input that is no text gives no word, even if its first lines are
words, and no verdict. -/
theorem readWords_exact :
    (∀ input, readWords input = inputWords input) ∧
    (∀ words text, Written words text → (∀ word ∈ words, FitsLine word) →
      readWords (String.ofList text).toUTF8 = .ok words ∧
      ∀ dfa config strict (sandbox : Sandbox), config.words = [] →
        sandbox.input = (String.ofList text).toUTF8 →
        (runCheck Sandbox.host dfa config [] strict).run.run sandbox =
          (.ok (verdictExit dfa strict words),
            sandbox.drained.printing (words.map (verdictLine dfa strict))) ∧
        (words ≠ [] →
          (runCheck Sandbox.host dfa config [] strict).run.run sandbox =
            (runCheck Sandbox.host dfa config (words.map String.ofList) strict).run.run
              sandbox.drained ∧
          (runCheck Sandbox.host dfa config [] strict).run.run sandbox =
            (runCheck Sandbox.host dfa { config with words := words.map String.ofList } []
              strict).run.run sandbox.drained)) ∧
    ∀ input : ByteArray, ¬input.IsValidUTF8 →
      readWords input = .error (.unreadable .invalidText) ∧
      ∀ dfa config strict (sandbox : Sandbox), config.words = [] → sandbox.input = input →
        (runCheck Sandbox.host dfa config [] strict).run.run sandbox =
          (.error (.unreadable .invalidText), sandbox.drained) := by
  refine ⟨readWords_eq, ?_, ?_⟩
  · intro words text written fits
    have read : readWords (String.ofList text).toUTF8 = .ok words := by
      rw [readWords_toUTF8, written.wordLines_eq fits]
    refine ⟨read, fun dfa config strict sandbox wordless holds => ?_⟩
    have found : inputWords sandbox.input = .ok words := by rw [holds, ← readWords_eq, read]
    have run := runCheck_of_supplies (.input wordless found) dfa strict
    refine ⟨run, fun filled => ⟨?_, ?_⟩⟩
    · rw [run, runCheck_of_supplies (supplies_arguments filled) dfa strict]
    · rw [run, runCheck_of_supplies (supplies_config filled) dfa strict]
  · intro input invalid
    have unread := readWords_invalid invalid
    refine ⟨unread, fun dfa config strict sandbox wordless holds => ?_⟩
    exact runCheck_unread wordless (holds ▸ unread) dfa strict

/-- Both endings, an empty word, a carriage return inside a word and a last line without an ending;
and a line behind which a byte stands that is in no text. -/
theorem readWords_exact_mixed :
    ∃ dfa, compile ['a', '*'] = .ok dfa ∧
      Written [['a', 'a'], [], ['a', '\r', 'é']] "aa\r\n\na\ré".toList ∧
      readWords (String.ofList "aa\r\n\na\ré".toList).toUTF8 =
        .ok [['a', 'a'], [], ['a', '\r', 'é']] ∧
      (runCheck Sandbox.host dfa (Config.ofRegex "a*") [] true).run.run
          ⟨[], (String.ofList "aa\r\n\na\ré".toList).toUTF8, "", ""⟩ =
        (.ok .failure, Sandbox.printing ⟨[], ByteArray.empty, "", ""⟩ ["\"aa\": accepted",
          "\"\": accepted", "\"a\\ré\": symbol '\\r' at position 1 is not in the alphabet"]) ∧
      (runCheck Sandbox.host dfa (Config.ofRegex "a*") [] true).run.run
          ⟨[], (String.ofList "aa\r\n\na\ré".toList).toUTF8, "", ""⟩ =
        (runCheck Sandbox.host dfa (Config.ofRegex "a*") ["aa", "", "a\ré"] true).run.run
          ⟨[], ByteArray.empty, "", ""⟩ ∧
      ¬(ByteArray.mk #[97, 10, 255]).IsValidUTF8 ∧
      (runCheck Sandbox.host dfa (Config.ofRegex "a*") [] true).run.run
          ⟨[], ByteArray.mk #[97, 10, 255], "", ""⟩ =
        (.error (.unreadable .invalidText), ⟨[], ByteArray.empty, "", ""⟩) := by
  obtain ⟨nfa, made, lines, exit⟩ : ∃ nfa, Nfa.ofPattern ['a', '*'] = .ok nfa ∧
      [['a', 'a'], [], ['a', '\r', 'é']].map (verdictLine (Dfa.determinize nfa) true) =
        ["\"aa\": accepted", "\"\": accepted",
          "\"a\\ré\": symbol '\\r' at position 1 is not in the alphabet"] ∧
      verdictExit (Dfa.determinize nfa) true [['a', 'a'], [], ['a', '\r', 'é']] = .failure :=
    ⟨_, rfl, by decide +kernel, by decide +kernel⟩
  have compiled : compile ['a', '*'] = .ok (Dfa.determinize nfa) := by
    rw [compile_eq, made]
    rfl
  have written : Written [['a', 'a'], [], ['a', '\r', 'é']] "aa\r\n\na\ré".toList :=
    .line (.tail _ (.head _)) (.line (.head _) (.last (List.cons_ne_nil _ _)))
  have fits : ∀ word ∈ [['a', 'a'], [], ['a', '\r', 'é']], FitsLine word := by decide
  have invalid : ¬(ByteArray.mk #[97, 10, 255]).IsValidUTF8 := by decide +kernel
  obtain ⟨_, inverse, atomic⟩ := readWords_exact
  obtain ⟨read, checked⟩ := inverse _ _ written fits
  refine ⟨Dfa.determinize nfa, compiled, written, read, ?_, ?_, invalid, ?_⟩
  · rw [(checked _ _ true _ rfl rfl).1, exit, lines]
    rfl
  · exact ((checked _ _ true _ rfl rfl).2 (List.cons_ne_nil _ _)).1
  · exact (atomic _ invalid).2 _ _ true _ rfl rfl

end Recognizer.CommandLine
