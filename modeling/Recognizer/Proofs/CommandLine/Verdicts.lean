import Recognizer.CommandLine.Sandbox
import Recognizer.Proofs.Compile
import Recognizer.Proofs.Dfa.Strictness
import Recognizer.Proofs.Text

/-!
Checks of words as they go. Each word is judged on its own, its line is printed before the next word
is looked at, and a fault decides the exit from then on without ending the check. So there is one
line for every word, in their order. Both checks print the same line unless the word has a symbol
outside the alphabet, where the strict one names that symbol and the plain one rejects.
-/

namespace Recognizer

namespace CommandLine

section Lines

variable {dfa : Dfa} {word : List Char}

def verdictOf (word : List Char) (accepted : Bool) : String :=
  s!"{Text.quotedWord word}: " ++ if accepted then "accepted" else "rejected"

def complaintOf (word : List Char) (symbol : Char) (position : Nat) : String :=
  s!"{Text.quotedWord word}: " ++
    s!"symbol {Text.quotedSymbol symbol} at position {position} is not in the alphabet"

theorem verdictLine_of_ok {strict accepted : Bool}
    (judged : verdict dfa strict word = .ok accepted) :
    verdictLine dfa strict word = verdictOf word accepted := by
  unfold verdictLine verdictOf
  rw [judged]
  cases accepted <;> rfl

theorem verdictLine_of_error {strict : Bool} {fault : Fault}
    (judged : verdict dfa strict word = .error fault) :
    verdictLine dfa strict word = s!"{Text.quotedWord word}: {fault.message}" := by
  unfold verdictLine
  rw [judged]
  rfl

theorem verdictLine_plain (dfa : Dfa) (word : List Char) :
    verdictLine dfa false word = verdictOf word (dfa.check word) :=
  verdictLine_of_ok rfl

theorem verdictLine_of_familiar (known : ∀ symbol ∈ word, symbol ∈ dfa.automaton.alphabet) :
    verdictLine dfa true word = verdictLine dfa false word := by
  rw [verdictLine_plain]
  exact verdictLine_of_ok (Dfa.checkStrictly_of_familiar known)

theorem isFault_verdict_iff {strict : Bool} :
    isFault (verdict dfa strict word) = true ↔
      strict = true ∧ ∃ symbol ∈ word, symbol ∉ dfa.automaton.alphabet := by
  cases strict with
  | false => simp [verdict, isFault]
  | true =>
    rw [verdict, if_pos rfl]
    by_cases foreign : ∃ symbol ∈ word, symbol ∉ dfa.automaton.alphabet
    · obtain ⟨symbol, position, _, _, reported⟩ := Dfa.checkStrictly_of_foreign foreign
      simp [reported, isFault, foreign]
    · have known : ∀ symbol ∈ word, symbol ∈ dfa.automaton.alphabet := by
        intro symbol member
        by_contra unknown
        exact foreign ⟨symbol, member, unknown⟩
      simp [Dfa.checkStrictly_of_familiar known, isFault, foreign]

theorem verdictExit_eq_failure_iff {strict : Bool} {words : List (List Char)} :
    verdictExit dfa strict words = .failure ↔
      strict = true ∧ ∃ word ∈ words, ∃ symbol ∈ word, symbol ∉ dfa.automaton.alphabet := by
  have found : (words.any fun word => isFault (verdict dfa strict word)) = true ↔
      strict = true ∧ ∃ word ∈ words, ∃ symbol ∈ word, symbol ∉ dfa.automaton.alphabet := by
    simp only [List.any_eq_true, isFault_verdict_iff]
    cases strict <;> simp
  rw [verdictExit, ← found]
  split <;> simp [*]

theorem verdictExit_eq_success_iff {strict : Bool} {words : List (List Char)} :
    verdictExit dfa strict words = .success ↔
      (strict = true → ∀ word ∈ words, ∀ symbol ∈ word, symbol ∈ dfa.automaton.alphabet) := by
  have other : verdictExit dfa strict words = .success ↔
      ¬verdictExit dfa strict words = .failure := by
    unfold verdictExit
    split <;> decide
  rw [other, verdictExit_eq_failure_iff]
  simp

theorem complaint_of_error {strict : Bool} {fault : Fault}
    (judged : verdict dfa strict word = .error fault) :
    ∃ symbol position, verdictLine dfa strict word = complaintOf word symbol position := by
  have faulty : isFault (verdict dfa strict word) = true := by rw [judged]; rfl
  obtain ⟨rfl, foreign⟩ := isFault_verdict_iff.mp faulty
  obtain ⟨symbol, position, _, _, reported⟩ := Dfa.checkStrictly_of_foreign foreign
  have judgedToo : verdict dfa true word = .error (.unrecognizedSymbol symbol position) := reported
  exact ⟨symbol, position, verdictLine_of_error judgedToo⟩

theorem unbroken_verdictLine (dfa : Dfa) (strict : Bool) (word : List Char) :
    Text.Unbroken (verdictLine dfa strict word) := by
  have quoted := Text.unbroken_quotedWord word
  cases judged : verdict dfa strict word with
  | ok accepted =>
    rw [verdictLine_of_ok judged, verdictOf, Text.unbroken_append, Text.unbroken_append]
    exact ⟨⟨quoted, by decide⟩, by cases accepted <;> decide⟩
  | error fault =>
    obtain ⟨symbol, position, same⟩ := complaint_of_error judged
    rw [same, complaintOf]
    simp only [Text.unbroken_append]
    exact ⟨⟨quoted, by decide⟩, ⟨⟨⟨by decide, Text.unbroken_quotedSymbol symbol⟩, by decide⟩,
      Text.unbroken_toString position⟩, by decide⟩

end Lines

section Loop

variable {m : Type → Type} [Monad m]

structure Host.Appends (host : Host m) : Prop where
  print_nothing : host.print "" = pure ()
  print_append : ∀ front back, host.print (front ++ back) = do
    host.print front
    host.print back

/-- The check word by word, with the exit as it stands before each word. -/
def judge (host : Host m) (dfa : Dfa) (strict : Bool) : Exit → List (List Char) → m Exit
  | exit, [] => pure exit
  | exit, word :: rest =>
    match verdict dfa strict word with
    | .ok true => do
      host.printLine s!"{Text.quotedWord word}: accepted"
      judge host dfa strict exit rest
    | .ok false => do
      host.printLine s!"{Text.quotedWord word}: rejected"
      judge host dfa strict exit rest
    | .error fault => do
      host.printLine s!"{Text.quotedWord word}: {fault.message}"
      judge host dfa strict .failure rest

/-- One word: its line, and the exit from then on. -/
theorem judge_cons (host : Host m) (dfa : Dfa) (strict : Bool) (exit : Exit) (word : List Char)
    (rest : List (List Char)) :
    judge host dfa strict exit (word :: rest) = (do
      host.printLine (verdictLine dfa strict word)
      judge host dfa strict (if isFault (verdict dfa strict word) then .failure else exit)
        rest) := by
  rw [judge]
  cases judged : verdict dfa strict word with
  | error fault =>
    rw [verdictLine_of_error judged]
    rfl
  | ok accepted =>
    rw [verdictLine_of_ok judged]
    cases accepted <;> rw [verdictOf, String.append_assoc] <;> rfl

theorem printLines_cons {host : Host m} (appends : host.Appends) (line : String)
    (lines : List String) :
    host.printLines (line :: lines) = (do
      host.printLine line
      host.printLines lines) := by
  rw [Host.printLines, List.map_cons, String.join_cons, appends.print_append]
  rfl

variable [LawfulMonad m]

/-- No line is lost behind a fault, and no later word takes a failure back. -/
theorem judge_eq {host : Host m} (appends : host.Appends) (dfa : Dfa) (strict : Bool) (exit : Exit)
    (words : List (List Char)) :
    judge host dfa strict exit words = (do
      host.printLines (words.map (verdictLine dfa strict))
      return if words.any fun word => isFault (verdict dfa strict word)
        then .failure else exit) := by
  induction words generalizing exit with
  | nil =>
    have nothing : host.printLines [] = pure () := appends.print_nothing
    rw [judge, List.map_nil, nothing, pure_bind]
    rfl
  | cons word rest ih =>
    rw [judge_cons, List.map_cons, printLines_cons appends, bind_assoc]
    congr 1
    funext _
    rw [ih, List.any_cons]
    cases isFault (verdict dfa strict word) <;> simp

theorem lift_return (action : m Unit) (exit : Exit) :
    ExceptT.lift (do action; return exit) = (do liftM action; return exit : Run m Exit) := by
  change Except.ok <$> (action >>= fun _ => pure exit) =
    (Except.ok <$> action) >>= ExceptT.bindCont fun _ => pure exit
  rw [map_bind, bind_map_left]
  simp only [map_pure]
  rfl

variable {host : Host m} {config : Config} {arguments : List String}

theorem printLines_eq_judge (appends : host.Appends) (dfa : Dfa) (strict : Bool)
    (words : List (List Char)) :
    (do
      host.printLines (words.map (verdictLine dfa strict))
      return verdictExit dfa strict words : Run m Exit) =
      ExceptT.lift (judge host dfa strict .success words) := by
  rw [judge_eq appends, lift_return]
  rfl

theorem runCheck_arguments (appends : host.Appends) (filled : arguments ≠ []) (dfa : Dfa)
    (strict : Bool) :
    runCheck host dfa config arguments strict =
      ExceptT.lift (judge host dfa strict .success (arguments.map String.toList)) := by
  rw [runCheck, wordsToCheck, if_pos filled, pure_bind]
  exact printLines_eq_judge appends dfa strict _

theorem runCheck_config (appends : host.Appends) (filled : config.words ≠ []) (dfa : Dfa)
    (strict : Bool) :
    runCheck host dfa config [] strict =
      ExceptT.lift (judge host dfa strict .success (config.words.map String.toList)) := by
  rw [runCheck, wordsToCheck, if_neg (by simp), if_pos filled, pure_bind]
  exact printLines_eq_judge appends dfa strict _

theorem runCheck_input (appends : host.Appends) (wordless : config.words = []) (dfa : Dfa)
    (strict : Bool) :
    runCheck host dfa config [] strict = (do
      let words ← orFail (inputWords (← ExceptT.lift host.input))
      ExceptT.lift (judge host dfa strict .success words)) := by
  rw [runCheck, wordsToCheck, if_neg (by simp), if_neg (by simp [wordless]), bind_assoc]
  simp only [printLines_eq_judge appends]

end Loop

theorem appends_sandbox : Sandbox.host.Appends where
  print_nothing := by
    funext sandbox
    have same : sandbox.printed ++ "" = sandbox.printed := String.append_empty
    exact congrArg (fun text => ((), { sandbox with printed := text })) same
  print_append front back := by
    funext sandbox
    have same : sandbox.printed ++ (front ++ back) = sandbox.printed ++ front ++ back :=
      String.append_assoc.symm
    exact congrArg (fun text => ((), { sandbox with printed := text })) same

section Session

def Sandbox.drained (sandbox : Sandbox) : Sandbox := { sandbox with input := ByteArray.empty }

def Sandbox.printing (sandbox : Sandbox) (lines : List String) : Sandbox :=
  { sandbox with printed := sandbox.printed ++ String.join (lines.map (· ++ "\n")) }

/-- The words that a check finds, and what it leaves behind it: it asks the configuration only if
there are no arguments, and reads the input only if neither of them has a word. -/
inductive Supplies (config : Config) (sandbox : Sandbox) :
    List String → List (List Char) → Sandbox → Prop
  | arguments {arguments : List String} : arguments ≠ [] →
      Supplies config sandbox arguments (arguments.map String.toList) sandbox
  | config : config.words ≠ [] →
      Supplies config sandbox [] (config.words.map String.toList) sandbox
  | input {words : List (List Char)} : config.words = [] → inputWords sandbox.input = .ok words →
      Supplies config sandbox [] words sandbox.drained

variable {config : Config} {arguments : List String} {sandbox left : Sandbox}
  {words : List (List Char)}

theorem wordsToCheck_input (wordless : config.words = []) :
    (wordsToCheck Sandbox.host config []).run.run sandbox =
      (inputWords sandbox.input, sandbox.drained) := by
  rw [wordsToCheck, if_neg (by simp), if_neg (by simp [wordless])]
  rfl

theorem wordsToCheck_of_supplies (supplies : Supplies config sandbox arguments words left) :
    (wordsToCheck Sandbox.host config arguments).run.run sandbox = (.ok words, left) := by
  cases supplies with
  | arguments filled =>
    rw [wordsToCheck, if_pos filled]
    rfl
  | config filled =>
    rw [wordsToCheck, if_neg (by simp), if_pos filled]
    rfl
  | input wordless read => rw [wordsToCheck_input wordless, read]

/-- One line for each of the words, in their order, and the exit that they decide. -/
theorem runCheck_of_supplies (supplies : Supplies config sandbox arguments words left) (dfa : Dfa)
    (strict : Bool) :
    (runCheck Sandbox.host dfa config arguments strict).run.run sandbox =
      (.ok (verdictExit dfa strict words), left.printing (words.map (verdictLine dfa strict))) := by
  rw [runCheck, ExceptT.run_bind, StateT.run_bind, wordsToCheck_of_supplies supplies]
  rfl

end Session

end CommandLine

open CommandLine

theorem valid_of_compile {pattern : List Char} {dfa : Dfa} (compiled : compile pattern = .ok dfa) :
    dfa.automaton.Valid := by
  obtain ⟨nfa, _, same⟩ := ofPattern_of_compile compiled
  rw [← same]
  exact Dfa.valid_determinize nfa

/-- Each word has one line of its own, in the order of the words and whatever stands before or
behind it. Both checks give the same verdict on a word of the alphabet; another word is rejected by
the plain check, while the strict one names its first foreign symbol, and fails in the end. This is
what a run prints and how it ends, wherever its words come from. -/
theorem runCheck_exact {pattern : List Char} {dfa : Dfa} (compiled : compile pattern = .ok dfa) :
    (∀ word, verdictLine dfa false word = verdictOf word (dfa.check word)) ∧
    (∀ word, (∀ symbol ∈ word, symbol ∈ dfa.automaton.alphabet) →
      verdictLine dfa true word = verdictOf word (dfa.check word)) ∧
    (∀ word, (∃ symbol ∈ word, symbol ∉ dfa.automaton.alphabet) →
      dfa.check word = false ∧ ∃ symbol position, word[position]? = some symbol ∧
        IsLeast (dfa.foreignPlaces word) position ∧
        verdictLine dfa true word = complaintOf word symbol position) ∧
    (∀ strict word, '\n' ∉ (verdictLine dfa strict word).toList) ∧
    (∀ strict words, (verdictExit dfa strict words = .failure ↔
        strict = true ∧ ∃ word ∈ words, ∃ symbol ∈ word, symbol ∉ dfa.automaton.alphabet) ∧
      (verdictExit dfa strict words = .success ↔
        (strict = true → ∀ word ∈ words, ∀ symbol ∈ word, symbol ∈ dfa.automaton.alphabet))) ∧
    (∀ config arguments strict sandbox words left,
      Supplies config sandbox arguments words left →
        (runCheck Sandbox.host dfa config arguments strict).run.run sandbox =
          (.ok (verdictExit dfa strict words),
            left.printing (words.map (verdictLine dfa strict)))) ∧
    ∀ {m : Type → Type} [Monad m] [LawfulMonad m] (host : Host m), host.Appends →
      ∀ (config : Config) (strict : Bool),
        (∀ arguments, arguments ≠ [] → runCheck host dfa config arguments strict =
          ExceptT.lift (judge host dfa strict .success (arguments.map String.toList))) ∧
        (config.words ≠ [] → runCheck host dfa config [] strict =
          ExceptT.lift (judge host dfa strict .success (config.words.map String.toList))) ∧
        (config.words = [] → runCheck host dfa config [] strict = (do
          let words ← orFail (inputWords (← ExceptT.lift host.input))
          ExceptT.lift (judge host dfa strict .success words))) := by
  refine ⟨verdictLine_plain dfa, fun word known => ?_, fun word foreign => ?_,
    unbroken_verdictLine dfa,
    fun strict words => ⟨verdictExit_eq_failure_iff, verdictExit_eq_success_iff⟩,
    fun _ _ strict _ _ _ supplies => runCheck_of_supplies supplies dfa strict,
    fun host appends config strict => ⟨fun arguments filled => ?_, fun filled => ?_,
      fun wordless => ?_⟩⟩
  · rw [verdictLine_of_familiar known, verdictLine_plain]
  · obtain ⟨symbol, position, stands, least, reported⟩ := Dfa.checkStrictly_of_foreign foreign
    have judged : verdict dfa true word = .error (.unrecognizedSymbol symbol position) := reported
    have rejected := Dfa.check_of_foreign (valid_of_compile compiled) least.1
    exact ⟨rejected, symbol, position, stands, least, verdictLine_of_error judged⟩
  · exact runCheck_arguments appends filled dfa strict
  · exact runCheck_config appends filled dfa strict
  · exact runCheck_input appends wordless dfa strict

/-- The foreign word stands between two others and hides neither. -/
theorem runCheck_exact_starred :
    ∃ dfa, compile ['a', '*'] = .ok dfa ∧
      (∀ symbol ∈ ['a', 'a'], symbol ∈ dfa.automaton.alphabet) ∧
      verdictLine dfa true ['a', 'a'] = verdictOf ['a', 'a'] (dfa.check ['a', 'a']) ∧
      (∃ symbol ∈ ['a', 'b'], symbol ∉ dfa.automaton.alphabet) ∧
      dfa.check ['a', 'b'] = false ∧
      (∃ symbol position, ['a', 'b'][position]? = some symbol ∧
        IsLeast (dfa.foreignPlaces ['a', 'b']) position ∧
        verdictLine dfa true ['a', 'b'] = complaintOf ['a', 'b'] symbol position) ∧
      Sandbox.host.Appends ∧
      (runCheck Sandbox.host dfa (Config.ofRegex "a*") ["aa", "ab", "a"] true).run.run
          ⟨[], ByteArray.empty, "", ""⟩ =
        (.ok .failure, Sandbox.printing ⟨[], ByteArray.empty, "", ""⟩ ["\"aa\": accepted",
          "\"ab\": symbol 'b' at position 1 is not in the alphabet", "\"a\": accepted"]) := by
  obtain ⟨nfa, made, alphabet, lines, exit⟩ : ∃ nfa, Nfa.ofPattern ['a', '*'] = .ok nfa ∧
      nfa.alphabet.items = ['a'] ∧
      [['a', 'a'], ['a', 'b'], ['a']].map (verdictLine (Dfa.determinize nfa) true) =
        ["\"aa\": accepted", "\"ab\": symbol 'b' at position 1 is not in the alphabet",
          "\"a\": accepted"] ∧
      verdictExit (Dfa.determinize nfa) true [['a', 'a'], ['a', 'b'], ['a']] = .failure :=
    ⟨_, rfl, rfl, by decide +kernel, by decide +kernel⟩
  have compiled : compile ['a', '*'] = .ok (Dfa.determinize nfa) := by
    rw [compile_eq, made]
    rfl
  have mem_alphabet : ∀ symbol, symbol ∈ (Dfa.determinize nfa).automaton.alphabet ↔
      symbol = 'a' := by
    intro symbol
    change symbol ∈ nfa.alphabet ↔ _
    rw [← OrderedSet.mem_items, alphabet, List.mem_singleton]
  have known : ∀ symbol ∈ ['a', 'a'], symbol ∈ (Dfa.determinize nfa).automaton.alphabet := by
    simp [mem_alphabet]
  have foreign : ∃ symbol ∈ ['a', 'b'], symbol ∉ (Dfa.determinize nfa).automaton.alphabet := by
    simp [mem_alphabet]
  obtain ⟨_, agree, differ, _, _, runs, _⟩ := runCheck_exact compiled
  refine ⟨_, compiled, known, agree _ known, foreign, (differ _ foreign).1, (differ _ foreign).2,
    appends_sandbox, ?_⟩
  have supplied : Supplies (Config.ofRegex "a*") ⟨[], ByteArray.empty, "", ""⟩ ["aa", "ab", "a"]
      [['a', 'a'], ['a', 'b'], ['a']] ⟨[], ByteArray.empty, "", ""⟩ :=
    .arguments (List.cons_ne_nil _ _)
  rw [runs _ _ true _ _ _ supplied, exit, lines]

end Recognizer
