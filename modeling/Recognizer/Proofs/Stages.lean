import Recognizer.CommandLine.Sandbox
import Recognizer.Proofs.Compile
import Recognizer.Proofs.Pattern.Shape

/-!
The stages of a compilation without the examinations between them. No examination ever fails, and a
listing reads back as what was written, so the bare stages give the automaton or the fault that
compilation gives. The program runs the bare stages.
-/

namespace Recognizer

open Pattern

theorem examinations_ofPostorder {text : List Char} {nfa : Automaton}
    (built : Nfa.ofPostorder text = .ok nfa) :
    nfa.validate = .ok () ∧ (Dfa.determinize nfa).automaton.validate = .ok () ∧
      (Dfa.determinize nfa).automaton.checkDeterminism = .ok () := by
  obtain ⟨tokens, _, made⟩ := Nfa.ofPostorder_ok_iff.mp built
  have sound := Nfa.valid_ofTokens made
  have valid := Dfa.valid_determinize nfa
  have deterministic := Dfa.deterministic_determinize nfa
  exact ⟨Automaton.validate_ok_iff.mpr sound, Automaton.validate_ok_iff.mpr valid,
    Automaton.checkDeterminism_ok_iff.mpr deterministic⟩

/-- The stages one after another, each on the written form of what the one before it made. -/
def Dfa.ofPattern (pattern : List Char) : Except Malformed Dfa := do
  let listing ← Pattern.postorder pattern
  let nfa ← Nfa.ofPostorder (Token.text listing)
  return Dfa.determinize nfa

theorem Dfa.ofPattern_eq_map (pattern : List Char) :
    Dfa.ofPattern pattern = (Nfa.ofPattern pattern).map Dfa.determinize := by
  rw [ofPattern_eq_bind, Dfa.ofPattern]
  cases listed : Pattern.postorder pattern with
  | error malformed => rfl
  | ok listing =>
    have same : Nfa.ofPostorder (Token.text listing) = Nfa.ofTokens listing := by
      rw [Nfa.ofPostorder, read_text_of_postorder listed]
    change (Nfa.ofPostorder (Token.text listing)).bind (fun nfa => .ok (Dfa.determinize nfa)) =
      (Nfa.ofTokens listing).map Dfa.determinize
    rw [same]
    cases Nfa.ofTokens listing <;> rfl

theorem compile_eq_ofPattern (pattern : List Char) :
    compile pattern = (Dfa.ofPattern pattern).mapError Fault.malformed := by
  rw [compile_eq, Dfa.ofPattern_eq_map]
  cases Nfa.ofPattern pattern <;> rfl

namespace CommandLine

variable {m : Type → Type} [Monad m] [LawfulMonad m]

theorem orFail_bind {α β : Type} (result : Except Fault α) (next : α → Run m β) :
    orFail result >>= next =
      match result with
      | .ok value => next value
      | .error fault => orFail (.error fault) := by
  change pure result >>= ExceptT.bindCont next = _
  rw [pure_bind]
  cases result <;> rfl

theorem liftM_printIf_false (host : Host m) (line : String) :
    (liftM (host.printIf false line) : Run m Unit) = pure () := by
  change Except.ok <$> pure () = pure (Except.ok ())
  exact map_pure _ _

def perform (host : Host m) (config : Config) (dfa : Dfa) : Command → Run m Exit
  | .postorder => return .success
  | .describe output => runDescribe host dfa (output.or config.output)
  | .validate => runValidate host dfa
  | .check words strict => runCheck host dfa config words strict

/-- A command that needs an automaton works on the compiled one. -/
theorem runCommand_quiet (host : Host m) (source : Source) {command : Command}
    (builds : command ≠ .postorder) :
    runCommand host ⟨source, command, false⟩ = (do
      let config ← loadConfig host source
      let dfa ← orFail (compile config.regex.toList)
      perform host config dfa command) := by
  unfold runCommand
  congr 1
  funext config
  rw [compile_eq, ofPattern_eq_bind, orFail_bind, orFail_bind]
  cases Pattern.postorder config.regex.toList with
  | error malformed => rfl
  | ok tokens =>
    cases command with
    | postorder => exact absurd rfl builds
    | describe | validate | check =>
      simp only [Except.mapError, Except.bind, liftM_printIf_false, pure_bind, orFail_bind]
      cases Nfa.ofTokens tokens <;> rfl

end CommandLine

open CommandLine

/-- What is built passes all examinations. So compilation reports no invalid automaton, gives what
the bare stages give, and stands for them in every run of the program. -/
theorem compile_unguarded :
    (∀ text nfa, Nfa.ofPostorder text = .ok nfa →
      nfa.validate = .ok () ∧ (Dfa.determinize nfa).automaton.validate = .ok () ∧
        (Dfa.determinize nfa).automaton.checkDeterminism = .ok ()) ∧
    (∀ pattern, (∀ violation, compile pattern ≠ .error (.invalidAutomaton violation)) ∧
      compile pattern = (Dfa.ofPattern pattern).mapError Fault.malformed) ∧
    ∀ {m : Type → Type} [Monad m] [LawfulMonad m] (host : Host m) (source : Source)
      (command : Command), command ≠ .postorder →
        runCommand host ⟨source, command, false⟩ = (do
          let config ← loadConfig host source
          let dfa ← orFail (compile config.regex.toList)
          perform host config dfa command) := by
  refine ⟨fun text nfa built => examinations_ofPostorder built, fun pattern => ⟨?_, ?_⟩,
    fun host source command builds => runCommand_quiet host source builds⟩
  · intro violation
    rw [compile_eq_ofPattern]
    cases Dfa.ofPattern pattern <;> simp [Except.mapError]
  · exact compile_eq_ofPattern pattern

/-- A run of the bare stages prints the verdict of the compiled automaton. -/
theorem compile_unguarded_starred :
    (∃ nfa, Nfa.ofPostorder ['a', 'b', '|', '*', 'c', '.'] = .ok nfa ∧ nfa.validate = .ok () ∧
      (Dfa.determinize nfa).automaton.validate = .ok () ∧
        (Dfa.determinize nfa).automaton.checkDeterminism = .ok ()) ∧
    (∃ dfa, compile ['(', 'a', '|', 'b', ')', '*', 'c'] = .ok dfa ∧ dfa.check ['a', 'c'] = true) ∧
    (runCommand Sandbox.host ⟨.regex "(a|b)*c", .check ["ac"] true, false⟩).run.run
        ⟨[], ByteArray.empty, "", ""⟩ =
      (.ok .success, ⟨[], ByteArray.empty, "\"ac\": accepted\n", ""⟩) := by
  have built : ∃ nfa, Nfa.ofPostorder ['a', 'b', '|', '*', 'c', '.'] = .ok nfa := ⟨_, rfl⟩
  obtain ⟨nfa, made⟩ := built
  obtain ⟨whole, wholeMade, accepted, lines, exit⟩ :
      ∃ nfa, Nfa.ofPattern ['(', 'a', '|', 'b', ')', '*', 'c'] = .ok nfa ∧
        (Dfa.determinize nfa).check ['a', 'c'] = true ∧
        String.join (([['a', 'c']].map (verdictLine (Dfa.determinize nfa) true)).map (· ++ "\n")) =
          "\"ac\": accepted\n" ∧
        verdictExit (Dfa.determinize nfa) true [['a', 'c']] = .success :=
    ⟨_, rfl, by decide +kernel, by decide +kernel, by decide +kernel⟩
  have compiled : compile ['(', 'a', '|', 'b', ')', '*', 'c'] = .ok (Dfa.determinize whole) := by
    rw [compile_eq, wholeMade]
    rfl
  have loaded : loadConfig Sandbox.host (.regex "(a|b)*c") = pure (Config.ofRegex "(a|b)*c") := by
    have trimmed : Config.trimmed "(a|b)*c" = "(a|b)*c" := by decide +kernel
    rw [loadConfig, trimmed]
  have spelled : (Config.ofRegex "(a|b)*c").regex.toList = ['(', 'a', '|', 'b', ')', '*', 'c'] := by
    decide +kernel
  obtain ⟨examined, _, runs⟩ := compile_unguarded
  refine ⟨⟨nfa, made, examined _ nfa made⟩, ⟨_, compiled, accepted⟩, ?_⟩
  rw [runs Sandbox.host (.regex "(a|b)*c") (.check ["ac"] true) (by decide), loaded, pure_bind,
    spelled, compiled]
  change (Except.ok (verdictExit (Dfa.determinize whole) true [['a', 'c']]),
    Sandbox.mk [] ByteArray.empty ("" ++ String.join
      (([['a', 'c']].map (verdictLine (Dfa.determinize whole) true)).map (· ++ "\n"))) "") = _
  rw [exit, lines]
  rfl

end Recognizer
