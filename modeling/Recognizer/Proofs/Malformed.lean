import Recognizer.Proofs.Compile
import Recognizer.Proofs.Nfa.Shortage
import Recognizer.Proofs.Pattern.Shape
import Recognizer.Proofs.Pattern.Partners
import Recognizer.Proofs.Pattern.Places

/-!
Which patterns are compiled, and what is wrong with the others. The causes are looked for in a fixed
order: foreign characters, parentheses without a partner, nothing but groups, missing operands. A
pattern that shows none of them is one of the grammar. Of an operator that lacks an operand the
builder reports the place in the listing, since it sees nothing else; that is not where the operator
stands in the pattern. The two differ by the parentheses and the concatenations in front of the
operator and by the tokens that go past it.
-/

namespace Recognizer

open Pattern

theorem ofPattern_of_generated {pattern : List Char} (generated : Generated pattern) :
    ∃ nfa, Nfa.ofPattern pattern = .ok nfa := by
  obtain ⟨tokens, tree, same, derived⟩ := generated
  obtain ⟨nfa, built, _⟩ := Nfa.ofTokens_postorder tree
  refine ⟨nfa, ?_⟩
  rw [Nfa.ofPattern, ← same, postorder_text_of_derives derived]
  exact built

theorem not_generated_of_error {pattern : List Char} {malformed : Malformed}
    (failed : Nfa.ofPattern pattern = .error malformed) : ¬Generated pattern := by
  intro generated
  obtain ⟨nfa, built⟩ := ofPattern_of_generated generated
  cases failed.symm.trans built

inductive Verdict (pattern : List Char) : Except Malformed Automaton → Prop
  | unsupported (symbol : Char) (position : Nat) : ¬Supported pattern → ¬Hollow pattern →
      ¬Generated pattern → Verdict pattern (.error (.unsupportedCharacter symbol position))
  | unbalanced (position : Nat) : Supported pattern → ¬Balanced pattern → ¬Hollow pattern →
      ¬Generated pattern → Verdict pattern (.error (.unbalancedParenthesis position))
  | empty : Supported pattern → Balanced pattern → Hollow pattern → ¬Generated pattern →
      Verdict pattern (.error .emptyExpression)
  | missing (operator : Char) (position : Nat) : Supported pattern → Balanced pattern →
      ¬Hollow pattern → ¬Generated pattern →
        Verdict pattern (.error (.missingOperand operator position))
  | built (nfa : Automaton) : Supported pattern → Balanced pattern → ¬Hollow pattern →
      Generated pattern → Verdict pattern (.ok nfa)

/-- Once the groups nest, only operands can be missing. -/
theorem verdict_of_tells {pattern : List Char} {tokens listing : List Token}
    (read : Token.read pattern = .ok tokens) (supported : Supported pattern)
    (nests : Nests 0 tokens) (tells : Tells pattern tokens listing)
    (made : Nfa.ofPattern pattern = Nfa.ofTokens listing) :
    Verdict pattern (Nfa.ofPattern pattern) := by
  have balanced := (balanced_iff_nests read).mpr nests
  have weight := tells.weight
  rw [made]
  rcases Nfa.ofTokens_settles tells.bare (by omega) with
    ⟨nothing, failed⟩ | ⟨some, operator, position, failed⟩ | ⟨some, full, nfa, built⟩
  · rw [failed]
    have underived := not_generated_of_error (made.trans failed)
    exact .empty supported balanced (tells.hollow.mpr nothing) underived
  · rw [failed]
    have underived := not_generated_of_error (made.trans failed)
    exact .missing operator position supported balanced (mt tells.hollow.mp some) underived
  · rw [built]
    -- a listing that weighs one lacks no operand
    have derived := derives_of_lacking (letters_of_read read) nests (by omega)
    have generated := (generated_iff_derives read).mpr derived
    exact .built nfa supported balanced (mt tells.hollow.mp some) generated

theorem verdict_of_read {pattern : List Char} {tokens : List Token}
    (read : Token.read pattern = .ok tokens) (supported : Supported pattern) :
    Verdict pattern (Nfa.ofPattern pattern) := by
  rcases postorder_settles read with ⟨nests, listing, listed, tells⟩ | ⟨strays, position, failed⟩
  · apply verdict_of_tells read supported nests tells
    rw [Nfa.ofPattern, listed]
    rfl
  · have failed : Nfa.ofPattern pattern = .error (.unbalancedParenthesis position) := by
      rw [Nfa.ofPattern, failed]
      rfl
    rw [failed]
    exact .unbalanced position supported (mt (balanced_iff_nests read).mp strays)
      (mt (nests_of_hollow read) strays) (not_generated_of_error failed)

theorem verdict_ofPattern (pattern : List Char) : Verdict pattern (Nfa.ofPattern pattern) := by
  rcases read_settles pattern with ⟨supported, tokens, read⟩ | ⟨symbol, position, foreign, failed⟩
  · exact verdict_of_read read supported
  · have unsupported := not_supported_of_foreignAt foreign
    have failed : Nfa.ofPattern pattern = .error (.unsupportedCharacter symbol position) := by
      rw [Nfa.ofPattern, Pattern.postorder, Converter.convert, failed]
      rfl
    rw [failed]
    exact .unsupported symbol position unsupported (mt supported_of_hollow unsupported)
      (not_generated_of_error failed)

/-- A pattern is compiled when the grammar generates it. Otherwise the first cause that it shows is
reported: a foreign character, unbalanced parentheses, nothing but groups, or a missing operand.
Operands are never left over, and no other fault occurs. -/
theorem compile_classifies (pattern : List Char) :
    ((∃ dfa, compile pattern = .ok dfa) ↔ Generated pattern) ∧
    ((∃ symbol position,
        compile pattern = .error (.malformed (.unsupportedCharacter symbol position))) ↔
      ¬Supported pattern) ∧
    ((∃ position, compile pattern = .error (.malformed (.unbalancedParenthesis position))) ↔
      Supported pattern ∧ ¬Balanced pattern) ∧
    (compile pattern = .error (.malformed .emptyExpression) ↔ Hollow pattern) ∧
    ((∃ operator position,
        compile pattern = .error (.malformed (.missingOperand operator position))) ↔
      Supported pattern ∧ Balanced pattern ∧ ¬Hollow pattern ∧ ¬Generated pattern) ∧
    (∀ count, compile pattern ≠ .error (.malformed (.danglingOperands count))) ∧
    ∀ fault, compile pattern = .error fault → fault.isMalformedPattern = true := by
  have verdict := verdict_ofPattern pattern
  rw [compile_eq]
  generalize Nfa.ofPattern pattern = result at verdict
  cases verdict with
  | unsupported | unbalanced | empty | missing =>
    simp [Except.map, Except.mapError, Fault.isMalformedPattern, *]
  | built => simp [Except.map, Except.mapError, *]

theorem compile_malformed_iff {pattern : List Char} {malformed : Malformed} :
    compile pattern = .error (.malformed malformed) ↔
      Nfa.ofPattern pattern = .error malformed := by
  rw [compile_eq]
  cases Nfa.ofPattern pattern <;> simp [Except.map, Except.mapError]

/-- Operators are not asked for their operands while a pattern is arranged. -/
theorem postorder_ne_missingOperand (pattern : List Char) (operator : Char) (position : Nat) :
    postorder pattern ≠ .error (.missingOperand operator position) := by
  intro failed
  have parted := parted_postorder pattern
  rw [failed] at parted
  cases parted

/-- The listing of a pattern, ahead of its first token that lacks an operand and behind it. -/
structure Lacks (pattern : List Char) (tokens : List Token) (ahead : List Placed) (next : Placed)
    (behind : List Placed) : Prop where
  read : Token.read pattern = .ok tokens
  leaves : ordered tokens = ahead ++ next :: behind
  listed : postorder pattern = .ok ((ahead ++ next :: behind).map Placed.token)
  starved : IsLeast {place | Nfa.StarvesAt 0 ((ahead ++ next :: behind).map Placed.token) place}
    ahead.length

theorem perm_of_lacks {pattern : List Char} {tokens : List Token} {ahead behind : List Placed}
    {next : Placed} (lacks : Lacks pattern tokens ahead next behind) :
    (ahead ++ next :: behind).Perm (ungrouped (insertConcats (placedFrom 0 tokens))) := by
  rw [← lacks.leaves]
  exact (ordered_of_postorder lacks.read lacks.listed).2

theorem ofPattern_of_lacks {pattern : List Char} {tokens : List Token} {ahead behind : List Placed}
    {next : Placed} (lacks : Lacks pattern tokens ahead next behind) :
    Nfa.ofPattern pattern = .error (.missingOperand next.token.toChar ahead.length) := by
  have member := (perm_of_lacks lacks).subset (List.mem_append_right ahead List.mem_cons_self)
  rw [ofPattern_eq_bind, lacks.listed]
  refine Nfa.ofTokens_missingOperand_iff.mpr ⟨lacks.starved, next.token, ?_, ?_, rfl⟩
  · simp
  · exact (List.mem_filter.mp member).2

theorem lacks_of_ofPattern {pattern : List Char} {operator : Char} {position : Nat}
    (failed : Nfa.ofPattern pattern = .error (.missingOperand operator position)) :
    ∃ tokens ahead next behind, Lacks pattern tokens ahead next behind ∧
      next.token.toChar = operator ∧ ahead.length = position := by
  rw [ofPattern_eq_bind] at failed
  cases listed : Pattern.postorder pattern with
  | error malformed =>
    rw [listed] at failed
    cases failed
    exact absurd listed (postorder_ne_missingOperand pattern operator position)
  | ok listing =>
    rw [listed] at failed
    obtain ⟨first, token, stands, _, spelled⟩ := Nfa.ofTokens_missingOperand_iff.mp failed
    obtain ⟨tokens, read⟩ := read_of_postorder listed
    obtain ⟨done, _⟩ := ordered_of_postorder read listed
    rw [done, List.getElem?_map] at stands
    obtain ⟨next, there, same⟩ := Option.map_eq_some_iff.mp stands
    obtain ⟨within, found⟩ := List.getElem?_eq_some_iff.mp there
    have split : ordered tokens =
        (ordered tokens).take position ++ next :: (ordered tokens).drop (position + 1) := by
      rw [← found, List.getElem_cons_drop, List.take_append_drop]
    have width := List.length_take_of_le (Nat.le_of_lt within)
    refine ⟨tokens, _, next, _, ⟨read, split, ?_, ?_⟩, same ▸ spelled, width⟩
    · rw [← split, ← done, listed]
    · rw [← split, ← done, width]
      exact first

/-- A missing operand is reported at the operator's place in the listing. Where the operator stands
in the pattern is another matter: the report counts the concatenations inserted in front of it, and
what is written behind it and leaves early, but neither the parentheses in front of it nor what is
written there and leaves late. -/
theorem compile_displaced (pattern : List Char) (operator : Char) (position : Nat) :
    compile pattern = .error (.malformed (.missingOperand operator position)) ↔
      ∃ tokens ahead next behind, Lacks pattern tokens ahead next behind ∧
        next.token.toChar = operator ∧ ahead.length = position ∧
        StandsAt pattern operator next.position ∧
        position + (tokens.take next.position).countP (!·.isBare) +
            behind.countP (·.position < next.position) =
          next.position + joints (tokens.take next.position) +
            ahead.countP (next.position ≤ ·.position) := by
  rw [compile_malformed_iff]
  constructor
  · intro failed
    obtain ⟨tokens, ahead, next, behind, lacks, spelled, same⟩ := lacks_of_ofPattern failed
    have moved := perm_of_lacks lacks
    have member := moved.subset (List.mem_append_right ahead List.mem_cons_self)
    have stands := standsAt_of_mem lacks.read (List.mem_filter.mp member).1
    exact ⟨tokens, ahead, next, behind, lacks, spelled, same, spelled ▸ stands,
      same ▸ place_balance moved⟩
  · rintro ⟨tokens, ahead, next, behind, lacks, spelled, same, _, _⟩
    rw [ofPattern_of_lacks lacks, spelled, same]

/-- The concatenation in front of the union counts, so the report is past the end. -/
theorem compile_displaced_union :
    compile ['a', 'b', '|'] = .error (.malformed (.missingOperand '|' 3)) ∧
      ∀ position, StandsAt ['a', 'b', '|'] '|' position ↔ position = 2 := by
  refine ⟨rfl, fun position => ?_⟩
  constructor
  · rintro ⟨within, stands | ⟨absurd, _⟩⟩
    · rcases position with _ | _ | _ | position
      · cases stands
      · cases stands
      · rfl
      · cases stands
    · cases absurd
  · rintro rfl
    exact ⟨by decide, Or.inl rfl⟩

end Recognizer
