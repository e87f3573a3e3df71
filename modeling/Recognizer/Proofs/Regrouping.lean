import Recognizer.Proofs.Collection
import Recognizer.Proofs.Compile
import Recognizer.Proofs.Pattern.Shape

/-!
How concatenations are grouped. A run that finds its own operands does the same whatever lies below
them, so the postorder of a tree pushes one fragment, and nothing but the next state decides which.
Concatenation makes no state and puts lists behind one another; so however three operands are
grouped, the same fragment is left of them, and no context tells the groupings apart. Neither in
postorder nor by parentheses does the grouping reach the automata, their numbers or their order.
-/

namespace Recognizer.Nfa

open Pattern

theorem Fragment.concat_assoc (first second third : Fragment) :
    concat (concat first second) third = concat first (concat second third) := by
  simp [concat, absorb, OrderedSet.append_assoc]

namespace Builder

variable {before after : Builder}

theorem applies_frame {token : Token} (applied : Applies before token after)
    (below : List Fragment) :
    Applies ⟨before.next, before.stack ++ below⟩ token ⟨after.next, after.stack ++ below⟩ := by
  cases applied with
  | literal next stack symbol => exact .literal next (stack ++ below) symbol
  | union next left right stack => exact .union next left right (stack ++ below)
  | concat next left right stack => exact .concat next left right (stack ++ below)
  | star next inner stack => exact .star next inner (stack ++ below)

/-- A run goes on above any stack as it does alone. -/
theorem builds_frame {tokens : List Token} (built : Builds before tokens after)
    (below : List Fragment) :
    Builds ⟨before.next, before.stack ++ below⟩ tokens ⟨after.next, after.stack ++ below⟩ := by
  induction built with
  | nothing => exact .nothing _
  | token applied _ ih => exact .token (applies_frame applied below) ih

/-- Onto every stack the tokens push this fragment, and the states are counted on up to `last`. -/
def Pushes (tokens : List Token) (next last : Nat) (fragment : Fragment) : Prop :=
  ∀ stack, Builds ⟨next, stack⟩ tokens ⟨last, fragment :: stack⟩

theorem exists_pushes (tree : Tree) (next : Nat) :
    ∃ last fragment, Pushes tree.postorder next last fragment := by
  obtain ⟨last, fragment, built⟩ := builds_postorder tree next []
  exact ⟨last, fragment, builds_frame built⟩

theorem pushes_concat {left right : List Token} {next middle last : Nat} {first second : Fragment}
    (before : Pushes left next middle first) (after : Pushes right middle last second) :
    Pushes (left ++ right ++ [.concat]) next last (.concat first second) := by
  intro stack
  have operands := builds_append (before stack) (after (first :: stack))
  exact builds_append operands (.token (.concat last first second stack) (.nothing _))

theorem runFrom_of_pushes {tokens : List Token} {builder : Builder} {last : Nat}
    {fragment : Fragment} (pushes : Pushes tokens builder.next last fragment) (position : Nat) :
    builder.runFrom position tokens = .ok ⟨last, fragment :: builder.stack⟩ :=
  runFrom_ok_iff.mpr (pushes builder.stack)

/-- Both groupings of three operands push the same fragment, so every run of one is a run of the
other. -/
theorem runFrom_regrouped (builder : Builder) (position : Nat) (first second third : Tree) :
    builder.runFrom position (Tree.concat (.concat first second) third).postorder =
      builder.runFrom position (Tree.concat first (.concat second third)).postorder := by
  obtain ⟨middle, front, pushesFront⟩ := exists_pushes first builder.next
  obtain ⟨later, center, pushesCenter⟩ := exists_pushes second middle
  obtain ⟨last, back, pushesBack⟩ := exists_pushes third later
  have left := pushes_concat (pushes_concat pushesFront pushesCenter) pushesBack
  have right := pushes_concat pushesFront (pushes_concat pushesCenter pushesBack)
  rw [Fragment.concat_assoc] at left
  exact (runFrom_of_pushes left position).trans (runFrom_of_pushes right position).symm

theorem runFrom_append (builder : Builder) (position : Nat) (front back : List Token) :
    builder.runFrom position (front ++ back) = (builder.runFrom position front).bind fun middle =>
      middle.runFrom (position + front.length) back := by
  induction front generalizing builder position with
  | nil => rfl
  | cons token rest ih =>
    rw [List.cons_append, runFrom, runFrom, List.length_cons, Nat.add_comm rest.length,
      ← Nat.add_assoc]
    cases builder.step position token with
    | error malformed => rfl
    | ok middle => exact ih middle (position + 1)

end Builder

section Context

variable {inner other : List Token} (length : inner.length = other.length)
  (alike : ∀ (builder : Builder) (position : Nat),
    builder.runFrom position inner = builder.runFrom position other)

include length alike

/-- Tokens that every builder runs alike, and as many of them, stand for each other anywhere. -/
theorem ofTokens_congr (front back : List Token) :
    ofTokens (front ++ inner ++ back) = ofTokens (front ++ other ++ back) := by
  have whole : Builder.fresh.runFrom 0 (front ++ inner ++ back) =
      Builder.fresh.runFrom 0 (front ++ other ++ back) := by
    simp only [Builder.runFrom_append, List.length_append, length, alike]
  rw [ofTokens, ofTokens, whole]

theorem ofPostorder_congr {text otherText : List Char} (read : Token.read text = .ok inner)
    (readOther : Token.read otherText = .ok other) (front back : List Char) :
    ofPostorder (front ++ text ++ back) = ofPostorder (front ++ otherText ++ back) := by
  have places : otherText.length = text.length := by
    rw [← Token.length_of_read read, ← Token.length_of_read readOther, length]
  rw [ofPostorder, ofPostorder, Token.read, Token.read]
  simp only [Token.readFrom_append, List.length_append, places, Token.readFrom_of_read read,
    Token.readFrom_of_read readOther]
  cases Token.readFrom 0 front with
  | error malformed => rfl
  | ok before =>
    simp only [Except.bind, Except.map]
    -- what stands behind is read at the same places
    cases Token.readFrom (0 + (front.length + text.length)) back with
    | error malformed => rfl
    | ok after => exact ofTokens_congr length alike before after

end Context

theorem read_of_ofPostorder {text : List Char} {automaton : Automaton}
    (built : ofPostorder text = .ok automaton) :
    ∃ tree : Tree, Token.read text = .ok tree.postorder := by
  obtain ⟨tokens, read, made⟩ := ofPostorder_ok_iff.mp built
  obtain ⟨tree, same, _⟩ := tree_of_ofTokens made
  exact ⟨tree, same ▸ read⟩

/-- Of three texts that make automata, both groupings of the concatenation have one outcome between
any two others, be it an automaton or an error. -/
theorem ofPostorder_regrouped {first second third : List Char}
    {firstMade secondMade thirdMade : Automaton} (makesFirst : ofPostorder first = .ok firstMade)
    (makesSecond : ofPostorder second = .ok secondMade)
    (makesThird : ofPostorder third = .ok thirdMade) (front back : List Char) :
    ofPostorder (front ++ (first ++ second ++ ['.'] ++ third ++ ['.']) ++ back) =
      ofPostorder (front ++ (first ++ second ++ third ++ ['.', '.']) ++ back) := by
  obtain ⟨left, readLeft⟩ := read_of_ofPostorder makesFirst
  obtain ⟨middle, readMiddle⟩ := read_of_ofPostorder makesSecond
  obtain ⟨right, readRight⟩ := read_of_ofPostorder makesThird
  have operator : Token.read ['.'] = .ok [.concat] := rfl
  have read : Token.read (first ++ second ++ ['.'] ++ third ++ ['.']) =
      .ok (Tree.concat (.concat left middle) right).postorder := by
    have both := Token.read_append (Token.read_append readLeft readMiddle) operator
    exact Token.read_append (Token.read_append both readRight) operator
  have readOther : Token.read (first ++ second ++ third ++ ['.', '.']) =
      .ok (Tree.concat left (.concat middle right)).postorder := by
    have both := Token.read_append (Token.read_append readMiddle readRight) operator
    have all := Token.read_append (Token.read_append readLeft both) operator
    simpa only [Tree.postorder, List.append_assoc, List.cons_append, List.nil_append] using all
  refine ofPostorder_congr ?_ ?_ read readOther front back
  · simp only [Tree.postorder, List.length_append]
    omega
  · intro builder position
    exact Builder.runFrom_regrouped builder position left middle right

end Recognizer.Nfa

namespace Recognizer

open Pattern

/-- A letter or digit by itself, or a pattern of the grammar between parentheses. -/
def Atomic (pattern : List Char) : Prop :=
  (∃ symbol, symbol.isAlphanum = true ∧ pattern = [symbol]) ∨
    ∃ inner, Generated inner ∧ pattern = '(' :: inner ++ [')']

theorem derives_of_atomic {pattern : List Char} (atomic : Atomic pattern) :
    ∃ tokens tree, Token.text tokens = pattern ∧ Derives .atom tokens tree := by
  rcases atomic with ⟨symbol, letter, same⟩ | ⟨inner, ⟨tokens, tree, spells, derived⟩, same⟩
  · exact ⟨[.literal symbol], _, same.symm, .literal letter⟩
  · refine ⟨.opening :: tokens ++ [.closing], tree, ?_, .group derived⟩
    rw [same, ← spells]
    simp [Token.text, Token.toChar]

theorem ofTokens_regrouped (first second third : Tree) :
    Nfa.ofTokens (Tree.concat (.concat first second) third).postorder =
      Nfa.ofTokens (Tree.concat first (.concat second third)).postorder := by
  rw [Nfa.ofTokens, Nfa.ofTokens, Nfa.Builder.runFrom_regrouped]

theorem compile_regrouped {first second third : List Char} (atomicFirst : Atomic first)
    (atomicSecond : Atomic second) (atomicThird : Atomic third) :
    ∃ dfa, compile ('(' :: (first ++ second) ++ ')' :: third) = .ok dfa ∧
      compile (first ++ '(' :: (second ++ third) ++ [')']) = .ok dfa := by
  obtain ⟨left, leftTree, spellsLeft, leftDerived⟩ := derives_of_atomic atomicFirst
  obtain ⟨middle, middleTree, spellsMiddle, middleDerived⟩ := derives_of_atomic atomicSecond
  obtain ⟨right, rightTree, spellsRight, rightDerived⟩ := derives_of_atomic atomicThird
  subst spellsLeft spellsMiddle spellsRight
  -- side by side two atoms are a phrase, and around it a group is an atom again
  have beside {front back : List Token} {one two : Tree} (before : Derives .atom front one)
      (after : Derives .atom back two) : Derives .union (front ++ back) (.concat one two) :=
    .concat (.beside (.factor (.atom before)) (.atom after))
  have listed := postorder_text_of_derives
    (beside (.group (beside leftDerived middleDerived)) rightDerived)
  have listedOther := postorder_text_of_derives
    (beside leftDerived (.group (beside middleDerived rightDerived)))
  obtain ⟨dfa, compiled, _⟩ := compile_of_postorder listed
  have same : compile (Token.text (.opening :: (left ++ middle) ++ [.closing] ++ right)) =
      compile (Token.text (left ++ (.opening :: (middle ++ right) ++ [.closing]))) := by
    rw [compile_eq, compile_eq, ofPattern_eq_bind, ofPattern_eq_bind, listed, listedOther,
      Except.bind, Except.bind, ofTokens_regrouped]
  have compiledOther := same.symm.trans compiled
  simp only [Token.text, List.map_append, List.map_cons, List.map_nil, List.append_assoc,
    List.cons_append, List.nil_append] at compiled compiledOther ⊢
  exact ⟨dfa, compiled, compiledOther⟩

/-- In postorder, three operands that make automata on their own may be concatenated in either
grouping, in any context: what comes of the whole is the same automaton, part by part and in the
same order, or the same error. So a pattern of three atoms has one deterministic automaton, and one
listing of it, whichever two of them a group holds together. -/
theorem grouping_immaterial :
    (∀ (first second third front back : List Char) (made madeNext madeLast : Automaton),
      Nfa.ofPostorder first = .ok made → Nfa.ofPostorder second = .ok madeNext →
      Nfa.ofPostorder third = .ok madeLast →
      Nfa.ofPostorder (front ++ (first ++ second ++ ['.'] ++ third ++ ['.']) ++ back) =
        Nfa.ofPostorder (front ++ (first ++ second ++ third ++ ['.', '.']) ++ back)) ∧
    (∀ first second third : List Char, Atomic first → Atomic second → Atomic third →
      ∃ dfa, compile ('(' :: (first ++ second) ++ ')' :: third) = .ok dfa ∧
        compile (first ++ '(' :: (second ++ third) ++ [')']) = .ok dfa) := by
  constructor
  · intro first second third front back made madeNext madeLast makes makesNext makesLast
    exact Nfa.ofPostorder_regrouped makes makesNext makesLast front back
  · intro first second third atomic atomicNext atomicLast
    exact compile_regrouped atomic atomicNext atomicLast

theorem grouping_immaterial_starred :
    (∃ made madeNext madeLast whole, Nfa.ofPostorder ['b'] = .ok made ∧
      Nfa.ofPostorder ['c', '*'] = .ok madeNext ∧ Nfa.ofPostorder ['d'] = .ok madeLast ∧
      Nfa.ofPostorder ['a', 'b', 'c', '*', '.', 'd', '.', '|'] = .ok whole ∧
      Nfa.ofPostorder ['a', 'b', 'c', '*', 'd', '.', '.', '|'] = .ok whole) ∧
    (Atomic ['a'] ∧ Atomic ['(', 'b', '*', ')'] ∧ Atomic ['c'] ∧
      ∃ dfa, compile ['(', 'a', '(', 'b', '*', ')', ')', 'c'] = .ok dfa ∧
        compile ['a', '(', '(', 'b', '*', ')', 'c', ')'] = .ok dfa) := by
  constructor
  · have same := grouping_immaterial.1 ['b'] ['c', '*'] ['d'] ['a'] ['|'] _ _ _ rfl rfl rfl
    exact ⟨_, _, _, _, rfl, rfl, rfl, rfl, same.symm⟩
  · have letter (symbol : Char) (known : symbol.isAlphanum = true) : Atomic [symbol] :=
      Or.inl ⟨symbol, known, rfl⟩
    have starred : Derives .union [.literal 'b', .star] (.star (.literal 'b')) :=
      .concat (.factor (.star (.atom (.literal rfl))))
    have grouped : Atomic ['(', 'b', '*', ')'] :=
      Or.inr ⟨['b', '*'], ⟨_, _, rfl, starred⟩, rfl⟩
    have alike := grouping_immaterial.2 _ _ _ (letter 'a' rfl) grouped (letter 'c' rfl)
    exact ⟨letter 'a' rfl, grouped, letter 'c' rfl, alike⟩

end Recognizer
