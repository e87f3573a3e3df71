import Recognizer.Pattern.Postorder
import Recognizer.Pattern.Syntax

/-!
Arranging in postorder. A phrase is arranged over any waiting operators that bind less tightly than
its level; what it leaves waiting binds at least that tightly and completes its postorder. So each
rule of the grammar is one rule about phrases, whatever stands around them. A conversion that fails
leaves its buffers as they are at that moment: with the tokens of an earlier pattern, with operators
that nobody released, with a stack taken down halfway. The next conversion empties both before it
puts anything in, so no result depends on what came before, and neither do the buffers once a
pattern with tokens has passed.
-/

namespace Recognizer.Pattern

def prepend (released : List Token) (outcome : Except Malformed (List Token) × List Placed) :
    Except Malformed (List Token) × List Placed :=
  (outcome.1.map (released ++ ·), outcome.2)

theorem prepend_nil (outcome : Except Malformed (List Token) × List Placed) :
    prepend [] outcome = outcome := by
  obtain ⟨arranged, left⟩ := outcome
  cases arranged <;> rfl

theorem prepend_append (first second : List Token)
    (outcome : Except Malformed (List Token) × List Placed) :
    prepend (first ++ second) outcome = prepend first (prepend second outcome) := by
  obtain ⟨arranged, left⟩ := outcome
  cases arranged <;> simp [prepend, Except.map]

theorem arrange_literal {next : Placed} {symbol : Char} (literal : next.token = .literal symbol)
    (waiting rest : List Placed) :
    arrange waiting (next :: rest) = prepend [.literal symbol] (arrange waiting rest) := by
  rw [arrange, literal]
  rfl

theorem arrange_opening {next : Placed} (opening : next.token = .opening)
    (waiting rest : List Placed) :
    arrange waiting (next :: rest) = arrange (next :: waiting) rest := by
  rw [arrange, opening]

theorem arrange_closing {next : Placed} {waiting below : List Placed} {released : List Token}
    (closing : next.token = .closing) (closed : closeGroup waiting = some (released, below))
    (rest : List Placed) :
    arrange waiting (next :: rest) = prepend released (arrange below rest) := by
  rw [arrange, closing]
  simp only [closed]
  rfl

theorem arrange_operator {next : Placed} (operator : next.token.isOperator = true)
    (waiting rest : List Placed) :
    arrange waiting (next :: rest) =
      prepend ((waiting.takeWhile (yields next.token)).map Placed.token)
        (arrange (next :: waiting.dropWhile (yields next.token)) rest) := by
  rw [arrange]
  cases kind : next.token with
  | star | concat | union => rfl
  | literal symbol | opening | closing =>
    rw [kind] at operator
    cases operator

/-- The operators on top bind at least as tightly as the bound. -/
def Pending (bound : Nat) (operators : List Placed) : Prop :=
  ∀ operator ∈ operators, operator.token.isOperator = true ∧ bound ≤ operator.token.tightness

/-- The top of the stack binds less tightly than the bound; a group binds least. -/
def Below (bound : Nat) (waiting : List Placed) : Prop :=
  ∀ top ∈ waiting.head?, top.token.tightness < bound

theorem ungrouped_of_isOperator {token : Token} (operator : token.isOperator = true) :
    token ≠ .opening ∧ token ≠ .closing := by
  cases token with
  | literal | opening | closing => cases operator
  | star | concat | union => exact ⟨Token.noConfusion, Token.noConfusion⟩

theorem not_opening_of_pending {bound : Nat} {operators : List Placed}
    (pending : Pending bound operators) : ∀ top ∈ operators, top.token ≠ .opening :=
  fun top member => (ungrouped_of_isOperator (pending top member).1).1

theorem closeGroup_front {front : List Placed} {opening : Placed}
    (inside : ∀ top ∈ front, top.token ≠ .opening) (opens : opening.token = .opening)
    (below : List Placed) :
    closeGroup (front ++ opening :: below) = some (front.map Placed.token, below) := by
  induction front with
  | nil => simp [closeGroup, opens]
  | cons top front ih =>
    obtain ⟨apart, rest⟩ := List.forall_mem_cons.mp inside
    simp [closeGroup, apart, ih rest]

theorem release_front {front : List Placed} (inside : ∀ top ∈ front, top.token ≠ .opening) :
    release front = (.ok (front.map Placed.token), []) := by
  induction front with
  | nil => rfl
  | cons top front ih =>
    obtain ⟨apart, rest⟩ := List.forall_mem_cons.mp inside
    simp [release, apart, ih rest, Except.map]

/-- An operator releases all that binds as tightly, and nothing below it. -/
theorem takeWhile_pending {next : Token} {operators waiting : List Placed}
    (pending : Pending next.tightness operators) (below : Below next.tightness waiting) :
    (operators ++ waiting).takeWhile (yields next) = operators ∧
      (operators ++ waiting).dropWhile (yields next) = waiting := by
  have yielding : ∀ operator ∈ operators, yields next operator = true := by
    intro operator member
    simpa [yields] using pending operator member
  rw [List.takeWhile_append_of_pos yielding, List.dropWhile_append_of_pos yielding]
  cases waiting with
  | nil => simp
  | cons top waiting =>
    have stays : yields next top = false := by
      simp [yields, below top rfl]
    simp [stays]

/-- Placed tokens are arranged as the listing, some of it perhaps still waiting. -/
def Arranges (bound : Nat) (placed : List Placed) (listing : List Token) : Prop :=
  ∀ waiting, Below bound waiting →
    ∃ emitted operators, Pending bound operators ∧
      emitted ++ operators.map Placed.token = listing ∧
      ∀ rest, arrange waiting (placed ++ rest) =
        prepend emitted (arrange (operators ++ waiting) rest)

theorem arranges_nil (bound : Nat) : Arranges bound [] [] := by
  intro waiting _
  refine ⟨[], [], ?_, rfl, fun rest => (prepend_nil _).symm⟩
  intro operator member
  cases member

theorem arranges_literal {next : Placed} {symbol : Char} (literal : next.token = .literal symbol)
    (bound : Nat) : Arranges bound [next] [.literal symbol] := by
  intro waiting _
  refine ⟨[.literal symbol], [], ?_, rfl, arrange_literal literal waiting⟩
  intro operator member
  cases member

theorem arranges_mono {loose tight : Nat} {placed : List Placed} {listing : List Token}
    (weaker : loose ≤ tight) (arranges : Arranges tight placed listing) :
    Arranges loose placed listing := by
  intro waiting below
  obtain ⟨emitted, operators, pending, listed, run⟩ :=
    arranges waiting fun top member => Nat.lt_of_lt_of_le (below top member) weaker
  refine ⟨emitted, operators, ?_, listed, run⟩
  intro operator member
  exact ⟨(pending operator member).1, Nat.le_trans weaker (pending operator member).2⟩

theorem arranges_group {opening closing : Placed} {placed : List Placed} {listing : List Token}
    (opens : opening.token = .opening) (closes : closing.token = .closing)
    (inner : Arranges 1 placed listing) (bound : Nat) :
    Arranges bound (opening :: placed ++ [closing]) listing := by
  intro waiting _
  have below : Below 1 (opening :: waiting) := by
    intro top member
    cases member
    rw [opens]
    exact Nat.one_pos
  obtain ⟨emitted, operators, pending, listed, run⟩ := inner (opening :: waiting) below
  refine ⟨listing, [], ?_, List.append_nil listing, fun rest => ?_⟩
  · intro operator member
    cases member
  · -- the group closes over what the phrase inside left waiting
    have closed := closeGroup_front (not_opening_of_pending pending) opens waiting
    calc arrange waiting (opening :: placed ++ [closing] ++ rest)
        = arrange (opening :: waiting) (placed ++ closing :: rest) := by
          rw [List.append_assoc, List.cons_append, arrange_opening opens, List.singleton_append]
      _ = prepend emitted (prepend (operators.map Placed.token) (arrange waiting rest)) := by
          rw [run, arrange_closing closes closed]
      _ = prepend listing (arrange waiting rest) := by
          rw [← prepend_append, listed]

/-- The left operand is complete when its operator arrives; the right operand binds more tightly, so
the operator waits below it. -/
theorem arranges_operator {bound : Nat} {next : Placed} {token : Token} {front back : List Placed}
    {left right : List Token} (kind : next.token = token) (operator : token.isOperator = true)
    (binds : token.tightness = bound) (first : Arranges bound front left)
    (second : Arranges (bound + 1) back right) :
    Arranges bound (front ++ next :: back) (left ++ right ++ [token]) := by
  subst kind binds
  intro waiting below
  obtain ⟨early, before, pending, leftListed, leftRun⟩ := first waiting below
  have above : Below (next.token.tightness + 1) (next :: waiting) := by
    intro top member
    cases member
    exact Nat.lt_succ_self _
  -- what the right operand leaves waiting stands above the operator, and goes out before it
  obtain ⟨late, after, waits, rightListed, rightRun⟩ := second (next :: waiting) above
  refine ⟨left ++ late, after ++ [next], ?_, ?_, fun rest => ?_⟩
  · intro other member
    rcases List.mem_append.mp member with inside | last
    · exact ⟨(waits other inside).1, Nat.le_of_succ_le (waits other inside).2⟩
    · cases List.mem_singleton.mp last
      exact ⟨operator, Nat.le_refl _⟩
  · simp [← rightListed]
  · obtain ⟨released, kept⟩ := takeWhile_pending pending below
    calc arrange waiting (front ++ next :: back ++ rest)
        = prepend early (arrange (before ++ waiting) (next :: (back ++ rest))) := by
          rw [List.append_assoc, leftRun, List.cons_append]
      _ = prepend early (prepend (before.map Placed.token)
            (arrange (next :: waiting) (back ++ rest))) := by
          rw [arrange_operator operator, released, kept]
      _ = prepend left (prepend late (arrange (after ++ next :: waiting) rest)) := by
          rw [← prepend_append, leftListed, rightRun]
      _ = prepend (left ++ late) (arrange (after ++ [next] ++ waiting) rest) := by
          rw [← prepend_append, List.append_assoc, List.singleton_append]

theorem arrange_eq_listing {bound : Nat} {placed : List Placed} {listing : List Token}
    (arranges : Arranges bound placed listing) : arrange [] placed = (.ok listing, []) := by
  have below : Below bound [] := by
    intro top member
    cases member
  obtain ⟨emitted, operators, pending, listed, run⟩ := arranges [] below
  have ended := run []
  rw [List.append_nil, List.append_nil, arrange,
    release_front (not_opening_of_pending pending)] at ended
  rw [ended, ← listed]
  rfl

namespace Converter

def after (converter : Converter) : List (List Char) → Converter
  | [] => converter
  | pattern :: rest => (converter.convert pattern).2.after rest

theorem convert_of_read {pattern : List Char} {tokens : List Token}
    (read : Token.read pattern = .ok tokens) (converter : Converter) :
    converter.convert pattern = (fresh.fill tokens).run := by
  rw [convert, read]
  rfl

theorem convert_of_unread {pattern : List Char} {malformed : Malformed}
    (unread : Token.read pattern = .error malformed) (converter : Converter) :
    converter.convert pattern = (.error malformed, converter) := by
  rw [convert, unread]

theorem after_eq_of_read {patterns : List (List Char)}
    (some : ∃ pattern ∈ patterns, ∃ tokens, Token.read pattern = .ok tokens)
    (converter other : Converter) : converter.after patterns = other.after patterns := by
  induction patterns generalizing converter other with
  | nil =>
    obtain ⟨pattern, member, _⟩ := some
    cases member
  | cons pattern rest ih =>
    cases read : Token.read pattern with
    | ok tokens => rw [after, after, convert_of_read read, convert_of_read read]
    | error malformed =>
      -- the buffers pass this pattern untouched, so a later one has to replace them
      rw [after, after, convert_of_unread read, convert_of_unread read]
      apply ih
      obtain ⟨other, member, tokens, reads⟩ := some
      rcases List.mem_cons.mp member with same | later
      · cases (same ▸ reads).symm.trans read
      · exact ⟨other, later, tokens, reads⟩

/-- Whatever its buffers held at the start, a converter gives for each pattern of a row what a fresh
one gives for that pattern alone. Of the start nothing is left once one pattern had tokens. -/
theorem convertAll_forgets (patterns : List (List Char)) :
    (∀ converter : Converter, converter.convertAll patterns = patterns.map postorder) ∧
      ((∃ pattern ∈ patterns, ∃ tokens, Token.read pattern = .ok tokens) →
        ∀ converter other : Converter, converter.after patterns = other.after patterns) := by
  refine ⟨fun converter => ?_, after_eq_of_read⟩
  induction patterns generalizing converter with
  | nil => rfl
  | cons pattern rest ih =>
    change (converter.convert pattern).1 :: (converter.convert pattern).2.convertAll rest = _
    rw [convert_buffers_irrelevant, ih, List.map_cons]

/-- A foreign character, a parenthesis that stays open and one that closes nothing, one after
another. -/
theorem convertAll_forgets_failures :
    (∃ pattern ∈ [['a', '+'], ['a', '|', '(', 'b'], ['c', ')', 'd']], ∃ tokens,
      Token.read pattern = .ok tokens) ∧
    (∀ converter : Converter,
      converter.convertAll [['a', '+'], ['a', '|', '(', 'b'], ['c', ')', 'd']] =
        [.error (.unsupportedCharacter '+' 1), .error (.unbalancedParenthesis 2),
          .error (.unbalancedParenthesis 1)]) ∧
    ∀ converter other : Converter,
      converter.after [['a', '+'], ['a', '|', '(', 'b'], ['c', ')', 'd']] =
        other.after [['a', '+'], ['a', '|', '(', 'b'], ['c', ')', 'd']] := by
  have readable : ∃ pattern ∈ [['a', '+'], ['a', '|', '(', 'b'], ['c', ')', 'd']], ∃ tokens,
      Token.read pattern = .ok tokens := ⟨['c', ')', 'd'], by decide, _, rfl⟩
  obtain ⟨results, buffers⟩ :=
    convertAll_forgets [['a', '+'], ['a', '|', '(', 'b'], ['c', ')', 'd']]
  exact ⟨readable, results, buffers readable⟩

end Converter

end Recognizer.Pattern
