import Recognizer.Text

/-!
Patterns and the words they match. Letters and digits of ASCII stand for themselves, three
characters are operators and two group; a pattern that holds any other character has no tokens. Each
character is one token, so a token's place in the list is its character's position in the pattern.
The grammar relates the tokens of a pattern to the expression tree that they are read as: a star
binds tighter than a concatenation and a concatenation tighter than a union, both of them grouping
to the left, and a concatenation is written with or without its operator. A tree is listed in
postorder, operands before their operator.
-/

namespace Recognizer.Pattern

inductive Malformed where
  | unsupportedCharacter (symbol : Char) (position : Nat)
  | unbalancedParenthesis (position : Nat)
  | missingOperand (operator : Char) (position : Nat)
  | danglingOperands (count : Nat)
  | emptyExpression
  deriving DecidableEq

namespace Malformed

def message : Malformed → String
  | unsupportedCharacter symbol position =>
    s!"unsupported character {Text.quotedSymbol symbol} at position {position}"
  | unbalancedParenthesis position => s!"unbalanced parenthesis at position {position}"
  | missingOperand operator position =>
    s!"operator '{operator}' at position {position} is missing an operand"
  | danglingOperands count => s!"{count} fragments left after the last operator"
  | emptyExpression => "empty expression"

end Malformed

inductive Token where
  | literal (symbol : Char)
  | star
  | concat
  | union
  | opening
  | closing
  deriving DecidableEq

namespace Token

def ofChar? (character : Char) : Option Token :=
  match character with
  | '*' => some star
  | '.' => some concat
  | '|' => some union
  | '(' => some opening
  | ')' => some closing
  | _ => if character.isAlphanum then some (literal character) else none

def toChar : Token → Char
  | literal symbol => symbol
  | star => '*'
  | concat => '.'
  | union => '|'
  | opening => '('
  | closing => ')'

def isOperator : Token → Bool
  | star | concat | union => true
  | literal _ | opening | closing => false

def tightness : Token → Nat
  | star => 3
  | concat => 2
  | union => 1
  | literal _ | opening | closing => 0

def endsOperand : Token → Bool
  | literal _ | closing | star => true
  | concat | union | opening => false

def startsOperand : Token → Bool
  | literal _ | opening => true
  | star | concat | union | closing => false

def readFrom (position : Nat) : List Char → Except Malformed (List Token)
  | [] => .ok []
  | character :: rest =>
    match ofChar? character with
    | some token => (readFrom (position + 1) rest).map (token :: ·)
    | none => .error (.unsupportedCharacter character position)

def read (text : List Char) : Except Malformed (List Token) := readFrom 0 text

def text (tokens : List Token) : List Char := tokens.map toChar

theorem toChar_of_ofChar? {character : Char} {token : Token}
    (found : ofChar? character = some token) : token.toChar = character := by
  unfold ofChar? at found
  split at found
  all_goals first
    | (cases found; rfl)
    | (split at found <;> cases found; rfl)

theorem readFrom_ok_iff {position : Nat} {text : List Char} {tokens : List Token} :
    readFrom position text = .ok tokens ↔ text.map ofChar? = tokens.map some := by
  induction text generalizing position tokens with
  | nil => cases tokens <;> simp [readFrom]
  | cons character rest ih =>
    unfold readFrom
    cases found : ofChar? character with
    | none => cases tokens <;> simp [found]
    | some token =>
      cases tokens with
      | nil => cases readFrom (position + 1) rest <;> simp [Except.map]
      | cons first others =>
        rw [List.map_cons, List.map_cons, List.cons.injEq, ← @ih (position + 1) others, found]
        cases readFrom (position + 1) rest <;> simp [Except.map]

theorem read_ok_iff {characters : List Char} {tokens : List Token} :
    read characters = .ok tokens ↔ characters.map ofChar? = tokens.map some :=
  readFrom_ok_iff

theorem text_of_read {characters : List Char} {tokens : List Token}
    (done : read characters = .ok tokens) : text tokens = characters := by
  have same := read_ok_iff.mp done
  induction characters generalizing tokens with
  | nil => cases tokens <;> simp_all [text]
  | cons character rest ih =>
    cases tokens with
    | nil => simp at same
    | cons token others =>
      rw [List.map_cons, List.map_cons, List.cons.injEq] at same
      have tail := ih (read_ok_iff.mpr same.2) same.2
      simpa [text, toChar_of_ofChar? same.1] using tail

end Token

inductive Tree where
  | literal (symbol : Char)
  | union (left right : Tree)
  | concat (left right : Tree)
  | star (inner : Tree)
  deriving DecidableEq

namespace Tree

def postorder : Tree → List Token
  | literal symbol => [.literal symbol]
  | union left right => left.postorder ++ right.postorder ++ [.union]
  | concat left right => left.postorder ++ right.postorder ++ [.concat]
  | star inner => inner.postorder ++ [.star]

inductive Matches : Tree → List Char → Prop
  | literal (symbol : Char) : Matches (.literal symbol) [symbol]
  | left {first second : Tree} {word : List Char} :
      Matches first word → Matches (.union first second) word
  | right {first second : Tree} {word : List Char} :
      Matches second word → Matches (.union first second) word
  | concat {first second : Tree} {front back : List Char} :
      Matches first front → Matches second back → Matches (.concat first second) (front ++ back)
  | starEmpty (inner : Tree) : Matches (.star inner) []
  | starMore {inner : Tree} {front back : List Char} :
      Matches inner front → Matches (.star inner) back → Matches (.star inner) (front ++ back)

end Tree

/-- The levels of the grammar, loosest first. -/
inductive Level where
  | union
  | concat
  | factor
  | atom
  deriving DecidableEq

inductive Derives : Level → List Token → Tree → Prop
  | literal {symbol : Char} : symbol.isAlphanum = true →
      Derives .atom [.literal symbol] (.literal symbol)
  | group {tokens : List Token} {tree : Tree} :
      Derives .union tokens tree → Derives .atom (.opening :: tokens ++ [.closing]) tree
  | atom {tokens : List Token} {tree : Tree} :
      Derives .atom tokens tree → Derives .factor tokens tree
  | star {tokens : List Token} {tree : Tree} :
      Derives .factor tokens tree → Derives .factor (tokens ++ [.star]) (.star tree)
  | factor {tokens : List Token} {tree : Tree} :
      Derives .factor tokens tree → Derives .concat tokens tree
  | beside {front back : List Token} {left right : Tree} :
      Derives .concat front left → Derives .factor back right →
        Derives .concat (front ++ back) (.concat left right)
  | dotted {front back : List Token} {left right : Tree} :
      Derives .concat front left → Derives .factor back right →
        Derives .concat (front ++ .concat :: back) (.concat left right)
  | concat {tokens : List Token} {tree : Tree} :
      Derives .concat tokens tree → Derives .union tokens tree
  | union {front back : List Token} {left right : Tree} :
      Derives .union front left → Derives .concat back right →
        Derives .union (front ++ .union :: back) (.union left right)

end Recognizer.Pattern
