import Recognizer.Pattern.Syntax

/-!
Patterns in postorder. A concatenation operator goes wherever one operand follows another, and
carries the position of the operand on its right. Then operators wait on a stack until the next
operator binds less tightly, their group closes, or the pattern ends. A converter keeps its buffers
from one pattern to the next; nothing of them enters the next conversion.
-/

namespace Recognizer.Pattern

structure Placed where
  token : Token
  position : Nat
  deriving DecidableEq

def placedFrom (position : Nat) : List Token → List Placed
  | [] => []
  | token :: rest => ⟨token, position⟩ :: placedFrom (position + 1) rest

def insertConcats : List Placed → List Placed
  | [] => []
  | [last] => [last]
  | left :: right :: rest =>
    if left.token.endsOperand && right.token.startsOperand then
      left :: ⟨.concat, right.position⟩ :: insertConcats (right :: rest)
    else
      left :: insertConcats (right :: rest)

/-- What a closing parenthesis releases: the operators above the latest opening one, and the stack
below it. -/
def closeGroup : List Placed → Option (List Token × List Placed)
  | [] => none
  | top :: below =>
    if top.token = .opening then some ([], below)
    else (closeGroup below).map fun (released, rest) => (top.token :: released, rest)

/-- An operator on the stack goes before one that does not bind more tightly. -/
def yields (next : Token) (top : Placed) : Bool :=
  top.token.isOperator && next.tightness ≤ top.token.tightness

def release : List Placed → Except Malformed (List Token) × List Placed
  | [] => (.ok [], [])
  | top :: below =>
    if top.token = .opening then (.error (.unbalancedParenthesis top.position), below)
    else
      let (released, left) := release below
      (released.map (top.token :: ·), left)

/-- Reads placed tokens over a stack of waiting ones, and returns the stack as it was left. -/
def arrange (waiting : List Placed) : List Placed → Except Malformed (List Token) × List Placed
  | [] => release waiting
  | next :: rest =>
    match next.token with
    | .literal symbol =>
      let (arranged, left) := arrange waiting rest
      (arranged.map (.literal symbol :: ·), left)
    | .opening => arrange (next :: waiting) rest
    | .closing =>
      match closeGroup waiting with
      | none => (.error (.unbalancedParenthesis next.position), [])
      | some (released, below) =>
        let (arranged, left) := arrange below rest
        (arranged.map (released ++ ·), left)
    | .star | .concat | .union =>
      let released := (waiting.takeWhile (yields next.token)).map Placed.token
      let (arranged, left) := arrange (next :: waiting.dropWhile (yields next.token)) rest
      (arranged.map (released ++ ·), left)

structure Converter where
  buffer : List Placed
  waiting : List Placed

namespace Converter

def fresh : Converter := ⟨[], []⟩

def emptyBuffer (converter : Converter) : Converter := { converter with buffer := [] }

def emptyStack (converter : Converter) : Converter := { converter with waiting := [] }

def fill (converter : Converter) (tokens : List Token) : Converter :=
  { converter with buffer := converter.buffer ++ insertConcats (placedFrom 0 tokens) }

def run (converter : Converter) : Except Malformed (List Token) × Converter :=
  let (arranged, left) := arrange converter.waiting converter.buffer
  (arranged, { converter with waiting := left })

/-- A pattern without tokens leaves both buffers as they were. -/
def convert (converter : Converter) (pattern : List Char) :
    Except Malformed (List Token) × Converter :=
  match Token.read pattern with
  | .error malformed => (.error malformed, converter)
  | .ok tokens => (converter.emptyBuffer.fill tokens).emptyStack.run

def convertAll (converter : Converter) :
    List (List Char) → List (Except Malformed (List Token))
  | [] => []
  | pattern :: rest =>
    let (arranged, after) := converter.convert pattern
    arranged :: convertAll after rest

end Converter

def postorder (pattern : List Char) : Except Malformed (List Token) :=
  (Converter.fresh.convert pattern).1

theorem position_placedFrom {position : Nat} {tokens : List Token} {placed : Placed}
    (member : placed ∈ placedFrom position tokens) :
    position ≤ placed.position ∧ placed.position < position + tokens.length := by
  induction tokens generalizing position with
  | nil => cases member
  | cons token rest ih =>
    rcases List.mem_cons.mp member with rfl | later
    · simp
    · have bounds := ih later
      simp only [List.length_cons]
      omega

theorem convert_buffers_irrelevant (converter : Converter) (pattern : List Char) :
    (converter.convert pattern).1 = postorder pattern := by
  unfold postorder Converter.convert
  cases Token.read pattern <;> rfl

end Recognizer.Pattern
