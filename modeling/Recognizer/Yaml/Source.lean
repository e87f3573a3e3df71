/-!
The characters of a document with their places. A line ends at a line feed, a carriage return, both
together, or a next-line control, all of which are one line feed from here on; the line and
paragraph separators end a line too and stay themselves. A document holds printable characters only.
Lines and columns count characters, while lengths count bytes of UTF-8.
-/

namespace Recognizer.Yaml

structure Spot where
  char : Char
  /-- The number of bytes before the character. -/
  offset : Nat
  line : Nat
  column : Nat
  deriving DecidableEq

def byteOrderMark : Char := '\ufeff'

def isAllowed (character : Char) : Bool :=
  let code := character.toNat
  code = 0x09 || code = 0x0A || code = 0x0D || (0x20 ≤ code && code ≤ 0x7E) || code = 0x85 ||
    (0xA0 ≤ code && code ≤ 0xD7FF) || (0xE000 ≤ code && code ≤ 0xFFFD) || 0x10000 ≤ code

def isSeparator (character : Char) : Bool := character = '\u2028' || character = '\u2029'

def isBreak (character : Char) : Bool := character = '\n' || isSeparator character

def isBlank (character : Char) : Bool := character = ' ' || character = '\t'

def spotsFrom (offset line column : Nat) : List Char → List Spot
  | [] => []
  | '\r' :: '\n' :: rest =>
    ⟨'\n', offset, line, column⟩ :: spotsFrom (offset + 2) (line + 1) 0 rest
  | character :: rest =>
    let next := offset + character.utf8Size
    if character = '\n' || character = '\r' || character = '\x85' then
      ⟨'\n', offset, line, column⟩ :: spotsFrom next (line + 1) 0 rest
    else if isSeparator character then
      ⟨character, offset, line, column⟩ :: spotsFrom next (line + 1) 0 rest
    else
      ⟨character, offset, line, column⟩ :: spotsFrom next line (column + 1) rest

def spots? (text : List Char) : Option (List Spot) :=
  if text.all isAllowed then some (spotsFrom 0 0 0 text) else none

def chars (spots : List Spot) : List Char := spots.map Spot.char

def startsWith (character : Char) (spots : List Spot) : Bool :=
  (spots.head?.map Spot.char) = some character

def endsWord : List Spot → Bool
  | [] => true
  | spot :: _ => isBlank spot.char || isBreak spot.char

def endsLine : List Spot → Bool
  | [] => true
  | spot :: _ => isBreak spot.char

def startsMarker (mark : Char) (spots : List Spot) : Bool :=
  match spots with
  | first :: second :: third :: rest =>
    first.column = 0 && first.char = mark && second.char = mark && third.char = mark &&
      endsWord rest
  | _ => false

def startsAnyMarker (spots : List Spot) : Bool :=
  startsMarker '-' spots || startsMarker '.' spots

def isWord (character : Char) : Bool :=
  character.isAlphanum || character = '_' || character = '-'

def skipBlanks (spots : List Spot) : List Spot := spots.dropWhile (isBlank ·.char)

def skipLine (spots : List Spot) : List Spot := spots.dropWhile (!isBreak ·.char)

/-- What follows the rest of a line that holds nothing but blanks and a comment. -/
def afterLine? (spots : List Spot) : Option (List Spot) :=
  let rest := skipBlanks spots
  let rest := if startsWith '#' rest then skipLine rest else rest
  if endsLine rest then some (rest.drop 1) else none

def digit? (base : Nat) (character : Char) : Option Nat :=
  let value :=
    if '0' ≤ character && character ≤ '9' then character.toNat - '0'.toNat
    else if 'a' ≤ character && character ≤ 'f' then character.toNat - 'a'.toNat + 10
    else if 'A' ≤ character && character ≤ 'F' then character.toNat - 'A'.toNat + 10
    else base
  if value < base then some value else none

def ofDigits (base : Nat) (digits : List Nat) : Nat :=
  digits.foldl (fun number digit => number * base + digit) 0

def natural? (base : Nat) (text : List Char) : Option Nat :=
  if text = [] then none else (text.mapM (digit? base)).map (ofDigits base)

end Recognizer.Yaml
