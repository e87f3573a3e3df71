import Recognizer.Yaml.Scalar
import Recognizer.Yaml.Token

/-!
From the characters of a document to its tokens. Indentation opens and closes collections outside
brackets. What may turn out to be a key is remembered until a colon follows: then the key token goes
before it, and the start of a mapping before that, if its column opens one. A key must end on its
line and within 1024 bytes; where only a key can stand, it is an error if none does.
-/

namespace Recognizer.Yaml

structure Candidate where
  required : Bool
  number : Nat
  spot : Spot

structure Scan where
  /-- The latest token is first. -/
  tokens : List Token
  count : Nat
  /-- The columns of the open collections outside brackets, the innermost first. -/
  columns : List Nat
  candidate : Option Candidate
  /-- One for every open bracket: the candidate outside it. -/
  outer : List (Option Candidate)
  keyAllowed : Bool

namespace Scan

def initial : Scan := ⟨[], 0, [], none, [], true⟩

def inFlow (scan : Scan) : Bool := !scan.outer.isEmpty

/-- One more than the column of the innermost collection, and zero outside all. -/
def depth (scan : Scan) : Nat :=
  match scan.columns with
  | [] => 0
  | column :: _ => column + 1

def emit (scan : Scan) (token : Token) : Scan :=
  { scan with tokens := token :: scan.tokens, count := scan.count + 1 }

def insertAt (scan : Scan) (number : Nat) (added : List Token) : Scan :=
  let (later, earlier) := scan.tokens.splitAt (scan.count - number)
  { scan with
    tokens := later ++ added ++ earlier
    count := scan.count + added.length }

def allowKey (scan : Scan) (allowed : Bool) : Scan := { scan with keyAllowed := allowed }

def dropCandidate? (scan : Scan) : Option Scan :=
  if scan.candidate.any Candidate.required then none
  else some { scan with candidate := none }

def saveCandidate? (scan : Scan) (spot : Spot) : Option Scan :=
  if scan.keyAllowed then
    scan.dropCandidate?.map fun dropped =>
      { dropped with
        candidate := some
          { required := !scan.inFlow && scan.depth = spot.column + 1
            number := scan.count
            spot := spot } }
  else some scan

def isStale (here : Spot) (candidate : Candidate) : Bool :=
  candidate.spot.line < here.line || candidate.spot.offset + 1024 < here.offset

def expired? (here : Spot) (candidate : Option Candidate) : Option (Option Candidate) :=
  match candidate with
  | none => some none
  | some candidate =>
    if isStale here candidate then if candidate.required then none else some none
    else some (some candidate)

def expire? (scan : Scan) (here : Spot) : Option Scan :=
  match expired? here scan.candidate, scan.outer.mapM (expired? here) with
  | some candidate, some outer => some { scan with candidate := candidate, outer := outer }
  | _, _ => none

def closeFrom (limit : Nat) : List Nat → List Token → Nat → List Nat × List Token × Nat
  | [], tokens, count => ([], tokens, count)
  | column :: columns, tokens, count =>
    if limit ≤ column then closeFrom limit columns (.blockEnd :: tokens) (count + 1)
    else (column :: columns, tokens, count)

def unrollTo (scan : Scan) (limit : Nat) : Scan :=
  if scan.inFlow then scan
  else
    let (columns, tokens, count) := closeFrom limit scan.columns scan.tokens scan.count
    { scan with columns := columns, tokens := tokens, count := count }

def roll (scan : Scan) (column number : Nat) (start : Token) : Scan :=
  if scan.inFlow || column + 1 ≤ scan.depth then scan
  else { scan.insertAt number [start] with columns := column :: scan.columns }

/-- Skips blanks, comments and line ends. Outside brackets a tab may not come where a key may, and a
line end allows a key. A byte order mark may start a line, where it takes a column. -/
def toNext (inFlow keyAllowed inComment : Bool) : List Spot → Bool × List Spot
  | [] => (keyAllowed, [])
  | spot :: rest =>
    if isBreak spot.char then toNext inFlow (keyAllowed || !inFlow) false rest
    else if inComment then toNext inFlow keyAllowed true rest
    else if spot.column = 0 && spot.char = byteOrderMark then toNext inFlow keyAllowed false rest
    else if spot.char = ' ' || ((inFlow || !keyAllowed) && spot.char = '\t') then
      toNext inFlow keyAllowed false rest
    else if spot.char = '#' then toNext inFlow keyAllowed true rest
    else (keyAllowed, spot :: rest)

def marker? (scan : Scan) (token : Token) (rest : List Spot) : Option (Scan × List Spot) :=
  (scan.unrollTo 0).dropCandidate?.map fun dropped =>
    ((dropped.emit token).allowKey false, rest.drop 3)

def directive? (scan : Scan) (rest : List Spot) : Option (Scan × List Spot) :=
  match (scan.unrollTo 0).dropCandidate?, Token.directive? rest with
  | some dropped, some (token, after) => some ((dropped.emit token).allowKey false, after)
  | _, _ => none

def openBracket? (scan : Scan) (spot : Spot) (token : Token) (rest : List Spot) :
    Option (Scan × List Spot) :=
  (scan.saveCandidate? spot).map fun saved =>
    ({ saved.emit token with
      candidate := none
      outer := saved.candidate :: saved.outer
      keyAllowed := true }, rest)

def closeBracket? (scan : Scan) (token : Token) (rest : List Spot) : Option (Scan × List Spot) :=
  scan.dropCandidate?.map fun dropped =>
    let closed := match dropped.outer with
      | [] => dropped
      | candidate :: outer => { dropped with candidate := candidate, outer := outer }
    ((closed.emit token).allowKey false, rest)

def flowEntry? (scan : Scan) (rest : List Spot) : Option (Scan × List Spot) :=
  scan.dropCandidate?.map fun dropped => ((dropped.emit .flowEntry).allowKey true, rest)

def indicator? (scan : Scan) (spot : Spot) (start : Token) : Option Scan :=
  if scan.inFlow then some scan
  else if scan.keyAllowed then some (scan.roll spot.column scan.count start)
  else none

def blockEntry? (scan : Scan) (spot : Spot) (rest : List Spot) : Option (Scan × List Spot) :=
  match scan.indicator? spot .blockSequenceStart with
  | none => none
  | some rolled =>
    rolled.dropCandidate?.map fun dropped => ((dropped.emit .blockEntry).allowKey true, rest)

def key? (scan : Scan) (spot : Spot) (rest : List Spot) : Option (Scan × List Spot) :=
  match scan.indicator? spot .blockMappingStart with
  | none => none
  | some rolled =>
    rolled.dropCandidate?.map fun dropped => ((dropped.emit .key).allowKey (!scan.inFlow), rest)

def value? (scan : Scan) (spot : Spot) (rest : List Spot) : Option (Scan × List Spot) :=
  match scan.candidate with
  | some candidate =>
    let keyed := scan.insertAt candidate.number [.key]
    let rolled := keyed.roll candidate.spot.column candidate.number .blockMappingStart
    some (({ rolled with candidate := none }.emit .value).allowKey false, rest)
  | none =>
    (scan.indicator? spot .blockMappingStart).map fun rolled =>
      ((rolled.emit .value).allowKey (!scan.inFlow), rest)

def content? (scan : Scan) (spot : Spot) (read : Option (Token × List Spot)) :
    Option (Scan × List Spot) :=
  match scan.saveCandidate? spot, read with
  | some saved, some (token, rest) => some ((saved.emit token).allowKey false, rest)
  | _, _ => none

def indented? (scan : Scan) (folded : Bool) (rest : List Spot) : Option (Scan × List Spot) :=
  match scan.dropCandidate?, Indented.read? folded scan.depth rest with
  | some dropped, some (text, after) =>
    some ((dropped.emit (.scalar text false)).allowKey true, after)
  | _, _ => none

def plain? (scan : Scan) (spot : Spot) (rest : List Spot) : Option (Scan × List Spot) :=
  match scan.saveCandidate? spot, Plain.read? scan.inFlow scan.depth (spot :: rest) with
  | some saved, some reading =>
    some ((saved.emit (.scalar reading.text true)).allowKey reading.broken, reading.rest)
  | _, _ => none

def startsPlain (inFlow : Bool) (spot : Spot) (rest : List Spot) : Bool :=
  if spot.char = '-' then !(rest.head?.any (isBlank ·.char))
  else if spot.char = '?' || spot.char = ':' then !inFlow && !endsWord rest
  else !(isBlank spot.char || spot.char ∈ ",[]\x7b\x7d#&*!|>'\"%@`".toList)

def token? (scan : Scan) (spot : Spot) (rest : List Spot) : Option (Scan × List Spot) :=
  let inFlow := scan.inFlow
  let indicates := inFlow || endsWord rest
  if spot.column = 0 && spot.char = '%' then scan.directive? rest
  else if startsMarker '-' (spot :: rest) then scan.marker? .documentStart (spot :: rest)
  else if startsMarker '.' (spot :: rest) then scan.marker? .documentEnd (spot :: rest)
  else if spot.char = '[' then scan.openBracket? spot .flowSequenceStart rest
  else if spot.char = '\x7b' then scan.openBracket? spot .flowMappingStart rest
  else if spot.char = ']' then scan.closeBracket? .flowSequenceEnd rest
  else if spot.char = '\x7d' then scan.closeBracket? .flowMappingEnd rest
  else if spot.char = ',' then scan.flowEntry? rest
  else if spot.char = '-' && endsWord rest then scan.blockEntry? spot rest
  else if spot.char = '?' && indicates then scan.key? spot rest
  else if spot.char = ':' && indicates then scan.value? spot rest
  else if spot.char = '*' then
    scan.content? spot ((Token.name? rest).map fun (name, after) => (.reference name, after))
  else if spot.char = '&' then
    scan.content? spot ((Token.name? rest).map fun (name, after) => (.anchor name, after))
  else if spot.char = '!' then scan.content? spot (Token.tag? inFlow (spot :: rest))
  else if spot.char = '|' && !inFlow then scan.indented? false rest
  else if spot.char = '>' && !inFlow then scan.indented? true rest
  else if spot.char = '\'' || spot.char = '"' then
    scan.content? spot ((Quoted.read? spot.char rest).map fun (text, after) =>
      (.scalar text false, after))
  else if startsPlain inFlow spot rest then scan.plain? spot rest
  else none

def finish? (scan : Scan) : Option (List Token) :=
  (scan.unrollTo 0).dropCandidate?.map fun done => done.tokens.reverse

def run? : Nat → Scan → List Spot → Option (List Token)
  | 0, _, _ => none
  | steps + 1, scan, spots =>
    match toNext scan.inFlow scan.keyAllowed false spots with
    | (keyAllowed, []) => (scan.allowKey keyAllowed).finish?
    | (keyAllowed, spot :: rest) =>
      match (scan.allowKey keyAllowed).expire? spot with
      | none => none
      | some current =>
        match (current.unrollTo (spot.column + 1)).token? spot rest with
        | none => none
        | some (next, after) => run? steps next after

end Scan

def Token.scan? (text : List Char) : Option (List Token) :=
  match spots? text with
  | none => none
  | some spots => Scan.run? (spots.length + 1) Scan.initial spots

end Recognizer.Yaml
