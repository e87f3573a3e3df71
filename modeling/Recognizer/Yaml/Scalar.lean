import Recognizer.Yaml.Source

/-!
Scalars over several lines: plain ones, those between quotes, and those set off by their
indentation. In the first two, gaps stand between words. A gap within a line is kept as it is; one
that holds line ends loses its blanks, and becomes a space if it has a single line feed and the
further line ends otherwise. An indented scalar that is literal keeps its line ends; a folded one
joins two lines with a space unless one of them begins with a blank, and keeps the line ends of
empty lines. What is kept after the last line is up to its header.
-/

namespace Recognizer.Yaml

inductive Gap where
  | inline (blanks : List Char)
  | broken (first : List Char) (later : List Char)
  deriving DecidableEq

namespace Gap

def text : Gap → List Char
  | inline blanks => blanks
  | broken first later =>
    if first = ['\n'] then if later = [] then [' '] else later else first ++ later

def isBroken : Gap → Bool
  | inline _ => false
  | broken _ _ => true

def laterBreaks? (forbidden : Spot → Bool) : List Spot → Option (List Char × List Spot)
  | [] => some ([], [])
  | spot :: rest =>
    if isBlank spot.char then
      if forbidden spot then none else laterBreaks? forbidden rest
    else if isBreak spot.char then
      (laterBreaks? forbidden rest).map fun (breaks, after) => (spot.char :: breaks, after)
    else some ([], spot :: rest)

def read? (forbidden : Spot → Bool) (spots : List Spot) : Option (Gap × List Spot) :=
  let blanks := spots.takeWhile (isBlank ·.char)
  match skipBlanks spots with
  | [] => some (inline (chars blanks), [])
  | spot :: rest =>
    if isBreak spot.char then
      (laterBreaks? forbidden rest).map fun (later, after) => (broken [spot.char] later, after)
    else some (inline (chars blanks), spot :: rest)

end Gap

namespace Plain

def endsInFlow (character : Char) : Bool :=
  character = ',' || character = '[' || character = ']' || character = '\x7b' ||
    character = '\x7d'

/-- A colon before one of these is an error inside brackets. -/
def clashesInFlow (spots : List Spot) : Bool :=
  match spots with
  | [] => false
  | spot :: _ => endsInFlow spot.char || spot.char = '?'

/-- A word of a plain scalar: up to a blank, a line end, a colon that ends a word, or inside
brackets one of their characters. -/
def word? (inFlow : Bool) : List Spot → Option (List Char × List Spot)
  | [] => some ([], [])
  | spot :: rest =>
    if isBlank spot.char || isBreak spot.char then some ([], spot :: rest)
    else if inFlow && spot.char = ':' && clashesInFlow rest then none
    else if (spot.char = ':' && endsWord rest) || (inFlow && endsInFlow spot.char) then
      some ([], spot :: rest)
    else (word? inFlow rest).map fun (word, after) => (spot.char :: word, after)

structure Reading where
  text : List Char
  /-- The scalar was followed by a line end, so that a key may begin after it. -/
  broken : Bool
  rest : List Spot

def outdented (inFlow : Bool) (depth : Nat) (spots : List Spot) : Bool :=
  !inFlow && (spots.head?.any fun spot => spot.column < depth)

def words? (inFlow : Bool) (depth : Nat) : Nat → Gap → List Spot → Option Reading
  | 0, gap, spots => some ⟨[], gap.isBroken, spots⟩
  | steps + 1, gap, spots =>
    if startsAnyMarker spots || startsWith '#' spots then some ⟨[], gap.isBroken, spots⟩
    else
      match word? inFlow spots with
      | none => none
      | some ([], rest) => some ⟨[], gap.isBroken, rest⟩
      | some (word, rest) =>
        match Gap.read? (fun spot => spot.char = '\t' && spot.column < depth) rest with
        | none => none
        | some (next, after) =>
          if next.isBroken && outdented inFlow depth after then
            some ⟨gap.text ++ word, true, after⟩
          else
            (words? inFlow depth steps next after).map fun reading =>
              { reading with text := gap.text ++ word ++ reading.text }

def read? (inFlow : Bool) (depth : Nat) (spots : List Spot) : Option Reading :=
  words? inFlow depth spots.length (.inline []) spots

end Plain

namespace Quoted

inductive Stop where
  | pause
  | escapedBreak
  deriving DecidableEq

structure Run where
  text : List Char
  stop : Stop
  rest : List Spot

def Run.cons (character : Char) (run : Run) : Run :=
  { run with text := character :: run.text }

/-- Between single quotes only the quote is special; a doubled one stands for itself. -/
def singleRun : List Spot → Run
  | [] => ⟨[], .pause, []⟩
  | [spot] =>
    if isBlank spot.char || isBreak spot.char || spot.char = '\'' then ⟨[], .pause, [spot]⟩
    else ⟨[spot.char], .pause, []⟩
  | spot :: next :: rest =>
    if isBlank spot.char || isBreak spot.char then ⟨[], .pause, spot :: next :: rest⟩
    else if spot.char = '\'' then
      if next.char = '\'' then (singleRun rest).cons '\''
      else ⟨[], .pause, spot :: next :: rest⟩
    else (singleRun (next :: rest)).cons spot.char

def escaped? (letter : Char) : Option Char :=
  match letter with
  | '0' => some '\x00'
  | 'a' => some '\x07'
  | 'b' => some '\x08'
  | 't' | '\t' => some '\t'
  | 'n' => some '\n'
  | 'v' => some '\x0b'
  | 'f' => some '\x0c'
  | 'r' => some '\r'
  | 'e' => some '\x1b'
  | ' ' | '"' | '/' | '\\' => some letter
  | 'N' => some '\x85'
  | '_' => some '\xa0'
  | 'L' => some '\u2028'
  | 'P' => some '\u2029'
  | _ => none

def escapeDigits? (letter : Char) : Option Nat :=
  match letter with
  | 'x' => some 2
  | 'u' => some 4
  | 'U' => some 8
  | _ => none

def ofCode? (code : Nat) : Option Char :=
  if code.isValidChar then some (Char.ofNat code) else none

/-- Reads a run between double quotes. In the middle of a numeric escape, `digits` are still to come
and `code` is the number so far. -/
def doubleRun? (digits code : Nat) : List Spot → Option Run
  | [] => if digits = 0 then some ⟨[], .pause, []⟩ else none
  | spot :: rest =>
    if digits = 0 then
      if isBlank spot.char || isBreak spot.char || spot.char = '"' then
        some ⟨[], .pause, spot :: rest⟩
      else if spot.char = '\\' then
        match rest with
        | [] => none
        | letter :: after =>
          if isBreak letter.char then some ⟨[], .escapedBreak, after⟩
          else
            match escaped? letter.char with
            | some character => (doubleRun? 0 0 after).map (Run.cons character)
            | none =>
              match escapeDigits? letter.char with
              | some count => doubleRun? count 0 after
              | none => none
      else (doubleRun? 0 0 rest).map (Run.cons spot.char)
    else
      match digit? 16 spot.char with
      | none => none
      | some digit =>
        if digits = 1 then
          match ofCode? (code * 16 + digit) with
          | some character => (doubleRun? 0 0 rest).map (Run.cons character)
          | none => none
        else doubleRun? (digits - 1) (code * 16 + digit) rest

def run? (quote : Char) (spots : List Spot) : Option Run :=
  if quote = '\'' then some (singleRun spots) else doubleRun? 0 0 spots

def gap? (run : Run) : Option (Gap × List Spot) :=
  match run.stop with
  | .pause => Gap.read? (fun _ => false) run.rest
  | .escapedBreak =>
    (Gap.laterBreaks? (fun _ => false) run.rest).map fun (later, after) =>
      (.broken [] later, after)

/-- Reads runs and gaps up to the closing quote. A document marker may not start a line here. -/
def runs? (quote : Char) : Nat → List Spot → Option (List Char × List Spot)
  | 0, _ => none
  | steps + 1, spots =>
    if startsAnyMarker spots || spots.isEmpty then none
    else
      match run? quote spots with
      | none => none
      | some run =>
        if run.stop = .pause && startsWith quote run.rest then
          some (run.text, run.rest.drop 1)
        else
          match gap? run with
          | none => none
          | some (gap, after) =>
            (runs? quote steps after).map fun (text, rest) =>
              (run.text ++ gap.text ++ text, rest)

def read? (quote : Char) (spots : List Spot) : Option (List Char × List Spot) :=
  runs? quote (spots.length + 1) spots

end Quoted

end Recognizer.Yaml

namespace Recognizer.Yaml.Indented

inductive Chomping where
  | strip
  | clip
  | keep
  deriving DecidableEq

structure Header where
  chomping : Chomping
  /-- The indentation of the lines over that of the collection around them, where it is given. -/
  increment : Option Nat

def chomping? (spots : List Spot) : Option Chomping :=
  match spots with
  | [] => none
  | spot :: _ =>
    if spot.char = '+' then some .keep else if spot.char = '-' then some .strip else none

def increment? (spots : List Spot) : Option Nat :=
  match spots with
  | [] => none
  | spot :: _ => if spot.char.isDigit then some (spot.char.toNat - '0'.toNat) else none

/-- Chomping and increment come in either order, each at most once; an increment is not zero. -/
def header? (spots : List Spot) : Option (Header × List Spot) :=
  let (header, rest) : Header × List Spot :=
    match chomping? spots, increment? spots with
    | some chomping, _ =>
      match increment? (spots.drop 1) with
      | some increment => (⟨chomping, some increment⟩, spots.drop 2)
      | none => (⟨chomping, none⟩, spots.drop 1)
    | none, some increment =>
      match chomping? (spots.drop 1) with
      | some chomping => (⟨chomping, some increment⟩, spots.drop 2)
      | none => (⟨.clip, some increment⟩, spots.drop 1)
    | none, none => (⟨.clip, none⟩, spots)
  if header.increment = some 0 then none
  else (afterLine? rest).map fun after => (header, after)

structure Leading where
  breaks : List Char
  /-- The widest column at which a line of spaces ended. -/
  widest : Nat
  rest : List Spot

/-- Reads indentation and the ends of empty lines. Without a known indentation all spaces at the
start of a line belong to it. A tab may not stand where indentation is due. -/
def leading? (indentation : Option Nat) (widest : Nat) : List Spot → Option Leading
  | [] => some ⟨[], widest, []⟩
  | spot :: rest =>
    let inside := indentation.all fun width => spot.column < width
    if inside && spot.char = ' ' then leading? indentation widest rest
    else if inside && spot.char = '\t' then none
    else if isBreak spot.char then
      (leading? indentation (max widest spot.column) rest).map fun leading =>
        { leading with breaks := spot.char :: leading.breaks }
    else some ⟨[], max widest spot.column, spot :: rest⟩

structure Line where
  ending : List Char
  startsBlank : Bool

def joint (folded : Bool) (before : Line) (empty : List Char) (startsBlank : Bool) : List Char :=
  let first :=
    if folded && before.ending = ['\n'] && !before.startsBlank && !startsBlank then
      if empty = [] then [' '] else []
    else before.ending
  first ++ empty

def tail (chomping : Chomping) (last : Line) (empty : List Char) : List Char :=
  match chomping with
  | .strip => []
  | .clip => last.ending
  | .keep => last.ending ++ empty

def lines? (folded : Bool) (chomping : Chomping) (indentation : Nat) :
    Nat → Line → Leading → Option (List Char × List Spot)
  | 0, before, leading => some (tail chomping before leading.breaks, leading.rest)
  | steps + 1, before, leading =>
    match leading.rest with
    | [] => some (tail chomping before leading.breaks, [])
    | spot :: others =>
      if spot.column = indentation then
        let content := (spot :: others).takeWhile (!isBreak ·.char)
        let rest := skipLine (spot :: others)
        let line : Line := ⟨chars (rest.take 1), isBlank spot.char⟩
        match leading? (some indentation) 0 (rest.drop 1) with
        | none => none
        | some next =>
          (lines? folded chomping indentation steps line next).map fun (text, after) =>
            (joint folded before leading.breaks line.startsBlank ++ chars content ++ text, after)
      else some (tail chomping before leading.breaks, spot :: others)

/-- Reads what follows the indicator of a literal or folded scalar. `depth` is one more than the
column of the collection around it, and zero outside all collections; where no indentation is given,
the first line that is not empty decides. -/
def read? (folded : Bool) (depth : Nat) (spots : List Spot) : Option (List Char × List Spot) :=
  match header? spots with
  | none => none
  | some (header, rest) =>
    let given := header.increment.map fun increment => depth - 1 + increment
    match leading? given 0 rest with
    | none => none
    | some leading =>
      let indentation := given.getD (max (max leading.widest depth) 1)
      lines? folded header.chomping indentation rest.length ⟨[], false⟩ leading

end Recognizer.Yaml.Indented
