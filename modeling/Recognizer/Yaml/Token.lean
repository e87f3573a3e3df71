import Recognizer.Yaml.Source

/-!
The tokens of a document, and those among them that are read from their characters alone: names,
tags and directives. A tag is a row of bytes, as its escapes stand for bytes that need not be text;
it ends before its first null byte.
-/

namespace Recognizer.Yaml

def asciiBytes (text : List Char) : List UInt8 :=
  text.map fun character => UInt8.ofNat character.toNat

inductive Token where
  | versionDirective (major minor : Nat)
  | tagDirective (handle : List Char) (stem : List UInt8)
  | documentStart
  | documentEnd
  | blockSequenceStart
  | blockMappingStart
  | blockEnd
  | flowSequenceStart
  | flowSequenceEnd
  | flowMappingStart
  | flowMappingEnd
  | blockEntry
  | flowEntry
  | key
  | value
  | reference (name : List Char)
  | anchor (name : List Char)
  | tag (handle : List Char) (suffix : List UInt8)
  | scalar (text : List Char) (plain : Bool)
  deriving DecidableEq

namespace Token

def name? (spots : List Spot) : Option (List Char × List Spot) :=
  let name := chars (spots.takeWhile (isWord ·.char))
  let rest := spots.dropWhile (isWord ·.char)
  let ends := endsWord rest || rest.head?.any fun spot => spot.char ∈ "?:,]\x7d%@`".toList
  if name ≠ [] && ends then some (name, rest) else none

def byteCount? (first : UInt8) : Option Nat :=
  if first < 0x80 then some 1
  else if 0xC0 ≤ first && first < 0xE0 then some 2
  else if 0xE0 ≤ first && first < 0xF0 then some 3
  else if 0xF0 ≤ first && first < 0xF8 then some 4
  else none

def escapedByte? (spots : List Spot) : Option (UInt8 × List Spot) :=
  match spots with
  | percent :: high :: low :: rest =>
    if percent.char = '%' then
      match digit? 16 high.char, digit? 16 low.char with
      | some high, some low => some (UInt8.ofNat (high * 16 + low), rest)
      | _, _ => none
    else none
  | _ => none

def escapedBytes? : Nat → List Spot → Option (List UInt8 × List Spot)
  | 0, spots => some ([], spots)
  | count + 1, spots =>
    match escapedByte? spots with
    | none => none
    | some (byte, rest) =>
      if 0x80 ≤ byte && byte < 0xC0 then
        (escapedBytes? count rest).map fun (bytes, after) => (byte :: bytes, after)
      else none

def escape? (spots : List Spot) : Option (List UInt8 × List Spot) :=
  match escapedByte? spots with
  | none => none
  | some (first, rest) =>
    match byteCount? first with
    | none => none
    | some count =>
      (escapedBytes? (count - 1) rest).map fun (bytes, after) => (first :: bytes, after)

/-- The characters of addresses; a full address may hold some that end an item inside brackets. -/
def isAddress (full : Bool) (character : Char) : Bool :=
  isWord character || character ∈ ";/?:@&=+$.!~*'()".toList ||
    (full && (character = ',' || character = '[' || character = ']'))

def addressFrom? (full : Bool) : Nat → List Spot → Option (List UInt8 × List Spot)
  | 0, spots => some ([], spots)
  | _ + 1, [] => some ([], [])
  | steps + 1, spot :: rest =>
    if spot.char = '%' then
      match escape? (spot :: rest) with
      | none => none
      | some (bytes, after) =>
        (addressFrom? full steps after).map fun (more, last) => (bytes ++ more, last)
    else if isAddress full spot.char then
      (addressFrom? full steps rest).map fun (more, last) =>
        (asciiBytes [spot.char] ++ more, last)
    else some ([], spot :: rest)

def address? (full : Bool) (spots : List Spot) : Option (List UInt8 × List Spot) :=
  addressFrom? full spots.length spots

def handle (spots : List Spot) : List Char × List Spot :=
  let name := (spots.drop 1).takeWhile (isWord ·.char)
  let rest := (spots.drop 1).dropWhile (isWord ·.char)
  if startsWith '!' rest then (chars (spots.take 1 ++ name ++ rest.take 1), rest.drop 1)
  else (chars (spots.take 1 ++ name), rest)

def isClosedHandle (handle : List Char) : Bool :=
  2 ≤ handle.length && handle.getLast? = some '!'

def beforeNull (bytes : List UInt8) : List UInt8 := bytes.takeWhile (· ≠ 0)

def tagParts? (spots : List Spot) : Option ((List Char × List UInt8) × List Spot) :=
  if startsWith '<' (spots.drop 1) then
    match address? true (spots.drop 2) with
    | none => none
    | some (suffix, rest) =>
      if suffix ≠ [] && startsWith '>' rest then some (([], beforeNull suffix), rest.drop 1)
      else none
  else
    let (handle, rest) := handle spots
    match address? false rest with
    | none => none
    | some (suffix, after) =>
      if isClosedHandle handle then
        if suffix = [] then none else some ((handle, beforeNull suffix), after)
      else
        match beforeNull (asciiBytes (handle.drop 1) ++ suffix) with
        | [] => some (([], asciiBytes ['!']), after)
        | whole => some ((['!'], whole), after)

def tag? (inFlow : Bool) (spots : List Spot) : Option (Token × List Spot) :=
  match tagParts? spots with
  | none => none
  | some ((handle, suffix), rest) =>
    if endsWord rest || (inFlow && startsWith ',' rest) then some (.tag handle suffix, rest)
    else none

def versionNumber? (spots : List Spot) : Option (Nat × List Spot) :=
  let digits := chars (spots.takeWhile (·.char.isDigit))
  if 9 < digits.length then none
  else (natural? 10 digits).map fun number => (number, spots.dropWhile (·.char.isDigit))

def version? (spots : List Spot) : Option (Token × List Spot) :=
  match versionNumber? (skipBlanks spots) with
  | none => none
  | some (major, rest) =>
    if startsWith '.' rest then
      (versionNumber? (rest.drop 1)).map fun (minor, after) =>
        (.versionDirective major minor, after)
    else none

def startsBlank (spots : List Spot) : Bool := spots.head?.any (isBlank ·.char)

def tagDeclaration? (spots : List Spot) : Option (Token × List Spot) :=
  let spots := skipBlanks spots
  let (handle, rest) := handle spots
  if startsWith '!' spots && (isClosedHandle handle || handle = ['!']) && startsBlank rest then
    match address? true (skipBlanks rest) with
    | none => none
    | some (stem, after) =>
      if stem ≠ [] && endsWord after then some (.tagDirective handle (beforeNull stem), after)
      else none
  else none

def directive? (spots : List Spot) : Option (Token × List Spot) :=
  let name := chars (spots.takeWhile (isWord ·.char))
  let rest := spots.dropWhile (isWord ·.char)
  let read :=
    if !endsWord rest then none
    else if name = "YAML".toList then version? rest
    else if name = "TAG".toList then tagDeclaration? rest
    else none
  match read with
  | none => none
  | some (token, after) => (afterLine? after).map fun last => (token, last)

end Token

end Recognizer.Yaml
