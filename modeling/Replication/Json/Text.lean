import Replication.Bytes
import Replication.Json.Value

/-!
# JSON text

The reader takes a whole text: one value with blanks around it. Blanks are spaces, tabs, line
feeds and carriage returns. The writer leaves out all blanks.

A string is read as code units, whose pairs are joined; it is a text if no half of a pair is left.
A value that is illegible for want of this is skipped like any other. It has no text of its own
and is written as `null`.
-/

namespace Replication.Json

/-- The characters between the parts of a text. -/
def isBlank (c : Char) : Bool := c == ' ' || c == '\t' || c == '\n' || c == '\r'

/-- A text without the blanks at its start. -/
def skipBlanks (cs : List Char) : List Char := cs.dropWhile isBlank

/-- The value of four hexadecimal digits. -/
def hexUnit? (a b c d : Char) : Option Nat := do
  let a ← Bytes.hexValue? a
  let b ← Bytes.hexValue? b
  let c ← Bytes.hexValue? c
  let d ← Bytes.hexValue? d
  return ((a * 16 + b) * 16 + c) * 16 + d

/-- The character that stands after a backslash for another one. -/
def simpleEscape? : Char → Option Char
  | '"' => some '"'
  | '\\' => some '\\'
  | '/' => some '/'
  | 'b' => some '\x08'
  | 'f' => some '\x0c'
  | 'n' => some '\n'
  | 'r' => some '\r'
  | 't' => some '\t'
  | _ => none

/-- A string read so far: its code units or characters in reverse order. A code unit from
`0xD800` to `0xDFFF` is half of a pair. -/
abbrev Units := List Nat

/-- Reads the code units of a string up to its closing quote. -/
def units : List Char → Units → Option (Units × List Char)
  | '"' :: rest, read => some (read.reverse, rest)
  | '\\' :: 'u' :: a :: b :: c :: d :: rest, read =>
    match hexUnit? a b c d with
    | some unit => units rest (unit :: read)
    | none => none
  | '\\' :: c :: rest, read =>
    match simpleEscape? c with
    | some c => units rest (c.toNat :: read)
    | none => none
  | c :: rest, read => if c.toNat < 0x20 then none else units rest (c.toNat :: read)
  | [], _ => none

/-- The characters of code units with pairs joined, if no half of a pair is left, after the
characters before them, which are in reverse order. -/
def joinUnits : Units → List Char → Option (List Char)
  | high :: low :: rest, before =>
    if 0xD800 ≤ high ∧ high < 0xDC00 ∧ 0xDC00 ≤ low ∧ low < 0xE000 then
      joinUnits rest
        (Char.ofNat (0x10000 + (high - 0xD800) * 0x400 + (low - 0xDC00)) :: before)
    else if 0xD800 ≤ high ∧ high < 0xE000 then none
    else joinUnits (low :: rest) (Char.ofNat high :: before)
  | [unit], before =>
    if 0xD800 ≤ unit ∧ unit < 0xE000 then none else some (Char.ofNat unit :: before).reverse
  | [], before => some before.reverse

/-- Reads a string after its opening quote, and the text that it is. -/
def readString (cs : List Char) : Option (Option String × List Char) :=
  (units cs []).map fun (read, rest) => ((joinUnits read []).map String.ofList, rest)

/-- The number that decimal digits stand for. -/
def decimal (digits : List Char) : Nat :=
  digits.foldl (fun n c => 10 * n + (c.toNat - 48)) 0

/-- Reads the part of a number before a point: a zero, or digits that do not start with one. -/
def integerPart : List Char → Option (List Char × List Char)
  | '0' :: rest => match rest with
    | c :: _ => if c.isDigit then none else some (['0'], rest)
    | [] => some (['0'], rest)
  | c :: rest =>
    if c.isDigit then some ((c :: rest).takeWhile Char.isDigit, (c :: rest).dropWhile Char.isDigit)
    else none
  | [] => none

/-- Reads at least one digit. -/
def someDigits (cs : List Char) : Option (List Char × List Char) :=
  match cs.takeWhile Char.isDigit with
  | [] => none
  | digits => some (digits, cs.dropWhile Char.isDigit)

/-- Reads a point and digits, if there is a point. -/
def fractionPart : List Char → Option (List Char × List Char)
  | '.' :: rest => (someDigits rest).map fun (digits, rest) => ('.' :: digits, rest)
  | cs => some ([], cs)

/-- Reads an exponent, if there is one. -/
def exponentPart : List Char → Option (List Char × List Char)
  | e :: rest =>
    if e == 'e' || e == 'E' then
      match rest with
      | '+' :: rest => (someDigits rest).map fun (digits, rest) => (e :: '+' :: digits, rest)
      | '-' :: rest => (someDigits rest).map fun (digits, rest) => (e :: '-' :: digits, rest)
      | rest => (someDigits rest).map fun (digits, rest) => (e :: digits, rest)
    else some ([], e :: rest)
  | [] => some ([], [])

/-- Reads a number. -/
def readNumber (cs : List Char) : Option (Json × List Char) := do
  let (sign, cs) := match cs with
    | '-' :: rest => (['-'], rest)
    | cs => ([], cs)
  let (whole, cs) ← integerPart cs
  let (fraction, cs) ← fractionPart cs
  let (exponent, cs) ← exponentPart cs
  if sign.isEmpty && fraction.isEmpty && exponent.isEmpty && decimal whole < 2 ^ 64 then
    return (natural (decimal whole), cs)
  else
    return (number (String.ofList (sign ++ whole ++ fraction ++ exponent)), cs)

mutual

/-- Reads a value. The first argument bounds the parts of the value. -/
def readValue : Nat → List Char → Option (Json × List Char)
  | 0, _ => none
  | parts + 1, cs =>
    match skipBlanks cs with
    | 'n' :: 'u' :: 'l' :: 'l' :: rest => some (null, rest)
    | 't' :: 'r' :: 'u' :: 'e' :: rest => some (bool true, rest)
    | 'f' :: 'a' :: 'l' :: 's' :: 'e' :: rest => some (bool false, rest)
    | '"' :: rest =>
      match readString rest with
      | some (some text, rest) => some (string text, rest)
      | some (none, rest) => some (illegible, rest)
      | none => none
    | '[' :: rest =>
      match skipBlanks rest with
      | ']' :: rest => some (array [], rest)
      | rest => readItems parts [] rest
    | '{' :: rest =>
      match skipBlanks rest with
      | '}' :: rest => some (object [], rest)
      | rest => readMembers parts [] rest
    | cs => readNumber cs

/-- Reads the items of an array after the ones already read, which are in reverse order. -/
def readItems : Nat → List Json → List Char → Option (Json × List Char)
  | 0, _, _ => none
  | parts + 1, items, cs =>
    match readValue parts cs with
    | none => none
    | some (item, cs) =>
      match skipBlanks cs with
      | ',' :: rest => readItems parts (item :: items) rest
      | ']' :: rest => some (array (item :: items).reverse, rest)
      | _ => none

/-- Reads the members of an object after the ones already read, which are in reverse order. -/
def readMembers : Nat → List (Option String × Json) → List Char → Option (Json × List Char)
  | 0, _, _ => none
  | parts + 1, members, cs =>
    match skipBlanks cs with
    | '"' :: rest =>
      match readString rest with
      | some (name, rest) =>
        match skipBlanks rest with
        | ':' :: rest =>
          match readValue parts rest with
          | none => none
          | some (value, cs) =>
            match skipBlanks cs with
            | ',' :: rest => readMembers parts ((name, value) :: members) rest
            | '}' :: rest => some (ofMembers ((name, value) :: members).reverse, rest)
            | _ => none
        | _ => none
      | none => none
    | _ => none

end

/-- The document that a text is. -/
def parse? (text : String) : Option Json :=
  let cs := text.toList
  match readValue (2 * cs.length + 2) cs with
  | some (value, rest) => if (skipBlanks rest).isEmpty then some value else none
  | none => none

/-- A character in a string. -/
def escape (c : Char) : List Char :=
  if c == '"' then ['\\', '"']
  else if c == '\\' then ['\\', '\\']
  else if c == '\x08' then ['\\', 'b']
  else if c == '\x0c' then ['\\', 'f']
  else if c == '\n' then ['\\', 'n']
  else if c == '\r' then ['\\', 'r']
  else if c == '\t' then ['\\', 't']
  else if c.toNat < 0x20 then
    ['\\', 'u', '0', '0', Nat.digitChar (c.toNat / 16), Nat.digitChar (c.toNat % 16)]
  else [c]

/-- A string in quotes. -/
def quote (text : String) : String :=
  "\"" ++ String.ofList (text.toList.flatMap escape) ++ "\""

mutual

/-- The text of a document, after the text before it. -/
def renderOnto (before : String) : Json → String
  | null | illegible => before ++ "null"
  | bool true => before ++ "true"
  | bool false => before ++ "false"
  | natural n => before ++ toString n
  | number written => before ++ written
  | string text => before ++ quote text
  | array items => renderItems (before.push '[') true items ++ "]"
  | object members => renderMembers (before.push '{') true members ++ "\x7d"

/-- The text of the items of an array. -/
def renderItems (before : String) (first : Bool) : List Json → String
  | [] => before
  | item :: items =>
    renderItems (renderOnto (if first then before else before.push ',') item) false items

/-- The text of the members of an object. -/
def renderMembers (before : String) (first : Bool) : List (String × Json) → String
  | [] => before
  | (name, value) :: members =>
    let before := (if first then before else before.push ',') ++ quote name ++ ":"
    renderMembers (renderOnto before value) false members

end

/-- The text of a document. -/
def render (document : Json) : String := renderOnto "" document

end Replication.Json
