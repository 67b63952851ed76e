import FormulaGraph.Formula.Error
import FormulaGraph.Text.Blank

/-! A formula's text as tokens. Each is the longest that fits where it starts, and blanks are skipped. -/

namespace FormulaGraph

inductive Lexeme where
  | number (digits : String)
  /-- What stands between the quotes, with its escapes resolved. -/
  | text (contents : String)
  | name (name : String)
  | symbol (symbol : Symbol)
deriving DecidableEq, Repr

structure Token where
  offset : Nat
  lexeme : Lexeme
deriving DecidableEq, Repr

/-- Digits with at most one point, and what follows them. -/
def takeNumber (text : List Char) : List Char × List Char :=
  let whole := text.takeWhile Char.isDigit
  match text.dropWhile Char.isDigit with
  | '.' :: rest => (whole ++ '.' :: rest.takeWhile Char.isDigit, rest.dropWhile Char.isDigit)
  | rest => (whole, rest)

def escaped? : Char → Option Char
  | '"' => some '"'
  | 'n' => some '\n'
  | 't' => some '\t'
  | '\\' => some '\\'
  | _ => none

/-- What a step of reading leaves: something read, the offset after it, and the text from there. -/
structure Scan (α : Type) where
  read : α
  offset : Nat
  rest : List Char

def Scan.map {α β : Type} (f : α → β) (s : Scan α) : Scan β := { s with read := f s.read }

/-- Reads up to the closing quote of a string that was opened at `opened`. -/
def takeString (opened offset : Nat) : List Char → Checked (Scan (List Char))
  | [] | ['\\'] => failLex opened .unterminatedString
  | '"' :: rest => .ok ⟨[], offset + 1, rest⟩
  | '\\' :: c :: rest =>
    match escaped? c with
    | some e => return (← takeString opened (offset + 2) rest).map (e :: ·)
    | none => failLex offset (.unknownEscape c)
  | c :: rest => return (← takeString opened (offset + c.utf8Size) rest).map (c :: ·)

/-- Whether `text` goes on with a number when `c` comes before it. -/
def startsNumber (c : Char) (text : List Char) : Bool :=
  c.isDigit || c == '.' && (text.head?.map Char.isDigit).getD false

/-- The token at the start of a text that does not start with a blank. -/
def takeToken (offset : Nat) (c : Char) (text : List Char) : Checked (Scan Token) :=
  if isNameStart c then
    let name := c :: text.takeWhile isNameChar
    .ok ⟨⟨offset, .name (String.ofList name)⟩, offset + utf8Length name, text.dropWhile isNameChar⟩
  else if startsNumber c text then
    let (digits, rest) := takeNumber (c :: text)
    .ok ⟨⟨offset, .number (String.ofList digits)⟩, offset + utf8Length digits, rest⟩
  else if c == '"' then do
    return (← takeString offset (offset + 1) text).map fun contents =>
      ⟨offset, .text (String.ofList contents)⟩
  else if Symbol.isMark c then
    match Symbol.leading? (c :: text) with
    | some symbol =>
      let size := symbol.spelling.length
      .ok ⟨⟨offset, .symbol symbol⟩, offset + size, (c :: text).drop size⟩
    | none => failLex offset (.unknownOperator (String.ofList ((c :: text).takeWhile Symbol.isMark)))
  else failLex offset (.unexpectedCharacter c)

end FormulaGraph
