import FormulaGraph.Operation.Fault
import FormulaGraph.Formula.Symbol
import FormulaGraph.Text.Letter
import FormulaGraph.Text.Utf8

/-! Why a formula has no value, and where in its text the failure is. -/

namespace FormulaGraph

/-- The stage of work that a failure belongs to. -/
inductive Stage where
  | lex
  | parse
  | eval
deriving DecidableEq, Repr

inductive LexFault where
  | unexpectedCharacter (c : Char)
  | unknownOperator (run : String)
  | unknownEscape (c : Char)
  | unterminatedString
deriving DecidableEq, Repr

def LexFault.message : LexFault → String
  | unexpectedCharacter c => "unexpected character '" ++ c.toString ++ "'"
  | unknownOperator run => "unknown operator '" ++ run ++ "'"
  | unknownEscape c => "unknown escape '\\" ++ c.toString ++ "'"
  | unterminatedString => "unterminated string literal"

inductive ParseFault where
  | invalidNumber (text : String)
  | unknownIdentifier (name : String)
  | unknownFunction (name : String)
  | notAValue (name : String)
  | unexpected (symbol : Symbol)
  | missingOperand (symbol : String)
  | missingArgument
  | missingArgumentBefore
  | missingArgumentAfter
  | missingComma
  | commaOutsideCall
  | unbalancedOpening
  | unbalancedClosing
  | emptyParentheses
  | memberName
  | methodArity (method : Method) (count : Nat)
  | builtinArity (function : Builtin) (count : Nat)
  | noValue
  | severalValues
  | scopeGone
deriving DecidableEq, Repr

def ParseFault.message : ParseFault → String
  | invalidNumber text => "invalid number '" ++ text ++ "'"
  | unknownIdentifier name => "unknown identifier '" ++ name ++ "'"
  | unknownFunction name => "unknown function '" ++ name ++ "'"
  | notAValue name => "'" ++ name ++ "' is not a value"
  | unexpected symbol => "unexpected '" ++ symbol.spelling ++ "'"
  | missingOperand symbol => "missing operand for '" ++ symbol ++ "'"
  | missingArgument => "missing argument"
  | missingArgumentBefore => "missing argument before ','"
  | missingArgumentAfter => "missing argument after ','"
  | missingComma => "expected ',' between arguments"
  | commaOutsideCall => "',' outside of a call"
  | unbalancedOpening => "unbalanced '('"
  | unbalancedClosing => "unbalanced ')'"
  | emptyParentheses => "empty parentheses"
  | memberName => "expected a member name after '.'"
  | methodArity method count => method.arityMessage count
  | builtinArity function count => function.arityMessage count
  | noValue => "no value found"
  | severalValues => "does not evaluate to a single value"
  | scopeGone => "formula scope no longer exists"

inductive Cause where
  | lex (fault : LexFault)
  | parse (fault : ParseFault)
  | value (fault : ValueFault)
  /-- A node is asked for its value while that value is being worked out. -/
  | cycle
  /-- A read goes deeper than any graph of its size allows. -/
  | depth
  /-- A failure that is described elsewhere. -/
  | told (stage : Stage) (message : String)
deriving Repr

def Cause.stage : Cause → Stage
  | lex _ => .lex
  | parse _ => .parse
  | value _ | cycle | depth => .eval
  | told stage _ => stage

def Cause.message : Cause → String
  | lex fault => fault.message
  | parse fault => fault.message
  | value fault => fault.message
  | cycle => "cyclic reference"
  | depth => "reference too deep"
  | told _ message => message

/-- The span is in bytes of `source`, which stays empty until a formula is attached. -/
structure FormulaError where
  cause : Cause
  offset : Nat
  length : Nat := 0
  source : String := ""
deriving Repr

namespace FormulaError

def message (e : FormulaError) : String := e.cause.message

/-- The whole name at the start of `text`, or else its first character. -/
def labelLength : List Char → Nat
  | [] => 0
  | c :: text => c.utf8Size + utf8Length (text.takeWhile isNameChar)

/-- A failure of `formula`, unless it is one of another formula already. -/
def attach (formula : String) (e : FormulaError) : FormulaError :=
  if e.source.isEmpty then
    let offset := min e.offset formula.utf8ByteSize
    { e with offset, length := labelLength (dropBytes offset formula.toList), source := formula }
  else e

theorem cause_attach (formula : String) (e : FormulaError) : (e.attach formula).cause = e.cause := by
  unfold attach
  split <;> rfl

end FormulaError

abbrev Checked (α : Type) := Except FormulaError α

def failLex {α : Type} (offset : Nat) (fault : LexFault) : Checked α :=
  .error { cause := .lex fault, offset }

def failParse {α : Type} (offset : Nat) (fault : ParseFault) : Checked α :=
  .error { cause := .parse fault, offset }

end FormulaGraph
