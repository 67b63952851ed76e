import FormulaGraph.Operation.Basic

/-! The operators and marks that formulas are punctuated with. -/

namespace FormulaGraph

inductive Symbol where
  | binary (op : BinaryOp)
  | not
  | opening
  | closing
  | comma
  | dot
deriving DecidableEq, Repr

namespace Symbol

def spelling : Symbol → String
  | binary op => op.symbol
  | not => "!"
  | opening => "("
  | closing => ")"
  | comma => ","
  | dot => "."

/-- Longer spellings come before the shorter ones they start with. -/
def all : List Symbol :=
  [binary .eq, binary .ne, binary .le, binary .ge, binary .and, binary .or, binary .add, binary .sub,
    binary .mul, binary .div, binary .lt, binary .gt, not, opening, closing, comma, dot]

theorem mem_all (s : Symbol) : s ∈ all := by
  cases s with
  | binary op => cases op <;> decide
  | _ => decide

/-- The characters that symbols are made of, alone or in runs. -/
def isMark (c : Char) : Bool := "=!<>&|+-*/(),.".toList.contains c

/-- The longest symbol that `text` starts with. -/
def leading? (text : List Char) : Option Symbol := all.find? (·.spelling.toList.isPrefixOf text)

end Symbol

end FormulaGraph
