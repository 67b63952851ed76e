import FormulaGraph.Formula.Token

/-! The grammar of formulas: syntax trees, and the tokens that spell them. Binary operators of a level
are left-associative, prefix operators may be repeated, and members bind tightest. -/

namespace FormulaGraph

/-- Offsets are those of the tokens that failures are blamed on. -/
inductive Expr where
  | number (digits : String) (suffix : Option Suffix) (offset : Nat)
  | text (contents : String) (offset : Nat)
  | name (name : String) (offset : Nat)
  | group (inner : Expr)
  | call (name : String) (arguments : List Expr) (offset : Nat)
  | field (receiver : Expr) (name : String) (offset : Nat)
  | method (receiver : Expr) (name : String) (arguments : List Expr) (offset : Nat)
  | unary (op : UnaryOp) (operand : Expr) (offset : Nat)
  | binary (op : BinaryOp) (left right : Expr) (offset : Nat)

def UnaryOp.mark : UnaryOp → Symbol
  | neg => .binary .sub
  | not => .not

def suffixTokens (suffix : Option Suffix) (place : Nat) : List Token :=
  suffix.toList.map fun s => ⟨place, .name s.symbol⟩

mutual

/-- The tokens spell the tree where operators of level `k` and tighter ones may stand without brackets.
Level 7 is that of prefix operators, and level 8 takes members. -/
inductive Spells : Nat → Expr → List Token → Prop
  | number {k : Nat} (digits : String) (suffix : Option Suffix) (offset place : Nat) :
    Spells k (.number digits suffix offset) (⟨offset, .number digits⟩ :: suffixTokens suffix place)
  | text {k : Nat} (contents : String) (offset : Nat) :
    Spells k (.text contents offset) [⟨offset, .text contents⟩]
  | name {k : Nat} (name : String) (offset : Nat) : Spells k (.name name offset) [⟨offset, .name name⟩]
  | group {k : Nat} {e : Expr} {ts : List Token} (opening closing : Nat) (h : Spells 0 e ts) :
    Spells k (.group e) (⟨opening, .symbol .opening⟩ :: (ts ++ [⟨closing, .symbol .closing⟩]))
  | call {k : Nat} {es : List Expr} {ts : List Token} (name : String) (offset opening closing : Nat)
    (h : SpellsAll es ts) :
    Spells k (.call name es offset)
      (⟨offset, .name name⟩ :: ⟨opening, .symbol .opening⟩ :: (ts ++ [⟨closing, .symbol .closing⟩]))
  | field {k : Nat} {e : Expr} {ts : List Token} (name : String) (dot offset : Nat)
    (h : Spells 8 e ts) :
    Spells k (.field e name offset) (ts ++ [⟨dot, .symbol .dot⟩, ⟨offset, .name name⟩])
  | method {k : Nat} {e : Expr} {es : List Expr} {ts us : List Token} (name : String)
    (dot offset opening closing : Nat) (h : Spells 8 e ts) (hs : SpellsAll es us) :
    Spells k (.method e name es offset)
      (ts ++ ⟨dot, .symbol .dot⟩ :: ⟨offset, .name name⟩ :: ⟨opening, .symbol .opening⟩ ::
        (us ++ [⟨closing, .symbol .closing⟩]))
  | unary {k : Nat} {e : Expr} {ts : List Token} (op : UnaryOp) (offset : Nat) (hk : k ≤ 7)
    (h : Spells 7 e ts) : Spells k (.unary op e offset) (⟨offset, .symbol op.mark⟩ :: ts)
  | binary {k : Nat} {l r : Expr} {ts us : List Token} (op : BinaryOp) (offset : Nat)
    (hk : k ≤ op.level) (hl : Spells op.level l ts) (hr : Spells (op.level + 1) r us) :
    Spells k (.binary op l r offset) (ts ++ ⟨offset, .symbol (.binary op)⟩ :: us)

/-- Arguments of a call with commas between them. -/
inductive SpellsAll : List Expr → List Token → Prop
  | nil : SpellsAll [] []
  | last {e : Expr} {ts : List Token} (h : Spells 0 e ts) : SpellsAll [e] ts
  | more {e e' : Expr} {es : List Expr} {ts us : List Token} (comma : Nat) (h : Spells 0 e ts)
    (hs : SpellsAll (e' :: es) us) : SpellsAll (e :: e' :: es) (ts ++ ⟨comma, .symbol .comma⟩ :: us)

end

end FormulaGraph
