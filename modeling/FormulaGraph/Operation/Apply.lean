import FormulaGraph.Operation.Arithmetic
import FormulaGraph.Operation.Member

/-! Every operation as a function on the values of its operands. -/

namespace FormulaGraph

def Builtin.call (function : Builtin) (arguments : List Value) : Applied :=
  if function.takes arguments.length then
    match function, arguments with
    | .dimension2, [.quantity x, .quantity y] =>
      if x.sameDimension y then .ok (.point x y) else .error .axisDimensions
    | .dimension2, [x, y] => .error (.axisKinds x.kind y.kind)
    | .vector, [x, y] => do return .vector ⟨← x.scalarOr, ← y.scalarOr⟩
    | .color, [r, g, b] => do return .color (.solid (← r.scalarOr) (← g.scalarOr) (← b.scalarOr))
    | .color, [r, g, b, a] => do
      return .color (.clamped (← r.scalarOr) (← g.scalarOr) (← b.scalarOr) (← a.scalarOr))
    | .sqrt, [.scalar x] => if x < 0 then .error .negativeRoot else .ok (.scalar x.sqrt)
    | .sqrt, [.quantity q] =>
      match q.root? with
      | some root => .ok (.quantity root)
      | none => .error (.quantityRoot q)
    | .abs, [.scalar x] => .ok (.scalar x.abs)
    | .abs, [.quantity q] => .ok (.quantity q.abs)
    | .abs, [.angle radians] => .ok (.angle radians.abs)
    | .min, [a, b] => do return if (← BinaryOp.lt.apply a b) == .bool true then a else b
    | .max, [a, b] => do return if (← BinaryOp.lt.apply a b) == .bool true then b else a
    | .choose, [.bool true, a, _] => .ok a
    | .choose, [.bool false, _, b] => .ok b
    | .choose, [condition, _, _] => .error (.expected .bool condition.kind)
    | function, arguments => .error (.builtinKinds function (arguments.map Value.kind))
  else .error (.builtinArity function arguments.length)

def Suffix.attach (suffix : Suffix) (operand : Value) : Applied :=
  match operand with
  | .scalar x =>
    match suffix with
    | .length unit => .ok (.quantity (.length x unit))
    | .degrees => .ok (.angle (toRadians x))
    | .radians => .ok (.angle x)
  | operand => .error (.suffixKind suffix operand.kind)

def Operation.perform (operation : Operation) (operands : List Value) : Applied :=
  match operation, operands with
  | .binary op, [a, b] => op.apply a b
  | .unary op, [a] => op.apply a
  | .field f, [receiver] => f.read receiver
  | .method m, receiver :: arguments => m.call receiver arguments
  | .builtin f, arguments => f.call arguments
  | .convert s, [a] => s.attach a
  | operation, operands => .error (.operandCount operation operands.length)

def Operation.apply (operation : Operation) (operands : List Value) : Applied := do
  checkFinite (← operation.perform operands)

end FormulaGraph
