import FormulaGraph.Operation.Fault

/-! Operators between values. -/

namespace FormulaGraph

def BinaryOp.mismatch {α : Type} (op : BinaryOp) (a b : Value) : Except ValueFault α :=
  .error (.binaryKinds op a.kind b.kind)

/-- The sum or difference of two quantities. -/
def joinQuantities (op : BinaryOp) (a b : Quantity) : Except ValueFault Quantity :=
  match if op = .sub then a.sub? b else a.add? b with
  | some q => .ok q
  | none => .error (.exponents op a.exponent b.exponent)

def nonZero (divisor : Float) : Except ValueFault Unit :=
  if divisor == 0 then .error .divisionByZero else .ok ()

/-- The operators `+`, `-`, `*` and `/`, before the result is checked. -/
def arithmetic (op : BinaryOp) (a b : Value) : Applied :=
  match a, b, op with
  | .text a, b, .add => .ok (.text (a ++ b.shown))
  | a, .text b, .add => .ok (.text (a.shown ++ b))
  | .scalar a, .scalar b, .add => .ok (.scalar (a + b))
  | .scalar a, .scalar b, .sub => .ok (.scalar (a - b))
  | .scalar a, .scalar b, .mul => .ok (.scalar (a * b))
  | .scalar a, .scalar b, .div => do nonZero b; return .scalar (a / b)
  | .quantity a, .quantity b, .add => return .quantity (← joinQuantities .add a b)
  | .quantity a, .quantity b, .sub => return .quantity (← joinQuantities .sub a b)
  | .quantity a, .quantity b, .mul => .ok (.quantity (a.product b))
  | .quantity a, .quantity b, .div =>
    match a.quotient? b with
    | some q => .ok (.quantity q)
    | none => .error .divisionByZero
  | .quantity q, .scalar s, .add =>
    if q.isRatio then .ok (.scalar (q.magnitude + s)) else op.mismatch a b
  | .quantity q, .scalar s, .sub =>
    if q.isRatio then .ok (.scalar (q.magnitude - s)) else op.mismatch a b
  | .scalar s, .quantity q, .add =>
    if q.isRatio then .ok (.scalar (s + q.magnitude)) else op.mismatch a b
  | .scalar s, .quantity q, .sub =>
    if q.isRatio then .ok (.scalar (s - q.magnitude)) else op.mismatch a b
  | .quantity q, .scalar s, .mul => .ok (.quantity (q.scale s))
  | .scalar s, .quantity q, .mul => .ok (.quantity (q.scale s))
  | .quantity q, .scalar s, .div => do nonZero s; return .quantity (q.divide s)
  | .scalar s, .quantity q, .div => do
    nonZero q.magnitude
    return .quantity ⟨s / q.magnitude, q.unit, -q.exponent⟩
  | .point x y, .point x' y', .add =>
    return .point (← joinQuantities .add x x') (← joinQuantities .add y y')
  | .point x y, .point x' y', .sub =>
    return .point (← joinQuantities .sub x x') (← joinQuantities .sub y y')
  | .point x y, .scalar s, .mul => .ok (.point (x.scale s) (y.scale s))
  | .scalar s, .point x y, .mul => .ok (.point (x.scale s) (y.scale s))
  | .point x y, .scalar s, .div => do nonZero s; return .point (x.divide s) (y.divide s)
  | .vector a, .vector b, .add => .ok (.vector (a.add b))
  | .vector a, .vector b, .sub => .ok (.vector (a.sub b))
  | .vector v, .scalar s, .mul => .ok (.vector (v.scale s))
  | .scalar s, .vector v, .mul => .ok (.vector (v.scale s))
  | .vector v, .scalar s, .div => do nonZero s; return .vector (v.divide s)
  | .vector v, .quantity q, .mul => .ok (.point (q.scale v.x) (q.scale v.y))
  | .quantity q, .vector v, .mul => .ok (.point (q.scale v.x) (q.scale v.y))
  | .angle a, .angle b, .add => .ok (.angle (a + b))
  | .angle a, .angle b, .sub => .ok (.angle (a - b))
  | .angle a, .angle b, .div => do nonZero b; return .scalar (a / b)
  | .angle a, .scalar s, .mul => .ok (.angle (a * s))
  | .scalar s, .angle a, .mul => .ok (.angle (a * s))
  | .angle a, .scalar s, .div => do nonZero s; return .angle (a / s)
  | a, b, op => op.mismatch a b

def compareWith (op : BinaryOp) (test : Ordering → Bool) (a b : Value) : Applied :=
  match a.order? b with
  | some order => .ok (.bool (test order))
  | none => op.mismatch a b

def equate (op : BinaryOp) (a b : Value) : Except ValueFault Bool :=
  match a.approxEq? b with
  | some same => .ok same
  | none => op.mismatch a b

def combine (op : BinaryOp) (a b : Value) : Applied :=
  match op with
  | .add | .sub | .mul | .div => arithmetic op a b
  | .eq => return .bool (← equate op a b)
  | .ne => return .bool !(← equate op a b)
  | .lt => compareWith op (· == .lt) a b
  | .gt => compareWith op (· == .gt) a b
  | .le => compareWith op (· != .gt) a b
  | .ge => compareWith op (· != .lt) a b
  | .and =>
    match a, b with
    | .bool a, .bool b => .ok (.bool (a && b))
    | _, _ => op.mismatch a b
  | .or =>
    match a, b with
    | .bool a, .bool b => .ok (.bool (a || b))
    | _, _ => op.mismatch a b

def BinaryOp.apply (op : BinaryOp) (a b : Value) : Applied := do checkFinite (← combine op a b)

def UnaryOp.apply (op : UnaryOp) (a : Value) : Applied :=
  match op, a with
  | .neg, .scalar x => .ok (.scalar (-x))
  | .neg, .quantity q => .ok (.quantity q.neg)
  | .neg, .point x y => .ok (.point x.neg y.neg)
  | .neg, .vector v => .ok (.vector v.neg)
  | .neg, .angle radians => .ok (.angle (-radians))
  | .not, .bool b => .ok (.bool !b)
  | op, a => .error (.unaryKind op a.kind)

end FormulaGraph
