import FormulaGraph.Formula.Parse

/-! Which token of a formula a failure is put down to. Every fault that has a place names or marks the token it
is about, and every calculation is made by one token. -/

namespace FormulaGraph

/-- The token is one of the formula's. -/
def HasToken (formula : String) (token : Token) : Prop := ∃ tokens, tokenize formula = .ok tokens ∧ token ∈ tokens

/-- The token has this calculated. A suffix goes with the number before it, and a minus may have one operand
or two. -/
inductive Lexeme.Makes : Lexeme → Operation → Prop
  | convert (digits : String) (suffix : Suffix) : Makes (.number digits) (.convert suffix)
  | binary (op : BinaryOp) : Makes (.symbol (.binary op)) (.binary op)
  | neg : Makes (.symbol (.binary .sub)) (.unary .neg)
  | not : Makes (.symbol .not) (.unary .not)
  | field (f : Field) : Makes (.name f.name) (.field f)
  | method (f : Method) : Makes (.name f.name) (.method f)
  | builtin (f : Builtin) : Makes (.name f.name) (.builtin f)

/-- The fault is about this token. -/
inductive ParseFault.Blames : ParseFault → Lexeme → Prop
  | invalidNumber (digits : String) : Blames (.invalidNumber digits) (.number digits)
  | unknownIdentifier (name : String) : Blames (.unknownIdentifier name) (.name name)
  | unknownFunction (name : String) : Blames (.unknownFunction name) (.name name)
  | notAValue (name : String) : Blames (.notAValue name) (.name name)
  | unexpected (symbol : Symbol) : Blames (.unexpected symbol) (.symbol symbol)
  | missingOperand (symbol : Symbol) : Blames (.missingOperand symbol.spelling) (.symbol symbol)
  | missingArgument {symbol : Symbol} (h : symbol = .comma ∨ symbol = .closing) :
    Blames .missingArgument (.symbol symbol)
  | missingArgumentBefore : Blames .missingArgumentBefore (.symbol .comma)
  | missingArgumentAfter : Blames .missingArgumentAfter (.symbol .closing)
  /-- It is missing before the token that begins the next operand or makes it. -/
  | missingComma (lexeme : Lexeme) : Blames .missingComma lexeme
  | commaOutsideCall : Blames .commaOutsideCall (.symbol .comma)
  | unbalancedOpening : Blames .unbalancedOpening (.symbol .opening)
  /-- The bracket of a call is put down to the name before it. -/
  | unbalancedCall (name : String) : Blames .unbalancedOpening (.name name)
  | unbalancedClosing : Blames .unbalancedClosing (.symbol .closing)
  | emptyParentheses : Blames .emptyParentheses (.symbol .opening)
  | memberName : Blames .memberName (.symbol .dot)
  | methodArity (f : Method) (count : Nat) : Blames (.methodArity f count) (.name f.name)
  | builtinArity (f : Builtin) (count : Nat) : Blames (.builtinArity f count) (.name f.name)
  /-- The second operand is one too many. -/
  | severalValues (lexeme : Lexeme) : Blames .severalValues lexeme

theorem Builtin.name_of_ofName? {name : String} {f : Builtin} (h : Builtin.ofName? name = some f) : f.name = name := by
  have hname := List.find?_some h
  exact beq_iff_eq.mp hname

theorem Kind.name_of_field? {kind : Kind} {name : String} {f : Field} (h : kind.field? name = some f) :
    f.name = name := by
  have hname := List.find?_some h
  exact beq_iff_eq.mp hname

theorem Kind.name_of_method? {kind : Kind} {name : String} {f : Method} (h : kind.method? name = some f) :
    f.name = name := by
  have hname := List.find?_some h
  exact beq_iff_eq.mp hname

section

variable {α σ : Type}

/-- What waits on the stack has been put there by this token. -/
inductive Pending.Marked : Pending α → Lexeme → Prop
  | binary (op : BinaryOp) : Marked (.binary op) (.symbol (.binary op))
  | neg : Marked (.unary .neg) (.symbol (.binary .sub))
  | not : Marked (.unary .not) (.symbol .not)
  | paren : Marked .paren (.symbol .opening)
  | builtin (f : Builtin) (base closed : Nat) : Marked (.call (.builtin f) base closed) (.name f.name)
  | method (f : Method) (receiver : α) (base closed : Nat) :
    Marked (.call (.method f receiver) base closed) (.name f.name)

variable {pending : Pending α} {lexeme : Lexeme}

theorem Pending.Marked.call {callee : Callee α} {base closed base' closed' : Nat}
    (h : (Pending.call callee base closed).Marked lexeme) : (Pending.call callee base' closed').Marked lexeme := by
  cases h with
  | builtin => exact .builtin ..
  | method => exact .method ..

theorem Pending.Marked.missingOperand {symbol : String} (h : pending.Marked lexeme)
    (hs : pending.symbol? = some symbol) : (ParseFault.missingOperand symbol).Blames lexeme := by
  cases h with
  | binary op =>
    cases hs
    exact .missingOperand (.binary op)
  | neg =>
    cases hs
    exact .missingOperand (.binary .sub)
  | not =>
    cases hs
    exact .missingOperand .not
  | paren | builtin | method => cases hs

theorem Pending.Marked.unbalanced (h : pending.Marked lexeme) (hb : pending.isBracket = true) :
    ParseFault.unbalancedOpening.Blames lexeme := by
  cases h with
  | paren => exact .unbalancedOpening
  | builtin | method => exact .unbalancedCall _
  | binary | neg | not => cases hb

/-- A complaint about the arguments of a call is about one of its operands, or about the token that ends the
argument. -/
theorem slotFault?_cases {operands : Operands α σ} {base slot offset : Nat} {e : FormulaError}
    (h : slotFault? operands base slot offset = some e) :
    (∃ extra ∈ operands, e = ParseFault.missingComma.at extra.offset) ∨ e = ParseFault.missingArgument.at offset := by
  rw [slotFault?] at h
  split at h
  next extra hextra =>
    cases h
    exact .inl ⟨extra, List.mem_reverse.mp (List.mem_of_getElem? hextra), rfl⟩
  next =>
    split at h
    · cases h
      exact .inr rfl
    · cases h

/-- What is taken for an argument fails at the operand that is no value. -/
theorem takeValues_error {entries : List (Entry α σ)} {taken loose : List α} {e : FormulaError}
    (h : takeValues entries taken = .error (e, loose)) :
    ∃ entry ∈ entries, entry.operand.value? = none ∧ e = (ParseFault.notAValue entry.name).at entry.offset := by
  induction entries generalizing taken with
  | nil => cases h
  | cons entry entries ih =>
    rw [takeValues] at h
    cases ho : entry.operand with
    | value a =>
      rw [ho] at h
      obtain ⟨entry', hmem, hfound⟩ := ih h
      exact ⟨entry', List.mem_cons_of_mem _ hmem, hfound⟩
    | scope | list =>
      rw [ho] at h
      cases h
      exact ⟨entry, List.mem_cons_self, by rw [ho]; rfl, rfl⟩

end

end FormulaGraph
