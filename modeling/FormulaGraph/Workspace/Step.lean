import FormulaGraph.Value.Basic

/-! What can be asked of a workspace. Records, nodes, watches and changes are kept under names. -/

namespace FormulaGraph

/-- A member to be made. -/
inductive NewMember where
  | node (id : String)
  | record (id : String)
  | list (items : List NewMember)
  | constant (value : Value)
deriving Repr

/-- A change to be made, or a copy of a prepared one. -/
inductive NewChange where
  | prepared (id : String)
  | marker (name : String)
  | formulas (edits : List (String × String))
  | value (id : String) (value : Value)
deriving Repr

inductive Step where
  | record (id : String) (parent : Option String)
  | input (scope name id : String) (value : Value)
  | expression (scope name id formula : String)
  /-- Numbered expressions, in whose formulas a pair of braces stands for the number before. -/
  | expressions (scope stem : String) (count : Nat) (formula : String)
  | insert (scope name : String) (member : NewMember)
  | push (scope name : String) (member : NewMember)
  | remove (scope name : String)
  | get (scope name : String)
  | find (scope name : String)
  | resolve (scope name : String)
  | names (scope : String)
  | listing (scope : String)
  | handle (scope name id : String)
  | freeConstant (id : String) (value : Value)
  | freeInput (id : String) (value : Value)
  | freeExpression (id scope formula : String)
  | parse (id scope formula : String)
  | clone (source id : String)
  | dropNode (id : String)
  | dropRecord (id : String)
  | read (id : String)
  | set (id : String) (value : Value)
  | setFormula (id formula : String)
  | check (id formula : String)
  | checkAll (edits : List (String × String))
  | state (id : String)
  | states
  | depends (a b : String)
  | same (a b : String)
  /-- The script is run whenever the node turns dirty. -/
  | watch (id source : String) (script : List Step)
  | unwatch (id : String)
  | ticket (id : String)
  | openBatch
  | closeBatch
  | abandonBatch
  | markSaved
  | history
  | undo
  | redo
  | make (change : NewChange)
  | prepare (id : String) (change : NewChange)
  | applyChange (id : String)
  | revertChange (id : String)
  | merge (a b : String)
  | batch (ids : List String)
  | applyBatch (ids : List String)
  | revertBatch (ids : List String)
deriving Repr

end FormulaGraph
