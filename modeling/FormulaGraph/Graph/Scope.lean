import FormulaGraph.Graph.Release
import FormulaGraph.Number.Decimal

/-! Names in records. A name a record does not have is looked up in its parent, and a name that ends in
digits may stand for an item of a list, counted from one. -/

namespace FormulaGraph

/-- A list's name and the item's number. Numbers have 64 bits. -/
def splitIndex? (name : String) : Option (String × Nat) :=
  let text := name.toList.reverse
  let digits := (text.takeWhile Char.isDigit).reverse
  let base := (text.dropWhile Char.isDigit).reverse
  let index := digitsValue digits
  if digits.isEmpty || base.isEmpty || index = 0 || 1 <<< 64 ≤ index then none
  else some (String.ofList base, index)

def Member.node? : Member → Option NodeId
  | .node n => some n
  | _ => none

namespace Graph

/-- Parents are older than the records that fall back on them. -/
def find? (g : Graph) (r : RecordId) (name : String) : Option Member :=
  match (g.record r).members[name]? with
  | some found => some found
  | none =>
    match (g.record r).parent with
    | some parent => if parent < r then g.find? parent name else none
    | none => none

def resolve? (g : Graph) (r : RecordId) (name : String) : Option Member :=
  match g.find? r name with
  | some found => some found
  | none => do
    let (base, index) ← splitIndex? name
    match ← g.find? r base with
    | .list items => items[index - 1]?
    | _ => none

def addRecord (g : Graph) (parent : Option RecordId) : RecordId × Graph :=
  let g := g.retainAll (parent.toList.map .record)
  (g.records.size, { g with records := g.records.push { parent, owners := 1 } })

/-- Own members only. -/
def member? (g : Graph) (r : RecordId) (name : String) : Option Member := (g.record r).members[name]?

/-- Takes the member over and gives up the one it replaces. -/
def insert (g : Graph) (r : RecordId) (name : String) (member : Member) : Graph :=
  let old := (g.member? r name).toList.flatMap Member.holds
  let g := g.modifyRecord r fun record => { record with members := record.members.insert name member }
  g.release old

def remove (g : Graph) (r : RecordId) (name : String) : Graph :=
  let old := (g.member? r name).toList.flatMap Member.holds
  let g := g.modifyRecord r fun record => { record with members := record.members.erase name }
  g.release old

/-- The items of a list with one more. What is not a list becomes the first of two items. -/
def pushed (old : Option Member) (item : Member) : List Member :=
  match old with
  | none => [item]
  | some (.list items) => items ++ [item]
  | some other => [other, item]

/-- Takes the item over and tells its number. -/
def push (g : Graph) (r : RecordId) (name : String) (item : Member) : Nat × Graph :=
  let items := pushed (g.member? r name) item
  (items.length, g.modifyRecord r fun record =>
    { record with members := record.members.insert name (.list items) })

/-- Makes `n` a member, which takes one more hold on it. -/
def bind (g : Graph) (r : RecordId) (name : String) (n : NodeId) : Graph :=
  (g.retain (.node n)).insert r name (.node n)

end Graph

end FormulaGraph
