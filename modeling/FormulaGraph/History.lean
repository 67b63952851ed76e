/-! A linear history of batches of changes. The history only keeps the books: each of its operations says
which effects it has on the document, in order, and when a change is no longer needed. -/

namespace FormulaGraph

/-- What the document is asked to do. -/
inductive Effect (α : Type) where
  | apply (change : α)
  | revert (change : α)
  /-- The history gives the change up. -/
  | discard (change : α)
deriving Repr

structure History (α : Type) where
  /-- Each the changes of one step, the first one first. -/
  batches : List (List α) := []
  /-- How many batches are in effect. The others can be done again. -/
  current : Nat := 0
  saved : Option Nat := some 0
  opened : Option (List α) := none
  /-- Where in the open batch each of its levels starts, the innermost level first. -/
  levels : List Nat := []
deriving Repr

namespace History

variable {α : Type}

def isOpen (h : History α) : Bool := !h.levels.isEmpty

def openBatch (h : History α) : History α :=
  let changes := h.opened.getD []
  { h with opened := some changes, levels := changes.length :: h.levels }

/-- Adds a change to a batch, or merges it into the last change of the level that starts at `floor`. -/
def record (merge? : α → α → Option α) (floor : Nat) (changes : List α) (change : α) :
    List α × List (Effect α) :=
  let merged := if floor < changes.length then changes.getLast?.bind (merge? · change) else none
  match merged with
  | some last => (changes.dropLast ++ [last], [.discard change])
  | none => (changes ++ [change], [])

/-- Makes a batch the last one. The batches that it replaces are given up. -/
def commit (h : History α) (changes : List α) : History α × List (Effect α) :=
  if changes.isEmpty then (h, [])
  else
    let saved := h.saved.filter (· ≤ h.current)
    let batches := h.batches.take h.current ++ [changes]
    ({ h with batches, saved, current := batches.length },
      (h.batches.drop h.current).flatten.map .discard)

/-- Ends the innermost level. Ending the outermost one commits the batch. -/
def closeBatch (h : History α) : History α × List (Effect α) :=
  match h.levels with
  | [] => (h, [])
  | [_] => { h with levels := [], opened := none }.commit (h.opened.getD [])
  | _ :: levels => ({ h with levels }, [])

/-- Takes the innermost level back, the last change first. -/
def abandonBatch (h : History α) : History α × List (Effect α) :=
  match h.levels with
  | [] => (h, [])
  | start :: levels =>
    let changes := h.opened.getD []
    let opened := if levels.isEmpty then none else h.opened.map (·.take start)
    ({ h with levels, opened },
      (changes.drop start).reverse.flatMap fun change => [.revert change, .discard change])

/-- Applies a change and keeps it in the open batch, or in a batch of its own. -/
def make (merge? : α → α → Option α) (h : History α) (change : α) : History α × List (Effect α) :=
  match h.levels with
  | [] =>
    let (h, effects) := h.commit [change]
    (h, .apply change :: effects)
  | floor :: _ =>
    let (changes, effects) := record merge? floor (h.opened.getD []) change
    ({ h with opened := some changes }, .apply change :: effects)

def canUndo (h : History α) : Bool := 0 < h.current

def canRedo (h : History α) : Bool := h.current < h.batches.length

/-- Refused while a batch is open. -/
def undo? (h : History α) : Option (History α × List (Effect α)) :=
  if h.isOpen || !h.canUndo then none
  else do
    let changes ← h.batches[h.current - 1]?
    return ({ h with current := h.current - 1 }, changes.reverse.map .revert)

/-- Refused while a batch is open. -/
def redo? (h : History α) : Option (History α × List (Effect α)) :=
  if h.isOpen || !h.canRedo then none
  else do
    let changes ← h.batches[h.current]?
    return ({ h with current := h.current + 1 }, changes.map .apply)

def isSaved (h : History α) : Bool := h.saved == some h.current

def markSaved (h : History α) : History α := { h with saved := some h.current }

/-- What undoing would take back. -/
def undoBatch? (h : History α) : Option (List α) :=
  if h.current = 0 then none else h.batches[h.current - 1]?

/-- What redoing would apply. -/
def redoBatch? (h : History α) : Option (List α) := h.batches[h.current]?

end History

/-- One change speaks for itself, several are counted. -/
def describeBatch {α : Type} (describe : α → String) : List α → String
  | [] => "nothing"
  | [change] => describe change
  | changes => toString changes.length ++ " changes"

end FormulaGraph
