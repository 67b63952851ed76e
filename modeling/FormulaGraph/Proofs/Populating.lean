import FormulaGraph.Proofs.Trees
import FormulaGraph.Proofs.Running

/-! Records are filled before anything is read. No formula is built meanwhile, whatever else is done to the
records and their members. -/

namespace FormulaGraph

/-- Makes and names records and members, or changes them, without reading any. -/
def Step.populates : Step → Bool
  | .record .. | .input .. | .expression .. | .expressions .. | .insert .. | .push .. | .remove ..
  | .get .. | .find .. | .resolve .. | .names .. | .listing .. | .handle .. | .freeConstant ..
  | .freeInput .. | .freeExpression .. | .clone .. | .dropNode .. | .dropRecord .. | .set ..
  | .setFormula .. => true
  | _ => false

def Task.populates : Task → Bool
  | .perform step => step.populates
  | .tell _ | .release _ | .reply _ => true
  | _ => false

namespace Graph

/-- No formula is built yet. -/
def Unbuilt (g : Graph) : Prop := ∀ n, (g.node n).tree? = none

variable {g g' : Graph} {n : NodeId} {r : RecordId} {name text : String}

theorem Unbuilt.of_node (h : g.Unbuilt) (hnode : ∀ n, g'.node n = g.node n) : g'.Unbuilt :=
  fun n => (congrArg Node.tree? (hnode n)).trans (h n)

theorem Unbuilt.treesFrom (h : g.Unbuilt) (ht : g.TreesFrom g') : g'.Unbuilt :=
  fun n => Option.eq_none_iff_forall_ne_some.mpr fun x hx => by
    have hold := ht.trees n x hx
    rw [h n] at hold
    cases hold

theorem Unbuilt.faithful (h : g.Unbuilt) : g.Faithful := by
  intro n scope tree hx
  rw [h n] at hx
  cases hx

theorem Unbuilt.release (h : g.Unbuilt) (holds : List Hold) : (g.release holds).Unbuilt :=
  h.of_node fun m => congrArg (·.1) (core_release m)

theorem Unbuilt.retain (h : g.Unbuilt) (hold : Hold) : (g.retain hold).Unbuilt := by
  cases hold with
  | node n => exact h.treesFrom treesFrom_retain_node
  | record r => exact h
  | ticket t => exact h

theorem Unbuilt.addCell (h : g.Unbuilt) {node : Node} (hnode : node.tree? = none) (cache : Option Value) :
    (g.addCell node cache).2.Unbuilt :=
  h.treesFrom (treesFrom_addCell hnode cache)

theorem Unbuilt.insert (h : g.Unbuilt) (r : RecordId) (name : String) (member : Member) :
    (g.insert r name member).Unbuilt := by
  have hsame : (g.modifyRecord r fun record =>
      { record with members := record.members.insert name member }).Unbuilt := h
  exact hsame.release _

theorem Unbuilt.remove (h : g.Unbuilt) (r : RecordId) (name : String) : (g.remove r name).Unbuilt := by
  have hsame : (g.modifyRecord r fun record =>
      { record with members := record.members.erase name }).Unbuilt := h
  exact hsame.release _

theorem Unbuilt.addRecord (h : g.Unbuilt) (parent : Option RecordId) : (g.addRecord parent).2.Unbuilt := by
  cases parent with
  | none => exact h
  | some parent => exact h.retain (.record parent)

theorem Unbuilt.addExpressions (h : g.Unbuilt) (r : RecordId) (stem formula : String) (count : Nat) :
    (Workspace.addExpressions g r stem formula count).Unbuilt := by
  rw [Workspace.addExpressions]
  induction List.range count generalizing g with
  | nil => exact h
  | cons i rest ih => exact ih ((h.addCell rfl _).insert r _ _)

end Graph

namespace Workspace

/-- Nothing has been built, and nobody watches. -/
structure Unread (w : Workspace) : Prop where
  unbuilt : w.graph.Unbuilt
  watches : w.watches = #[]

end Workspace

def Next.Populates (next : Next) : Prop :=
  next.2.Unread ∧ ∀ task ∈ next.1, task.populates = true

def Populates : Known Next → Prop
  | .ok next => next.Populates
  | .error _ => True

theorem Populates.bind {α : Type} {x : Known α} {f : α → Known Next}
    (h : ∀ a, x = .ok a → Populates (f a)) : Populates (x >>= f) := by
  cases x with
  | ok a => exact h a rfl
  | error id => trivial

namespace Workspace

variable {w : Workspace}

theorem Unread.reply (h : w.Unread) (answer : Answer) : Next.Populates (w.reply answer) := by
  refine ⟨h, fun task htask => ?_⟩
  rw [List.mem_singleton.mp htask]
  rfl

theorem Unread.withGraph (h : w.Unread) {g : Graph} (hg : g.Unbuilt) : { w with graph := g }.Unread :=
  ⟨hg, h.watches⟩

theorem Unread.keepNode (h : w.Unread) (id : String) (n : NodeId) : (w.keepNode id n).Unread :=
  ⟨h.unbuilt.release _, h.watches⟩

theorem Unread.keepRecord (h : w.Unread) (id : String) (r : RecordId) : (w.keepRecord id r).Unread :=
  ⟨h.unbuilt.release _, h.watches⟩

theorem Unread.keepMade (h : w.Unread) (id : String) {made : NodeId × Graph} (hmade : made.2.Unbuilt) :
    Next.Populates (w.keepMade id made) :=
  ((h.withGraph hmade).keepNode id made.1).reply _

theorem Unread.bindMade (h : w.Unread) (scope : RecordId) (name id : String) {made : NodeId × Graph}
    (hmade : made.2.Unbuilt) : Next.Populates (w.bindMade scope name id made) :=
  h.keepMade id ((hmade.retain _).insert scope name _)

mutual

theorem unread_of_makeMember (new : NewMember) {w w' : Workspace} {member : Member} (h : w.Unread)
    (hm : w.makeMember new = .ok (member, w')) : w'.Unread := by
  cases new with
  | node id =>
    rw [makeMember] at hm
    cases hn : w.nodeNamed id with
    | error id => rw [hn] at hm; cases hm
    | ok n =>
      rw [hn] at hm
      cases hm
      exact ⟨h.unbuilt.retain _, h.watches⟩
  | record id =>
    rw [makeMember] at hm
    cases hr : w.recordNamed id with
    | error id => rw [hr] at hm; cases hm
    | ok r =>
      rw [hr] at hm
      cases hm
      exact ⟨h.unbuilt.retain _, h.watches⟩
  | constant value =>
    rw [makeMember] at hm
    cases hm
    exact ⟨h.unbuilt.addCell rfl _, h.watches⟩
  | list items =>
    rw [makeMember] at hm
    cases hi : w.makeMembers items with
    | error id => rw [hi] at hm; cases hm
    | ok made =>
      rw [hi] at hm
      cases hm
      exact unread_of_makeMembers items h hi

theorem unread_of_makeMembers (items : List NewMember) {w w' : Workspace} {members : List Member}
    (h : w.Unread) (hm : w.makeMembers items = .ok (members, w')) : w'.Unread := by
  cases items with
  | nil =>
    rw [makeMembers] at hm
    cases hm
    exact h
  | cons item items =>
    rw [makeMembers] at hm
    cases hi : w.makeMember item with
    | error id => rw [hi] at hm; cases hm
    | ok first =>
      obtain ⟨member, w₁⟩ := first
      rw [hi] at hm
      cases hr : w₁.makeMembers items with
      | error id =>
        simp only [bind, Except.bind, hr] at hm
        cases hm
      | ok others =>
        obtain ⟨members, w₂⟩ := others
        simp only [bind, Except.bind, hr] at hm
        cases hm
        exact unread_of_makeMembers items (unread_of_makeMember item h hi) hr

end

theorem Unread.edit (h : w.Unread) (n : NodeId) {outcome : Edited (List Listener × Graph)}
    (hedit : ∀ listeners g, outcome = .ok (listeners, g) → g.Unbuilt) : Next.Populates (w.edit n outcome) := by
  rcases outcome with fault | ⟨listeners, g⟩
  · exact h.reply _
  · refine ⟨⟨(hedit listeners g rfl).retain _, h.watches⟩, fun task htask => ?_⟩
    rcases List.mem_append.mp htask with htask | htask
    · obtain ⟨listener, -, rfl⟩ := List.mem_map.mp htask
      rfl
    · rcases List.mem_cons.mp htask with rfl | htask
      · rfl
      · rw [List.mem_singleton.mp htask]
        rfl

theorem Unread.tell (h : w.Unread) (listener : Listener) : Next.Populates (w.tell listener) := by
  cases listener with
  | node n =>
    refine ⟨⟨h.unbuilt.treesFrom Graph.treesFrom_tell, h.watches⟩, fun task htask => ?_⟩
    obtain ⟨listener, -, rfl⟩ := List.mem_map.mp htask
    rfl
  | callback key =>
    rw [Workspace.tell, h.watches]
    exact ⟨h, fun _ htask => (List.not_mem_nil htask).elim⟩

/-- Steps that fill records build nothing. -/
theorem Unread.perform (h : w.Unread) {step : Step} (hstep : step.populates = true) :
    Populates (w.perform step) := by
  cases step with
  | record id parent =>
    refine .bind fun parent _ => ?_
    exact ((h.withGraph (h.unbuilt.addRecord parent)).keepRecord id _).reply _
  | input scope name id value =>
    exact .bind fun r _ => h.bindMade r name id (h.unbuilt.addCell rfl _)
  | expression scope name id formula =>
    exact .bind fun r _ => h.bindMade r name id (h.unbuilt.addCell rfl _)
  | expressions scope stem count formula =>
    exact .bind fun r _ => (h.withGraph (h.unbuilt.addExpressions r stem formula count)).reply _
  | insert scope name new =>
    refine .bind fun r _ => .bind fun (member, w') hmade => ?_
    have hunread := unread_of_makeMember new h hmade
    exact (hunread.withGraph (hunread.unbuilt.insert r name member)).reply _
  | push scope name new =>
    refine .bind fun r _ => .bind fun (member, w') hmade => ?_
    have hunread := unread_of_makeMember new h hmade
    have hpushed : (w'.graph.push r name member).2.Unbuilt := hunread.unbuilt
    exact (hunread.withGraph hpushed).reply _
  | remove scope name => exact .bind fun r _ => (h.withGraph (h.unbuilt.remove r name)).reply _
  | get | find | resolve => exact .bind fun r _ => h.reply _
  | names | listing => exact .bind fun r _ => h.reply _
  | handle scope name id =>
    refine .bind fun r _ => ?_
    split
    · exact h.keepMade id (h.unbuilt.retain _)
    · exact h.reply _
  | freeConstant id value => exact h.keepMade id (h.unbuilt.addCell rfl _)
  | freeInput id value => exact h.keepMade id (h.unbuilt.addCell rfl _)
  | freeExpression id scope formula => exact .bind fun r _ => h.keepMade id (h.unbuilt.addCell rfl _)
  | clone source id => exact .bind fun n _ => h.keepMade id (h.unbuilt.retain _)
  | dropNode id =>
    rw [Workspace.perform]
    split
    · exact Unread.reply (w := { w with handles := _, graph := _ }) ⟨h.unbuilt.release _, h.watches⟩ _
    · exact h.reply _
  | dropRecord id =>
    rw [Workspace.perform]
    split
    · exact Unread.reply (w := { w with records := _, graph := _ }) ⟨h.unbuilt.release _, h.watches⟩ _
    · exact h.reply _
  | set id value =>
    exact .bind fun n _ => h.edit n fun listeners g he =>
      h.unbuilt.treesFrom (Graph.setInput_treesFrom he)
  | setFormula id formula =>
    exact .bind fun n _ => h.edit n fun listeners g he =>
      h.unbuilt.treesFrom (Graph.setFormula_treesFrom he)
  | _ => cases hstep

theorem Unread.advance (h : w.Unread) {task : Task} (htask : task.populates = true) :
    Next.Populates (w.advance task) := by
  cases task with
  | perform step =>
    have hperformed := h.perform htask
    rw [Workspace.advance]
    cases hp : w.perform step with
    | ok next =>
      rw [hp] at hperformed
      exact hperformed
    | error id => exact h.reply _
  | tell listener => exact h.tell listener
  | release holds => exact ⟨⟨h.unbuilt.release holds, h.watches⟩, fun _ ht => (List.not_mem_nil ht).elim⟩
  | reply answer => exact ⟨⟨h.unbuilt, h.watches⟩, fun _ ht => (List.not_mem_nil ht).elim⟩
  | setInput | setFormula | effect | replyHistory => cases htask

theorem unread_of_run {limit : Nat} {steps : List Step} {w : Workspace}
    (hsteps : ∀ step ∈ steps, step.populates = true)
    (hr : Workspace.run limit {} (steps.map .perform) = some w) : w.Unread := by
  have hempty : ({} : Workspace).Unread := ⟨fun n => by simp [Graph.node, Graph.cell, Cell.absent, Node.tree?], rfl⟩
  have htasks : ∀ task ∈ steps.map Task.perform, task.populates = true := by
    intro task htask
    obtain ⟨step, hstep, rfl⟩ := List.mem_map.mp htask
    exact hsteps step hstep
  refine (run_induction (P := fun tasks w => w.Unread ∧ ∀ task ∈ tasks, task.populates = true)
    (fun task tasks w h => ?_) ⟨hempty, htasks⟩ hr).1
  obtain ⟨hw, hall⟩ := h
  obtain ⟨hw', hfirst⟩ := hw.advance (hall task List.mem_cons_self)
  refine ⟨hw', fun t ht => ?_⟩
  rcases List.mem_append.mp ht with ht | ht
  · exact hfirst t ht
  · exact hall t (List.mem_cons_of_mem _ ht)

end Workspace

end FormulaGraph
