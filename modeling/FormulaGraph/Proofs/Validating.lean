import FormulaGraph.Proofs.Mirroring
import FormulaGraph.Proofs.Plain
import FormulaGraph.Proofs.Restoring

/-! Formulas that are tried out and not put in place. Whether they are accepted or not, and wherever it fails, the
trees that were built are given up again, and nobody else can tell that they have been there. -/

namespace FormulaGraph

open FormulaGraph.Graph

namespace Graph

/-- The same nodes are left, with the same formulas, dependencies and inputs, as many listen to each, and those that
were clean are clean. -/
structure Unedited (g g' : Graph) : Prop where
  live (m : NodeId) : g'.isLive m = g.isLive m
  node (m : NodeId) : g.isLive m = true → g'.node m = g.node m
  listeners (m : NodeId) : g.isLive m = true → (g'.listening m).length = (g.listening m).length
  clean (m : NodeId) : g.isLive m = true → (g.cell m).dirty = false → (g'.cell m).dirty = false

/-- A later state in which all that was taken meanwhile is given up again but for `held`. -/
structure Borrows (g : Graph) (ext held : List Hold) (s : Graph) : Prop where
  sound : s.Sound (held ++ ext) []
  grows : g.Grows s
  spare : s.spare (held ++ ext) = g.spare ext
  keeps {Q : Nat → List NodeId → Graph → Prop} {k : Nat} : Outlasts Q → Q k [] g → Q k [] s

variable {g g' g'' s s' : Graph} {ext held held' given : List Hold} {trees trees' : Replaced} {n m root : NodeId}
  {scope : RecordId} {text : String}

theorem Unedited.trans (h : g.Unedited g') (h' : g'.Unedited g'') : g.Unedited g'' where
  live m := (h'.live m).trans (h.live m)
  node m hm := (h'.node m ((h.live m).trans hm)).trans (h.node m hm)
  listeners m hm := (h'.listeners m ((h.live m).trans hm)).trans (h.listeners m hm)
  clean m hm hclean := h'.clean m ((h.live m).trans hm) (h.clean m hm hclean)

theorem Unedited.refl (g : Graph) : g.Unedited g :=
  ⟨fun _ => rfl, fun _ _ => rfl, fun _ _ => rfl, fun _ _ h => h⟩

theorem unedited_retain (hn : g.isLive n = true) : g.Unedited (g.retain (.node n)) := by
  have hn' : 0 < (g.cell n).owners := of_decide_eq_true hn
  have hlive : ∀ m, (g.retain (.node n)).isLive m = g.isLive m := fun m => by
    rw [isLive, isLive, retain, owners_setOwners (lt_size_of_owners_pos hn')]
    split
    next he => simp [he, hn']
    next => rfl
  refine ⟨hlive, fun m _ => node_setOwners m, fun m _ => ?_, fun m _ hclean => ?_⟩
  · have hhears : (g.retain (.node n)).hears = g.hears := by
      funext l
      cases l with
      | node m => exact hlive m
      | callback key => rfl
    rw [listening, listening, hhears, retain, listeners_setOwners]
  · rw [retain, setOwners, cell_modifyCell_congr Cell.dirty (by exact fun _ => rfl)]
    exact hclean

/-- Nobody notices that nodes are held once more. -/
theorem unedited_retainAll (nodes : List NodeId) (h : ∀ n ∈ nodes, g.isLive n = true) :
    g.Unedited (g.retainAll (nodes.map .node)) := by
  rw [retainAll]
  induction nodes generalizing g with
  | nil => exact .refl g
  | cons n nodes ih =>
    have hfirst := unedited_retain (h n List.mem_cons_self)
    exact hfirst.trans (ih fun m hm => (hfirst.live m).trans (h m (List.mem_cons_of_mem _ hm)))

theorem Borrows.refl (h : g.Sound ext []) : g.Borrows ext [] g :=
  ⟨h, .refl g, rfl, fun _ hg => hg⟩

theorem Borrows.perm (h : g.Borrows ext held s) (hperm : held.Perm held') : g.Borrows ext held' s where
  sound := h.sound.perm (hperm.append_right ext)
  grows := h.grows
  spare := (spare_of_countP fun _ => (hperm.append_right ext).symm.countP_eq _).trans h.spare
  keeps := h.keeps

theorem Borrows.release (h : g.Borrows ext (given ++ held) s) (hgiven : ∀ x ∈ given, x.isRecord = false) :
    g.Borrows ext held (s.release given) := by
  obtain ⟨hsound, hgrows, hspare, hkeeps⟩ := h
  rw [List.append_assoc] at hsound hspare
  exact ⟨hsound.release, hgrows.trans (grows_release hgiven), (spare_release hsound.accounts).trans hspare,
    fun hQ hg => hQ.outlives.release (hkeeps hQ hg) given⟩

/-- A formula that cannot be built has given up what there was of it. -/
theorem Borrows.parse (h : g.Borrows ext held s) (hs : s.scopeIsLive scope = true) (text : String) :
    match s.parse scope text with
    | (.ok root, s') => g.Borrows ext (.node root :: held) s'
    | (.error _, s') => g.Borrows ext held s' := by
  have hsound := parse_sound readNode_reads h.sound hs text
  have hspare := parse_balances readNode_reads readNode_balances h.sound hs text
  have hkeeps : ∀ {Q : Nat → List NodeId → Graph → Prop} {k}, Outlasts Q → Q k [] g →
      Q k [] (s.parse scope text).2 := fun hQ hg => hQ.parse (h.keeps hQ hg) h.sound hs text
  rw [Graph.parse] at hkeeps ⊢
  generalize ((graphBuilder readNode).parse scope text).run s = parsed at hsound hspare hkeeps ⊢
  rcases parsed with ⟨e | root, s'⟩
  · exact ⟨hsound.1, h.grows.trans hsound.2, hspare.trans h.spare, hkeeps⟩
  · exact ⟨hsound.1, h.grows.trans hsound.2, hspare.trans h.spare, hkeeps⟩

theorem borrows_checkFormula (h : g.Sound ext []) (n : NodeId) (text : String) :
    g.Borrows ext [] (g.checkFormula n text).2 := by
  rw [checkFormula]
  cases g.node n with
  | constant | input | calculation => exact .refl h
  | expression scope source =>
    dsimp only
    rw [run_buildTree]
    by_cases hs : g.scopeIsLive scope = true
    · have hparse := (Borrows.refl h).parse hs text
      rw [if_pos hs]
      rw [Graph.parse] at hparse
      generalize ((graphBuilder readNode).parse scope text).run g = parsed at hparse ⊢
      rcases parsed with ⟨e | root, s⟩
      · exact hparse
      · -- A tree that leads back to the expression is given up as one that does not.
        have hreleased : g.Borrows ext [] (s.release [.node root]) := hparse.release (by simp [Hold.isRecord])
        dsimp only
        split
        next he =>
          split at he <;> cases he
          exact hreleased
        next he =>
          split at he <;> cases he
          exact hreleased
    · rw [if_neg hs]
      exact .refl h

theorem perm_lookup (hd : (trees.map Prod.fst).Nodup) (n : NodeId) :
    ((trees.lookup n).toList.map Hold.node ++ Replaced.holds (trees.filter (·.1 ≠ n))).Perm
      (Replaced.holds trees) := by
  induction trees with
  | nil => exact .refl _
  | cons entry trees ih =>
    obtain ⟨m, root⟩ := entry
    obtain ⟨hm, hd⟩ := List.nodup_cons.mp hd
    rw [List.lookup_cons]
    by_cases he : n = m
    · subst he
      have hnone : trees.filter (·.1 ≠ n) = trees := List.filter_eq_self.mpr fun entry hentry => by
        have hne : entry.1 ≠ n := fun he => hm (List.mem_map.mpr ⟨entry, hentry, he⟩)
        simpa using hne
      rw [beq_self_eq_true, List.filter_cons_of_neg (by simp), hnone]
      exact .refl _
    · rw [beq_eq_false_iff_ne.mpr he, List.filter_cons_of_pos (by simpa using Ne.symm he)]
      exact List.perm_middle.trans ((ih hd).cons _)

/-- Of the trees that are had meanwhile there is one at most for each expression. -/
theorem Borrows.replace (h : g.Borrows ext (.node root :: Replaced.holds trees) s)
    (hd : (trees.map Prod.fst).Nodup) (n : NodeId) :
    g.Borrows ext (Replaced.holds ((n, root) :: trees.filter (·.1 ≠ n)))
      (s.release ((trees.lookup n).toList.map .node)) := by
  refine (h.perm (((perm_lookup hd n).symm.cons _).trans List.perm_middle.symm)).release fun x hx => ?_
  obtain ⟨root, -, rfl⟩ := List.mem_map.mp hx
  rfl

theorem nodup_replace (hd : (trees.map Prod.fst).Nodup) (n root : NodeId) :
    (((n, root) :: trees.filter (·.1 ≠ n)).map Prod.fst).Nodup := by
  refine List.nodup_cons.mpr ⟨fun hn => ?_, hd.sublist (List.filter_sublist.map _)⟩
  obtain ⟨entry, hentry, he⟩ := List.mem_map.mp hn
  simpa [he] using (List.mem_filter.mp hentry).2

theorem Borrows.release_replaced (h : g.Borrows ext (Replaced.holds trees) s) :
    g.Borrows ext [] (s.release (trees.map (.node ·.2))) := by
  have hall : g.Borrows ext (trees.map (.node ·.2) ++ []) s := by
    rw [List.append_nil]
    exact h
  refine hall.release fun x hx => ?_
  obtain ⟨entry, -, rfl⟩ := List.mem_map.mp hx
  rfl

/-- By induction on the edits, with the trees that have been built for those before. -/
theorem Borrows.buildAll (h : g.Borrows ext (Replaced.holds trees) s) (hd : (trees.map Prod.fst).Nodup)
    (edits : List (NodeId × String)) :
    match s.buildAll trees edits with
    | (.ok trees', s') => g.Borrows ext (Replaced.holds trees') s'
    | (.error _, s') => g.Borrows ext [] s' := by
  fun_induction Graph.buildAll s trees edits with
  | case1 => exact h
  | case2 s trees n text edits scope source hnode hs root s₁ hparse s₂ ih =>
    have hparsed := h.parse hs text
    rw [hparse] at hparsed
    exact ih (hparsed.replace hd n) (nodup_replace hd n root)
  | case3 s trees n text edits scope source hnode hs e s₁ hparse =>
    have hparsed := h.parse hs text
    rw [hparse] at hparsed
    exact hparsed.release_replaced
  | case4 => exact h.release_replaced
  | case5 => exact h.release_replaced

theorem borrows_checkFormulas (h : g.Sound ext []) (edits : List (NodeId × String)) :
    g.Borrows ext [] (g.checkFormulas edits).2 := by
  have hnone : g.Borrows ext (Replaced.holds []) g := .refl h
  have hbuilt := hnone.buildAll List.nodup_nil edits
  rw [checkFormulas]
  generalize g.buildAll [] edits = built at hbuilt ⊢
  rcases built with ⟨fault | trees, s⟩
  · exact hbuilt
  · exact hbuilt.release_replaced

/-- A change that is made holds nodes that are there. -/
theorem Unedited.formulaChange {edits : List (NodeId × String)} (h : g.Unedited (g.checkFormulas edits).2)
    (hedits : ∀ e ∈ edits, g.isLive e.1 = true) : g.Unedited (g.formulaChange edits).2 := by
  rw [Graph.formulaChange]
  generalize g.checkFormulas edits = checked at h ⊢
  rcases checked with ⟨fault | ⟨⟩, g'⟩
  · exact h
  · have hholds : (Change.formulas (g'.formulaEdits edits)).holds = (edits.map Prod.fst).map .node := by
      rw [Change.holds, formulaEdits, List.map_map, List.map_map]
      rfl
    dsimp only
    rw [hholds]
    refine h.trans (unedited_retainAll _ fun n hn => ?_)
    obtain ⟨e, he, rfl⟩ := List.mem_map.mp hn
    exact (h.live e.1).trans (hedits e he)

end Graph

/-- Builds formulas, and puts none of them in place. -/
def Step.triesOut : Step → Bool
  | .check .. | .checkAll .. | .parse .. | .prepare _ (.formulas _) => true
  | _ => false

/-- All that is left to do is to answer. -/
def Next.Answers (log : List Event) (next : Next) : Prop :=
  ∃ answer, next.1 = [.reply answer] ∧ next.2.log = log

def KnownAnswers (log : List Event) : Known Next → Prop
  | .ok next => next.Answers log
  | .error _ => True

theorem KnownAnswers.bind {log : List Event} {α : Type} {x : Known α} {f : α → Known Next}
    (h : ∀ a, x = .ok a → KnownAnswers log (f a)) : KnownAnswers log (x >>= f) := by
  cases x with
  | ok a => exact h a rfl
  | error id => trivial

namespace Workspace

variable {w : Workspace} {g : Graph}

/-- With nothing left of what was taken, the same nodes are left, and hold and are held as before. -/
theorem unedited_of_borrows (hsound : w.Sound [] []) (he : w.Enrolled) (ho : w.graph.Orderly)
    (hsteady : ∀ m, w.graph.isLive m = true → (w.graph.node m).isPending = false)
    (h : w.graph.Borrows w.holds [] g) : w.graph.Unedited g := by
  have hnode : ∀ m, 0 < (w.graph.cell m).owners → g.node m = w.graph.node m := fun m hm =>
    h.grows.node m trivial (lt_size_of_owners_pos hm) (.inl (hsteady m (decide_eq_true hm)))
  have hholds : ∀ m, 0 < (w.graph.cell m).owners → (g.node m).holds = (w.graph.node m).holds := fun m hm =>
    congrArg Node.holds (hnode m hm)
  have hlive := live_iff_of_spare hsound.accounts ho h.sound.accounts (h.keeps (k := 0) endures_orderly.outlasts ho)
    h.grows.records h.spare hholds
  refine ⟨fun m => decide_eq_decide.mpr (hlive m), fun m hm => hnode m (of_decide_eq_true hm), fun m hm => ?_,
    fun m hm hclean => (h.grows.clean m trivial (lt_size_of_owners_pos (of_decide_eq_true hm)) hclean).1⟩
  have hm' : 0 < (w.graph.cell m).owners := of_decide_eq_true hm
  have hbefore := he.length_listening hsound hm'
  have hafter := (he.outlasts fun hQ => h.keeps hQ).length_listening h.sound ((hlive m).mpr hm')
  rw [tally_of_live h.grows.records hlive hholds] at hafter
  exact hafter.trans hbefore.symm

theorem answers_checked (outcome : Edited Unit × Graph) : (w.checked outcome).Answers w.log := by
  obtain ⟨fault | ⟨⟩, g⟩ := outcome <;> exact ⟨_, rfl, rfl⟩

theorem log_of_makeChange {edits : List (String × String)} {made : Edited Change × Workspace}
    (h : w.makeChange (.formulas edits) = .ok made) : made.2.log = w.log := by
  rw [makeChange] at h
  cases hn : w.nodesNamed edits with
  | error id =>
    rw [hn] at h
    cases h
  | ok named =>
    rw [hn] at h
    cases h
    rfl

theorem answers_perform {step : Step} (hstep : step.triesOut = true) : KnownAnswers w.log (w.perform step) := by
  cases step with
  | check | checkAll => exact .bind fun _ _ => answers_checked _
  | parse id scope text =>
    refine .bind fun r _ => ?_
    split <;> exact ⟨_, rfl, rfl⟩
  | prepare id change =>
    cases change with
    | formulas edits =>
      refine .bind fun made hm => ?_
      have hlog := log_of_makeChange hm
      obtain ⟨fault | change, w'⟩ := made <;> exact ⟨_, rfl, hlog⟩
    | prepared | marker | value => cases hstep
  | _ => cases hstep

/-- Nobody is told that formulas are tried out: what is logged is the answer. -/
theorem log_of_triesOut {step : Step} (hstep : step.triesOut = true) :
    ∃ answer w', w.run 2 [.perform step] = some w' ∧ w'.log = .answered answer :: w.log := by
  have hperformed : KnownAnswers w.log (w.perform step) := answers_perform hstep
  obtain ⟨answer, htasks, hlog⟩ : (w.advance (.perform step)).Answers w.log := by
    rw [advance]
    cases hp : w.perform step with
    | ok next =>
      rw [hp] at hperformed
      exact hperformed
    | error id => exact ⟨_, rfl, rfl⟩
  refine ⟨answer, (w.advance (.perform step)).2.note (.answered answer), ?_, congrArg (_ :: ·) hlog⟩
  rw [run]
  dsimp only
  rw [htasks]
  rfl

/-- In every state that is reached and in which no formula waits to be built, formulas that are tried out leave no
trace, alone or together, whether they are accepted or not; nor does one that cannot be built. Nobody is told. -/
theorem unedited_of_triedOut {limit : Nat} {steps : List Step}
    (h : Workspace.run limit {} (steps.map .perform) = some w)
    (hsteady : ∀ m, w.graph.isLive m = true → (w.graph.node m).isPending = false) :
    (∀ n text, w.graph.Unedited (w.graph.checkFormula n text).2) ∧
      (∀ edits, w.graph.Unedited (w.graph.checkFormulas edits).2) ∧
      (∀ edits, (∀ e ∈ edits, w.graph.isLive e.1 = true) → w.graph.Unedited (w.graph.formulaChange edits).2) ∧
      (∀ scope text e g, w.graph.scopeIsLive scope = true → w.graph.parse scope text = (.error e, g) →
        w.graph.Unedited g) ∧
      ∀ step, step.triesOut = true →
        ∃ answer w', w.run 2 [.perform step] = some w' ∧ w'.log = .answered answer :: w.log := by
  obtain ⟨hsound, henrolled⟩ := enrolled_of_run h
  have hborrows : ∀ {g}, w.graph.Borrows w.holds [] g → w.graph.Unedited g :=
    unedited_of_borrows hsound henrolled (orderly_of_run h) hsteady
  have hall : ∀ edits, w.graph.Unedited (w.graph.checkFormulas edits).2 := fun edits =>
    hborrows (borrows_checkFormulas hsound edits)
  refine ⟨fun n text => hborrows (borrows_checkFormula hsound n text), hall,
    fun edits hedits => (hall edits).formulaChange hedits, fun scope text e g hs hparse => ?_,
    fun step hstep => log_of_triesOut hstep⟩
  have hparsed := (Borrows.refl hsound).parse hs text
  rw [hparse] at hparsed
  exact hborrows hparsed

/-- "f" is above "e", and a callback listens to "a", which both read. -/
def triedSteps : List Step :=
  [.record "r" none, .input "r" "a" "a" (.bool true), .expression "r" "e" "e" "!a && a",
    .expression "r" "f" "f" "e || a", .read "f", .watch "w" "a" [.read "e"]]

/-- "f" leads back to "e" unless it is edited as well. A part of the last formula is built before the name is looked
up that stands for nothing. -/
theorem unedited_of_refused :
    ∃ w e f r, Workspace.run 100 {} (triedSteps.map .perform) = some w ∧
      (∀ m, w.graph.isLive m = true → (w.graph.node m).isPending = false) ∧
      (w.graph.checkFormula e "f").1.isOk = false ∧ w.graph.Unedited (w.graph.checkFormula e "f").2 ∧
      (w.graph.checkFormulas [(f, "!a"), (e, "f")]).1.isOk = true ∧
        w.graph.Unedited (w.graph.checkFormulas [(f, "!a"), (e, "f")]).2 ∧
      (w.graph.formulaChange [(f, "!a"), (e, "!f && nope")]).1.isOk = false ∧
        w.graph.Unedited (w.graph.formulaChange [(f, "!a"), (e, "!f && nope")]).2 ∧
      (∃ error g, w.graph.parse r "!f && nope" = (.error error, g) ∧ w.graph.Unedited g) ∧
      ∃ answer w', w.run 2 [.perform (.check "e" "f")] = some w' ∧ w'.log = .answered answer :: w.log := by
  have hrun : ((Workspace.run 100 {} (triedSteps.map .perform)).bind fun w => w.handles["e"]?.bind fun e =>
      w.handles["f"]?.bind fun f => w.records["r"]?.map fun r =>
        [w.graph.cells.all (fun c => c.owners == 0 || !c.node.isPending), w.graph.isLive e, w.graph.isLive f,
          w.graph.scopeIsLive r, (w.graph.checkFormula e "f").1.isOk,
          (w.graph.checkFormulas [(f, "!a"), (e, "f")]).1.isOk,
          (w.graph.formulaChange [(f, "!a"), (e, "!f && nope")]).1.isOk, (w.graph.parse r "!f && nope").1.isOk]) =
      some [true, true, true, true, false, true, false, false] := by
    decide +kernel
  obtain ⟨w, hw, hrun⟩ := Option.bind_eq_some_iff.mp hrun
  obtain ⟨e, -, hrun⟩ := Option.bind_eq_some_iff.mp hrun
  obtain ⟨f, -, hrun⟩ := Option.bind_eq_some_iff.mp hrun
  obtain ⟨r, -, hrun⟩ := Option.map_eq_some_iff.mp hrun
  simp only [List.cons.injEq, and_true] at hrun
  obtain ⟨hall, he, hf, hscope, hone, htwo, hchange, hparse⟩ := hrun
  have hsteady := steady_of_all hall
  obtain ⟨halone, htogether, hchanged, hfailed, hsilent⟩ := unedited_of_triedOut hw hsteady
  refine ⟨w, e, f, r, hw, hsteady, hone, halone e _, htwo, htogether _, hchange, hchanged _ fun edit hedit => ?_, ?_,
    hsilent _ rfl⟩
  · rcases List.mem_pair.mp hedit with rfl | rfl
    · exact hf
    · exact he
  · generalize hparsed : w.graph.parse r "!f && nope" = parsed at hparse
    rcases parsed with ⟨error | root, g⟩
    · exact ⟨error, g, rfl, hfailed r _ error g hscope hparsed⟩
    · cases hparse

end Workspace

end FormulaGraph
