import FormulaGraph.Proofs.Recalling
import FormulaGraph.Proofs.Searching

/-! What lasts through a read. A property of graphs that each move of a read keeps is kept by the read,
however deep it goes and whatever it builds. -/

namespace FormulaGraph

open FormulaGraph.Graph

namespace Graph

/-- The same but for what is kept, who holds and who listens. -/
structure Alike (g g' : Graph) : Prop where
  records : g'.records = g.records
  size : g'.cells.size = g.cells.size
  node (m : NodeId) : g'.node m = g.node m
  evaluating (m : NodeId) : (g'.cell m).evaluating = (g.cell m).evaluating

variable {g g' g'' : Graph} {n : NodeId} {holds : List Hold}

theorem Alike.refl (g : Graph) : g.Alike g := ⟨rfl, rfl, fun _ => rfl, fun _ => rfl⟩

theorem Alike.trans (h : g.Alike g') (h' : g'.Alike g'') : g.Alike g'' where
  records := h'.records.trans h.records
  size := h'.size.trans h.size
  node m := (h'.node m).trans (h.node m)
  evaluating m := (h'.evaluating m).trans (h.evaluating m)

theorem Alike.of_core (hrecords : g'.records = g.records) (hsize : g'.cells.size = g.cells.size)
    (hcore : ∀ m, (g'.cell m).core = (g.cell m).core) : g.Alike g' where
  records := hrecords
  size := hsize
  node m := congrArg (·.1) (hcore m)
  evaluating m := congrArg (·.2.2.2) (hcore m)

theorem alike_modifyCell {f : Cell → Cell} (hnode : ∀ c, (f c).node = c.node)
    (hevaluating : ∀ c, (f c).evaluating = c.evaluating) : g.Alike (g.modifyCell n f) where
  records := rfl
  size := size_modifyCell
  node := cell_modifyCell_congr Cell.node hnode
  evaluating := cell_modifyCell_congr Cell.evaluating hevaluating

theorem alike_release (h : ∀ x ∈ holds, x.isRecord = false) : g.Alike (g.release holds) :=
  .of_core (records_release h) size_release core_release

theorem alike_subscribe (l : Listener) : g.Alike (g.subscribe n l).2 :=
  .of_core rfl (size_subscribe l) (core_subscribe l)

theorem alike_subscribeAll (sources : List NodeId) (l : Listener) : g.Alike (g.subscribeAll sources l).2 := by
  induction sources generalizing g with
  | nil => exact .refl g
  | cons source sources ih => exact (alike_subscribe l).trans ih

theorem Alike.extends (h : g.Alike g') : g.Extends g' :=
  ⟨h.records, Nat.le_of_eq h.size.symm, fun m _ _ => h.node m⟩

theorem Alike.uses (h : g.Alike g') : g'.Uses = g.Uses := by
  funext n d
  rw [Uses, dependencies, h.node]
  rfl

theorem registered_of_unsubscribe {t t' : Ticket} {l : Listener} (h : (g.unsubscribe t).Registered t' l) :
    g.Registered t' l := by
  rw [unsubscribe] at h
  split at h
  · rw [Registered, cell_modifyCell] at h
    split at h
    next hm =>
      rw [Registered, hm.1]
      exact (Arena.holds_of_remove h).1
    · exact h
  · exact h

/-- Nobody comes to listen when something is given up. -/
theorem registered_of_release {t : Ticket} {l : Listener} (h : (g.release holds).Registered t l) :
    g.Registered t l := by
  fun_induction release g holds with
  | case1 => exact h
  | case2 g n rest hz ih => exact ih h
  | case3 g n rest left hk more ih =>
    have hbefore := ih h
    rwa [Registered, listeners_setOwners] at hbefore
  | case4 g r rest hz ih => exact ih h
  | case5 g r rest left hk more ih => exact ih h
  | case6 g t rest ih => exact registered_of_unsubscribe (ih h)

/-- The place of a ticket that is given up is empty then. -/
theorem not_registered_unsubscribe {t : Ticket} {l : Listener} (hlive : 0 < (g.cell t.source).owners) :
    ¬ (g.unsubscribe t).Registered t l := by
  intro h
  rw [unsubscribe, if_pos (show g.isLive t.source = true from decide_eq_true hlive), Registered,
    cell_modifyCell_self (lt_size_of_owners_pos hlive)] at h
  exact (Arena.holds_of_remove h).2 ⟨rfl, rfl⟩

theorem not_registered_release {t : Ticket} {l : Listener} (ht : .ticket t ∈ holds)
    (hlive : 0 < ((g.release holds).cell t.source).owners) : ¬ (g.release holds).Registered t l := by
  fun_induction release g holds with
  | case1 => cases ht
  | case2 g n rest hz ih =>
    exact ih (List.mem_of_ne_of_mem Hold.noConfusion ht) hlive
  | case3 g n rest left hk more ih =>
    exact ih (List.mem_append_right _ (List.mem_of_ne_of_mem Hold.noConfusion ht)) hlive
  | case4 g r rest hz ih =>
    exact ih (List.mem_of_ne_of_mem Hold.noConfusion ht) hlive
  | case5 g r rest left hk more ih =>
    exact ih (List.mem_append_right _ (List.mem_of_ne_of_mem Hold.noConfusion ht)) hlive
  | case6 g t' rest ih =>
    rcases List.mem_cons.mp ht with he | hrest
    · cases he
      have hlive' := Nat.lt_of_lt_of_le hlive (owners_release_le t.source)
      rw [owners_unsubscribe] at hlive'
      exact fun h => not_registered_unsubscribe hlive' (registered_of_release h)
    · exact ih hrest hlive

/-- Nobody has come to listen or has come back to life, and whoever is gone listens to nothing that is left. -/
structure Thins (g g' : Graph) : Prop where
  listeners (t : Ticket) (l : Listener) : g'.Registered t l → g.Registered t l
  live (m : NodeId) : 0 < (g'.cell m).owners → 0 < (g.cell m).owners
  leaves (m : NodeId) (t : Ticket) (l : Listener) : 0 < (g.cell m).owners → (g'.cell m).owners = 0 →
    t ∈ (g.node m).tickets → 0 < (g'.cell t.source).owners → ¬ g'.Registered t l

/-- Nobody is gone. -/
theorem Thins.of_owners (hlisteners : ∀ m, (g'.cell m).listeners = (g.cell m).listeners)
    (howners : ∀ m, 0 < (g'.cell m).owners ↔ 0 < (g.cell m).owners) : g.Thins g' where
  listeners t l h := by rwa [Registered, hlisteners] at h
  live m := (howners m).mp
  leaves m t l hm hgone _ _ := by
    have := (howners m).mpr hm
    omega

theorem thins_modifyCell {f : Cell → Cell} (hlisteners : ∀ c, (f c).listeners = c.listeners)
    (howners : ∀ c, (f c).owners = c.owners) : g.Thins (g.modifyCell n f) :=
  .of_owners (cell_modifyCell_congr Cell.listeners hlisteners) fun m => by
    rw [cell_modifyCell_congr Cell.owners howners]

theorem thins_retain (hn : 0 < (g.cell n).owners) : g.Thins (g.retain (.node n)) :=
  .of_owners listeners_setOwners fun m => by
    rw [retain, owners_setOwners (lt_size_of_owners_pos hn)]
    split
    next he => simp [he, hn]
    · rfl

theorem live_retain {hold : Hold} (hn : 0 < (g.cell n).owners) : 0 < ((g.retain hold).cell n).owners := by
  cases hold with
  | node m =>
    rw [retain, setOwners, cell_modifyCell]
    split
    · exact Nat.succ_pos _
    · exact hn
  | record r => exact hn
  | ticket t => exact hn

/-- Whoever is gone has given up its tickets. -/
theorem thins_release : g.Thins (g.release holds) where
  listeners _ _ := registered_of_release
  live m hm := Nat.lt_of_lt_of_le hm (owners_release_le m)
  leaves m t l hm hgone ht hlive := by
    fun_induction release g holds with
    | case1 g => omega
    | case2 g n rest hz ih => exact ih hm hgone ht hlive
    | case3 g n rest left hk more ih =>
      by_cases hleft : m = n ∧ left = 0
      · refine not_registered_release (List.mem_append_left _ ?_) hlive
        have hmore : more = (g.node m).holds := by
          rw [hleft.1]
          exact if_pos hleft.2
        rw [hmore, Node.holds_eq]
        exact List.mem_append_right _ (List.mem_map_of_mem ht)
      · refine ih ?_ hgone ?_ hlive
        · rw [owners_setOwners (lt_size_of_owners_pos (by omega))]
          split
          next he => exact Nat.pos_of_ne_zero fun hz => hleft ⟨he, hz⟩
          · exact hm
        · rwa [node_setOwners]
    | case4 g r rest hz ih => exact ih hm hgone ht hlive
    | case5 g r rest left hk more ih => exact ih hm hgone ht hlive
    | case6 g t' rest ih =>
      refine ih ?_ hgone ?_ hlive
      · rwa [owners_unsubscribe]
      · rwa [show (g.unsubscribe t').node m = g.node m from congrArg (·.1) (core_unsubscribe m)]

/-- Alike, with fewer who live and listen. -/
structure Fades (g g' : Graph) : Prop extends g.Alike g', g.Thins g'

theorem fades_modifyCell {f : Cell → Cell} (hnode : ∀ c, (f c).node = c.node)
    (hevaluating : ∀ c, (f c).evaluating = c.evaluating) (hlisteners : ∀ c, (f c).listeners = c.listeners)
    (howners : ∀ c, (f c).owners = c.owners) : g.Fades (g.modifyCell n f) :=
  ⟨alike_modifyCell hnode hevaluating, thins_modifyCell hlisteners howners⟩

theorem fades_retain (hn : 0 < (g.cell n).owners) : g.Fades (g.retain (.node n)) :=
  ⟨alike_modifyCell (by exact fun _ => rfl) (by exact fun _ => rfl), thins_retain hn⟩

theorem fades_release (h : ∀ x ∈ holds, x.isRecord = false) : g.Fades (g.release holds) :=
  ⟨alike_release h, thins_release⟩

end Graph

/-- Kept by each move of a read. The nodes that are being worked out meanwhile are `busy`. -/
structure Lasts (P : List NodeId → Graph → Prop) : Prop where
  alike {busy : List NodeId} {g g' : Graph} : P busy g → g.Alike g' → P busy g'
  /-- A node is made for a formula, from nodes that are there. -/
  add {busy : List NodeId} {g : Graph} {node : Node} (cache : Option Value) : P busy g → node.isMade = true →
    (∀ d ∈ node.dependencies, d < g.cells.size) → P busy (g.addCell node cache).2
  start {busy : List NodeId} {g : Graph} (n : NodeId) :
    P busy g → P (n :: busy) (g.modifyCell n fun c => { c with evaluating := true })
  finish {busy : List NodeId} {g : Graph} {n : NodeId} :
    P (n :: busy) g → P busy (g.modifyCell n fun c => { c with evaluating := false })
  /-- An edit is taken back. -/
  takeBack {busy : List NodeId} {g : Graph} {n : NodeId} {scope : RecordId} {text : String} {old : Tree} :
    P busy g → g.node n = .expression scope (.edited text old) →
      P busy (g.modifyCell n fun c => { c with node := .expression scope (.built old) })
  /-- A tree that has been built, and through which the expression does not come to read itself, is put in
  place. -/
  install {busy : List NodeId} {g : Graph} {n : NodeId} {scope : RecordId} {source : Source} {tree : Tree} :
    P busy g → g.node n = .expression scope source → source.pending? = some tree.text →
      g.BuiltFrom scope tree.text tree.root → tree.root < g.cells.size →
      ¬ Relation.ReflTransGen g.Uses tree.root n →
        P busy (g.modifyCell n fun c => { c with node := .expression scope (.built tree) })

/-- Kept by each move of a read, also by one that has somebody listen. The nodes that are being worked out
meanwhile are `busy`. -/
structure Abides (P : List NodeId → Graph → Prop) : Prop where
  fades {busy : List NodeId} {g g' : Graph} : P busy g → g.Fades g' → P busy g'
  constant {busy : List NodeId} {g : Graph} (v : Value) : P busy g → P busy (g.addConstant v).2
  /-- From nodes that are there. -/
  calculation {busy : List NodeId} {g : Graph} {operands : List NodeId} (operation : Operation) (offset : Nat) :
    P busy g → (∀ d ∈ operands, d < g.cells.size) → P busy (g.addCalculation operation operands offset).2
  start {busy : List NodeId} {g : Graph} (n : NodeId) :
    P busy g → P (n :: busy) (g.modifyCell n fun c => { c with evaluating := true })
  finish {busy : List NodeId} {g : Graph} {n : NodeId} :
    P (n :: busy) g → P busy (g.modifyCell n fun c => { c with evaluating := false })
  /-- An edit is taken back. -/
  takeBack {busy : List NodeId} {g : Graph} {n : NodeId} {scope : RecordId} {text : String} {old : Tree} :
    P busy g → g.node n = .expression scope (.edited text old) →
      P busy (g.modifyCell n fun c => { c with node := .expression scope (.built old) })
  /-- A tree that has been built, and through which a live expression does not come to read itself, is put in
  the place of the old one. -/
  install {busy : List NodeId} {g : Graph} {ext : List Hold} {n root : NodeId} {scope : RecordId}
    {source : Source} {text : String} :
    P busy g → g.Accounts ext → 0 < (g.cell n).owners → g.node n = .expression scope source →
      source.pending? = some text → g.BuiltFrom scope text root → root < g.cells.size →
      ¬ Relation.ReflTransGen g.Uses root n → P busy ((installTree n scope text root source.tree?).run g).2

/-- A read keeps it. -/
def Keeps (P : List NodeId → Graph → Prop) (read : Reader) : Prop :=
  ∀ {busy : List NodeId} {g : Graph} {ext : List Hold} {told : List NodeId} {n : NodeId}, g.Sound ext told →
    g.Anchored ext n → P busy g → P busy ((read n).run.run g).2

section

variable {P : List NodeId → Graph → Prop} {busy : List NodeId} {g g' : Graph} {ext : List Hold}
  {told : List NodeId} {n root : NodeId} {scope : RecordId} {source : Source} {read : Reader}

theorem Lasts.calculation (hP : Lasts P) (h : P busy g) {operands : List NodeId} (operation : Operation)
    (offset : Nat) (hoperands : ∀ d ∈ operands, d < g.cells.size) :
    P busy (g.addCalculation operation operands offset).2 := by
  have halike : g.Alike (g.subscribeAll operands (.node g.cells.size)).2 := alike_subscribeAll operands _
  rw [Graph.addCalculation]
  refine hP.add none (hP.alike h halike) rfl fun d hd => ?_
  rw [halike.size]
  exact hoperands d hd

theorem Lasts.installTree (hP : Lasts P) {text : String} {old : Option Tree} (hg : P busy g)
    (hnode : g.node n = .expression scope source) (hp : source.pending? = some text)
    (hbuilt : g.BuiltFrom scope text root) (hroot : root < g.cells.size)
    (hfree : ¬ Relation.ReflTransGen g.Uses root n) :
    P busy ((installTree n scope text root old).run g).2 := by
  have halike : g.Alike (g.subscribe root (.node n)).2 := alike_subscribe _
  rw [run_installTree]
  have hsame := (halike.node n).trans hnode
  refine hP.alike (hP.install (hP.alike hg halike) hsame hp ?_ ?_ ?_) (alike_release (isRecord_of_mem_oldHolds old))
  · exact hbuilt.extends halike.extends
  · rw [halike.size]
    exact hroot
  · rw [halike.uses]
    exact hfree

/-- What does not depend on who listens. -/
theorem Lasts.abides (hP : Lasts P) : Abides P where
  fades h hf := hP.alike h hf.toAlike
  constant v h := hP.add (some v) h rfl fun _ hd => nomatch hd
  calculation operation offset h hoperands := hP.calculation h operation offset hoperands
  start := hP.start
  finish := hP.finish
  takeBack := hP.takeBack
  install h _ _ hnode hp hbuilt hroot hfree := hP.installTree h hnode hp hbuilt hroot hfree

theorem graphBuilder_lasts (hP : Abides P) (hread : Reads read) (hkeeps : Keeps P read) (g : Graph)
    (ext : List Hold) (told busy : List NodeId) :
    (graphBuilder read).Keeps (fun nodes g' => g.Holding ext told nodes g' ∧ P busy g')
      fun r => 0 < (g.record r).owners := by
  have hheld := graphBuilder_keeps hread g ext told
  exact
    { recount := fun hcount h => ⟨hheld.recount hcount h.1, h.2⟩
      literal := fun v h => ⟨hheld.literal v h.1, hP.constant v h.2⟩
      calculate := fun {arguments l s} operation offset h => by
        have hcalculated := hheld.calculate operation offset h.1
        have hlasts : P busy (((graphBuilder read).calculate operation arguments offset).run s).2 := by
          have hlive : ∀ d ∈ arguments, 0 < (s.cell d).owners := fun d hd =>
            (Anchored.held (List.mem_append_left _ hd)).live h.1.1.accounts
          obtain ⟨hadded, -⟩ := h.1.addCalculation operation offset
          have hafter := hkeeps hadded (.outside List.mem_cons_self)
            (hP.calculation operation offset h.2 fun d hd => lt_size_of_owners_pos (hlive d hd))
          rw [run_calculate]
          generalize (read (s.addCalculation operation arguments offset).1).run.run
            (s.addCalculation operation arguments offset).2 = r at hafter
          rcases r with ⟨e | v, g'⟩
          · exact hP.fades hafter (fades_release (by simp [Hold.isRecord]))
          · exact hafter
        generalize ((graphBuilder read).calculate operation arguments offset).run s = r at hcalculated hlasts
        rcases r with ⟨e | a, s'⟩
        · exact ⟨hcalculated, hlasts⟩
        · exact ⟨hcalculated, hlasts⟩
      kind := fun hmem h => ⟨hheld.kind hmem h.1, hkeeps h.1.1 (.held hmem) h.2⟩
      resolve := fun {r l s} name hr h => by
        obtain ⟨hresolved, hopen⟩ := hheld.resolve name hr h.1
        refine ⟨⟨hresolved, ?_⟩, hopen⟩
        rw [run_resolve]
        rcases hm : s.resolve? r name with _ | ⟨n | r' | items⟩
        · exact h.2
        · exact hP.fades h.2 (fades_retain (live_of_resolve? h.1.1.accounts (h.1.2.record_live hr) hm))
        · exact h.2
        · exact h.2
      discard := fun {as l s} h => ⟨hheld.discard h.1, hP.fades h.2 (fades_release (isRecord_of_mem_nodes as))⟩ }

theorem parse_lasts (hP : Abides P) (hread : Reads read) (hkeeps : Keeps P read) (h : g.Sound ext told)
    (hr : g.scopeIsLive scope = true) (hg : P busy g) (text : String) :
    P busy (((graphBuilder read).parse scope text).run g).2 := by
  have hlive : 0 < (g.record scope).owners := of_decide_eq_true hr
  have hparse := (graphBuilder_lasts hP hread hkeeps g ext told busy).parse (l := []) hlive text
    ⟨⟨h, .refl g⟩, hg⟩
  generalize ((graphBuilder read).parse scope text).run g = parsed at hparse ⊢
  rcases parsed with ⟨e | root, g'⟩
  · exact hparse.2
  · exact hparse.2

/-- A tree that is built leads nowhere near the expression it is for. -/
theorem buildTree_lasts (hP : Abides P) (hread : Reads read) (hkeeps : Keeps P read) (h : g.Sound ext told)
    (hg : P busy g) (n : NodeId) (scope : RecordId) (text : String) :
    P busy ((buildTree read n scope text).run.run g).2 ∧
      ∀ root, ((buildTree read n scope text).run.run g).1 = .ok root →
        ((buildTree read n scope text).run.run g).2.BuiltFrom scope text root ∧
          ¬ Relation.ReflTransGen ((buildTree read n scope text).run.run g).2.Uses root n := by
  rw [run_buildTree]
  by_cases hs : g.scopeIsLive scope = true
  · have hparse := parse_lasts hP hread hkeeps h hs hg text
    have hbuilt : ∀ root g', ((graphBuilder read).parse scope text).run g = (.ok root, g') →
        g'.BuiltFrom scope text root :=
      fun root g' => parse_builtFrom hread h (of_decide_eq_true hs)
    rw [if_pos hs]
    generalize ((graphBuilder read).parse scope text).run g = parsed at hparse hbuilt ⊢
    rcases parsed with ⟨e | root, g'⟩
    · exact ⟨hparse, fun _ he => by cases he⟩
    · dsimp only
      by_cases hd : g'.dependsOn root n = true
      · rw [if_pos hd]
        exact ⟨hP.fades hparse (fades_release (by simp [Hold.isRecord])), fun _ he => by cases he⟩
      · rw [if_neg hd]
        refine ⟨hparse, fun root' he => ?_⟩
        cases he
        exact ⟨hbuilt root g' rfl, fun hreach => hd (dependsOn_iff.mpr hreach)⟩
  · rw [if_neg hs]
    exact ⟨hg, fun _ he => by cases he⟩

theorem buildTree_installs (hP : Abides P) (hread : Reads read) (hkeeps : Keeps P read)
    (h : g.Working ext told n g) (hg : P busy g) (hnode : g.node n = .expression scope source) {text : String}
    (hp : source.pending? = some text) :
    match (buildTree read n scope text).run.run g with
    | (.ok root, g') => P busy ((installTree n scope text root source.tree?).run g').2
    | (.error _, g') => P busy g' ∧ g'.node n = g.node n := by
  have hlt := lt_size_of_owners_pos (h.anchored.live h.sound.accounts)
  have hbuild := buildTree_sound hread h.sound n scope text
  have hlasts := buildTree_lasts hP hread hkeeps h.sound hg n scope text
  generalize (buildTree read n scope text).run.run g = built at hbuild hlasts ⊢
  rcases built with ⟨e | root, g'⟩
  · exact ⟨hlasts.1, hbuild.2.node n trivial hlt (.inr h.evaluating)⟩
  · have hsame : g'.node n = _ := (hbuild.2.node n trivial hlt (.inr h.evaluating)).trans hnode
    obtain ⟨hbuilt, hfree⟩ := hlasts.2 root rfl
    have hroot := lt_size_of_owners_pos (hbuild.1.accounts.node_live List.mem_cons_self)
    have hanchored := (h.anchored.grows h.sound.accounts hbuild.2).mono fun x hx => List.mem_cons_of_mem (.node root) hx
    have hlive := hanchored.live hbuild.1.accounts
    exact hP.install hlasts.1 hbuild.1.accounts hlive hsame hp hbuilt hroot hfree

theorem currentTree_lasts (hP : Abides P) (hread : Reads read) (hkeeps : Keeps P read)
    (h : g.Working ext told n g) (hg : P busy g) (hnode : g.node n = .expression scope source) :
    P busy ((currentTree read n scope source).run.run g).2 := by
  rw [run_currentTree]
  cases source with
  | built tree => exact hg
  | unbuilt text =>
    have hbuild := buildTree_installs hP hread hkeeps h hg hnode rfl
    dsimp only
    generalize (buildTree read n scope text).run.run g = built at hbuild ⊢
    rcases built with ⟨e | root, g'⟩
    · exact hbuild.1
    · exact hbuild
  | edited text old =>
    have hbuild := buildTree_installs hP hread hkeeps h hg hnode rfl
    dsimp only
    generalize (buildTree read n scope text).run.run g = built at hbuild ⊢
    rcases built with ⟨e | root, g'⟩
    · exact hP.takeBack hbuild.1 (hbuild.2.trans hnode)
    · exact hbuild

theorem mapM_lasts (hread : Reads read) (hkeeps : Keeps P read) (nodes : List NodeId) (h : g.Sound ext told)
    (hnodes : ∀ m ∈ nodes, g.Anchored ext m) (hg : P busy g) : P busy ((nodes.mapM read).run.run g).2 := by
  induction nodes generalizing g with
  | nil => exact hg
  | cons m nodes ih =>
    have hm := hnodes m List.mem_cons_self
    obtain ⟨hsound, hgrows, -⟩ := hread h hm
    have hlasts := hkeeps h hm hg
    rw [List.mapM_cons, run_bind_except]
    generalize (read m).run.run g = first at hsound hgrows hlasts ⊢
    obtain ⟨e | v, g₁⟩ := first
    · exact hlasts
    · have hrest := ih hsound (fun d hd => (hnodes d (List.mem_cons_of_mem _ hd)).grows h.accounts hgrows)
        hlasts
      dsimp only
      rw [run_bind_except]
      generalize (nodes.mapM read).run.run g₁ = rest at hrest ⊢
      obtain ⟨e | values, g₂⟩ := rest
      · exact hrest
      · exact hrest

theorem compute_lasts (hP : Abides P) (hread : Reads read) (hkeeps : Keeps P read)
    (h : g.Working ext told n g) (hg : P busy g) : P busy ((compute read n).run.run g).2 := by
  rw [run_compute]
  cases hn : g.node n with
  | constant value | input value => exact hg
  | calculation operation operands offset tickets =>
    have hmapM := mapM_lasts (P := P) hread hkeeps operands h.sound (fun m hm =>
      h.anchored.dependency (by rw [hn]; rfl) (by rw [dependencies, hn]; exact hm)) hg
    dsimp only
    generalize (operands.mapM read).run.run g = r at hmapM ⊢
    obtain ⟨e | values, g'⟩ := r
    · exact hmapM
    · exact hmapM
  | expression scope source =>
    have hcurrent := currentTree_working hread h hn
    have hlasts := currentTree_lasts hP hread hkeeps h hg hn
    dsimp only
    generalize (currentTree read n scope source).run.run g = r at hcurrent hlasts ⊢
    obtain ⟨e | tree, g'⟩ := r
    · exact hlasts
    · obtain ⟨hworking, htree⟩ := hcurrent
      have hn' := htree tree rfl
      have hanchored : g'.Anchored ext tree.root :=
        hworking.anchored.dependency (by rw [hn']; rfl) (by
          rw [dependencies, hn']
          exact List.mem_singleton_self _)
      exact hkeeps hworking.sound hanchored hlasts

theorem alike_keepResult (n : NodeId) (result : Checked Value) (g : Graph) :
    (g.modifyCell n fun c => { c with evaluating := false }).Alike ((keepResult n result).run g).2 := by
  have hkept : ∀ f : Cell → Cell, (∀ c, (f c).node = c.node) → (∀ c, (f c).evaluating = false) →
      (g.modifyCell n fun c => { c with evaluating := false }).Alike (g.modifyCell n f) := by
    intro f hnode hf
    refine ⟨rfl, size_modifyCell.trans size_modifyCell.symm, fun m => ?_, fun m => ?_⟩
    · exact (cell_modifyCell_congr Cell.node hnode m).trans
        (cell_modifyCell_congr Cell.node (by exact fun _ => rfl) m).symm
    · rw [cell_modifyCell, cell_modifyCell]
      split
      · exact hf _
      · rfl
  cases result with
  | ok v =>
    rw [run_keepResult_ok]
    exact hkept _ (by exact fun _ => rfl) (by exact fun _ => rfl)
  | error e =>
    rw [run_keepResult_error]
    exact hkept _ (by exact fun _ => rfl) (by exact fun _ => rfl)

theorem fades_keepResult (n : NodeId) (result : Checked Value) (g : Graph) :
    (g.modifyCell n fun c => { c with evaluating := false }).Fades ((keepResult n result).run g).2 := by
  refine ⟨alike_keepResult n result g, .of_owners (fun m => ?_) fun m => ?_⟩
  · rw [cell_modifyCell_congr Cell.listeners (by exact fun _ => rfl)]
    cases result with
    | ok v => rw [run_keepResult_ok, cell_modifyCell_congr Cell.listeners (by exact fun _ => rfl)]
    | error e => rw [run_keepResult_error, cell_modifyCell_congr Cell.listeners (by exact fun _ => rfl)]
  · rw [cell_modifyCell_congr Cell.owners (by exact fun _ => rfl)]
    cases result with
    | ok v => rw [run_keepResult_ok, cell_modifyCell_congr Cell.owners (by exact fun _ => rfl)]
    | error e => rw [run_keepResult_error, cell_modifyCell_congr Cell.owners (by exact fun _ => rfl)]

theorem evaluateNode_lasts (hP : Abides P) (hread : Reads read) (hkeeps : Keeps P read) (h : g.Sound ext told)
    (hn : g.Anchored ext n) (hdirty : (g.cell n).dirty = true) (hg : P busy g) :
    P busy ((evaluateNode read n).run.run g).2 := by
  rw [run_evaluateNode]
  by_cases he : (g.cell n).evaluating = true
  · rw [if_pos he]
    exact hg
  · rw [if_neg he]
    have hcomputed := compute_lasts hP hread hkeeps (working_setEvaluating h hn hdirty) (hP.start n hg)
    dsimp only
    generalize (compute read n).run.run (g.modifyCell n fun c => { c with evaluating := true }) = computed
      at hcomputed ⊢
    exact hP.fades (hP.finish hcomputed) (fades_keepResult n computed.1 computed.2)

theorem settleAll_lasts (hP : Abides P) (hread : Reads read) (hkeeps : Keeps P read) {nodes : List NodeId}
    (h : g.Sound ext told) (hnodes : ∀ m ∈ nodes, g.Anchored ext m) (hg : P busy g) :
    P busy ((settleAll read nodes).run g).2 := by
  induction nodes generalizing g with
  | nil => exact hg
  | cons n nodes ih =>
    have hrest := fun d hd => hnodes d (List.mem_cons_of_mem n hd)
    rw [run_settleAll_cons]
    by_cases hdirty : (g.cell n).dirty = true
    · rw [if_pos hdirty]
      have hn := hnodes n List.mem_cons_self
      obtain ⟨hsound, hgrows, -⟩ := evaluateNode_sound hread h hn hdirty
      have hlasts := evaluateNode_lasts hP hread hkeeps h hn hdirty hg
      generalize (evaluateNode read n).run.run g = r at hsound hgrows hlasts ⊢
      obtain ⟨e | v, g'⟩ := r
      · exact hlasts
      · exact ih hsound (fun d hd => (hrest d hd).grows h.accounts hgrows) hlasts
    · rw [if_neg hdirty]
      exact ih h hrest hg

theorem settle_lasts (hP : Abides P) (hread : Reads read) (hkeeps : Keeps P read) (h : g.Sound ext told)
    (hn : g.Anchored ext n) (hdirty : (g.cell n).dirty = true) (hg : P busy g) :
    P busy ((settle read n).run g).2 := by
  have hstart := working_setEvaluating h hn hdirty
  have hall := settleAll_lasts hP hread hkeeps hstart.sound
    (settleOrder_anchored hstart.sound.accounts hstart.anchored) (hP.start n hg)
  rw [run_settle]
  exact hP.finish hall

theorem readWith_keeps (hP : Abides P) (hread : Reads read) (hkeeps : Keeps P read) :
    Keeps P (readWith read) := by
  intro busy g ext told n h hn hg
  rw [run_readWith]
  by_cases hdirty : (g.cell n).dirty = true
  · rw [if_pos hdirty]
    dsimp only
    by_cases he : (g.cell n).evaluating = true
    · rw [if_pos he]
      exact hg
    · rw [if_neg he]
      obtain ⟨hsound, hgrows, hdirty'⟩ := settle_sound hread h hn hdirty (Bool.eq_false_iff.mpr he)
      have hsettled := settle_lasts hP hread hkeeps h hn hdirty hg
      exact evaluateNode_lasts hP hread hkeeps hsound (hn.grows h.accounts hgrows) hdirty' hsettled
  · obtain ⟨v, hv⟩ := h.coherent.cached n (hn.live h.accounts) (Bool.eq_false_iff.mpr hdirty)
    rw [if_neg hdirty, hv]
    exact hg

/-- However deep a read goes, by induction on how deep it may go. -/
theorem readWithin_keeps (hP : Abides P) (limit : Nat) : Keeps P (readWithin limit) := by
  induction limit with
  | zero => exact fun _ _ hg => hg
  | succ limit ih => exact readWith_keeps hP (readWithin_reads limit) ih

theorem readNode_keeps (hP : Abides P) : Keeps P readNode := by
  intro busy g ext told n h hn hg
  rw [run_readNode]
  exact readWithin_keeps hP g.depthLimit h hn hg

end

end FormulaGraph
