import MarkupForest.Proofs.Tree.Reach
import MarkupForest.Tree.Template

/-!
# Which templates are found

The templates of a node are asked for in three ways: as nodes, as titles, and by the question whether
there are any. The first two come from a walk to the end that collects what it finds, the third from
another walk that stops at the first find. All three agree with a search through the forest that
knows nothing of walks: one goes down from the node, not below text, and looks at the kind of each
node.

## Main definitions

* `Kind.Calls`: a node of this kind calls a template that is asked for;
* `Tree.openNodes`: the nodes that are looked at.

## Main results

* `Tree.templates_eq` and `Tree.callsTemplate_eq`: what the two walks find;
* `Tree.walk_watched_templateSeeker`: how far the second walk goes;
* `Forest.templates_of_reachable`: the same for the nodes of reachable forests.
-/

namespace MarkupForest

variable {names : List String}

namespace Kind

/-- The kind is a call of a template that is asked for. An empty list of names asks for all. -/
def Calls (names : List String) (k : Kind) : Prop :=
  ∃ title, k = .template title ∧ (names = [] ∨ title.name ∈ names)

/-- Whether what is below a node of this kind is looked at. -/
def isOpen (k : Kind) : Bool := k.tag != .text

end Kind

theorem Node.isSome_wanted?_iff {n : Node} :
    (n.wanted? names).isSome = true ↔ n.kind.Calls names := by
  rw [wanted?, Option.isSome_filter, Kind.Calls]
  cases n.kind <;> simp [Kind.template?, isWanted]

instance (names : List String) : DecidablePred (Kind.Calls names) := fun k =>
  decidable_of_iff _ (Node.isSome_wanted?_iff (n := ⟨⟨0⟩, k, 0⟩))

theorem Node.isSome_wanted?_eq_decide (n : Node) :
    (n.wanted? names).isSome = decide (n.kind.Calls names) := by
  rw [Bool.eq_iff_iff, isSome_wanted?_iff, decide_eq_true_iff]

/-! ## The two walks -/

theorem Walker.belowAllButText_eq {σ : Type} (n : Node) (s : σ) :
    belowAllButText n s = (Flow.go s).toChoice n.kind.isOpen := by
  rw [belowAllButText, Flow.toChoice, Kind.isOpen]
  by_cases h : n.kind.tag = .text <;> simp [h]

theorem templateGatherer_acts (names : List String) :
    (templateGatherer names).Acts (·.kind.isOpen) fun n s =>
      .go (s ++ [n].filter (·.kind.Calls names)) where
  enter _ _ := rfl
  decide n s := by
    simp only [templateGatherer, Walker.belowAllButText_eq, Node.isSome_wanted?_eq_decide]
    by_cases h : n.kind.Calls names <;> simp [h]
  leave _ _ := rfl

theorem templateSeeker_acts (names : List String) :
    (templateSeeker names).Acts (·.kind.isOpen) (Flow.stopAt (·.kind.Calls names)) where
  enter _ _ := rfl
  decide n s := by
    simp only [templateSeeker, Walker.belowAllButText_eq, Node.isSome_wanted?_eq_decide, Flow.stopAt]
    by_cases h : n.kind.Calls names <;> simp [h, Flow.toChoice]
  leave _ _ := rfl

/-- Collecting the nodes with a property keeps their order. -/
theorem Flow.through_gather (p : Node → Bool) (ns found : List Node) :
    through (fun n s => .go (s ++ [n].filter p)) ns found = .go (found ++ ns.filter p) := by
  induction ns generalizing found with
  | nil => rw [List.filter_nil, List.append_nil]; rfl
  | cons n ns ih =>
    rw [through, andThen, ih, List.append_assoc, ← List.filter_append]
    rfl

namespace Tree

/-- The nodes that are looked at: all nodes in order, without those below text. -/
def openNodes (t : Tree) : List Node :=
  t.reached (·.kind.isOpen)

/-- The walk that collects finds all nodes that call a template that is asked for. -/
theorem templates_eq (names : List String) (t : Tree) :
    t.templates names = t.openNodes.filter (·.kind.Calls names) := by
  rw [templates, (templateGatherer_acts names).walk_eq, Flow.through_gather]
  rfl

/-- The walk that stops at the first find is stopped exactly if there is one. -/
theorem callsTemplate_eq (names : List String) (t : Tree) :
    t.callsTemplate names = t.openNodes.any (·.kind.Calls names) := by
  rw [callsTemplate, (templateSeeker_acts names).walk_eq, Flow.stopped_through_stopAt]
  rfl

/-- The walk that stops at the first find looks at no node behind it. -/
theorem walk_watched_templateSeeker (names : List String) (t : Tree) :
    t.walk (templateSeeker names).watched ((), []) =
      (t.walk (templateSeeker names) ()).map
        (·, t.openNodes.take (t.openNodes.findIdx (·.kind.Calls names) + 1)) := by
  rw [(templateSeeker_acts names).watched.walk_eq, (templateSeeker_acts names).walk_eq,
    Flow.through_stopAt_watched]
  rfl

/-- The templates asked for by name are those among all templates that have one of the names. -/
theorem templates_eq_filter (hnames : names ≠ []) (t : Tree) :
    t.templates names =
      (t.templates []).filter fun m => m.kind.template?.any (names.contains ·.name) := by
  rw [templates_eq, templates_eq, List.filter_filter]
  refine List.filter_congr fun m _ => ?_
  rw [Bool.eq_iff_iff, Bool.and_eq_true, decide_eq_true_iff, decide_eq_true_iff, Kind.Calls,
    Kind.Calls]
  cases m.kind <;> simp [Kind.template?, hnames]

/-- Each title is that of the template in the same place. -/
theorem forall₂_templateTitles (names : List String) (t : Tree) :
    List.Forall₂ (fun m name => ∃ title, m.kind = .template title ∧ title.name = name)
      (t.templates names) (t.templateTitles names) := by
  have hcalls : ∀ m ∈ t.templates names, ∃ title, m.kind = .template title := by
    intro m hm
    rw [templates_eq, List.mem_filter, decide_eq_true_iff] at hm
    obtain ⟨title, hkind, -⟩ := hm.2
    exact ⟨title, hkind⟩
  rw [templateTitles]
  generalize t.templates names = found at hcalls
  induction found with
  | nil => exact .nil
  | cons m found ih =>
    obtain ⟨⟨title, hkind⟩, hfound⟩ := List.forall_mem_cons.1 hcalls
    rw [List.filterMap_cons_some (b := title.name) (by rw [hkind]; rfl)]
    exact .cons ⟨title, hkind, rfl⟩ (ih hfound)

end Tree

/-! ## Templates in forests -/

namespace Forest

variable {f : Forest} {n : NodeId} {t : Tree}

/-- Filtering nodes by their kinds is filtering their ids by the kinds that the forest has. -/
theorem map_id_filter {ns : List Node} (hkind : ∀ m ∈ ns, f.kind? m.id = some m.kind)
    (p : Kind → Bool) :
    (ns.filter (p ·.kind)).map (·.id) = (ns.map (·.id)).filter fun m => (f.kind? m).any p := by
  rw [List.filter_map]
  refine congrArg _ (List.filter_congr fun m hm => ?_)
  rw [Function.comp_apply, hkind m hm, Option.any_some]

/-- The same holds for the place of the first node of a kind. -/
theorem findIdx_map_id {ns : List Node} (hkind : ∀ m ∈ ns, f.kind? m.id = some m.kind)
    (p : Kind → Bool) :
    (ns.map (·.id)).findIdx (fun m => (f.kind? m).any p) = ns.findIdx (p ·.kind) := by
  induction ns with
  | nil => rfl
  | cons m ns ih =>
    obtain ⟨hm, hns⟩ := List.forall_mem_cons.1 hkind
    rw [List.map_cons, List.findIdx_cons, List.findIdx_cons, ih hns, hm, Option.any_some]

/-- In a reachable forest, go down from a node, to the children of every node that is not text. This
meets some nodes of the tree of the node in order, none of them twice. For all names, the templates
that are found are those of these nodes, in this order, whose kind is a call of a template with one of
the names, or of any template if no names are given; with names they are those of all templates that
have one of the names. The titles are theirs, one by one. Whether there are any is answered by
looking at the nodes up to the first find and at no other. -/
theorem templates_of_reachable (hf : f.Reachable) (hn : f.contains n = true) :
    ∃ t l, f.tree? n = some t ∧ f.Visits (fun m => (f.kind? m).any Kind.isOpen) n l ∧
      l.Sublist t.ids ∧ l.Nodup ∧
      ∀ names,
        (t.templates names).map (·.id) = l.filter (fun m => (f.kind? m).any (·.Calls names)) ∧
        (∀ m ∈ t.templates names, f.kind? m.id = some m.kind ∧ f.line m.id = m.line) ∧
        (t.templates names).Nodup ∧
        (names ≠ [] → t.templates names =
          (t.templates []).filter fun m => m.kind.template?.any (names.contains ·.name)) ∧
        List.Forall₂ (fun m name => ∃ title, m.kind = .template title ∧ title.name = name)
          (t.templates names) (t.templateTitles names) ∧
        (t.callsTemplate names = true ↔ t.templates names ≠ []) ∧
        (t.walk (templateSeeker names).watched ((), [])).stopped = t.callsTemplate names ∧
        (t.walk (templateSeeker names).watched ((), [])).state.2.map (·.id) =
          l.take (l.findIdx (fun m => (f.kind? m).any (·.Calls names)) + 1) := by
  have hwf := hf.wellFormed
  obtain ⟨t, ht⟩ := hwf.exists_tree? hn
  obtain ⟨hvisits, hsub, hnodup⟩ := hwf.map_id_reached ht Kind.isOpen
  have hopen : ∀ m ∈ t.openNodes, f.kind? m.id = some m.kind ∧ f.line m.id = m.line :=
    fun m hm => hwf.kind?_and_line_of_mem_preorder ht (Tree.mem_preorder_of_mem_reached hm)
  have hfound : ∀ names, ∀ m ∈ t.templates names, m ∈ t.openNodes := by
    intro names m hm
    rw [Tree.templates_eq] at hm
    exact List.mem_of_mem_filter hm
  refine ⟨t, t.openNodes.map (·.id), ht, hvisits, hsub, hnodup, fun names => ⟨?_,
    fun m hm => hopen m (hfound names m hm), ?_, fun hnames => t.templates_eq_filter hnames,
    t.forall₂_templateTitles names, ?_, ?_, ?_⟩⟩
  · rw [Tree.templates_eq]
    exact map_id_filter (fun m hm => (hopen m hm).1) (·.Calls names)
  · rw [Tree.templates_eq]
    exact (List.Nodup.of_map _ hnodup).filter _
  · rw [Tree.callsTemplate_eq, Tree.templates_eq, Ne, List.filter_eq_nil_iff]
    simp
  · rw [Tree.walk_watched_templateSeeker, Tree.callsTemplate]
    cases t.walk (templateSeeker names) () <;> rfl
  · have hfirst := findIdx_map_id (fun m hm => (hopen m hm).1) (·.Calls names)
    rw [Tree.walk_watched_templateSeeker, hfirst, ← List.map_take]
    cases t.walk (templateSeeker names) () <;> rfl

/-- A page with a call inside another one, a call below text, and one more call. -/
def nestedCalls : List Command :=
  [.addLeaf (.template (.template "Flag")) 2, .addParent (.argument "country") 2 [⟨0⟩],
    .addParent (.template (.template "Infobox")) 2 [⟨1⟩], .addLeaf (.template (.template "Flag")) 3,
    .addParent (.text "x") 3 [⟨3⟩], .addLeaf (.template (.template "Cite web")) 4,
    .addPage ⟨.article "P", 1, 100⟩ [⟨2⟩, ⟨4⟩, ⟨5⟩]]

theorem templates_of_reachable_nestedCalls :
    ∃ t, (empty.runAll nestedCalls).tree? ⟨6⟩ = some t ∧
      (t.templates []).map (·.id) = [⟨2⟩, ⟨0⟩, ⟨5⟩] ∧
      (t.templates ["Flag", "Coord"]).map (·.id) = [⟨0⟩] ∧
      t.callsTemplate ["Flag", "Coord"] = true ∧
      (t.walk (templateSeeker ["Flag", "Coord"]).watched ((), [])).state.2.map (·.id) =
        [⟨6⟩, ⟨2⟩, ⟨1⟩, ⟨0⟩] := by
  have hreach : (empty.runAll nestedCalls).Reachable := .runAll .empty _ (by decide +kernel)
  have hvisited : ((empty.runAll nestedCalls).tree? ⟨6⟩).map
      (·.visited fun m => ((empty.runAll nestedCalls).kind? m).any Kind.isOpen) =
        some [⟨6⟩, ⟨2⟩, ⟨1⟩, ⟨0⟩, ⟨4⟩, ⟨5⟩] := by
    decide +kernel
  obtain ⟨t, l, ht, hvisits, -, -, hfound⟩ :=
    templates_of_reachable hreach (n := ⟨6⟩) (by decide +kernel)
  obtain rfl := (hreach.wellFormed.visits_iff ht).1 hvisits
  rw [ht, Option.map_some, Option.some.injEq] at hvisited
  rw [hvisited] at hfound
  obtain ⟨hall, -⟩ := hfound []
  obtain ⟨hflag, -, -, -, -, hcalls, -, hlooked⟩ := hfound ["Flag", "Coord"]
  refine ⟨t, ht, hall.trans (by decide +kernel), hflag.trans (by decide +kernel), hcalls.2 ?_,
    hlooked.trans (by decide +kernel)⟩
  intro hnone
  rw [hnone] at hflag
  exact absurd hflag (by decide +kernel)

end Forest

end MarkupForest
