import MarkupForest.Proofs.Tree.Reach
import MarkupForest.Tree.Contribution
import MarkupForest.Tree.PlainText

/-!
# The two texts of a tree

The text of a tree is read in two ways. The plain text is put together from the bottom up and leaves
out calls; the contributed text is gathered by a walk that stays out of templates and tables. They
differ in what they leave out and in what the first one adds: separators in tables, and the
destinations of links without a label.

Where nothing of this comes up, the two are the same, and there is nothing in them but the texts of
text nodes in order.

## Main definitions

* `Kind.isTransparent`: what is below a node of this kind may be seen in both texts;
* `Kind.textWithin`: the text of a node that adds nothing of its own, from the texts below it;
* `Kind.isPlain`: a node of this kind is read in the same way for both texts.

## Main results

* `Tree.contribution_eq` and `Tree.contribution_eq_fold`: the contributed text, without a walk;
* `Tree.Plain.fold_eq`: what is put together from the bottom up in a plain tree;
* `Tree.Plain.plainText_eq` and `Tree.Plain.contribution_eq`: the texts of plain trees;
* `Forest.texts_of_reachable`: the texts of the nodes of reachable forests.
-/

namespace MarkupForest

namespace Kind

/-- What is below a node of this kind may be seen in both texts. -/
def isTransparent (k : Kind) : Bool :=
  k.tag != .template && k.tag != .text

/-- What is below a node of this kind is gathered. -/
def isGathered (k : Kind) : Bool :=
  k.isTransparent && k.tag != .table

/-- The text of a node that adds nothing of its own: that of the node if it is text, and the texts
below it if it is entered. -/
def textWithin (enters : Kind → Bool) (k : Kind) (parts : List String) : String :=
  k.text?.getD "" ++ if enters k then String.join parts else ""

/-- A node of this kind with this many children is read in the same way for both texts: it is no
table, no parser function, no row whose cells are kept apart, and no link without a label. -/
def isPlain : Kind → Nat → Bool
  | table _, _ => false
  | parserFunction _, _ => false
  | tableRow, branches => branches < 2
  | internalLink _, branches => 0 < branches
  | externalLink _, branches => 0 < branches
  | _, _ => true

/-- The plain text of a plain node has nothing in it but text. -/
theorem plainText_of_isPlain {k : Kind} {parts : List String} (h : k.isPlain parts.length = true) :
    k.plainText parts = k.textWithin isTransparent parts := by
  cases k with
  | table | parserFunction => cases h
  | tableRow =>
    match parts, h with
    | [], _ => rfl
    | [part], _ => simp [plainText, textWithin, text?, isTransparent, tag]
  | internalLink | externalLink =>
    have hparts : parts ≠ [] := List.length_pos_iff.1 (of_decide_eq_true h)
    simp [plainText, textWithin, text?, isTransparent, tag, hparts]
  | page | heading | template | argument | text | tableCell =>
    simp [plainText, textWithin, text?, isTransparent, tag]

/-- A plain node is entered for both texts or for neither. -/
theorem isGathered_of_isPlain {k : Kind} {branches : Nat} (h : k.isPlain branches = true) :
    k.isGathered = k.isTransparent := by
  cases k with
  | table => cases h
  | _ => simp [isGathered, tag]

end Kind

/-! ## Gathering text -/

theorem textGatherer_acts :
    textGatherer.Acts (·.kind.isGathered) fun n s => .go (s ++ n.kind.text?.getD "") where
  enter _ _ := rfl
  decide n s := by
    simp only [textGatherer, Flow.toChoice]
    cases n.kind <;> simp [Kind.isGathered, Kind.isTransparent, Kind.tag, Kind.text?]
  leave _ _ := rfl

/-- Gathering the texts of some nodes joins them in order. -/
theorem Flow.through_join (ns : List Node) (s : String) :
    through (fun n s => .go (s ++ n.kind.text?.getD "")) ns s =
      .go (s ++ String.join (ns.filterMap (·.kind.text?))) := by
  induction ns generalizing s with
  | nil => simp [through]
  | cons n ns ih =>
    rw [through, andThen, ih, String.append_assoc]
    cases hn : n.kind.text? with
    | none => simp [hn]
    | some text => simp [hn]

namespace Tree

/-- The contributed text is made of the texts of the nodes that the walk comes to. -/
theorem contribution_eq (t : Tree) :
    t.contribution = String.join ((t.reached (·.kind.isGathered)).filterMap (·.kind.text?)) := by
  rw [contribution, textGatherer_acts.walk_eq, Flow.through_join, Flow.state, String.empty_append]

private theorem join_flatMap {ts : List Tree} {k : Tree → List String} :
    String.join (ts.flatMap k) = String.join (ts.map fun t => String.join (k t)) := by
  induction ts with
  | nil => rfl
  | cons t ts ih => rw [List.flatMap_cons, String.join_append, ih, List.map_cons, String.join_cons]

/-- Joining texts from the bottom up gives the texts of the nodes that are reached, in order. -/
theorem fold_textWithin (enters : Kind → Bool) (t : Tree) :
    t.fold (fun n => n.kind.textWithin enters) =
      String.join ((t.reached (enters ·.kind)).filterMap (·.kind.text?)) := by
  induction t with
  | mk n ts ih =>
    have hhead : ∀ ns : List Node, String.join ((n :: ns).filterMap (·.kind.text?)) =
        n.kind.text?.getD "" ++ String.join (ns.filterMap (·.kind.text?)) := fun ns => by
      cases hn : n.kind.text? <;> simp [hn]
    rw [fold_mk, reached_mk, hhead, Kind.textWithin, List.map_congr_left ih]
    split
    · rw [List.filterMap_flatMap, join_flatMap]
    · rfl

/-- The contributed text can also be put together from the bottom up. -/
theorem contribution_eq_fold (t : Tree) :
    t.contribution = t.fold fun n => n.kind.textWithin Kind.isGathered := by
  rw [contribution_eq, fold_textWithin]

/-! ## Plain trees -/

/-- All nodes of the tree are plain, apart from those that are not seen in either text. -/
inductive Plain : Tree → Prop
  | mk {n : Node} {ts : List Tree} (root : n.kind.isPlain ts.length = true)
      (children : n.kind.isTransparent = true → ∀ t ∈ ts, Plain t) : Plain (mk n ts)

/-- What adds nothing but text at plain nodes adds nothing but text in a plain tree. Nothing is
known about what hangs below templates and text, but there it does not count. -/
theorem Plain.fold_eq {t : Tree} (h : t.Plain) {k : Kind → List String → String}
    (hk : ∀ kind parts, kind.isPlain parts.length = true →
      k kind parts = kind.textWithin Kind.isTransparent parts) :
    (t.fold fun n => k n.kind) = t.fold fun n => n.kind.textWithin Kind.isTransparent := by
  induction t with
  | mk n ts ih =>
    cases h with
    | mk hroot hchildren =>
      rw [fold_mk, fold_mk, hk n.kind _ (by rwa [List.length_map]), Kind.textWithin,
        Kind.textWithin]
      split
      next hn => rw [List.map_congr_left fun t ht => ih t ht (hchildren hn t ht)]
      next => rfl

/-- The plain text of a plain tree is made of the texts of its text nodes. -/
theorem Plain.plainText_eq {t : Tree} (h : t.Plain) :
    t.plainText = t.fold fun n => n.kind.textWithin Kind.isTransparent :=
  h.fold_eq fun _ _ hplain => Kind.plainText_of_isPlain hplain

/-- So is its contributed text: where there are no tables, the walk stays out of nothing else. -/
theorem Plain.contribution_eq {t : Tree} (h : t.Plain) :
    t.contribution = t.fold fun n => n.kind.textWithin Kind.isTransparent := by
  rw [contribution_eq_fold]
  refine h.fold_eq fun kind parts hplain => ?_
  rw [Kind.textWithin, Kind.textWithin, Kind.isGathered_of_isPlain hplain]

end Tree

/-! ## Texts of nodes -/

namespace Forest

variable {f : Forest} {n : NodeId} {t : Tree}

/-- If all nodes that are met by going down the forest are plain, then so is the tree. -/
theorem WellFormed.plain_of_visited (hf : f.WellFormed) (ht : f.tree? n = some t)
    (h : ∀ m ∈ t.visited fun m => (f.kind? m).any Kind.isTransparent,
      (f.kind? m).any (·.isPlain (f.children m).length) = true) : t.Plain := by
  induction n using hf.wellFounded_child.induction generalizing t with
  | _ n ih =>
    have hlength := (hf.branches_of_tree? ht).2.length_eq
    rw [hf.tree?_eq] at ht
    obtain ⟨kind, hkind, rfl⟩ := Option.map_eq_some_iff.1 ht
    rw [Tree.visited_mk, List.forall_mem_cons] at h
    obtain ⟨hroot, hbelow⟩ := h
    rw [hkind, Option.any_some, hlength] at hroot
    refine .mk hroot fun htransparent u hu => ?_
    rw [hkind, Option.any_some, if_pos htransparent] at hbelow
    obtain ⟨c, hc, hcu⟩ := List.mem_filterMap.1 hu
    exact ih c (hf.mem_children_iff.1 hc) hcu fun m hm =>
      hbelow m (List.mem_flatten_of_mem (List.mem_map_of_mem hu) hm)

/-- In a reachable forest, go down from a node, to the children of every node that is neither a
template nor text. If this meets no table, no parser function, no table row with two or more
children and no link without children, then the plain text of the node is the text that it
contributes, and both are the texts of the text nodes that are met, one after the other. -/
theorem texts_of_reachable (hf : f.Reachable) (hn : f.contains n = true) :
    ∃ t l, f.tree? n = some t ∧ f.Visits (fun m => (f.kind? m).any Kind.isTransparent) n l ∧
      l.Sublist t.ids ∧ l.Nodup ∧
      ((∀ m ∈ l, (f.kind? m).any (·.isPlain (f.children m).length) = true) →
        t.plainText = t.contribution ∧
        t.contribution = String.join (l.filterMap fun m => (f.kind? m).bind Kind.text?)) := by
  have hwf := hf.wellFormed
  obtain ⟨t, ht⟩ := hwf.exists_tree? hn
  obtain ⟨hvisits, hsub, hnodup⟩ := hwf.map_id_reached ht Kind.isTransparent
  refine ⟨t, _, ht, hvisits, hsub, hnodup, fun hplain => ?_⟩
  rw [(hwf.visits_iff ht).1 hvisits] at hplain
  have htree : t.Plain := hwf.plain_of_visited ht hplain
  refine ⟨htree.plainText_eq.trans htree.contribution_eq.symm, ?_⟩
  have htexts : ∀ m ∈ t.reached (·.kind.isTransparent),
      m.kind.text? = (f.kind? m.id).bind Kind.text? := by
    intro m hm
    rw [(hwf.kind?_and_line_of_mem_preorder ht (Tree.mem_preorder_of_mem_reached hm)).1,
      Option.bind_some]
  rw [htree.contribution_eq, Tree.fold_textWithin, List.filterMap_map]
  exact congrArg String.join (List.filterMap_congr htexts)

/-- A page with a heading, a template around a table and an unlabelled link, text above a table, and
a row whose only cell holds a link with a label. -/
def plainParts : List Command :=
  [.addLeaf (.text " Life ") 1, .addParent (.heading "Life" 2) 1 [⟨0⟩],
    .addLeaf (.table (some "c")) 2, .addLeaf (.internalLink (.article "Paris")) 2,
    .addParent (.template (.template "T")) 2 [⟨2⟩, ⟨3⟩], .addLeaf (.table none) 3,
    .addParent (.text "in ") 3 [⟨5⟩], .addLeaf (.text "London") 4,
    .addParent (.internalLink (.article "London, England")) 4 [⟨7⟩],
    .addParent .tableCell 4 [⟨8⟩], .addParent .tableRow 4 [⟨9⟩],
    .addPage ⟨.article "P", 1, 100⟩ [⟨1⟩, ⟨4⟩, ⟨6⟩, ⟨10⟩]]

theorem texts_of_reachable_plainParts :
    ∃ t, (empty.runAll plainParts).tree? ⟨11⟩ = some t ∧ t.plainText = t.contribution ∧
      t.contribution = " Life in London" := by
  have hreach : (empty.runAll plainParts).Reachable := .runAll .empty _ (by decide +kernel)
  have hvisited : ((empty.runAll plainParts).tree? ⟨11⟩).map
      (·.visited fun m => ((empty.runAll plainParts).kind? m).any Kind.isTransparent) =
        some [⟨11⟩, ⟨1⟩, ⟨0⟩, ⟨4⟩, ⟨6⟩, ⟨10⟩, ⟨9⟩, ⟨8⟩, ⟨7⟩] := by
    decide +kernel
  obtain ⟨t, l, ht, hvisits, -, -, htexts⟩ :=
    texts_of_reachable hreach (n := ⟨11⟩) (by decide +kernel)
  obtain rfl := (hreach.wellFormed.visits_iff ht).1 hvisits
  rw [ht, Option.map_some, Option.some.injEq] at hvisited
  rw [hvisited] at htexts
  obtain ⟨hsame, htext⟩ := htexts (by decide +kernel)
  exact ⟨t, ht, hsame, htext.trans (by decide +kernel)⟩

end Forest

end MarkupForest
