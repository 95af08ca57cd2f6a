import MarkupForest.Proofs.Forest.Representation
import MarkupForest.Proofs.Tree.Text
import MarkupForest.Proofs.Uri.Counting

/-!
# Hidden content

The texts of a tree hide some of it: the plain text what is inside templates and parser functions,
the contributed text what is inside templates and tables. What is hidden leaves no trace in them:
two trees that are the same as far as they are not hidden have the same text, and the URIs that are
made from them are the same.

The hidden part is cut off a tree by `Tree.prune`. It may lie at any depth, and what is around it
still counts, so cutting it off must not change what the nodes above make of it.

## Main definitions

* `Kind.blank`: a kind without its title, name or caption;
* `Tree.prune`: a tree without what is below nodes of some kinds.

## Main results

* `Tree.fold_prune`: combining a pruned tree, if the nodes at the cuts make nothing of what is
  below;
* `Tree.plainText_prune` and `Tree.contribution_prune`: the texts of a pruned tree;
* `Forest.hidden_of_reachable`: nothing hidden shows in the texts and URIs of nodes.
-/

namespace MarkupForest

/-- The kind without the title of a template, the name of a parser function or the caption of a
table.
-/
def Kind.blank : Kind → Kind
  | template _ => .template (.template "")
  | parserFunction _ => .parserFunction ""
  | table _ => .table none
  | k => k

namespace Tree

variable {α : Type} {hides : List KindTag}

/-- The tree without what is below nodes of the given kinds, and without their own data. -/
def prune (hides : List KindTag) (t : Tree) : Tree :=
  t.fold fun n branches =>
    if hides.contains n.kind.tag then mk { n with kind := n.kind.blank } [] else mk n branches

theorem prune_mk (hides : List KindTag) (n : Node) (ts : List Tree) :
    (mk n ts).prune hides =
      if hides.contains n.kind.tag then mk { n with kind := n.kind.blank } []
      else mk n (ts.map (prune hides)) :=
  fold_mk _ n ts

/-- If nothing is made of what is below the nodes at the cuts, nor of their data, then pruning
changes nothing for the nodes above either. -/
theorem fold_prune {k : Kind → List α → α}
    (hk : ∀ kind : Kind, hides.contains kind.tag = true → ∀ parts, k kind.blank [] = k kind parts)
    (t : Tree) : (t.prune hides).fold (fun n => k n.kind) = t.fold fun n => k n.kind := by
  induction t with
  | mk n ts ih =>
    rw [prune_mk, fold_mk]
    split
    next hn => rw [fold_mk, List.map_nil, hk n.kind hn]
    next =>
      rw [fold_mk, List.map_map]
      exact congrArg (k n.kind) (List.map_congr_left ih)

/-- The inside of templates and parser functions does not show in the plain text. -/
theorem plainText_prune (t : Tree) :
    (t.prune [.template, .parserFunction]).plainText = t.plainText := by
  refine fold_prune (k := Kind.plainText) (fun kind hkind parts => ?_) t
  cases kind with
  | template | parserFunction => rfl
  | _ => simp [Kind.tag] at hkind

/-- The inside of templates and tables does not show in the contributed text. -/
theorem contribution_prune (t : Tree) :
    (t.prune [.template, .table]).contribution = t.contribution := by
  rw [contribution_eq_fold, contribution_eq_fold]
  refine fold_prune (fun kind hkind parts => ?_) t
  cases kind with
  | template | table => rfl
  | _ => simp [Kind.tag] at hkind

end Tree

/-! ## Hidden content of nodes -/

/-- The URI for a tree, and what an issuer holds after it, depend on the contributed text alone. -/
theorem Uri.Issuer.Same.issueFor {i j : Issuer} (h : i.Same j) {t u : Tree}
    (htext : t.contribution = u.contribution) (base : String) :
    (i.issueFor base (some t)).1 = (j.issueFor base (some u)).1 ∧
      (i.issueFor base (some t)).2.Same (j.issueFor base (some u)).2 := by
  have htree : i.issueFor base (some t) = i.issueFor base (some u) := by
    rw [Issuer.issueFor, Issuer.issueFor, Option.map_some, Option.map_some, htext]
  rw [htree]
  exact h.serve (.ofTree base (some u))

namespace Forest

variable {f g : Forest} {a b : NodeId}

/-- For two nodes of two reachable forests, take away everything below templates and parser
functions, and their titles and names. If the trees of the nodes then have the same shape and nodes
of the same kind in the same places, their plain text is the same. Likewise, if this is so after
taking away everything below templates and tables, and their titles and captions, then they
contribute the same text; and from any base, issuers that hold the same make the same URI from them,
and hold the same after it. -/
theorem hidden_of_reachable (hf : f.Reachable) (hg : g.Reachable) (ha : f.contains a = true)
    (hb : g.contains b = true) :
    ∃ t u, f.tree? a = some t ∧ g.tree? b = some u ∧
      ((t.prune [.template, .parserFunction]).Corresponds (fun n m => n.kind = m.kind)
          (u.prune [.template, .parserFunction]) →
        t.plainText = u.plainText) ∧
      ((t.prune [.template, .table]).Corresponds (fun n m => n.kind = m.kind)
          (u.prune [.template, .table]) →
        t.contribution = u.contribution ∧
        ∀ i j : Uri.Issuer, i.Same j → ∀ base,
          (i.issueFor base (some t)).1 = (j.issueFor base (some u)).1 ∧
            (i.issueFor base (some t)).2.Same (j.issueFor base (some u)).2) := by
  obtain ⟨t, ht⟩ := hf.wellFormed.exists_tree? ha
  obtain ⟨u, hu⟩ := hg.wellFormed.exists_tree? hb
  refine ⟨t, u, ht, hu, fun h => ?_, fun h => ?_⟩
  · rw [← t.plainText_prune, ← u.plainText_prune]
    exact h.plainText_eq fun _ _ hnm => hnm
  · have htext : t.contribution = u.contribution := by
      rw [← t.contribution_prune, ← u.contribution_prune, Tree.contribution_eq_fold,
        Tree.contribution_eq_fold]
      exact h.fold_eq fun n m hnm => by rw [hnm]
    exact ⟨htext, fun i j hsame base => hsame.issueFor htext base⟩

/-- A row with a call in a cell, and a heading with a table and a parser function. -/
def withSecrets : List Command :=
  [.addLeaf (.text "secret") 1, .addParent (.argument "k") 1 [⟨0⟩],
    .addParent (.template (.template "T")) 1 [⟨1⟩], .addParent .tableCell 1 [⟨2⟩],
    .addLeaf (.text "x") 1, .addParent .tableCell 1 [⟨4⟩], .addParent .tableRow 1 [⟨3⟩, ⟨5⟩],
    .addLeaf (.text "secret") 2, .addParent (.table (some "c")) 2 [⟨7⟩], .addLeaf (.text "y") 2,
    .addParent (.parserFunction "if") 2 [⟨9⟩], .addParent (.heading "H" 2) 2 [⟨8⟩, ⟨10⟩]]

/-- The same with another call and an empty table. -/
def withoutSecrets : List Command :=
  [.addLeaf (.template (.template "U")) 1, .addParent .tableCell 1 [⟨0⟩], .addLeaf (.text "x") 1,
    .addParent .tableCell 1 [⟨2⟩], .addParent .tableRow 1 [⟨1⟩, ⟨3⟩], .addLeaf (.table none) 2,
    .addLeaf (.text "y") 2, .addParent (.parserFunction "if") 2 [⟨6⟩],
    .addParent (.heading "H" 2) 2 [⟨5⟩, ⟨7⟩]]

theorem hidden_of_reachable_withSecrets :
    (∃ t u, (empty.runAll withSecrets).tree? ⟨6⟩ = some t ∧
      (empty.runAll withoutSecrets).tree? ⟨4⟩ = some u ∧
      t.ids = [⟨6⟩, ⟨3⟩, ⟨2⟩, ⟨1⟩, ⟨0⟩, ⟨5⟩, ⟨4⟩] ∧
      t.plainText = "\tx" ∧ u.plainText = "\tx") ∧
    ∃ t u, (empty.runAll withSecrets).tree? ⟨11⟩ = some t ∧
      (empty.runAll withoutSecrets).tree? ⟨8⟩ = some u ∧ t.contribution = "y" ∧
      (Uri.Issuer.issueFor { limit := 9 } "b" (some t)).1 =
        (Uri.Issuer.issueFor { limit := 9 } "b" (some u)).1 := by
  have hfull : (empty.runAll withSecrets).Reachable := .runAll .empty _ (by decide +kernel)
  have hbare : (empty.runAll withoutSecrets).Reachable := .runAll .empty _ (by decide +kernel)
  refine ⟨?_, ?_⟩
  · obtain ⟨t, u, ht, hu, hplain, -⟩ :=
      hidden_of_reachable (a := ⟨6⟩) (b := ⟨4⟩) hfull hbare (by decide +kernel) (by decide +kernel)
    have ht' : (empty.runAll withSecrets).tree? ⟨6⟩ =
        some (.mk ⟨⟨6⟩, .tableRow, 1⟩ [.mk ⟨⟨3⟩, .tableCell, 1⟩
          [.mk ⟨⟨2⟩, .template (.template "T"), 1⟩ [.mk ⟨⟨1⟩, .argument "k", 1⟩
            [.mk ⟨⟨0⟩, .text "secret", 1⟩ []]]],
          .mk ⟨⟨5⟩, .tableCell, 1⟩ [.mk ⟨⟨4⟩, .text "x", 1⟩ []]]) := rfl
    have hu' : (empty.runAll withoutSecrets).tree? ⟨4⟩ =
        some (.mk ⟨⟨4⟩, .tableRow, 1⟩ [.mk ⟨⟨1⟩, .tableCell, 1⟩
          [.mk ⟨⟨0⟩, .template (.template "U"), 1⟩ []],
          .mk ⟨⟨3⟩, .tableCell, 1⟩ [.mk ⟨⟨2⟩, .text "x", 1⟩ []]]) := rfl
    obtain rfl := Option.some.inj (ht.symm.trans ht')
    obtain rfl := Option.some.inj (hu.symm.trans hu')
    have hsame := hplain (.mk rfl (.cons (.mk rfl (.cons (.mk rfl .nil) .nil))
      (.cons (.mk rfl (.cons (.mk rfl .nil) .nil)) .nil)))
    exact ⟨_, _, ht, hu, rfl, by decide +kernel, hsame.symm.trans (by decide +kernel)⟩
  · obtain ⟨t, u, ht, hu, -, htext⟩ :=
      hidden_of_reachable (a := ⟨11⟩) (b := ⟨8⟩) hfull hbare (by decide +kernel) (by decide +kernel)
    have ht' : (empty.runAll withSecrets).tree? ⟨11⟩ =
        some (.mk ⟨⟨11⟩, .heading "H" 2, 2⟩ [.mk ⟨⟨8⟩, .table (some "c"), 2⟩
          [.mk ⟨⟨7⟩, .text "secret", 2⟩ []],
          .mk ⟨⟨10⟩, .parserFunction "if", 2⟩ [.mk ⟨⟨9⟩, .text "y", 2⟩ []]]) := rfl
    have hu' : (empty.runAll withoutSecrets).tree? ⟨8⟩ =
        some (.mk ⟨⟨8⟩, .heading "H" 2, 2⟩ [.mk ⟨⟨5⟩, .table none, 2⟩ [],
          .mk ⟨⟨7⟩, .parserFunction "if", 2⟩ [.mk ⟨⟨6⟩, .text "y", 2⟩ []]]) := rfl
    obtain rfl := Option.some.inj (ht.symm.trans ht')
    obtain rfl := Option.some.inj (hu.symm.trans hu')
    obtain ⟨-, huris⟩ := htext (.mk rfl (.cons (.mk rfl .nil)
      (.cons (.mk rfl (.cons (.mk rfl .nil) .nil)) .nil)))
    exact ⟨_, _, ht, hu, by decide +kernel, (huris _ _ ⟨rfl, fun _ => rfl⟩ "b").1⟩

end Forest

end MarkupForest
