import MarkupForest.Proofs.Forest.Kept
import MarkupForest.Proofs.Forest.Memory
import MarkupForest.Proofs.Tree.Json
import MarkupForest.Tree.PlainText

/-!
# Independence of the representation

Two forests can hold the same tree in different ways: the nodes have been made in another order and
so have other ids, they stand on other lines, and other calls have been made before. What is read out
of the tree of a node depends on none of this, only on the shape of the tree and the kinds of its
nodes. Where an answer is made of nodes, these stand in the same places of the two trees.

The hash of a node's content also depends on the line of the node and on the revision of its page.
It is the same for two nodes if these are, unless it has been kept from earlier.

## Main definitions

* `Tree.Opposite`: two nodes stand in the same place of two trees.

## Main results

* `Tree.Corresponds.opposite`: corresponding trees also correspond by place;
* `Tree.Corresponds.plainText_eq` and `Tree.Corresponds.callsTemplate_eq`: what is read out of
  corresponding trees;
* `Forest.readings_of_reachable`: what is read out of the nodes of reachable forests.
-/

namespace MarkupForest

/-- Kinds look like themselves. -/
theorem Kind.Alike.refl (k : Kind) : k.Alike k := by
  cases k <;> simp [Alike]

namespace Tree

variable {N : Node → Node → Prop} {t u : Tree} {ts us : List Tree}

/-! ## Places -/

/-- The nodes stand in the same place of the two trees: they come up at the same time when one goes
through both trees in order. -/
def Opposite (t u : Tree) (n m : Node) : Prop :=
  (n, m) ∈ t.preorder.zip u.preorder

theorem Corresponds.length_preorder (h : t.Corresponds N u) :
    t.preorder.length = u.preorder.length := by
  refine Corresponds.induction (fun _ hchildren => ?_) h
  rw [preorder_mk, preorder_mk, List.length_cons, List.length_cons, Nat.succ_inj]
  induction hchildren with
  | nil => rfl
  | cons hfirst _ ih => simp only [List.flatMap_cons, List.length_append, hfirst, ih]

/-- Branches in the same place correspond by place in the trees that they belong to. -/
private theorem forall₂_opposite
    (h : List.Forall₂ (fun t u => Corresponds (fun n m => N n m ∧ t.Opposite u n m) t u) ts us) :
    List.Forall₂ (Corresponds fun n m =>
      N n m ∧ (n, m) ∈ (ts.flatMap preorder).zip (us.flatMap preorder)) ts us := by
  induction h with
  | nil => exact .nil
  | @cons t u ts us hfirst _ ih =>
    -- the first branches have equally many nodes, so the pairs split where the branches do
    rw [List.flatMap_cons, List.flatMap_cons, List.zip_append hfirst.length_preorder]
    refine .cons (hfirst.mono fun n m h => ⟨h.1, List.mem_append_left _ h.2⟩) ?_
    exact ih.imp fun t u htu => htu.mono fun n m h => ⟨h.1, List.mem_append_right _ h.2⟩

/-- Nodes in the same place are related, so corresponding trees correspond by place as well. -/
theorem Corresponds.opposite (h : t.Corresponds N u) :
    t.Corresponds (fun n m => N n m ∧ t.Opposite u n m) u := by
  refine Corresponds.induction (fun {n m ts us} hroot hchildren => ?_) h
  have hzip : (Tree.mk n ts).preorder.zip (Tree.mk m us).preorder =
      (n, m) :: (ts.flatMap preorder).zip (us.flatMap preorder) := by
    rw [preorder_mk, preorder_mk, List.zip_cons_cons]
  refine .mk ⟨hroot, ?_⟩ ((forall₂_opposite hchildren).imp fun t u htu => ?_)
  · rw [Opposite, hzip]
    exact List.mem_cons_self
  · refine htu.mono fun a b hab => ⟨hab.1, ?_⟩
    rw [Opposite, hzip]
    exact List.mem_cons_of_mem _ hab.2

/-! ## What is read out of corresponding trees -/

theorem Corresponds.plainText_eq (hN : ∀ n m, N n m → n.kind = m.kind) (h : t.Corresponds N u) :
    t.plainText = u.plainText :=
  h.fold_eq fun n m hnm => by rw [hN n m hnm]

theorem templateSeeker_respects (hN : ∀ n m, N n m → n.kind.Alike m.kind) (names : List String) :
    (templateSeeker names).Respects N Eq where
  enter _ hs := .go hs
  decide {n m s s'} hnm hs := by
    have halike := hN n m hnm
    simp only [templateSeeker]
    rw [halike.isSome_wanted?_eq]
    split
    · exact .stop hs
    · exact Walker.belowAllButText_rel halike.tag_eq hs
  leave _ hs := .go hs

theorem Corresponds.callsTemplate_eq (hN : ∀ n m, N n m → n.kind.Alike m.kind)
    (h : t.Corresponds N u) (names : List String) :
    t.callsTemplate names = u.callsTemplate names := by
  have hflow := h.walk (templateSeeker_respects hN names) () () rfl
  rw [callsTemplate, callsTemplate]
  exact hflow.stopped_eq

end Tree

namespace Forest

variable {f g : Forest} {a b q r : NodeId} {t u : Tree}

/-! ## What is read out of nodes -/

/-- Nothing is kept about a node of a reachable forest about which no root is kept. -/
theorem Reachable.current_of_root_eq_none (hf : f.Reachable) (hroot : (f.memo a).root = none) :
    f.Current a := by
  have hkept := hf.wellKept a
  have hheading : (f.memo a).heading = none :=
    Classical.not_not.1 fun h => hkept.root_of_heading h hroot
  have hhash : (f.memo a).fingerprint = none :=
    Classical.not_not.1 fun h => hkept.root_of_fingerprint h hroot
  exact current_of_isSet_eq_false (by simp [Memo.isSet, hroot, hheading, hhash])

/-- The hashes of nodes with the same markup on the same line of the same revision are the same. -/
theorem fingerprintNow_eq (ht : f.tree? a = some t) (hu : g.tree? b = some u)
    (hmarkup : t.markup = u.markup) (hline : f.line a = g.line b) (hr : f.findRoot a = .ok r)
    (hq : g.findRoot b = .ok q) (hrevision : f.revision r = g.revision q) :
    ∃ h, f.fingerprintNow a = .ok h ∧ g.fingerprintNow b = .ok h := by
  have hhash : f.findFingerprint r a = g.findFingerprint q b := by
    simp only [findFingerprint, markup, ht, hu, Option.map_some, Option.getD_some, hrevision, hline,
      hmarkup]
  refine ⟨f.findFingerprint r a, ?_, ?_⟩
  · rw [fingerprintNow, hr, Except.map]
  · rw [fingerprintNow, hq, Except.map, hhash]

theorem identNow_of_isPage_eq_false {d : UInt64} (hpage : f.isPage a = false)
    (hd : f.fingerprintNow a = .ok d) : f.identNow a = .ok (numberOf d) := by
  rw [identNow, pageNumber?_of_isPage_eq_false hpage, hd, Except.map]

/-- The kind of a node is that of the node at the top of its tree. -/
theorem WellFormed.kind?_of_tree? (hf : f.WellFormed) (ht : f.tree? a = some t) :
    f.kind? a = some t.root.kind := by
  rw [hf.tree?_eq] at ht
  obtain ⟨kind, hkind, rfl⟩ := Option.map_eq_some_iff.1 ht
  exact hkind

section Current

variable {d : UInt64} (hcur : f.Current a) (ha : f.contains a = true)
  (hd : f.fingerprintNow a = .ok d)

include hcur ha hd

theorem Current.answer_fingerprint : f.answer (.fingerprint a) = .ok (.hash d) := by
  rw [answer, run, answer_asked, hcur.fingerprint_eq]
  exact answerAbout_of_ok ha hd

/-- A node that is not a page is numbered by the hash of its content. -/
theorem Current.answer_ident (hpage : f.isPage a = false) :
    f.answer (.ident a) = .ok (.ident (numberOf d)) := by
  rw [answer, run, answer_asked, hcur.ident_eq]
  exact answerAbout_of_ok ha (identNow_of_isPage_eq_false hpage hd)

end Current

/-- For two nodes of two reachable forests, if the trees of the nodes have the same shape and nodes
of the same kind in the same places, then their markup, plain text, contributed text and template
names are the same, and so is whether templates are called; the templates of the one stand in the
same places as those of the other. If moreover the two nodes stand on the same line, on pages of the
same revision, and nothing is kept about them, then they have the same content hash, and the same
number unless they are pages. -/
theorem readings_of_reachable (hf : f.Reachable) (hg : g.Reachable) (ha : f.contains a = true)
    (hb : g.contains b = true) :
    ∃ t u, f.tree? a = some t ∧ g.tree? b = some u ∧
      (t.Corresponds (fun n m => n.kind = m.kind) u →
        t.markup = u.markup ∧ t.plainText = u.plainText ∧ t.contribution = u.contribution ∧
        (∀ names, t.templateTitles names = u.templateTitles names ∧
          t.callsTemplate names = u.callsTemplate names ∧
          List.Forall₂ (t.Opposite u) (t.templates names) (u.templates names)) ∧
        (f.line a = g.line b → (f.memo a).root = none → (g.memo b).root = none →
          ∀ r q, f.findRoot a = .ok r → g.findRoot b = .ok q → f.revision r = g.revision q →
            (∃ h, f.answer (.fingerprint a) = .ok (.hash h) ∧
              g.answer (.fingerprint b) = .ok (.hash h)) ∧
            (f.isPage a = false → ∃ i, f.answer (.ident a) = .ok (.ident i) ∧
              g.answer (.ident b) = .ok (.ident i)))) := by
  obtain ⟨t, ht⟩ := hf.wellFormed.exists_tree? ha
  obtain ⟨u, hu⟩ := hg.wellFormed.exists_tree? hb
  refine ⟨t, u, ht, hu, fun h => ?_⟩
  have halike : ∀ n m : Node, n.kind = m.kind → n.kind.Alike m.kind :=
    fun n m hnm => hnm ▸ Kind.Alike.refl n.kind
  have hmarkup := h.markup_eq_of_alike halike
  refine ⟨hmarkup, h.plainText_eq fun _ _ hnm => hnm, h.contribution_eq_of_alike halike,
    fun names => ⟨h.templateTitles_eq_of_alike halike names, h.callsTemplate_eq halike names, ?_⟩,
    ?_⟩
  · have hplaces := h.opposite.forall₂_templates (fun n m hnm => halike n m hnm.1) names
    exact hplaces.imp fun _ _ hnm => hnm.2
  · intro hline hkept hkept' r q hr hq hrevision
    -- nothing is kept about the two nodes, so both answers come from the forests as they stand
    have hf' := hf.current_of_root_eq_none hkept
    have hg' := hg.current_of_root_eq_none hkept'
    obtain ⟨d, hd, hd'⟩ := fingerprintNow_eq ht hu hmarkup hline hr hq hrevision
    have hpages : f.isPage a = g.isPage b := by
      rw [isPage, isPage, page?, page?, hf.wellFormed.kind?_of_tree? ht,
        hg.wellFormed.kind?_of_tree? hu, h.root_rel]
    exact ⟨⟨d, hf'.answer_fingerprint ha hd, hg'.answer_fingerprint hb hd'⟩, fun hpage =>
      ⟨numberOf d, hf'.answer_ident ha hd hpage, hg'.answer_ident hb hd' (hpages ▸ hpage)⟩⟩

/-- A call of a template on a page, made from the leaf up. -/
def leafFirst : List Command :=
  [.addLeaf (.text "a") 3, .addParent (.template (.template "T")) 2 [⟨0⟩],
    .addPage ⟨.article "P", 1, 100⟩ [⟨1⟩]]

/-- The same call on another page of the same revision, put together by moves, with its argument on
another line, and after a question about the argument. -/
def topFirst : List Command :=
  [.addPage ⟨⟨"Q", .main, .german⟩, 7, 100⟩ [], .addLeaf (.template (.template "T")) 2,
    .addLeaf (.text "a") 9, .move ⟨1⟩ ⟨0⟩, .move ⟨2⟩ ⟨1⟩, .root ⟨2⟩]

theorem readings_of_reachable_leafFirst :
    (∃ t u, (empty.runAll leafFirst).tree? ⟨1⟩ = some t ∧
      (empty.runAll topFirst).tree? ⟨1⟩ = some u ∧ t.ids = [⟨1⟩, ⟨0⟩] ∧ u.ids = [⟨1⟩, ⟨2⟩] ∧
      t.plainText = u.plainText ∧
      List.Forall₂ (t.Opposite u) (t.templates ["T"]) (u.templates ["T"])) ∧
    ∃ i, (empty.runAll leafFirst).answer (.ident ⟨1⟩) = .ok (.ident i) ∧
      (empty.runAll topFirst).answer (.ident ⟨1⟩) = .ok (.ident i) := by
  have hleaf : (empty.runAll leafFirst).Reachable := .runAll .empty _ (by decide +kernel)
  have htop : (empty.runAll topFirst).Reachable := .runAll .empty _ (by decide +kernel)
  obtain ⟨t, u, ht, hu, hread⟩ :=
    readings_of_reachable (a := ⟨1⟩) (b := ⟨1⟩) hleaf htop (by decide +kernel) (by decide +kernel)
  have ht' : (empty.runAll leafFirst).tree? ⟨1⟩ =
      some (.mk ⟨⟨1⟩, .template (.template "T"), 2⟩ [.mk ⟨⟨0⟩, .text "a", 3⟩ []]) := rfl
  have hu' : (empty.runAll topFirst).tree? ⟨1⟩ =
      some (.mk ⟨⟨1⟩, .template (.template "T"), 2⟩ [.mk ⟨⟨2⟩, .text "a", 9⟩ []]) := rfl
  obtain rfl := Option.some.inj (ht.symm.trans ht')
  obtain rfl := Option.some.inj (hu.symm.trans hu')
  obtain ⟨-, hplain, -, htemplates, hident⟩ := hread (.mk rfl (.cons (.mk rfl .nil) .nil))
  refine ⟨⟨_, _, ht, hu, rfl, rfl, hplain, (htemplates _).2.2⟩, ?_⟩
  exact (hident (by decide +kernel) (by decide +kernel) (by decide +kernel) ⟨2⟩ ⟨0⟩
    (by decide +kernel) (by decide +kernel) (by decide +kernel)).2 (by decide +kernel)

end Forest

end MarkupForest
