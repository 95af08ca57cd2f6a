import MarkupForest.Proofs.Forest.Run
import MarkupForest.Proofs.Forest.Subtree
import MarkupForest.Proofs.Json.ReadBack
import MarkupForest.Proofs.Tree.Correspondence
import MarkupForest.Tree.Contribution
import MarkupForest.Tree.Json
import MarkupForest.Tree.Markup
import MarkupForest.Tree.Template
import Mathlib.Algebra.Ring.Int.Defs

/-!
# What the JSON form of a tree tells

The JSON text of a tree tells its shape and, for each node, its kind, its line and the data that is
shown of its kind. Members can be left out, the caption of a table and the children of a node, but a
member that is left out cannot be taken for another one. What the text does not tell are the ids of
the nodes, the number of a page, and the language and namespace of some titles. Markup, contributed
text and template names depend on none of these.

## Main definitions

* `Namespace.lead`: what stands before a title of a namespace where the title is shown;
* `Kind.Alike` and `Node.Alike`: the same kind with the same shown data, and on the same line.

## Main results

* `Title.qualifiedName_eq`: how a title is shown;
* `Node.toJson_eq_iff` and `Tree.compact_toJson_eq_iff`: what the JSON text tells;
* `Tree.Corresponds.markup_eq`, `Tree.Corresponds.contribution_eq` and
  `Tree.Corresponds.templateTitles_eq`: what depends only on what the text tells;
* `Forest.json_of_reachable`: the JSON text of the nodes of forests.
-/

namespace MarkupForest

/-! ## Nodes that look alike -/

/-- What stands before a title of the namespace where the title is shown. -/
def Namespace.lead (n : Namespace) : String :=
  if n.code = 2 then "User:"
  else if n.code = 6 then "File:"
  else if n.code = 10 then "Template:"
  else if n.code = 14 then "Category:"
  else ""

/-- A title is shown behind the word of its namespace and a colon, or alone if there is none. -/
theorem Title.qualifiedName_eq (t : Title) : t.qualifiedName = t.ns.lead ++ t.name := by
  obtain ⟨name, ⟨code⟩, language⟩ := t
  simp only [qualifiedName, Namespace.qualify, Namespace.label?, Namespace.lead, Namespace.user,
    Namespace.file, Namespace.template, Namespace.category, Namespace.mk.injEq]
  split_ifs <;> simp

/-- The kinds are the same and show the same data. Titles of different namespaces can be shown
alike, since a title may begin with the word of a namespace. -/
def Kind.Alike : Kind → Kind → Prop
  | page p, page q =>
    p.title.ns.lead ++ p.title.name = q.title.ns.lead ++ q.title.name ∧ p.revision = q.revision
  | heading name level, heading name' level' => name = name' ∧ level = level'
  | template title, template title' => title.name = title'.name
  | argument key, argument key' => key = key'
  | text s, text s' => s = s'
  | internalLink d, internalLink d' => d.ns.lead ++ d.name = d'.ns.lead ++ d'.name
  | externalLink d, externalLink d' => d = d'
  | table caption, table caption' => caption = caption'
  | tableRow, tableRow => True
  | tableCell, tableCell => True
  | parserFunction name, parserFunction name' => name = name'
  | _, _ => False

/-- The nodes stand on the same line and are of the same kind with the same shown data. -/
def Node.Alike (n m : Node) : Prop :=
  n.line = m.line ∧ n.kind.Alike m.kind

theorem KindTag.name_injective : Function.Injective name := by
  intro a b h
  rw [← Option.some.injEq, ← lookup_name a, h, lookup_name b]

/-- Kinds that look alike are the same, except for the parts of a page and of titles that are not
shown. -/
theorem Kind.Alike.eq_or {k k' : Kind} (h : k.Alike k') :
    k = k' ∨
    (∃ p q, k = page p ∧ k' = page q) ∨
    (∃ t u, k = template t ∧ k' = template u ∧ t.name = u.name) ∨
    ∃ d e, k = internalLink d ∧ k' = internalLink e ∧
      d.ns.lead ++ d.name = e.ns.lead ++ e.name := by
  cases k <;> cases k' <;> simp only [Alike] at h
  all_goals simp [h]

theorem Kind.Alike.tag_eq {k k' : Kind} (h : k.Alike k') : k.tag = k'.tag := by
  rcases h.eq_or with rfl | ⟨p, q, rfl, rfl⟩ | ⟨t, u, rfl, rfl, -⟩ | ⟨d, e, rfl, rfl, -⟩ <;> rfl

/-- The member that holds the children of a node, if it has any. -/
def childrenMember (parts : List Json) : List (String × Json) :=
  if parts.isEmpty then [] else [("children", .arr parts)]

theorem childrenMember_inj {ps qs : List Json} :
    childrenMember ps = childrenMember qs ↔ ps = qs := by
  cases ps <;> cases qs <;> simp [childrenMember]

/-- A caption and the children, each left out if there are none, cannot be taken for each other. -/
theorem caption_append_eq_iff {c c' : Option String} {ps qs : List Json} :
    (Kind.table c).members ++ childrenMember ps = (Kind.table c').members ++ childrenMember qs ↔
      c = c' ∧ ps = qs := by
  cases c <;> cases c' <;> cases ps <;> cases qs <;> simp [Kind.members, childrenMember]

/-- Among kinds with the same name, the members tell the shown data and the children. -/
theorem Kind.members_append_eq_iff {k k' : Kind} (htag : k.tag = k'.tag) {ps qs : List Json} :
    k.members ++ childrenMember ps = k'.members ++ childrenMember qs ↔ k.Alike k' ∧ ps = qs := by
  cases k <;> cases k' <;> simp only [tag, reduceCtorEq] at htag
  case table.table => exact caption_append_eq_iff
  all_goals
    simp [members, Alike, Title.qualifiedName_eq, childrenMember_inj, Int64.toInt_inj,
      UInt8.toNat_inj, and_assoc]

theorem Node.toJson_eq (n : Node) (parts : List Json) :
    n.toJson parts = .obj ([("type", n.kind.tag.toJson), ("line", .int n.line.toNat)]
      ++ n.kind.members ++ childrenMember parts) :=
  rfl

theorem Node.toJson_eq_iff (n m : Node) (ps qs : List Json) :
    n.toJson ps = m.toJson qs ↔ n.Alike m ∧ ps = qs := by
  have hmembers : n.toJson ps = m.toJson qs ↔ n.kind.tag = m.kind.tag ∧ n.line = m.line ∧
      n.kind.members ++ childrenMember ps = m.kind.members ++ childrenMember qs := by
    rw [toJson_eq, toJson_eq]
    simp [KindTag.toJson, KindTag.name_injective.eq_iff, UInt32.toNat_inj]
  rw [hmembers]
  constructor
  · rintro ⟨htag, hline, h⟩
    obtain ⟨hkind, hparts⟩ := (Kind.members_append_eq_iff htag).1 h
    exact ⟨⟨hline, hkind⟩, hparts⟩
  · rintro ⟨⟨hline, hkind⟩, hparts⟩
    exact ⟨hkind.tag_eq, hline, (Kind.members_append_eq_iff hkind.tag_eq).2 ⟨hkind, hparts⟩⟩

/-- The JSON text tells the shape of a tree and what its nodes show, and nothing else. -/
theorem Tree.compact_toJson_eq_iff {t u : Tree} :
    t.toJson.compact = u.toJson.compact ↔ t.Corresponds Node.Alike u := by
  rw [Json.compact_injective.eq_iff, toJson, toJson, fold_eq_iff Node.toJson_eq_iff]

/-! ## What looks alike reads alike -/

theorem Kind.Alike.markup_eq {k k' : Kind} (h : k.Alike k') : k.markup = k'.markup := by
  rcases h.eq_or with rfl | ⟨p, q, rfl, rfl⟩ | ⟨t, u, rfl, rfl, hname⟩ | ⟨d, e, rfl, rfl, hname⟩
  · rfl
  · rfl
  · ext1 parts
    rw [markup, markup, hname]
  · ext1 parts
    rw [markup, markup, Title.qualifiedName_eq, hname, Title.qualifiedName_eq]

theorem Kind.Alike.templateName_eq {k k' : Kind} (h : k.Alike k') :
    k.template?.map (·.name) = k'.template?.map (·.name) := by
  rcases h.eq_or with rfl | ⟨p, q, rfl, rfl⟩ | ⟨t, u, rfl, rfl, hname⟩ | ⟨d, e, rfl, rfl, -⟩
  · rfl
  · rfl
  · rw [template?, template?, Option.map_some, Option.map_some, hname]
  · rfl

/-- Whether a template is asked for depends on its name only. -/
theorem Node.isSome_wanted? (names : List String) (n : Node) :
    (n.wanted? names).isSome =
      (n.kind.template?.map (·.name)).any fun name => names.isEmpty || names.contains name := by
  rw [wanted?, Option.isSome_filter, Option.any_map]
  rfl

theorem Kind.Alike.isSome_wanted?_eq {n m : Node} (h : n.kind.Alike m.kind) (names : List String) :
    (n.wanted? names).isSome = (m.wanted? names).isSome := by
  rw [Node.isSome_wanted?, Node.isSome_wanted?, h.templateName_eq]

section Respects

variable {N : Node → Node → Prop} (hN : ∀ n m, N n m → n.kind.Alike m.kind)

include hN

theorem textGatherer_respects : textGatherer.Respects N Eq where
  enter _ hs := .go hs
  decide {n m s s'} hnm hs := by
    have hsame : textGatherer.decide n s = textGatherer.decide m s' := by
      simp only [textGatherer, hs]
      rcases (hN n m hnm).eq_or with h | ⟨p, q, h, h'⟩ | ⟨t, u, h, h', -⟩ | ⟨d, e, h, h', -⟩
      · rw [h]
      · rw [h, h']
      · rw [h, h']
      · rw [h, h']
    rw [hsame]
    exact .refl (fun _ => rfl) _
  leave _ hs := .go hs

theorem templateGatherer_respects (names : List String) :
    (templateGatherer names).Respects N (List.Forall₂ N) where
  enter _ hs := .go hs
  decide {n m s s'} hnm hs := by
    have halike := hN n m hnm
    refine Walker.belowAllButText_rel halike.tag_eq ?_
    rw [halike.isSome_wanted?_eq]
    split
    · exact List.rel_append hs (.cons hnm .nil)
    · exact hs
  leave _ hs := .go hs

end Respects

namespace Tree.Corresponds

variable {N : Node → Node → Prop} {t u : Tree}

section Kinds

variable (hN : ∀ n m, N n m → n.kind.Alike m.kind) (h : t.Corresponds N u)

include hN h

theorem markup_eq_of_alike : t.markup = u.markup := by
  refine h.fold_eq fun n m hnm => funext fun parts => ?_
  exact congrFun (hN n m hnm).markup_eq parts

theorem contribution_eq_of_alike : t.contribution = u.contribution :=
  (h.walk (textGatherer_respects hN) "" "" rfl).state

/-- The templates that are asked for are related, one by one. -/
theorem forall₂_templates (names : List String) :
    List.Forall₂ N (t.templates names) (u.templates names) :=
  (h.walk (templateGatherer_respects hN names) [] [] .nil).state

theorem templateTitles_eq_of_alike (names : List String) :
    t.templateTitles names = u.templateTitles names := by
  have hfound := h.forall₂_templates hN names
  unfold templateTitles
  generalize t.templates names = found at hfound ⊢
  generalize u.templates names = found' at hfound ⊢
  induction hfound with
  | nil => rfl
  | cons hnm _ ih =>
    rw [List.filterMap_cons, List.filterMap_cons, (hN _ _ hnm).templateName_eq, ih]

end Kinds

theorem markup_eq (h : t.Corresponds Node.Alike u) : t.markup = u.markup :=
  h.markup_eq_of_alike fun _ _ hnm => hnm.2

theorem contribution_eq (h : t.Corresponds Node.Alike u) : t.contribution = u.contribution :=
  h.contribution_eq_of_alike fun _ _ hnm => hnm.2

theorem templateTitles_eq (h : t.Corresponds Node.Alike u) (names : List String) :
    t.templateTitles names = u.templateTitles names :=
  h.templateTitles_eq_of_alike (fun _ _ hnm => hnm.2) names

end Tree.Corresponds

namespace Forest

variable {f g : Forest} {n m : NodeId}

/-- Nodes of forests have the same JSON text exactly if they have the same shape below them and the
nodes in the same place are of the same kind, on the same line and show the same data. Their markup,
the text they contribute and the names of their templates are then the same. -/
theorem json_of_reachable (hf : f.Reachable) (hg : g.Reachable) (hn : f.contains n = true)
    (hm : g.contains m = true) :
    ∃ t u, f.tree? n = some t ∧ g.tree? m = some u ∧
      (t.toJson.compact = u.toJson.compact ↔ t.Corresponds Node.Alike u) ∧
      (t.toJson.compact = u.toJson.compact →
        t.markup = u.markup ∧ t.contribution = u.contribution ∧
          ∀ names, t.templateTitles names = u.templateTitles names) := by
  obtain ⟨t, ht⟩ := hf.wellFormed.exists_tree? hn
  obtain ⟨u, hu⟩ := hg.wellFormed.exists_tree? hm
  refine ⟨t, u, ht, hu, Tree.compact_toJson_eq_iff, fun hjson => ?_⟩
  have h := Tree.compact_toJson_eq_iff.1 hjson
  exact ⟨h.markup_eq, h.contribution_eq, h.templateTitles_eq⟩

/-- A page made of its parts, an article whose title begins with the word of a namespace. -/
def partsFirst : List Command :=
  [.addLeaf (.text "a") 3, .addParent (.table none) 2 [⟨0⟩],
    .addPage ⟨.article "User:P", 1, 100⟩ [⟨1⟩]]

/-- A page of the same look in that namespace, with another number and in another language, to which
the parts are moved. -/
def pageFirst : List Command :=
  [.addPage ⟨⟨"P", .user, .german⟩, 7, 100⟩ [], .addLeaf (.text "a") 3,
    .addParent (.table none) 2 [⟨1⟩], .move ⟨2⟩ ⟨0⟩]

theorem json_of_reachable_partsFirst :
    ∃ t u, (empty.runAll partsFirst).tree? ⟨2⟩ = some t ∧
      (empty.runAll pageFirst).tree? ⟨0⟩ = some u ∧ t.Corresponds Node.Alike u ∧
      t.toJson.compact = u.toJson.compact ∧ t.markup = u.markup ∧
      t.toJson.compact =
        "\x7b\"type\":\"Page\",\"line\":0,\"title\":\"User:P\",\"revision\":100,\"children\":[" ++
          "\x7b\"type\":\"Table\",\"line\":2,\"children\":[" ++
            "\x7b\"type\":\"Text\",\"line\":3,\"value\":\"a\"\x7d]\x7d]\x7d" := by
  have hparts : (empty.runAll partsFirst).Reachable := .runAll .empty _ (by decide +kernel)
  have hpage : (empty.runAll pageFirst).Reachable := .runAll .empty _ (by decide +kernel)
  have hjson : ((empty.runAll partsFirst).tree? ⟨2⟩).map (·.toJson.compact) =
      ((empty.runAll pageFirst).tree? ⟨0⟩).map (·.toJson.compact) := by
    decide +kernel
  obtain ⟨t, u, ht, hu, hiff, himp⟩ :=
    json_of_reachable (n := ⟨2⟩) (m := ⟨0⟩) hparts hpage (by decide +kernel) (by decide +kernel)
  rw [ht, hu, Option.map_some, Option.map_some, Option.some.injEq] at hjson
  refine ⟨t, u, ht, hu, hiff.1 hjson, hjson, (himp hjson).1, Option.some.inj ?_⟩
  calc some t.toJson.compact
      = ((empty.runAll partsFirst).tree? ⟨2⟩).map (·.toJson.compact) := by rw [ht, Option.map_some]
    _ = _ := by decide +kernel

end Forest

end MarkupForest
