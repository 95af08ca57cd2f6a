import MarkupForest.Forest.Command
import Mathlib.Tactic.MkIffOfInductiveProp

/-!
# The shape of a forest

What each operation does to what a forest holds about its nodes.

Two operations change the shape of a forest, that is, the kinds, lines, children and parents of its
nodes: `grow` makes a node and gives it children, and `relocate` moves a node. Every other operation
keeps the `skeleton` of a forest, which is the forest without what has been found out about its
nodes and without what is attached to them.

## Main definitions

* `Forest.mapEntries`: a part of what a forest holds about each node, as a forest;
* `Forest.skeleton`: the shape of a forest, as a forest;
* `Forest.grow` and `Forest.relocate`: the changes that `addLeaf`, `addParent`, `addPage` and `move`
  make once their checks have passed.

## Main results

* `checkChildren_eq_ok_iff` and `checkMove_eq_ok_iff`: what the checks ask for;
* `parent?_grow`, `children_grow`, `parent?_relocate`, `children_relocate` and their companions: the
  forest after a change, node by node.
-/

namespace MarkupForest

/-- What the shape of a forest says about a node. -/
def Entry.bare (e : Entry) : Entry :=
  { kind := e.kind, line := e.line, children := e.children, parent := e.parent }

/-- A part of what is held about a node that has the whole shape. Changes to the shape can be made
to the part as well, and there is nothing else to see of a new node. -/
structure Entry.KeepsShape (r : Entry → Entry) : Prop where
  /-- The shape is the same. -/
  bare_eq : ∀ e, (r e).bare = e.bare
  /-- The parent can be changed in the part. -/
  parent_eq : ∀ e p, r { e with parent := p } = { r e with parent := p }
  /-- The children can be changed in the part. -/
  children_eq : ∀ e cs, r { e with children := cs } = { r e with children := cs }
  /-- A new node has nothing but its shape. -/
  new_eq : ∀ kind line children, r { kind, line, children } = { kind, line, children }

theorem Entry.KeepsShape.children_apply {r : Entry → Entry} (hr : KeepsShape r) (e : Entry) :
    (r e).children = e.children := by
  have hbare := congrArg Entry.children (hr.bare_eq e)
  exact hbare

theorem Entry.keepsShape_bare : KeepsShape bare where
  bare_eq _ := rfl
  parent_eq _ _ := rfl
  children_eq _ _ := rfl
  new_eq _ _ _ := rfl

namespace Forest

variable {f g : Forest}

/-! ## Nodes that are there -/

theorem contains_of_get?_eq_some {n : NodeId} {e : Entry} (h : f.get? n = some e) :
    f.contains n = true :=
  (f.get?_isSome_iff n).1 (by simp [h])

theorem exists_get?_eq_some {n : NodeId} (h : f.contains n = true) : ∃ e, f.get? n = some e :=
  Option.isSome_iff_exists.1 ((f.get?_isSome_iff n).2 h)

theorem get?_eq_none_iff {n : NodeId} : f.get? n = none ↔ f.contains n = false := by
  rw [← Option.not_isSome_iff_eq_none, get?_isSome_iff, Bool.not_eq_true]

/-- A node that has a parent is there. -/
theorem contains_of_parent? {n p : NodeId} (h : f.parent? n = some p) : f.contains n = true := by
  obtain ⟨e, he, -⟩ := Option.bind_eq_some_iff.1 h
  exact contains_of_get?_eq_some he

/-- A node that has a child is there. -/
theorem contains_of_mem_children {n c : NodeId} (h : c ∈ f.children n) : f.contains n = true := by
  cases he : f.get? n with
  | none => simp [children, he] at h
  | some e => exact contains_of_get?_eq_some he

/-- A page is there. -/
theorem contains_of_isPage {n : NodeId} (h : f.isPage n = true) : f.contains n = true := by
  cases he : f.get? n with
  | none => simp [isPage, page?, kind?, he] at h
  | some e => exact contains_of_get?_eq_some he

/-- A node about which something has been found out is there. -/
theorem contains_of_memo_ne {n : NodeId} (h : f.memo n ≠ {}) : f.contains n = true := by
  cases he : f.get? n with
  | none => simp [memo, he] at h
  | some e => exact contains_of_get?_eq_some he

/-- The next id is free as long as the ids have not run out. -/
theorem contains_nextId (hsize : f.size < UInt32.size) : f.contains f.nextId = false := by
  rw [← Bool.not_eq_true, contains_iff, nextId, NodeId.index_ofIndex hsize]
  exact Nat.lt_irrefl _

theorem ne_nextId_of_contains (hsize : f.size < UInt32.size) {n : NodeId}
    (h : f.contains n = true) : n ≠ f.nextId := by
  rintro rfl
  rw [contains_nextId hsize] at h
  exact absurd h (by simp)

/-- The node that is added is the next one, and the others stay as they are. -/
theorem get?_push (hsize : f.size < UInt32.size) (e : Entry) (n : NodeId) :
    (f.push e).get? n = if n = f.nextId then some e else f.get? n := by
  by_cases hn : n = f.nextId
  · rw [hn, get?_push_nextId f e hsize, if_pos rfl]
  · rw [if_neg hn]
    by_cases hc : f.contains n = true
    · exact get?_push_of_contains f e hc
    · have hnone : f.get? n = none := get?_eq_none_iff.2 (by simpa using hc)
      rw [hnone, get?_eq_none_iff]
      -- an id that is neither below the size nor equal to it is not below its successor
      have hindex : n.index ≠ f.size := by
        intro h
        exact hn (NodeId.index_inj.1 (h.trans (NodeId.index_ofIndex hsize).symm))
      rw [contains_iff] at hc
      rw [← Bool.not_eq_true, contains_iff, size_push]
      omega

/-! ## A part of what is held about each node -/

/-- A change that keeps a part of what is held about a node keeps that part everywhere. -/
theorem map_get?_modify {α : Type} {part : Entry → α} {h : Entry → Entry}
    (hh : ∀ e, part (h e) = part e) (f : Forest) (m n : NodeId) :
    ((f.modify m h).get? n).map part = (f.get? n).map part := by
  rw [get?_modify]
  split
  · cases f.get? n <;> simp [hh]
  · rfl

/-- The forest with what it holds about each node changed in one and the same way. -/
def mapEntries (r : Entry → Entry) (f : Forest) : Forest :=
  ⟨f.entries.map r⟩

section MapEntries

variable {r h k : Entry → Entry}

theorem size_mapEntries (r : Entry → Entry) (f : Forest) : (f.mapEntries r).size = f.size := by
  simp [mapEntries, size]

theorem get?_mapEntries (r : Entry → Entry) (f : Forest) (n : NodeId) :
    (f.mapEntries r).get? n = (f.get? n).map r := by
  simp [mapEntries, get?]

theorem mapEntries_push (r : Entry → Entry) (f : Forest) (e : Entry) :
    (f.push e).mapEntries r = (f.mapEntries r).push (r e) := by
  simp [mapEntries, push]

theorem mapEntries_modify (hk : ∀ e, r (h e) = k (r e)) (f : Forest) (n : NodeId) :
    (f.modify n h).mapEntries r = (f.mapEntries r).modify n k := by
  have hentries : (f.entries.modify n.index h).map r =
      (f.entries.map r).modify n.index k := by
    apply Array.ext_getElem?
    intro i
    simp only [Array.getElem?_map, Array.getElem?_modify]
    split
    · cases f.entries[i]? <;> simp [hk]
    · rfl
  exact congrArg Forest.mk hentries

/-- A change to what is not looked at does not show. -/
theorem mapEntries_modify_of_eq (hh : ∀ e, r (h e) = r e) (f : Forest) (n : NodeId) :
    (f.modify n h).mapEntries r = f.mapEntries r := by
  rw [mapEntries_modify (k := id) hh]
  refine congrArg Forest.mk (Array.ext_getElem? fun i => ?_)
  rw [Array.getElem?_modify, Option.map_id, id_eq, ite_self]
  rfl

end MapEntries

/-! ## The skeleton -/

/-- The shape of the forest: its nodes, with nothing found out about them and nothing attached to
them. -/
def skeleton (f : Forest) : Forest :=
  ⟨f.entries.map Entry.bare⟩

@[simp] theorem size_skeleton (f : Forest) : f.skeleton.size = f.size :=
  size_mapEntries _ f

@[simp] theorem get?_skeleton (f : Forest) (n : NodeId) :
    f.skeleton.get? n = (f.get? n).map Entry.bare :=
  get?_mapEntries _ f n

@[simp] theorem contains_skeleton (f : Forest) : f.skeleton.contains = f.contains := by
  funext n
  simp [contains]

@[simp] theorem nextId_skeleton (f : Forest) : f.skeleton.nextId = f.nextId := by
  simp [nextId]

@[simp] theorem kind?_skeleton (f : Forest) : f.skeleton.kind? = f.kind? := by
  funext n
  cases h : f.get? n <;> simp [kind?, h, Entry.bare]

@[simp] theorem line_skeleton (f : Forest) : f.skeleton.line = f.line := by
  funext n
  cases h : f.get? n <;> simp [line, h, Entry.bare]

@[simp] theorem parent?_skeleton (f : Forest) : f.skeleton.parent? = f.parent? := by
  funext n
  cases h : f.get? n <;> simp [parent?, h, Entry.bare]

@[simp] theorem children_skeleton (f : Forest) : f.skeleton.children = f.children := by
  funext n
  cases h : f.get? n <;> simp [children, h, Entry.bare]

@[simp] theorem page?_skeleton (f : Forest) : f.skeleton.page? = f.page? := by
  funext n
  simp [page?]

@[simp] theorem isPage_skeleton (f : Forest) : f.skeleton.isPage = f.isPage := by
  funext n
  simp [isPage]

@[simp] theorem isHeading_skeleton (f : Forest) : f.skeleton.isHeading = f.isHeading := by
  funext n
  simp [isHeading]

@[simp] theorem climb_skeleton (f : Forest) (k : Nat) : f.skeleton.climb k = f.climb k := by
  induction k with
  | zero => rfl
  | succ k ih =>
    funext n
    simp only [climb, parent?_skeleton, ih]

@[simp] theorem lineage_skeleton (f : Forest) : f.skeleton.lineage = f.lineage := by
  funext n
  simp [lineage]

@[simp] theorem top_skeleton (f : Forest) : f.skeleton.top = f.top := by
  funext n
  simp [top]

@[simp] theorem expand_skeleton (f : Forest) (k : Nat) : f.skeleton.expand k = f.expand k := by
  induction k with
  | zero => rfl
  | succ k ih =>
    funext n
    cases h : f.get? n <;> simp [expand, h, ih, Entry.bare]

@[simp] theorem tree?_skeleton (f : Forest) : f.skeleton.tree? = f.tree? := by
  funext n
  simp [tree?]

/-- What is a matter of the shape of a forest is the same of forests of the same shape. -/
theorem eq_of_skeleton_eq {α : Type} {q : Forest → α} (hq : ∀ f : Forest, q f.skeleton = q f)
    (h : g.skeleton = f.skeleton) : q g = q f := by
  rw [← hq g, h, hq f]

/-- A change to what the shape leaves out keeps the skeleton. -/
theorem skeleton_modify_of_bare {h : Entry → Entry} (hh : ∀ e, (h e).bare = e.bare) (f : Forest)
    (n : NodeId) : (f.modify n h).skeleton = f.skeleton :=
  mapEntries_modify_of_eq hh f n

theorem skeleton_mapEntries {r : Entry → Entry} (hr : Entry.KeepsShape r) (f : Forest) :
    (f.mapEntries r).skeleton = f.skeleton := by
  simp [skeleton, mapEntries, Function.comp_def, hr.bare_eq]

/-! ## Making a node -/

/-- Sets the parent of each of some nodes. -/
def adopt (f : Forest) (children : List NodeId) (parent : NodeId) : Forest :=
  children.foldl (fun g c => g.setParent c parent) f

/-- The forest with one more node, which has the given children. -/
def grow (f : Forest) (kind : Kind) (line : UInt32) (children : List NodeId) : Forest :=
  (f.adopt children f.nextId).push { kind := kind, line := line, children := children }

theorem addParent_of_checkChildren {kind : Kind} {line : UInt32} {children : List NodeId}
    (h : f.checkChildren [] children = .ok ()) :
    f.addParent kind line children = .ok (f.nextId, f.grow kind line children) := by
  simp only [addParent, h, grow, adopt]

theorem addParent_of_checkChildren_error {kind : Kind} {line : UInt32} {children : List NodeId}
    {e : Refusal} (h : f.checkChildren [] children = .error e) :
    f.addParent kind line children = .error e := by
  simp only [addParent, h]

/-- A node that can become a child: it is there, has no parent and is not a page. -/
@[mk_iff]
structure IsFree (f : Forest) (n : NodeId) : Prop where
  /-- The node is there. -/
  contains : f.contains n = true
  /-- It has no parent. -/
  parent?_eq_none : f.parent? n = none
  /-- It is not a page. -/
  isPage_eq_false : f.isPage n = false

/-- A node passes the check exactly if it is free and not among those before it. -/
theorem checkChild_eq_ok_iff {before : List NodeId} {c : NodeId} :
    f.checkChild before c = .ok () ↔ f.IsFree c ∧ c ∉ before := by
  cases he : f.get? c with
  | none =>
    have hno : ¬f.IsFree c := fun h => by simpa [get?_eq_none_iff.1 he] using h.contains
    simp [checkChild, he, hno]
  | some e =>
    have hpage : f.isPage c = e.kind.isPage := by simp [isPage, page?, kind?, he, Kind.isPage]
    cases hp : e.parent with
    | some p =>
      have hno : ¬f.IsFree c := fun h => by simpa [parent?, he, hp] using h.parent?_eq_none
      simp [checkChild, he, hp, hno]
    | none =>
      cases hk : e.kind.isPage with
      | true =>
        have hno : ¬f.IsFree c := fun h => by simpa [hpage, hk] using h.isPage_eq_false
        simp [checkChild, he, hp, hk, hno]
      | false =>
        have hfree : f.IsFree c :=
          ⟨contains_of_get?_eq_some he, by simp [parent?, he, hp], hpage.trans hk⟩
        simp [checkChild, he, hp, hk, hfree]

/-- Nodes can become the children of a new node exactly if they are different free nodes. -/
theorem checkChildren_eq_ok_iff {before children : List NodeId} :
    f.checkChildren before children = .ok () ↔
      (∀ c ∈ children, f.IsFree c ∧ c ∉ before) ∧ children.Nodup := by
  -- the check hands on the nodes it has seen, so `before` grows along the list
  induction children generalizing before with
  | nil => simp [checkChildren]
  | cons c cs ih =>
    cases hc : f.checkChild before c with
    | error e =>
      have hno : ¬(f.IsFree c ∧ c ∉ before) := by
        rw [← checkChild_eq_ok_iff, hc]
        exact nofun
      simp only [checkChildren, hc, reduceCtorEq, false_iff]
      exact fun h => hno (h.1 c List.mem_cons_self)
    | ok u =>
      have hok := checkChild_eq_ok_iff.1 hc
      simp only [checkChildren, hc, ih, List.mem_append, List.mem_singleton, not_or,
        List.forall_mem_cons, List.nodup_cons]
      constructor
      · rintro ⟨hcs, hnodup⟩
        exact ⟨⟨hok, fun d hd => ⟨(hcs d hd).1, (hcs d hd).2.1⟩⟩,
          fun hmem => (hcs c hmem).2.2 rfl, hnodup⟩
      · rintro ⟨⟨-, hcs⟩, hmem, hnodup⟩
        exact ⟨fun d hd => ⟨(hcs d hd).1, (hcs d hd).2, fun heq => hmem (heq ▸ hd)⟩, hnodup⟩

theorem get?_setParent (f : Forest) (c p n : NodeId) :
    (f.setParent c p).get? n =
      if n = c then (f.get? n).map fun e => { e with parent := some p } else f.get? n := by
  rw [setParent, get?_modify]
  simp only [eq_comm]

theorem get?_adopt (f : Forest) (children : List NodeId) (p n : NodeId) :
    (f.adopt children p).get? n =
      if n ∈ children then (f.get? n).map fun e => { e with parent := some p } else f.get? n := by
  induction children generalizing f with
  | nil => simp [adopt]
  | cons c cs ih =>
    have hstep : f.adopt (c :: cs) p = (f.setParent c p).adopt cs p := rfl
    rw [hstep, ih, get?_setParent]
    -- a node that is named twice is given the same parent twice
    by_cases hc : n = c <;> by_cases hcs : n ∈ cs <;> simp [hc, hcs, Function.comp_def]

@[simp] theorem size_adopt (f : Forest) (children : List NodeId) (p : NodeId) :
    (f.adopt children p).size = f.size := by
  induction children generalizing f with
  | nil => rfl
  | cons c cs ih =>
    have hstep : f.adopt (c :: cs) p = (f.setParent c p).adopt cs p := rfl
    rw [hstep, ih, setParent, size_modify]

@[simp] theorem size_grow (f : Forest) (kind : Kind) (line : UInt32) (children : List NodeId) :
    (f.grow kind line children).size = f.size + 1 := by
  simp [grow]

section Grow

variable {kind : Kind} {line : UInt32} {children : List NodeId}

theorem get?_grow (hsize : f.size < UInt32.size) (n : NodeId) :
    (f.grow kind line children).get? n =
      if n = f.nextId then some { kind := kind, line := line, children := children }
      else if n ∈ children then (f.get? n).map fun e => { e with parent := some f.nextId }
      else f.get? n := by
  have hnext : (f.adopt children f.nextId).nextId = f.nextId := by simp [nextId]
  rw [grow, get?_push (by simpa using hsize), hnext, get?_adopt]

theorem kind?_grow (hsize : f.size < UInt32.size) (n : NodeId) :
    (f.grow kind line children).kind? n = if n = f.nextId then some kind else f.kind? n := by
  rw [kind?, get?_grow hsize]
  split
  · rfl
  · split
    · cases h : f.get? n <;> simp [kind?, h]
    · rfl

theorem line_grow (hsize : f.size < UInt32.size) (n : NodeId) :
    (f.grow kind line children).line n = if n = f.nextId then line else f.line n := by
  rw [Forest.line, get?_grow hsize]
  split
  · rfl
  · split
    · cases h : f.get? n <;> simp [Forest.line, h]
    · rfl

theorem children_grow (hsize : f.size < UInt32.size) (n : NodeId) :
    (f.grow kind line children).children n =
      if n = f.nextId then children else f.children n := by
  rw [Forest.children, get?_grow hsize]
  split
  · rfl
  · split
    · cases h : f.get? n <;> simp [Forest.children, h]
    · rfl

/-- Nothing has been found out about a new node, and what has been found out about others is kept.
-/
theorem memo_grow (hsize : f.size < UInt32.size) (n : NodeId) :
    (f.grow kind line children).memo n = f.memo n := by
  rw [memo, get?_grow hsize]
  split
  next hn => simp [hn, memo, get?_eq_none_iff.2 (contains_nextId hsize)]
  next =>
    split
    · cases h : f.get? n <;> simp [memo, h]
    · rfl

/-- The nodes that a new node adopts get it as their parent. -/
theorem parent?_grow (hsize : f.size < UInt32.size) (hchildren : ∀ c ∈ children, f.IsFree c)
    (n : NodeId) :
    (f.grow kind line children).parent? n =
      if n ∈ children then some f.nextId else f.parent? n := by
  rw [parent?, get?_grow hsize]
  by_cases hn : n = f.nextId
  · -- the new id was free, so the node is not among the adopted ones
    have hmem : n ∉ children := fun h => ne_nextId_of_contains hsize (hchildren n h).contains hn
    have hnone : f.get? n = none := get?_eq_none_iff.2 (hn ▸ contains_nextId hsize)
    rw [if_pos hn, if_neg hmem, parent?, hnone]
    rfl
  · by_cases hmem : n ∈ children
    · obtain ⟨e, he⟩ := exists_get?_eq_some (hchildren n hmem).contains
      simp [hn, hmem, he]
    · simp [hn, hmem, parent?]

theorem page?_grow (hsize : f.size < UInt32.size) {n : NodeId} (hn : f.contains n = true) :
    (f.grow kind line children).page? n = f.page? n := by
  rw [page?, kind?_grow hsize, if_neg (ne_nextId_of_contains hsize hn), page?]

theorem mapEntries_setParent {r : Entry → Entry} (hr : Entry.KeepsShape r) (f : Forest)
    (c p : NodeId) : (f.setParent c p).mapEntries r = (f.mapEntries r).setParent c p :=
  mapEntries_modify (fun e => hr.parent_eq e _) f c

theorem mapEntries_adopt {r : Entry → Entry} (hr : Entry.KeepsShape r) (f : Forest)
    (children : List NodeId) (p : NodeId) :
    (f.adopt children p).mapEntries r = (f.mapEntries r).adopt children p := by
  induction children generalizing f with
  | nil => rfl
  | cons c cs ih =>
    have hstep : ∀ g : Forest, g.adopt (c :: cs) p = (g.setParent c p).adopt cs p := fun _ => rfl
    rw [hstep, hstep, ih, mapEntries_setParent hr]

theorem mapEntries_grow {r : Entry → Entry} (hr : Entry.KeepsShape r) (f : Forest) (kind : Kind)
    (line : UInt32) (children : List NodeId) :
    (f.grow kind line children).mapEntries r = (f.mapEntries r).grow kind line children := by
  rw [grow, mapEntries_push, mapEntries_adopt hr, hr.new_eq, grow, nextId, nextId, size_mapEntries]

/-- How a forest grows is a matter of its shape. -/
theorem skeleton_grow (f : Forest) (kind : Kind) (line : UInt32) (children : List NodeId) :
    (f.grow kind line children).skeleton = f.skeleton.grow kind line children :=
  mapEntries_grow Entry.keepsShape_bare f kind line children

theorem isFree_skeleton {n : NodeId} : f.skeleton.IsFree n ↔ f.IsFree n := by
  simp only [isFree_iff, contains_skeleton, parent?_skeleton, isPage_skeleton]

end Grow

/-! ## Moving a node -/

/-- The forest with a node moved to the end of the children of another one. -/
def relocate (f : Forest) (child parent : NodeId) : Forest :=
  (f.detach child).attach child parent

theorem move_of_checkMove {child parent : NodeId} (h : f.checkMove child parent = .ok ()) :
    f.move child parent =
      .ok (if f.isNavigated child then [.staleMove child parent] else [],
        f.relocate child parent) := by
  simp only [move, h, relocate]

theorem move_of_checkMove_error {child parent : NodeId} {e : Refusal}
    (h : f.checkMove child parent = .error e) : f.move child parent = .error e := by
  simp only [move, h]

/-- A node can be moved exactly if it is there, is not a page and is not above the node that it is
moved to. -/
theorem checkMove_eq_ok_iff {child parent : NodeId} :
    f.checkMove child parent = .ok () ↔
      f.contains child = true ∧ f.isPage child = false ∧ f.contains parent = true ∧
        child ∉ f.lineage parent := by
  rw [checkMove]
  cases hc : f.contains child
  · simp
  cases hk : f.isPage child
  · cases hp : f.contains parent
    · simp
    by_cases hl : child ∈ f.lineage parent <;> simp [hl]
  · simp

section Relocate

variable {child parent : NodeId}

theorem get?_detach (f : Forest) (child n : NodeId) :
    (f.detach child).get? n =
      if f.parent? child = some n then
        (f.get? n).map fun e => { e with children := e.children.filter (· != child) }
      else f.get? n := by
  cases hp : f.parent? child with
  | none => simp [detach, hp]
  | some p => simp [detach, hp, get?_modify]

theorem get?_relocate (f : Forest) (child parent n : NodeId) :
    (f.relocate child parent).get? n = (f.get? n).map fun e =>
      { e with
        children := (if f.parent? child = some n then e.children.filter (· != child)
          else e.children) ++ if n = parent then [child] else []
        parent := if n = child then some parent else e.parent } := by
  rw [relocate, attach, get?_setParent, get?_modify, get?_detach]
  simp only [@eq_comm _ parent n]
  cases he : f.get? n with
  | none => simp
  | some e =>
    -- a node can be the old parent and the new one at once, but then the moved node goes to the end
    by_cases hold : f.parent? child = some n <;> by_cases hn : n = child <;>
      by_cases hnew : n = parent <;> simp_all

@[simp] theorem size_relocate (f : Forest) (child parent : NodeId) :
    (f.relocate child parent).size = f.size := by
  cases hp : f.parent? child <;> simp [relocate, attach, setParent, detach, hp]

@[simp] theorem kind?_relocate (f : Forest) (child parent n : NodeId) :
    (f.relocate child parent).kind? n = f.kind? n := by
  cases h : f.get? n <;> simp [kind?, get?_relocate, h]

@[simp] theorem line_relocate (f : Forest) (child parent n : NodeId) :
    (f.relocate child parent).line n = f.line n := by
  cases h : f.get? n <;> simp [line, get?_relocate, h]

@[simp] theorem page?_relocate (f : Forest) (child parent n : NodeId) :
    (f.relocate child parent).page? n = f.page? n := by
  simp [page?]

@[simp] theorem isPage_relocate (f : Forest) (child parent n : NodeId) :
    (f.relocate child parent).isPage n = f.isPage n := by
  simp [isPage]

/-- A move keeps what has been found out, about the moved nodes as well. -/
@[simp] theorem memo_relocate (f : Forest) (child parent n : NodeId) :
    (f.relocate child parent).memo n = f.memo n := by
  cases h : f.get? n <;> simp [memo, get?_relocate, h]

/-- A move changes the parent of the moved node and of no other. -/
theorem parent?_relocate (hchild : f.contains child = true) (n : NodeId) :
    (f.relocate child parent).parent? n = if n = child then some parent else f.parent? n := by
  rw [parent?, get?_relocate]
  by_cases hn : n = child
  · obtain ⟨e, he⟩ := exists_get?_eq_some hchild
    simp [hn, he]
  · cases h : f.get? n <;> simp [hn, h, parent?]

/-- A move takes the moved node from the children of its parent and puts it at the end of the
children of its new one. -/
theorem children_relocate (hparent : f.contains parent = true) (n : NodeId) :
    (f.relocate child parent).children n =
      (if f.parent? child = some n then (f.children n).filter (· != child) else f.children n) ++
        if n = parent then [child] else [] := by
  rw [children, get?_relocate]
  by_cases hn : n = parent
  · obtain ⟨e, he⟩ := exists_get?_eq_some hparent
    simp [hn, he, children]
  · cases h : f.get? n <;> simp [hn, h, children]

section MapEntries

variable {r : Entry → Entry}

theorem mapEntries_detach (hr : Entry.KeepsShape r) (f : Forest) (child : NodeId) :
    (f.detach child).mapEntries r = (f.mapEntries r).detach child := by
  have hparent : (f.mapEntries r).parent? child = f.parent? child :=
    congrFun (eq_of_skeleton_eq parent?_skeleton (skeleton_mapEntries hr f)) child
  rw [detach, detach, hparent]
  cases f.parent? child with
  | none => rfl
  | some p =>
    refine mapEntries_modify (fun e => ?_) f p
    rw [hr.children_eq, hr.children_apply]

theorem mapEntries_attach (hr : Entry.KeepsShape r) (f : Forest) (child parent : NodeId) :
    (f.attach child parent).mapEntries r = (f.mapEntries r).attach child parent := by
  rw [attach, mapEntries_setParent hr, attach]
  refine congrArg (fun g : Forest => g.setParent child parent)
    (mapEntries_modify (fun e => ?_) f parent)
  rw [hr.children_eq, hr.children_apply]

theorem mapEntries_relocate (hr : Entry.KeepsShape r) (f : Forest) (child parent : NodeId) :
    (f.relocate child parent).mapEntries r = (f.mapEntries r).relocate child parent := by
  rw [relocate, mapEntries_attach hr, mapEntries_detach hr, relocate]

end MapEntries

/-- How a node is moved is a matter of the shape of the forest. -/
theorem skeleton_relocate (f : Forest) (child parent : NodeId) :
    (f.relocate child parent).skeleton = f.skeleton.relocate child parent :=
  mapEntries_relocate Entry.keepsShape_bare f child parent

end Relocate

end Forest

end MarkupForest
