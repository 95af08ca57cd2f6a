import MarkupForest.Proofs.Forest.WellFormed

/-!
# Runs

What a call does to a forest, and what holds of every forest that calls lead to.

Each call does one of few things (`Change`): it makes a node, moves one, finds out something about a
node, attaches something to it, or is refused and does nothing. What is found out is found out one
thing at a time (`Learns`), always from the forest as it stands and what is kept about the same node.

## Main definitions

* `Forest.Learns`: one thing is found out about a node and kept;
* `Forest.Change`: what a call does;
* `Forest.Reachable`: the forests that calls lead to, starting without nodes and as long as the ids
  do not run out.

## Main results

* `run_addParent_eq` and `run_move_eq`: what can be refused, as a check and what it guards;
* `change_step`: every call makes a `Change`;
* `Reachable.wellFormed`: every reachable forest is well formed;
* `links_of_reachable`: the same, said in terms of children and parents alone;
* `skeleton_step`: what a call does to the shape of a forest is a matter of its shape.
-/

namespace MarkupForest

namespace Command

/-- Whether a call makes a node. -/
def isGrowth : Command → Bool
  | addLeaf _ _ => true
  | addParent _ _ _ => true
  | addPage _ _ => true
  | _ => false

/-- Whether a call moves a node. -/
def isMove : Command → Bool
  | move _ _ => true
  | _ => false

/-- Whether a call can change the shape of a forest. -/
def isShaping (c : Command) : Bool :=
  c.isGrowth || c.isMove

/-- Whether a call asks for the place of a node. -/
def isQuestion : Command → Bool
  | tryRoot _ => true
  | root _ => true
  | enclosingSection _ => true
  | fingerprint _ => true
  | ident _ => true
  | pageAddress _ => true
  | address _ => true
  | _ => false

/-- Whether a call attaches something to a node. -/
def isAttachment : Command → Bool
  | annotate _ _ => true
  | addRecord _ _ => true
  | _ => false

end Command

namespace Forest

variable {f g : Forest} {n r : NodeId}

/-! ## Finding out the place of a node -/

theorem skeleton_remember (f : Forest) (n : NodeId) (h : Memo → Memo) :
    (f.remember n h).skeleton = f.skeleton :=
  skeleton_modify_of_bare (by intro e; rfl) f n

/-- What is kept about a node is kept about no other. -/
theorem memo_remember (hn : f.contains n = true) (h : Memo → Memo) (m : NodeId) :
    (f.remember n h).memo m = if m = n then h (f.memo n) else f.memo m := by
  obtain ⟨e, he⟩ := exists_get?_eq_some hn
  rw [memo, remember, get?_modify]
  by_cases hm : m = n
  · simp [hm, he, memo]
  · simp [hm, Ne.symm hm, memo]

/-- A node that belongs to a page is there. -/
theorem contains_of_findRoot (h : f.findRoot n = .ok r) : f.contains n = true := by
  rw [findRoot] at h
  split at h
  next hpage =>
    cases hp : f.parent? n with
    | some p => exact contains_of_parent? hp
    | none =>
      rw [top_of_parent?_eq_none hp] at hpage
      exact contains_of_isPage hpage
  next => exact absurd h (by simp)

/-- One thing is found out about the place of a node, and kept. -/
inductive Learns (n : NodeId) (f : Forest) : Forest → Prop
  /-- The page at the top of its tree. -/
  | root {r : NodeId} (hnew : (f.memo n).root = none) (hroot : f.findRoot n = .ok r) :
      Learns n f (f.remember n fun m => { m with root := some r })
  /-- Its section, on the page that is kept. -/
  | heading {r : NodeId} (hnew : (f.memo n).heading = none) (hroot : (f.memo n).root = some r) :
      Learns n f
        (f.remember n fun m => { m with heading := some (f.findSection r (f.line n)) })
  /-- The hash of its content, on the page that is kept. -/
  | fingerprint {r : NodeId} (hnew : (f.memo n).fingerprint = none)
      (hroot : (f.memo n).root = some r) :
      Learns n f (f.remember n fun m => { m with fingerprint := some (f.findFingerprint r n) })

/-- Several things are found out about the place of a node, one after the other. -/
def LearnsAll (n : NodeId) (f g : Forest) : Prop :=
  Relation.ReflTransGen (Learns n) f g

theorem Learns.contains (h : Learns n f g) : f.contains n = true := by
  have hmemo : ∀ {r : NodeId}, (f.memo n).root = some r → f.contains n = true := by
    intro r hr
    apply contains_of_memo_ne
    intro hempty
    rw [hempty] at hr
    exact absurd hr (by simp)
  cases h with
  | root _ hroot => exact contains_of_findRoot hroot
  | heading _ hroot => exact hmemo hroot
  | fingerprint _ hroot => exact hmemo hroot

theorem Learns.skeleton_eq (h : Learns n f g) : g.skeleton = f.skeleton := by
  cases h <;> exact skeleton_remember _ _ _

theorem LearnsAll.skeleton_eq (h : LearnsAll n f g) : g.skeleton = f.skeleton := by
  induction h with
  | refl => rfl
  | tail _ hlast ih => exact hlast.skeleton_eq.trans ih

/-- Asking for the page of a node keeps the page, if it is not kept yet, and nothing else. -/
theorem learnsAll_root (h : f.root n = .ok (r, g)) :
    LearnsAll n f g ∧ g.memo n = { f.memo n with root := some r } := by
  rw [Forest.root] at h
  split at h
  next hkept =>
    cases h
    refine ⟨Relation.ReflTransGen.refl, ?_⟩
    rw [← hkept]
  next hnew =>
    split at h
    next hroot =>
      cases h
      refine ⟨Relation.ReflTransGen.single (.root hnew hroot), ?_⟩
      rw [memo_remember (contains_of_findRoot hroot), if_pos rfl]
    next => cases h

theorem learnsAll_enclosingSection {s : Option NodeId} (h : f.enclosingSection n = .ok (s, g)) :
    LearnsAll n f g := by
  rw [enclosingSection] at h
  split at h
  next =>
    cases h
    exact Relation.ReflTransGen.refl
  next hnew =>
    split at h
    next hroot =>
      cases h
      -- by now the root is kept, and the section is found on that page
      obtain ⟨hlearns, hkept⟩ := learnsAll_root hroot
      exact hlearns.tail (.heading (by rw [hkept]; exact hnew) (by rw [hkept]))
    next => cases h

theorem learnsAll_fingerprint {d : UInt64} (h : f.fingerprint n = .ok (d, g)) :
    LearnsAll n f g := by
  rw [Forest.fingerprint] at h
  split at h
  next =>
    cases h
    exact Relation.ReflTransGen.refl
  next hnew =>
    split at h
    next hroot =>
      cases h
      obtain ⟨hlearns, hkept⟩ := learnsAll_root hroot
      exact hlearns.tail (.fingerprint (by rw [hkept]; exact hnew) (by rw [hkept]))
    next => cases h

theorem learnsAll_ident {i : Int64} (h : f.ident n = .ok (i, g)) : LearnsAll n f g := by
  rw [ident] at h
  split at h
  next =>
    obtain ⟨-, rfl⟩ := Prod.mk.inj (Except.ok.inj h)
    exact Relation.ReflTransGen.refl
  next =>
    split at h
    next hhash =>
      obtain ⟨-, rfl⟩ := Prod.mk.inj (Except.ok.inj h)
      exact learnsAll_fingerprint hhash
    next => cases h

theorem learnsAll_pageAddress {s : String} (h : f.pageAddress n = .ok (s, g)) :
    LearnsAll n f g := by
  rw [pageAddress] at h
  split at h
  next hroot =>
    cases h
    exact (learnsAll_root hroot).1
  next => cases h

theorem learnsAll_address {s : String} (h : f.address n = .ok (s, g)) : LearnsAll n f g := by
  rw [address] at h
  split at h
  next hsource =>
    split at h
    next hsection =>
      cases h
      exact (learnsAll_pageAddress hsource).trans (learnsAll_enclosingSection hsection)
    next => cases h
  next => cases h

/-! ## What a call does -/

/-- What a call does to a forest. -/
inductive Change (f : Forest) : Command → Forest → Prop
  /-- It is refused. -/
  | refused {c : Command} : Change f c f
  /-- It makes a node. -/
  | grow {c : Command} {kind : Kind} {line : UInt32} {children : List NodeId}
      (hc : c.isGrowth = true) (hfree : ∀ d ∈ children, f.IsFree d) (hnodup : children.Nodup) :
      Change f c (f.grow kind line children)
  /-- It moves a node. -/
  | move {child parent : NodeId} (hok : f.checkMove child parent = .ok ()) :
      Change f (.move child parent) (f.relocate child parent)
  /-- It finds out something about a node. -/
  | learn {c : Command} {n : NodeId} {g : Forest} (hc : c.isQuestion = true)
      (hlearns : LearnsAll n f g) : Change f c g
  /-- It attaches something to a node. -/
  | attach {c : Command} {n : NodeId} {h : Entry → Entry} (hc : c.isAttachment = true)
      (hbare : ∀ e, (h e).bare = e.bare) (hmemo : ∀ e, (h e).memo = e.memo) :
      Change f c (f.modify n h)

theorem step_of_error {c : Command} {e : Failure} (h : f.run c = .error e) : f.step c = f := by
  rw [step, h]

theorem step_of_ok {c : Command} {o : Outcome} (h : f.run c = .ok o) : f.step c = o.forest := by
  rw [step, h]

/-- What comes of a call that is made if a check is passed, and refused otherwise. -/
def guarded (check : Except Refusal Unit) (o : Outcome) : Except Failure Outcome :=
  (check.map fun _ => o).mapError .refused

theorem guarded_eq_ok_iff {check : Except Refusal Unit} {o : Outcome} :
    (∃ o', guarded check o = .ok o') ↔ check = .ok () := by
  cases check <;> simp [guarded, Except.map, Except.mapError]

theorem guarded_eq_error_iff {check : Except Refusal Unit} {o : Outcome} {e : Failure} :
    guarded check o = .error e ↔ ∃ why, e = .refused why ∧ check = .error why := by
  cases check <;> simp [guarded, Except.map, Except.mapError, eq_comm]

section Growth

variable {kind : Kind} {line : UInt32} {children : List NodeId}

theorem run_addParent_eq (f : Forest) (kind : Kind) (line : UInt32) (children : List NodeId) :
    f.run (.addParent kind line children) =
      guarded (f.checkChildren [] children) (made (f.nextId, f.grow kind line children)) := by
  rw [run]
  cases hok : f.checkChildren [] children with
  | ok u =>
    rw [addParent_of_checkChildren hok]
    rfl
  | error e =>
    rw [addParent_of_checkChildren_error hok]
    rfl

theorem step_addParent (hok : f.checkChildren [] children = .ok ()) :
    f.step (.addParent kind line children) = f.grow kind line children := by
  rw [step, run, addParent_of_checkChildren hok]
  rfl

theorem step_addParent_of_error {e : Refusal} (h : f.checkChildren [] children = .error e) :
    f.step (.addParent kind line children) = f := by
  rw [step, run, addParent_of_checkChildren_error h]

theorem step_addLeaf (f : Forest) (kind : Kind) (line : UInt32) :
    f.step (.addLeaf kind line) = f.step (.addParent kind line []) := rfl

theorem step_addPage (f : Forest) (page : Page) (children : List NodeId) :
    f.step (.addPage page children) = f.step (.addParent (.page page) 0 children) := rfl

/-- Making a node is refused, or adds a node with different free nodes as its children. -/
theorem change_growth {c : Command} (hc : c.isGrowth = true)
    (h : f.step c = f.step (.addParent kind line children)) : Change f c (f.step c) := by
  rw [h]
  cases hok : f.checkChildren [] children with
  | ok u =>
    rw [step_addParent hok]
    obtain ⟨hfree, hnodup⟩ := checkChildren_eq_ok_iff.1 hok
    exact .grow hc (fun d hd => (hfree d hd).1) hnodup
  | error e =>
    rw [step_addParent_of_error hok]
    exact .refused

end Growth

section Move

variable {child parent : NodeId}

theorem run_move_eq (f : Forest) (child parent : NodeId) :
    f.run (.move child parent) =
      guarded (f.checkMove child parent)
        ⟨.done, if f.isNavigated child then [.staleMove child parent] else [],
          f.relocate child parent⟩ := by
  rw [run]
  cases hok : f.checkMove child parent with
  | ok u =>
    rw [move_of_checkMove hok]
    rfl
  | error e =>
    rw [move_of_checkMove_error hok]
    rfl

theorem run_move (hok : f.checkMove child parent = .ok ()) :
    f.run (.move child parent) =
      .ok ⟨.done, if f.isNavigated child then [.staleMove child parent] else [],
        f.relocate child parent⟩ := by
  rw [run_move_eq, hok]
  rfl

/-- A move that succeeds has passed the check. -/
theorem checkMove_of_run_eq_ok {o : Outcome} (h : f.run (.move child parent) = .ok o) :
    f.checkMove child parent = .ok () := by
  rw [run_move_eq] at h
  exact guarded_eq_ok_iff.1 ⟨o, h⟩

theorem step_move (hok : f.checkMove child parent = .ok ()) :
    f.step (.move child parent) = f.relocate child parent := by
  rw [step, run, move_of_checkMove hok]

theorem step_move_of_error {e : Refusal} (h : f.checkMove child parent = .error e) :
    f.step (.move child parent) = f := by
  rw [step, run, move_of_checkMove_error h]

end Move

/-- A call about a node that is not there is refused. -/
theorem change_onNode {c : Command} {k : Except Failure Outcome} (hrun : f.run c = f.onNode n k)
    (hk : ∀ o, k = .ok o → Change f c o.forest) : Change f c (f.step c) := by
  rw [onNode] at hrun
  split at hrun
  · cases ho : k with
    | ok o =>
      rw [step_of_ok (hrun.trans ho)]
      exact hk o ho
    | error e =>
      rw [step_of_error (hrun.trans ho)]
      exact .refused
  · rw [step_of_error hrun]
    exact .refused

/-- A question changes a forest only by what it finds out. -/
theorem change_asked {c : Command} (hc : c.isQuestion = true) {α : Type} {ans : α → Answer}
    {q : Except Refusal (α × Forest)} (hrun : f.run c = f.onNode n (asked ans q))
    (hq : ∀ {a : α} {g : Forest}, q = .ok (a, g) → LearnsAll n f g) : Change f c (f.step c) := by
  refine change_onNode hrun fun o ho => ?_
  cases hres : q with
  | ok res =>
    rw [hres, asked] at ho
    cases ho
    exact .learn hc (hq hres)
  | error e =>
    rw [hres, asked] at ho
    cases ho

/-- Every call makes a change of one of these kinds. -/
theorem change_step (f : Forest) (c : Command) : Change f c (f.step c) := by
  cases c with
  | addLeaf kind line => exact change_growth rfl (step_addLeaf f kind line)
  | addParent kind line children => exact change_growth rfl rfl
  | addPage page children => exact change_growth rfl (step_addPage f page children)
  | move child parent =>
    cases hok : f.checkMove child parent with
    | ok u =>
      rw [step_move hok]
      exact .move hok
    | error e =>
      rw [step_move_of_error hok]
      exact .refused
  | tryRoot n =>
    refine change_onNode rfl fun o ho => ?_
    split at ho
    next hroot =>
      cases ho
      exact .learn rfl (learnsAll_root hroot).1
    next => cases ho
  | root n => exact change_asked rfl rfl fun h => (learnsAll_root h).1
  | enclosingSection n => exact change_asked rfl rfl learnsAll_enclosingSection
  | fingerprint n => exact change_asked rfl rfl learnsAll_fingerprint
  | ident n => exact change_asked rfl rfl learnsAll_ident
  | pageAddress n => exact change_asked rfl rfl learnsAll_pageAddress
  | address n => exact change_asked rfl rfl learnsAll_address
  | annotate n slot =>
    refine change_onNode rfl fun o ho => ?_
    cases ho
    exact .attach rfl (by intro e; rfl) (by intro e; rfl)
  | addRecord n record =>
    refine change_onNode rfl fun o ho => ?_
    cases ho
    cases hrecord : record.boundTo n with
    | some adopted => exact .attach rfl (by intro e; rfl) (by intro e; rfl)
    | none => exact .refused

/-! ## Reachable forests -/

/-- A change that keeps the ids from running out keeps a forest well formed. -/
theorem Change.wellFormed {c : Command} (h : Change f c g) (hf : f.WellFormed)
    (hsize : g.size ≤ UInt32.size) : g.WellFormed := by
  cases h with
  | refused => exact hf
  | grow _ hfree hnodup =>
    rw [size_grow] at hsize
    exact hf.grow hsize hfree hnodup
  | move hok => exact hf.relocate hok
  | learn _ hlearns => exact hf.of_skeleton_eq hlearns.skeleton_eq
  | attach _ hbare _ => exact hf.of_skeleton_eq (skeleton_modify_of_bare hbare f _)

/-- No call takes a node away. -/
theorem Change.size_le {c : Command} (h : Change f c g) : f.size ≤ g.size := by
  cases h with
  | refused => exact Nat.le_refl _
  | grow => simp
  | move => simp
  | learn _ hlearns => exact (eq_of_skeleton_eq size_skeleton hlearns.skeleton_eq).ge
  | attach => simp

/-- The forests that calls lead to from the forest without nodes, as long as the ids do not run out.
The calls may succeed or fail. -/
inductive Reachable : Forest → Prop
  /-- The forest without nodes. -/
  | empty : Reachable Forest.empty
  /-- A forest that a call leads to. -/
  | step {f : Forest} (c : Command) : Reachable f → (f.step c).size ≤ UInt32.size →
      Reachable (f.step c)

theorem Reachable.size_le (hf : f.Reachable) : f.size ≤ UInt32.size := by
  cases hf with
  | empty => simp
  | step c _ hsize => exact hsize

/-- Every reachable forest is well formed. -/
theorem Reachable.wellFormed (hf : f.Reachable) : f.WellFormed := by
  induction hf with
  | empty => exact wellFormed_empty
  | step c _ hsize ih => exact (change_step _ c).wellFormed ih hsize

theorem runAll_append (f : Forest) (cs ds : List Command) :
    f.runAll (cs ++ ds) = (f.runAll cs).runAll ds :=
  List.foldl_append

theorem size_le_size_runAll (f : Forest) (cs : List Command) : f.size ≤ (f.runAll cs).size := by
  induction cs generalizing f with
  | nil => exact Nat.le_refl _
  | cons c cs ih => exact (change_step f c).size_le.trans (ih (f.step c))

/-- If the ids do not run out over a run, then they do not over its first call. -/
theorem size_step_le {c : Command} {cs : List Command}
    (hsize : (f.runAll (c :: cs)).size ≤ UInt32.size) : (f.step c).size ≤ UInt32.size :=
  (size_le_size_runAll (f.step c) cs).trans hsize

/-- Any calls lead to a reachable forest as long as the ids do not run out. -/
theorem Reachable.runAll (hf : f.Reachable) (cs : List Command)
    (hsize : (f.runAll cs).size ≤ UInt32.size) : (f.runAll cs).Reachable := by
  induction cs generalizing f with
  | nil => exact hf
  | cons c cs ih =>
    exact ih (.step c hf (size_step_le hsize)) hsize

/-- In every reachable forest, children and parents are nodes of the forest, a node is among the
children of another one exactly if that one is its parent, and it is there once; a page has no
parent; no node is its own ancestor, and above every node there is one without a parent. -/
theorem links_of_reachable (hf : f.Reachable) :
    (∀ p c, c ∈ f.children p → c.index < f.size) ∧
    (∀ c p, f.parent? c = some p → p.index < f.size) ∧
    (∀ p c, c ∈ f.children p ↔ f.parent? c = some p) ∧
    (∀ p, (f.children p).Nodup) ∧
    (∀ n, f.isPage n = true → f.parent? n = none) ∧
    (∀ n, ¬Relation.TransGen f.IsParent n n) ∧
    (∀ n, ∃ t, f.Above t n ∧ f.parent? t = none) := by
  have hwf := hf.wellFormed
  refine ⟨?_, ?_, ?_, hwf.nodup_children, ?_, hwf.not_transGen_self, hwf.exists_above_top⟩
  · intro p c hc
    rw [← contains_iff]
    exact hwf.contains_child hc
  · intro c p hp
    rw [← contains_iff]
    exact hwf.contains_parent hp
  · intro p c
    exact hwf.mem_children_iff
  · intro n hn
    exact hwf.parent?_of_isPage hn

/-- Two texts become a cell, the cell a page; then one text is moved up to the page, and the cell
below that text. Adopting a node twice or moving the text below the cell is refused. -/
def sampleRun : List Command :=
  [.addLeaf (.text "a") 1, .addLeaf (.text "b") 2, .addParent .tableCell 1 [⟨0⟩, ⟨1⟩],
    .addParent .tableRow 1 [⟨2⟩, ⟨2⟩], .addPage ⟨.article "P", 1, 100⟩ [⟨2⟩], .root ⟨0⟩,
    .move ⟨0⟩ ⟨3⟩, .move ⟨2⟩ ⟨0⟩, .move ⟨0⟩ ⟨2⟩]

theorem links_of_reachable_sampleRun :
    (empty.runAll sampleRun).children ⟨0⟩ = [⟨2⟩] ∧
    ((⟨1⟩ : NodeId) ∈ (empty.runAll sampleRun).children ⟨2⟩ ↔
      (empty.runAll sampleRun).parent? ⟨1⟩ = some ⟨2⟩) ∧
    ¬Relation.TransGen (empty.runAll sampleRun).IsParent ⟨0⟩ ⟨0⟩ := by
  have hreach : (empty.runAll sampleRun).Reachable := .runAll .empty sampleRun (by decide +kernel)
  obtain ⟨-, -, hlinks, -, -, hacyclic, -⟩ := links_of_reachable hreach
  exact ⟨by decide +kernel, hlinks _ _, hacyclic _⟩

/-! ## The shape of a forest over a run -/

@[simp] theorem skeleton_skeleton (f : Forest) : f.skeleton.skeleton = f.skeleton := by
  simp only [skeleton, Array.map_map]
  rfl

/-- A call that neither makes nor moves a node keeps the shape of the forest. -/
theorem Change.skeleton_eq {c : Command} (h : Change f c g) (hc : c.isShaping = false) :
    g.skeleton = f.skeleton := by
  cases h with
  | refused => rfl
  | grow hgrowth => simp [Command.isShaping, hgrowth] at hc
  | move => simp [Command.isShaping, Command.isMove] at hc
  | learn _ hlearns => exact hlearns.skeleton_eq
  | attach _ hbare _ => exact skeleton_modify_of_bare hbare f _

theorem checkChildren_skeleton {children : List NodeId} :
    f.skeleton.checkChildren [] children = .ok () ↔ f.checkChildren [] children = .ok () := by
  simp only [checkChildren_eq_ok_iff, isFree_skeleton]

theorem checkMove_skeleton (f : Forest) : f.skeleton.checkMove = f.checkMove := by
  funext child parent
  simp [checkMove]

theorem skeleton_step_addParent (f : Forest) (kind : Kind) (line : UInt32)
    (children : List NodeId) :
    (f.step (.addParent kind line children)).skeleton =
      (f.skeleton.step (.addParent kind line children)).skeleton := by
  cases hok : f.checkChildren [] children with
  | ok u =>
    rw [step_addParent hok, step_addParent (checkChildren_skeleton.2 hok), skeleton_grow,
      skeleton_grow, skeleton_skeleton]
  | error e =>
    cases hok' : f.skeleton.checkChildren [] children with
    | ok u => exact absurd (checkChildren_skeleton.1 hok') (by simp [hok])
    | error e' => rw [step_addParent_of_error hok, step_addParent_of_error hok', skeleton_skeleton]

theorem skeleton_step_move (f : Forest) (child parent : NodeId) :
    (f.step (.move child parent)).skeleton =
      (f.skeleton.step (.move child parent)).skeleton := by
  have hok' := congrFun₂ (checkMove_skeleton f) child parent
  cases hok : f.checkMove child parent with
  | ok u =>
    rw [step_move hok, step_move (hok'.trans hok), skeleton_relocate, skeleton_relocate,
      skeleton_skeleton]
  | error e => rw [step_move_of_error hok, step_move_of_error (hok'.trans hok), skeleton_skeleton]

/-- What a call does to the shape of a forest is a matter of its shape. -/
theorem skeleton_step (f : Forest) (c : Command) :
    (f.step c).skeleton = (f.skeleton.step c).skeleton := by
  -- a call that is not about the shape keeps it on both sides
  have hother : c.isShaping = false → (f.step c).skeleton = (f.skeleton.step c).skeleton := by
    intro hc
    rw [(change_step f c).skeleton_eq hc, (change_step f.skeleton c).skeleton_eq hc,
      skeleton_skeleton]
  cases c with
  | addLeaf kind line =>
    rw [step_addLeaf, step_addLeaf]
    exact skeleton_step_addParent f kind line []
  | addParent kind line children => exact skeleton_step_addParent f kind line children
  | addPage page children =>
    rw [step_addPage, step_addPage]
    exact skeleton_step_addParent f (.page page) 0 children
  | move child parent => exact skeleton_step_move f child parent
  | _ => exact hother rfl

/-- The shape of a forest after some calls is a matter of its shape before, and of those calls alone
that make or move nodes. -/
theorem skeleton_runAll (h : f.skeleton = g.skeleton) (cs : List Command) :
    (f.runAll cs).skeleton = (g.runAll (cs.filter Command.isShaping)).skeleton := by
  induction cs generalizing f g with
  | nil => exact h
  | cons c cs ih =>
    cases hc : c.isShaping with
    | true =>
      rw [List.filter_cons_of_pos hc]
      refine ih ?_
      rw [skeleton_step f, skeleton_step g, h]
    | false =>
      rw [List.filter_cons_of_neg (by simp [hc])]
      exact ih (((change_step f c).skeleton_eq hc).trans h)

end Forest

end MarkupForest
