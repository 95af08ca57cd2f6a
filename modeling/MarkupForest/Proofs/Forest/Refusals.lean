import MarkupForest.Proofs.Forest.Run

/-!
# Refusals

When nodes cannot be adopted or moved, what the refusal says, and that it leaves no trace.

Several things can be wrong with a call at once, and a refusal names one of them. For children it is
what is wrong at the first place of the list at which something is wrong; the nodes before that
place count as adopted. For a move it is the first in a fixed order.

A refused call comes back without a forest, so it cannot change one. That it need not is a matter of
the order of its steps: no node is changed before all checks have passed. This is said about the
same calls as programs that work on a forest in place (`InPlace`), which stop where a check fails
and leave behind what they have changed by then.

## Main definitions

* `Forest.Misfit` and `Forest.FirstMisfit`: what is wrong with a node as a child of the next node,
  and with a list of children;
* `Forest.Blocked`: what is wrong with a move;
* `InPlace`: programs that work on a forest in place.

## Main results

* `Forest.checkChildren_eq_error_iff` and `Forest.WellFormed.checkMove_eq_error_iff`: what the
  checks report;
* `InPlace.exec_addParent` and `InPlace.exec_move`: working in place gives the same, and a refusal
  leaves the forest as it was;
* `Forest.refusals_of_reachable`: which calls are refused, and how.
-/

namespace MarkupForest

namespace Forest

variable {f : Forest} {before children : List NodeId} {c child parent : NodeId} {why : Refusal}

/-- A check that reports whatever is wrong, and passes only if nothing is, reports exactly what is
wrong. -/
private theorem eq_error_iff_of_complete {ε : Type} {x : Except ε Unit} {wrong : ε → Prop}
    (hreports : ∀ e, wrong e → x = .error e) (hcomplete : x ≠ .ok () → ∃ e, wrong e) {e : ε} :
    x = .error e ↔ wrong e := by
  refine ⟨fun h => ?_, hreports e⟩
  obtain ⟨e', he'⟩ := hcomplete (by rw [h]; exact nofun)
  -- the check reports one thing only
  have hsame : Except.error e = Except.error e' := h.symm.trans (hreports e' he')
  rwa [Except.error.inj hsame]

/-! ## Children that cannot be adopted -/

/-- Something is wrong with a node as a child of the next node, behind the given ones. -/
inductive Misfit (f : Forest) (before : List NodeId) (c : NodeId) : Refusal → Prop
  /-- There is no such node. -/
  | unknown (hnew : f.size ≤ c.index) : Misfit f before c (.unknownNode c)
  /-- It has a parent. -/
  | taken {p : NodeId} (hp : f.parent? c = some p) : Misfit f before c (.alreadyParented c p)
  /-- It is a page. -/
  | page (htop : f.parent? c = none) (hpage : f.isPage c = true) :
      Misfit f before c (.pageAsChild c)
  /-- It could be adopted, but stands among the nodes before it. -/
  | repeated (hfree : f.IsFree c) (hmem : c ∈ before) :
      Misfit f before c (.alreadyParented c f.nextId)

/-- Something is wrong with a list of children, behind the given nodes, and this is what is wrong at
the first place at which there is something. -/
def FirstMisfit (f : Forest) (before children : List NodeId) (why : Refusal) : Prop :=
  ∃ i, (∃ c, children[i]? = some c ∧ f.Misfit (before ++ children.take i) c why) ∧
    ∀ j < i, ∀ d, children[j]? = some d → ∀ w, ¬f.Misfit (before ++ children.take j) d w

theorem checkChild_of_misfit (h : f.Misfit before c why) : f.checkChild before c = .error why := by
  cases h with
  | unknown hnew =>
    have hnone : f.get? c = none := by
      rw [get?_eq_none_iff, ← Bool.not_eq_true, contains_iff]
      exact Nat.not_lt.2 hnew
    rw [checkChild, hnone]
  | taken hp =>
    obtain ⟨e, he, hpe⟩ := Option.bind_eq_some_iff.1 hp
    rw [checkChild, he]
    simp only [hpe]
  | page htop hpage =>
    obtain ⟨e, he⟩ := exists_get?_eq_some (contains_of_isPage hpage)
    have hpe : e.parent = none := by simpa [parent?, he] using htop
    have hke : e.kind.isPage = true := by simpa [isPage, page?, kind?, he, Kind.isPage] using hpage
    simp [checkChild, he, hpe, hke]
  | repeated hfree hmem =>
    obtain ⟨e, he⟩ := exists_get?_eq_some hfree.contains
    have hpe : e.parent = none := by simpa [parent?, he] using hfree.parent?_eq_none
    have hke : e.kind.isPage = false := by
      simpa [isPage, page?, kind?, he, Kind.isPage] using hfree.isPage_eq_false
    simp [checkChild, he, hpe, hke, hmem]

/-- Something is wrong with every node that is not free or not new to the list. -/
theorem exists_misfit (h : ¬(f.IsFree c ∧ c ∉ before)) : ∃ w, f.Misfit before c w := by
  by_cases hc : f.contains c = true
  · cases hp : f.parent? c with
    | some p => exact ⟨_, .taken hp⟩
    | none =>
      cases hpage : f.isPage c with
      | true => exact ⟨_, .page hp hpage⟩
      | false =>
        have hfree : f.IsFree c := ⟨hc, hp, hpage⟩
        exact ⟨_, .repeated hfree (by simpa [hfree] using h)⟩
  · rw [contains_iff] at hc
    exact ⟨_, .unknown (Nat.not_lt.1 hc)⟩

/-- The check of a child reports what is wrong with it. -/
theorem checkChild_eq_error_iff : f.checkChild before c = .error why ↔ f.Misfit before c why :=
  eq_error_iff_of_complete (fun _ => checkChild_of_misfit) fun hno =>
    exists_misfit (mt checkChild_eq_ok_iff.2 hno)

/-- What is first wrong with a list is wrong with its head, or with the rest behind a head that
fits. -/
theorem firstMisfit_cons {children : List NodeId} :
    f.FirstMisfit before (c :: children) why ↔
      f.Misfit before c why ∨
        (∀ w, ¬f.Misfit before c w) ∧ f.FirstMisfit (before ++ [c]) children why := by
  -- the first place is zero, or all places are those of the rest, one further on
  rw [FirstMisfit, ← Nat.or_exists_add_one]
  simp only [FirstMisfit, Nat.forall_lt_succ_left, List.getElem?_cons_zero,
    List.getElem?_cons_succ, List.take_zero, List.take_succ_cons, List.append_nil,
    List.append_assoc, List.singleton_append, Option.some.injEq, exists_eq_left', forall_eq',
    Nat.not_lt_zero, false_implies, implies_true, and_true]
  refine or_congr_right ⟨?_, ?_⟩
  · rintro ⟨i, hi, hhead, hrest⟩
    exact ⟨hhead, i, hi, hrest⟩
  · rintro ⟨hhead, i, hi, hrest⟩
    exact ⟨i, hi, hhead, hrest⟩

/-- The check of a list of children reports what is wrong at the first place at which something is
wrong. -/
theorem checkChildren_eq_error_iff :
    f.checkChildren before children = .error why ↔ f.FirstMisfit before children why := by
  induction children generalizing before with
  | nil => simp [checkChildren, FirstMisfit]
  | cons c cs ih =>
    rw [firstMisfit_cons, ← checkChild_eq_error_iff, ← ih]
    simp only [checkChildren, ← checkChild_eq_error_iff]
    cases f.checkChild before c with
    | error e => simp
    | ok u => simp

/-! ## Moves that are not possible -/

/-- Something is wrong with a move of a node under another one. -/
inductive Blocked (f : Forest) (child parent : NodeId) : Refusal → Prop
  /-- There is no node to be moved. -/
  | unknownChild (hchild : f.size ≤ child.index) : Blocked f child parent (.unknownNode child)
  /-- It is a page. -/
  | page (hpage : f.isPage child = true) : Blocked f child parent (.pageAsChild child)
  /-- There is no node to move it to. -/
  | unknownParent (hchild : child.index < f.size) (hpage : f.isPage child = false)
      (hparent : f.size ≤ parent.index) : Blocked f child parent (.unknownNode parent)
  /-- It is moved below itself. -/
  | cycle (hchild : child.index < f.size) (hpage : f.isPage child = false)
      (hparent : parent.index < f.size) (habove : f.Above child parent) :
      Blocked f child parent (.cycle child parent)

namespace WellFormed

theorem checkMove_of_blocked (hf : f.WellFormed) (h : f.Blocked child parent why) :
    f.checkMove child parent = .error why := by
  cases h with
  | unknownChild hchild => simp [checkMove, contains, Nat.not_lt.2 hchild]
  | page hpage => simp [checkMove, contains_of_isPage hpage, hpage]
  | unknownParent hchild hpage hparent =>
    simp [checkMove, contains, hchild, hpage, Nat.not_lt.2 hparent]
  | cycle hchild hpage hparent habove =>
    rw [← hf.mem_lineage_iff ((f.contains_iff parent).2 hparent)] at habove
    simp [checkMove, contains, hchild, hpage, hparent, habove]

/-- A node can be moved, or something is wrong with the move. -/
theorem exists_blocked (h : f.checkMove child parent ≠ .ok ()) :
    ∃ w, f.Blocked child parent w := by
  rw [Ne, checkMove_eq_ok_iff, contains_iff, contains_iff] at h
  by_cases hchild : child.index < f.size
  · cases hpage : f.isPage child with
    | true => exact ⟨_, .page hpage⟩
    | false =>
      by_cases hparent : parent.index < f.size
      · have hmem : child ∈ f.lineage parent := by simpa [hchild, hpage, hparent] using h
        exact ⟨_, .cycle hchild hpage hparent (above_of_mem_climb hmem)⟩
      · exact ⟨_, .unknownParent hchild hpage (Nat.not_lt.1 hparent)⟩
  · exact ⟨_, .unknownChild (Nat.not_lt.1 hchild)⟩

/-- The check of a move reports what is wrong with it. -/
theorem checkMove_eq_error_iff (hf : f.WellFormed) :
    f.checkMove child parent = .error why ↔ f.Blocked child parent why :=
  eq_error_iff_of_complete (fun _ => hf.checkMove_of_blocked) exists_blocked

end WellFormed

end Forest

/-! ## Working in place -/

/-- A program that works on a forest in place. Where it fails, what it has changed by then stays
changed. -/
abbrev InPlace := ExceptT Refusal (StateM Forest)

namespace InPlace

variable {α β : Type}

/-- Runs a program: its result, and the forest that it leaves behind, whether or not it fails. -/
def exec (p : InPlace α) (f : Forest) : Except Refusal α × Forest :=
  p.run.run f

/-- Goes on if a check of the forest as it stands is passed. -/
def check (k : Forest → Except Refusal Unit) : InPlace Unit := do
  MonadExcept.ofExcept (k (← get))

/-- Checks the children of the next node in order, each against those before it. -/
def checkChildren (children : List NodeId) : InPlace Unit :=
  children.zipIdx.forM fun x => check (·.checkChild (children.take x.2) x.1)

/-- Sets the parent of each of some nodes. -/
def linkChildren (children : List NodeId) (parent : NodeId) : InPlace Unit :=
  children.forM fun c => modify (·.setParent c parent)

/-- Makes a node with the given children. -/
def addParent (kind : Kind) (line : UInt32) (children : List NodeId) : InPlace NodeId := do
  let id := (← get).nextId
  checkChildren children
  linkChildren children id
  modify (·.push { kind := kind, line := line, children := children })
  return id

/-- Moves a node to the end of the children of another one, and returns what is reported. -/
def move (child parent : NodeId) : InPlace (List Event) := do
  check (·.checkMove child parent)
  let navigated := (← get).isNavigated child
  modify (·.detach child)
  modify (·.modify parent fun e => { e with children := e.children ++ [child] })
  modify (·.setParent child parent)
  return if navigated then [.staleMove child parent] else []

section Steps

variable {p : InPlace α} {k : α → InPlace β} {f g : Forest}

theorem exec_bind_of_ok {a : α} (h : p.exec f = (.ok a, g)) : (p >>= k).exec f = (k a).exec g := by
  rw [exec] at h
  rw [exec, ExceptT.run_bind, StateT.run_bind, h]
  rfl

/-- After a step that fails there is no next one. -/
theorem exec_bind_of_error {e : Refusal} (h : p.exec f = (.error e, g)) :
    (p >>= k).exec f = (.error e, g) := by
  rw [exec] at h
  rw [exec, ExceptT.run_bind, StateT.run_bind, h]
  rfl

theorem exec_check (k : Forest → Except Refusal Unit) (f : Forest) :
    (check k).exec f = (k f, f) := by
  have hget : (get : InPlace Forest).exec f = (.ok f, f) := rfl
  rw [check, exec_bind_of_ok hget]
  cases k f <;> rfl

end Steps

/-- Checking the children one by one changes nothing. Looking back at the part of the list before a
place is the same as collecting the nodes that have passed. -/
theorem exec_forM_check (f : Forest) (before rest : List NodeId) :
    exec ((rest.zipIdx before.length).forM fun x =>
        check (·.checkChild ((before ++ rest).take x.2) x.1)) f =
      (f.checkChildren before rest, f) := by
  induction rest generalizing before with
  | nil => rfl
  | cons c cs ih =>
    have hhead : (check (·.checkChild ((before ++ c :: cs).take before.length) c)).exec f =
        (f.checkChild before c, f) := by
      rw [exec_check, List.take_left]
    have hrest := ih (before ++ [c])
    rw [List.length_append, List.append_assoc] at hrest
    rw [List.zipIdx_cons, Forest.checkChildren]
    change exec (check _ >>= fun _ => _) f = _
    cases hc : f.checkChild before c with
    | ok u =>
      rw [hc] at hhead
      rw [exec_bind_of_ok hhead]
      exact hrest
    | error e =>
      rw [hc] at hhead
      rw [exec_bind_of_error hhead]

theorem exec_checkChildren (f : Forest) (children : List NodeId) :
    (checkChildren children).exec f = (f.checkChildren [] children, f) :=
  exec_forM_check f [] children

theorem exec_linkChildren (f : Forest) (children : List NodeId) (parent : NodeId) :
    (linkChildren children parent).exec f = (.ok (), f.adopt children parent) := by
  induction children generalizing f with
  | nil => rfl
  | cons c cs ih =>
    have hhead : (modify (·.setParent c parent) : InPlace Unit).exec f =
        (.ok (), f.setParent c parent) := rfl
    change exec (modify _ >>= fun _ => linkChildren cs parent) f = _
    rw [exec_bind_of_ok hhead, ih]
    rfl

/-- Making a node in place gives the same as making it at once. If it fails, then the forest has not
been changed, since no node is linked before all have been checked. -/
theorem exec_addParent (f : Forest) (kind : Kind) (line : UInt32) (children : List NodeId) :
    (addParent kind line children).exec f =
      ((f.addParent kind line children).map Prod.fst,
        f.step (.addParent kind line children)) := by
  have hget : (get : InPlace Forest).exec f = (.ok f, f) := rfl
  have hchecks := exec_checkChildren f children
  rw [addParent, exec_bind_of_ok hget]
  cases hok : f.checkChildren [] children with
  | ok u =>
    rw [hok] at hchecks
    rw [exec_bind_of_ok hchecks, exec_bind_of_ok (exec_linkChildren f children f.nextId),
      Forest.step_addParent hok, Forest.addParent_of_checkChildren hok]
    rfl
  | error e =>
    rw [hok] at hchecks
    rw [exec_bind_of_error hchecks, Forest.step_addParent_of_error hok,
      Forest.addParent_of_checkChildren_error hok]
    rfl

theorem eq_of_exec_addParent {f g : Forest} {kind : Kind} {line : UInt32} {children : List NodeId}
    {why : Refusal} (h : (addParent kind line children).exec f = (.error why, g)) : g = f := by
  rw [exec_addParent] at h
  cases hok : f.checkChildren [] children with
  | ok u =>
    rw [Forest.addParent_of_checkChildren hok] at h
    cases h
  | error e =>
    rw [Forest.step_addParent_of_error hok] at h
    exact (Prod.mk.inj h).2.symm

/-- Moving a node in place gives the same as moving it at once. -/
theorem exec_move (f : Forest) (child parent : NodeId) :
    (move child parent).exec f =
      ((f.move child parent).map Prod.fst, f.step (.move child parent)) := by
  have hcheck := exec_check (·.checkMove child parent) f
  rw [move]
  cases hok : f.checkMove child parent with
  | ok u =>
    rw [hok] at hcheck
    rw [exec_bind_of_ok hcheck, Forest.step_move hok, Forest.move_of_checkMove hok]
    rfl
  | error e =>
    rw [hok] at hcheck
    rw [exec_bind_of_error hcheck, Forest.step_move_of_error hok,
      Forest.move_of_checkMove_error hok]
    rfl

theorem eq_of_exec_move {f g : Forest} {child parent : NodeId} {why : Refusal}
    (h : (move child parent).exec f = (.error why, g)) : g = f := by
  rw [exec_move] at h
  cases hok : f.checkMove child parent with
  | ok u =>
    rw [Forest.move_of_checkMove hok] at h
    cases h
  | error e =>
    rw [Forest.step_move_of_error hok] at h
    exact (Prod.mk.inj h).2.symm

end InPlace

/-! ## Which calls are refused -/

namespace Forest

variable {f : Forest} {children : List NodeId} {child parent : NodeId}

/-- A node can be moved exactly if it and its new parent are there, it is no page, and it is neither
the new parent nor above it. -/
theorem WellFormed.checkMove_eq_ok_iff_above (hf : f.WellFormed) :
    f.checkMove child parent = .ok () ↔
      child.index < f.size ∧ parent.index < f.size ∧ f.isPage child = false ∧
        ¬f.Above child parent := by
  rw [checkMove_eq_ok_iff, ← contains_iff, ← contains_iff]
  constructor
  · rintro ⟨hchild, hpage, hparent, hline⟩
    exact ⟨hchild, hparent, hpage, mt (hf.mem_lineage_iff hparent).2 hline⟩
  · rintro ⟨hchild, hparent, hpage, habove⟩
    exact ⟨hchild, hpage, hparent, mt (hf.mem_lineage_iff hparent).1 habove⟩

/-- A list of children passes the checks exactly if each of them is free and stands in it once. -/
theorem checkChildren_nil_eq_ok_iff {children : List NodeId} :
    f.checkChildren [] children = .ok () ↔
      ∀ c ∈ children, c.index < f.size ∧ f.parent? c = none ∧ f.isPage c = false ∧
        children.count c = 1 := by
  simp only [checkChildren_eq_ok_iff, List.nodup_iff_count_eq_one, isFree_iff, contains_iff,
    List.not_mem_nil, not_false_eq_true, and_true, ← forall₂_and, and_assoc]

/-- In every reachable forest, a node is made exactly if all the nodes that it is to adopt are
there, have no parent, are no pages and are named once; otherwise the call is refused for what is
wrong at the first place of their list at which something is wrong. A node is moved exactly if it
and its new parent are there, it is no page, and it is neither the new parent nor above it;
otherwise the call is refused for the missing node, the page, the missing parent or the cycle, the
first of these that applies. Carried out in place, both calls give the same results and leave the
same forests behind, and a call that fails leaves the forest as it was. -/
theorem refusals_of_reachable (hf : f.Reachable) :
    (∀ kind line children,
      ((∃ o, f.run (.addParent kind line children) = .ok o) ↔
        ∀ c ∈ children, c.index < f.size ∧ f.parent? c = none ∧ f.isPage c = false ∧
          children.count c = 1) ∧
      (∀ e, f.run (.addParent kind line children) = .error e ↔
        ∃ why, e = .refused why ∧ f.FirstMisfit [] children why) ∧
      (InPlace.addParent kind line children).exec f =
        ((f.addParent kind line children).map Prod.fst,
          f.step (.addParent kind line children)) ∧
      ∀ why g, (InPlace.addParent kind line children).exec f = (.error why, g) → g = f) ∧
    (∀ child parent,
      ((∃ o, f.run (.move child parent) = .ok o) ↔
        child.index < f.size ∧ parent.index < f.size ∧ f.isPage child = false ∧
          ¬f.Above child parent) ∧
      (∀ e, f.run (.move child parent) = .error e ↔
        ∃ why, e = .refused why ∧ f.Blocked child parent why) ∧
      (InPlace.move child parent).exec f =
        ((f.move child parent).map Prod.fst, f.step (.move child parent)) ∧
      ∀ why g, (InPlace.move child parent).exec f = (.error why, g) → g = f) := by
  have hwf := hf.wellFormed
  refine ⟨fun kind line children => ⟨?_, fun e => ?_, InPlace.exec_addParent f kind line children,
    fun why g => InPlace.eq_of_exec_addParent⟩, fun child parent => ⟨?_, fun e => ?_,
    InPlace.exec_move f child parent, fun why g => InPlace.eq_of_exec_move⟩⟩
  · rw [run_addParent_eq, guarded_eq_ok_iff, checkChildren_nil_eq_ok_iff]
  · rw [run_addParent_eq, guarded_eq_error_iff]
    simp only [checkChildren_eq_error_iff]
  · rw [run_move_eq, guarded_eq_ok_iff, hwf.checkMove_eq_ok_iff_above]
  · rw [run_move_eq, guarded_eq_error_iff]
    simp only [hwf.checkMove_eq_error_iff]

/-- Two texts, a cell with the second one, and a page without children. -/
def sampleParts : List Command :=
  [.addLeaf (.text "a") 1, .addLeaf (.text "b") 2, .addParent .tableCell 2 [⟨1⟩],
    .addPage ⟨.article "P", 1, 100⟩ []]

/-- Of a list with several faults the first is reported, in the third place. A cell cannot be moved
below its own text. A list with a page in the last place leaves the nodes before it without parents.
-/
theorem refusals_of_reachable_sampleParts :
    (empty.runAll sampleParts).FirstMisfit [] [⟨0⟩, ⟨2⟩, ⟨0⟩, ⟨3⟩, ⟨9⟩, ⟨1⟩]
      (.alreadyParented ⟨0⟩ ⟨4⟩) ∧
    (empty.runAll sampleParts).Blocked ⟨2⟩ ⟨1⟩ (.cycle ⟨2⟩ ⟨1⟩) ∧
    (∃ g, (InPlace.addParent .tableRow 3 [⟨0⟩, ⟨2⟩, ⟨3⟩]).exec (empty.runAll sampleParts) =
      (.error (.pageAsChild ⟨3⟩), g) ∧ g = empty.runAll sampleParts) ∧
    ∃ o, (empty.runAll sampleParts).run (.addParent .tableRow 3 [⟨2⟩, ⟨0⟩]) = .ok o := by
  have hreach : (empty.runAll sampleParts).Reachable := .runAll .empty _ (by decide +kernel)
  obtain ⟨hchildren, hmoves⟩ := refusals_of_reachable hreach
  obtain ⟨_, hlist, hfirst⟩ :=
    ((hchildren .tableRow 3 [⟨0⟩, ⟨2⟩, ⟨0⟩, ⟨3⟩, ⟨9⟩, ⟨1⟩]).2.1
      (.refused (.alreadyParented ⟨0⟩ ⟨4⟩))).1 rfl
  obtain ⟨_, hmove, hblocked⟩ := ((hmoves ⟨2⟩ ⟨1⟩).2.1 (.refused (.cycle ⟨2⟩ ⟨1⟩))).1 rfl
  cases hlist
  cases hmove
  refine ⟨hfirst, hblocked, ⟨_, rfl, (hchildren .tableRow 3 [⟨0⟩, ⟨2⟩, ⟨3⟩]).2.2.2 _ _ rfl⟩, ?_⟩
  exact (hchildren .tableRow 3 [⟨2⟩, ⟨0⟩]).1.2 (by decide +kernel)

end Forest

end MarkupForest
