import MarkupForest.Proofs.Annotation
import MarkupForest.Proofs.Forest.Kept
import MarkupForest.Proofs.Forest.Moves

/-!
# What is attached to nodes

Values are attached to nodes and records are left on them by two calls. Whatever else is called, and
about whichever node, what is attached to a node stays as it is, wherever the node is moved. So it
can be read off the calls of a run: the values of a node are those that its own calls have put in
the store, and its records are those that it has adopted, in order.

A call about a node that is not there fails and does not count.

## Main definitions

* `Forest.carriedOut`: the calls of a run that do not fail;
* `Forest.attached`: what is attached to a node.

## Main results

* `Forest.Change.attached_eq`: only two calls change what is attached to a node;
* `Forest.annotations_runAll` and `Forest.records_runAll`: what is attached to a node after a run;
* `Forest.stores_of_runs`: each node has a store of its own, with one map for each type of value.
-/

namespace MarkupForest

namespace Command

/-- The value that a call attaches to a node. -/
def slotFor? (n : NodeId) : Command → Option Annotation.Slot
  | annotate m slot => if m = n then some slot else none
  | _ => none

/-- The record that a call leaves on a node, in the form in which the node adopts it. -/
def recordFor? (n : NodeId) : Command → Option Record
  | addRecord m r => if m = n then r.boundTo n else none
  | _ => none

end Command

namespace Forest

variable {f g : Forest} {m n : NodeId} {c : Command}

/-! ## Calls that are carried out -/

/-- The calls of a run that are carried out, in order. The others fail. -/
def carriedOut (f : Forest) : List Command → List Command
  | [] => []
  | c :: cs =>
    match f.run c with
    | .ok _ => c :: (f.step c).carriedOut cs
    | .error _ => (f.step c).carriedOut cs

theorem carriedOut_cons (f : Forest) (c : Command) (cs : List Command) :
    f.carriedOut (c :: cs) = f.carriedOut [c] ++ (f.step c).carriedOut cs := by
  rw [carriedOut, carriedOut]
  cases f.run c <;> rfl

theorem carriedOut_of_ok {o : Outcome} (h : f.run c = .ok o) : f.carriedOut [c] = [c] := by
  rw [carriedOut, h, carriedOut]

theorem carriedOut_of_error {e : Failure} (h : f.run c = .error e) : f.carriedOut [c] = [] := by
  rw [carriedOut, h, carriedOut]

theorem eq_of_mem_carriedOut {d : Command} (h : d ∈ f.carriedOut [c]) : d = c := by
  cases hrun : f.run c with
  | error e => simp [carriedOut_of_error hrun] at h
  | ok o => simpa [carriedOut_of_ok hrun] using h

/-! ## What is attached to a node -/

/-- What is attached to a node: values and records. -/
def attached (f : Forest) (n : NodeId) : Annotation.Store × List Record :=
  (f.annotations n, f.records n)

theorem attached_eq (f : Forest) (n : NodeId) :
    f.attached n = ((f.get? n).map fun e => (e.annotations, e.records)).getD ({}, []) := by
  rw [attached, annotations, records]
  cases f.get? n <;> rfl

theorem annotations_modify {h : Entry → Entry} (hh : ∀ e, (h e).annotations = e.annotations)
    (f : Forest) (m n : NodeId) : (f.modify m h).annotations n = f.annotations n := by
  rw [annotations, map_get?_modify hh, annotations]

theorem records_modify {h : Entry → Entry} (hh : ∀ e, (h e).records = e.records) (f : Forest)
    (m n : NodeId) : (f.modify m h).records n = f.records n := by
  rw [records, map_get?_modify hh, records]

theorem attached_remember (f : Forest) (m : NodeId) (k : Memo → Memo) (n : NodeId) :
    (f.remember m k).attached n = f.attached n :=
  Prod.ext (annotations_modify (by intro e; rfl) f m n) (records_modify (by intro e; rfl) f m n)

/-- Nothing is attached to a new node, and what is attached to others is kept. -/
theorem attached_grow (hsize : f.size < UInt32.size) (kind : Kind) (line : UInt32)
    (children : List NodeId) (n : NodeId) :
    (f.grow kind line children).attached n = f.attached n := by
  rw [attached_eq, attached_eq, get?_grow hsize]
  -- the new node was not there before, and its children change only their parent
  split
  next hn => simp [hn, get?_eq_none_iff.2 (contains_nextId hsize)]
  next =>
    split
    · cases f.get? n <;> rfl
    · rfl

theorem attached_relocate (f : Forest) (child parent n : NodeId) :
    (f.relocate child parent).attached n = f.attached n := by
  rw [attached, annotations_relocate, records_relocate, attached]

theorem LearnsAll.attached_eq (h : LearnsAll m f g) (n : NodeId) : g.attached n = f.attached n := by
  induction h with
  | refl => rfl
  | tail _ hlast ih =>
    rw [← ih]
    cases hlast <;> exact attached_remember _ _ _ n

/-- Only the calls that attach something change what is attached to a node. -/
theorem Change.attached_eq (h : Change f c g) (hsize : g.size ≤ UInt32.size)
    (hc : c.isAttachment = false) (n : NodeId) : g.attached n = f.attached n := by
  cases h with
  | refused => rfl
  | grow =>
    rw [size_grow] at hsize
    exact attached_grow hsize _ _ _ n
  | move => exact attached_relocate f _ _ n
  | learn _ hlearns => exact hlearns.attached_eq n
  | attach hattach => simp [hattach] at hc

/-! ## The calls that attach something -/

theorem annotations_annotate (hm : f.contains m = true) (slot : Annotation.Slot) (n : NodeId) :
    (f.annotate m ⟨slot.name⟩ slot.value).annotations n =
      if m = n then (f.annotations n).insert ⟨slot.name⟩ slot.value else f.annotations n := by
  obtain ⟨e, he⟩ := exists_get?_eq_some hm
  rw [annotate, annotations, get?_modify, annotations]
  split
  next hn => simp [← hn, he]
  next => rfl

theorem records_addRecord (hm : f.contains m = true) (r : Record) (n : NodeId) :
    (f.addRecord m r).2.records n =
      f.records n ++ ((Command.addRecord m r).recordFor? n).toList := by
  obtain ⟨e, he⟩ := exists_get?_eq_some hm
  by_cases hn : m = n
  · subst hn
    rw [addRecord, Command.recordFor?, if_pos rfl]
    cases r.boundTo m <;> simp [records, get?_modify, he]
  · rw [addRecord, Command.recordFor?, if_neg hn]
    cases r.boundTo m <;> simp [records, get?_modify, hn]

theorem annotations_addRecord (f : Forest) (m : NodeId) (r : Record) (n : NodeId) :
    (f.addRecord m r).2.annotations n = f.annotations n := by
  rw [addRecord]
  cases r.boundTo m with
  | none => rfl
  | some adopted => exact annotations_modify (by intro e; rfl) f m n

theorem slotFor?_eq_none (hc : ∀ slot, c ≠ .annotate n slot) : c.slotFor? n = none := by
  cases c with
  | annotate m slot =>
    have hm : m ≠ n := fun h => hc slot (h ▸ rfl)
    exact if_neg hm
  | _ => rfl

theorem recordFor?_eq_none (hc : ∀ r, c ≠ .addRecord n r) : c.recordFor? n = none := by
  cases c with
  | addRecord m r =>
    have hm : m ≠ n := fun h => hc r (h ▸ rfl)
    exact if_neg hm
  | _ => rfl

/-! ## What is attached over one call -/

theorem annotations_step (hsize : (f.step c).size ≤ UInt32.size) (n : NodeId) :
    (f.step c).annotations n =
      (f.annotations n).insertAll ((f.carriedOut [c]).filterMap (Command.slotFor? n)) := by
  cases hrun : f.run c with
  | error e =>
    rw [step_of_error hrun, carriedOut_of_error hrun]
    rfl
  | ok o =>
    rw [carriedOut_of_ok hrun]
    cases hc : c.isAttachment with
    | false =>
      have hkept := (change_step f c).attached_eq hsize hc n
      have hnone : c.slotFor? n = none := slotFor?_eq_none fun slot h => by cases h ▸ hc
      rw [List.filterMap_cons_none hnone]
      exact congrArg Prod.fst hkept
    | true =>
      rw [step_of_ok hrun]
      cases c with
      | annotate m slot =>
        obtain ⟨hm, hok⟩ := contains_of_onNode hrun
        cases hok
        rw [annotations_annotate hm]
        by_cases hn : m = n
        · simp [hn, Command.slotFor?, Annotation.Store.insertAll]
        · simp [hn, Command.slotFor?, Annotation.Store.insertAll]
      | addRecord m r =>
        cases (contains_of_onNode hrun).2
        exact annotations_addRecord f m r n
      | _ => cases hc

theorem records_step (hsize : (f.step c).size ≤ UInt32.size) (n : NodeId) :
    (f.step c).records n =
      f.records n ++ (f.carriedOut [c]).filterMap (Command.recordFor? n) := by
  cases hrun : f.run c with
  | error e =>
    rw [step_of_error hrun, carriedOut_of_error hrun, List.filterMap_nil, List.append_nil]
  | ok o =>
    rw [carriedOut_of_ok hrun]
    cases hc : c.isAttachment with
    | false =>
      have hkept := (change_step f c).attached_eq hsize hc n
      have hnone : c.recordFor? n = none := recordFor?_eq_none fun r h => by cases h ▸ hc
      rw [List.filterMap_cons_none hnone, List.filterMap_nil, List.append_nil]
      exact congrArg Prod.snd hkept
    | true =>
      rw [step_of_ok hrun]
      cases c with
      | annotate m slot =>
        cases (contains_of_onNode hrun).2
        refine (records_modify ?_ f m n).trans (List.append_nil _).symm
        intro e
        rfl
      | addRecord m r =>
        obtain ⟨hm, hok⟩ := contains_of_onNode hrun
        cases hok
        refine (records_addRecord hm r n).trans ?_
        cases hr : (Command.addRecord m r).recordFor? n <;> simp [hr]
      | _ => cases hc

/-! ## What is attached over a run -/

/-- The values of a node after a run are those of before and those that its own calls have attached,
put in the store one after the other. -/
theorem annotations_runAll {cs : List Command} (hsize : (f.runAll cs).size ≤ UInt32.size)
    (n : NodeId) :
    (f.runAll cs).annotations n =
      (f.annotations n).insertAll ((f.carriedOut cs).filterMap (Command.slotFor? n)) := by
  induction cs generalizing f with
  | nil => rfl
  | cons c cs ih =>
    rw [carriedOut_cons, List.filterMap_append, Annotation.Store.insertAll_append,
      ← annotations_step (size_step_le hsize)]
    exact ih hsize

/-- The records of a node after a run are those of before and those that it has adopted, in order.
-/
theorem records_runAll {cs : List Command} (hsize : (f.runAll cs).size ≤ UInt32.size)
    (n : NodeId) :
    (f.runAll cs).records n =
      f.records n ++ (f.carriedOut cs).filterMap (Command.recordFor? n) := by
  induction cs generalizing f with
  | nil => exact (List.append_nil _).symm
  | cons c cs ih =>
    rw [carriedOut_cons, List.filterMap_append, ← List.append_assoc,
      ← records_step (size_step_le hsize)]
    exact ih hsize

/-! ## Stores of nodes -/

theorem annotations_empty (n : NodeId) : empty.annotations n = .empty := by
  simp [annotations, get?, empty, Annotation.Store.empty]

theorem run_annotate (hn : f.contains n = true) (slot : Annotation.Slot) :
    f.run (.annotate n slot) = .ok ⟨.done, [], f.annotate n ⟨slot.name⟩ slot.value⟩ := by
  rw [run, onNode, if_pos hn]

/-- A call that attaches nothing to a node keeps the values of the node. -/
theorem annotations_step_of_ne (hsize : (f.step c).size ≤ UInt32.size)
    (hc : ∀ slot, c ≠ .annotate n slot) : (f.step c).annotations n = f.annotations n := by
  have hnone : ∀ d ∈ f.carriedOut [c], d.slotFor? n = none := by
    intro d hd
    rw [eq_of_mem_carriedOut hd, slotFor?_eq_none hc]
  rw [annotations_step hsize, List.filterMap_eq_nil_iff.2 hnone]
  rfl

/-- Whatever values are put under keys one after the other, a store is a family of maps, one for
each type, and putting a value under a key leaves the keys of other types as they are, also those of
the same name. In every run, each node has such a store of its own: it holds the values that the
calls on the node itself have attached, a call on the node puts a value under its key, and every
other call keeps the store, whatever it does and whether it succeeds or fails. -/
theorem stores_of_runs :
    (∀ sets, Annotation.Store.Holds (.insertAll .empty sets) sets) ∧
    (∀ {σ τ : Annotation.ValueType} (s : Annotation.Store) (name : String) (value : σ.Value),
      σ ≠ τ → (s.insert ⟨name⟩ value).get? (⟨name⟩ : Annotation.Key τ) = s.get? ⟨name⟩) ∧
    ∀ (cs : List Command) (n : NodeId), (empty.runAll cs).size ≤ UInt32.size →
      ((empty.runAll cs).annotations n).Holds
        ((empty.carriedOut cs).filterMap (Command.slotFor? n)) ∧
      (∀ slot, (empty.runAll cs).contains n = true →
        (empty.runAll cs).answer (.annotate n slot) = .ok .done ∧
        ((empty.runAll cs).step (.annotate n slot)).annotations n =
          ((empty.runAll cs).annotations n).insert ⟨slot.name⟩ slot.value) ∧
      ∀ c, (∀ slot, c ≠ .annotate n slot) → ((empty.runAll cs).step c).size ≤ UInt32.size →
        ((empty.runAll cs).step c).annotations n = (empty.runAll cs).annotations n := by
  refine ⟨fun sets => Annotation.Store.holds_insertAll sets, fun s name value hne =>
    Annotation.Store.get?_insert_of_ne hne s _ value _, fun cs n hsize => ⟨?_, ?_, ?_⟩⟩
  · rw [annotations_runAll hsize, annotations_empty]
    exact Annotation.Store.holds_insertAll _
  · intro slot hn
    have hrun := run_annotate hn slot
    refine ⟨by rw [answer, hrun]; rfl, ?_⟩
    rw [step_of_ok hrun, annotations_annotate hn, if_pos rfl]
  · intro c hc hstep
    exact annotations_step_of_ne hstep hc

/-- Values of two types under one name on a node that is moved, and a value under the same name on
another node. One call is about a node that is not there. -/
def sharedName : List Command :=
  [.addLeaf (.text "a") 1, .annotate ⟨0⟩ ⟨.string, "k", "x"⟩,
    .annotate ⟨0⟩ ⟨.uint32, "k", (7 : UInt32)⟩, .addParent .tableCell 2 [⟨0⟩],
    .annotate ⟨1⟩ ⟨.string, "k", "z"⟩, .addParent .tableRow 3 [], .move ⟨0⟩ ⟨2⟩,
    .annotate ⟨3⟩ ⟨.string, "k", "w"⟩, .annotate ⟨0⟩ ⟨.string, "k", "y"⟩]

theorem stores_of_runs_sharedName :
    (((empty.runAll sharedName).annotations ⟨0⟩).get? (⟨"k"⟩ : Annotation.Key .string) = some "y" ∧
      ((empty.runAll sharedName).annotations ⟨0⟩).get? (⟨"k"⟩ : Annotation.Key .uint32) =
        some (7 : UInt32) ∧
      ((empty.runAll sharedName).annotations ⟨0⟩).size = 2) ∧
    ((empty.runAll sharedName).step (.move ⟨0⟩ ⟨1⟩)).annotations ⟨0⟩ =
      (empty.runAll sharedName).annotations ⟨0⟩ := by
  obtain ⟨hholds, -, hkeeps⟩ := stores_of_runs.2.2 sharedName ⟨0⟩ (by decide +kernel)
  have hcalls : empty.carriedOut sharedName =
      sharedName.take 7 ++ [.annotate ⟨0⟩ ⟨.string, "k", "y"⟩] := rfl
  rw [hcalls] at hholds
  refine ⟨⟨?_, ?_, ?_⟩, hkeeps _ (fun slot h => by cases h) (by decide +kernel)⟩
  · exact hholds.get?_eq ⟨"k"⟩
  · exact hholds.get?_eq ⟨"k"⟩
  · exact hholds.size_eq

end Forest

end MarkupForest
