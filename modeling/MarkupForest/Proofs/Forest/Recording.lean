import MarkupForest.Proofs.Forest.Attachment

/-!
# Records on nodes

The records of a node are the ones that it has adopted, in the order of the calls. No call but the
one that leaves records on the node changes them.

Nothing reads records but the question for the records themselves. So taking all records away from a
forest is invisible: every other call does the same without them, and the forest after a run, its
records taken away, is the forest after the run without the calls that leave records.

## Main definitions

* `Forest.unrecorded`: the forest without its records;
* `Forest.SameButRecords`: two forests that no question tells apart but the one for records.

## Main results

* `Forest.run_unrecorded`: a call does the same on the forest without its records;
* `Forest.unrecorded_runAll`: the forest after a run, without its records;
* `Forest.records_of_runs`: what the records of a node are after a run, and what they do not change.
-/

namespace MarkupForest

/-- Whether a call leaves a record. -/
def Command.isRecording : Command → Bool
  | addRecord _ _ => true
  | _ => false

/-- All that is held about a node but its records. -/
def Entry.unrecorded (e : Entry) : Entry :=
  { e with records := [] }

theorem Entry.keepsShape_unrecorded : KeepsShape unrecorded where
  bare_eq _ := rfl
  parent_eq _ _ := rfl
  children_eq _ _ := rfl
  new_eq _ _ _ := rfl

/-- The forest without its records. -/
def Forest.unrecorded (f : Forest) : Forest :=
  f.mapEntries Entry.unrecorded

/-- An outcome, its forest without its records. -/
def Outcome.unrecorded (o : Outcome) : Outcome :=
  { o with forest := o.forest.unrecorded }

namespace Forest

variable {f g : Forest} {n : NodeId} {c : Command}

/-! ## A forest without its records -/

@[simp] theorem skeleton_unrecorded (f : Forest) : f.unrecorded.skeleton = f.skeleton :=
  skeleton_mapEntries Entry.keepsShape_unrecorded f

@[simp] theorem size_unrecorded (f : Forest) : f.unrecorded.size = f.size :=
  size_mapEntries _ f

@[simp] theorem contains_unrecorded (f : Forest) : f.unrecorded.contains = f.contains :=
  eq_of_skeleton_eq contains_skeleton (skeleton_unrecorded f)

@[simp] theorem nextId_unrecorded (f : Forest) : f.unrecorded.nextId = f.nextId :=
  eq_of_skeleton_eq nextId_skeleton (skeleton_unrecorded f)

@[simp] theorem get?_unrecorded (f : Forest) (n : NodeId) :
    f.unrecorded.get? n = (f.get? n).map Entry.unrecorded :=
  get?_mapEntries _ f n

@[simp] theorem kind?_unrecorded (f : Forest) : f.unrecorded.kind? = f.kind? :=
  eq_of_skeleton_eq kind?_skeleton (skeleton_unrecorded f)

@[simp] theorem line_unrecorded (f : Forest) : f.unrecorded.line = f.line :=
  eq_of_skeleton_eq line_skeleton (skeleton_unrecorded f)

@[simp] theorem parent?_unrecorded (f : Forest) : f.unrecorded.parent? = f.parent? :=
  eq_of_skeleton_eq parent?_skeleton (skeleton_unrecorded f)

@[simp] theorem children_unrecorded (f : Forest) : f.unrecorded.children = f.children :=
  eq_of_skeleton_eq children_skeleton (skeleton_unrecorded f)

@[simp] theorem page?_unrecorded (f : Forest) : f.unrecorded.page? = f.page? :=
  eq_of_skeleton_eq page?_skeleton (skeleton_unrecorded f)

@[simp] theorem tree?_unrecorded (f : Forest) : f.unrecorded.tree? = f.tree? :=
  eq_of_skeleton_eq tree?_skeleton (skeleton_unrecorded f)

@[simp] theorem findRoot_unrecorded (f : Forest) : f.unrecorded.findRoot = f.findRoot :=
  eq_of_skeleton_eq findRoot_skeleton (skeleton_unrecorded f)

@[simp] theorem findSection_unrecorded (f : Forest) : f.unrecorded.findSection = f.findSection :=
  eq_of_skeleton_eq findSection_skeleton (skeleton_unrecorded f)

@[simp] theorem findFingerprint_unrecorded (f : Forest) :
    f.unrecorded.findFingerprint = f.findFingerprint :=
  eq_of_skeleton_eq findFingerprint_skeleton (skeleton_unrecorded f)

@[simp] theorem addressFragment_unrecorded (f : Forest) :
    f.unrecorded.addressFragment = f.addressFragment :=
  eq_of_skeleton_eq addressFragment_skeleton (skeleton_unrecorded f)

@[simp] theorem memo_unrecorded (f : Forest) : f.unrecorded.memo = f.memo := by
  funext n
  rw [memo, get?_unrecorded, memo]
  cases f.get? n <;> rfl

@[simp] theorem annotations_unrecorded (f : Forest) :
    f.unrecorded.annotations = f.annotations := by
  funext n
  rw [annotations, get?_unrecorded, annotations]
  cases f.get? n <;> rfl

/-! ## Making and moving nodes without records -/

theorem checkChild_unrecorded (f : Forest) (before : List NodeId) (child : NodeId) :
    f.unrecorded.checkChild before child = f.checkChild before child := by
  rw [checkChild, get?_unrecorded, nextId_unrecorded, checkChild]
  cases f.get? child <;> rfl

theorem checkChildren_unrecorded (f : Forest) (before children : List NodeId) :
    f.unrecorded.checkChildren before children = f.checkChildren before children := by
  induction children generalizing before with
  | nil => rfl
  | cons c cs ih => simp only [checkChildren, checkChild_unrecorded, ih]

theorem checkMove_unrecorded (f : Forest) : f.unrecorded.checkMove = f.checkMove :=
  eq_of_skeleton_eq checkMove_skeleton (skeleton_unrecorded f)

theorem isNavigated_unrecorded (f : Forest) (n : NodeId) :
    f.unrecorded.isNavigated n = f.isNavigated n := by
  simp [isNavigated]

theorem unrecorded_remember (f : Forest) (n : NodeId) (k : Memo → Memo) :
    (f.remember n k).unrecorded = f.unrecorded.remember n k :=
  mapEntries_modify (by intro e; rfl) f n

/-! ## Questions without records -/

/-- What a question gives, with the records taken away from the forest that it leaves. -/
def forgetting {α : Type} (q : Except Refusal (α × Forest)) : Except Refusal (α × Forest) :=
  q.map (Prod.map id unrecorded)

theorem root_unrecorded (f : Forest) (n : NodeId) :
    f.unrecorded.root n = forgetting (f.root n) := by
  rw [Forest.root, memo_unrecorded, findRoot_unrecorded, Forest.root]
  cases (f.memo n).root with
  | some r => rfl
  | none => cases f.findRoot n <;> simp [forgetting, Except.map, unrecorded_remember]

theorem enclosingSection_unrecorded (f : Forest) (n : NodeId) :
    f.unrecorded.enclosingSection n = forgetting (f.enclosingSection n) := by
  rw [enclosingSection, memo_unrecorded, root_unrecorded, enclosingSection]
  cases (f.memo n).heading with
  | some s => rfl
  | none => cases f.root n <;> simp [forgetting, Except.map, unrecorded_remember]

theorem fingerprint_unrecorded (f : Forest) (n : NodeId) :
    f.unrecorded.fingerprint n = forgetting (f.fingerprint n) := by
  rw [Forest.fingerprint, memo_unrecorded, root_unrecorded, Forest.fingerprint]
  cases (f.memo n).fingerprint with
  | some d => rfl
  | none => cases f.root n <;> simp [forgetting, Except.map, unrecorded_remember]

theorem ident_unrecorded (f : Forest) (n : NodeId) :
    f.unrecorded.ident n = forgetting (f.ident n) := by
  rw [ident, pageNumber?, page?_unrecorded, fingerprint_unrecorded, ident, pageNumber?]
  cases (f.page? n).map (·.id) with
  | some id => rfl
  | none => cases f.fingerprint n <;> rfl

theorem pageAddress_unrecorded (f : Forest) (n : NodeId) :
    f.unrecorded.pageAddress n = forgetting (f.pageAddress n) := by
  rw [pageAddress, root_unrecorded, pageAddress]
  cases f.root n <;> simp [forgetting, Except.map]

theorem address_unrecorded (f : Forest) (n : NodeId) :
    f.unrecorded.address n = forgetting (f.address n) := by
  rw [address, pageAddress_unrecorded, address]
  cases f.pageAddress n with
  | error why => rfl
  | ok first =>
    obtain ⟨source, g⟩ := first
    -- the section is asked for in the forest that asking for the page leaves
    have hsection := enclosingSection_unrecorded g n
    cases hg : g.enclosingSection n <;> rw [hg] at hsection <;>
      simp [forgetting, Except.map, hsection, hg]

/-! ## Calls without records -/

theorem onNode_unrecorded (f : Forest) (n : NodeId) (k : Except Failure Outcome) :
    f.unrecorded.onNode n (k.map Outcome.unrecorded) =
      (f.onNode n k).map Outcome.unrecorded := by
  rw [onNode, contains_unrecorded, onNode]
  split <;> rfl

theorem asked_forgetting {α : Type} (ans : α → Answer) (q : Except Refusal (α × Forest)) :
    asked ans (forgetting q) = (asked ans q).map Outcome.unrecorded := by
  cases q <;> rfl

theorem guarded_unrecorded (check : Except Refusal Unit) (o : Outcome) :
    guarded check o.unrecorded = (guarded check o).map Outcome.unrecorded := by
  cases check <;> rfl

theorem run_addParent_unrecorded (f : Forest) (kind : Kind) (line : UInt32)
    (children : List NodeId) :
    f.unrecorded.run (.addParent kind line children) =
      (f.run (.addParent kind line children)).map Outcome.unrecorded := by
  have hgrow : f.unrecorded.grow kind line children = (f.grow kind line children).unrecorded :=
    (mapEntries_grow Entry.keepsShape_unrecorded f kind line children).symm
  rw [run_addParent_eq, run_addParent_eq, checkChildren_unrecorded, ← guarded_unrecorded,
    nextId_unrecorded, hgrow]
  rfl

theorem run_move_unrecorded (f : Forest) (child parent : NodeId) :
    f.unrecorded.run (.move child parent) =
      (f.run (.move child parent)).map Outcome.unrecorded := by
  have hmove : f.unrecorded.relocate child parent = (f.relocate child parent).unrecorded :=
    (mapEntries_relocate Entry.keepsShape_unrecorded f child parent).symm
  rw [run_move_eq, run_move_eq, checkMove_unrecorded, ← guarded_unrecorded,
    isNavigated_unrecorded, hmove]
  rfl

/-- A call other than one that leaves a record does the same on the forest without its records: it
gives the same answer and reports the same, or fails for the same reason. -/
theorem run_unrecorded (hc : c.isRecording = false) (f : Forest) :
    f.unrecorded.run c = (f.run c).map Outcome.unrecorded := by
  cases c with
  | addLeaf kind line => exact run_addParent_unrecorded f kind line []
  | addParent kind line children => exact run_addParent_unrecorded f kind line children
  | addPage page children => exact run_addParent_unrecorded f (.page page) 0 children
  | move child parent => exact run_move_unrecorded f child parent
  | tryRoot n =>
    rw [run, run, ← onNode_unrecorded, root_unrecorded]
    cases f.root n <;> rfl
  | root n => rw [run, run, ← onNode_unrecorded, root_unrecorded, asked_forgetting]
  | enclosingSection n =>
    rw [run, run, ← onNode_unrecorded, enclosingSection_unrecorded, asked_forgetting]
  | fingerprint n => rw [run, run, ← onNode_unrecorded, fingerprint_unrecorded, asked_forgetting]
  | ident n => rw [run, run, ← onNode_unrecorded, ident_unrecorded, asked_forgetting]
  | pageAddress n => rw [run, run, ← onNode_unrecorded, pageAddress_unrecorded, asked_forgetting]
  | address n => rw [run, run, ← onNode_unrecorded, address_unrecorded, asked_forgetting]
  | annotate n slot =>
    have hput : f.unrecorded.annotate n ⟨slot.name⟩ slot.value =
        (f.annotate n ⟨slot.name⟩ slot.value).unrecorded :=
      (mapEntries_modify (by intro e; rfl) f n).symm
    rw [run, run, ← onNode_unrecorded, hput]
    rfl
  | addRecord => cases hc

theorem step_unrecorded (hc : c.isRecording = false) (f : Forest) :
    f.unrecorded.step c = (f.step c).unrecorded := by
  rw [step, run_unrecorded hc, step]
  cases f.run c <;> rfl

theorem unrecorded_addRecord (f : Forest) (n : NodeId) (r : Record) :
    (f.addRecord n r).2.unrecorded = f.unrecorded := by
  rw [addRecord]
  cases r.boundTo n with
  | none => rfl
  | some adopted => exact mapEntries_modify_of_eq (by intro e; rfl) f n

/-- Leaving a record is invisible in the forest without its records. -/
theorem unrecorded_step_of_isRecording (hc : c.isRecording = true) (f : Forest) :
    (f.step c).unrecorded = f.unrecorded := by
  cases c with
  | addRecord n r =>
    cases hrun : f.run (.addRecord n r) with
    | error e => rw [step_of_error hrun]
    | ok o =>
      rw [step_of_ok hrun]
      cases (contains_of_onNode hrun).2
      exact unrecorded_addRecord f n r
  | _ => cases hc

/-- The forest after a run, without its records, is the one after the run without the calls that
leave records. -/
theorem unrecorded_runAll (f : Forest) (cs : List Command) :
    (f.runAll cs).unrecorded = f.unrecorded.runAll (cs.filter fun c => !c.isRecording) := by
  induction cs generalizing f with
  | nil => rfl
  | cons c cs ih =>
    have hstep : f.runAll (c :: cs) = (f.step c).runAll cs := rfl
    rw [hstep, ih]
    cases hc : c.isRecording with
    | true => rw [unrecorded_step_of_isRecording hc, List.filter_cons_of_neg (by simp [hc])]
    | false =>
      rw [List.filter_cons_of_pos (by simp [hc]), ← step_unrecorded hc]
      rfl

/-! ## What records do not change -/

/-- Two forests of which every question gives the same, but the question for the records of a node.
What is read off the trees of nodes is the same with the trees. -/
structure SameButRecords (f g : Forest) : Prop where
  size_eq : f.size = g.size
  describe_eq : f.describe = g.describe
  kind?_eq : f.kind? = g.kind?
  line_eq : f.line = g.line
  parent?_eq : f.parent? = g.parent?
  children_eq : f.children = g.children
  tree?_eq : f.tree? = g.tree?
  memo_eq : f.memo = g.memo
  annotations_eq : f.annotations = g.annotations
  onlyText?_eq : f.onlyText? = g.onlyText?
  argument?_eq : f.argument? = g.argument?
  pageNumber?_eq : f.pageNumber? = g.pageNumber?
  answer_eq : ∀ c, c.isRecording = false → f.answer c = g.answer c
  events_eq : ∀ c, c.isRecording = false → f.events c = g.events c

/-- What does not look at records gives the same of forests that differ only in them. -/
theorem eq_of_unrecorded_eq {α : Type} {q : Forest → α} (hq : ∀ f, q f.unrecorded = q f)
    (h : f.unrecorded = g.unrecorded) : q f = q g := by
  rw [← hq f, h, hq g]

theorem sameButRecords_of_unrecorded_eq (h : f.unrecorded = g.unrecorded) :
    SameButRecords f g where
  size_eq := eq_of_unrecorded_eq size_unrecorded h
  describe_eq := eq_of_unrecorded_eq (q := describe)
    (fun f => by unfold describe; rw [size_unrecorded]) h
  kind?_eq := eq_of_unrecorded_eq kind?_unrecorded h
  line_eq := eq_of_unrecorded_eq line_unrecorded h
  parent?_eq := eq_of_unrecorded_eq parent?_unrecorded h
  children_eq := eq_of_unrecorded_eq children_unrecorded h
  tree?_eq := eq_of_unrecorded_eq tree?_unrecorded h
  memo_eq := eq_of_unrecorded_eq memo_unrecorded h
  annotations_eq := eq_of_unrecorded_eq annotations_unrecorded h
  onlyText?_eq := eq_of_unrecorded_eq (q := onlyText?) (fun f => by funext n; simp [onlyText?]) h
  argument?_eq := eq_of_unrecorded_eq (q := argument?)
    (fun f => by funext n key; simp [argument?]) h
  pageNumber?_eq := eq_of_unrecorded_eq (q := pageNumber?)
    (fun f => by funext n; simp [pageNumber?]) h
  answer_eq c hc := by
    refine eq_of_unrecorded_eq (q := fun f => f.answer c) (fun f => ?_) h
    rw [answer, run_unrecorded hc, answer]
    cases f.run c <;> rfl
  events_eq c hc := by
    refine eq_of_unrecorded_eq (q := fun f => f.events c) (fun f => ?_) h
    rw [events, run_unrecorded hc, events]
    cases f.run c <;> rfl

/-! ## The records of a node -/

theorem records_empty (n : NodeId) : empty.records n = [] := by
  simp [records, get?, empty]

theorem run_addRecord (hn : f.contains n = true) (r : Record) :
    f.run (.addRecord n r) = .ok ⟨.count ((f.addRecord n r).2.records n).length,
      (f.addRecord n r).1, (f.addRecord n r).2⟩ := by
  rw [run, onNode, if_pos hn]

/-- A call that leaves no record on a node keeps the records of the node. -/
theorem records_step_of_ne (hsize : (f.step c).size ≤ UInt32.size)
    (hc : ∀ r, c ≠ .addRecord n r) : (f.step c).records n = f.records n := by
  have hnone : ∀ d ∈ f.carriedOut [c], d.recordFor? n = none := by
    intro d hd
    rw [eq_of_mem_carriedOut hd, recordFor?_eq_none hc]
  rw [records_step hsize, List.filterMap_eq_nil_iff.2 hnone, List.append_nil]

/-- A record that has been adopted is about a node. -/
theorem exists_subject_of_boundTo {r adopted : Record} (h : r.boundTo n = some adopted) :
    ∃ m, adopted.subject = .node m := by
  rw [Record.boundTo] at h
  split at h
  next m hm => exact ⟨m, Option.some.inj h ▸ hm⟩
  next => exact ⟨n, Option.some.inj h ▸ rfl⟩
  next => cases h

/-- A record that is about a node is adopted by every node as it is. -/
theorem boundTo_of_subject {r : Record} {m : NodeId} (h : r.subject = .node m) (n : NodeId) :
    r.boundTo n = some r := by
  rw [Record.boundTo, h]

/-- What a call leaves on a node is the adopted form of a record. -/
theorem exists_boundTo_of_recordFor? {r : Record} (h : c.recordFor? n = some r) :
    ∃ given, Record.boundTo given n = some r := by
  cases c with
  | addRecord m given =>
    rw [Command.recordFor?] at h
    split at h
    next => exact ⟨given, h⟩
    next => cases h
  | _ => cases h

/-- A node adopts a record about a node as it is, whichever node that is; it adopts an unbound one
as a record about itself, in its own language or else in English; and it does not adopt one about
something foreign.

In every run, the records of a node are the adopted forms of the records that have been left on it,
in the order of the calls. Each of them is about a node, and every node would adopt it as it is. A
call that leaves a record on the node adds its adopted form at the end, and every other call keeps
the records of the node, whatever it does and whether it succeeds or fails. Two runs that differ
only in the calls that leave records end in forests of which all other questions give the same. -/
theorem records_of_runs :
    (∀ (r : Record) (n : NodeId),
      (∀ m, r.subject = .node m → r.boundTo n = some r) ∧
      (r.subject = .unbound → r.boundTo n =
        some ⟨.node n, some (r.language.getD .english), r.message, r.isError, r.severity⟩) ∧
      ∀ name, r.subject = .foreign name → r.boundTo n = none) ∧
    (∀ (cs : List Command) (n : NodeId), (empty.runAll cs).size ≤ UInt32.size →
      (empty.runAll cs).records n = (empty.carriedOut cs).filterMap (Command.recordFor? n) ∧
      (∀ r ∈ (empty.runAll cs).records n,
        (∃ m, r.subject = .node m) ∧ ∀ m, r.boundTo m = some r) ∧
      (∀ r, (empty.runAll cs).contains n = true →
        (∃ k, (empty.runAll cs).answer (.addRecord n r) = .ok (.count k)) ∧
        ((empty.runAll cs).step (.addRecord n r)).records n =
          (empty.runAll cs).records n ++ (r.boundTo n).toList) ∧
      ∀ c, (∀ r, c ≠ .addRecord n r) → ((empty.runAll cs).step c).size ≤ UInt32.size →
        ((empty.runAll cs).step c).records n = (empty.runAll cs).records n) ∧
    ∀ cs ds : List Command,
      (cs.filter fun c => !c.isRecording) = (ds.filter fun c => !c.isRecording) →
      SameButRecords (empty.runAll cs) (empty.runAll ds) := by
  refine ⟨fun r n => ⟨fun m hm => boundTo_of_subject hm n, fun h => ?_, fun name h => ?_⟩,
    fun cs n hsize => ?_, fun cs ds h => ?_⟩
  · rw [Record.boundTo, h]
  · rw [Record.boundTo, h]
  · have hrecords : (empty.runAll cs).records n =
        (empty.carriedOut cs).filterMap (Command.recordFor? n) := by
      rw [records_runAll hsize, records_empty, List.nil_append]
    refine ⟨hrecords, fun r hr => ?_, fun r hn => ?_, fun c hc hstep => records_step_of_ne hstep hc⟩
    · rw [hrecords] at hr
      obtain ⟨c, -, hc⟩ := List.mem_filterMap.1 hr
      obtain ⟨given, hgiven⟩ := exists_boundTo_of_recordFor? hc
      obtain ⟨m, hm⟩ := exists_subject_of_boundTo hgiven
      exact ⟨⟨m, hm⟩, boundTo_of_subject hm⟩
    · refine ⟨⟨_, by rw [answer, run_addRecord hn]; rfl⟩, ?_⟩
      rw [step_of_ok (run_addRecord hn r), records_addRecord hn, Command.recordFor?, if_pos rfl]
  · exact sameButRecords_of_unrecorded_eq (by rw [unrecorded_runAll, unrecorded_runAll, h])

/-- Records of all kinds, on a node that is asked about and moved between them, and on a node that
is not there. -/
def mixedRecords : List Command :=
  [.addLeaf (.text "a") 1, .addRecord ⟨0⟩ (.about .unbound "first"),
    .addPage ⟨.article "P", 1, 100⟩ [⟨0⟩], .addRecord ⟨0⟩ (.about (.foreign "x") "foreign"),
    .fingerprint ⟨0⟩,
    .addRecord ⟨0⟩ ((Record.about .unbound "second").withLanguage .german),
    .addPage ⟨.article "Q", 2, 200⟩ [], .move ⟨0⟩ ⟨2⟩, .addRecord ⟨1⟩ (.about .unbound "other"),
    .addRecord ⟨3⟩ (.about .unbound "nowhere"), .addRecord ⟨0⟩ (.about (.node ⟨1⟩) "third")]

theorem records_of_runs_mixedRecords :
    (empty.runAll mixedRecords).records ⟨0⟩ =
      [⟨.node ⟨0⟩, some .english, "first", false, .info⟩,
        ⟨.node ⟨0⟩, some ⟨"de"⟩, "second", false, .info⟩,
        ⟨.node ⟨1⟩, none, "third", false, .info⟩] ∧
    ((empty.runAll mixedRecords).step (.move ⟨0⟩ ⟨1⟩)).records ⟨0⟩ =
      (empty.runAll mixedRecords).records ⟨0⟩ ∧
    SameButRecords (empty.runAll mixedRecords)
      (empty.runAll (mixedRecords.filter fun c => !c.isRecording)) := by
  obtain ⟨-, hruns, hothers⟩ := records_of_runs
  obtain ⟨hrecords, -, -, hkeeps⟩ := hruns mixedRecords ⟨0⟩ (by decide +kernel)
  refine ⟨hrecords.trans (by decide +kernel), hkeeps _ (fun r h => by cases h) (by decide +kernel),
    hothers _ _ ?_⟩
  rw [List.filter_filter]
  simp only [Bool.and_self]

end Forest

end MarkupForest
