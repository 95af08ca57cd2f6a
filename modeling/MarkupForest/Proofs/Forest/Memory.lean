import MarkupForest.Proofs.Forest.Place
import MarkupForest.Proofs.Forest.Run

/-!
# What is kept about the place of a node

The root, the section and the hash of a node are found out once and then kept. This module says when
what is kept is still what the forest says as it stands.

Something can be kept only about nodes of pages. The tree of a page is closed, since pages are never
adopted, so making nodes leaves its nodes alone. What is kept can only become wrong by a move. If
the moved node and its new parent are in trees about which nothing is kept, then it does not
(`Forest.MovesEarly`). If a move is not reported, then nothing is kept below the moved node, and at
least every kept root stays right.

## Main definitions

* `Forest.Current`: all that is kept about a node is right;
* `Forest.MovesEarly`: a run moves nodes only while nothing is kept about the trees involved;
* `Forest.report`: what a run reports.

## Main results

* `answer_eq_answerNow`: questions are answered from the forest as it stands, if what is kept is
  right;
* `Change.current` and `current_runAll`: what is kept stays right, over one call and over a run;
* `answers_of_movesEarly`: keeping the answers shows in no answer;
* `warnings_of_moves`: which moves are reported, and that kept roots are right if none is.
-/

namespace MarkupForest.Forest

variable {f g : Forest} {n m r : NodeId}

/-! ## Kept values that are right -/

/-- The root that is kept about a node, if any, is the page of the node as the forest stands. -/
def RootCurrent (f : Forest) (n : NodeId) : Prop :=
  ∀ r, (f.memo n).root = some r → f.findRoot n = .ok r

/-- The section that is kept about a node, if any, is the one it stands in. -/
def HeadingCurrent (f : Forest) (n : NodeId) : Prop :=
  ∀ s, (f.memo n).heading = some s → f.sectionNow n = .ok s

/-- The hash that is kept about a node, if any, is that of its content. -/
def FingerprintCurrent (f : Forest) (n : NodeId) : Prop :=
  ∀ d, (f.memo n).fingerprint = some d → f.fingerprintNow n = .ok d

/-- All that is kept about a node is what the forest says as it stands. -/
structure Current (f : Forest) (n : NodeId) : Prop where
  /-- The page it belongs to. -/
  root : f.RootCurrent n
  /-- The section it stands in. -/
  heading : f.HeadingCurrent n
  /-- The hash of its content. -/
  fingerprint : f.FingerprintCurrent n

theorem RootCurrent.congr (h : f.RootCurrent n) (hmemo : g.memo n = f.memo n)
    (hroot : g.findRoot n = f.findRoot n) : g.RootCurrent n := by
  rw [RootCurrent, hmemo, hroot]
  exact h

theorem Current.congr (h : f.Current n) (hmemo : g.memo n = f.memo n)
    (hroot : g.findRoot n = f.findRoot n) (hsection : g.sectionNow n = f.sectionNow n)
    (hhash : g.fingerprintNow n = f.fingerprintNow n) : g.Current n := by
  refine ⟨h.root.congr hmemo hroot, ?_, ?_⟩
  · rw [HeadingCurrent, hmemo, hsection]
    exact h.heading
  · rw [FingerprintCurrent, hmemo, hhash]
    exact h.fingerprint

/-- Nothing can be wrong about a node about which nothing is kept. -/
theorem current_of_isSet_eq_false (h : (f.memo n).isSet = false) : f.Current n := by
  simp only [Memo.isSet, Bool.or_eq_false_iff, Option.isSome_eq_false_iff,
    Option.isNone_iff_eq_none] at h
  obtain ⟨⟨hroot, hheading⟩, hhash⟩ := h
  refine ⟨?_, ?_, ?_⟩
  · simp [RootCurrent, hroot]
  · simp [HeadingCurrent, hheading]
  · simp [FingerprintCurrent, hhash]

section Except

variable {ε α β : Type} {x : Except ε α} {k : α → β}

private theorem map_eq_ok {b : β} (h : x.map k = .ok b) : ∃ a, x = .ok a ∧ k a = b := by
  cases x with
  | ok a => exact ⟨a, rfl, Except.ok.inj h⟩
  | error e => simp [Except.map] at h

private theorem map_eq_error {e : ε} (h : x.map k = .error e) : x = .error e := by
  cases x with
  | ok a => simp [Except.map] at h
  | error e' => rw [Except.error.inj h]

end Except

/-- If something right is kept about a node, then the node belongs to a page. -/
theorem Current.exists_findRoot (h : f.Current n) (hset : (f.memo n).isSet = true) :
    ∃ r, f.findRoot n = .ok r := by
  simp only [Memo.isSet, Bool.or_eq_true, Option.isSome_iff_exists] at hset
  obtain (⟨r, hr⟩ | ⟨s, hs⟩) | ⟨d, hd⟩ := hset
  · exact ⟨r, h.root r hr⟩
  · obtain ⟨r, hr, -⟩ := map_eq_ok (h.heading s hs)
    exact ⟨r, hr⟩
  · obtain ⟨r, hr, -⟩ := map_eq_ok (h.fingerprint d hd)
    exact ⟨r, hr⟩

/-! ## Finding things out -/

theorem Current.of_skeleton_eq (hn : f.Current n) (h : g.skeleton = f.skeleton)
    (hmemo : g.memo n = f.memo n) : g.Current n :=
  hn.congr hmemo (congrFun (eq_of_skeleton_eq findRoot_skeleton h) n)
    (congrFun (eq_of_skeleton_eq sectionNow_skeleton h) n)
    (congrFun (eq_of_skeleton_eq fingerprintNow_skeleton h) n)

theorem Learns.memo_of_ne (h : Learns m f g) (hne : n ≠ m) : g.memo n = f.memo n := by
  have hm := h.contains
  cases h <;> rw [memo_remember hm, if_neg hne]

/-- A root that is found out is right. -/
theorem Learns.rootCurrent (h : Learns m f g) (hn : f.RootCurrent n) : g.RootCurrent n := by
  have hroot := congrFun (eq_of_skeleton_eq findRoot_skeleton h.skeleton_eq) n
  by_cases hne : n = m
  · subst hne
    have hthere := h.contains
    intro r hr
    rw [hroot]
    cases h with
    | root _ hfound =>
      rw [memo_remember hthere, if_pos rfl] at hr
      obtain rfl := Option.some.inj hr
      exact hfound
    | heading =>
      rw [memo_remember hthere, if_pos rfl] at hr
      exact hn r hr
    | fingerprint =>
      rw [memo_remember hthere, if_pos rfl] at hr
      exact hn r hr
  · exact hn.congr (h.memo_of_ne hne) hroot

/-- A section that is found out is right if the kept root is. -/
theorem Learns.headingCurrent (h : Learns m f g) (hroot : f.RootCurrent n)
    (hn : f.HeadingCurrent n) : g.HeadingCurrent n := by
  intro s hs
  rw [eq_of_skeleton_eq sectionNow_skeleton h.skeleton_eq]
  by_cases hne : n = m
  · subst hne
    have hthere := h.contains
    cases h with
    | heading _ hkept =>
      rw [memo_remember hthere, if_pos rfl] at hs
      obtain rfl := Option.some.inj hs
      rw [sectionNow, hroot _ hkept, Except.map]
    | root | fingerprint =>
      rw [memo_remember hthere, if_pos rfl] at hs
      exact hn s hs
  · rw [h.memo_of_ne hne] at hs
    exact hn s hs

/-- A hash that is found out is right if the kept root is. -/
theorem Learns.fingerprintCurrent (h : Learns m f g) (hroot : f.RootCurrent n)
    (hn : f.FingerprintCurrent n) : g.FingerprintCurrent n := by
  intro d hd
  rw [eq_of_skeleton_eq fingerprintNow_skeleton h.skeleton_eq]
  by_cases hne : n = m
  · subst hne
    have hthere := h.contains
    cases h with
    | fingerprint _ hkept =>
      rw [memo_remember hthere, if_pos rfl] at hd
      rw [← Option.some.inj hd, fingerprintNow, hroot _ hkept, Except.map]
    | root | heading =>
      rw [memo_remember hthere, if_pos rfl] at hd
      exact hn d hd
  · rw [h.memo_of_ne hne] at hd
    exact hn d hd

/-- Whatever is found out is right. -/
theorem Learns.current (h : Learns m f g) (hn : f.Current n) : g.Current n :=
  ⟨h.rootCurrent hn.root, h.headingCurrent hn.root hn.heading,
    h.fingerprintCurrent hn.root hn.fingerprint⟩

theorem LearnsAll.rootCurrent (h : LearnsAll m f g) (hn : f.RootCurrent n) : g.RootCurrent n := by
  induction h with
  | refl => exact hn
  | tail _ hlast ih => exact hlast.rootCurrent ih

theorem LearnsAll.current (h : LearnsAll m f g) (hn : f.Current n) : g.Current n := by
  induction h with
  | refl => exact hn
  | tail _ hlast ih => exact hlast.current ih

/-! ## Answers -/

namespace Current

theorem root_eq (h : f.Current n) : (f.root n).map Prod.fst = f.findRoot n := by
  rw [Forest.root]
  cases hkept : (f.memo n).root with
  | some r => exact (h.root r hkept).symm
  | none => cases f.findRoot n <;> simp only [Except.map]

theorem enclosingSection_eq (h : f.Current n) :
    (f.enclosingSection n).map Prod.fst = f.sectionNow n := by
  rw [enclosingSection]
  cases hkept : (f.memo n).heading with
  | some s => exact (h.heading s hkept).symm
  | none =>
    rw [sectionNow, ← h.root_eq]
    cases hroot : f.root n with
    | error e => simp only [Except.map]
    | ok res =>
      -- the section is looked for after the root has been kept, in a forest of the same shape
      have hskel := (learnsAll_root hroot).1.skeleton_eq
      have hsection : res.2.findSection res.1 (res.2.line n) = f.findSection res.1 (f.line n) := by
        rw [eq_of_skeleton_eq line_skeleton hskel, eq_of_skeleton_eq findSection_skeleton hskel]
      simp only [Except.map, hsection]

theorem fingerprint_eq (h : f.Current n) :
    (f.fingerprint n).map Prod.fst = f.fingerprintNow n := by
  rw [Forest.fingerprint]
  cases hkept : (f.memo n).fingerprint with
  | some d => exact (h.fingerprint d hkept).symm
  | none =>
    rw [fingerprintNow, ← h.root_eq]
    cases hroot : f.root n with
    | error e => simp only [Except.map]
    | ok res =>
      have hskel := (learnsAll_root hroot).1.skeleton_eq
      simp only [Except.map, eq_of_skeleton_eq findFingerprint_skeleton hskel]

theorem ident_eq (h : f.Current n) : (f.ident n).map Prod.fst = f.identNow n := by
  rw [ident, identNow]
  cases f.pageNumber? n with
  | some id => simp only [Except.map]
  | none =>
    simp only
    rw [← h.fingerprint_eq]
    cases f.fingerprint n <;> simp only [Except.map]

theorem pageAddress_eq (h : f.Current n) :
    (f.pageAddress n).map Prod.fst = f.pageAddressNow n := by
  rw [pageAddress, pageAddressNow, ← h.root_eq]
  cases hroot : f.root n with
  | error e => simp only [Except.map]
  | ok res =>
    have hskel := (learnsAll_root hroot).1.skeleton_eq
    simp only [Except.map, eq_of_skeleton_eq page?_skeleton hskel]

theorem address_eq (h : f.Current n) : (f.address n).map Prod.fst = f.addressNow n := by
  have hsource := h.pageAddress_eq
  rw [pageAddressNow] at hsource
  rw [address, addressNow]
  cases hroot : f.findRoot n with
  | error e =>
    rw [hroot] at hsource
    simp only [map_eq_error hsource, Except.map]
  | ok r =>
    rw [hroot] at hsource
    obtain ⟨⟨source, g⟩, hfirst, rfl⟩ := map_eq_ok hsource
    -- asking for the address of the page may have kept the root, and what is kept is still right
    have hlearns := learnsAll_pageAddress hfirst
    have hsection := (hlearns.current h).enclosingSection_eq
    rw [eq_of_skeleton_eq sectionNow_skeleton hlearns.skeleton_eq, sectionNow, hroot] at hsection
    obtain ⟨⟨s, g'⟩, hsecond, hs⟩ := map_eq_ok hsection
    have hskel : g'.skeleton = f.skeleton :=
      (learnsAll_enclosingSection hsecond).skeleton_eq.trans hlearns.skeleton_eq
    have hfragment : g'.addressFragment (g'.line n) s = f.addressFragment (f.line n) s := by
      rw [eq_of_skeleton_eq line_skeleton hskel, eq_of_skeleton_eq addressFragment_skeleton hskel]
    simp only [hfirst, hsecond, Except.map, hfragment, ← hs]

end Current

/-- What a call answers. -/
def answer (f : Forest) (c : Command) : Except Failure Answer :=
  (f.run c).map (·.answer)

theorem answer_asked {α : Type} (f : Forest) (n : NodeId) (ans : α → Answer)
    (q : Except Refusal (α × Forest)) :
    (f.onNode n (asked ans q)).map (·.answer) =
      f.answerAbout n .noPage ans (q.map Prod.fst) := by
  rw [onNode, answerAbout]
  split
  · cases q <;> simp only [asked, Except.map, Except.mapError]
  · simp only [Except.map]

/-- If all that is kept is right, then every question is answered from the forest as it stands. -/
theorem answer_eq_answerNow (h : ∀ n, f.Current n) {q : Command} (hq : q.isQuestion = true) :
    f.answer q = f.answerNow q := by
  cases q with
  | tryRoot n =>
    rw [answer, answerNow, run, onNode, answerAbout, ← (h n).root_eq]
    split
    · cases f.root n <;> simp only [Except.map, Except.mapError]
    · simp only [Except.map]
  | root n => rw [answer, answerNow, run, answer_asked, (h n).root_eq]
  | enclosingSection n => rw [answer, answerNow, run, answer_asked, (h n).enclosingSection_eq]
  | fingerprint n => rw [answer, answerNow, run, answer_asked, (h n).fingerprint_eq]
  | ident n => rw [answer, answerNow, run, answer_asked, (h n).ident_eq]
  | pageAddress n => rw [answer, answerNow, run, answer_asked, (h n).pageAddress_eq]
  | address n => rw [answer, answerNow, run, answer_asked, (h n).address_eq]
  | _ => simp [Command.isQuestion] at hq

/-! ## What is kept over one call -/

theorem memo_modify {h : Entry → Entry} (hmemo : ∀ e, (h e).memo = e.memo) (f : Forest)
    (m n : NodeId) : (f.modify m h).memo n = f.memo n := by
  rw [memo, map_get?_modify hmemo, memo]

/-- Only a question changes what is kept. -/
theorem Change.memo_eq {c : Command} (h : Change f c g) (hsize : g.size ≤ UInt32.size)
    (hc : c.isQuestion = false) (n : NodeId) : g.memo n = f.memo n := by
  cases h with
  | refused => rfl
  | grow =>
    rw [size_grow] at hsize
    exact memo_grow hsize n
  | move => exact memo_relocate f _ _ n
  | learn hq => simp [hq] at hc
  | attach _ _ hmemo => exact memo_modify hmemo f _ n

/-- What is kept about a node stays right if its tree stays as it is. Where nothing is kept, nothing
has to stay. -/
theorem WellFormed.current_of_sameTree (hf : f.WellFormed) (hg : g.WellFormed) (hn : f.Current n)
    (hmemo : g.memo n = f.memo n)
    (hsame : (f.memo n).isSet = true → ∀ m, f.SameTree n m → g.get? m = f.get? m) :
    g.Current n := by
  cases hset : (f.memo n).isSet with
  | false => exact current_of_isSet_eq_false (hmemo ▸ hset)
  | true =>
    exact hn.congr hmemo (hf.findRoot_congr hg (hsame hset))
      (hf.sectionNow_congr hg (hsame hset)) (hf.fingerprintNow_congr hg (hsame hset))

/-- What is kept stays right when a node is made: it is about nodes of pages, and the tree of a page
is closed. -/
theorem WellFormed.current_grow (hf : f.WellFormed) (hsize : f.size < UInt32.size) {kind : Kind}
    {line : UInt32} {children : List NodeId} (hfree : ∀ c ∈ children, f.IsFree c)
    (hnodup : children.Nodup) (hn : f.Current n) : (f.grow kind line children).Current n := by
  apply hf.current_of_sameTree (hf.grow hsize hfree hnodup) hn (memo_grow hsize n)
  intro hset m hm
  obtain ⟨r, hr⟩ := hn.exists_findRoot hset
  exact hf.get?_grow_of_findRoot hsize hfree hr hm

/-- Nothing is kept about any node of the tree of a node. -/
def Unexplored (f : Forest) (n : NodeId) : Prop :=
  ∀ m, f.SameTree n m → (f.memo m).isSet = false

/-- What is kept stays right when a node is moved between trees about which nothing is kept. -/
theorem WellFormed.current_relocate (hf : f.WellFormed) {child parent : NodeId}
    (hok : f.checkMove child parent = .ok ()) (hchild : f.Unexplored child)
    (hparent : f.Unexplored parent) (hn : f.Current n) : (f.relocate child parent).Current n := by
  apply hf.current_of_sameTree (hf.relocate hok) hn (memo_relocate f child parent n)
  intro hset m hm
  -- something is kept about the node, so its tree is neither of the two
  have hother : ∀ {a : NodeId}, f.Unexplored a → ¬f.SameTree a m := by
    intro a ha ham
    have han : f.SameTree a n := by
      rw [hf.sameTree_iff_top_eq] at ham hm ⊢
      exact ham.trans hm.symm
    rw [ha n han] at hset
    exact Bool.noConfusion hset
  exact hf.get?_relocate_of_not_sameTree (hother hchild) (hother hparent)

/-- If a call moves a node, then nothing is kept about the tree of the node and about the tree it is
moved to. -/
def IsEarly (f : Forest) (c : Command) : Prop :=
  ∀ child parent o, c = .move child parent → f.run c = .ok o →
    f.Unexplored child ∧ f.Unexplored parent

/-- What is kept about a node stays right over every call, a move that comes too late excepted. -/
theorem Change.current {c : Command} (h : Change f c g) (hf : f.WellFormed)
    (hsize : g.size ≤ UInt32.size) (hearly : f.IsEarly c) (hn : f.Current n) : g.Current n := by
  cases h with
  | refused => exact hn
  | grow _ hfree hnodup =>
    rw [size_grow] at hsize
    exact hf.current_grow hsize hfree hnodup hn
  | move hok =>
    obtain ⟨hchild, hparent⟩ := hearly _ _ _ rfl (run_move hok)
    exact hf.current_relocate hok hchild hparent hn
  | learn _ hlearns => exact hlearns.current hn
  | attach _ hbare hmemo =>
    exact hn.of_skeleton_eq (skeleton_modify_of_bare hbare f _) (memo_modify hmemo f _ n)

/-! ## What is kept over a run -/

/-- A run moves nodes only while nothing is kept about the trees involved. -/
def MovesEarly (f : Forest) : List Command → Prop
  | [] => True
  | c :: cs => f.IsEarly c ∧ (f.step c).MovesEarly cs

theorem movesEarly_append (cs ds : List Command) :
    f.MovesEarly (cs ++ ds) ↔ f.MovesEarly cs ∧ (f.runAll cs).MovesEarly ds := by
  induction cs generalizing f with
  | nil => simp [MovesEarly, runAll]
  | cons c cs ih =>
    rw [List.cons_append, MovesEarly, MovesEarly, ih, and_assoc]
    rfl

/-- Over a run that moves nodes early, what is kept stays right. -/
theorem current_runAll (hf : f.Reachable) {cs : List Command}
    (hsize : (f.runAll cs).size ≤ UInt32.size) (hearly : f.MovesEarly cs)
    (hcur : ∀ n, f.Current n) (n : NodeId) : (f.runAll cs).Current n := by
  induction cs generalizing f with
  | nil => exact hcur n
  | cons c cs ih =>
    obtain ⟨hc, hcs⟩ := hearly
    have hstep : (f.step c).size ≤ UInt32.size := size_step_le hsize
    exact ih (.step c hf hstep) hsize hcs fun m =>
      (change_step f c).current hf.wellFormed hstep hc (hcur m)

theorem current_empty (n : NodeId) : empty.Current n :=
  current_of_isSet_eq_false rfl

/-- A call that is not a move cannot come too late. -/
theorem isEarly_of_isMove_eq_false {c : Command} (hc : c.isMove = false) : f.IsEarly c := by
  rintro child parent o rfl -
  exact Bool.noConfusion hc

/-- As long as nothing is asked, nothing is kept, and every move is early. -/
theorem movesEarly_of_unasked {cs : List Command} (hsize : (f.runAll cs).size ≤ UInt32.size)
    (hcs : ∀ c ∈ cs, c.isQuestion = false) (hf : ∀ n, (f.memo n).isSet = false) :
    f.MovesEarly cs := by
  induction cs generalizing f with
  | nil => trivial
  | cons c cs ih =>
    refine ⟨fun _ _ _ _ _ => ⟨fun m _ => hf m, fun m _ => hf m⟩, ?_⟩
    have hstep : (f.step c).size ≤ UInt32.size := size_step_le hsize
    apply ih hsize (List.forall_mem_cons.1 hcs).2
    intro n
    rw [(change_step f c).memo_eq hstep (List.forall_mem_cons.1 hcs).1]
    exact hf n

theorem movesEarly_of_unmoved {cs : List Command} (hcs : ∀ c ∈ cs, c.isMove = false) :
    f.MovesEarly cs := by
  induction cs generalizing f with
  | nil => trivial
  | cons c cs ih =>
    obtain ⟨hc, hcs⟩ := List.forall_mem_cons.1 hcs
    exact ⟨isEarly_of_isMove_eq_false hc, ih hcs⟩

/-- A run that first puts trees together, and asks nothing, and then asks, and moves nothing, moves
its nodes early. It may make nodes to its end. -/
theorem movesEarly_build_ask {build ask : List Command}
    (hsize : (empty.runAll build).size ≤ UInt32.size)
    (hbuild : ∀ c ∈ build, c.isQuestion = false) (hask : ∀ c ∈ ask, c.isMove = false) :
    empty.MovesEarly (build ++ ask) :=
  (movesEarly_append build ask).2
    ⟨movesEarly_of_unasked hsize hbuild fun _ => rfl, movesEarly_of_unmoved hask⟩

/-- In a run that moves nodes early, every question is answered from the forest as it stands, and
nothing that is kept is ever wrong. In any forest, what is right about a node stays so when nodes are
made. The answers do not depend on what else has been asked, how often and in which order: runs that
make and move the same nodes lead to the same answers. -/
theorem answers_of_movesEarly {cs : List Command}
    (hsize : (empty.runAll cs).size ≤ UInt32.size) (hearly : empty.MovesEarly cs) :
    (∀ before q, before ++ [q] <+: cs → q.isQuestion = true →
      (empty.runAll before).answer q = (empty.runAll before).answerNow q) ∧
    (∀ before n, before <+: cs → (empty.runAll before).Current n) ∧
    (∀ f c n, Reachable f → c.isGrowth = true → (f.step c).size ≤ UInt32.size →
      f.Current n → (f.step c).Current n ∧ (f.step c).memo n = f.memo n) ∧
    (∀ ds, ds.filter Command.isShaping = cs.filter Command.isShaping → empty.MovesEarly ds →
      ∀ q, q.isQuestion = true → (empty.runAll ds).answer q = (empty.runAll cs).answer q) := by
  have hcur : ∀ before n, before <+: cs → (empty.runAll before).Current n := by
    rintro before n ⟨rest, rfl⟩
    rw [runAll_append] at hsize
    exact current_runAll .empty ((size_le_size_runAll _ rest).trans hsize)
      ((movesEarly_append before rest).1 hearly).1 current_empty n
  refine ⟨?_, hcur, ?_, ?_⟩
  · intro before q hq hquestion
    have hbefore : before <+: cs := (List.prefix_append before [q]).trans hq
    exact answer_eq_answerNow (fun n => hcur before n hbefore) hquestion
  · intro f c n hf hc hstep hn
    have hother : c.isMove = false ∧ c.isQuestion = false := by
      cases c <;> first | exact ⟨rfl, rfl⟩ | exact Bool.noConfusion hc
    exact ⟨(change_step f c).current hf.wellFormed hstep
      (isEarly_of_isMove_eq_false hother.1) hn, (change_step f c).memo_eq hstep hother.2 n⟩
  · intro ds hsame hds q hq
    -- both runs end in the same shape, and in both of them the answers come from the shape
    have hskel : (empty.runAll ds).skeleton = (empty.runAll cs).skeleton := by
      rw [skeleton_runAll rfl ds, skeleton_runAll rfl cs, hsame]
    have hsize' : (empty.runAll ds).size ≤ UInt32.size := by
      rw [eq_of_skeleton_eq size_skeleton hskel]
      exact hsize
    rw [answer_eq_answerNow (current_runAll .empty hsize' hds current_empty) hq,
      answer_eq_answerNow (current_runAll .empty hsize hearly current_empty) hq]
    exact congrFun (eq_of_skeleton_eq answerNow_skeleton hskel) q

/-- A heading and a text become a page, and then a second text is moved to the page. -/
def sampleBuild : List Command :=
  [.addLeaf (.heading "H" 2) 1, .addLeaf (.text "a") 3, .addLeaf (.text "b") 4,
    .addPage ⟨.article "P", 1, 100⟩ [⟨0⟩, ⟨1⟩], .move ⟨2⟩ ⟨3⟩]

/-- The section of the second text and the hash of the page are asked for while another page is made.
-/
def sampleAsk : List Command :=
  [.enclosingSection ⟨2⟩, .addLeaf (.text "c") 1, .fingerprint ⟨3⟩,
    .addPage ⟨.article "Q", 2, 200⟩ [⟨4⟩], .root ⟨4⟩]

theorem answers_of_movesEarly_sample :
    ((empty.runAll (sampleBuild ++ sampleAsk)).memo ⟨2⟩).heading = some (some ⟨0⟩) ∧
    (empty.runAll (sampleBuild ++ sampleAsk)).answer (.enclosingSection ⟨2⟩) =
      .ok (.node? (some ⟨0⟩)) := by
  have hsize : (empty.runAll (sampleBuild ++ (sampleAsk ++ [.enclosingSection ⟨2⟩]))).size ≤
      UInt32.size := by
    decide +kernel
  have hearly : empty.MovesEarly (sampleBuild ++ (sampleAsk ++ [.enclosingSection ⟨2⟩])) :=
    movesEarly_build_ask (by decide +kernel) (by simp [sampleBuild, Command.isQuestion])
      (by simp [sampleAsk, Command.isMove])
  refine ⟨by decide +kernel, ?_⟩
  rw [(answers_of_movesEarly hsize hearly).1 (sampleBuild ++ sampleAsk) (.enclosingSection ⟨2⟩)
    (by simp) rfl]
  decide +kernel

/-! ## Reported moves -/

/-- What a call reports. -/
def events (f : Forest) (c : Command) : List Event :=
  match f.run c with
  | .ok o => o.events
  | .error _ => []

/-- What the calls of a run report. -/
def report (f : Forest) : List Command → List Event
  | [] => []
  | c :: cs => f.events c ++ (f.step c).report cs

theorem events_move {child parent : NodeId} (hok : f.checkMove child parent = .ok ()) :
    f.events (.move child parent) =
      if f.isNavigated child then [.staleMove child parent] else [] := by
  rw [events, run_move hok]

/-- A move is reported exactly if something is kept about the moved node or a node below it. -/
theorem WellFormed.staleMove_mem_events_iff (hf : f.WellFormed) {child parent : NodeId}
    (hok : f.checkMove child parent = .ok ()) :
    Event.staleMove child parent ∈ f.events (.move child parent) ↔
      ∃ m, f.Above child m ∧ (f.memo m).isSet = true := by
  rw [events_move hok, ← hf.isNavigated_iff (checkMove_eq_ok_iff.1 hok).1]
  cases f.isNavigated child <;> simp

/-- If a move is not reported, then a node about which something is kept does not move with it. -/
theorem WellFormed.not_above_of_quiet (hf : f.WellFormed) {child parent : NodeId}
    (hok : f.checkMove child parent = .ok ())
    (hquiet : Event.staleMove child parent ∉ f.events (.move child parent))
    (hset : (f.memo n).isSet = true) : ¬f.Above child n := by
  intro habove
  rw [hf.staleMove_mem_events_iff hok] at hquiet
  exact hquiet ⟨n, habove, hset⟩

/-- A move keeps the page of every node that is not moved with it. -/
theorem WellFormed.findRoot_relocate (hf : f.WellFormed) {child parent : NodeId}
    (hok : f.checkMove child parent = .ok ()) (hn : ¬f.Above child n) :
    (f.relocate child parent).findRoot n = f.findRoot n := by
  have htop : (f.relocate child parent).top n = f.top n := by
    apply hf.top_congr (hf.relocate hok)
    intro m hm
    have hne : m ≠ child := by
      rintro rfl
      exact hn hm
    rw [parent?_relocate (checkMove_eq_ok_iff.1 hok).1, if_neg hne]
  rw [findRoot, htop, isPage_relocate, findRoot]

theorem WellFormed.rootCurrent_grow (hf : f.WellFormed) (hsize : f.size < UInt32.size)
    {kind : Kind} {line : UInt32} {children : List NodeId} (hfree : ∀ c ∈ children, f.IsFree c)
    (hnodup : children.Nodup) (hn : f.RootCurrent n) :
    (f.grow kind line children).RootCurrent n := by
  intro r hr
  rw [memo_grow hsize] at hr
  rw [hf.findRoot_congr (hf.grow hsize hfree hnodup) fun m hm =>
    hf.get?_grow_of_findRoot hsize hfree (hn r hr) hm]
  exact hn r hr

/-- If nothing is reported about a move, then nothing is kept about the moved nodes, and the others
keep their pages. -/
theorem WellFormed.rootCurrent_relocate (hf : f.WellFormed) {child parent : NodeId}
    (hok : f.checkMove child parent = .ok ())
    (hquiet : Event.staleMove child parent ∉ f.events (.move child parent))
    (hn : f.RootCurrent n) : (f.relocate child parent).RootCurrent n := by
  intro r hr
  rw [memo_relocate] at hr
  have hnot : ¬f.Above child n := hf.not_above_of_quiet hok hquiet (by simp [Memo.isSet, hr])
  rw [hf.findRoot_relocate hok hnot]
  exact hn r hr

/-- A kept root stays right over every call, a move that is reported excepted. -/
theorem Change.rootCurrent {c : Command} (h : Change f c g) (hf : f.WellFormed)
    (hsize : g.size ≤ UInt32.size)
    (hquiet : ∀ child parent, Event.staleMove child parent ∉ f.events c)
    (hn : f.RootCurrent n) : g.RootCurrent n := by
  cases h with
  | refused => exact hn
  | grow _ hfree hnodup =>
    rw [size_grow] at hsize
    exact hf.rootCurrent_grow hsize hfree hnodup hn
  | move hok => exact hf.rootCurrent_relocate hok (hquiet _ _) hn
  | learn _ hlearns => exact hlearns.rootCurrent hn
  | attach _ hbare hmemo =>
    exact hn.congr (memo_modify hmemo f _ n)
      (congrFun (eq_of_skeleton_eq findRoot_skeleton (skeleton_modify_of_bare hbare f _)) n)

/-- Over a run that reports no move, kept roots stay right. -/
theorem rootCurrent_runAll (hf : f.Reachable) {cs : List Command}
    (hsize : (f.runAll cs).size ≤ UInt32.size)
    (hquiet : ∀ child parent, Event.staleMove child parent ∉ f.report cs)
    (hcur : ∀ n, f.RootCurrent n) (n : NodeId) : (f.runAll cs).RootCurrent n := by
  induction cs generalizing f with
  | nil => exact hcur n
  | cons c cs ih =>
    have hstep : (f.step c).size ≤ UInt32.size := size_step_le hsize
    have hfirst : ∀ child parent, Event.staleMove child parent ∉ f.events c :=
      fun child parent hmem => hquiet child parent (List.mem_append_left _ hmem)
    have hrest : ∀ child parent, Event.staleMove child parent ∉ (f.step c).report cs :=
      fun child parent hmem => hquiet child parent (List.mem_append_right _ hmem)
    exact ih (.step c hf hstep) hsize hrest fun m =>
      (change_step f c).rootCurrent hf.wellFormed hstep hfirst (hcur m)

/-- In every reachable forest, a move that passes its checks is reported exactly if something is kept
about the moved node or a node below it. Over every run that reports no move, a kept root is the page
that is above the node as the forest stands. -/
theorem warnings_of_moves :
    (∀ f child parent o, Reachable f → f.run (.move child parent) = .ok o →
      (Event.staleMove child parent ∈ o.events ↔
        ∃ m, f.Above child m ∧ ((f.memo m).root ≠ none ∨ (f.memo m).heading ≠ none ∨
          (f.memo m).fingerprint ≠ none))) ∧
    (∀ cs, (empty.runAll cs).size ≤ UInt32.size →
      (∀ child parent, Event.staleMove child parent ∉ empty.report cs) →
      ∀ n r, ((empty.runAll cs).memo n).root = some r →
        (empty.runAll cs).findRoot n = .ok r ∧ (empty.runAll cs).Above r n ∧
          (empty.runAll cs).parent? r = none ∧ (empty.runAll cs).isPage r = true) := by
  constructor
  · intro f child parent o hf hrun
    have hevents : f.events (.move child parent) = o.events := by rw [events, hrun]
    have hset : ∀ m, (f.memo m).isSet = true ↔ (f.memo m).root ≠ none ∨
        (f.memo m).heading ≠ none ∨ (f.memo m).fingerprint ≠ none := by
      intro m
      simp only [Memo.isSet, Bool.or_eq_true, Option.isSome_iff_ne_none, or_assoc]
    rw [← hevents, hf.wellFormed.staleMove_mem_events_iff (checkMove_of_run_eq_ok hrun)]
    simp only [hset]
  · intro cs hsize hquiet n r hr
    have hwf : (empty.runAll cs).WellFormed := (Reachable.runAll .empty cs hsize).wellFormed
    have hroot : (empty.runAll cs).findRoot n = .ok r :=
      rootCurrent_runAll .empty hsize hquiet (fun m => (current_empty m).root) n r hr
    exact ⟨hroot, hwf.findRoot_eq_ok_iff.1 hroot⟩

/-- After the page of the second text has been asked for, the first text is moved below the heading.
-/
def sampleMove : List Command :=
  sampleBuild ++ [.root ⟨2⟩, .move ⟨1⟩ ⟨0⟩]

theorem warnings_of_moves_sample :
    (empty.runAll sampleMove).findRoot ⟨2⟩ = .ok ⟨3⟩ ∧
    ∃ o, (empty.runAll sampleMove).run (.move ⟨2⟩ ⟨0⟩) = .ok o ∧
      Event.staleMove ⟨2⟩ ⟨0⟩ ∈ o.events := by
  have hsize : (empty.runAll sampleMove).size ≤ UInt32.size := by decide +kernel
  have hquiet : empty.report sampleMove = [] := by decide +kernel
  have hkept : ((empty.runAll sampleMove).memo ⟨2⟩).root = some ⟨3⟩ := by decide +kernel
  have hok : (empty.runAll sampleMove).checkMove ⟨2⟩ ⟨0⟩ = .ok () := by decide +kernel
  have hrun := run_move hok
  refine ⟨(warnings_of_moves.2 _ hsize (by simp [hquiet]) _ _ hkept).1, _, hrun, ?_⟩
  rw [warnings_of_moves.1 _ _ _ _ (Reachable.runAll .empty _ hsize) hrun]
  exact ⟨⟨2⟩, Above.refl _ _, Or.inl (by simp [hkept])⟩

end MarkupForest.Forest
