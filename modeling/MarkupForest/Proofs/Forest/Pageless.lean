import MarkupForest.Proofs.Forest.Section

/-!
# Questions that count on a page

The questions about the place of a node count on a page at the top of its tree. All of them end up
asking for that page, each in a way of its own, and what they find out is kept in three places. They
break down together nevertheless: nothing is kept about a node without its page, so if the page is
neither kept nor to be found, then no question can be answered from what is kept.

A call that fails leaves the forest as it was. To show that nothing needs to be undone for this, the
questions are also written as programs that work on a forest in place (`Question`). Such a program
stops where something is wrong and leaves behind what it has kept by then. It can also break down in
ways that a call cannot: it may come to a node that is not there, be given a page that is none, or add
up numbers whose sum is too large. None of this happens in a reachable forest.

## Main definitions

* `Question`: questions that are asked in place, with all the ways in which they can break down;
* `Question.onPage`: the calls that count on the page of a node, each with its program;
* `FailAlike`: two results are the same failure, or both are no failure.

## Main results

* `Question.run_root`, `Question.run_address` and their companions: asking in place gives the same as
  the call, and a failure leaves nothing behind;
* `Forest.Ready.failAlike_ident` and its companions: a question fails exactly as asking for the page
  does;
* `Forest.pageless_of_reachable`: what becomes of questions about nodes with and without a page.
-/

namespace MarkupForest

/-! ## Asking in place -/

/-- Why a question about the place of a node breaks down. -/
inductive Breakdown where
  /-- The node does not belong to a page. -/
  | noPage (why : Refusal)
  /-- A node that is looked at does not exist. -/
  | noSuchNode (id : NodeId)
  /-- What is given as the page of the node is no page. -/
  | strayRoot (root : NodeId)
  /-- The sum of two numbers is too large. -/
  | overflow (a b : Int64)
deriving DecidableEq, Repr

/-- A question that is asked in place. What it has kept when it breaks down stays in the forest. -/
abbrev Question := EStateM Breakdown Forest

namespace Question

variable {α : Type}

/-- Goes on if some nodes that are looked at are there. -/
def need (ms : List NodeId) : Question Unit := do
  let f ← get
  match ms.find? (!f.contains ·) with
  | some m => throw (.noSuchNode m)
  | none => return ()

/-- Adds two numbers whose sum must not be too large. -/
def add (a b : Int64) : Question Int64 :=
  if (a + b).toInt = a.toInt + b.toInt then return a + b else throw (.overflow a b)

/-- Gives the value that is kept about a node. If there is none, it is found out and kept. -/
def kept (n : NodeId) (slot : Memo → Option α) (keep : α → Memo → Memo) (find : Question α) :
    Question α := do
  let f ← get
  match slot (f.memo n) with
  | some a => return a
  | none =>
    let a ← find
    modify (·.remember n (keep a))
    return a

/-- The page a node belongs to. -/
def root (n : NodeId) : Question NodeId :=
  kept n (·.root) (fun r m => { m with root := some r }) do
    let f ← get
    need (f.lineage n)
    match f.findRoot n with
    | .ok r => return r
    | .error e => throw (.noPage e)

/-- What the page a node belongs to is. -/
def rootPage (n : NodeId) : Question Page := do
  let r ← root n
  let f ← get
  match f.page? r with
  | some p => return p
  | none => throw (.strayRoot r)

/-- The heading of the section a node stands in, if there is one. -/
def enclosingSection (n : NodeId) : Question (Option NodeId) :=
  kept n (·.heading) (fun s m => { m with heading := some s }) do
    let r ← root n
    let f ← get
    need (f.children r)
    return f.findSection r (f.line n)

/-- The hash of a node's content. -/
def fingerprint (n : NodeId) : Question UInt64 :=
  kept n (·.fingerprint) (fun h m => { m with fingerprint := some h }) do
    let p ← rootPage n
    let f ← get
    -- the markup is made by looking at the children of every node from here downwards
    need (((f.tree? n).map Tree.ids).getD [] |>.flatMap f.children)
    return Digest.Blake3.hash64 (Forest.fingerprintInput p.revision (f.line n) (f.markup n))

/-- The number of a node. -/
def ident (n : NodeId) : Question Int64 := do
  let f ← get
  match f.pageNumber? n with
  | some id => return id
  | none =>
    let h ← fingerprint n
    add (h >>> 2).toInt64 Forest.numberOffset

/-- The address of the page a node belongs to. -/
def pageAddress (n : NodeId) : Question String := do
  let p ← rootPage n
  return Forest.revisionAddress p

/-- The address of a node. -/
def address (n : NodeId) : Question String := do
  let source ← pageAddress n
  let s ← enclosingSection n
  let f ← get
  need s.toList
  return source ++ f.addressFragment (f.line n) s

/-- The calls that count on the page of a node, each with the program that asks the same in place. -/
def onPage (n : NodeId) : List (Command × Question Answer) :=
  [(.root n, .node <$> root n), (.enclosingSection n, .node? <$> enclosingSection n),
    (.fingerprint n, .hash <$> fingerprint n), (.ident n, .ident <$> ident n),
    (.pageAddress n, .text <$> pageAddress n), (.address n, .text <$> address n)]

/-- The outcome of a question in place, if it is given at once or not at all. -/
def leaving (f : Forest) : Except Refusal (α × Forest) → EStateM.Result Breakdown Forest α
  | .ok (a, g) => .ok a g
  | .error e => .error (.noPage e) f

end Question

/-! ## Failing together -/

/-- Two results are the same failure, or both are no failure. -/
def FailAlike {α β : Type} (x : Except Refusal α) (y : Except Refusal β) : Prop :=
  ∀ e, x = .error e ↔ y = .error e

theorem FailAlike.exists_ok {α β : Type} {x : Except Refusal α} {y : Except Refusal β}
    (h : FailAlike x y) {a : α} (hx : x = .ok a) : ∃ b, y = .ok b := by
  cases hy : y with
  | ok b => exact ⟨b, rfl⟩
  | error e =>
    rw [(h e).2 hy] at hx
    cases hx

theorem failAlike_of_ok {α β : Type} {x : Except Refusal α} {y : Except Refusal β} {a : α} {b : β}
    (hx : x = .ok a) (hy : y = .ok b) : FailAlike x y := by
  intro e
  simp [hx, hy]

namespace Forest

variable {f g : Forest} {n r : NodeId}

/-- What a question about a node counts on, apart from its page. -/
structure Ready (f : Forest) (n : NodeId) : Prop where
  /-- The forest is well formed. -/
  wellFormed : f.WellFormed
  /-- What is kept about the node is of the right kind. -/
  wellKept : f.WellKept n
  /-- The node is there. -/
  contains : f.contains n = true

theorem LearnsAll.ready (h : LearnsAll n f g) (hf : f.Ready n) : g.Ready n where
  wellFormed := hf.wellFormed.of_skeleton_eq h.skeleton_eq
  wellKept := h.wellKept hf.wellKept
  contains := by rw [eq_of_skeleton_eq contains_skeleton h.skeleton_eq, hf.contains]

theorem root_of_kept (h : (f.memo n).root = some r) : f.root n = .ok (r, f) := by
  rw [Forest.root, h]

theorem root_of_kept_ne_none (h : (f.memo n).root ≠ none) : ∃ r, f.root n = .ok (r, f) := by
  obtain ⟨r, hr⟩ := Option.ne_none_iff_exists'.1 h
  exact ⟨r, root_of_kept hr⟩

theorem WellKept.failAlike_enclosingSection (hf : f.WellKept n) :
    FailAlike (f.root n) (f.enclosingSection n) := by
  unfold enclosingSection
  cases hkept : (f.memo n).heading with
  | some s =>
    -- with the section the page is kept as well, so neither question can fail
    obtain ⟨r, hroot⟩ := root_of_kept_ne_none (hf.root_of_heading (by simp [hkept]))
    exact failAlike_of_ok hroot rfl
  | none => cases f.root n <;> simp [FailAlike]

theorem WellKept.failAlike_fingerprint (hf : f.WellKept n) :
    FailAlike (f.root n) (f.fingerprint n) := by
  unfold Forest.fingerprint
  cases hkept : (f.memo n).fingerprint with
  | some h =>
    obtain ⟨r, hroot⟩ := root_of_kept_ne_none (hf.root_of_fingerprint (by simp [hkept]))
    exact failAlike_of_ok hroot rfl
  | none => cases f.root n <;> simp [FailAlike]

theorem failAlike_pageAddress (f : Forest) (n : NodeId) :
    FailAlike (f.root n) (f.pageAddress n) := by
  unfold pageAddress
  cases f.root n <;> simp [FailAlike]

/-- The page is kept when its address is given, so the section can be asked for after that. -/
theorem WellKept.exists_enclosingSection_of_pageAddress (hf : f.WellKept n) {source : String}
    (h : f.pageAddress n = .ok (source, g)) : ∃ x, g.enclosingSection n = .ok x := by
  obtain ⟨r, -, hr, -⟩ := hf.pageAddress_eq h
  exact ((learnsAll_pageAddress h).wellKept hf).failAlike_enclosingSection.exists_ok
    (root_of_kept hr)

theorem WellKept.failAlike_address (hf : f.WellKept n) : FailAlike (f.root n) (f.address n) := by
  intro e
  rw [failAlike_pageAddress f n e]
  unfold address
  cases hsource : f.pageAddress n with
  | error e' => simp
  | ok x =>
    obtain ⟨y, hsection⟩ := hf.exists_enclosingSection_of_pageAddress hsource
    simp [hsection]

/-- A page belongs to itself. -/
theorem WellFormed.exists_root_of_isPage (hf : f.WellFormed) (h : f.isPage n = true) :
    ∃ x, f.root n = .ok x := by
  have hfind : f.findRoot n = .ok n :=
    hf.findRoot_eq_ok_iff.2 ⟨.refl f n, hf.parent?_of_isPage h, h⟩
  cases hkept : (f.memo n).root with
  | some r => exact ⟨_, root_of_kept hkept⟩
  | none => exact ⟨_, by rw [Forest.root, hkept, hfind]⟩

theorem Ready.failAlike_ident (hf : f.Ready n) : FailAlike (f.root n) (f.ident n) := by
  unfold ident
  cases hnumber : f.pageNumber? n with
  | some id =>
    have hpage : f.isPage n = true := by
      obtain ⟨p, hp, -⟩ := Option.map_eq_some_iff.1 hnumber
      rw [isPage, hp, Option.isSome_some]
    obtain ⟨x, hroot⟩ := hf.wellFormed.exists_root_of_isPage hpage
    exact failAlike_of_ok hroot rfl
  | none =>
    intro e
    rw [hf.wellKept.failAlike_fingerprint e]
    cases f.fingerprint n <;> simp

/-- If asking for the page fails, then the page is not kept, and it cannot be found. -/
theorem findRoot_of_root_eq_error {e : Refusal} (h : f.root n = .error e) :
    f.findRoot n = .error e := by
  unfold Forest.root at h
  split at h
  next => cases h
  next =>
    split at h
    next => cases h
    next hfind =>
      cases h
      exact hfind

/-- If the page cannot be found, then the node at the top of the tree is no page. -/
theorem WellFormed.exists_top_of_findRoot_eq_error (hf : f.WellFormed) {e : Refusal}
    (h : f.findRoot n = .error e) :
    ∃ t, f.Above t n ∧ f.parent? t = none ∧ f.isPage t = false ∧ e = .rootNotPage n t := by
  unfold findRoot at h
  split at h
  next => cases h
  next hpage =>
    cases h
    exact ⟨f.top n, (hf.above_top n).1, (hf.above_top n).2, Bool.eq_false_iff.2 hpage, rfl⟩

/-- Nothing is above a page but the page itself. -/
theorem WellFormed.isPage_eq_false_of_above (hf : f.WellFormed) {t : NodeId} (h : f.Above t n)
    (ht : f.isPage t = false) : f.isPage n = false := by
  rw [← Bool.not_eq_true]
  intro hpage
  rw [h.eq_of_parent?_eq_none (hf.parent?_of_isPage hpage), hpage] at ht
  exact Bool.noConfusion ht

/-- A hash without its two lowest bits stays the same number when it is read with a sign. -/
theorem toInt_toInt64_shiftRight (h : UInt64) :
    (h >>> 2).toInt64.toInt = ((h.toNat / 4 : Nat) : Int) := by
  have hquarter : (h >>> 2).toNat = h.toNat / 4 := by
    rw [UInt64.toNat_shiftRight, Nat.shiftRight_eq_div_pow]
    rfl
  have hbound : h.toNat < 2 ^ 64 := h.toNat_lt
  rw [← hquarter]
  refine BitVec.toInt_eq_toNat_of_lt (x := (h >>> 2).toBitVec) ?_
  rw [UInt64.toNat_toBitVec]
  omega

/-- The number made from a hash is not too large to be one: the two lowest bits of the hash are
dropped before the offset is added. -/
theorem toInt_numberOf (h : UInt64) :
    (numberOf h).toInt = (h >>> 2).toInt64.toInt + numberOffset.toInt := by
  have hbound : h.toNat < 2 ^ 64 := h.toNat_lt
  have hoffset : numberOffset.toInt = 2 ^ 62 := by decide
  rw [numberOf, Int64.toInt_add, toInt_toInt64_shiftRight, hoffset]
  apply Int.bmod_eq_of_le <;> omega

end Forest

/-! ## What is left behind -/

namespace Question

variable {α : Type} {f g : Forest} {n r : NodeId}

theorem run_need {ms : List NodeId} (h : ∀ m ∈ ms, f.contains m = true) :
    (need ms).run f = .ok () f := by
  have hall : ms.find? (!f.contains ·) = none := List.find?_eq_none.2 fun m hm => by simp [h m hm]
  simp only [need, EStateM.run_bind, EStateM.run_get, hall, EStateM.run_pure]

section Kept

variable {slot : Memo → Option α} {keep : α → Memo → Memo} {find : Question α} {a : α}

theorem run_kept_of_some (h : slot (f.memo n) = some a) :
    (kept n slot keep find).run f = .ok a f := by
  simp only [kept, EStateM.run_bind, EStateM.run_get, h, EStateM.run_pure]

theorem run_kept_of_ok (h : slot (f.memo n) = none) (hfind : find.run f = .ok a g) :
    (kept n slot keep find).run f = .ok a (g.remember n (keep a)) := by
  simp only [kept, EStateM.run_bind, EStateM.run_get, h, hfind, EStateM.run_modify,
    EStateM.run_pure]

/-- If it cannot be found out, then nothing is kept. -/
theorem run_kept_of_error (h : slot (f.memo n) = none) {e : Breakdown}
    (hfind : find.run f = .error e g) : (kept n slot keep find).run f = .error e g := by
  simp only [kept, EStateM.run_bind, EStateM.run_get, h, hfind]

end Kept

theorem run_root (hf : f.Ready n) : (root n).run f = leaving f (f.root n) := by
  cases hkept : (f.memo n).root with
  | some r =>
    rw [root, run_kept_of_some hkept, Forest.root_of_kept hkept]
    rfl
  | none =>
    have hlineage : (need (f.lineage n)).run f = .ok () f := run_need fun m hm =>
      hf.wellFormed.contains_above ((hf.wellFormed.mem_lineage_iff hf.contains).1 hm) hf.contains
    rw [root, Forest.root, hkept]
    cases hfind : f.findRoot n with
    | ok r =>
      refine run_kept_of_ok hkept ?_
      simp only [EStateM.run_bind, EStateM.run_get, hlineage, hfind, EStateM.run_pure]
    | error e =>
      refine run_kept_of_error hkept ?_
      simp only [EStateM.run_bind, EStateM.run_get, hlineage, hfind]
      rfl

/-- Nothing comes before asking for the page, so nothing has been kept if that fails. -/
theorem run_rootPage_of_error (hf : f.Ready n) {e : Refusal} (hroot : f.root n = .error e) :
    (rootPage n).run f = .error (.noPage e) f := by
  simp only [rootPage, EStateM.run_bind, run_root hf, hroot, leaving]

/-- What is given as the page of a node is one. -/
theorem run_rootPage_of_ok (hf : f.Ready n) (hroot : f.root n = .ok (r, g)) :
    ∃ p, g.page? r = some p ∧ (rootPage n).run f = .ok p g := by
  obtain ⟨hlearns, hkept⟩ := Forest.learnsAll_root hroot
  obtain ⟨p, hp⟩ := Forest.exists_page_of_isPage
    ((hlearns.ready hf).wellKept.isPage_root r (by rw [hkept]))
  refine ⟨p, hp, ?_⟩
  simp only [rootPage, EStateM.run_bind, run_root hf, hroot, leaving, EStateM.run_get, hp,
    EStateM.run_pure]

theorem run_enclosingSection (hf : f.Ready n) :
    (enclosingSection n).run f = leaving f (f.enclosingSection n) := by
  cases hkept : (f.memo n).heading with
  | some s =>
    rw [enclosingSection, run_kept_of_some hkept, Forest.enclosingSection, hkept]
    rfl
  | none =>
    rw [enclosingSection, Forest.enclosingSection, hkept]
    cases hroot : f.root n with
    | error e =>
      refine run_kept_of_error hkept ?_
      simp only [EStateM.run_bind, run_root hf, hroot, leaving]
    | ok x =>
      obtain ⟨r, g⟩ := x
      have hg : g.Ready n := (Forest.learnsAll_root hroot).1.ready hf
      have hchildren : (need (g.children r)).run g = .ok () g :=
        run_need fun m hm => hg.wellFormed.contains_child hm
      refine run_kept_of_ok hkept ?_
      simp only [EStateM.run_bind, run_root hf, hroot, leaving, EStateM.run_get, hchildren,
        EStateM.run_pure]

theorem run_fingerprint (hf : f.Ready n) :
    (fingerprint n).run f = leaving f (f.fingerprint n) := by
  cases hkept : (f.memo n).fingerprint with
  | some h =>
    rw [fingerprint, run_kept_of_some hkept, Forest.fingerprint, hkept]
    rfl
  | none =>
    rw [fingerprint, Forest.fingerprint, hkept]
    cases hroot : f.root n with
    | error e =>
      refine run_kept_of_error hkept ?_
      simp only [EStateM.run_bind, run_rootPage_of_error hf hroot]
    | ok x =>
      obtain ⟨r, g⟩ := x
      have hg : g.Ready n := (Forest.learnsAll_root hroot).1.ready hf
      obtain ⟨p, hp, hpage⟩ := run_rootPage_of_ok hf hroot
      have hbelow : (need (((g.tree? n).map Tree.ids).getD [] |>.flatMap g.children)).run g =
          .ok () g := run_need fun m hm => by
        obtain ⟨c, -, hc⟩ := List.mem_flatMap.1 hm
        exact hg.wellFormed.contains_child hc
      -- the call has a default in case the page were none, which is not needed
      have hrevision : g.revision r = p.revision := by
        rw [Forest.revision, hp, Option.map_some, Option.getD_some]
      refine run_kept_of_ok hkept ?_
      simp only [EStateM.run_bind, hpage, EStateM.run_get, hbelow, EStateM.run_pure,
        Forest.findFingerprint, hrevision]

theorem run_ident (hf : f.Ready n) : (ident n).run f = leaving f (f.ident n) := by
  have hsum : ∀ h : UInt64, add (h >>> 2).toInt64 Forest.numberOffset =
      pure (Forest.numberOf h) := fun h => if_pos (Forest.toInt_numberOf h)
  simp only [ident, Forest.ident, EStateM.run_bind, EStateM.run_get]
  cases f.pageNumber? n with
  | some id => rfl
  | none =>
    simp only [EStateM.run_bind, run_fingerprint hf, hsum]
    cases f.fingerprint n with
    | error e => rfl
    | ok x => rfl

theorem run_pageAddress (hf : f.Ready n) :
    (pageAddress n).run f = leaving f (f.pageAddress n) := by
  rw [pageAddress, EStateM.run_bind, Forest.pageAddress]
  cases hroot : f.root n with
  | error e => simp only [run_rootPage_of_error hf hroot, leaving]
  | ok x =>
    obtain ⟨r, g⟩ := x
    obtain ⟨p, hp, hpage⟩ := run_rootPage_of_ok hf hroot
    simp only [hpage, EStateM.run_pure, leaving, hp, Option.map_some, Option.getD_some]

/-- The address is asked for in two steps, and the first one keeps the page. It is left behind only if
the second step succeeds, which it does because of it. -/
theorem run_address (hf : f.Ready n) : (address n).run f = leaving f (f.address n) := by
  rw [address, EStateM.run_bind, run_pageAddress hf, Forest.address]
  cases hsource : f.pageAddress n with
  | error e => rfl
  | ok x =>
    obtain ⟨source, g⟩ := x
    have hg : g.Ready n := (Forest.learnsAll_pageAddress hsource).ready hf
    obtain ⟨⟨s, g'⟩, hsection⟩ := hf.wellKept.exists_enclosingSection_of_pageAddress hsource
    have hg' : g'.Ready n := (Forest.learnsAll_enclosingSection hsection).ready hg
    have hthere : (need s.toList).run g' = .ok () g' := run_need fun m hm => by
      rw [Option.mem_toList] at hm
      obtain rfl : s = some m := hm
      exact Forest.contains_of_isHeading (hg'.wellKept.isHeading_heading m
        (Forest.heading_of_enclosingSection hsection)).1
    simp only [leaving, hsection, EStateM.run_bind, run_enclosingSection hg, EStateM.run_get,
      hthere, EStateM.run_pure]

/-- A call and a program have the same outcome, and it is a failure exactly if asking for the page of
the node is. -/
def Agree (f : Forest) (n : NodeId) (call : Except Failure Outcome) (p : Question Answer) : Prop :=
  ∃ result, FailAlike (f.root n) result ∧ call = Forest.asked id result ∧ p.run f = leaving f result

/-- What is made of the result of a question is the same in the call and in place. -/
theorem agree_of_run {p : Question α} {result : Except Refusal (α × Forest)}
    (hn : f.contains n = true) (halike : FailAlike (f.root n) result)
    (hplace : p.run f = leaving f result) (answer : α → Answer) :
    Agree f n (f.onNode n (Forest.asked answer result)) (answer <$> p) := by
  refine ⟨result.map (Prod.map answer id), fun e => (halike e).trans ?_, ?_, ?_⟩
  · cases result <;> simp [Except.map]
  · rw [Forest.onNode, if_pos hn]
    cases result <;> rfl
  · rw [map_eq_pure_bind, EStateM.run_bind, hplace]
    cases result <;> rfl

theorem agree_of_mem_onPage (hf : f.Ready n) {q : Command × Question Answer} (hq : q ∈ onPage n) :
    Agree f n (f.run q.1) q.2 := by
  simp only [onPage, List.mem_cons, List.not_mem_nil, or_false] at hq
  rcases hq with rfl | rfl | rfl | rfl | rfl | rfl
  · exact agree_of_run hf.contains (fun _ => Iff.rfl) (run_root hf) _
  · exact agree_of_run hf.contains hf.wellKept.failAlike_enclosingSection
      (run_enclosingSection hf) _
  · exact agree_of_run hf.contains hf.wellKept.failAlike_fingerprint (run_fingerprint hf) _
  · exact agree_of_run hf.contains hf.failAlike_ident (run_ident hf) _
  · exact agree_of_run hf.contains (Forest.failAlike_pageAddress f n) (run_pageAddress hf) _
  · exact agree_of_run hf.contains hf.wellKept.failAlike_address (run_address hf) _

end Question

namespace Forest

variable {f : Forest} {n : NodeId}

/-- In a reachable forest, ask for the page of a node in the way that may fail. If it fails, then the
node at the top of the tree is named, which is no page, and every call that counts on the page breaks
down for the same reason. Asked in place, none of them has kept anything by then. If it does not fail,
then none of these calls breaks down, be it for this reason or for any other. -/
theorem pageless_of_reachable (hf : f.Reachable) (hn : f.contains n = true) :
    (∀ e, f.run (.tryRoot n) = .error e →
      ∃ t, f.Above t n ∧ f.parent? t = none ∧ f.isPage t = false ∧ f.isPage n = false ∧
        e = .refused (.rootNotPage n t) ∧
        ∀ q ∈ Question.onPage n,
          f.run q.1 = .error (.noPage (.rootNotPage n t)) ∧
          q.2.run f = .error (.noPage (.rootNotPage n t)) f) ∧
    (∀ o, f.run (.tryRoot n) = .ok o →
      ∀ q ∈ Question.onPage n,
        ∃ o', f.run q.1 = .ok o' ∧ q.2.run f = .ok o'.answer o'.forest) := by
  have hready : f.Ready n := ⟨hf.wellFormed, hf.wellKept n, hn⟩
  rw [run, onNode, if_pos hn]
  cases hroot : f.root n with
  | error why =>
    obtain ⟨t, habove, htop, hpage, rfl⟩ :=
      hf.wellFormed.exists_top_of_findRoot_eq_error (findRoot_of_root_eq_error hroot)
    refine ⟨?_, fun o h => by cases h⟩
    rintro e ⟨⟩
    refine ⟨t, habove, htop, hpage, hf.wellFormed.isPage_eq_false_of_above habove hpage, rfl,
      fun q hq => ?_⟩
    obtain ⟨result, halike, hcall, hplace⟩ := Question.agree_of_mem_onPage hready hq
    rw [hcall, hplace, (halike _).1 hroot]
    exact ⟨rfl, rfl⟩
  | ok x =>
    refine ⟨fun e h => by (cases h), fun o _ q hq => ?_⟩
    obtain ⟨result, halike, hcall, hplace⟩ := Question.agree_of_mem_onPage hready hq
    obtain ⟨⟨a, g⟩, hresult⟩ := halike.exists_ok hroot
    rw [hcall, hplace, hresult]
    exact ⟨⟨a, [], g⟩, rfl, rfl⟩

/-- A text in a cell that belongs to no page, about which questions are asked in vain. -/
def sampleLoose : List Command :=
  [.addLeaf (.text "a") 3, .addParent .tableCell 3 [⟨0⟩], .addLeaf (.heading "H" 2) 1,
    .address ⟨0⟩, .fingerprint ⟨0⟩]

/-- The same, and a page that the cell is put on after that. -/
def sampleAdopted : List Command :=
  sampleLoose ++ [.addPage ⟨.article "P", 1, 100⟩ [⟨2⟩, ⟨1⟩], .enclosingSection ⟨0⟩]

/-- The address of the text is not known as long as the cell belongs to no page, and the question
leaves nothing behind. It is known when there is a page. -/
theorem pageless_of_reachable_adopted :
    (.text <$> Question.address ⟨0⟩ : Question Answer).run (empty.runAll sampleLoose) =
      .error (.noPage (.rootNotPage ⟨0⟩ ⟨1⟩)) (empty.runAll sampleLoose) ∧
    ∃ o, (empty.runAll sampleAdopted).run (.address ⟨0⟩) = .ok o := by
  have hloose : (empty.runAll sampleLoose).Reachable := .runAll .empty _ (by decide +kernel)
  have hadopted : (empty.runAll sampleAdopted).Reachable := .runAll .empty _ (by decide +kernel)
  obtain ⟨t, -, -, -, -, ht, hall⟩ :=
    (pageless_of_reachable hloose (n := ⟨0⟩) (by decide +kernel)).1 _ rfl
  obtain rfl : t = ⟨1⟩ := by
    cases ht
    decide +kernel
  obtain ⟨o, hpage, -⟩ := exists_run_of_answer (f := empty.runAll sampleAdopted)
    (c := .tryRoot ⟨0⟩) (a := .node ⟨3⟩) (by decide +kernel)
  obtain ⟨o', haddress, -⟩ :=
    (pageless_of_reachable hadopted (by decide +kernel)).2 o hpage
      (.address ⟨0⟩, .text <$> Question.address ⟨0⟩) (by simp [Question.onPage])
  exact ⟨(hall (.address ⟨0⟩, .text <$> Question.address ⟨0⟩) (by simp [Question.onPage])).2,
    o', haddress⟩

end Forest

end MarkupForest
