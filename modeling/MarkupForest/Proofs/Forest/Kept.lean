import MarkupForest.Proofs.Forest.Memory
import Mathlib.Data.List.TakeWhile

/-!
# What is kept is never lost

What is kept about the place of a node may become wrong when nodes are moved. It never becomes
meaningless: a kept root is a page, a kept section is a heading that does not stand on a later line
than the node, and nothing is kept about a node without its root. It is also never replaced, so a
question that has been answered once is answered in the same way from then on.

The functions that make addresses and hashes have answers for the case that a root is not a page or a
section not a heading, and subtract lines without going below zero. None of that is ever put to use.

## Main definitions

* `Memo.Le`: one memo holds all that another one holds;
* `Forest.WellKept`: what is kept about a node is of the right kind;
* `Forest.Lasting`: an answer is given again whatever happens in between.

## Main results

* `Change.memo_le` and `Change.wellKept`: what a call keeps and adds;
* `kept_of_reachable`: what is kept in reachable forests, and what is made of it.
-/

namespace MarkupForest

/-- All that `m` holds is in `m'` as well, with the same values. -/
structure Memo.Le (m m' : Memo) : Prop where
  root : ∀ r, m.root = some r → m'.root = some r
  heading : ∀ s, m.heading = some s → m'.heading = some s
  fingerprint : ∀ d, m.fingerprint = some d → m'.fingerprint = some d

theorem Memo.Le.refl (m : Memo) : m.Le m :=
  ⟨fun _ h => h, fun _ h => h, fun _ h => h⟩

theorem Memo.Le.trans {m₁ m₂ m₃ : Memo} (h : m₁.Le m₂) (h' : m₂.Le m₃) : m₁.Le m₃ :=
  ⟨fun r hr => h'.root r (h.root r hr), fun s hs => h'.heading s (h.heading s hs),
    fun d hd => h'.fingerprint d (h.fingerprint d hd)⟩

namespace Forest

variable {f g : Forest} {m n r s : NodeId} {c : Command}

/-! ## Memos only grow -/

/-- Something is found out only if it is not kept yet, so it takes the place of nothing. -/
theorem Learns.memo_le (h : Learns m f g) (n : NodeId) : (f.memo n).Le (g.memo n) := by
  by_cases hne : n = m
  · subst hne
    have hn := h.contains
    cases h with
    | root hnew =>
      rw [memo_remember hn, if_pos rfl]
      exact ⟨by simp [hnew], fun _ h => h, fun _ h => h⟩
    | heading hnew =>
      rw [memo_remember hn, if_pos rfl]
      exact ⟨fun _ h => h, by simp [hnew], fun _ h => h⟩
    | fingerprint hnew =>
      rw [memo_remember hn, if_pos rfl]
      exact ⟨fun _ h => h, fun _ h => h, by simp [hnew]⟩
  · rw [h.memo_of_ne hne]
    exact .refl _

theorem LearnsAll.memo_le (h : LearnsAll m f g) (n : NodeId) : (f.memo n).Le (g.memo n) := by
  induction h with
  | refl => exact .refl _
  | tail _ hlast ih => exact ih.trans (hlast.memo_le n)

/-- Either all that is kept stays as it is, or something is found out. -/
theorem Change.memo_eq_or_learnsAll (h : Change f c g) (hsize : g.size ≤ UInt32.size) :
    (∀ n, g.memo n = f.memo n) ∨ ∃ m, LearnsAll m f g := by
  cases h with
  | refused => exact Or.inl fun _ => rfl
  | grow =>
    rw [size_grow] at hsize
    exact Or.inl fun n => memo_grow hsize n
  | move => exact Or.inl fun n => memo_relocate f _ _ n
  | learn _ hlearns => exact Or.inr ⟨_, hlearns⟩
  | attach _ _ hmemo => exact Or.inl fun n => memo_modify hmemo f _ n

theorem Change.memo_le (h : Change f c g) (hsize : g.size ≤ UInt32.size) (n : NodeId) :
    (f.memo n).Le (g.memo n) := by
  rcases h.memo_eq_or_learnsAll hsize with hmemo | ⟨m, hlearns⟩
  · rw [hmemo]
    exact .refl _
  · exact hlearns.memo_le n

theorem memo_le_runAll {cs : List Command} (hsize : (f.runAll cs).size ≤ UInt32.size)
    (n : NodeId) : (f.memo n).Le ((f.runAll cs).memo n) := by
  induction cs generalizing f with
  | nil => exact .refl _
  | cons c cs ih => exact ((change_step f c).memo_le (size_step_le hsize) n).trans (ih hsize)

/-! ## Kinds and lines never change -/

theorem Change.kind?_eq (h : Change f c g) (hsize : g.size ≤ UInt32.size)
    (hm : f.contains m = true) : g.kind? m = f.kind? m := by
  cases h with
  | refused => rfl
  | grow =>
    rw [size_grow] at hsize
    rw [kind?_grow hsize, if_neg (ne_nextId_of_contains hsize hm)]
  | move => exact kind?_relocate f _ _ m
  | learn _ hlearns => rw [eq_of_skeleton_eq kind?_skeleton hlearns.skeleton_eq]
  | attach _ hbare _ => rw [eq_of_skeleton_eq kind?_skeleton (skeleton_modify_of_bare hbare f _)]

theorem Change.line_eq (h : Change f c g) (hsize : g.size ≤ UInt32.size)
    (hm : f.contains m = true) : g.line m = f.line m := by
  cases h with
  | refused => rfl
  | grow =>
    rw [size_grow] at hsize
    rw [line_grow hsize, if_neg (ne_nextId_of_contains hsize hm)]
  | move => exact line_relocate f _ _ m
  | learn _ hlearns => rw [eq_of_skeleton_eq line_skeleton hlearns.skeleton_eq]
  | attach _ hbare _ => rw [eq_of_skeleton_eq line_skeleton (skeleton_modify_of_bare hbare f _)]

/-! ## Kept values are of the right kind -/

theorem contains_of_isHeading (h : f.isHeading s = true) : f.contains s = true := by
  cases he : f.get? s with
  | none => simp [isHeading, kind?, he] at h
  | some e => exact contains_of_get?_eq_some he

theorem exists_heading_of_isHeading (h : f.isHeading s = true) :
    ∃ name level, f.kind? s = some (.heading name level) := by
  cases hk : f.kind? s with
  | none => simp [isHeading, hk] at h
  | some k =>
    cases k with
    | heading name level => exact ⟨name, level, rfl⟩
    | _ => simp [isHeading, hk, Kind.isHeading, Kind.tag] at h

/-- A root that is found is a page. -/
theorem isPage_of_findRoot (h : f.findRoot n = .ok r) : f.isPage r = true := by
  unfold findRoot at h
  split at h
  next hpage => exact Except.ok.inj h ▸ hpage
  next => cases h

/-- A section that is found is a heading on the same line or an earlier one. -/
theorem isHeading_of_findSection {line : UInt32} (h : f.findSection r line = some s) :
    f.isHeading s = true ∧ f.line s ≤ line := by
  obtain ⟨hmem, hheading⟩ := List.mem_filter.1 (List.mem_of_getLast? h)
  exact ⟨hheading, by simpa using List.mem_takeWhile_imp hmem⟩

/-- What is kept about a node is of the right kind, whether it is still right or not. -/
structure WellKept (f : Forest) (n : NodeId) : Prop where
  /-- The root is a page. -/
  isPage_root : ∀ r, (f.memo n).root = some r → f.isPage r = true
  /-- The section is a heading that does not stand on a later line. -/
  isHeading_heading : ∀ s, (f.memo n).heading = some (some s) →
    f.isHeading s = true ∧ f.line s ≤ f.line n
  /-- A section is kept only with a root. -/
  root_of_heading : (f.memo n).heading ≠ none → (f.memo n).root ≠ none
  /-- A hash is kept only with a root. -/
  root_of_fingerprint : (f.memo n).fingerprint ≠ none → (f.memo n).root ≠ none

theorem wellKept_empty (n : NodeId) : empty.WellKept n := by
  have hmemo : empty.memo n = {} := rfl
  constructor <;> simp [hmemo]

/-- The kinds and lines of the nodes that are there are all that matters about them. -/
theorem WellKept.congr (h : f.WellKept n) (hmemo : g.memo n = f.memo n)
    (hkind : ∀ m, f.contains m = true → g.kind? m = f.kind? m)
    (hline : ∀ m, f.contains m = true → g.line m = f.line m) : g.WellKept n := by
  refine ⟨?_, ?_, ?_, ?_⟩
  · intro r hr
    rw [hmemo] at hr
    have hpage := h.isPage_root r hr
    rwa [isPage, page?, hkind r (contains_of_isPage hpage), ← page?, ← isPage]
  · intro s hs
    rw [hmemo] at hs
    obtain ⟨hheading, hle⟩ := h.isHeading_heading s hs
    have hn : f.contains n = true := contains_of_memo_ne fun hempty => by simp [hempty] at hs
    have hs := contains_of_isHeading hheading
    rw [isHeading, hkind s hs, ← isHeading, hline s hs, hline n hn]
    exact ⟨hheading, hle⟩
  · rw [hmemo]
    exact h.root_of_heading
  · rw [hmemo]
    exact h.root_of_fingerprint

/-- What is found out is of the right kind, even from a root that is no longer right. -/
theorem Learns.wellKept (h : Learns m f g) (hn : f.WellKept n) : g.WellKept n := by
  have hskel := h.skeleton_eq
  have hline : g.line = f.line := eq_of_skeleton_eq line_skeleton hskel
  by_cases hne : n = m
  · subst hne
    have hthere := h.contains
    -- it is enough to look at what is new, since kinds and lines are those of before
    have hpage : ∀ r, f.isPage r = true → g.isPage r = true := fun r hr => by
      rwa [eq_of_skeleton_eq isPage_skeleton hskel]
    have hheading : ∀ s, f.isHeading s = true ∧ f.line s ≤ f.line n →
        g.isHeading s = true ∧ g.line s ≤ g.line n := fun s hs => by
      rwa [eq_of_skeleton_eq isHeading_skeleton hskel, hline]
    cases h with
    | @root r _ hroot =>
      constructor <;> simp only [memo_remember hthere, if_pos]
      · rintro _ ⟨⟩
        exact hpage r (isPage_of_findRoot hroot)
      · exact fun s hs => hheading s (hn.isHeading_heading s hs)
      · simp
      · simp
    | @heading r _ hroot =>
      constructor <;> simp only [memo_remember hthere, if_pos]
      · exact fun r hr => hpage r (hn.isPage_root r hr)
      · intro s hs
        exact hheading s (isHeading_of_findSection (Option.some.inj hs))
      · simp [hroot]
      · simp [hroot]
    | @fingerprint r _ hroot =>
      constructor <;> simp only [memo_remember hthere, if_pos]
      · exact fun r hr => hpage r (hn.isPage_root r hr)
      · exact fun s hs => hheading s (hn.isHeading_heading s hs)
      · simp [hroot]
      · simp [hroot]
  · exact hn.congr (h.memo_of_ne hne)
      (fun k _ => congrFun (eq_of_skeleton_eq kind?_skeleton hskel) k) fun k _ => congrFun hline k

theorem LearnsAll.wellKept (h : LearnsAll m f g) (hn : f.WellKept n) : g.WellKept n := by
  induction h with
  | refl => exact hn
  | tail _ hlast ih => exact hlast.wellKept ih

theorem Change.wellKept (h : Change f c g) (hsize : g.size ≤ UInt32.size) (hn : f.WellKept n) :
    g.WellKept n := by
  rcases h.memo_eq_or_learnsAll hsize with hmemo | ⟨m, hlearns⟩
  · exact hn.congr (hmemo n) (fun _ => h.kind?_eq hsize) fun _ => h.line_eq hsize
  · exact hlearns.wellKept hn

theorem Reachable.wellKept (hf : f.Reachable) (n : NodeId) : f.WellKept n := by
  induction hf with
  | empty => exact wellKept_empty n
  | step c _ hsize ih => exact (change_step _ c).wellKept hsize ih

/-! ## Answers last -/

/-- The questions about a node whose answers are kept. Those in one group ask for the same. -/
def keptQuestions (n : NodeId) : List (List Command) :=
  [[.tryRoot n, .root n], [.enclosingSection n], [.fingerprint n]]

/-- If `c` is answered, then `d` gets the same answer at any time after that. -/
def Lasting (f : Forest) (c d : Command) : Prop :=
  ∀ a cs, f.answer c = .ok a → ((f.step c).runAll cs).size ≤ UInt32.size →
    ((f.step c).runAll cs).answer d = .ok a

/-- The answer to a question that the memo of a node holds. -/
def keptAnswer? (m : Memo) : Command → Option Answer
  | .tryRoot _ => m.root.map .node
  | .root _ => m.root.map .node
  | .enclosingSection _ => m.heading.map .node?
  | .fingerprint _ => m.fingerprint.map .hash
  | _ => none

/-- Once its root is known, something can be kept about a node. -/
theorem memo_remember_of_root {f' : Forest} (h : f.root n = .ok (r, f')) (k : Memo → Memo) :
    (f'.remember n k).memo n = k (f'.memo n) := by
  have hkept := (learnsAll_root h).2
  have hn : f'.contains n = true := contains_of_memo_ne fun hempty => by simp [hempty] at hkept
  rw [memo_remember hn, if_pos rfl]

theorem heading_of_enclosingSection {s : Option NodeId} (h : f.enclosingSection n = .ok (s, g)) :
    (g.memo n).heading = some s := by
  unfold enclosingSection at h
  split at h
  next hkept =>
    cases h
    exact hkept
  next =>
    split at h
    next hroot =>
      cases h
      rw [memo_remember_of_root hroot]
    next => cases h

theorem fingerprint_of_fingerprint {d : UInt64} (h : f.fingerprint n = .ok (d, g)) :
    (g.memo n).fingerprint = some d := by
  unfold Forest.fingerprint at h
  split at h
  next hkept =>
    cases h
    exact hkept
  next =>
    split at h
    next hroot =>
      cases h
      rw [memo_remember_of_root hroot]
    next => cases h

theorem keptAnswer?_mono {m m' : Memo} {a : Answer} (h : m.Le m')
    (hkept : keptAnswer? m c = some a) : keptAnswer? m' c = some a := by
  cases c with
  | tryRoot | root =>
    obtain ⟨r, hr, rfl⟩ := Option.map_eq_some_iff.1 hkept
    exact Option.map_eq_some_iff.2 ⟨r, h.root r hr, rfl⟩
  | enclosingSection =>
    obtain ⟨s, hs, rfl⟩ := Option.map_eq_some_iff.1 hkept
    exact Option.map_eq_some_iff.2 ⟨s, h.heading s hs, rfl⟩
  | fingerprint =>
    obtain ⟨d, hd, rfl⟩ := Option.map_eq_some_iff.1 hkept
    exact Option.map_eq_some_iff.2 ⟨d, h.fingerprint d hd, rfl⟩
  | _ => cases hkept

theorem exists_run_of_answer {a : Answer} (h : f.answer c = .ok a) :
    ∃ o, f.run c = .ok o ∧ o.answer = a := by
  unfold answer at h
  cases hrun : f.run c with
  | ok o =>
    rw [hrun] at h
    exact ⟨o, rfl, Except.ok.inj h⟩
  | error e =>
    rw [hrun] at h
    cases h

theorem contains_of_onNode {k : Except Failure Outcome} {o : Outcome} (h : f.onNode n k = .ok o) :
    f.contains n = true ∧ k = .ok o := by
  unfold onNode at h
  split at h
  next hn => exact ⟨hn, h⟩
  next => cases h

theorem exists_of_asked {α : Type} {ans : α → Answer} {q : Except Refusal (α × Forest)}
    {o : Outcome} (h : asked ans q = .ok o) : ∃ x g, q = .ok (x, g) ∧ o = ⟨ans x, [], g⟩ := by
  unfold asked at h
  split at h
  next x g =>
    cases h
    exact ⟨x, g, rfl, rfl⟩
  next => cases h

theorem cases_of_mem_keptQuestions {group : List Command} (hgroup : group ∈ keptQuestions n)
    (hc : c ∈ group) :
    c = .tryRoot n ∨ c = .root n ∨ c = .enclosingSection n ∨ c = .fingerprint n := by
  have hmem : c ∈ (keptQuestions n).flatten := List.mem_flatten_of_mem hgroup hc
  simpa [keptQuestions] using hmem

/-- The answer to such a question is kept when it is given. -/
theorem keptAnswer?_of_answer {group : List Command} {a : Answer} (hgroup : group ∈ keptQuestions n)
    (hc : c ∈ group) (h : f.answer c = .ok a) :
    f.contains n = true ∧ keptAnswer? ((f.step c).memo n) c = some a := by
  obtain ⟨o, hrun, rfl⟩ := exists_run_of_answer h
  rw [step_of_ok hrun]
  rcases cases_of_mem_keptQuestions hgroup hc with rfl | rfl | rfl | rfl <;>
    obtain ⟨hn, hk⟩ := contains_of_onNode hrun
  · split at hk
    next r g hroot =>
      cases hk
      simp [hn, keptAnswer?, (learnsAll_root hroot).2]
    next => cases hk
  · obtain ⟨r, g, hroot, rfl⟩ := exists_of_asked hk
    simp [hn, keptAnswer?, (learnsAll_root hroot).2]
  · obtain ⟨s, g, hsection, rfl⟩ := exists_of_asked hk
    simp [hn, keptAnswer?, heading_of_enclosingSection hsection]
  · obtain ⟨d, g, hhash, rfl⟩ := exists_of_asked hk
    simp [hn, keptAnswer?, fingerprint_of_fingerprint hhash]

/-- An answer that is kept is given, whatever the forest looks like. -/
theorem answer_of_keptAnswer? {group : List Command} {a : Answer} (hgroup : group ∈ keptQuestions n)
    (hc : c ∈ group) (hn : f.contains n = true) (h : keptAnswer? (f.memo n) c = some a) :
    f.answer c = .ok a := by
  rcases cases_of_mem_keptQuestions hgroup hc with rfl | rfl | rfl | rfl <;>
    obtain ⟨x, hx, rfl⟩ := Option.map_eq_some_iff.1 h
  · simp [answer, run, onNode, hn, Forest.root, hx, Except.map]
  · simp [answer, run, onNode, asked, hn, Forest.root, hx, Except.map]
  · simp [answer, run, onNode, asked, hn, enclosingSection, hx, Except.map]
  · simp [answer, run, onNode, asked, hn, Forest.fingerprint, hx, Except.map]

/-- Questions of one group are answered from the same part of the memo. -/
theorem keptAnswer?_congr {group : List Command} {d : Command} (hgroup : group ∈ keptQuestions n)
    (hc : c ∈ group) (hd : d ∈ group) (m : Memo) : keptAnswer? m c = keptAnswer? m d := by
  simp only [keptQuestions, List.mem_cons, List.not_mem_nil, or_false] at hgroup
  rcases hgroup with rfl | rfl | rfl <;>
    simp only [List.mem_cons, List.not_mem_nil, or_false] at hc hd
  · rcases hc with rfl | rfl <;> rcases hd with rfl | rfl <;> rfl
  · rw [hc, hd]
  · rw [hc, hd]

theorem lasting_of_mem_keptQuestions {group : List Command} {d : Command}
    (hgroup : group ∈ keptQuestions n) (hc : c ∈ group) (hd : d ∈ group) : f.Lasting c d := by
  intro a cs h hsize
  obtain ⟨hn, hkept⟩ := keptAnswer?_of_answer hgroup hc h
  have hlater : keptAnswer? (((f.step c).runAll cs).memo n) d = some a := by
    rw [← keptAnswer?_congr hgroup hc hd]
    exact keptAnswer?_mono (memo_le_runAll hsize n) hkept
  refine answer_of_keptAnswer? hgroup hd ?_ hlater
  -- no call takes the node away
  rw [contains_iff] at hn ⊢
  exact hn.trans_le ((change_step f c).size_le.trans (size_le_size_runAll _ cs))

/-! ## What is made of kept values -/

theorem exists_page_of_isPage (h : f.isPage r = true) : ∃ p, f.page? r = some p :=
  Option.isSome_iff_exists.1 h

/-- The address of a page comes from a page. -/
theorem WellKept.pageAddress_eq (hf : f.WellKept n) {text : String}
    (h : f.pageAddress n = .ok (text, g)) :
    ∃ r p, (g.memo n).root = some r ∧ g.page? r = some p ∧ text = revisionAddress p := by
  unfold pageAddress at h
  split at h
  next r g' hroot =>
    cases h
    obtain ⟨hlearns, hkept⟩ := learnsAll_root hroot
    have hr : (g.memo n).root = some r := by rw [hkept]
    obtain ⟨p, hp⟩ := exists_page_of_isPage ((hlearns.wellKept hf).isPage_root r hr)
    exact ⟨r, p, hr, hp, by rw [hp, Option.map_some, Option.getD_some]⟩
  next => cases h

/-- A hash that is not kept yet is made from the revision of a page. -/
theorem WellKept.fingerprint_eq (hf : f.WellKept n) (hnew : (f.memo n).fingerprint = none)
    {d : UInt64} (h : f.fingerprint n = .ok (d, g)) :
    ∃ r p, (g.memo n).root = some r ∧ g.page? r = some p ∧
      d = Digest.Blake3.hash64 (fingerprintInput p.revision (g.line n) (g.markup n)) := by
  have hgood : g.WellKept n := (learnsAll_fingerprint h).wellKept hf
  unfold Forest.fingerprint at h
  rw [hnew] at h
  dsimp only at h
  split at h
  next r f' hroot =>
    obtain ⟨rfl, hg⟩ := Prod.mk.inj (Except.ok.inj h)
    have hkept := (learnsAll_root hroot).2
    have hroot' : (f'.memo n).root = some r := by rw [hkept]
    have hlast : Learns n f' g := hg ▸ .fingerprint (by rw [hkept]; exact hnew) hroot'
    have hr := (hlast.memo_le n).root r hroot'
    obtain ⟨p, hp⟩ := exists_page_of_isPage (hgood.isPage_root r hr)
    refine ⟨r, p, hr, hp, ?_⟩
    -- keeping the hash changes nothing that it is made from
    rw [← eq_of_skeleton_eq findFingerprint_skeleton hlast.skeleton_eq, findFingerprint,
      revision, hp, Option.map_some, Option.getD_some]
  next => cases h

/-- The part of an address that names a section, with the difference of the lines as it is. -/
theorem addressFragment_eq {name : String} {level : UInt8} {line : UInt32}
    (hkind : f.kind? s = some (.heading name level)) (hline : f.line s ≤ line) :
    ∃ relative, (f.line s).toNat + relative = line.toNat ∧
      f.addressFragment line (some s) =
        "#section=" ++ String.ofList (name.toList.map fun c => if c = ' ' then '_' else c) ++
          "&relative-line=" ++ String.ofList (Nat.toDigits 10 relative) ++
          "&absolute-line=" ++ String.ofList (Nat.toDigits 10 line.toNat) := by
  refine ⟨line.toNat - (f.line s).toNat, Nat.add_sub_of_le (UInt32.le_iff_toNat_le.1 hline), ?_⟩
  rw [addressFragment, hkind]
  rfl

/-- The address of a node comes from a page and, if it names a section, from a heading. -/
theorem WellKept.address_eq (hf : f.WellKept n) {text : String} (h : f.address n = .ok (text, g)) :
    ∃ r p, ∃ heading : Option NodeId, (g.memo n).root = some r ∧ g.page? r = some p ∧
      (g.memo n).heading = some heading ∧
      text = revisionAddress p ++ g.addressFragment (g.line n) heading := by
  unfold address at h
  split at h
  next source f' hsource =>
    split at h
    next heading g' hsection =>
      cases h
      obtain ⟨r, p, hr, hp, rfl⟩ := hf.pageAddress_eq hsource
      have hlearns := learnsAll_enclosingSection hsection
      refine ⟨r, p, heading, (hlearns.memo_le n).root r hr, ?_, heading_of_enclosingSection hsection,
        rfl⟩
      rw [eq_of_skeleton_eq page?_skeleton hlearns.skeleton_eq, hp]
    next => cases h
  next => cases h

/-- In every reachable forest, what is kept is of the right kind, even if nodes have been moved since:
a root is a page, a section a heading on no later line, and nothing is kept without a root. A question
whose answer is kept has the same answer from then on. Addresses and hashes are therefore always made
from a page and, where they name a section, from a heading and the number of lines since. -/
theorem kept_of_reachable (hf : f.Reachable) (n : NodeId) :
    (∀ r, (f.memo n).root = some r → f.contains r = true ∧ f.isPage r = true) ∧
    (∀ s, (f.memo n).heading = some (some s) →
      f.contains s = true ∧ f.isHeading s = true ∧ f.line s ≤ f.line n) ∧
    ((f.memo n).heading ≠ none ∨ (f.memo n).fingerprint ≠ none → (f.memo n).root ≠ none) ∧
    (∀ group ∈ keptQuestions n, ∀ c ∈ group, ∀ d ∈ group, f.Lasting c d) ∧
    (∀ text g, f.pageAddress n = .ok (text, g) →
      ∃ r p, (g.memo n).root = some r ∧ g.page? r = some p ∧ text = revisionAddress p) ∧
    (∀ d g, (f.memo n).fingerprint = none → f.fingerprint n = .ok (d, g) →
      ∃ r p, (g.memo n).root = some r ∧ g.page? r = some p ∧
        d = Digest.Blake3.hash64 (fingerprintInput p.revision (g.line n) (g.markup n))) ∧
    (∀ text g, f.address n = .ok (text, g) →
      ∃ r p, ∃ heading : Option NodeId, (g.memo n).root = some r ∧ g.page? r = some p ∧
        (g.memo n).heading = some heading ∧
        text = revisionAddress p ++ g.addressFragment (g.line n) heading ∧
        ∀ s, heading = some s → ∃ name level relative, g.kind? s = some (.heading name level) ∧
          (g.line s).toNat + relative = (g.line n).toNat ∧
          g.addressFragment (g.line n) heading =
            "#section=" ++ String.ofList (name.toList.map fun c => if c = ' ' then '_' else c) ++
              "&relative-line=" ++ String.ofList (Nat.toDigits 10 relative) ++
              "&absolute-line=" ++ String.ofList (Nat.toDigits 10 (g.line n).toNat)) := by
  have hkept := hf.wellKept n
  refine ⟨?_, ?_, ?_, ?_, ?_, ?_, ?_⟩
  · intro r hr
    have hpage := hkept.isPage_root r hr
    exact ⟨contains_of_isPage hpage, hpage⟩
  · intro s hs
    obtain ⟨hheading, hle⟩ := hkept.isHeading_heading s hs
    exact ⟨contains_of_isHeading hheading, hheading, hle⟩
  · rintro (h | h)
    · exact hkept.root_of_heading h
    · exact hkept.root_of_fingerprint h
  · intro group hgroup c hc d hd
    exact lasting_of_mem_keptQuestions hgroup hc hd
  · intro text g h
    exact hkept.pageAddress_eq h
  · intro d g hnew h
    exact hkept.fingerprint_eq hnew h
  · intro text g h
    obtain ⟨r, p, heading, hr, hp, hheading, htext⟩ := hkept.address_eq h
    refine ⟨r, p, heading, hr, hp, hheading, htext, ?_⟩
    rintro s rfl
    obtain ⟨his, hle⟩ := ((learnsAll_address h).wellKept hkept).isHeading_heading s hheading
    obtain ⟨name, level, hkind⟩ := exists_heading_of_isHeading his
    obtain ⟨relative, hrelative, hfragment⟩ := addressFragment_eq hkind hle
    exact ⟨name, level, relative, hkind, hrelative, hfragment⟩

/-- A text whose section is known is moved to another page. -/
def sampleStale : List Command :=
  sampleBuild ++ [.enclosingSection ⟨1⟩, .addPage ⟨.article "Q", 2, 200⟩ [], .move ⟨1⟩ ⟨4⟩]

theorem kept_of_reachable_sampleStale :
    (empty.runAll sampleStale).findRoot ⟨1⟩ = .ok ⟨4⟩ ∧
    (empty.runAll sampleStale).isPage ⟨3⟩ = true ∧
    (empty.runAll sampleStale).line ⟨0⟩ ≤ (empty.runAll sampleStale).line ⟨1⟩ ∧
    (((empty.runAll sampleStale).step (.root ⟨1⟩)).runAll [.move ⟨1⟩ ⟨2⟩]).answer (.tryRoot ⟨1⟩) =
      .ok (.node ⟨3⟩) := by
  have hreach : (empty.runAll sampleStale).Reachable := .runAll .empty _ (by decide +kernel)
  have hroot : ((empty.runAll sampleStale).memo ⟨1⟩).root = some ⟨3⟩ := by decide +kernel
  have hheading : ((empty.runAll sampleStale).memo ⟨1⟩).heading = some (some ⟨0⟩) := by
    decide +kernel
  obtain ⟨hpage, hsection, -, hlasting, -⟩ := kept_of_reachable hreach ⟨1⟩
  refine ⟨by decide +kernel, (hpage _ hroot).2, (hsection _ hheading).2.2, ?_⟩
  exact hlasting [.tryRoot ⟨1⟩, .root ⟨1⟩] (by simp [keptQuestions]) (.root ⟨1⟩) (by simp)
    (.tryRoot ⟨1⟩) (by simp) _ _ (by decide +kernel) (by decide +kernel)

end Forest

end MarkupForest
