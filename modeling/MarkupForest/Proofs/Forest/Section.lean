import MarkupForest.Proofs.Forest.Kept
import Mathlib.Data.List.TakeWhile

/-!
# The section a node stands in

The section of a node is looked for among the children of its page alone, however far below the page
the node is. The search goes through the children in order and ends at the first one on a later line.
What comes behind that child is not looked at, even if it is on an earlier line again.

If the children of a page are in the order of their lines, then nothing on an earlier line comes
behind a later one, and the sections divide the lines of the page among themselves: each has the lines
from its own up to that of the next.

## Main definitions

* `LastWith`: the last member of a list with a property, if there is one;
* `IsLongestPrefix`: the longest beginning of a list all of whose members have a property.

## Main results

* `Forest.findSection_of_sorted`: the search among children in the order of their lines;
* `Forest.findSection_eq_some_of_sorted`: the lines that belong to a section;
* `Forest.sections_of_reachable`: the sections of the nodes of reachable forests.
-/

namespace MarkupForest

section Lists

variable {α : Type} {p : α → Prop} {l : List α}

/-- The last member of a list with a property, or that there is none. -/
inductive LastWith (p : α → Prop) (l : List α) : Option α → Prop
  /-- No member has the property. -/
  | none (h : ∀ a ∈ l, ¬p a) : LastWith p l none
  /-- A member has it, and none behind it does. -/
  | some {before after : List α} {a : α} (hl : l = before ++ a :: after) (ha : p a)
      (hafter : ∀ b ∈ after, ¬p b) : LastWith p l (some a)

theorem lastWith_getLast?_filter [DecidablePred p] (l : List α) :
    LastWith p l (l.filter p).getLast? := by
  cases h : (l.filter p).getLast? with
  | none =>
    rw [List.getLast?_eq_none_iff, List.filter_eq_nil_iff] at h
    exact .none fun a ha => by simpa using h a ha
  | some a =>
    obtain ⟨firsts, hfirsts⟩ := List.getLast?_eq_some_iff.1 h
    obtain ⟨before, rest, rfl, -, hrest⟩ := List.filter_eq_append_iff.1 hfirsts
    obtain ⟨skipped, after, rfl, -, ha, hafter⟩ := List.filter_eq_cons_iff.1 hrest
    rw [List.filter_eq_nil_iff] at hafter
    refine .some (List.append_assoc before skipped _).symm (by simpa using ha) fun b hb => ?_
    simpa using hafter b hb

/-- The longest beginning of a list all of whose members have a property. -/
structure IsLongestPrefix (p : α → Prop) (l start : List α) : Prop where
  /-- The list begins with it. -/
  isPrefix : start <+: l
  /-- Its members have the property. -/
  forall_mem : ∀ a ∈ start, p a
  /-- Every other such beginning is a beginning of this one. -/
  longest : ∀ other, other <+: l → (∀ a ∈ other, p a) → other <+: start

theorem isLongestPrefix_takeWhile [DecidablePred p] (l : List α) :
    IsLongestPrefix p l (l.takeWhile p) where
  isPrefix := List.takeWhile_prefix _
  forall_mem a ha := by simpa using List.mem_takeWhile_imp ha
  longest other hother hmem := by
    obtain ⟨rest, rfl⟩ := hother
    rw [List.takeWhile_append_of_pos fun a ha => by simpa using hmem a ha]
    exact List.prefix_append _ _

end Lists

namespace Forest

variable {f g : Forest} {n r x : NodeId} {line : UInt32}

/-! ## Looking among the children of a page -/

/-- The children of a page are in the order of their lines; several may be on the same line. -/
def InLineOrder (f : Forest) (r : NodeId) : Prop :=
  (f.children r).Pairwise fun c d => f.line c ≤ f.line d

/-- Among children in the order of their lines, those up to the first one on a later line are all
that are not on a later line. -/
theorem InLineOrder.takeWhile_eq (h : f.InLineOrder r) (line : UInt32) :
    (f.children r).takeWhile (fun c => f.line c ≤ line) =
      (f.children r).filter fun c => f.line c ≤ line := by
  apply takeWhile_eq_filter
  refine List.Pairwise.imp (fun {c d} hcd hd => ?_) h
  rw [decide_eq_true_iff] at hd ⊢
  exact UInt32.le_trans hcd hd

theorem findSection_of_sorted (h : f.InLineOrder r) (line : UInt32) :
    f.findSection r line =
      ((f.children r).filter fun c => f.isHeading c = true ∧ f.line c ≤ line).getLast? := by
  rw [findSection, h.takeWhile_eq, List.filter_filter]
  simp only [Bool.decide_and, Bool.decide_eq_true]

/-- A section has the lines from its own up to that of the next section. -/
theorem findSection_eq_some_of_sorted (h : f.InLineOrder r) {before after : List NodeId}
    (hsections : (f.children r).filter f.isHeading = before ++ x :: after) (hx : f.line x ≤ line)
    (hnext : ∀ y, after.head? = some y → line < f.line y) : f.findSection r line = some x := by
  -- the sections are in the order of their lines too, so all behind the next one are too late
  have hafter : after.filter (fun c => f.line c ≤ line) = [] := by
    have hsorted : after.Pairwise fun c d => f.line c ≤ f.line d := by
      have hall : (before ++ x :: after).Pairwise fun c d => f.line c ≤ f.line d := by
        rw [← hsections]
        exact h.filter _
      exact (List.pairwise_cons.1 (List.pairwise_append.1 hall).2.1).2
    rw [List.filter_eq_nil_iff]
    intro c hc
    rw [decide_eq_true_iff, UInt32.not_le]
    cases after with
    | nil => exact absurd hc List.not_mem_nil
    | cons y ys =>
      have hy := hnext y rfl
      rcases List.mem_cons.1 hc with rfl | hc
      · exact hy
      · exact UInt32.lt_of_lt_of_le hy ((List.pairwise_cons.1 hsorted).1 c hc)
  rw [findSection, h.takeWhile_eq, List.filter_comm, hsections, List.filter_append,
    List.filter_cons_of_pos (by simpa using hx), hafter, List.getLast?_append]
  rfl

/-! ## Asking for the section of a node -/

/-- The page of a node is known if it is asked for in a way that may fail, and does not. -/
theorem exists_root_of_answer (h : f.answer (.tryRoot n) = .ok (.node r)) :
    f.contains n = true ∧ ∃ g, f.root n = .ok (r, g) := by
  obtain ⟨o, hrun, ho⟩ := exists_run_of_answer h
  obtain ⟨hn, hk⟩ := contains_of_onNode hrun
  split at hk
  next r' g hroot =>
    cases hk
    cases ho
    exact ⟨hn, g, hroot⟩
  next => cases hk

/-- A section that is not kept yet is looked for on the page of the node. -/
theorem enclosingSection_of_root (hnew : (f.memo n).heading = none) (hroot : f.root n = .ok (r, g)) :
    (f.enclosingSection n).map Prod.fst = .ok (f.findSection r (f.line n)) := by
  -- asking for the page may have kept it, which changes neither children nor lines
  have hskel := (learnsAll_root hroot).1.skeleton_eq
  have hsection : g.findSection r (g.line n) = f.findSection r (f.line n) := by
    rw [eq_of_skeleton_eq line_skeleton hskel, eq_of_skeleton_eq findSection_skeleton hskel]
  simp only [enclosingSection, hnew, hroot, Except.map, hsection]

/-- The page that is given for a node is a page, even if it has been kept from earlier. -/
theorem WellKept.isPage_of_root (hf : f.WellKept n) (hroot : f.root n = .ok (r, g)) :
    f.isPage r = true := by
  obtain ⟨hlearns, hkept⟩ := learnsAll_root hroot
  have hpage : g.isPage r = true := (hlearns.wellKept hf).isPage_root r (by rw [hkept])
  rwa [eq_of_skeleton_eq isPage_skeleton hlearns.skeleton_eq] at hpage

/-- In a reachable forest, ask for the section of a node about which no section is kept and whose
page is known. The answer is the last heading in the longest beginning of the children of the page
that has no child on a later line than the node, or that there is none. If the children of the page
are in the order of their lines, then it is the last heading of all children that are not on a later
line; the node then stands in a section whenever its line is not before that of the section, and
before that of the next one if there is one. -/
theorem sections_of_reachable (hf : f.Reachable) (hnew : (f.memo n).heading = none)
    (hroot : f.answer (.tryRoot n) = .ok (.node r)) :
    f.isPage r = true ∧
    ∃ s, f.answer (.enclosingSection n) = .ok (.node? s) ∧
      (∃ start, IsLongestPrefix (fun c => f.line c ≤ f.line n) (f.children r) start ∧
        LastWith (fun c => f.isHeading c = true) start s) ∧
      (f.InLineOrder r →
        LastWith (fun c => f.isHeading c = true ∧ f.line c ≤ f.line n) (f.children r) s ∧
        ∀ before x after, (f.children r).filter f.isHeading = before ++ x :: after →
          f.line x ≤ f.line n → (∀ y, after.head? = some y → f.line n < f.line y) →
          s = some x) := by
  obtain ⟨hn, g, hpage⟩ := exists_root_of_answer hroot
  refine ⟨(hf.wellKept n).isPage_of_root hpage, f.findSection r (f.line n), ?_,
    ⟨_, isLongestPrefix_takeWhile _, ?_⟩, fun hsorted => ⟨?_, ?_⟩⟩
  · rw [answer, run, answer_asked]
    exact answerAbout_of_ok hn (enclosingSection_of_root hnew hpage)
  · have hlast := lastWith_getLast?_filter (p := fun c => f.isHeading c = true)
      ((f.children r).takeWhile fun c => f.line c ≤ f.line n)
    simpa only [findSection, Bool.decide_eq_true] using hlast
  · rw [findSection_of_sorted hsorted]
    exact lastWith_getLast?_filter _
  · intro before x after hsections hx hnext
    exact findSection_eq_some_of_sorted hsorted hsections hx hnext

/-- A page with two headings and a text in a cell below the second one. -/
def sampleSections : List Command :=
  [.addLeaf (.heading "A" 2) 1, .addLeaf (.heading "B" 2) 5, .addLeaf (.text "b") 6,
    .addParent .tableCell 6 [⟨2⟩], .addPage ⟨.article "P", 1, 100⟩ [⟨0⟩, ⟨1⟩, ⟨3⟩], .root ⟨2⟩]

theorem sections_of_reachable_sampleSections :
    (empty.runAll sampleSections).parent? ⟨2⟩ = some ⟨3⟩ ∧
    (empty.runAll sampleSections).answer (.enclosingSection ⟨2⟩) = .ok (.node? (some ⟨1⟩)) := by
  have hreach : (empty.runAll sampleSections).Reachable := .runAll .empty _ (by decide +kernel)
  obtain ⟨-, s, hanswer, -, hsorted⟩ :=
    sections_of_reachable hreach (n := ⟨2⟩) (r := ⟨4⟩) (by decide +kernel) (by decide +kernel)
  have hs : s = some ⟨1⟩ := by
    refine (hsorted ?_).2 [⟨0⟩] ⟨1⟩ [] (by decide +kernel) (by decide +kernel) (by simp)
    unfold InLineOrder
    decide +kernel
  rw [hanswer, hs]
  exact ⟨by decide +kernel, rfl⟩

end Forest

end MarkupForest
