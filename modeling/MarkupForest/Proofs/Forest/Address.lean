import MarkupForest.Proofs.Forest.PageAddress
import MarkupForest.Proofs.Forest.Pageless

/-!
# Addresses of nodes

The address of a node is that of its page and a fragment that says where on the page the node is. A
fragment has one of three forms: it names a section and the line of the node within the section and
on the page, it has the line on the page alone, or it is empty. The name of a section is arbitrary
text and stands there as it is, so it can look like the rest of a fragment. The line of the node on
the page can be read off nevertheless, since it comes last and there is no equals sign in a number.

The line within a section is a difference that would not go below zero. That it is never cut off is
a matter of what is kept: a section is a heading on no later line when it is found, and it stays one
wherever the heading and the node are moved.

## Main results

* `Forest.addressFragment_eq_nil_or`: a fragment is empty or ends in the line;
* `Forest.line_eq_of_addressFragment_eq`: a fragment tells the line;
* `Forest.WellKept.answer_address`: what an address is made of;
* `Forest.lines_of_addresses`: the addresses of nodes of reachable forests.
-/

namespace MarkupForest.Forest

variable {f g : Forest} {n r : NodeId}

/-! ## Reading the line off a fragment -/

/-- A fragment ends in the line after an equals sign, unless there is no section and no line. -/
theorem addressFragment_eq_nil_or (f : Forest) (line : UInt32) (heading : Option NodeId) :
    (f.addressFragment line heading).toList = [] ∧ line = 0 ∨
      ∃ start, (f.addressFragment line heading).toList =
        start ++ '=' :: Json.digits line.toNat := by
  have hend : ∀ s : String,
      (s ++ "&absolute-line=" ++ String.ofList (Json.digits line.toNat)).toList =
        (s.toList ++ "&absolute-line".toList) ++ '=' :: Json.digits line.toNat := by simp
  cases heading with
  | some s => exact .inr ⟨_, hend _⟩
  | none =>
    rw [addressFragment]
    split
    next hzero => exact .inl ⟨rfl, hzero⟩
    next => exact .inr ⟨"#absolute-line".toList, by simp [Json.digits]⟩

/-- Whatever section it names, a fragment tells the line. -/
theorem line_eq_of_addressFragment_eq {line line' : UInt32} {heading heading' : Option NodeId}
    (h : f.addressFragment line heading = g.addressFragment line' heading') : line = line' := by
  have hend := f.addressFragment_eq_nil_or line heading
  rw [h] at hend
  rcases hend with ⟨hnil, rfl⟩ | ⟨start, hstart⟩ <;>
    rcases g.addressFragment_eq_nil_or line' heading' with ⟨hnil', rfl⟩ | ⟨start', hstart'⟩
  · rfl
  · simp [hnil] at hstart'
  · simp [hnil'] at hstart
  · obtain ⟨-, hdigits⟩ := split_at_last (Json.equals_not_mem_digits _)
      (Json.equals_not_mem_digits _) (hstart.symm.trans hstart')
    exact UInt32.toNat_inj.1 (Int.ofNat_inj.1 (Json.digits_injective hdigits))

/-! ## What an address is made of -/

/-- The section is the same whether or not the page has been asked for before. -/
theorem WellKept.enclosingSection_of_root (hf : f.WellKept n) (hroot : f.root n = .ok (r, g)) :
    g.enclosingSection n = f.enclosingSection n := by
  cases hkept : (f.memo n).heading with
  | some s =>
    -- with the section the page is kept as well, so asking for the page has changed nothing
    obtain ⟨r', hr'⟩ := root_of_kept_ne_none (hf.root_of_heading (by simp [hkept]))
    obtain ⟨-, rfl⟩ := Prod.mk.inj (Except.ok.inj (hroot.symm.trans hr'))
    rfl
  | none =>
    have hmemo := (learnsAll_root hroot).2
    have hagain : g.root n = .ok (r, g) := root_of_kept (by rw [hmemo])
    have hnew : (g.memo n).heading = none := by rw [hmemo, hkept]
    simp only [enclosingSection, hkept, hnew, hroot, hagain]

/-- The section that is given for a node is a heading on no later line, even if it has been kept
from earlier. -/
theorem WellKept.isHeading_of_enclosingSection (hf : f.WellKept n) {s : NodeId}
    (h : f.enclosingSection n = .ok (some s, g)) : f.isHeading s = true ∧ f.line s ≤ f.line n := by
  have hlearns := learnsAll_enclosingSection h
  have hheading := (hlearns.wellKept hf).isHeading_heading s (heading_of_enclosingSection h)
  have hskel := hlearns.skeleton_eq
  rwa [eq_of_skeleton_eq isHeading_skeleton hskel,
    eq_of_skeleton_eq line_skeleton hskel] at hheading

/-- The address of a node that belongs to a page is made from the addresses of the page and a
fragment for the section that is given for the node. -/
theorem WellKept.answer_address (hf : f.WellKept n) (hn : f.contains n = true)
    (hroot : f.root n = .ok (r, g)) :
    ∃ source heading, f.answer (.pageAddress n) = .ok (.text source) ∧
      f.answer (.enclosingSection n) = .ok (.node? heading) ∧
      f.answer (.address n) = .ok (.text (source ++ f.addressFragment (f.line n) heading)) ∧
      ∀ s, heading = some s → f.isHeading s = true ∧ f.line s ≤ f.line n := by
  obtain ⟨⟨heading, g'⟩, hsection⟩ := hf.failAlike_enclosingSection.exists_ok hroot
  have hsource : f.pageAddress n = .ok (((g.page? r).map revisionAddress).getD "", g) := by
    rw [pageAddress, hroot]
  -- the fragment is made after the section has been kept, which changes no name and no line
  have hfragment : g'.addressFragment (g'.line n) heading =
      f.addressFragment (f.line n) heading := by
    have hskel := (learnsAll_enclosingSection hsection).skeleton_eq
    rw [eq_of_skeleton_eq line_skeleton hskel, eq_of_skeleton_eq addressFragment_skeleton hskel]
  have haddress : f.address n = .ok
      (((g.page? r).map revisionAddress).getD "" ++ f.addressFragment (f.line n) heading, g') := by
    simp only [address, hsource, hf.enclosingSection_of_root hroot, hsection, hfragment]
  refine ⟨((g.page? r).map revisionAddress).getD "", heading, ?_, ?_, ?_, ?_⟩
  · rw [answer, run, answer_asked, hsource]
    exact answerAbout_of_ok hn rfl
  · rw [answer, run, answer_asked, hsection]
    exact answerAbout_of_ok hn rfl
  · rw [answer, run, answer_asked, haddress]
    exact answerAbout_of_ok hn rfl
  · rintro s rfl
    exact hf.isHeading_of_enclosingSection hsection

/-- An address that is given starts with the address of the page. -/
theorem WellKept.exists_fragment (hf : f.WellKept n) {source address : String}
    (hsource : f.answer (.pageAddress n) = .ok (.text source))
    (haddress : f.answer (.address n) = .ok (.text address)) :
    ∃ heading, address = source ++ f.addressFragment (f.line n) heading := by
  obtain ⟨o, hrun, -⟩ := exists_run_of_answer hsource
  obtain ⟨hn, hasked⟩ := contains_of_onNode hrun
  obtain ⟨x, g, hpage, -⟩ := exists_of_asked hasked
  cases hroot : f.root n with
  | error why =>
    rw [(failAlike_pageAddress f n why).1 hroot] at hpage
    cases hpage
  | ok y =>
    obtain ⟨source', heading, hsource', -, haddress', -⟩ := hf.answer_address hn hroot
    rw [hsource] at hsource'
    rw [haddress] at haddress'
    cases hsource'
    cases haddress'
    exact ⟨heading, rfl⟩

/-- If the page of a node cannot be given, then neither can the addresses made from it. -/
theorem WellKept.answer_eq_error (hf : f.WellKept n) (hn : f.contains n = true) {why : Refusal}
    (hroot : f.root n = .error why) :
    f.answer (.tryRoot n) = .error (.refused why) ∧
      f.answer (.pageAddress n) = .error (.noPage why) ∧
      f.answer (.address n) = .error (.noPage why) := by
  have hsource : f.pageAddress n = .error why := (failAlike_pageAddress f n why).1 hroot
  have haddress : f.address n = .error why := (hf.failAlike_address why).1 hroot
  simp [answer, run, onNode, hn, asked, hroot, hsource, haddress, Except.map]

/-! ## Addresses of the nodes of reachable forests -/

/-- In a reachable forest, a node has an address exactly if its page has one, and that is how its
address starts. If the node stands in a section, then its address ends in the number of lines since
the heading of the section, which is not on a later line, and in the line of the node; this holds
whatever the name of the section looks like and wherever nodes have been moved since the page and
the section were first asked for. If two nodes, of the same reachable forest or of two, have the
same address and so have their pages, then they stand on the same line. -/
theorem lines_of_addresses (hf : f.Reachable) (hg : g.Reachable) :
    (∀ n, f.contains n = true →
      (∃ why, f.answer (.tryRoot n) = .error (.refused why) ∧
        f.answer (.pageAddress n) = .error (.noPage why) ∧
        f.answer (.address n) = .error (.noPage why)) ∨
      ∃ source heading fragment, f.answer (.pageAddress n) = .ok (.text source) ∧
        f.answer (.enclosingSection n) = .ok (.node? heading) ∧
        f.answer (.address n) = .ok (.text (source ++ fragment)) ∧
        ∀ s, heading = some s → ∃ name level relative, f.kind? s = some (.heading name level) ∧
          (f.line s).toNat + relative = (f.line n).toNat ∧
          fragment =
            "#section=" ++ String.ofList (name.toList.map fun c => if c = ' ' then '_' else c) ++
              "&relative-line=" ++ String.ofList (Nat.toDigits 10 relative) ++
              "&absolute-line=" ++ String.ofList (Nat.toDigits 10 (f.line n).toNat)) ∧
    ∀ a b source address, f.answer (.pageAddress a) = .ok (.text source) →
      g.answer (.pageAddress b) = .ok (.text source) →
      f.answer (.address a) = .ok (.text address) → g.answer (.address b) = .ok (.text address) →
      f.line a = g.line b := by
  refine ⟨fun n hn => ?_, fun a b source address ha hb ha' hb' => ?_⟩
  · have hkept := hf.wellKept n
    cases hroot : f.root n with
    | error why => exact .inl ⟨why, hkept.answer_eq_error hn hroot⟩
    | ok x =>
      obtain ⟨source, heading, hsource, hsection, haddress, hheading⟩ :=
        hkept.answer_address hn hroot
      refine .inr ⟨source, heading, _, hsource, hsection, haddress, ?_⟩
      rintro s rfl
      obtain ⟨his, hle⟩ := hheading s rfl
      obtain ⟨name, level, hkind⟩ := exists_heading_of_isHeading his
      obtain ⟨relative, hrelative, hfragment⟩ := addressFragment_eq hkind hle
      exact ⟨name, level, relative, hkind, hrelative, hfragment⟩
  · obtain ⟨heading, rfl⟩ := (hf.wellKept a).exists_fragment ha ha'
    obtain ⟨heading', haddress⟩ := (hg.wellKept b).exists_fragment hb hb'
    exact line_eq_of_addressFragment_eq ((String.append_right_inj source).1 haddress)

/-- Two texts on the same line of a section whose name looks like the end of an address. One of them
is moved to another page after it has been asked for its section. -/
def lookalikeSection : List Command :=
  [.addLeaf (.heading "A&relative-line=0&absolute-line=7" 2) 1, .addLeaf (.text "a") 3,
    .addLeaf (.text "b") 3, .addPage ⟨.article "P", 1, 100⟩ [⟨0⟩, ⟨1⟩, ⟨2⟩], .enclosingSection ⟨1⟩,
    .addPage ⟨.article "Q", 2, 200⟩ [], .move ⟨1⟩ ⟨4⟩]

theorem lines_of_addresses_lookalikeSection :
    (empty.runAll lookalikeSection).findRoot ⟨1⟩ = .ok ⟨4⟩ ∧
    (∃ source name, (empty.runAll lookalikeSection).answer (.pageAddress ⟨1⟩) = .ok (.text source) ∧
      (empty.runAll lookalikeSection).answer (.address ⟨1⟩) =
        .ok (.text (source ++ ("#section=" ++ name ++
          "&relative-line=" ++ String.ofList (Nat.toDigits 10 2) ++
          "&absolute-line=" ++ String.ofList (Nat.toDigits 10 3))))) ∧
    (empty.runAll lookalikeSection).line ⟨1⟩ = (empty.runAll lookalikeSection).line ⟨2⟩ := by
  have hreach : (empty.runAll lookalikeSection).Reachable := .runAll .empty _ (by decide +kernel)
  have hline : (empty.runAll lookalikeSection).line ⟨1⟩ = 3 := by decide +kernel
  obtain ⟨hends, hlines⟩ := lines_of_addresses hreach hreach
  refine ⟨by decide +kernel, ?_, ?_⟩
  · rcases hends ⟨1⟩ (by decide +kernel) with
      ⟨why, hwhy, -⟩ | ⟨source, heading, fragment, hsource, hsection, haddress, hfragment⟩
    · rw [show (empty.runAll lookalikeSection).answer (.tryRoot ⟨1⟩) = .ok (.node ⟨3⟩) by
        decide +kernel] at hwhy
      cases hwhy
    · rw [show (empty.runAll lookalikeSection).answer (.enclosingSection ⟨1⟩) =
        .ok (.node? (some ⟨0⟩)) by decide +kernel] at hsection
      cases hsection
      obtain ⟨name, level, relative, -, hrelative, rfl⟩ := hfragment ⟨0⟩ rfl
      rw [hline, show (empty.runAll lookalikeSection).line ⟨0⟩ = 1 by decide +kernel] at hrelative
      rw [hline] at haddress
      obtain rfl : relative = 2 := Nat.add_left_cancel (n := 1) hrelative
      exact ⟨source, _, hsource, haddress⟩
  · exact hlines ⟨1⟩ ⟨2⟩ "http://en.wikipedia.org/wiki/P?oldid=100&ns=0"
      ("http://en.wikipedia.org/wiki/P?oldid=100&ns=0" ++
        "#section=A&relative-line=0&absolute-line=7&relative-line=2&absolute-line=3")
      (by decide +kernel) (by decide +kernel) (by decide +kernel) (by decide +kernel)

end MarkupForest.Forest
