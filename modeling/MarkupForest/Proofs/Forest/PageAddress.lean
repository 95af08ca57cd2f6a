import MarkupForest.Proofs.Forest.Section
import MarkupForest.Proofs.Json.ReadBack
import MarkupForest.Proofs.Lists

/-!
# Addresses of revisions

The address of a stored revision names the page by its title, which is arbitrary text and stands
there as it is. So a title can look like the end of the address of another page, or like the word of
a namespace before another title. The address can be taken apart nevertheless, from its end: it ends
in two numbers, and there is no equals sign in a number. The second one is that of the namespace,
and so tells whether a word stands before the title.

## Main results

* `Json.digits_injective` and `Json.equals_not_mem_digits`: numbers in addresses;
* `Forest.revisionAddress_eq_iff`: what the address of a stored revision says;
* `Forest.addresses_of_reachable`: the addresses of nodes of reachable forests.
-/

namespace MarkupForest

/-! ## Numbers in addresses -/

namespace Json

/-- Different numbers are written differently. -/
theorem digits_injective : Function.Injective digits := by
  intro m n h
  have hm := scanNumber_digits m endsNumber_nil
  rw [h, scanNumber_digits n endsNumber_nil] at hm
  exact numeral_injective (Prod.mk.inj (Except.ok.inj hm)).1.symm

theorem equals_not_mem_digits (n : Int) : '=' ∉ digits n := by
  have hnat : ∀ k, '=' ∉ Nat.toDigits 10 k := by
    intro k hk
    have hdigit : '='.isDigit = true := Nat.isDigit_of_mem_toDigits (by omega) (by omega) hk
    cases hdigit
  cases n with
  | ofNat n => exact hnat n
  | negSucc n => simp [digits, hnat]

end Json

/-! ## Taking an address apart -/

theorem Namespace.code_inj {n m : Namespace} : n.code = m.code ↔ n = m := by
  cases n
  cases m
  rw [mk.injEq]

/-- Within a namespace, the word before a title takes nothing from it. -/
theorem Namespace.qualify_inj {n : Namespace} {s t : String} :
    n.qualify s = n.qualify t ↔ s = t := by
  rw [qualify, qualify]
  cases n.label? with
  | none => rfl
  | some label => exact String.append_right_inj _

/-- Within a language and a namespace, an address tells the title with underscores for spaces. -/
theorem Title.address_eq_iff {t u : Title} (hlanguage : t.language = u.language)
    (hns : t.ns = u.ns) :
    t.address = u.address ↔
      (t.name.toList.map fun c => if c = ' ' then '_' else c) =
        u.name.toList.map fun c => if c = ' ' then '_' else c := by
  rw [address, address, hlanguage, String.append_right_inj, qualifiedPath, qualifiedPath, hns,
    Namespace.qualify_inj, path, path, String.ofList_inj]

namespace Forest

/-- The address of a stored revision, with a mark before each of the two numbers that it ends in. -/
theorem toList_revisionAddress {p : Page} (hp : p.isStored = true) :
    (revisionAddress p).toList =
      ((p.title.address.toList ++ "?oldid".toList) ++
          '=' :: (Json.digits p.revision.toInt ++ "&ns".toList)) ++
        '=' :: Json.digits p.title.ns.code.toInt := by
  simp [revisionAddress, hp, Namespace.text]

/-- The addresses of two stored revisions in the same language are the same exactly if the
revisions, the namespaces and, with underscores for spaces, the titles are. -/
theorem revisionAddress_eq_iff {p q : Page} (hp : p.isStored = true) (hq : q.isStored = true)
    (hlanguage : p.title.language = q.title.language) :
    revisionAddress p = revisionAddress q ↔
      p.revision = q.revision ∧ p.title.ns = q.title.ns ∧
        (p.title.name.toList.map fun c => if c = ' ' then '_' else c) =
          q.title.name.toList.map fun c => if c = ' ' then '_' else c := by
  constructor
  · intro h
    have hlists := congrArg String.toList h
    rw [toList_revisionAddress hp, toList_revisionAddress hq] at hlists
    -- the number of the namespace comes off first, then that of the revision
    obtain ⟨hrest, hns⟩ := split_at_last (Json.equals_not_mem_digits _)
      (Json.equals_not_mem_digits _) hlists
    have hend : ∀ n : Int, '=' ∉ Json.digits n ++ "&ns".toList := fun n => by
      simp [Json.equals_not_mem_digits]
    obtain ⟨haddress, hrevision⟩ := split_at_last (hend _) (hend _) hrest
    have hspace : p.title.ns = q.title.ns :=
      Namespace.code_inj.1 (Int32.toInt_inj.1 (Json.digits_injective hns))
    refine ⟨Int64.toInt_inj.1 (Json.digits_injective (List.append_cancel_right hrevision)), hspace,
      ?_⟩
    rw [← Title.address_eq_iff hlanguage hspace]
    exact String.toList_inj.1 (List.append_cancel_right haddress)
  · rintro ⟨hrevision, hspace, hname⟩
    have haddress := (Title.address_eq_iff hlanguage hspace).2 hname
    rw [revisionAddress, revisionAddress, if_pos hp, if_pos hq, haddress, hrevision, hspace]

/-! ## Addresses of the pages of nodes -/

variable {f g : Forest} {a b n q r : NodeId}

theorem kind?_of_page? {p : Page} (h : f.page? r = some p) : f.kind? r = some (.page p) := by
  obtain ⟨kind, hkind, hpage⟩ := Option.bind_eq_some_iff.1 h
  cases kind with
  | page p' => rw [hkind, Option.some.inj hpage]
  | _ => cases hpage

/-- The address given for a node is that of the page that is given as its root. -/
theorem WellKept.answer_pageAddress (hf : f.WellKept n)
    (hroot : f.answer (.tryRoot n) = .ok (.node r)) :
    ∃ p, f.kind? r = some (.page p) ∧
      f.answer (.pageAddress n) = .ok (.text (revisionAddress p)) := by
  obtain ⟨hn, g, hr⟩ := exists_root_of_answer hroot
  obtain ⟨p, hp⟩ := exists_page_of_isPage (hf.isPage_of_root hr)
  -- the page is looked at after the root has been kept, which does not change it
  have hafter : g.page? r = some p := by
    rw [eq_of_skeleton_eq page?_skeleton (learnsAll_root hr).1.skeleton_eq, hp]
  refine ⟨p, kind?_of_page? hp, ?_⟩
  rw [answer, run, onNode, if_pos hn, pageAddress, hr]
  simp only [asked, hafter, Option.map_some, Option.getD_some, Except.map]

/-- Every node of a reachable forest that belongs to a page has an address. For two nodes of two
reachable forests, if the titles of their pages are in the same language and the revisions of the
pages are stored, then the addresses are the same exactly if the numbers of the revisions and of the
namespaces are, and the titles are the same with underscores for spaces. -/
theorem addresses_of_reachable (hf : f.Reachable) (hg : g.Reachable)
    (ha : f.answer (.tryRoot a) = .ok (.node r)) (hb : g.answer (.tryRoot b) = .ok (.node q)) :
    ∃ p p' s s', f.kind? r = some (.page p) ∧ g.kind? q = some (.page p') ∧
      f.answer (.pageAddress a) = .ok (.text s) ∧ g.answer (.pageAddress b) = .ok (.text s') ∧
      (p.title.language = p'.title.language → 0 ≤ p.revision → 0 ≤ p'.revision →
        (s = s' ↔ p.revision = p'.revision ∧ p.title.ns.code = p'.title.ns.code ∧
          (p.title.name.toList.map fun c => if c = ' ' then '_' else c) =
            p'.title.name.toList.map fun c => if c = ' ' then '_' else c)) := by
  obtain ⟨p, hp, hs⟩ := (hf.wellKept a).answer_pageAddress ha
  obtain ⟨p', hp', hs'⟩ := (hg.wellKept b).answer_pageAddress hb
  refine ⟨p, p', _, _, hp, hp', hs, hs', fun hlanguage hstored hstored' => ?_⟩
  rw [revisionAddress_eq_iff (decide_eq_true hstored) (decide_eq_true hstored') hlanguage,
    Namespace.code_inj]

/-- Two pages whose titles look like the end of an address and differ in a space, a page whose title
looks like the word of a namespace, and a page of that namespace. -/
def lookalikePages : List Command :=
  [.addPage ⟨.article "A b?oldid=5&ns=2", 1, 5⟩ [], .addPage ⟨.article "A_b?oldid=5&ns=2", 2, 5⟩ [],
    .addPage ⟨.article "User:A", 3, 5⟩ [], .addPage ⟨⟨"A", .user, .english⟩, 4, 5⟩ []]

theorem addresses_of_reachable_lookalikePages :
    ((empty.runAll lookalikePages).answer (.pageAddress ⟨0⟩) =
        .ok (.text "http://en.wikipedia.org/wiki/A_b?oldid=5&ns=2?oldid=5&ns=0") ∧
      (empty.runAll lookalikePages).answer (.pageAddress ⟨1⟩) =
        .ok (.text "http://en.wikipedia.org/wiki/A_b?oldid=5&ns=2?oldid=5&ns=0")) ∧
    (empty.runAll lookalikePages).answer (.pageAddress ⟨2⟩) =
      .ok (.text "http://en.wikipedia.org/wiki/User:A?oldid=5&ns=0") ∧
    ∃ s, (empty.runAll lookalikePages).answer (.pageAddress ⟨3⟩) = .ok (.text s) ∧
      s ≠ "http://en.wikipedia.org/wiki/User:A?oldid=5&ns=0" := by
  have hreach : (empty.runAll lookalikePages).Reachable := .runAll .empty _ (by decide +kernel)
  have hspaces : (empty.runAll lookalikePages).answer (.pageAddress ⟨0⟩) =
      .ok (.text "http://en.wikipedia.org/wiki/A_b?oldid=5&ns=2?oldid=5&ns=0") := by
    decide +kernel
  have harticle : (empty.runAll lookalikePages).answer (.pageAddress ⟨2⟩) =
      .ok (.text "http://en.wikipedia.org/wiki/User:A?oldid=5&ns=0") := by
    decide +kernel
  refine ⟨⟨hspaces, ?_⟩, harticle, ?_⟩
  · obtain ⟨p, p', s, s', hp, hp', hs, hs', hiff⟩ :=
      addresses_of_reachable (a := ⟨0⟩) (b := ⟨1⟩) (r := ⟨0⟩) (q := ⟨1⟩) hreach hreach
        (by decide +kernel) (by decide +kernel)
    rw [show (empty.runAll lookalikePages).kind? ⟨0⟩ =
      some (.page ⟨.article "A b?oldid=5&ns=2", 1, 5⟩) by decide +kernel] at hp
    cases hp
    rw [show (empty.runAll lookalikePages).kind? ⟨1⟩ =
      some (.page ⟨.article "A_b?oldid=5&ns=2", 2, 5⟩) by decide +kernel] at hp'
    cases hp'
    obtain rfl := (hiff rfl (by decide) (by decide)).2 (by decide +kernel)
    exact hs'.trans (hs.symm.trans hspaces)
  · obtain ⟨p, p', s, s', hp, hp', hs, hs', hiff⟩ :=
      addresses_of_reachable (a := ⟨2⟩) (b := ⟨3⟩) (r := ⟨2⟩) (q := ⟨3⟩) hreach hreach
        (by decide +kernel) (by decide +kernel)
    rw [show (empty.runAll lookalikePages).kind? ⟨2⟩ =
      some (.page ⟨.article "User:A", 3, 5⟩) by decide +kernel] at hp
    cases hp
    rw [show (empty.runAll lookalikePages).kind? ⟨3⟩ =
      some (.page ⟨⟨"A", .user, .english⟩, 4, 5⟩) by decide +kernel] at hp'
    cases hp'
    obtain rfl := Answer.text.inj (Except.ok.inj (hs.symm.trans harticle))
    refine ⟨s', hs', fun h => ?_⟩
    exact absurd ((hiff rfl (by decide) (by decide)).1 h.symm).2.1 (by decide)

end Forest

end MarkupForest
