import Mathlib.Data.List.Chain
import Mathlib.Data.List.DropRight
import Mathlib.Data.List.Forall2
import Mathlib.Data.List.TakeWhile
import Mathlib.Order.Bounds.Basic

/-!
# Lists

Facts about lists of whatever items that the theory of forests, trees and texts rests on.

* `split_at_last`: a list can be split in one way at the last place of an item. Numbers at the end
  of a text are read off it in this way.
* `takeWhile_congr` to `takeWhile_eq_filter`: the beginning of a list up to the first item without a
  property.
* `rdropWhile_append`: the list without its last items with a property.
* `forall₂_filterMap` to `eq_of_map_eq`: lists that are related item by item.
* `isLeast_of_find?_eq_some`, `isChain_iff_not_infix`: searches, and items next to each other.
-/

namespace MarkupForest

variable {α β γ : Type}

/-- A list can be split in one way at the last place where a given item stands. -/
theorem split_at_last {c : α} {as bs xs ys : List α} (hxs : c ∉ xs) (hys : c ∉ ys)
    (h : as ++ c :: xs = bs ++ c :: ys) : as = bs ∧ xs = ys := by
  rcases List.append_eq_append_iff.1 h with ⟨ds, hbs, hxs'⟩ | ⟨ds, has, hys'⟩
  · cases ds with
    | nil => simp_all
    | cons d ds =>
      -- otherwise the item would stand in what follows its last place
      rw [List.cons_append, List.cons.injEq] at hxs'
      exact absurd (hxs'.2 ▸ by simp) hxs
  · cases ds with
    | nil => simp_all
    | cons d ds =>
      rw [List.cons_append, List.cons.injEq] at hys'
      exact absurd (hys'.2 ▸ by simp) hys

/-! ## Items up to the first one without a property -/

theorem takeWhile_congr {p q : α → Bool} {l : List α} (h : ∀ a ∈ l, p a = q a) :
    l.takeWhile p = l.takeWhile q := by
  induction l with
  | nil => rfl
  | cons a l ih =>
    rw [List.takeWhile_cons, List.takeWhile_cons, h a List.mem_cons_self,
      ih fun b hb => h b (List.mem_cons_of_mem a hb)]

/-- An item at the end does not show in a search that it would end, or that does not look for it. -/
theorem filter_takeWhile_append {p q : α → Bool} {a : α} (l : List α)
    (ha : p a = true → q a = false) :
    ((l ++ [a]).takeWhile p).filter q = (l.takeWhile p).filter q := by
  induction l with
  | nil => cases hp : p a <;> simp [hp, ha]
  | cons b l ih => cases hp : p b <;> simp [hp, List.filter_cons, ih]

/-- An item anywhere does not show in a search that goes past it and does not look for it. -/
theorem filter_takeWhile_filter [DecidableEq α] {p q : α → Bool} {a : α} (l : List α)
    (hp : p a = true) (hq : q a = false) :
    ((l.filter (· != a)).takeWhile p).filter q = (l.takeWhile p).filter q := by
  induction l with
  | nil => rfl
  | cons b l ih =>
    by_cases hb : b = a
    · subst hb
      simp [hp, hq, ih]
    · cases hpb : p b <;> simp [hb, hpb, List.filter_cons, ih]

/-- If a member with a property has no member without it before, then the members with the property
are those up to the first one without it. -/
theorem takeWhile_eq_filter {q : α → Bool} {l : List α}
    (h : l.Pairwise fun a b => q b = true → q a = true) : l.takeWhile q = l.filter q := by
  induction l with
  | nil => rfl
  | cons a l ih =>
    obtain ⟨ha, hl⟩ := List.pairwise_cons.1 h
    cases hq : q a with
    | true => rw [List.takeWhile_cons_of_pos hq, List.filter_cons_of_pos hq, ih hl]
    | false =>
      have hnone : ∀ b ∈ l, ¬q b = true := fun b hb hqb => by
        rw [ha b hb hqb] at hq
        exact Bool.noConfusion hq
      rw [List.takeWhile_cons_of_neg (by simp [hq]), List.filter_cons_of_neg (by simp [hq]),
        List.filter_eq_nil_iff.2 hnone]

theorem rdropWhile_append (p : α → Bool) (as bs : List α) :
    (as ++ bs).rdropWhile p =
      if (bs.rdropWhile p).isEmpty then as.rdropWhile p else as ++ bs.rdropWhile p := by
  simp only [List.rdropWhile, List.reverse_append, List.dropWhile_append, List.isEmpty_reverse]
  split_ifs
  · rfl
  · rw [List.reverse_append, List.reverse_reverse]

/-! ## Lists related item by item -/

theorem forall₂_filterMap {k : α → Option β} {l : List α} (h : ∀ a ∈ l, ∃ b, k a = some b) :
    List.Forall₂ (fun a b => k a = some b) l (l.filterMap k) := by
  induction l with
  | nil => exact List.Forall₂.nil
  | cons a l ih =>
    obtain ⟨⟨b, hb⟩, hl⟩ := List.forall_mem_cons.1 h
    rw [List.filterMap_cons_some hb]
    exact List.Forall₂.cons hb (ih hl)

theorem forall₂_iff_eq_map {R : α → β → Prop} {S : α → γ → Prop} {k : β → γ} {as : List α}
    {bs : List β} {cs : List γ} (h : List.Forall₂ R as bs)
    (hk : ∀ b ∈ bs, ∀ a c, R a b → (S a c ↔ c = k b)) :
    List.Forall₂ S as cs ↔ cs = bs.map k := by
  induction h generalizing cs with
  | nil => rw [List.forall₂_nil_left_iff, List.map_nil]
  | @cons a b as bs hab _ ih =>
    obtain ⟨hb, hbs⟩ := List.forall_mem_cons.1 hk
    rw [List.forall₂_cons_left_iff, List.map_cons]
    simp only [hb a _ hab, ih hbs, exists_and_left, exists_eq_left]

theorem map_eq_map_iff_forall₂ {k : α → β} {as bs : List α} :
    as.map k = bs.map k ↔ List.Forall₂ (fun a b => k a = k b) as bs := by
  rw [← List.forall₂_eq_eq_eq, List.forall₂_map_left_iff, List.forall₂_map_right_iff]

theorem exists_mem_of_forall₂ {R : α → β → Prop} {as : List α} {bs : List β} {b : β}
    (h : List.Forall₂ R as bs) (hb : b ∈ bs) : ∃ a ∈ as, R a b := by
  induction h with
  | nil => contradiction
  | cons hab _ ih =>
    rcases List.mem_cons.mp hb with rfl | hb
    · exact ⟨_, List.mem_cons_self, hab⟩
    · obtain ⟨a, ha, hR⟩ := ih hb
      exact ⟨a, List.mem_cons_of_mem _ ha, hR⟩

/-- A function that tells the items of a list from all others tells the list from all others. -/
theorem eq_of_map_eq {k : α → β} {l l' : List α} (hk : ∀ a ∈ l, ∀ b, k a = k b → a = b)
    (h : l.map k = l'.map k) : l = l' := by
  induction l generalizing l' with
  | nil => exact (List.map_eq_nil_iff.1 h.symm).symm
  | cons a l ih =>
    obtain ⟨ha, hl⟩ := List.forall_mem_cons.1 hk
    cases l' with
    | nil => cases h
    | cons b l' =>
      obtain ⟨hab, hll⟩ := List.cons.inj h
      rw [ha b hab, ih hl hll]

/-! ## Searches and neighbours -/

/-- The first hit in an increasing list is the least one. -/
theorem isLeast_of_find?_eq_some {l : List Nat} {p : Nat → Bool} {k : Nat}
    (hl : l.Pairwise (· < ·)) (h : l.find? p = some k) : IsLeast {j | j ∈ l ∧ p j} k := by
  obtain ⟨hk, before, after, rfl, hbefore⟩ := List.find?_eq_some_iff_append.mp h
  refine ⟨⟨by simp, hk⟩, ?_⟩
  rintro j ⟨hj, hpj⟩
  rcases List.mem_append.mp hj with hj | hj
  · -- what stands before the hit is no hit
    simpa [hpj] using hbefore j hj
  · rcases List.mem_cons.mp hj with rfl | hj
    · exact le_rfl
    · exact (List.rel_of_pairwise_cons (List.pairwise_append.mp hl).2.1 hj).le

/-- No two neighbours are both a given item exactly if the item stands nowhere twice in a row. -/
theorem isChain_iff_not_infix {c : α} {l : List α} :
    (l.IsChain fun a b => ¬(a = c ∧ b = c)) ↔ ¬[c, c] <:+: l := by
  rw [List.isChain_iff_forall_rel_of_append_cons_cons]
  constructor
  · rintro h ⟨before, after, rfl⟩
    have hsplit : before ++ [c, c] ++ after = before ++ c :: c :: after := by simp
    exact h hsplit ⟨rfl, rfl⟩
  · rintro h a b before after hl ⟨rfl, rfl⟩
    exact h ⟨before, after, by rw [hl]; simp⟩

end MarkupForest
