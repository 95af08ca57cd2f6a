import MarkupForest.Proofs.Json.Spelling
import MarkupForest.Proofs.Lists

/-!
# Reading back what is written

The compact text of a value is one of its texts, so the scanner makes the outline of the value out
of it. So the texts of different values are different.

## Main results

* `spells_chars`: the compact text of a value is a text of the value;
* `compact_injective`: different values have different texts.
-/

namespace MarkupForest.Json

/-! ## The compact text -/

theorem hexUnit?_digitChar :
    ∀ n < 0x20, hexUnit? '0' '0' (Nat.digitChar (n / 16)) (Nat.digitChar (n % 16)) = some n := by
  decide

theorem spellsChar_literalChar (c : Char) : SpellsChar c (literalChar c) := by
  unfold literalChar
  split
  -- all but the last case are characters with an escape of their own
  case h_8 hquote hslash _ _ _ _ _ =>
    split
    case isTrue hcontrol => exact .unit (hexUnit?_digitChar _ hcontrol)
    case isFalse hplain => exact .plain hquote hslash hplain
  all_goals exact .short rfl

theorem spellsText_literal (cs : List Char) : SpellsText cs (cs.flatMap literalChar) := by
  induction cs with
  | nil => exact .nil
  | cons c cs ih => exact .cons (spellsChar_literalChar c) ih

theorem spellsName_literal (name : String) : SpellsName name (literal name) :=
  .mk blank_nil (spellsText_literal name.toList) blank_nil

/-- Items that are written with commas between them are all but the last followed by a comma. -/
theorem exists_spellsItems {items : List Json} (hne : items ≠ [])
    (hitems : ∀ v ∈ items, Spells v v.chars) :
    ∃ front last cs, items = front ++ [last] ∧ SpellsItems front cs ∧ Spells last last.chars ∧
      itemChars items = cs ++ last.chars := by
  induction items with
  | nil => exact absurd rfl hne
  | cons v items ih =>
    obtain ⟨hv, hrest⟩ := List.forall_mem_cons.1 hitems
    cases items with
    | nil => exact ⟨[], v, [], rfl, .nil, hv, by rw [itemChars]; rfl⟩
    | cons w items =>
      obtain ⟨front, last, cs, hfront, hcs, hlast, hchars⟩ := ih (List.cons_ne_nil w items) hrest
      refine ⟨v :: front, last, v.chars ++ ',' :: cs, by rw [hfront]; rfl, .cons hv hcs, hlast, ?_⟩
      rw [itemChars, hchars, List.append_assoc, List.cons_append]

/-- Members that are written with commas between them are all but the last followed by a comma. -/
theorem exists_spellsMembers {members : List (String × Json)} (hne : members ≠ [])
    (hmembers : ∀ m ∈ members, Spells m.2 m.2.chars) :
    ∃ front name v cs, members = front ++ [(name, v)] ∧ SpellsMembers front cs ∧
      Spells v v.chars ∧ memberChars members = cs ++ (literal name ++ ':' :: v.chars) := by
  induction members with
  | nil => exact absurd rfl hne
  | cons m members ih =>
    obtain ⟨name, v⟩ := m
    obtain ⟨(hv : Spells v v.chars), hrest⟩ := List.forall_mem_cons.1 hmembers
    cases members with
    | nil => exact ⟨[], name, v, [], rfl, .nil, hv, by rw [memberChars]; rfl⟩
    | cons w members =>
      obtain ⟨front, last, u, cs, hfront, hcs, hlast, hchars⟩ :=
        ih (List.cons_ne_nil w members) hrest
      refine ⟨(name, v) :: front, last, u, literal name ++ ':' :: (v.chars ++ ',' :: cs),
        by rw [hfront]; rfl, .cons (spellsName_literal name) hv hcs, hlast, ?_⟩
      rw [memberChars, hchars]
      simp

/-- The compact text of a value is a text of the value. -/
theorem spells_chars (v : Json) : Spells v v.chars := by
  induction v with
  | null => exact .null
  | bool b =>
    cases b
    · exact .false
    · exact .true
  | int n => exact .int n
  | str s => exact .str (spellsText_literal s.toList)
  | arr items hitems =>
    by_cases hne : items = []
    · subst hne
      exact .emptyArr blank_nil
    · obtain ⟨front, last, cs, hfront, hcs, hlast, hchars⟩ := exists_spellsItems hne hitems
      have htext : (arr items).chars = '[' :: (cs ++ (last.chars ++ [']'])) := by
        rw [chars, hchars]
        simp
      rw [htext, hfront]
      exact .arr hcs hlast
  | obj members hmembers =>
    by_cases hne : members = []
    · subst hne
      exact .emptyObj blank_nil
    · obtain ⟨front, name, v, cs, hfront, hcs, hv, hchars⟩ := exists_spellsMembers hne hmembers
      have htext : (obj members).chars =
          '\x7b' :: (cs ++ (literal name ++ ':' :: (v.chars ++ ['\x7d']))) := by
        rw [chars, hchars]
        simp
      rw [htext, hfront]
      exact .obj hcs (spellsName_literal name) hv

/-! ## Different values -/

theorem numeral_injective : Function.Injective numeral := by
  have hdigits : ∀ {a b : Nat}, Nat.toDigits 10 a = Nat.toDigits 10 b → a = b := by
    intro a b h
    rw [← Nat.ofDigitChars_ten_toDigits (n := a), h, Nat.ofDigitChars_ten_toDigits]
  rintro (a | a) (b | b) h
  · rw [hdigits (Numeral.mk.inj h).2.1]
  · exact Bool.noConfusion (Numeral.mk.inj h).1
  · exact Bool.noConfusion (Numeral.mk.inj h).1
  · rw [Nat.succ.inj (hdigits (Numeral.mk.inj h).2.1)]

theorem outlinedItems_eq_map (items : List Json) : outlinedItems items = items.map outlined := by
  induction items with
  | nil => rfl
  | cons v items ih => rw [outlinedItems, ih, List.map_cons]

theorem outlinedMembers_eq_map (members : List (String × Json)) :
    outlinedMembers members = members.map fun m => (some m.1, m.2.outlined) := by
  induction members with
  | nil => rfl
  | cons m members ih => rw [outlinedMembers, ih, List.map_cons]

theorem outlined_injective : Function.Injective outlined := by
  intro v w h
  induction v generalizing w with
  | null =>
    cases w with
    | null => rfl
    | _ => cases h
  | bool b =>
    cases w with
    | bool b' => rw [Outline.bool.inj h]
    | _ => cases h
  | int n =>
    cases w with
    | int n' => rw [numeral_injective (Outline.number.inj h)]
    | _ => cases h
  | str s =>
    cases w with
    | str s' => rw [Option.some.inj (Outline.string.inj h)]
    | _ => cases h
  | arr items hitems =>
    cases w with
    | arr items' =>
      have hmap := (Outline.array.inj h).1
      rw [outlinedItems_eq_map, outlinedItems_eq_map] at hmap
      rw [eq_of_map_eq (fun v hv w hvw => hitems v hv hvw) hmap]
    | _ => cases h
  | obj members hmembers =>
    cases w with
    | obj members' =>
      have hmap := (Outline.object.inj h).1
      rw [outlinedMembers_eq_map, outlinedMembers_eq_map] at hmap
      rw [eq_of_map_eq (fun m hm m' hmm => ?_) hmap]
      obtain ⟨hname, hvalue⟩ := Prod.mk.inj hmm
      exact Prod.ext (Option.some.inj hname) (hmembers m hm hvalue)
    | _ => cases h

/-- Different values have different texts. -/
theorem compact_injective : Function.Injective compact := by
  intro v w h
  have hchars : v.chars = w.chars := String.ofList_injective h
  obtain ⟨_, -, hv⟩ := outline_of_spells (spells_chars v)
  obtain ⟨_, -, hw⟩ := outline_of_spells (spells_chars w)
  rw [hchars, hw] at hv
  exact outlined_injective (Prod.mk.inj hv).1.symm

end MarkupForest.Json
