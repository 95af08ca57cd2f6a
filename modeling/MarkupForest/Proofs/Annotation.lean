import MarkupForest.Annotation
import Mathlib.Data.List.Dedup

/-!
# Stores of values of all types

A store holds values of all types side by side, and behaves like one map for each type. What makes
it do so is that every value is of the type of its place. A value that is read from the place of a
key is therefore always of the type of the key.

## Main definitions

* `Annotation.Slot.valueFor?`: the value of a slot, if it belongs to a key;
* `Annotation.Store.insertAll`: the store after values have been put under keys one after the other;
* `Annotation.Store.WellTyped`: every value is of the type of its place;
* `Annotation.Store.Holds`: a store is the family of maps that putting values under keys makes.

## Main results

* `Annotation.Store.get?_insertAll`: the value under a key is the last one that was put there;
* `Annotation.Store.WellTyped.insertAll`: every value stays of the type of its place;
* `Annotation.Store.size_insertAll`: the number of values is that of the places that were filled;
* `Annotation.Store.holds_insertAll`: a store is such a family of maps.
-/

namespace MarkupForest.Annotation

variable {σ τ : ValueType}

/-- The place of a value under its key. -/
def Slot.place (s : Slot) : Place := ⟨s.name, s.type⟩

/-- The value of a slot, if the slot has the name and the type of a key. -/
def Slot.valueFor? (k : Key τ) (s : Slot) : Option τ.Value :=
  if h : s.type = τ ∧ s.name = k.name then some (h.1 ▸ s.value) else none

theorem Dynamic.as?_self (v : τ.Value) : (Dynamic.mk τ v).as? τ = some v := by
  simp [as?]

theorem Dynamic.isSome_as? {d : Dynamic} (h : d.type = τ) : (d.as? τ).isSome = true := by
  simp [as?, h]

namespace Store

/-! ## Putting values in places -/

theorem lookup_put (place p : Place) (value : Dynamic) (l : List (Place × Dynamic)) :
    (put place value l).lookup p = if p = place then some value else l.lookup p := by
  induction l with
  | nil =>
    rw [put, List.lookup_cons]
    by_cases hp : p = place
    · simp [hp]
    · simp [hp, beq_eq_false_iff_ne.2 hp]
  | cons entry rest ih =>
    obtain ⟨q, v⟩ := entry
    rw [put]
    by_cases hq : q = place
    · by_cases hp : p = place
      · simp [hq, hp]
      · simp [hq, hp, List.lookup_cons, beq_eq_false_iff_ne.2 hp]
    · by_cases hp : p = q
      · simp [hq, hp]
      · simp [hq, List.lookup_cons, beq_eq_false_iff_ne.2 hp, ih]

/-- Putting a value in a place fills the place, if it is not filled yet, after all others. -/
theorem map_fst_put (place : Place) (value : Dynamic) (l : List (Place × Dynamic)) :
    (put place value l).map Prod.fst =
      if place ∈ l.map Prod.fst then l.map Prod.fst else l.map Prod.fst ++ [place] := by
  induction l with
  | nil => simp [put]
  | cons entry rest ih =>
    obtain ⟨q, v⟩ := entry
    by_cases hq : q = place
    · simp [put, hq]
    · rw [put, if_neg hq, List.map_cons, ih]
      split <;> simp_all [Ne.symm hq]

theorem mem_put {place : Place} {value : Dynamic} {l : List (Place × Dynamic)}
    {e : Place × Dynamic} (h : e ∈ put place value l) : e = (place, value) ∨ e ∈ l := by
  induction l with
  | nil => exact .inl (List.mem_singleton.1 h)
  | cons entry rest ih =>
    obtain ⟨q, v⟩ := entry
    rw [put] at h
    split at h
    next hq =>
      subst hq
      exact (List.mem_cons.1 h).imp_right (List.mem_cons_of_mem _)
    next =>
      rcases List.mem_cons.1 h with rfl | h
      · exact .inr List.mem_cons_self
      · exact (ih h).imp_right (List.mem_cons_of_mem _)

/-! ## Every value is of the type of its place -/

/-- Every value is of the type of its place. -/
def WellTyped (s : Store) : Prop :=
  ∀ e ∈ s.values, e.2.type = e.1.type

theorem wellTyped_empty : empty.WellTyped := by
  intro e he
  cases he

theorem WellTyped.insert {s : Store} (h : s.WellTyped) (k : Key τ) (value : τ.Value) :
    (s.insert k value).WellTyped := by
  intro e he
  rcases mem_put he with rfl | he
  · rfl
  · exact h e he

theorem mem_of_lookup_eq_some {p : Place} {d : Dynamic} {l : List (Place × Dynamic)}
    (h : l.lookup p = some d) : (p, d) ∈ l := by
  obtain ⟨before, after, rfl, -⟩ := List.lookup_eq_some_iff.1 h
  simp

/-! ## Putting values under keys -/

/-- A key finds the value that was put there last; if none was put there, then it finds what it
found before. -/
theorem get?_insert (s : Store) (c : Slot) (k : Key τ) :
    (s.insert ⟨c.name⟩ c.value).get? k = (c.valueFor? k).or (s.get? k) := by
  obtain ⟨σ, name, v⟩ := c
  rw [get?, insert, lookup_put, Slot.valueFor?]
  by_cases hσ : σ = τ
  · subst hσ
    by_cases hname : name = k.name
    · simp [Key.place, hname, Dynamic.as?_self]
    · simp [Key.place, hname, Ne.symm hname, get?]
  · simp [Key.place, hσ, Ne.symm hσ, get?]

/-- Putting a value under a key leaves the keys of other types as they are, whatever their names. -/
theorem get?_insert_of_ne (hne : σ ≠ τ) (s : Store) (j : Key σ) (value : σ.Value) (k : Key τ) :
    (s.insert j value).get? k = s.get? k := by
  refine (get?_insert s ⟨σ, j.name, value⟩ k).trans ?_
  rw [Slot.valueFor?, dif_neg fun h => hne h.1, Option.none_or]

/-- The store after values have been put under their keys one after the other. -/
def insertAll (s : Store) (sets : List Slot) : Store :=
  sets.foldl (fun s c => s.insert ⟨c.name⟩ c.value) s

theorem insertAll_append (s : Store) (sets sets' : List Slot) :
    s.insertAll (sets ++ sets') = (s.insertAll sets).insertAll sets' :=
  List.foldl_append

/-- The value under a key is the last one that was put there. -/
theorem get?_insertAll (s : Store) (sets : List Slot) (k : Key τ) :
    (s.insertAll sets).get? k = ((sets.filterMap (Slot.valueFor? k)).getLast?).or (s.get? k) := by
  induction sets generalizing s with
  | nil => rfl
  | cons c sets ih =>
    have hstep : s.insertAll (c :: sets) = (s.insert ⟨c.name⟩ c.value).insertAll sets := rfl
    rw [hstep, ih, get?_insert]
    cases hc : c.valueFor? k with
    | none => rw [List.filterMap_cons_none hc, Option.none_or]
    | some v =>
      rw [List.filterMap_cons_some hc, List.getLast?_cons]
      cases (sets.filterMap (Slot.valueFor? k)).getLast? <;> rfl

theorem WellTyped.insertAll {s : Store} (h : s.WellTyped) (sets : List Slot) :
    (s.insertAll sets).WellTyped := by
  induction sets generalizing s with
  | nil => exact h
  | cons c sets ih => exact ih (h.insert _ _)

/-! ## The number of values -/

/-- The places that are filled. -/
def places (s : Store) : List Place :=
  s.values.map Prod.fst

theorem places_insert (s : Store) (c : Slot) :
    (s.insert ⟨c.name⟩ c.value).places =
      if c.place ∈ s.places then s.places else s.places ++ [c.place] :=
  map_fst_put _ _ _

theorem nodup_places_insertAll {s : Store} (h : s.places.Nodup) (sets : List Slot) :
    (s.insertAll sets).places.Nodup := by
  induction sets generalizing s with
  | nil => exact h
  | cons c sets ih =>
    refine ih ?_
    rw [places_insert]
    split
    next => exact h
    next hnew => exact List.concat_eq_append ▸ h.concat hnew

theorem mem_places_insertAll {s : Store} {sets : List Slot} {p : Place} :
    p ∈ (s.insertAll sets).places ↔ p ∈ s.places ∨ p ∈ sets.map Slot.place := by
  induction sets generalizing s with
  | nil => simp [insertAll]
  | cons c sets ih =>
    have hstep : s.insertAll (c :: sets) = (s.insert ⟨c.name⟩ c.value).insertAll sets := rfl
    rw [hstep, ih, places_insert, List.map_cons, List.mem_cons, ← or_assoc]
    refine or_congr_left ?_
    split
    next hold => exact ⟨.inl, fun h => h.elim id fun hp => hp ▸ hold⟩
    next => rw [List.mem_append, List.mem_singleton]

/-- There are as many values as places that values were put in. -/
theorem size_insertAll (sets : List Slot) :
    (empty.insertAll sets).size = (sets.map Slot.place).dedup.length := by
  have hperm : (empty.insertAll sets).places.Perm (sets.map Slot.place).dedup := by
    rw [List.perm_ext_iff_of_nodup (nodup_places_insertAll (s := empty) List.nodup_nil sets)
      (List.nodup_dedup _)]
    intro p
    rw [mem_places_insertAll, List.mem_dedup]
    exact or_iff_right List.not_mem_nil
  rw [← hperm.length_eq, places, List.length_map, size]

/-! ## Stores as families of maps -/

/-- A store is what becomes of the empty one when values are put under keys: a key finds the last
value that was put under its name with its type, whatever stands in the place of a key can be read
as a value of the type of the key, and there are as many values as there are different pairs of a
name and a type. -/
structure Holds (s : Store) (sets : List Slot) : Prop where
  get?_eq : ∀ {τ : ValueType} (k : Key τ), s.get? k = (sets.filterMap (Slot.valueFor? k)).getLast?
  readable : ∀ {τ : ValueType} (k : Key τ) (d : Dynamic), s.values.lookup k.place = some d →
    ∃ v, d.as? τ = some v
  size_eq : s.size = (sets.map Slot.place).dedup.length

theorem holds_insertAll (sets : List Slot) : (empty.insertAll sets).Holds sets where
  get?_eq k := (get?_insertAll empty sets k).trans (Option.or_none ..)
  readable k d hd := by
    have htype := wellTyped_empty.insertAll sets _ (mem_of_lookup_eq_some hd)
    exact Option.isSome_iff_exists.1 (Dynamic.isSome_as? htype)
  size_eq := size_insertAll sets

end Store

end MarkupForest.Annotation
