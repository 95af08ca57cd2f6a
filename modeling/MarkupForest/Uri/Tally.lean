/-!
# Tallies

How often each of some texts has come up, in 32-bit numbers.
-/

namespace MarkupForest.Uri

/-- How often each text has come up. -/
structure Tally where
  /-- The texts in the order in which they first came up, with their counts. -/
  counts : List (String × UInt32) := []

namespace Tally

/-- How often a text has come up. -/
def count (t : Tally) (text : String) : UInt32 :=
  (t.counts.lookup text).getD 0

/-- The counts after a text has come up once more. -/
def bump (text : String) : List (String × UInt32) → List (String × UInt32)
  | [] => [(text, 1)]
  | (s, n) :: rest => if s = text then (s, n + 1) :: rest else (s, n) :: bump text rest

/-- Counts a text once more. -/
def add (t : Tally) (text : String) : Tally :=
  ⟨bump text t.counts⟩

/-- The number of different texts. -/
def size (t : Tally) : Nat := t.counts.length

/-- Adding a text changes what is said about that text and about no other. -/
theorem lookup_add (t : Tally) (s text : String) :
    (t.add text).counts.lookup s =
      if s = text then some (t.count text + 1) else t.counts.lookup s := by
  obtain ⟨counts⟩ := t
  simp only [count, add]
  induction counts with
  | nil =>
    by_cases h : s = text
    · simp [bump, h]
    · simp [bump, List.lookup_cons, h, beq_false_of_ne h]
  | cons entry rest ih =>
    obtain ⟨r, n⟩ := entry
    by_cases hr : r = text
    · subst hr
      by_cases h : s = r
      · simp [bump, h]
      · simp [bump, List.lookup_cons, h, beq_false_of_ne h]
    · by_cases h : s = r
      · subst h
        simp [bump, hr]
      · simpa [bump, List.lookup_cons, hr, beq_false_of_ne h, beq_false_of_ne (Ne.symm hr)]
          using ih

/-- Adding a text raises its own count by one and no other. -/
theorem count_add (t : Tally) (s text : String) :
    (t.add text).count s = t.count s + if s = text then 1 else 0 := by
  rw [count, lookup_add]
  by_cases h : s = text
  · simp [h]
  · simp [h, count]

end Tally

end MarkupForest.Uri
