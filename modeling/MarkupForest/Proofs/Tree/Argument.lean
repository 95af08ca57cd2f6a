import MarkupForest.Proofs.Forest.Run
import MarkupForest.Proofs.Forest.Subtree

/-!
# The arguments of a call in its markup

In the markup of a call, an argument is written with its key and an equals sign in front, unless the
key is a position: then the value stands alone. Whoever reads the markup counts the values that stand
alone and takes the count for their keys.

So a position is not written but counted. It is read as it was only if the positions of a call are
`1`, `2`, `3` and so on in the order of the arguments, without gaps, repetitions or other spellings.
Any other position comes out as another one: `5` in front of a lone value is read as `1`.

## Main definitions

* `Call.keys`: reading the keys of the arguments from what stands between the braces of a call;
* `Call.recounted`: some keys with the positions replaced by a count of them;
* `Forest.PlainCall`: a call whose texts have no character that means something in markup.

## Main results

* `Forest.WellFormed.markup_eq`: the markup of a node is made of the markup of its children;
* `Call.keysFrom_cons_markup`: what is read from an argument as it is written;
* `Call.recounted_eq_self_iff`: which positions are the same when they are counted;
* `Forest.keepsKeys_of_reachable`: the calls whose keys can be read from their markup.
-/

namespace MarkupForest

/-! ## The markup of a node -/

theorem Tree.markup_mk (n : Node) (ts : List Tree) :
    (mk n ts).markup = n.kind.markup (ts.map markup) :=
  fold_mk _ n ts

namespace Forest

variable {f : Forest} {n : NodeId} {kind : Kind}

theorem markup_of_tree? {t : Tree} (ht : f.tree? n = some t) : f.markup n = t.markup := by
  rw [markup, ht, Option.map_some, Option.getD_some]

/-- The markup of a node is made of the markup of its children, in the way of its kind. -/
theorem WellFormed.markup_eq (hf : f.WellFormed) (hkind : f.kind? n = some kind) :
    f.markup n = kind.markup ((f.children n).map f.markup) := by
  -- a child that is not there would have no tree, but empty markup
  have hparts : ∀ cs : List NodeId, (∀ c ∈ cs, f.contains c = true) →
      (cs.filterMap f.tree?).map Tree.markup = cs.map f.markup := by
    intro cs hcs
    induction cs with
    | nil => rfl
    | cons c cs ih =>
      obtain ⟨hc, hcs⟩ := List.forall_mem_cons.1 hcs
      obtain ⟨t, ht⟩ := hf.exists_tree? hc
      rw [List.filterMap_cons_some ht, List.map_cons, List.map_cons, ih hcs, markup_of_tree? ht]
  have ht := hf.tree?_eq n
  rw [hkind, Option.map_some] at ht
  rw [markup_of_tree? ht, Tree.markup_mk, hparts _ fun c hc => hf.contains_child hc]

end Forest

/-! ## Writing and reading arguments -/

/-- A text without the characters that mean something in markup. -/
def Plain (s : String) : Prop :=
  ∀ c ∈ "|=[]\x7b\x7d".toList, c ∉ s.toList

instance (s : String) : Decidable (Plain s) :=
  List.decidableBAll (· ∉ s.toList) _

namespace Call

/-- The position with the given number as it is counted. -/
def position (k : Nat) : String :=
  String.ofList (Nat.toDigits 10 k)

/-- Reads the keys of some arguments. The key of an argument is what stands in front of the first
equals sign. An argument without one has its place among such arguments as its key; `k` of them have
been read before. -/
def keysFrom (k : Nat) : List (List Char) → List String
  | [] => []
  | part :: parts =>
    if '=' ∈ part then String.ofList (part.takeWhile (· ≠ '=')) :: keysFrom k parts
    else position (k + 1) :: keysFrom (k + 1) parts

/-- Reads the keys of the arguments of a call from what stands between its braces. The first of the
parts between bars is the title. -/
def keys (inside : String) : List String :=
  keysFrom 0 (inside.toList.splitOn '|').tail

/-- Some keys with the positions replaced by a count of them, if `k` have been counted before. -/
def recounted (k : Nat) : List String → List String
  | [] => []
  | key :: keys =>
    if isPosition key then position (k + 1) :: recounted (k + 1) keys
    else key :: recounted k keys

/-- Positions are the same when they are counted exactly if they are a count already, in the order in
which they stand among the keys. -/
theorem recounted_eq_self_iff (k : Nat) (keys : List String) :
    recounted k keys = keys ↔
      keys.filter isPosition = (List.range' (k + 1) (keys.countP isPosition)).map position := by
  -- the count goes on at the positions only, and only they are looked at on the right
  induction keys generalizing k with
  | nil => simp [recounted]
  | cons key keys ih =>
    rw [recounted]
    cases hkey : isPosition key with
    | true =>
      rw [if_pos rfl, List.filter_cons_of_pos hkey, List.countP_cons_of_pos hkey, List.range'_succ,
        List.map_cons, List.cons.injEq, List.cons.injEq, ih (k + 1), eq_comm]
    | false =>
      have hneg : ¬isPosition key = true := by simp [hkey]
      rw [if_neg Bool.false_ne_true, List.filter_cons_of_neg hneg, List.countP_cons_of_neg hneg,
        List.cons.injEq, ih k, and_iff_right rfl]

section Written

variable {key : String} {values : List String}

theorem toList_markup_argument (key : String) (values : List String) :
    ((Kind.argument key).markup values).toList =
      if isPosition key then (String.join values).toList
      else key.toList ++ '=' :: (String.join values).toList := by
  rw [Kind.markup]
  split <;> simp

/-- What is read from an argument as it is written. -/
theorem keysFrom_cons_markup (hkey : Plain key) (hvalue : Plain (String.join values)) (k : Nat)
    (parts : List (List Char)) :
    keysFrom k (((Kind.argument key).markup values).toList :: parts) =
      if isPosition key then position (k + 1) :: keysFrom (k + 1) parts
      else key :: keysFrom k parts := by
  rw [toList_markup_argument, keysFrom]
  cases isPosition key with
  | true =>
    have hnone : '=' ∉ (String.join values).toList := hvalue '=' (by decide)
    rw [if_pos rfl, if_neg hnone, if_pos rfl]
  | false =>
    -- the equals sign behind the key is the first one
    have hfirst : (key.toList ++ '=' :: (String.join values).toList).takeWhile (· ≠ '=') =
        key.toList := by
      have hall : ∀ c ∈ key.toList, decide (c ≠ '=') = true := fun c hc =>
        decide_eq_true fun h => hkey '=' (by decide) (h ▸ hc)
      rw [List.takeWhile_append_of_pos hall, List.takeWhile_cons_of_neg (by simp),
        List.append_nil]
    rw [if_neg Bool.false_ne_true, if_pos (by simp), hfirst, String.ofList_toList,
      if_neg Bool.false_ne_true]

/-- An argument as it is written has no bar. -/
theorem bar_not_mem_markup (hkey : Plain key) (hvalue : Plain (String.join values)) :
    '|' ∉ ((Kind.argument key).markup values).toList := by
  have hvalue : '|' ∉ (String.join values).toList := hvalue '|' (by decide)
  rw [toList_markup_argument]
  split
  · exact hvalue
  · rw [List.mem_append, List.mem_cons]
    rintro (h | h | h)
    · exact hkey '|' (by decide) h
    · exact absurd h (by decide)
    · exact hvalue h

end Written

/-- The parts between bars, if none of them has a bar. -/
theorem splitOn_flatMap_bar {title : List Char} {parts : List (List Char)} (htitle : '|' ∉ title)
    (hparts : ∀ part ∈ parts, '|' ∉ part) :
    (title ++ parts.flatMap ('|' :: ·)).splitOn '|' = title :: parts := by
  have hjoined : ∀ title : List Char, ['|'].intercalate (title :: parts) =
      title ++ parts.flatMap ('|' :: ·) := by
    clear htitle hparts
    induction parts with
    | nil => simp
    | cons part parts ih =>
      intro title
      rw [List.intercalate_cons_cons, ih, List.flatMap_cons]
      simp
  rw [← hjoined]
  exact List.splitOn_intercalate '|' (List.forall_mem_cons.2 ⟨htitle, hparts⟩) (List.cons_ne_nil _ _)

end Call

namespace Forest

variable {f : Forest} {n : NodeId}

/-- The keys of the arguments of a call. -/
def argumentKeys (f : Forest) (n : NodeId) : List String :=
  (f.children n).filterMap fun c => (f.kind? c).bind Kind.key?

/-- An argument whose key and value have no character that means something in markup. -/
def PlainArgument (f : Forest) (c : NodeId) : Prop :=
  ∃ key, f.kind? c = some (.argument key) ∧ Plain key ∧
    Plain (String.join ((f.children c).map f.markup))

/-- A call of a template whose title and arguments have no character that means something in markup.
All its children are arguments. -/
structure PlainCall (f : Forest) (n : NodeId) : Prop where
  /-- It calls a template with a plain title. -/
  exists_title : ∃ title, f.kind? n = some (.template title) ∧ Plain title.name
  /-- All its children are plain arguments. -/
  plainArgument : ∀ c ∈ f.children n, f.PlainArgument c

/-- The keys of the arguments of a call can be read from its markup. -/
def KeepsKeys (f : Forest) (n : NodeId) : Prop :=
  ∃ inside, f.markup n = "\x7b\x7b" ++ inside ++ "\x7d\x7d" ∧ Call.keys inside = f.argumentKeys n

theorem WellFormed.keysFrom_children (hf : f.WellFormed) {cs : List NodeId}
    (hcs : ∀ c ∈ cs, f.PlainArgument c) (k : Nat) :
    Call.keysFrom k (cs.map fun c => (f.markup c).toList) =
      Call.recounted k (cs.filterMap fun c => (f.kind? c).bind Kind.key?) := by
  induction cs generalizing k with
  | nil => rfl
  | cons c cs ih =>
    obtain ⟨⟨key, hkind, hkey, hvalue⟩, hcs⟩ := List.forall_mem_cons.1 hcs
    have hhead : (f.kind? c).bind Kind.key? = some key := by rw [hkind]; rfl
    rw [List.map_cons, List.filterMap_cons_some (f := fun c => (f.kind? c).bind Kind.key?) hhead,
      hf.markup_eq hkind, Call.keysFrom_cons_markup hkey hvalue, Call.recounted, ih hcs, ih hcs]

/-- Read from the markup of a call, the keys are as they were, but the positions are counted. -/
theorem WellFormed.exists_keys_eq (hf : f.WellFormed) (hcall : f.PlainCall n) :
    ∃ inside, f.markup n = "\x7b\x7b" ++ inside ++ "\x7d\x7d" ∧
      Call.keys inside = Call.recounted 0 (f.argumentKeys n) := by
  obtain ⟨title, hkind, htitle⟩ := hcall.exists_title
  refine ⟨title.name ++ String.join (((f.children n).map f.markup).map ("|" ++ ·)), ?_, ?_⟩
  · simp only [hf.markup_eq hkind, Kind.markup, String.append_assoc]
  · have hparts : ∀ part ∈ (f.children n).map (fun c => (f.markup c).toList), '|' ∉ part := by
      intro part hpart
      obtain ⟨c, hc, rfl⟩ := List.mem_map.1 hpart
      obtain ⟨key, hkind, hkey, hvalue⟩ := hcall.plainArgument c hc
      rw [hf.markup_eq hkind]
      exact Call.bar_not_mem_markup hkey hvalue
    have hsplit := Call.splitOn_flatMap_bar (htitle '|' (by decide)) hparts
    have htext : (title.name ++ String.join (((f.children n).map f.markup).map ("|" ++ ·))).toList =
        title.name.toList ++
          ((f.children n).map fun c => (f.markup c).toList).flatMap ('|' :: ·) := by
      simp [List.flatMap_map]
    rw [Call.keys, htext, hsplit, List.tail_cons, hf.keysFrom_children hcall.plainArgument]
    rfl

theorem WellFormed.keepsKeys_iff (hf : f.WellFormed) (hcall : f.PlainCall n) :
    f.KeepsKeys n ↔ Call.recounted 0 (f.argumentKeys n) = f.argumentKeys n := by
  obtain ⟨inside, hmarkup, hkeys⟩ := hf.exists_keys_eq hcall
  constructor
  · rintro ⟨inside', hmarkup', hkeys'⟩
    -- there is only one text between the braces
    have hinside : inside' = inside := by
      rw [hmarkup] at hmarkup'
      simpa [← String.toList_inj] using hmarkup'.symm
    rw [← hkeys, ← hinside, hkeys']
  · intro h
    exact ⟨inside, hmarkup, hkeys.trans h⟩

/-- In a reachable forest, take a call of a template all of whose children are arguments and whose
title, keys and values have no character that means something in markup. Reading its markup gives the
keys of the arguments in order, but each position is replaced by its place among the positions. The
keys are therefore read as they are exactly if the positions among them are a count from one upwards.
-/
theorem keepsKeys_of_reachable (hf : f.Reachable) (hcall : f.PlainCall n) :
    (∃ inside, f.markup n = "\x7b\x7b" ++ inside ++ "\x7d\x7d" ∧
      Call.keys inside = Call.recounted 0 (f.argumentKeys n)) ∧
    (f.KeepsKeys n ↔ (f.argumentKeys n).filter isPosition =
      (List.range' 1 ((f.argumentKeys n).countP isPosition)).map Call.position) := by
  have hwf := hf.wellFormed
  exact ⟨hwf.exists_keys_eq hcall,
    (hwf.keepsKeys_iff hcall).trans (Call.recounted_eq_self_iff 0 _)⟩

/-- A call with two positions in order around a name, and a call with a position that does not come
first. -/
def sampleArguments : List Command :=
  [.addLeaf (.text "John") 2, .addParent (.argument "1") 2 [⟨0⟩], .addLeaf (.argument "name") 2,
    .addLeaf (.argument "2") 2, .addParent (.template (.template "Box")) 2 [⟨1⟩, ⟨2⟩, ⟨3⟩],
    .addLeaf (.text "x") 3, .addParent (.argument "5") 3 [⟨5⟩],
    .addParent (.template (.template "T")) 3 [⟨6⟩]]

theorem keepsKeys_of_reachable_sampleArguments :
    (empty.runAll sampleArguments).argumentKeys ⟨4⟩ = ["1", "name", "2"] ∧
    (empty.runAll sampleArguments).KeepsKeys ⟨4⟩ := by
  have hreach : (empty.runAll sampleArguments).Reachable := .runAll .empty _ (by decide +kernel)
  have hchildren : (empty.runAll sampleArguments).children ⟨4⟩ = [⟨1⟩, ⟨2⟩, ⟨3⟩] := by decide +kernel
  have hcall : (empty.runAll sampleArguments).PlainCall ⟨4⟩ := by
    refine ⟨⟨.template "Box", by decide +kernel, by decide +kernel⟩, ?_⟩
    rw [hchildren, List.forall_mem_cons, List.forall_mem_cons, List.forall_mem_singleton]
    exact ⟨⟨"1", by decide +kernel⟩, ⟨"name", by decide +kernel⟩, ⟨"2", by decide +kernel⟩⟩
  exact ⟨by decide +kernel, (keepsKeys_of_reachable hreach hcall).2.2 (by decide +kernel)⟩

/-- The keys of a call cannot always be read from its markup: the only argument of a call has the
position `5`, and is read as the first one. -/
theorem not_keepsKeys_sampleArguments :
    (empty.runAll sampleArguments).Reachable ∧
    (empty.runAll sampleArguments).PlainCall ⟨7⟩ ∧
    (empty.runAll sampleArguments).markup ⟨7⟩ = "\x7b\x7bT|x\x7d\x7d" ∧
    Call.keys "T|x" = ["1"] ∧
    (empty.runAll sampleArguments).argumentKeys ⟨7⟩ = ["5"] ∧
    ¬(empty.runAll sampleArguments).KeepsKeys ⟨7⟩ := by
  have hreach : (empty.runAll sampleArguments).Reachable := .runAll .empty _ (by decide +kernel)
  have hchildren : (empty.runAll sampleArguments).children ⟨7⟩ = [⟨6⟩] := by decide +kernel
  have hcall : (empty.runAll sampleArguments).PlainCall ⟨7⟩ := by
    refine ⟨⟨.template "T", by decide +kernel, by decide +kernel⟩, ?_⟩
    rw [hchildren, List.forall_mem_singleton]
    exact ⟨"5", by decide +kernel⟩
  refine ⟨hreach, hcall, by decide +kernel, by decide +kernel, by decide +kernel, ?_⟩
  rw [hreach.wellFormed.keepsKeys_iff hcall]
  decide +kernel

end Forest

end MarkupForest
