import MarkupForest.Proofs.Lists
import MarkupForest.Uri.ScopedIssuer
import Mathlib.Data.List.Nodup

/-!
# Numbering URIs

An issuer numbers the URIs with the same stem, so what it issues is told apart by stem and number.
Stems are arbitrary text and may look like URIs that have been issued; a URI can still be split in one
way only, since its number has no underscore.

## Main definitions

* `Request` and `Issuer.serveAll`: calls to an issuer, and the URIs that it makes for them;
* `numbered`: a stem and a number as a URI.

## Main results

* `numbered_inj`: stem and number can be read off a URI;
* `getElem?_serveAll`: a URI has the number of times that its stem has come up;
* `nodup_serveAll`: an issuer never makes the same URI twice, and neither does one that serves all
  calls within a scope.
-/

namespace MarkupForest.Uri

/-! ## Stems and numbers -/

/-- The URI with the given stem and number. -/
def numbered (stem : String) (number : UInt32) : String :=
  stem ++ separator ++ String.ofList (Nat.toDigits 10 number.toNat)

theorem toList_numbered (stem : String) (number : UInt32) :
    (numbered stem number).toList =
      (stem.toList ++ ['_']) ++ '_' :: Nat.toDigits 10 number.toNat := by
  simp [numbered, separator]

/-- Stem and number can be read off a URI, whatever the stem looks like. -/
theorem numbered_inj {s t : String} {m n : UInt32} :
    numbered s m = numbered t n ↔ s = t ∧ m = n := by
  refine ⟨fun h => ?_, by rintro ⟨rfl, rfl⟩; rfl⟩
  have hlists := congrArg String.toList h
  rw [toList_numbered, toList_numbered] at hlists
  obtain ⟨hstem, hdigits⟩ :=
    split_at_last Nat.underscore_not_in_toDigits Nat.underscore_not_in_toDigits hlists
  refine ⟨String.toList_inj.1 (List.append_cancel_right hstem), UInt32.toNat_inj.1 ?_⟩
  calc m.toNat = Nat.ofDigitChars 10 (Nat.toDigits 10 m.toNat) 0 :=
        Nat.ofDigitChars_ten_toDigits.symm
    _ = Nat.ofDigitChars 10 (Nat.toDigits 10 n.toNat) 0 := by rw [hdigits]
    _ = n.toNat := Nat.ofDigitChars_ten_toDigits

/-! ## Calls to an issuer -/

/-- A call to an issuer. -/
inductive Request where
  /-- Asks for a URI from a base and a text. -/
  | ofText (base text : String)
  /-- Asks for a URI from a base and the text of the tree of a node, or from the base alone. -/
  | ofTree (base : String) (tree : Option Tree)

namespace Request

/-- The stem of the URI that is asked for. -/
def stem (limit : Nat) : Request → String
  | ofText base text => Uri.stem limit base text
  | ofTree base tree => Uri.stem limit base ((tree.map Tree.contribution).getD "")

end Request

namespace Issuer

/-- Makes the URI that is asked for. -/
def serve (i : Issuer) : Request → String × Issuer
  | .ofText base text => i.issue base text
  | .ofTree base tree => i.issueFor base tree

/-- Makes the URIs that are asked for, one after the other. -/
def serveAll (i : Issuer) : List Request → List String × Issuer
  | [] => ([], i)
  | r :: rs => ((i.serve r).1 :: ((i.serve r).2.serveAll rs).1, ((i.serve r).2.serveAll rs).2)

/-- A URI has the stem that is asked for and the number of times that it has come up. -/
theorem serve_eq (i : Issuer) (r : Request) :
    i.serve r =
      (numbered (r.stem i.limit) (i.tally.count (r.stem i.limit) + 1),
        { i with tally := i.tally.add (r.stem i.limit) }) := by
  have hcount : ∀ s, (i.tally.add s).count s = i.tally.count s + 1 := fun s => by
    simp [Tally.count_add]
  cases r with
  | ofText base text => simp [serve, issue, numbered, Request.stem, hcount]
  | ofTree base tree => simp [serve, issueFor, issue, numbered, Request.stem, hcount]

/-- The counter law: a URI is numbered by how often its stem has come up so far, before the calls
and among them. -/
theorem getElem?_serveAll (i : Issuer) (rs : List Request) (k : Nat) :
    (i.serveAll rs).1[k]? = rs[k]?.map fun r =>
      numbered (r.stem i.limit) (i.tally.count (r.stem i.limit) +
        .ofNat (((rs.take (k + 1)).map (Request.stem i.limit)).count (r.stem i.limit))) := by
  induction rs generalizing i k with
  | nil => simp [serveAll]
  | cons r rs ih =>
    cases k with
    | zero => simp [serveAll, serve_eq]
    | succ k =>
      rw [serveAll, List.getElem?_cons_succ, ih, serve_eq, List.getElem?_cons_succ]
      refine Option.map_congr fun q _ => congrArg (numbered _) ?_
      -- the call at the head has been counted, whether or not it has the same stem
      rw [List.take_succ_cons, List.map_cons, List.count_cons, Tally.count_add]
      by_cases hq : q.stem i.limit = r.stem i.limit
      · have hone : UInt32.ofNat 1 = 1 := rfl
        simp only [hq, if_true, beq_self_eq_true, UInt32.ofNat_add, hone]
        ac_rfl
      · simp [hq, Ne.symm hq]

theorem length_serveAll (i : Issuer) (rs : List Request) : (i.serveAll rs).1.length = rs.length := by
  induction rs generalizing i with
  | nil => rfl
  | cons r rs ih => simp [serveAll, ih]

/-- A stem has come up more often after a call for it than at any time before. -/
theorem count_take_lt (stems : List String) {s : String} {j k : Nat} (hjk : j < k)
    (hk : stems[k]? = some s) : (stems.take (j + 1)).count s < (stems.take (k + 1)).count s := by
  have hprefix : (stems.take (j + 1)).count s ≤ (stems.take k).count s :=
    (List.take_sublist_take_left (by omega)).count_le s
  have hlast : (stems.take (k + 1)).count s = (stems.take k).count s + 1 := by
    rw [List.take_add_one, hk]
    simp
  omega

/-- In a run that is short enough, no stem comes up more often than a word can count. -/
theorem count_stem_lt (limit : Nat) {rs : List Request} (hrs : rs.length < UInt32.size)
    (s : String) (l : Nat) : ((rs.take l).map (Request.stem limit)).count s < UInt32.size := by
  have hle : ((rs.take l).map (Request.stem limit)).count s ≤ (rs.take l).length := by
    simpa using List.count_le_length (a := s) (l := (rs.take l).map (Request.stem limit))
  have htake : (rs.take l).length ≤ rs.length := (List.take_sublist l rs).length_le
  omega

/-- A new issuer makes no URI twice before its numbers run out. -/
theorem nodup_serveAll_of_fresh {i : Issuer} (hfresh : ∀ s, i.tally.count s = 0)
    {rs : List Request} (hrs : rs.length < UInt32.size) : (i.serveAll rs).1.Nodup := by
  rw [List.nodup_iff_getElem?_ne_getElem?]
  intro j k hjk hk heq
  rw [length_serveAll] at hk
  have hj : j < rs.length := by omega
  have hbound := count_stem_lt i.limit hrs
  -- equal URIs have equal stems and equal numbers, and the later number is greater
  simp only [getElem?_serveAll, List.getElem?_eq_getElem hj, List.getElem?_eq_getElem hk,
    Option.map_some, Option.some.injEq, numbered_inj, hfresh, UInt32.zero_add] at heq
  obtain ⟨hstem, hnumber⟩ := heq
  have hnumber' := congrArg UInt32.toNat hnumber
  rw [UInt32.toNat_ofNat_of_lt' (hbound _ _), UInt32.toNat_ofNat_of_lt' (hbound _ _), hstem,
    List.map_take, List.map_take] at hnumber'
  have hlt := count_take_lt (rs.map (Request.stem i.limit)) hjk
    (s := Request.stem i.limit rs[k]) (by simp [hk])
  omega

theorem count_ofSettings (s : Settings) (text : String) :
    (ofSettings s).tally.count text = 0 := rfl

end Issuer

/-! ## Calls within a scope -/

namespace ScopedIssuer

/-- Makes the URIs that are asked for, one after the other. -/
def serveAll (i : ScopedIssuer) : List (String × Option Tree) → List String × ScopedIssuer
  | [] => ([], i)
  | (base, tree) :: rs =>
    ((i.issueFor base tree).1 :: ((i.issueFor base tree).2.serveAll rs).1,
      ((i.issueFor base tree).2.serveAll rs).2)

/-- One issuer that serves all calls makes what that issuer makes. -/
theorem serveAll_of_shared {i : ScopedIssuer} (hscope : i.settings.scope = .shared)
    (rs : List (String × Option Tree)) :
    (i.serveAll rs).1 = (i.shared.serveAll (rs.map fun r => .ofTree r.1 r.2)).1 := by
  induction rs generalizing i with
  | nil => rfl
  | cons r rs ih =>
    have hissue : i.issueFor r.1 r.2 =
        ((i.shared.issueFor r.1 r.2).1, { i with shared := (i.shared.issueFor r.1 r.2).2 }) := by
      simp [issueFor, hscope]
    rw [serveAll, hissue, List.map_cons, Issuer.serveAll, Issuer.serve]
    exact congrArg ((i.shared.issueFor r.1 r.2).1 :: ·) (ih hscope)

end ScopedIssuer

/-- Whatever the settings, an issuer never makes the same URI twice before its numbers run out, for
whatever bases, texts and trees; and neither does an issuer within a scope if it is one issuer that
serves all calls. -/
theorem nodup_serveAll (s : Settings) :
    (∀ rs : List Request, rs.length < UInt32.size →
      ((Issuer.ofSettings s).serveAll rs).1.Nodup) ∧
    (s.scope = .shared → ∀ rs : List (String × Option Tree), rs.length < UInt32.size →
      ((ScopedIssuer.ofSettings s).serveAll rs).1.Nodup) := by
  refine ⟨fun rs hrs => Issuer.nodup_serveAll_of_fresh (Issuer.count_ofSettings s) hrs, ?_⟩
  intro hscope rs hrs
  rw [ScopedIssuer.serveAll_of_shared (i := ScopedIssuer.ofSettings s) hscope]
  exact Issuer.nodup_serveAll_of_fresh (Issuer.count_ofSettings s) (by simpa using hrs)

/-- Bases and texts that look like issued URIs do not lead to one of them. -/
theorem nodup_serveAll_lookalikes :
    ((Issuer.ofSettings { scope := .shared }).serveAll
        [.ofText "x" "", .ofText "x__1" "", .ofText "x" "1", .ofTree "x" none]).1 =
      ["x__1", "x__1__1", "x__1__2", "x__2"] ∧
    ((Issuer.ofSettings { scope := .shared }).serveAll
        [.ofText "x" "", .ofText "x__1" "", .ofText "x" "1", .ofTree "x" none]).1.Nodup ∧
    ((ScopedIssuer.ofSettings { scope := .shared }).serveAll
        [("x", none), ("x__1", none), ("x", some (.mk ⟨⟨0⟩, .text "1", 1⟩ []))]).1.Nodup :=
  ⟨by decide +kernel, (nodup_serveAll { scope := .shared }).1 _ (by decide),
    (nodup_serveAll { scope := .shared }).2 rfl _ (by decide)⟩

end MarkupForest.Uri
