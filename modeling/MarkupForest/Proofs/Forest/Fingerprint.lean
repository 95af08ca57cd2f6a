import MarkupForest.Proofs.Forest.Pageless
import Mathlib.Data.List.Induction
import Mathlib.Data.Nat.Digits.Defs

/-!
# Content hashes and the numbers made from them

The content hash of a node is the hash of some bytes: eight for the revision of its page, four for
its line, and its markup. There is nothing between them, but the first two have a fixed length, so
the content can be read off the bytes. Two hashes are therefore the same if the contents are, and
otherwise only if the hash function maps two different byte strings to the same hash.

A hash is made once and then kept. Over a run it is made from the content of the node at the moment
when it is first asked for, which need not be the content at the end.

The number of a node that is no page is made from its hash. It is never too large, and the hash can
be read off it up to its two lowest bits.

## Main definitions

* `Content` and `Content.bytes`: what a hash is made from;
* `Content.Spelled`: the bytes spell the content;
* `Forest.content?`: the content of a node as the forest stands;
* `Forest.HashedFrom`: the content that the hash of a node is made from over a run.

## Main results

* `Content.spelled_bytes` and `Content.Spelled.unique`: bytes spell one content;
* `Forest.numberOf_eq_iff`: what numbers say about hashes;
* `Forest.exists_hashedFrom` and `Forest.HashedFrom.unique`: which content a kept hash is made from;
* `Forest.hashes_of_runs`: the hashes and numbers of two nodes after any two runs.
-/

namespace MarkupForest

/-! ## The bytes of a content -/

/-- What the content hash of a node is made from. -/
@[ext]
structure Content where
  /-- The revision of its page. -/
  revision : Int64
  /-- Its line. -/
  line : UInt32
  /-- Its markup. -/
  markup : String
deriving DecidableEq, Repr

namespace Content

variable {x y : Content} {bs : List UInt8}

/-- The bytes that are hashed. -/
def bytes (x : Content) : List UInt8 :=
  Forest.fingerprintInput x.revision x.line x.markup

/-- The number that bytes stand for, the lowest first. -/
def value (bytes : List UInt8) : Nat :=
  Nat.ofDigits 256 (bytes.map UInt8.toNat)

/-- The bytes spell the content: eight bytes for the revision, in two's complement, four bytes for
the line, and the markup in UTF-8. -/
structure Spelled (x : Content) (bytes : List UInt8) : Prop where
  /-- There are as many bytes as that. -/
  length : bytes.length = 12 + x.markup.utf8ByteSize
  /-- The first eight are the revision modulo `2 ^ 64`. -/
  revision : (value (bytes.take 8) : Int) = x.revision.toInt % 2 ^ 64
  /-- The next four are the line. -/
  line : value ((bytes.drop 8).take 4) = x.line.toNat
  /-- The others are the markup. -/
  markup : bytes.drop 12 = x.markup.toUTF8.data.toList

theorem length_littleEndian (count n : Nat) : (Forest.littleEndian count n).length = count := by
  induction count generalizing n with
  | zero => rfl
  | succ count ih => rw [Forest.littleEndian, List.length_cons, ih]

/-- The bytes of a number stand for it, as far as they reach. -/
theorem value_littleEndian (count n : Nat) :
    value (Forest.littleEndian count n) = n % 256 ^ count := by
  induction count generalizing n with
  | zero => simp [value, Forest.littleEndian, Nat.mod_one]
  | succ count ih =>
    have hbyte : (UInt8.ofNat n).toNat = n % 256 := UInt8.toNat_ofNat'
    rw [Forest.littleEndian, value, List.map_cons, Nat.ofDigits_cons, hbyte, pow_succ', Nat.mod_mul]
    exact congrArg (n % 256 + 256 * ·) (ih (n / 256))

/-- The word of a number with a sign is the number modulo `2 ^ 64`. -/
theorem toNat_toUInt64 (r : Int64) : (r.toUInt64.toNat : Int) = r.toInt % 2 ^ 64 := by
  have hsigned : r.toInt = (r.toUInt64.toNat : Int).bmod (2 ^ 64) := by
    rw [← Int64.toNat_toBitVec]
    exact BitVec.toInt_eq_toNat_bmod r.toBitVec
  have hbound : r.toUInt64.toNat < 2 ^ 64 := r.toUInt64.toNat_lt
  have hmod := Int.bmod_emod (x := r.toUInt64.toNat) (m := 2 ^ 64)
  rw [← hsigned] at hmod
  omega

/-- The bytes that are hashed spell the content. -/
theorem spelled_bytes (x : Content) : x.Spelled x.bytes := by
  have hrevision := length_littleEndian 8 x.revision.toUInt64.toNat
  have hline := length_littleEndian 4 x.line.toNat
  refine ⟨?_, ?_, ?_, ?_⟩
  · rw [bytes, Forest.fingerprintInput, List.length_append, List.length_append, hrevision, hline]
    rfl
  · have hword : x.revision.toUInt64.toNat < 256 ^ 8 := x.revision.toUInt64.toNat_lt
    rw [bytes, Forest.fingerprintInput, List.append_assoc, List.take_left' hrevision,
      value_littleEndian, Nat.mod_eq_of_lt hword, toNat_toUInt64]
  · have hword : x.line.toNat < 256 ^ 4 := x.line.toNat_lt
    rw [bytes, Forest.fingerprintInput, List.append_assoc, List.drop_left' hrevision,
      List.take_left' hline, value_littleEndian, Nat.mod_eq_of_lt hword]
  · rw [bytes, Forest.fingerprintInput, List.drop_left']
    rw [List.length_append, hrevision, hline]

/-- No bytes spell two contents. -/
theorem Spelled.unique (hx : x.Spelled bs) (hy : y.Spelled bs) : x = y := by
  have hrevision : x.revision = y.revision := by
    have hmod : x.revision.toInt % 2 ^ 64 = y.revision.toInt % 2 ^ 64 :=
      hx.revision.symm.trans hy.revision
    -- numbers with a sign that are less than `2 ^ 64` apart are told apart by their remainders
    have hxbounds := And.intro x.revision.le_toInt x.revision.toInt_lt
    have hybounds := And.intro y.revision.le_toInt y.revision.toInt_lt
    apply Int64.toInt_inj.1
    omega
  have hline : x.line = y.line := UInt32.toNat_inj.1 (hx.line.symm.trans hy.line)
  have hmarkup : x.markup = y.markup := by
    apply String.toByteArray_inj.1
    exact ByteArray.ext (Array.toList_inj.1 (hx.markup.symm.trans hy.markup))
  exact Content.ext hrevision hline hmarkup

/-- Different contents have different bytes. -/
theorem bytes_inj : x.bytes = y.bytes ↔ x = y := by
  refine ⟨fun h => ?_, fun h => by rw [h]⟩
  exact (h ▸ x.spelled_bytes).unique y.spelled_bytes

end Content

namespace Forest

variable {f g : Forest} {m n r : NodeId} {d e : UInt64}

/-! ## Numbers made from hashes -/

theorem toInt_numberOf_eq (d : UInt64) :
    (numberOf d).toInt = ((d.toNat / 4 : Nat) : Int) + 2 ^ 62 := by
  have hoffset : numberOffset.toInt = 2 ^ 62 := by decide
  rw [toInt_numberOf, toInt_toInt64_shiftRight, hoffset]

/-- Numbers made from hashes stay below the bound of numbers with a sign, and above the offset. -/
theorem numberOf_bounds (d : UInt64) :
    2 ^ 62 ≤ (numberOf d).toInt ∧ (numberOf d).toInt < 2 ^ 63 := by
  have hbound : d.toNat < 2 ^ 64 := d.toNat_lt
  rw [toInt_numberOf_eq]
  omega

/-- Two numbers are the same if the hashes agree in all bits but the two lowest. -/
theorem numberOf_eq_iff :
    numberOf d = numberOf e ↔ ∀ k, 2 ≤ k → d.toNat.testBit k = e.toNat.testBit k := by
  rw [← Int64.toInt_inj, toInt_numberOf_eq, toInt_numberOf_eq]
  constructor
  · intro h k hk
    have hquarter : d.toNat / 2 ^ 2 = e.toNat / 2 ^ 2 := by omega
    have hbit := congrArg (·.testBit (k - 2)) hquarter
    simp only [Nat.testBit_div_two_pow, Nat.sub_add_cancel hk] at hbit
    exact hbit
  · intro h
    have hquarter : d.toNat / 2 ^ 2 = e.toNat / 2 ^ 2 := by
      apply Nat.eq_of_testBit_eq
      intro k
      rw [Nat.testBit_div_two_pow, Nat.testBit_div_two_pow, h (k + 2) (by omega)]
    omega

/-- A node that is no page is numbered by its hash, whether or not the hash is kept. -/
theorem answer_ident_of_answer_fingerprint (hpage : f.isPage n = false)
    (h : f.answer (.fingerprint n) = .ok (.hash d)) :
    f.answer (.ident n) = .ok (.ident (numberOf d)) := by
  obtain ⟨o, hrun, ho⟩ := exists_run_of_answer h
  obtain ⟨hn, hasked⟩ := contains_of_onNode hrun
  obtain ⟨d', g, hhash, rfl⟩ := exists_of_asked hasked
  obtain rfl : d' = d := Answer.hash.inj ho
  rw [answer, run, onNode, if_pos hn, ident, pageNumber?_of_isPage_eq_false hpage, hhash]
  rfl

/-! ## The content of a node -/

/-- The content of a node as the forest stands, on the page that is given as its root. -/
def content? (f : Forest) (n : NodeId) : Option Content :=
  match f.root n with
  | .ok (r, _) => (f.page? r).map fun p => ⟨p.revision, f.line n, f.markup n⟩
  | .error _ => none

theorem content?_of_root (hroot : f.root n = .ok (r, g)) {p : Page} (hp : f.page? r = some p) :
    f.content? n = some ⟨p.revision, f.line n, f.markup n⟩ := by
  rw [content?, hroot]
  dsimp only
  rw [hp, Option.map_some]

/-- The hash that is found on a page is that of the content there. -/
theorem findFingerprint_eq {p : Page} (hp : f.page? r = some p) :
    f.findFingerprint r n =
      Digest.Blake3.hash64 (Content.bytes ⟨p.revision, f.line n, f.markup n⟩) := by
  rw [findFingerprint, revision, hp, Option.map_some, Option.getD_some, Content.bytes]

/-- What is found out concerns one node only. -/
theorem Learns.eq_of_memo_ne (h : Learns m f g) (hne : g.memo n ≠ f.memo n) : n = m := by
  by_contra hnm
  exact hne (h.memo_of_ne hnm)

/-- A root that is kept after something has been found out was given before as well. -/
theorem LearnsAll.root_of_memo (h : LearnsAll m f g) (hr : (g.memo n).root = some r) :
    ∃ f', f.root n = .ok (r, f') := by
  induction h with
  | refl => exact ⟨f, root_of_kept hr⟩
  | @tail g' g hlearns hlast ih =>
    cases hkept : (g'.memo n).root with
    | some r' =>
      have hsame : some r' = some r := ((hlast.memo_le n).root r' hkept).symm.trans hr
      exact ih (hkept.trans hsame)
    | none =>
      -- the root is what has just been found out, and it has been there to be found all along
      have hbefore : (f.memo n).root = none := by
        cases hold : (f.memo n).root with
        | none => rfl
        | some r' =>
          rw [(LearnsAll.memo_le hlearns n).root r' hold] at hkept
          cases hkept
      obtain rfl : n = m := hlast.eq_of_memo_ne fun hmemo => by
        rw [hmemo, hkept] at hr
        cases hr
      have hthere := hlast.contains
      cases hlast with
      | root _ hfound =>
        rw [memo_remember hthere, if_pos rfl] at hr
        obtain rfl := Option.some.inj hr
        rw [eq_of_skeleton_eq findRoot_skeleton (LearnsAll.skeleton_eq hlearns)] at hfound
        exact ⟨_, by rw [Forest.root, hbefore, hfound]⟩
      | heading | fingerprint =>
        rw [memo_remember hthere, if_pos rfl] at hr
        exact absurd (hkept.symm.trans hr) (by simp)

/-- A hash that is found out is made from the content of the node before. -/
theorem LearnsAll.exists_content (h : LearnsAll m f g) (hf : f.WellKept n)
    (hnew : (f.memo n).fingerprint = none) (hd : (g.memo n).fingerprint = some d) :
    ∃ x, f.content? n = some x ∧ d = Digest.Blake3.hash64 x.bytes := by
  induction h with
  | refl =>
    rw [hnew] at hd
    cases hd
  | @tail g' g hlearns hlast ih =>
    cases hkept : (g'.memo n).fingerprint with
    | some d' =>
      have hsame : some d' = some d := ((hlast.memo_le n).fingerprint d' hkept).symm.trans hd
      exact ih (hkept.trans hsame)
    | none =>
      obtain rfl : n = m := hlast.eq_of_memo_ne fun hmemo => by
        rw [hmemo, hkept] at hd
        cases hd
      have hthere := hlast.contains
      cases hlast with
      | fingerprint _ hroot =>
        rw [memo_remember hthere, if_pos rfl] at hd
        obtain ⟨f', hf'⟩ := LearnsAll.root_of_memo hlearns hroot
        have hskel := LearnsAll.skeleton_eq hlearns
        obtain ⟨p, hp⟩ := exists_page_of_isPage (hf.isPage_of_root hf')
        refine ⟨_, content?_of_root hf' hp, ?_⟩
        -- finding things out changes nothing that the hash is made from
        rw [← findFingerprint_eq hp, ← eq_of_skeleton_eq findFingerprint_skeleton hskel]
        exact (Option.some.inj hd).symm
      | root | heading =>
        rw [memo_remember hthere, if_pos rfl] at hd
        exact absurd (hkept.symm.trans hd) (by simp)

/-! ## Hashes over a run -/

/-- Over a run, the hash of a node is made from the given content: that of the node at the last
moment at which no hash is kept about it. If none is kept at the end, then this is the end. -/
def HashedFrom (cs : List Command) (n : NodeId) (x : Content) : Prop :=
  ∃ before, before <+: cs ∧ ((empty.runAll before).memo n).fingerprint = none ∧
    (∀ c, before ++ [c] <+: cs → ((empty.runAll (before ++ [c])).memo n).fingerprint ≠ none) ∧
    (empty.runAll before).content? n = some x

theorem runAll_concat (f : Forest) (cs : List Command) (c : Command) :
    f.runAll (cs ++ [c]) = (f.runAll cs).step c :=
  runAll_append f cs [c]

/-- One more call changes nothing about the moment at which a kept hash has been made. -/
theorem HashedFrom.concat {cs : List Command} {c : Command} {x : Content} (h : HashedFrom cs n x)
    (hkept : ((empty.runAll (cs ++ [c])).memo n).fingerprint ≠ none) :
    HashedFrom (cs ++ [c]) n x := by
  obtain ⟨before, hbefore, hnew, hnext, hx⟩ := h
  refine ⟨before, hbefore.trans (List.prefix_append cs [c]), hnew, fun c' hc' => ?_, hx⟩
  rcases List.prefix_concat_iff.1 hc' with heq | hprefix
  · rw [heq]
    exact hkept
  · exact hnext c' hprefix

/-- If a hash is kept one call after a moment of a run, then at no later moment none is kept. -/
theorem eq_of_prefix_of_unhashed {cs before later : List Command}
    (hsize : (empty.runAll cs).size ≤ UInt32.size) (hle : before <+: later) (hlater : later <+: cs)
    (hnext : ∀ c, before ++ [c] <+: cs →
      ((empty.runAll (before ++ [c])).memo n).fingerprint ≠ none)
    (hnone : ((empty.runAll later).memo n).fingerprint = none) : before = later := by
  obtain ⟨between, rfl⟩ := hle
  cases between with
  | nil => rw [List.append_nil]
  | cons c rest =>
    rw [List.append_cons] at hlater hnone
    obtain ⟨d, hd⟩ :=
      Option.ne_none_iff_exists'.1 (hnext c ((List.prefix_append _ rest).trans hlater))
    obtain ⟨after, rfl⟩ := hlater
    rw [runAll_append] at hsize
    have hsize' := (size_le_size_runAll _ after).trans hsize
    rw [runAll_append] at hsize' hnone
    rw [(memo_le_runAll hsize' n).fingerprint d hd] at hnone
    cases hnone

/-- A hash is kept from the moment when it is made, so there is no second such moment. -/
theorem HashedFrom.unique {cs : List Command} {x y : Content}
    (hsize : (empty.runAll cs).size ≤ UInt32.size) (hx : HashedFrom cs n x)
    (hy : HashedFrom cs n y) : x = y := by
  obtain ⟨before, hbefore, hnew, hnext, hx⟩ := hx
  obtain ⟨before', hbefore', hnew', hnext', hy⟩ := hy
  obtain rfl : before = before' := by
    rcases List.prefix_or_prefix_of_prefix hbefore hbefore' with h | h
    · exact eq_of_prefix_of_unhashed hsize h hbefore' hnext hnew'
    · exact (eq_of_prefix_of_unhashed hsize h hbefore hnext' hnew).symm
  exact Option.some.inj (hx.symm.trans hy)

/-- A hash that is kept after a run has been made from the content at the moment of the first
question. -/
theorem exists_hashedFrom {cs : List Command} (hsize : (empty.runAll cs).size ≤ UInt32.size)
    (hd : ((empty.runAll cs).memo n).fingerprint = some d) :
    ∃ x, HashedFrom cs n x ∧ d = Digest.Blake3.hash64 x.bytes := by
  -- over the run from its end: its last call finds the hash kept, or makes it, or does neither
  induction cs using List.reverseRecOn with
  | nil => cases hd
  | append_singleton cs c ih =>
    have hkept : ((empty.runAll (cs ++ [c])).memo n).fingerprint ≠ none := by simp [hd]
    have hchange := change_step (empty.runAll cs) c
    rw [← runAll_concat] at hchange
    have hsize' : (empty.runAll cs).size ≤ UInt32.size := hchange.size_le.trans hsize
    cases hold : ((empty.runAll cs).memo n).fingerprint with
    | some d' =>
      have hsame : some d' = some d :=
        ((hchange.memo_le hsize n).fingerprint d' hold).symm.trans hd
      obtain ⟨x, hx, hhash⟩ := ih hsize' (hold.trans hsame)
      exact ⟨x, hx.concat hkept, hhash⟩
    | none =>
      rcases hchange.memo_eq_or_learnsAll hsize with hmemo | ⟨m, hlearns⟩
      · rw [hmemo, hold] at hd
        cases hd
      · have hgood := (Reachable.empty.runAll cs hsize').wellKept n
        obtain ⟨x, hx, hhash⟩ := hlearns.exists_content hgood hold hd
        refine ⟨x, ⟨cs, List.prefix_append cs [c], hold, fun c' hc' => ?_, hx⟩, hhash⟩
        obtain rfl : c' = c := by simpa using (List.prefix_append_right_inj cs).1 hc'
        exact hkept

/-- A node that belongs to a page has a hash, and the hash is that of the content of the node at the
moment of the first question. -/
theorem exists_hashedFrom_of_root {cs : List Command}
    (hsize : (empty.runAll cs).size ≤ UInt32.size)
    (hroot : (empty.runAll cs).answer (.tryRoot n) = .ok (.node r)) :
    ∃ x, HashedFrom cs n x ∧
      (empty.runAll cs).answer (.fingerprint n) = .ok (.hash (Digest.Blake3.hash64 x.bytes)) := by
  have hgood := (Reachable.empty.runAll cs hsize).wellKept n
  obtain ⟨hn, g, hr⟩ := exists_root_of_answer hroot
  obtain ⟨⟨d, g'⟩, hhash⟩ := hgood.failAlike_fingerprint.exists_ok hr
  have hanswer : (empty.runAll cs).answer (.fingerprint n) = .ok (.hash d) := by
    rw [answer, run, onNode, if_pos hn, hhash]
    rfl
  have hd : (g'.memo n).fingerprint = some d := fingerprint_of_fingerprint hhash
  rw [hanswer]
  cases hold : ((empty.runAll cs).memo n).fingerprint with
  | some d' =>
    have hsame : some d' = some d :=
      (((learnsAll_fingerprint hhash).memo_le n).fingerprint d' hold).symm.trans hd
    obtain ⟨x, hx, rfl⟩ := exists_hashedFrom hsize (hold.trans hsame)
    exact ⟨x, hx, rfl⟩
  | none =>
    -- the hash is made now, so the moment is the end of the run
    obtain ⟨x, hx, rfl⟩ := (learnsAll_fingerprint hhash).exists_content hgood hold hd
    refine ⟨x, ⟨cs, List.prefix_refl cs, hold, fun c hc => ?_, hx⟩, rfl⟩
    exact absurd hc.length_le (by simp)

/-- The bytes that are hashed are eight for the revision, four for the line and the markup in UTF-8,
and two contents have the same bytes exactly if they are the same. After any two runs, the hash of a
node that belongs to a page is that of the bytes of its content at the moment when it was first
asked for. The hashes of two such nodes are the same exactly if the contents are, or if the hash
function maps the different bytes to the same hash. Such a node that is no page has a number made
from its hash by adding up numbers without overflow, which is at least `2 ^ 62` and below `2 ^ 63`;
and two of these numbers are the same exactly if the hashes agree in all bits but maybe the two
lowest. -/
theorem hashes_of_runs {cs ds : List Command} {a b q r : NodeId}
    (hcs : (empty.runAll cs).size ≤ UInt32.size) (hds : (empty.runAll ds).size ≤ UInt32.size)
    (ha : (empty.runAll cs).answer (.tryRoot a) = .ok (.node r))
    (hb : (empty.runAll ds).answer (.tryRoot b) = .ok (.node q)) :
    (∀ x : Content, x.Spelled x.bytes) ∧
    (∀ x y : Content, x.bytes = y.bytes ↔
      x.revision = y.revision ∧ x.line = y.line ∧ x.markup = y.markup) ∧
    (∀ d : UInt64, (d >>> 2).toInt64.toInt = ((d.toNat / 4 : Nat) : Int) ∧
      (numberOf d).toInt = (d >>> 2).toInt64.toInt + numberOffset.toInt ∧
      2 ^ 62 ≤ (numberOf d).toInt ∧ (numberOf d).toInt < 2 ^ 63) ∧
    ∃ x y d e, HashedFrom cs a x ∧ HashedFrom ds b y ∧
      d = Digest.Blake3.hash64 x.bytes ∧ e = Digest.Blake3.hash64 y.bytes ∧
      (empty.runAll cs).answer (.fingerprint a) = .ok (.hash d) ∧
      (empty.runAll ds).answer (.fingerprint b) = .ok (.hash e) ∧
      (d = e ↔ x = y ∨
        x.bytes ≠ y.bytes ∧ Digest.Blake3.hash64 x.bytes = Digest.Blake3.hash64 y.bytes) ∧
      ((empty.runAll cs).isPage a = false →
        (empty.runAll cs).answer (.ident a) = .ok (.ident (numberOf d))) ∧
      ((empty.runAll ds).isPage b = false →
        (empty.runAll ds).answer (.ident b) = .ok (.ident (numberOf e))) ∧
      (numberOf d = numberOf e ↔ ∀ k, 2 ≤ k → d.toNat.testBit k = e.toNat.testBit k) := by
  obtain ⟨x, hx, hxanswer⟩ := exists_hashedFrom_of_root hcs ha
  obtain ⟨y, hy, hyanswer⟩ := exists_hashedFrom_of_root hds hb
  refine ⟨Content.spelled_bytes, fun x y => ?_, fun d => ?_, x, y, _, _, hx, hy, rfl, rfl, hxanswer,
    hyanswer, ?_, fun hpage => answer_ident_of_answer_fingerprint hpage hxanswer,
    fun hpage => answer_ident_of_answer_fingerprint hpage hyanswer, numberOf_eq_iff⟩
  · rw [Content.bytes_inj, Content.ext_iff]
  · exact ⟨toInt_toInt64_shiftRight d, toInt_numberOf d, numberOf_bounds d⟩
  · constructor
    · intro hcollision
      by_cases hxy : x = y
      · exact .inl hxy
      · exact .inr ⟨mt Content.bytes_inj.1 hxy, hcollision⟩
    · rintro (rfl | ⟨-, hcollision⟩)
      · rfl
      · exact hcollision

/-- A cell on a page that is no stored revision. It gets a child after it has been hashed. -/
def lateChild : List Command :=
  [.addLeaf .tableCell 3, .addPage ⟨.article "P", 1, -1⟩ [⟨0⟩], .fingerprint ⟨0⟩,
    .addLeaf (.text "a") 3, .move ⟨2⟩ ⟨0⟩]

/-- The same cell on another page, without a child and not hashed yet. -/
def noChild : List Command :=
  [.addPage ⟨⟨"Q", .user, .german⟩, 7, -1⟩ [], .addLeaf .tableCell 3, .move ⟨1⟩ ⟨0⟩]

theorem hashes_of_runs_lateChild :
    (empty.runAll lateChild).markup ⟨0⟩ = "| a\n" ∧ (empty.runAll noChild).markup ⟨1⟩ = "| \n" ∧
    ∃ d, (empty.runAll lateChild).answer (.fingerprint ⟨0⟩) = .ok (.hash d) ∧
      (empty.runAll noChild).answer (.fingerprint ⟨1⟩) = .ok (.hash d) ∧
      (empty.runAll lateChild).answer (.ident ⟨0⟩) = .ok (.ident (numberOf d)) ∧
      2 ^ 62 ≤ (numberOf d).toInt := by
  have hlate : (empty.runAll lateChild).size ≤ UInt32.size := by decide +kernel
  have hno : (empty.runAll noChild).size ≤ UInt32.size := by decide +kernel
  have hx : HashedFrom lateChild ⟨0⟩ ⟨-1, 3, "| \n"⟩ := by
    refine ⟨lateChild.take 2, List.take_prefix 2 lateChild, by decide +kernel, fun c hc => ?_,
      by decide +kernel⟩
    obtain ⟨rest, hrest⟩ := hc
    obtain rfl : c = .fingerprint ⟨0⟩ := by
      simp only [lateChild, List.take_succ_cons, List.take_zero, List.cons_append, List.nil_append,
        List.cons.injEq] at hrest
      exact hrest.2.2.1
    decide +kernel
  have hy : HashedFrom noChild ⟨1⟩ ⟨-1, 3, "| \n"⟩ := by
    refine ⟨noChild, List.prefix_refl _, by decide +kernel, fun c hc => ?_, by decide +kernel⟩
    exact absurd hc.length_le (by simp)
  obtain ⟨-, -, hnumbers, x, y, d, e, hx', hy', -, -, hd, he, hsame, hident, -, -⟩ :=
    hashes_of_runs (a := ⟨0⟩) (b := ⟨1⟩) (r := ⟨1⟩) (q := ⟨0⟩) hlate hno (by decide +kernel)
      (by decide +kernel)
  obtain rfl : d = e := hsame.2 (.inl ((hx'.unique hlate hx).trans (hy.unique hno hy')))
  exact ⟨by decide +kernel, by decide +kernel, d, hd, he, hident (by decide +kernel),
    (hnumbers d).2.2.1⟩

end Forest

end MarkupForest
