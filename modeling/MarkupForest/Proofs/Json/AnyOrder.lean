import MarkupForest.Proofs.Json.RoundTrip

/-!
# Members in any order

The members of an object can be given in any order. A record also passes over members that it does
not have, and members that have a usual value can be left out. Settings refuse members that they do
not have, as soon as such a name is met.

A reader goes through the members and takes up one field at a time. What it takes up for a field
depends only on the values that stand under the name of the field, of which there may be at most
one. So it does not depend on the order, nor on members with other names. The kind of a subject may
come after its other members, which are kept until then.

## Main definitions

* `Json.valuesOf`: the values under a name;
* `Json.Takes`: what is taken up for a field out of the values under its name;
* `Json.WrittenOrLeftOut`: the ways to write a member that may be left out;
* `Record.Lists`, `Subject.Lists` and `Uri.Settings.Lists`: the members of a value in any order, and
  for the first two among others.

## Main results

* `Subject.read_of_lists`, `Record.read_of_lists` and `Uri.Settings.read_of_lists`: the values are
  read from such members;
* `Json.parse_any_order`: the values are read from all texts of such members, and settings with a
  member of another name are refused for that name.
-/

namespace MarkupForest

namespace Json

variable {α : Type} {field : String} {read : Reader α} {members members' : List (String × Json)}

/-- A text is refused for what stands in the way of reading its outline. -/
theorem parse_of_error {text : String} {e : ReadError}
    (h : read (outline text.toList).1 = .error e) : parse read text = .error e := by
  rw [parse]
  generalize outline text.toList = scanned at h ⊢
  obtain ⟨o, rest⟩ := scanned
  simp only [h]
  rfl

/-! ## The values under a name -/

/-- The values of the members with a name, in order. -/
def valuesOf (field : String) (members : List (String × Json)) : List Json :=
  members.filterMap fun m => if m.1 = field then some m.2 else none

@[simp] theorem valuesOf_nil (field : String) : valuesOf field [] = [] := rfl

@[simp] theorem valuesOf_cons_self (field : String) (v : Json) (members : List (String × Json)) :
    valuesOf field ((field, v) :: members) = v :: valuesOf field members := by
  simp [valuesOf]

@[simp] theorem valuesOf_cons_of_ne {name : String} (h : name ≠ field) (v : Json)
    (members : List (String × Json)) :
    valuesOf field ((name, v) :: members) = valuesOf field members := by
  simp [valuesOf, h]

@[simp] theorem valuesOf_append (field : String) (members members' : List (String × Json)) :
    valuesOf field (members ++ members') = valuesOf field members ++ valuesOf field members' :=
  List.filterMap_append

theorem valuesOf_eq_nil (h : ∀ m ∈ members, m.1 ≠ field) : valuesOf field members = [] := by
  rw [valuesOf, List.filterMap_eq_nil_iff]
  exact fun m hm => if_neg (h m hm)

/-- What is taken up for a field out of the values under its name, in addition to what has been
taken up before: there is at most one value, and one only if nothing has been taken up before. -/
inductive Takes (read : Reader α) : List Json → Option α → Option α → Prop
  | absent (earlier : Option α) : Takes read [] earlier earlier
  | found {v : Json} {a : α} (h : read v.outlined = .ok a) : Takes read [v] none (some a)

/-- A field does not depend on the order of the members. -/
theorem Takes.of_perm {x y : Option α} (h : Takes read (valuesOf field members') x y)
    (hperm : members.Perm members') : Takes read (valuesOf field members) x y := by
  have hvalues : (valuesOf field members).Perm (valuesOf field members') := hperm.filterMap _
  generalize valuesOf field members = l at hvalues ⊢
  generalize valuesOf field members' = l' at hvalues h
  cases h with
  | absent => rw [List.perm_nil.1 hvalues]; exact .absent x
  | found hread => rw [List.perm_singleton.1 hvalues]; exact .found hread

/-- A member is taken up if it has the name of the field, and passed over otherwise. -/
theorem Takes.exists_only {name : String} {v : Json} {x y : Option α}
    (h : Takes read (valuesOf field ((name, v) :: members)) x y) :
    ∃ z, Subject.only field read x name v.outlined = .ok z ∧
      Takes read (valuesOf field members) z y := by
  by_cases hname : name = field
  · subst hname
    rw [valuesOf_cons_self] at h
    generalize valuesOf name members = l at h ⊢
    cases h with
    | found hread => exact ⟨_, by simp [Subject.only, hread], .absent _⟩
  · rw [valuesOf_cons_of_ne hname] at h
    exact ⟨x, if_neg hname, h⟩

theorem foldMembers_only {x y : Option α} (h : Takes read (valuesOf field members) x y) :
    foldMembers (Subject.only field read) x (outlinedMembers members) = .ok y := by
  induction members generalizing x with
  | nil =>
    rw [valuesOf_nil] at h
    cases h
    rfl
  | cons m members ih =>
    obtain ⟨z, hz, hrest⟩ := h.exists_only
    rw [foldMembers_cons, hz, ok_bind, ih hrest]

theorem foldMembers_append {σ : Type} (step : σ → String → Outline → Except ReadError σ) (s : σ)
    (l l' : List (Option String × Outline)) :
    foldMembers step s (l ++ l') = foldMembers step s l >>= fun s => foldMembers step s l' := by
  induction l generalizing s with
  | nil => rfl
  | cons m l ih =>
    obtain ⟨_ | name, v⟩ := m
    · rfl
    · rw [List.cons_append, foldMembers, foldMembers]
      cases step s name v with
      | error e => rfl
      | ok t => exact ih t

/-- A value can always be passed over. -/
theorem skip_outlined (v : Json) : v.outlined.skip = .ok () := by
  induction v with
  | null => rfl
  | bool b => rfl
  | int n => rfl
  | str s => rfl
  | arr items hitems =>
    have hskip : skipItems (outlinedItems items) = .ok () := by
      induction items with
      | nil => rfl
      | cons v items ih =>
        obtain ⟨hv, hrest⟩ := List.forall_mem_cons.1 hitems
        rw [outlinedItems, skipItems, hv, ok_bind, ih hrest]
    rw [outlined, Outline.skip, hskip]
    rfl
  | obj members hmembers =>
    have hskip : skipMembers (outlinedMembers members) = .ok () := by
      induction members with
      | nil => rfl
      | cons m members ih =>
        obtain ⟨hm, hrest⟩ := List.forall_mem_cons.1 hmembers
        rw [outlinedMembers, skipMembers, hm, ok_bind, ih hrest]
    rw [outlined, Outline.skip, hskip]
    rfl

/-! ## Ways to write members -/

/-- The ways to write a choice: by its name, or by an object with that name and a null. -/
def choiceForms (name : String) : List Json :=
  [.str name, .obj [(name, .null)]]

theorem readChoice_of_mem {choices : List (String × α)} {name : String} {a : α}
    (h : choices.lookup name = some a) {v : Json} (hv : v ∈ choiceForms name) :
    readChoice choices v.outlined = .ok a := by
  simp only [choiceForms, List.mem_cons, List.not_mem_nil, or_false] at hv
  rcases hv with rfl | rfl
  · exact readChoice_outlined h
  · simp [outlined, outlinedMembers, readChoice, choose, h, Outline.found]

/-- The ways to write a member that may be left out: with one of some values or, if it has its usual
value, not at all. -/
inductive WrittenOrLeftOut (field : String) (forms : List Json) (usual : Prop) :
    List (String × Json) → Prop
  | written {v : Json} (h : v ∈ forms) : WrittenOrLeftOut field forms usual [(field, v)]
  | leftOut (h : usual) : WrittenOrLeftOut field forms usual []

section WrittenOrLeftOut

variable {forms : List Json} {usual : Prop}

theorem WrittenOrLeftOut.valuesOf_of_ne {field' : String}
    (h : WrittenOrLeftOut field' forms usual members) (hne : field' ≠ field) :
    valuesOf field members = [] := by
  cases h with
  | written => exact valuesOf_cons_of_ne hne _ _
  | leftOut => rfl

/-- If all ways to write a member are read as the same, then that is taken up or nothing is, as is
usual. -/
theorem WrittenOrLeftOut.exists_takes (h : WrittenOrLeftOut field forms usual members) {a : α}
    (hread : ∀ v ∈ forms, read v.outlined = .ok a) :
    ∃ y, Takes read (valuesOf field members) none y ∧ (y = some a ∨ y = none ∧ usual) := by
  cases h with
  | written hv =>
    rw [valuesOf_cons_self]
    exact ⟨some a, .found (hread _ hv), .inl rfl⟩
  | leftOut husual => exact ⟨none, .absent none, .inr ⟨rfl, husual⟩⟩

/-- If a member is left out exactly if there is no value for it, then that value is taken up. -/
theorem WrittenOrLeftOut.takes {x : Option α} {formsOf : α → List Json}
    (h : WrittenOrLeftOut field (x.elim [] formsOf) (x = none) members)
    (hread : ∀ a, ∀ v ∈ formsOf a, read v.outlined = .ok a) :
    Takes read (valuesOf field members) none x := by
  cases h with
  | written hv =>
    cases x with
    | none => cases hv
    | some a =>
      rw [valuesOf_cons_self]
      exact .found (hread a _ hv)
  | leftOut hnone =>
    rw [hnone]
    exact .absent none

theorem WrittenOrLeftOut.fst_eq (h : WrittenOrLeftOut field forms usual members) :
    ∀ m ∈ members, m.1 = field := by
  cases h <;> simp

end WrittenOrLeftOut

/-- Null, a truth value or a string. -/
def IsPlain : Json → Prop
  | .null => True
  | .bool _ => True
  | .str _ => True
  | _ => False

/-- Members with other names than those of the fields and plain values. -/
def AreExtra (fields : List String) (members : List (String × Json)) : Prop :=
  ∀ m ∈ members, m.1 ∉ fields ∧ m.2.IsPlain

theorem AreExtra.valuesOf_eq_nil {fields : List String} (h : AreExtra fields members)
    (hfield : field ∈ fields) : valuesOf field members = [] :=
  Json.valuesOf_eq_nil fun m hm hname => (h m hm).1 (hname ▸ hfield)

/-- A field is taken up out of members in any order, among others. -/
theorem AreExtra.takes {fields : List String} {own extra : List (String × Json)}
    (hextra : AreExtra fields extra) (hfield : field ∈ fields) (hperm : members.Perm (own ++ extra))
    {x y : Option α} (h : Takes read (valuesOf field own) x y) :
    Takes read (valuesOf field members) x y := by
  refine Takes.of_perm ?_ hperm
  rw [valuesOf_append, hextra.valuesOf_eq_nil hfield, List.append_nil]
  exact h

theorem IsPlain.keep_eq {v : Json} (h : v.IsPlain) (depth : Nat) :
    v.outlined.keep depth = .ok () := by
  cases v with
  | null => rfl
  | bool b => rfl
  | str s => exact keep_str depth s
  | _ => cases h

end Json

/-! ## Subjects -/

namespace Subject

open Json

variable {members : List (String × Json)} {s : Subject}

/-- The members of a subject in any order, among others. -/
def Lists (s : Subject) (members : List (String × Json)) : Prop :=
  ∃ own extra, s.toJson = .obj own ∧ AreExtra ["kind", "id", "name"] extra ∧
    members.Perm (own ++ extra)

/-- The kind is taken up wherever it stands, and all other members are kept in order. -/
theorem foldMembers_draft {depth : Nat} {d : Draft} {tag : Option Tag}
    (htag : Takes readTag (valuesOf "kind" members) d.tag tag)
    (hkeep : ∀ m ∈ members, m.1 ≠ "kind" → m.2.outlined.keep depth = .ok ()) :
    foldMembers (Draft.member depth) d (outlinedMembers members) =
      .ok ⟨tag, (outlinedMembers (members.filter (·.1 != "kind"))).reverse ++ d.others⟩ := by
  induction members generalizing d with
  | nil =>
    obtain ⟨earlier, others⟩ := d
    rw [valuesOf_nil] at htag
    cases htag
    rfl
  | cons m members ih =>
    obtain ⟨name, v⟩ := m
    obtain ⟨hv, hrest⟩ := List.forall_mem_cons.1 hkeep
    obtain ⟨z, hz, hmore⟩ := htag.exists_only
    -- one step of the reader, after which the others are kept behind this one
    rw [foldMembers_cons, Draft.member]
    by_cases hname : name = "kind"
    · subst hname
      rw [only, if_pos rfl] at hz
      rw [if_pos rfl, hz, ok_bind, pure_eq_ok, ok_bind, ih (d := ⟨z, d.others⟩) hmore hrest]
      simp
    · rw [only, if_neg hname] at hz
      obtain rfl := Except.ok.inj hz
      rw [if_neg hname, hv hname, ok_bind, pure_eq_ok, ok_bind,
        ih (d := ⟨d.tag, (some name, v.outlined) :: d.others⟩) hmore hrest]
      simp [hname, outlinedMembers]

theorem valuesOf_filter {field : String} (hfield : field ≠ "kind") :
    valuesOf field (members.filter (·.1 != "kind")) = valuesOf field members := by
  induction members with
  | nil => rfl
  | cons m members ih =>
    obtain ⟨name, v⟩ := m
    by_cases hname : name = "kind"
    · rw [List.filter_cons_of_neg (by simp [hname]), ih,
        valuesOf_cons_of_ne (hname ▸ hfield.symm)]
    · rw [List.filter_cons_of_pos (by simp [hname])]
      by_cases hfound : name = field
      · rw [hfound, valuesOf_cons_self, ih, valuesOf_cons_self]
      · rw [valuesOf_cons_of_ne hfound, ih, valuesOf_cons_of_ne hfound]

theorem ofMembers_of_takes {α : Type} {field : String} {read : Reader α} {a : α}
    (h : Takes read (valuesOf field members) none (some a)) :
    ofMembers field read (outlinedMembers members) = .ok a := by
  rw [ofMembers, foldMembers_only h, ok_bind, require_some]

/-- A subject is read from its members in any order, at every depth. -/
theorem read_of_lists (h : s.Lists members) (depth : Nat) :
    Subject.read depth (outlined (.obj members)) = .ok s := by
  obtain ⟨own, extra, hown, hextra, hperm⟩ := h
  -- what is kept until the kind is known can be kept at this depth, the other members included
  have hkept (hkeep : ∀ m ∈ own, m.1 ≠ "kind" → m.2.outlined.keep (depth - 1) = .ok ()) :
      ∀ m ∈ members, m.1 ≠ "kind" → m.2.outlined.keep (depth - 1) = .ok () := by
    intro m hm
    rcases List.mem_append.1 (hperm.mem_iff.1 hm) with hm | hm
    · exact hkeep m hm
    · exact fun _ => (hextra m hm).2.keep_eq _
  rw [read_obj]
  cases s with
  | node id =>
    cases hown
    have htag : readTag (outlined (.str "node")) = .ok .node := readTag_outlined rfl
    have hkind : Takes readTag (valuesOf "kind" members) none (some .node) :=
      hextra.takes (by simp) hperm (by simpa using .found htag)
    have hid : Takes NodeId.read (valuesOf "id" members) none (some id) :=
      hextra.takes (by simp) hperm (by simpa using .found (NodeId.read_toJson id))
    rw [← valuesOf_filter (by decide)] at hid
    rw [foldMembers_draft hkind (hkept (by simp [keep_id]))]
    simp [Draft.build, ofMembers_of_takes hid]
  | unbound =>
    cases hown
    have htag : readTag (outlined (.str "default")) = .ok .unbound := readTag_outlined rfl
    have hkind : Takes readTag (valuesOf "kind" members) none (some .unbound) :=
      hextra.takes (by simp) hperm (by simpa using .found htag)
    rw [foldMembers_draft hkind (hkept (by simp))]
    simp [Draft.build]
  | foreign name =>
    cases hown
    have htag : readTag (outlined (.str "foreign")) = .ok .foreign := readTag_outlined rfl
    have hkind : Takes readTag (valuesOf "kind" members) none (some .foreign) :=
      hextra.takes (by simp) hperm (by simpa using .found htag)
    have hname : Takes readString (valuesOf "name" members) none (some name) :=
      hextra.takes (by simp) hperm (by simpa using .found (readString_outlined name))
    rw [← valuesOf_filter (by decide)] at hname
    rw [foldMembers_draft hkind (hkept (by simp))]
    simp [Draft.build, ofMembers_of_takes hname]

end Subject

/-! ## Records -/

namespace Record

open Json

variable {members : List (String × Json)} {r : Record}

/-- The members of a record in any order, among others. A language that is not there can be written
as null, and the members that have a usual value can be left out if they have it. -/
def Lists (r : Record) (members : List (String × Json)) : Prop :=
  ∃ subject language isError severity extra,
    r.subject.Lists subject ∧
    WrittenOrLeftOut "language" [r.language.elim .null Language.toJson] (r.language = none)
      language ∧
    WrittenOrLeftOut "is_error" [.bool r.isError] (r.isError = false) isError ∧
    WrittenOrLeftOut "severity" (choiceForms r.severity.name) (r.severity = .info) severity ∧
    AreExtra ["subject", "language", "message", "is_error", "severity"] extra ∧
    members.Perm ([("subject", .obj subject), ("message", .str r.message)] ++ language ++ isError ++
      severity ++ extra)

/-- A member is taken up by the field that has its name, and passed over if there is none. -/
theorem member_of_only {d d' : Draft} {name : String} {v : Json}
    (hsubject : Subject.only "subject" readSubject d.subject name v.outlined = .ok d'.subject)
    (hlanguage : Subject.only "language" (readOption Language.read) d.language name v.outlined =
      .ok d'.language)
    (hmessage : Subject.only "message" readString d.message name v.outlined = .ok d'.message)
    (hisError : Subject.only "is_error" readBool d.isError name v.outlined = .ok d'.isError)
    (hseverity : Subject.only "severity" Severity.read d.severity name v.outlined =
      .ok d'.severity) : d.member name v.outlined = .ok d' := by
  have hskip := skip_outlined v
  obtain ⟨s, l, m, e, sv⟩ := d
  obtain ⟨s', l', m', e', sv'⟩ := d'
  unfold Draft.member
  -- each field but the one with the name of the member stays as it is
  split <;> simp_all [Subject.only]

theorem foldMembers_draft {d d' : Draft}
    (hsubject : Takes readSubject (valuesOf "subject" members) d.subject d'.subject)
    (hlanguage : Takes (readOption Language.read) (valuesOf "language" members) d.language
      d'.language)
    (hmessage : Takes readString (valuesOf "message" members) d.message d'.message)
    (hisError : Takes readBool (valuesOf "is_error" members) d.isError d'.isError)
    (hseverity : Takes Severity.read (valuesOf "severity" members) d.severity d'.severity) :
    foldMembers Draft.member d (outlinedMembers members) = .ok d' := by
  induction members generalizing d with
  | nil =>
    obtain ⟨s, l, m, e, sv⟩ := d
    obtain ⟨s', l', m', e', sv'⟩ := d'
    cases hsubject
    cases hlanguage
    cases hmessage
    cases hisError
    cases hseverity
    rfl
  | cons m members ih =>
    obtain ⟨name, v⟩ := m
    obtain ⟨s, hs, hsubject⟩ := hsubject.exists_only
    obtain ⟨l, hl, hlanguage⟩ := hlanguage.exists_only
    obtain ⟨m, hm, hmessage⟩ := hmessage.exists_only
    obtain ⟨e, he, hisError⟩ := hisError.exists_only
    obtain ⟨sv, hsv, hseverity⟩ := hseverity.exists_only
    have hmember : d.member name v.outlined = .ok ⟨s, l, m, e, sv⟩ :=
      member_of_only hs hl hm he hsv
    rw [foldMembers_cons, hmember, ok_bind]
    exact ih hsubject hlanguage hmessage hisError hseverity

theorem readOption_language (l : Option Language) :
    readOption Language.read (l.elim .null Language.toJson).outlined = .ok l := by
  cases l with
  | none => rfl
  | some l => exact Language.readOption_toJson l

/-- A record is read from its members in any order. -/
theorem read_of_lists (h : r.Lists members) : Record.read (outlined (.obj members)) = .ok r := by
  obtain ⟨subject, language, isError, severity, extra, hsubject, hlanguage, hisError, hseverity,
    hextra, hperm⟩ := h
  have hread : readSubject (outlined (.obj subject)) = .ok r.subject :=
    Subject.read_of_lists hsubject _
  have hreadLanguage : ∀ v ∈ [r.language.elim .null Language.toJson],
      readOption Language.read v.outlined = .ok r.language := by simp [readOption_language]
  have hreadError : ∀ v ∈ [.bool r.isError], readBool (outlined v) = .ok r.isError := by simp
  have hreadSeverity : ∀ v ∈ choiceForms r.severity.name,
      Severity.read v.outlined = .ok r.severity :=
    fun v hv => readChoice_of_mem r.severity.lookup_name hv
  -- what is taken up for the members that may be left out
  obtain ⟨l, htakesLanguage, hl⟩ := hlanguage.exists_takes hreadLanguage
  obtain ⟨e, htakesError, he⟩ := hisError.exists_takes hreadError
  obtain ⟨sv, htakesSeverity, hsv⟩ := hseverity.exists_takes hreadSeverity
  have hfold : foldMembers Draft.member {} (outlinedMembers members) =
      .ok ⟨some r.subject, l, some r.message, e, sv⟩ :=
    foldMembers_draft
      (hextra.takes (by simp) hperm (by simpa [hlanguage.valuesOf_of_ne, hisError.valuesOf_of_ne,
        hseverity.valuesOf_of_ne] using .found hread))
      (hextra.takes (by simp) hperm (by simpa [hisError.valuesOf_of_ne,
        hseverity.valuesOf_of_ne] using htakesLanguage))
      (hextra.takes (by simp) hperm (by simpa [hlanguage.valuesOf_of_ne, hisError.valuesOf_of_ne,
        hseverity.valuesOf_of_ne] using .found (readString_outlined r.message)))
      (hextra.takes (by simp) hperm (by simpa [hlanguage.valuesOf_of_ne,
        hseverity.valuesOf_of_ne] using htakesError))
      (hextra.takes (by simp) hperm (by simpa [hlanguage.valuesOf_of_ne,
        hisError.valuesOf_of_ne] using htakesSeverity))
  -- a member that is left out has its usual value
  have hjoin : l.join = r.language := by rcases hl with rfl | ⟨rfl, h⟩ <;> simp_all
  have herror : e.getD false = r.isError := by rcases he with rfl | ⟨rfl, h⟩ <;> simp_all
  have hgrave : sv.getD .info = r.severity := by rcases hsv with rfl | ⟨rfl, h⟩ <;> simp_all
  rw [Record.read, RecordReader.read_obj, hfold, ok_bind]
  simp [Draft.build, hjoin, herror, hgrave]

end Record

/-! ## Settings -/

namespace Uri.Settings

open Json

variable {members : List (String × Json)} {limit : Option UInt64} {scope : Option Scope}

/-- Some of the members of settings in any order. -/
def Lists (limit : Option UInt64) (scope : Option Scope) (members : List (String × Json)) : Prop :=
  ∃ limits scopes,
    WrittenOrLeftOut "maxTextChars" (limit.elim [] fun n => [.int n.toNat]) (limit = none) limits ∧
    WrittenOrLeftOut "scope" (scope.elim [] fun s => choiceForms s.name) (scope = none) scopes ∧
    members.Perm (limits ++ scopes)

/-- A member is taken up by the field that has its name. -/
theorem member_of_only {d d' : Draft} {name : String} {v : Json}
    (hlimit : Subject.only "maxTextChars" readLimit d.textLimit name v.outlined = .ok d'.textLimit)
    (hscope : Subject.only "scope" Scope.read d.scope name v.outlined = .ok d'.scope)
    (hname : name ∈ ["maxTextChars", "scope"]) : d.member name v.outlined = .ok d' := by
  obtain ⟨l, s⟩ := d
  obtain ⟨l', s'⟩ := d'
  unfold Draft.member
  split <;> simp_all [Subject.only]

theorem foldMembers_draft {d d' : Draft}
    (hlimit : Takes readLimit (valuesOf "maxTextChars" members) d.textLimit d'.textLimit)
    (hscope : Takes Scope.read (valuesOf "scope" members) d.scope d'.scope)
    (hnames : ∀ m ∈ members, m.1 ∈ ["maxTextChars", "scope"]) :
    foldMembers Draft.member d (outlinedMembers members) = .ok d' := by
  induction members generalizing d with
  | nil =>
    obtain ⟨l, s⟩ := d
    obtain ⟨l', s'⟩ := d'
    cases hlimit
    cases hscope
    rfl
  | cons m members ih =>
    obtain ⟨name, v⟩ := m
    obtain ⟨hname, hrest⟩ := List.forall_mem_cons.1 hnames
    obtain ⟨l, hl, hlimit⟩ := hlimit.exists_only
    obtain ⟨s, hs, hscope⟩ := hscope.exists_only
    have hmember : d.member name v.outlined = .ok ⟨l, s⟩ := member_of_only hl hs hname
    rw [foldMembers_cons, hmember, ok_bind]
    exact ih hlimit hscope hrest

/-- The members of settings are taken up in any order. -/
theorem foldMembers_of_lists (h : Lists limit scope members) :
    foldMembers Draft.member {} (outlinedMembers members) = .ok ⟨limit, scope⟩ := by
  obtain ⟨limits, scopes, hlimits, hscopes, hperm⟩ := h
  have hlimit : Takes readLimit (valuesOf "maxTextChars" members) none limit := by
    refine Takes.of_perm ?_ hperm
    simpa [hscopes.valuesOf_of_ne] using hlimits.takes (by simp [readLimit_toNat])
  have hread : ∀ s, ∀ v ∈ choiceForms (Scope.name s), Scope.read v.outlined = .ok s :=
    fun s v hv => readChoice_of_mem s.lookup_name hv
  have hscope : Takes Scope.read (valuesOf "scope" members) none scope := by
    refine Takes.of_perm ?_ hperm
    simpa [hlimits.valuesOf_of_ne] using hscopes.takes hread
  refine foldMembers_draft hlimit hscope fun m hm => ?_
  rcases List.mem_append.1 (hperm.mem_iff.1 hm) with hm | hm
  · simp [hlimits.fst_eq m hm]
  · simp [hscopes.fst_eq m hm]

/-- Settings are read from some of their members in any order, with the usual values for the
others. -/
theorem read_of_lists (h : Lists limit scope members) :
    Settings.read (outlined (.obj members)) = .ok ⟨limit.getD 50, scope.getD .perNode⟩ := by
  rw [Settings.read, RecordReader.read_obj, foldMembers_of_lists h]
  rfl

/-- A member of another name is refused, whatever its value and whatever comes after it. -/
theorem read_of_unknown (h : Lists limit scope members) {name : String}
    (hname : name ∉ ["maxTextChars", "scope"]) (v : Outline) (more : List (Option String × Outline))
    (ending : Ending) :
    Settings.read (.object (outlinedMembers members ++ (some name, v) :: more) ending) =
      .error (.mismatch (.unknownField name ["maxTextChars", "scope"])) := by
  have hmember : Draft.member ⟨limit, scope⟩ name v =
      .error (.mismatch (.unknownField name ["maxTextChars", "scope"])) := by
    unfold Draft.member
    split
    · simp at hname
    · simp at hname
    · rfl
  have hfold : foldMembers Draft.member {} (outlinedMembers members ++ (some name, v) :: more) =
      .error (.mismatch (.unknownField name ["maxTextChars", "scope"])) := by
    rw [foldMembers_append, foldMembers_of_lists h, ok_bind, foldMembers, hmember]
    rfl
  rw [Settings.read, RecordReader.read, hfold]
  rfl

/-- A check refuses only the limit of zero, and the usual limit is not zero. -/
theorem validate_getD (limit : Option UInt64) (scope : Scope) :
    validate ⟨limit.getD 50, scope⟩ =
      if limit = some 0 then .error .noTextChars else .ok ⟨limit.getD 50, scope⟩ := by
  cases limit with
  | none => rfl
  | some n => simp [validate]

theorem message?_unknownField (name : String) :
    SettingsError.message?
        (.unreadable (.mismatch (.unknownField name ["maxTextChars", "scope"]))) =
      some ("Failed to parse configuration: unknown field `" ++ name ++
        "`, expected `maxTextChars` or `scope`") := by
  have hchoices : choiceText ["maxTextChars", "scope"] = "`maxTextChars` or `scope`" := by decide
  change some ("Failed to parse configuration: " ++ ("unknown field `" ++ name ++ "`, expected " ++
    choiceText ["maxTextChars", "scope"])) = _
  rw [hchoices, Option.some.injEq, ← String.toList_inj]
  simp

end Uri.Settings

/-! ## Texts of members in any order -/

/-- A record is read from every text of its members in any order: the language may be written as
null or left out if there is none, what has its usual value may be left out, the kind of the subject
may stand anywhere, and there may be other members, also in the subject, with plain values.

Settings are read from every text of some of their members in any order, with the usual values for
the others; they are refused if they would take no characters from a text. A text that starts as an
object with such members and goes on with a member of another name is refused for that name,
whatever stands after the name. -/
theorem Json.parse_any_order :
    (∀ (r : Record) (members : List (String × Json)) (text : String), r.Lists members →
      Spells (.obj members) text.toList → parse Record.read text = .ok r) ∧
    (∀ (limit : Option UInt64) (scope : Option Uri.Scope) (members : List (String × Json))
      (text : String), Uri.Settings.Lists limit scope members →
      Spells (.obj members) text.toList →
      Uri.Settings.parse text =
        if limit = some 0 then .error .noTextChars
        else .ok ⟨limit.getD 50, scope.getD .perNode⟩) ∧
    ∀ (limit : Option UInt64) (scope : Option Uri.Scope) (members : List (String × Json))
      (name text : String) (before cs ns rest : List Char), Uri.Settings.Lists limit scope members →
      name ∉ ["maxTextChars", "scope"] → Blank before → SpellsMembers members cs →
      SpellsName name ns → text.toList = before ++ '\x7b' :: (cs ++ (ns ++ rest)) →
      ∃ e, Uri.Settings.parse text = .error (.unreadable (.mismatch e)) ∧
        e = .unknownField name ["maxTextChars", "scope"] ∧
        Uri.SettingsError.message? (.unreadable (.mismatch e)) =
          some ("Failed to parse configuration: unknown field `" ++ name ++
            "`, expected `maxTextChars` or `scope`") := by
  refine ⟨fun r members text h htext => ?_, fun limit scope members text h htext => ?_, ?_⟩
  · rw [parse_of_spells _ htext, Record.read_of_lists h]
  · rw [Uri.Settings.parse, parse_of_spells _ htext, Uri.Settings.read_of_lists h]
    exact Uri.Settings.validate_getD limit _
  · intro limit scope members name text before cs ns rest h hname hbefore hcs hns htext
    refine ⟨_, ?_, rfl, Uri.Settings.message?_unknownField name⟩
    obtain ⟨v, more, ending, houtline⟩ := outline_of_spellsMembers hbefore hcs hns rest
    have hread : Uri.Settings.read (outline text.toList).1 =
        .error (.mismatch (.unknownField name ["maxTextChars", "scope"])) := by
      rw [htext, houtline, Uri.Settings.read_of_unknown h hname]
    rw [Uri.Settings.parse, parse_of_error hread]

/-- A record in reversed order with other members, one of them in the subject, and without what has
its usual value, a part of settings, and settings with another member that breaks off. -/
theorem Json.parse_any_order_reversed :
    parse Record.read (" \x7b\"x\":\"\\u0041\",\"severity\":\x7b\"warning\":null\x7d," ++
        "\"language\":null,\"message\":\"m\"," ++
        "\"subject\":\x7b\"y\":true,\"id\":7,\"kind\":\"node\"\x7d\x7d") =
      .ok ⟨.node ⟨7⟩, none, "m", false, .warning⟩ ∧
    Uri.Settings.parse "\x7b\"scope\":\"shared\"\x7d" = .ok ⟨50, .shared⟩ ∧
    ∃ e, Uri.Settings.parse "\x7b\"scope\":\"shared\",\"extra\":[1.5" = .error e ∧
      e.message? = some ("Failed to parse configuration: unknown field `" ++ "extra" ++
        "`, expected `maxTextChars` or `scope`") := by
  obtain ⟨hrecord, hsettings, hunknown⟩ := parse_any_order
  have hscope : Uri.Settings.Lists none (some .shared) [("scope", .str "shared")] :=
    ⟨[], [("scope", .str "shared")], .leftOut rfl, .written (by simp [choiceForms, Uri.Scope.name]),
      .refl _⟩
  refine ⟨?_, ?_, ?_⟩
  · have hA : SpellsText "A".toList ['\\', 'u', '0', '0', '4', '1'] :=
      .cons (.unit (by decide)) .nil
    have htext := Spells.padded (show Blank [' '] by simp [Blank, isSpace])
      (.obj (.cons (spellsName_literal "x") (.str hA)
        (.cons (spellsName_literal "severity") (spells_chars (.obj [("warning", .null)]))
        (.cons (spellsName_literal "language") .null
        (.cons (spellsName_literal "message") (spells_chars (.str "m")) .nil))))
        (spellsName_literal "subject")
        (spells_chars (.obj [("y", .bool true), ("id", .int 7), ("kind", .str "node")]))) blank_nil
    refine hrecord _ _ _ ?_ (htext.congr (by decide +kernel))
    exact ⟨[("y", .bool true), ("id", .int 7), ("kind", .str "node")], [("language", .null)], [],
      [("severity", .obj [("warning", .null)])], [("x", .str "A")],
      ⟨_, [("y", .bool true)], rfl, by simp [AreExtra, IsPlain],
        .trans (.of_eq (by rfl)) (List.reverse_perm _)⟩,
      .written (by simp), .leftOut rfl, .written (by simp [choiceForms, Severity.name]),
      by simp [AreExtra, IsPlain], .trans (.of_eq (by rfl)) (List.reverse_perm _)⟩
  · exact hsettings none (some .shared) _ _ hscope (spells_chars _)
  · obtain ⟨e, he, -, hmessage⟩ := hunknown none (some .shared) _ "extra"
      "\x7b\"scope\":\"shared\",\"extra\":[1.5" [] _ _ ":[1.5".toList hscope (by decide) blank_nil
      (.cons (spellsName_literal "scope") (spells_chars _) .nil) (spellsName_literal "extra")
      (by decide +kernel)
    exact ⟨_, he, hmessage⟩

end MarkupForest
