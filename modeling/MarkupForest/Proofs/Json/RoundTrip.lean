import MarkupForest.Kind
import MarkupForest.Proofs.Json.ReadBack
import MarkupForest.Record
import MarkupForest.Uri.Settings

/-!
# Values read back from their texts

Each type that is written as JSON is read back from what is written: whatever the value, reading the
compact text of its JSON form gives the value again. The scanner makes the outline of a value out of
the text of the value, so what is left to show is that readers and writers agree on outlines: on the
range of numbers, the names of choices, the members of records and which of them are left out.

Settings have to pass a check after they have been read. They are read back if and only if they take
some characters from a text.

## Main definitions

* `Json.RoundTrips`: all values of a type are read back.

## Main results

* `Json.parse_of_spells` and `Json.parse_compact`: reading a text of a value is reading the outline
  of the value;
* `Json.value_numeral` and `Json.readInt_outlined`: numbers within 64 bits are read exactly;
* `Json.RecordReader.read_obj`: a record is read member by member;
* `Json.roundTrips_types`: all types are read back.
-/

namespace MarkupForest

namespace Json

variable {α β σ : Type}

/-- All values are read back from the texts that are written for them. -/
def RoundTrips (toJson : α → Json) (read : Reader α) : Prop :=
  ∀ a, parse read (toJson a).compact = .ok a

/-- Reading a text of a value, whichever it is, is reading the outline of the value. -/
theorem parse_of_spells (read : Reader α) {v : Json} {text : String} (h : Spells v text.toList) :
    parse read text = read v.outlined := by
  obtain ⟨ws, hws, houtline⟩ := outline_of_spells h
  simp only [parse, houtline, skipSpace_of_blank hws]
  cases read v.outlined <;> rfl

/-- Reading the text that is written for a value is reading its outline. -/
theorem parse_compact (read : Reader α) (v : Json) : parse read v.compact = read v.outlined := by
  apply parse_of_spells
  rw [compact, String.toList_ofList]
  exact spells_chars v

theorem roundTrips_of_outlined {toJson : α → Json} {read : Reader α}
    (h : ∀ a, read (toJson a).outlined = .ok a) : RoundTrips toJson read :=
  fun a => (parse_compact read (toJson a)).trans (h a)

/-! ## Steps of readers that succeed -/

@[simp] theorem ok_bind (a : α) (k : α → Except ReadError β) :
    (Except.ok a : Except ReadError α) >>= k = k a := rfl

@[simp] theorem map_ok (k : α → β) (a : α) :
    k <$> (Except.ok a : Except ReadError α) = .ok (k a) := rfl

@[simp] theorem pure_eq_ok (a : α) : (pure a : Except ReadError α) = .ok a := rfl

@[simp] theorem once_none (name : String) (read : Reader α) (v : Outline) :
    once name none read v = some <$> read v := rfl

@[simp] theorem require_some (name : String) (a : α) : require name (some a) = .ok a := rfl

/-! ## Numbers -/

/-- Digits before the point are taken up exactly as long as their value fits in 64 bits. -/
theorem appendWhole_eq {s : Scaled} {cs : List Char}
    (h : Nat.ofDigitChars 10 cs s.significand < UInt64.size) :
    s.appendWhole cs = ⟨Nat.ofDigitChars 10 cs s.significand, s.exponent⟩ := by
  induction cs generalizing s with
  | nil => rfl
  | cons c cs ih =>
    have hnext : s.significand * 10 + digitValue c =
        10 * s.significand + (c.toNat - '0'.toNat) := by
      rw [digitValue, Nat.mul_comm]
    rw [Nat.ofDigitChars_cons, ← hnext] at h ⊢
    -- the value only grows with the digits that follow, so it fits at this digit as well
    have hle : s.significand * 10 + digitValue c ≤
        Nat.ofDigitChars 10 cs (s.significand * 10 + digitValue c) := by
      rw [Nat.ofDigitChars_eq_ofDigitChars_zero]
      exact Nat.le_add_right_of_le (Nat.le_mul_of_pos_left _ (Nat.pow_pos (by decide)))
    rw [Scaled.appendWhole, if_pos (Nat.lt_of_le_of_lt hle h)]
    exact ih (s := { s with significand := _ }) h

theorem appendWhole_toDigits {n : Nat} (hn : n < UInt64.size) :
    Scaled.appendWhole ⟨0, 0⟩ (Nat.toDigits 10 n) = ⟨n, 0⟩ := by
  have hvalue : Nat.ofDigitChars 10 (Nat.toDigits 10 n) 0 = n := Nat.ofDigitChars_ten_toDigits
  rw [appendWhole_eq (by rw [hvalue]; exact hn), hvalue]

/-- A whole number within 64 bits, with or without a sign, stands for itself. -/
theorem value_numeral {n : Int} (hlow : -0x8000000000000000 ≤ n)
    (hhigh : n < 0x10000000000000000) : (numeral n).value = some (.int n) := by
  cases n with
  | ofNat n =>
    have hn : n < UInt64.size := by
      simp only [UInt64.size, Int.ofNat_eq_natCast] at hhigh ⊢
      omega
    simp [numeral, Numeral.value, appendWhole_toDigits hn]
  | negSucc n =>
    have hn : n + 1 ≤ 0x8000000000000000 := by omega
    have hdigits := appendWhole_toDigits (n := n + 1) (by simp only [UInt64.size]; omega)
    simp only [numeral, Numeral.value, hdigits]
    simp [hn, Int.negSucc_eq]

theorem found_int {n : Int} (hlow : -0x8000000000000000 ≤ n) (hhigh : n < 0x10000000000000000) :
    (outlined (.int n)).found = .ok (.number (.int n)) := by
  rw [outlined, Outline.found, value_numeral hlow hhigh]

/-- A number in the range of a type is read back if the range lies within 64 bits. -/
theorem readInt_outlined {low high n : Int} (expected : String) (hlow : low ≤ n)
    (hhigh : n ≤ high) (hlow' : -0x8000000000000000 ≤ low) (hhigh' : high < 0x10000000000000000) :
    readInt low high expected (outlined (.int n)) = .ok n := by
  have hfound := found_int (Int.le_trans hlow' hlow) (Int.lt_of_le_of_lt hhigh hhigh')
  simp [readInt, hfound, hlow, hhigh]

/-! ## Strings, truth values and choices -/

@[simp] theorem found_str (s : String) : (outlined (.str s)).found = .ok (.string s) := by
  rw [outlined, Outline.found]

@[simp] theorem readString_outlined (s : String) : readString (outlined (.str s)) = .ok s := by
  simp [readString]

@[simp] theorem readBool_outlined (b : Bool) : readBool (outlined (.bool b)) = .ok b := by
  simp [readBool, outlined, Outline.found]

theorem readChoice_outlined {choices : List (String × α)} {name : String} {a : α}
    (h : choices.lookup name = some a) : readChoice choices (outlined (.str name)) = .ok a := by
  rw [outlined, readChoice, choose, h]

/-- A string is not null, so what may be null is read as the string. -/
@[simp] theorem readOption_str (read : Reader α) (s : String) :
    readOption read (outlined (.str s)) = some <$> read (outlined (.str s)) := by
  rw [outlined, readOption]
  exact Outline.noConfusion

/-! ## Records -/

@[simp] theorem foldMembers_nil (step : σ → String → Outline → Except ReadError σ) (s : σ) :
    foldMembers step s (outlinedMembers []) = .ok s := by
  rw [outlinedMembers, foldMembers]

@[simp] theorem foldMembers_cons (step : σ → String → Outline → Except ReadError σ) (s : σ)
    (name : String) (v : Json) (members : List (String × Json)) :
    foldMembers step s (outlinedMembers ((name, v) :: members)) =
      step s name v.outlined >>= fun s => foldMembers step s (outlinedMembers members) := by
  rw [outlinedMembers, foldMembers]

/-- A record that is written as an object is read member by member. -/
@[simp] theorem RecordReader.read_obj (r : RecordReader σ α) (members : List (String × Json)) :
    r.read (outlined (.obj members)) =
      foldMembers r.member r.start (outlinedMembers members) >>= r.build := by
  rw [outlined, RecordReader.read]
  rfl

/-! ## Values that are kept -/

theorem keep_int (depth : Nat) (n : Int) :
    (outlined (.int n)).keep depth = (outlined (.int n)).found >>= fun _ => .ok () := by
  rw [outlined, Outline.keep]
  · rfl
  · exact fun _ _ => Outline.noConfusion
  · exact fun _ _ => Outline.noConfusion

@[simp] theorem keep_str (depth : Nat) (s : String) : (outlined (.str s)).keep depth = .ok () := by
  rw [outlined, Outline.keep]
  · rfl
  · exact fun _ _ => Outline.noConfusion
  · exact fun _ _ => Outline.noConfusion

end Json

/-! ## The types -/

theorem Severity.read_toJson (s : Severity) : Severity.read s.toJson.outlined = .ok s :=
  Json.readChoice_outlined s.lookup_name

theorem KindTag.read_toJson (k : KindTag) : KindTag.read k.toJson.outlined = .ok k :=
  Json.readChoice_outlined k.lookup_name

theorem Uri.Scope.read_toJson (s : Scope) : Scope.read s.toJson.outlined = .ok s :=
  Json.readChoice_outlined s.lookup_name

theorem Language.read_toJson (l : Language) : Language.read l.toJson.outlined = .ok l := by
  simp [Language.read, Language.toJson]

/-- A language that is there is read back where there may be none. -/
theorem Language.readOption_toJson (l : Language) :
    Json.readOption Language.read l.toJson.outlined = .ok (some l) := by
  rw [Language.toJson, Json.readOption_str, ← Language.toJson, Language.read_toJson, Json.map_ok]

theorem Namespace.read_toJson (n : Namespace) : Namespace.read n.toJson.outlined = .ok n := by
  have hcode := Json.readInt_outlined "i32" n.code.minValue_le_toInt n.code.toInt_le (by decide)
    (by decide)
  rw [Namespace.read, Namespace.toJson, hcode, Json.map_ok, Int32.ofInt_toInt]

theorem NodeId.index_le (n : NodeId) : (n.index : Int) ≤ 0xFFFFFFFF := by
  have hlt : n.index < 0x100000000 := n.word.toNat_lt
  omega

theorem NodeId.read_toJson (n : NodeId) : NodeId.read n.toJson.outlined = .ok n := by
  have hindex : Json.readInt 0 0xFFFFFFFF "u32" (Json.outlined (.int n.index)) = .ok n.index :=
    Json.readInt_outlined _ (Int.natCast_nonneg _) n.index_le (by decide) (by decide)
  rw [NodeId.read, NodeId.toJson, hindex, Json.map_ok]
  simp [ofIndex, index]

theorem Title.read_toJson (t : Title) : Title.read t.toJson.outlined = .ok t := by
  simp [Title.read, Title.toJson, Draft.member, Draft.build, Namespace.read_toJson,
    Language.read_toJson]

namespace Subject

/-- An id can be kept until the kind of the subject is known. -/
theorem keep_id (depth : Nat) (id : NodeId) : id.toJson.outlined.keep depth = .ok () := by
  rw [NodeId.toJson, Json.keep_int, Json.found_int (by omega)
    (Int.lt_of_le_of_lt id.index_le (by decide))]
  rfl

theorem read_obj (depth : Nat) (members : List (String × Json)) :
    Subject.read depth (Json.outlined (.obj members)) =
      Json.foldMembers (Draft.member (depth - 1)) {} (Json.outlinedMembers members) >>=
        Draft.build := by
  rw [Json.outlined, Subject.read]
  rfl

theorem ofMembers_singleton {α : Type} (field : String) (read : Json.Reader α) (v : Json.Outline) :
    ofMembers field read [(some field, v)] = read v := by
  have hfold : Json.foldMembers (only field read) none [(some field, v)] = some <$> read v := by
    rw [Json.foldMembers, only, if_pos rfl, Json.once_none]
    cases read v <;> rfl
  rw [ofMembers, hfold]
  cases read v <;> rfl

theorem readTag_outlined {name : String} {tag : Tag} (h : tags.lookup name = some tag) :
    readTag (Json.outlined (.str name)) = .ok tag := by
  simp [readTag, Json.choose, h]

/-- A subject is read back at every depth: nothing in it is nested. -/
theorem read_toJson (depth : Nat) (s : Subject) : Subject.read depth s.toJson.outlined = .ok s := by
  cases s with
  | node id =>
    -- the id is kept until the tag is known, and only then read
    have htag : readTag (Json.outlined (.str "node")) = .ok .node := readTag_outlined rfl
    simp [toJson, read_obj, Draft.member, Draft.build, htag, keep_id, ofMembers_singleton,
      NodeId.read_toJson]
  | unbound =>
    have htag : readTag (Json.outlined (.str "default")) = .ok .unbound := readTag_outlined rfl
    simp [toJson, read_obj, Draft.member, Draft.build, htag]
  | foreign name =>
    have htag : readTag (Json.outlined (.str "foreign")) = .ok .foreign := readTag_outlined rfl
    simp [toJson, read_obj, Draft.member, Draft.build, htag, ofMembers_singleton]

end Subject

theorem Record.read_toJson (r : Record) : Record.read r.toJson.outlined = .ok r := by
  obtain ⟨subject, language, message, isError, severity⟩ := r
  cases language with
  | none =>
    -- a language that is not there is not written, and its absence is read as none
    simp [Record.read, toJson, Draft.member, Draft.build, readSubject, Subject.read_toJson,
      Severity.read_toJson]
  | some l =>
    simp [Record.read, toJson, Draft.member, Draft.build, readSubject, Subject.read_toJson,
      Severity.read_toJson, Language.readOption_toJson]

namespace Uri.Settings

theorem readLimit_toNat (n : UInt64) : readLimit (Json.outlined (.int n.toNat)) = .ok n := by
  have hlt : n.toNat < 0x10000000000000000 := n.toNat_lt
  rw [readLimit, Json.readInt_outlined _ (by omega) (by omega) (by decide) (by decide),
    Json.map_ok, Int.toNat_natCast, UInt64.ofNat_toNat]

theorem read_toJson (s : Settings) : Settings.read s.toJson.outlined = .ok s := by
  simp [Settings.read, toJson, Draft.member, Draft.build, readLimit_toNat, Scope.read_toJson]

/-- Settings are read back and then checked. -/
theorem parse_toJson (s : Settings) : Settings.parse s.toJson.compact = s.validate := by
  rw [Settings.parse, Json.parse_compact, read_toJson]

/-- A check does not change settings, and lets only those pass that take some characters. -/
theorem validate_eq_ok_iff {s s' : Settings} : s.validate = .ok s' ↔ s = s' ∧ 0 < s.textLimit := by
  rw [validate]
  by_cases h : s.textLimit = 0
  · simp [h]
  · have hpos : 0 < s.textLimit := UInt64.pos_iff_ne_zero.2 h
    simp [h, hpos]

/-- Settings from a text take some characters, whatever the text. -/
theorem pos_of_parse {text : String} {s : Settings} (h : Settings.parse text = .ok s) :
    0 < s.textLimit := by
  rw [Settings.parse] at h
  split at h
  next s' _ =>
    obtain ⟨rfl, hpos⟩ := validate_eq_ok_iff.1 h
    exact hpos
  next => cases h

end Uri.Settings

/-! ## All types -/

/-- Whatever the value, each type is read back from its compact text. Settings that are also checked
are read back exactly if they take some characters from a text, and are refused for that reason
otherwise; no text at all gives checked settings that take none. -/
theorem Json.roundTrips_types :
    RoundTrips Uri.Settings.toJson Uri.Settings.read ∧
    RoundTrips Uri.Scope.toJson Uri.Scope.read ∧
    RoundTrips Record.toJson Record.read ∧
    RoundTrips Subject.toJson (Subject.read nestingLimit) ∧
    RoundTrips Severity.toJson Severity.read ∧
    RoundTrips Language.toJson Language.read ∧
    RoundTrips Namespace.toJson Namespace.read ∧
    RoundTrips Title.toJson Title.read ∧
    RoundTrips NodeId.toJson NodeId.read ∧
    RoundTrips KindTag.toJson KindTag.read ∧
    (∀ s : Uri.Settings, Uri.Settings.parse s.toJson.compact = .ok s ↔ 0 < s.textLimit) ∧
    (∀ s : Uri.Settings, ¬0 < s.textLimit →
      Uri.Settings.parse s.toJson.compact = .error .noTextChars) ∧
    ∀ text s, Uri.Settings.parse text = .ok s → 0 < s.textLimit := by
  refine ⟨roundTrips_of_outlined Uri.Settings.read_toJson,
    roundTrips_of_outlined Uri.Scope.read_toJson, roundTrips_of_outlined Record.read_toJson,
    roundTrips_of_outlined (Subject.read_toJson _), roundTrips_of_outlined Severity.read_toJson,
    roundTrips_of_outlined Language.read_toJson, roundTrips_of_outlined Namespace.read_toJson,
    roundTrips_of_outlined Title.read_toJson, roundTrips_of_outlined NodeId.read_toJson,
    roundTrips_of_outlined KindTag.read_toJson, fun s => ?_, fun s hs => ?_, fun text s h => ?_⟩
  · rw [Uri.Settings.parse_toJson, Uri.Settings.validate_eq_ok_iff, eq_self_iff_true, true_and]
  · have hzero : s.textLimit = 0 := Classical.not_not.1 fun h => hs (UInt64.pos_iff_ne_zero.2 h)
    rw [Uri.Settings.parse_toJson, Uri.Settings.validate, if_pos hzero]
  · exact Uri.Settings.pos_of_parse h

/-- The greatest numbers, a message with a quote, a line end and a control character, settings that
are refused, and settings from a text that has not been written for them. -/
theorem Json.roundTrips_types_extremes :
    parse Record.read (Record.toJson
        ⟨.node ⟨0xFFFFFFFF⟩, some .german, "\"a\n\u0001", true, .debug⟩).compact =
      .ok ⟨.node ⟨0xFFFFFFFF⟩, some .german, "\"a\n\u0001", true, .debug⟩ ∧
    Uri.Settings.parse (Uri.Settings.toJson ⟨0xFFFFFFFFFFFFFFFF, .shared⟩).compact =
      .ok ⟨0xFFFFFFFFFFFFFFFF, .shared⟩ ∧
    Uri.Settings.parse (Uri.Settings.toJson ⟨0, .shared⟩).compact = .error .noTextChars ∧
    Uri.Settings.parse " [20] " = .ok ⟨20, .perNode⟩ ∧
    0 < Uri.Settings.textLimit ⟨20, .perNode⟩ := by
  obtain ⟨-, -, hrecord, -, -, -, -, -, -, -, hsettings, hrefused, hpos⟩ := roundTrips_types
  have hparse : Uri.Settings.parse " [20] " = .ok ⟨20, .perNode⟩ := rfl
  exact ⟨hrecord _, (hsettings _).2 (by decide), hrefused _ (by decide), hparse, hpos _ _ hparse⟩

end MarkupForest
