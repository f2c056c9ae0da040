import PreparedSql.Proofs.JsonText
import PreparedSql.Proofs.TimestampText
import PreparedSql.Proofs.UuidText
import PreparedSql.Proofs.WireRoundTrip

/-!
# What travels as text

A timestamp, a UUID, a document, a vector and an integer above the greatest signed one are bound as
their canonical text, which a column of text gives back as a string.  Three of the five kinds are
loaded from such a string again; the other two are not.

* `TextLoadsBack`: every value that travels as text has a value of its kind that is loaded from that
  text.  It does not hold (`not_textLoadsBack`), at the vector `[1,0.5]`.
* `Value.textOutcome_wireText`: what each kind's type makes of the text.
* `decodeRow_wireText`: the text comes back from its column, and it is loaded as the type it was
  sent from just where that is a timestamp, a UUID or a document.

A vector's type takes vectors only, and an integer's type integers only; neither reads a string, as
the other three do.
-/

namespace PreparedSql

/-- The kinds of what travels as text whose types read a string. -/
def ValueKind.readsText : ValueKind → Bool
  | .timestamp | .uuid | .json => true
  | _                          => false

namespace Value

/-- A document goes no deeper than the reader. -/
def WithinNesting (v : Value) : Prop := ∀ j, v = .json j → j.depth ≤ Json.nestingLimit

/-- Some value of the kind of `v` is loaded from the text. -/
def LoadsBack (v : Value) (text : String) : Prop :=
  ∃ w : Value, w.kind = v.kind ∧ w.LoadedFrom (.string text)

end Value

/-! ### The statement that fails -/

/-- **Every canonical text loads back**: a value that travels as text comes from a column of text as
that text, from which the type of the value loads. -/
def TextLoadsBack : Prop :=
  ∀ (column : String) (v : Value) (text : String), v.wireText? = some text → v.WithinNesting →
    decodeRow [⟨column, .text, v.bind⟩] = .ok [.string text] ∧ v.LoadsBack text

namespace Value

/-! ### What each type makes of a text -/

/-- What loading the text as the type of `v` gives: the time shown, the same UUID, some document,
or that a string is not what the type takes. -/
def TextOutcome (v : Value) (text : String) : Prop :=
  match v with
  | .timestamp t => loadTimestamp (.string text) = .ok ⟨t.shown, t.shown_valid⟩
  | .uuid u      => loadUuid (.string text) = .ok u
  | .json _      => ∃ j, loadJson (.string text) = .ok j
  | .vector _    => loadVector (.string text) = .error (.mismatch .string "Vec<f32>")
  | .int w _     => loadInt w (.string text) = .error (.mismatch .string w.name)
  | _            => False

/-- Each kind that travels as text, by what its own reader makes of the text. -/
theorem textOutcome_wireText {v : Value} {text : String} (sent : v.wireText? = some text)
    (nested : v.WithinNesting) : v.TextOutcome text := by
  cases v with
  | timestamp t =>
      obtain rfl := Option.some.inj sent
      simp only [TextOutcome, loadTimestamp, Timestamp.read?_text]
      rfl
  | uuid u =>
      obtain rfl := Option.some.inj sent
      simp only [TextOutcome, loadUuid, Uuid.read?_text]
      rfl
  | json j =>
      obtain rfl := Option.some.inj sent
      obtain ⟨j', read⟩ := Json.read?_text (nested j rfl)
      refine ⟨j', ?_⟩
      simp only [loadJson, read]
      rfl
  -- these two have no arm for a string, whatever it says
  | vector xs => rfl
  | int w n => rfl
  | null | bool | f32 | f64 | string | bytes => cases sent

/-- A vector is loaded from a vector only, and a column gives none. -/
theorem not_loadsBack_vector (xs : List Single) (text : String) :
    ¬ (Value.vector xs).LoadsBack text := by
  rintro ⟨w, kind, loaded⟩
  cases w with
  | vector ys => cases loaded
  | _ => cases kind

/-- An integer is loaded from an integer only; text is no integer, not even that of one. -/
theorem not_loadsBack_int {w : Width} (n : FixedInt w) (text : String) :
    ¬ (Value.int w n).LoadsBack text := by
  rintro ⟨other, kind, loaded⟩
  cases other with
  | int w' m => cases loaded
  | _ => cases kind

theorem loadsBack_iff {v : Value} {text : String} (h : v.TextOutcome text) :
    v.LoadsBack text ↔ v.kind.readsText = true := by
  cases v with
  | timestamp t => exact iff_of_true ⟨.timestamp ⟨t.shown, t.shown_valid⟩, rfl, h⟩ rfl
  | uuid u => exact iff_of_true ⟨.uuid u, rfl, h⟩ rfl
  | json j =>
      obtain ⟨j', loaded⟩ := h
      exact iff_of_true ⟨.json j', rfl, loaded⟩ rfl
  | vector xs => exact iff_of_false (not_loadsBack_vector xs text) Bool.false_ne_true
  | int w n => exact iff_of_false (not_loadsBack_int n text) Bool.false_ne_true
  | null | bool | f32 | f64 | string | bytes => exact h.elim

/-- What has a text for the wire is bound as that text, whatever its kind. -/
theorem bind_of_wireText {v : Value} {text : String} (sent : v.wireText? = some text) :
    v.bind = .text text := by
  simp only [bind, sent]

end Value

/-- **What travels as text comes back as that text**, and the text is loaded as the type it was sent
from just where that is a timestamp, a UUID or a document. -/
theorem decodeRow_wireText (column : String) {v : Value} {text : String}
    (sent : v.wireText? = some text) (nested : v.WithinNesting) :
    decodeRow [⟨column, .text, v.bind⟩] = .ok [.string text] ∧ v.TextOutcome text ∧
      (v.LoadsBack text ↔ v.kind.readsText = true) := by
  have outcome := Value.textOutcome_wireText sent nested
  refine ⟨?_, outcome, Value.loadsBack_iff outcome⟩
  rw [Value.bind_of_wireText sent]
  rfl

/-- A document travels as its compact text, and is loaded from it. -/
theorem document_decodeRow :
    (Value.json (.array [.null, .bool true])).WithinNesting ∧
      decodeRow [⟨"c", .text, (Value.json (.array [.null, .bool true])).bind⟩] =
        .ok [.string "[null,true]"] ∧
      (Value.json (.array [.null, .bool true])).TextOutcome "[null,true]" ∧
      ((Value.json (.array [.null, .bool true])).LoadsBack "[null,true]" ↔
        ValueKind.json.readsText = true) := by
  have nested : (Value.json (.array [.null, .bool true])).WithinNesting := by
    intro j e
    cases e
    decide
  exact ⟨nested, decodeRow_wireText "c" rfl nested⟩

/-- No type of vectors reads `[1,0.5]`, the text of a vector. -/
theorem not_textLoadsBack : ¬ TextLoadsBack := by
  intro h
  have sent : (Value.vector [⟨0x3F800000⟩, ⟨0x3F000000⟩]).wireText? = some "[1,0.5]" := by
    decide +kernel
  have loads := (h "c" (.vector [⟨0x3F800000⟩, ⟨0x3F000000⟩]) "[1,0.5]" sent nofun).2
  exact Value.not_loadsBack_vector _ _ loads

end PreparedSql
