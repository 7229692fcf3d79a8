import ContractLex.Diagnostic.Record
import ContractLex.Proofs.JsonRead
import ContractLex.Token.Record

/-!
# Records as text

A token or a diagnostic whose numbers fit the machine is written as a JSON text and read back from
it as it was: its record is written and read as JSON (`read?_render`), and the record gives the
value (`ofRecord?_toRecord`). So the text determines the value. Whatever else a text says, it is
refused if the kind in it is the name of none. `records_roundtrip` puts this together.
-/

namespace ContractLex

theorem Kind.ofWire?_eq_none {name : String} :
    Kind.ofWire? name = none ↔ ∀ k : Kind, k.wire ≠ name := by
  constructor
  · rintro h k rfl
    rw [ofWire?_wire] at h
    cases h
  · intro h
    cases hk : Kind.ofWire? name with
    | none => rfl
    | some k => exact absurd (wire_of_ofWire? hk) (h k)

theorem DiagnosticKind.ofLabel?_eq_none {name : String} :
    DiagnosticKind.ofLabel? name = none ↔ ∀ k : DiagnosticKind, k.label ≠ name := by
  constructor
  · rintro h k rfl
    rw [ofLabel?_label] at h
    cases h
  · intro h
    cases hk : DiagnosticKind.ofLabel? name with
    | none => rfl
    | some k => exact absurd (label_of_ofLabel? hk) (h k)

variable {text name : String} {others : List (Option Json)}

/-! ## Tokens -/

namespace Token

/-- Numbers of the machine's widths. -/
structure Fits (t : Token) : Prop where
  line : t.line < lineLimit
  start : t.start < columnLimit
  stop : t.stop < columnLimit

variable {s t : Token}

theorem Fits.isExact (h : t.Fits) : ∀ x ∈ Json.leaves t.toRecord, x.isExact = true := by
  have hline : t.line < columnLimit := Nat.lt_trans h.line (by decide)
  have hleaves : Json.leaves t.toRecord =
      [.string t.kind.wire, .string t.text, .nat t.line, .nat t.start, .nat t.stop] := rfl
  rw [hleaves]
  simp only [List.forall_mem_cons]
  exact ⟨rfl, rfl, Json.isExact_nat hline, Json.isExact_nat h.start, Json.isExact_nat h.stop,
    List.forall_mem_nil _⟩

theorem Fits.parse?_render (h : t.Fits) : parse? t.toRecord.render = some t := by
  rw [parse?, Json.read?_render h.isExact]
  exact ofRecord?_toRecord t h.line h.start h.stop

theorem Fits.eq_of_render_eq (hs : s.Fits) (ht : t.Fits)
    (h : s.toRecord.render = t.toRecord.render) : s = t := by
  have hread : some s = some t := by rw [← hs.parse?_render, h, ht.parse?_render]
  exact Option.some.inj hread

theorem parse?_eq_none
    (hfields : (Json.read? text).bind (Json.fields? fieldNames fieldNames.length true) =
      some (some (.string name) :: others))
    (hname : ∀ k : Kind, k.wire ≠ name) : parse? text = none := by
  obtain ⟨j, hj, hfields⟩ := Option.bind_eq_some_iff.mp hfields
  rw [parse?, hj, Option.bind_eq_bind, Option.bind_some, ofRecord?, hfields]
  split
  · next heq =>
    cases heq
    simp [Json.string?, Kind.ofWire?_eq_none.mpr hname]
  · rfl

end Token

/-! ## Diagnostics -/

namespace Diagnostic

/-- Numbers of the machine's widths. -/
structure Fits (d : Diagnostic) : Prop where
  line : d.line < lineLimit
  column : d.column < columnLimit

variable {c d : Diagnostic}

theorem Fits.isExact (h : d.Fits) : ∀ x ∈ Json.leaves d.toRecord, x.isExact = true := by
  have hline : d.line < columnLimit := Nat.lt_trans h.line (by decide)
  have hleaves : Json.leaves d.toRecord =
      [.string d.kind.label, .string d.message, .nat d.line, .nat d.column] := rfl
  rw [hleaves]
  simp only [List.forall_mem_cons]
  exact ⟨rfl, rfl, Json.isExact_nat hline, Json.isExact_nat h.column, List.forall_mem_nil _⟩

theorem Fits.parse?_render (h : d.Fits) : parse? d.toRecord.render = some d := by
  rw [parse?, Json.read?_render h.isExact]
  exact ofRecord?_toRecord d h.line h.column

theorem Fits.eq_of_render_eq (hc : c.Fits) (hd : d.Fits)
    (h : c.toRecord.render = d.toRecord.render) : c = d := by
  have hread : some c = some d := by rw [← hc.parse?_render, h, hd.parse?_render]
  exact Option.some.inj hread

theorem parse?_eq_none
    (hfields : (Json.read? text).bind (Json.fields? fieldNames fieldNames.length true) =
      some (some (.string name) :: others))
    (hname : ∀ k : DiagnosticKind, k.label ≠ name) : parse? text = none := by
  obtain ⟨j, hj, hfields⟩ := Option.bind_eq_some_iff.mp hfields
  rw [parse?, hj, Option.bind_eq_bind, Option.bind_some, ofRecord?, hfields]
  split
  · next heq =>
    cases heq
    simp [Json.choice?, DiagnosticKind.ofLabel?_eq_none.mpr hname]
  · rfl

end Diagnostic

/-! ## Both -/

/-- Tokens and diagnostics are read back from their texts as they were, and no two have the same
text. A text is refused if its kind, or a kind by itself, is a string that names none. -/
theorem records_roundtrip :
    (∀ t : Token, t.Fits → Token.parse? t.toRecord.render = some t)
    ∧ (∀ d : Diagnostic, d.Fits → Diagnostic.parse? d.toRecord.render = some d)
    ∧ (∀ s t : Token, s.Fits → t.Fits → s.toRecord.render = t.toRecord.render → s = t)
    ∧ (∀ c d : Diagnostic, c.Fits → d.Fits → c.toRecord.render = d.toRecord.render → c = d)
    ∧ (∀ name, Kind.ofWire? name = none ↔ ∀ k : Kind, k.wire ≠ name)
    ∧ ∀ (text name : String) (others : List (Option Json)),
      ((Json.read? text).bind (Json.fields? Token.fieldNames Token.fieldNames.length true) =
          some (some (.string name) :: others) →
        (∀ k : Kind, k.wire ≠ name) → Token.parse? text = none)
      ∧ ((Json.read? text).bind
            (Json.fields? Diagnostic.fieldNames Diagnostic.fieldNames.length true) =
          some (some (.string name) :: others) →
        (∀ k : DiagnosticKind, k.label ≠ name) → Diagnostic.parse? text = none) :=
  ⟨fun _ ht => ht.parse?_render, fun _ hd => hd.parse?_render,
    fun _ _ hs ht h => hs.eq_of_render_eq ht h, fun _ _ hc hd h => hc.eq_of_render_eq hd h,
    fun _ => Kind.ofWire?_eq_none,
    fun _ _ _ => ⟨Token.parse?_eq_none, Diagnostic.parse?_eq_none⟩⟩

/-- Tokens and a diagnostic at the limits, with a quote, a backslash, control characters and a
character outside the basic plane in their texts; and records of kinds that there are not. -/
theorem records_roundtrip_limits :
    let odd := "\"\\\n\x01😀"
    let s : Token := ⟨.literal .string, odd, 4294967295, 0, 18446744073709551615⟩
    let t : Token := ⟨.unknown, odd, 4294967295, 0, 18446744073709551615⟩
    let d : Diagnostic := ⟨.invalidEscape, odd, 4294967295, 18446744073709551615⟩
    let noToken : Json := .array [.string "K_NOPE", .string "x", .int 1, .int 0, .int 1]
    let noDiagnostic : Json := .array [.string "Nope", .string "x", .int 1, .int 0]
    (s.Fits ∧ Token.parse? s.toRecord.render = some s)
    ∧ (d.Fits ∧ Diagnostic.parse? d.toRecord.render = some d)
    ∧ (t.Fits ∧ s.toRecord.render ≠ t.toRecord.render)
    ∧ Token.parse? noToken.render = none ∧ Diagnostic.parse? noDiagnostic.render = none := by
  intro odd s t d noToken noDiagnostic
  have hs : s.Fits := ⟨by decide, by decide, by decide⟩
  have ht : t.Fits := ⟨by decide, by decide, by decide⟩
  have hd : d.Fits := ⟨by decide, by decide⟩
  obtain ⟨htoken, hdiagnostic, hdistinct, -, -, hrefused⟩ := records_roundtrip
  have hkind : ∀ k : Kind, k.wire ≠ "K_NOPE" := Kind.ofWire?_eq_none.mp (by decide +kernel)
  have hlabel : ∀ k : DiagnosticKind, k.label ≠ "Nope" :=
    DiagnosticKind.ofLabel?_eq_none.mp (by decide +kernel)
  have hreadToken : Json.read? noToken.render = some noToken := Json.read?_render (by decide)
  have hreadDiagnostic : Json.read? noDiagnostic.render = some noDiagnostic :=
    Json.read?_render (by decide)
  refine ⟨⟨hs, htoken s hs⟩, ⟨hd, hdiagnostic d hd⟩, ⟨ht, fun h => ?_⟩, ?_, ?_⟩
  · have hkinds : s.kind = t.kind := congrArg Token.kind (hdistinct s t hs ht h)
    cases hkinds
  · exact (hrefused _ _ _).1 (Option.bind_eq_some_iff.mpr ⟨_, hreadToken, rfl⟩) hkind
  · exact (hrefused _ _ _).2 (Option.bind_eq_some_iff.mpr ⟨_, hreadDiagnostic, rfl⟩) hlabel

end ContractLex
