import ContractLex.Boundary
import ContractLex.Proofs.Drivers
import ContractLex.Proofs.JsonRead

/-!
# The answer to a host

A host reads back from an answer what the lexer has produced: the payload is written and read as
JSON, its record is read as the payload it was, and its bytes hold no NUL that would end them early.
The numbers of an error fit the payload, because an error names a place in the source.
-/

namespace ContractLex

/-! ## Payloads -/

namespace Payload

open Json

theorem leaves_tokens (ok : Bool) (entries : List TokenEntry) :
    leaves (tokens ok entries).toRecord =
      .bool ok :: itemsLeaves (entries.map TokenEntry.toRecord) := by
  simp [toRecord, leaves, membersLeaves]

theorem leaves_error (ok : Bool) (body : ErrorBody) :
    leaves (error ok body).toRecord =
      [.bool ok, .string body.message, .nat body.line, .nat body.column] :=
  rfl

theorem isExact_entries (entries : List TokenEntry) :
    ∀ x ∈ itemsLeaves (entries.map TokenEntry.toRecord), x.isExact = true := by
  rw [itemsLeaves_eq_flatMap]
  simp only [List.mem_flatMap, List.mem_map]
  rintro x ⟨-, ⟨e, -, rfl⟩, hx⟩
  have hleaves : x ∈ [.string e.kind, .string e.text] := hx
  simp only [List.mem_cons, List.not_mem_nil, or_false] at hleaves
  rcases hleaves with rfl | rfl <;> rfl

theorem depth_entries (entries : List TokenEntry) :
    itemsDepth (entries.map TokenEntry.toRecord) ≤ 1 := by
  induction entries with
  | nil => exact Nat.zero_le 1
  | cons e entries ih =>
      rw [List.map_cons, itemsDepth]
      exact Nat.max_le.mpr ⟨Nat.le_refl 1, ih⟩

theorem parse?_render_tokens (entries : List TokenEntry) :
    parse? (tokens true entries).render = some (tokens true entries) := by
  have hexact : ∀ x ∈ leaves (tokens true entries).toRecord, x.isExact = true := by
    rw [leaves_tokens]
    exact List.forall_mem_cons.mpr ⟨rfl, isExact_entries entries⟩
  have hdepth : (tokens true entries).toRecord.depth ≤ maxDepth := by
    have hentries := depth_entries entries
    simp only [toRecord, depth, membersDepth, maxDepth]
    omega
  rw [parse?, render, parse?_render hexact hdepth]
  exact ofRecord?_toRecord_tokens entries

theorem parse?_render_error (body : ErrorBody) (hl : body.line < columnLimit)
    (hc : body.column < columnLimit) :
    parse? (error false body).render = some (error false body) := by
  have hexact : ∀ x ∈ leaves (error false body).toRecord, x.isExact = true := by
    rw [leaves_error]
    simp only [List.forall_mem_cons]
    exact ⟨rfl, rfl, isExact_nat hl, isExact_nat hc, List.forall_mem_nil _⟩
  have hdepth : (error false body).toRecord.depth ≤ maxDepth := Nat.le_of_ble_eq_true rfl
  rw [parse?, render, parse?_render hexact hdepth]
  exact ofRecord?_toRecord_error body hl hc

/-- A payload escapes control characters. -/
theorem printed_render (p : Payload) : Printed p.render.toList := by
  refine Json.printed_render ?_
  cases p with
  | tokens ok entries =>
      rw [leaves_tokens]
      exact List.forall_mem_cons.mpr
        ⟨rfl, fun x hx => isReal_of_isExact (isExact_entries entries x hx)⟩
  | error ok body => simp [leaves_error, Json.nat, isReal]

end Payload

/-! ## Bytes -/

theorem findIdx?_loop_eq_none {bytes : ByteArray} {p : UInt8 → Bool}
    (h : ∀ x ∈ bytes.data.toList, p x = false) (i : Nat) :
    ByteArray.findIdx?.loop bytes p i = none := by
  unfold ByteArray.findIdx?.loop
  split
  · next hi =>
    have hx : p bytes[i] = false := h _ (List.getElem_mem (by simpa using hi))
    rw [if_neg (by simp [hx])]
    exact findIdx?_loop_eq_none h (i + 1)
  · rfl
termination_by bytes.size - i

theorem findIdx?_zero {bytes : ByteArray} (h : 0 ∉ bytes.data.toList) :
    bytes.findIdx? (· == 0) = none :=
  findIdx?_loop_eq_none (fun _ hx => beq_false_of_ne (ne_of_mem_of_not_mem hx h)) 0

/-- Only NUL has a zero byte. -/
theorem zero_mem_utf8EncodeChar {c : Char} (h : 0 ∈ String.utf8EncodeChar c) : c.toNat = 0 := by
  have hzero (n : Nat) : 0 = UInt8.ofNat n ↔ n % 256 = 0 := by
    rw [← UInt8.toNat_inj, UInt8.toNat_ofNat']
    exact eq_comm
  have hval : c.val.toNat = c.toNat := rfl
  simp only [String.utf8EncodeChar] at h
  split at h
  · rw [List.mem_singleton, hzero] at h
    omega
  -- all bytes of a longer character have their high bit set
  · repeat' split at h
    all_goals
      simp only [List.mem_cons, List.not_mem_nil, or_false, hzero] at h
      omega

theorem zero_not_mem_toUTF8 {s : String} (h : Json.Printed s.toList) :
    0 ∉ s.toUTF8.data.toList := by
  have hbytes : s.toUTF8 = (s.toList.flatMap String.utf8EncodeChar).toByteArray :=
    String.utf8Encode_toList.symm
  rw [hbytes, List.data_toByteArray, List.toList_toArray, List.mem_flatMap]
  rintro ⟨c, hc, hzero⟩
  have hprinted := h c hc
  rw [zero_mem_utf8EncodeChar hzero] at hprinted
  exact absurd hprinted (by decide)

/-! ## The answer -/

namespace Boundary

variable {base : LexicalSettings} {bytes : ByteArray} {text json : String}

theorem deliver_of_printed (h : Json.Printed json.toList) :
    deliver json = (some json.toUTF8, []) := by
  rw [deliver, handOver, findIdx?_zero (zero_not_mem_toUTF8 h)]

theorem printed_respond (base : LexicalSettings) (input : Option ByteArray) :
    Json.Printed (respond base input).1.toList := by
  unfold respond
  split
  · exact Payload.printed_render _
  · split <;> exact Payload.printed_render _

theorem fromUTF8?_toUTF8 (s : String) : String.fromUTF8? s.toUTF8 = some s :=
  dif_pos s.isValidUTF8

/-- The fallback is never taken. -/
theorem serve_eq (base : LexicalSettings) (input : Option ByteArray) :
    serve base input = (some (respond base input).1.toUTF8, (respond base input).2) := by
  simp [serve, deliver_of_printed (printed_respond base input)]

theorem call_eq (base : LexicalSettings) (input : Option ByteArray) :
    call base input = respond base input := by
  rw [call, serve_eq]
  dsimp only
  rw [Option.bind_some, fromUTF8?_toUTF8, Option.getD_some]

/-- Without a NUL, all bytes are the source. -/
theorem source_of_zero_not_mem (h : 0 ∉ bytes.data.toList) :
    source bytes = (Text.ofBytes bytes).mapError .notText := by
  rw [source, findIdx?_zero h, Option.getD_none, ByteArray.extract_zero_size]
  cases Text.ofBytes bytes <;> rfl

theorem source_toUTF8 (h : 0 ∉ text.toUTF8.data.toList) : source text.toUTF8 = .ok text := by
  rw [source_of_zero_not_mem h, Text.ofBytes, fromUTF8?_toUTF8]
  rfl

theorem source_of_not_isValidUTF8 (h : 0 ∉ bytes.data.toList) (hbytes : ¬ bytes.IsValidUTF8) :
    ∃ fault, source bytes = .error (.notText fault) := by
  have htext : String.fromUTF8? bytes = none := by simp [String.fromUTF8?, hbytes]
  rw [source_of_zero_not_mem h, Text.ofBytes, htext]
  exact ⟨_, rfl⟩

theorem respond_text (h : 0 ∉ text.toUTF8.data.toList) :
    (respond base (some text.toUTF8)).1 = (payloadOf (tokens base text)).render := by
  rw [respond, source_toUTF8 h]
  rfl

theorem parse?_respond_of_not_isValidUTF8 (h : 0 ∉ bytes.data.toList)
    (hbytes : ¬ bytes.IsValidUTF8) :
    ∃ fault, Payload.parse? (respond base (some bytes)).1 =
      some (.error false ⟨(BoundaryError.notText fault).message, 0, 0⟩) := by
  obtain ⟨fault, hsource⟩ := source_of_not_isValidUTF8 h hbytes
  have hzero : 0 < columnLimit := by decide
  rw [respond, hsource]
  exact ⟨fault, Payload.parse?_render_error _ hzero hzero⟩

theorem parse?_respond_of_ok {ts : List Token} (h : 0 ∉ text.toUTF8.data.toList)
    (hts : tokens base text = .ok ts) :
    Payload.parse? (respond base (some text.toUTF8)).1 =
      some (.tokens true (ts.map fun t => ⟨t.kind.wire, t.text⟩)) := by
  rw [respond_text h, hts]
  exact Payload.parse?_render_tokens _

theorem tokens_error_within {e : LexError} (h : tokens base text = .error e) :
    e.position.Within text.length := by
  have hmap : tokens base text =
      (({ settings := settings base } : Lexer).feedSource text).2.map fun _ =>
        (({ settings := settings base } : Lexer).feedSource text).1.tokens.toList := rfl
  have hwithin := Lexer.feedSource_within (settings base) text
  rw [hmap] at h
  rcases hresult : (({ settings := settings base } : Lexer).feedSource text).2 with e' | ⟨⟩
  · rw [hresult] at h
    cases h
    rw [← String.length_toList]
    exact hwithin e hresult
  · rw [hresult] at h
    cases h

theorem parse?_respond_of_error {e : LexError} (h : 0 ∉ text.toUTF8.data.toList)
    (he : tokens base text = .error e) (hfits : text.length < columnLimit) :
    Payload.parse? (respond base (some text.toUTF8)).1 =
      some (.error false ⟨e.message, e.position.line, e.position.column⟩) := by
  obtain ⟨hline, hcolumn⟩ := tokens_error_within he
  have hlimit : lineLimit < columnLimit := by decide
  rw [respond_text h, he]
  exact Payload.parse?_render_error _ (Nat.lt_trans hline hlimit) (Nat.lt_trans hcolumn hfits)

/-- A host that hands over bytes without a NUL gets bytes without a NUL, and never nothing. They are
a payload: for bytes that are no text, an error without a place; for a text, what the lexer produces
for it, be it the tokens or the error. (An error names its column by a machine integer; no text in
memory is longer than these count.) No answer to a text, whatever is in it, holds a control
character, so that it is handed over as it is. -/
theorem serve_answers (base : LexicalSettings) :
    (∀ bytes : ByteArray, 0 ∉ bytes.data.toList →
      ∃ json, (serve base (some bytes)).1 = some json.toUTF8
        ∧ 0 ∉ json.toUTF8.data.toList ∧ (call base (some bytes)).1 = json
        ∧ (¬ bytes.IsValidUTF8 → ∃ fault, Payload.parse? json =
            some (.error false ⟨(BoundaryError.notText fault).message, 0, 0⟩))
        ∧ ∀ text, bytes = text.toUTF8 →
          (∀ ts, tokens base text = .ok ts →
            Payload.parse? json = some (.tokens true (ts.map fun t => ⟨t.kind.wire, t.text⟩))
              ∧ ∀ t ∈ ts, Kind.ofWire? t.kind.wire = some t.kind)
          ∧ ∀ e, tokens base text = .error e → text.length < columnLimit →
            Payload.parse? json =
              some (.error false ⟨e.message, e.position.line, e.position.column⟩))
    ∧ ∀ text, Json.Printed (answer base text).1.toList
        ∧ deliver (answer base text).1 = (some (answer base text).1.toUTF8, []) := by
  refine ⟨fun bytes hbytes => ⟨(respond base (some bytes)).1, ?_, ?_, ?_, ?_, ?_⟩,
    fun text => ?_⟩
  · rw [serve_eq]
  · exact zero_not_mem_toUTF8 (printed_respond base (some bytes))
  · rw [call_eq]
  · exact parse?_respond_of_not_isValidUTF8 hbytes
  · rintro text rfl
    exact ⟨fun ts hts => ⟨parse?_respond_of_ok hbytes hts, fun t _ => Kind.ofWire?_wire t.kind⟩,
      fun e he => parse?_respond_of_error hbytes he⟩
  · have hprinted : Json.Printed (answer base text).1.toList := Payload.printed_render _
    exact ⟨hprinted, deliver_of_printed hprinted⟩

/-- Bytes that are no text; a text with an escaped quote and a control character in it; and a text
whose second line fails. -/
theorem serve_answers_quoted :
    let broken := ByteArray.mk #[0x61, 0xff]
    let quoted := "\"\\\"\" \x01"
    let failing := "a\n 'b"
    let ts : List Token := [⟨.literal .string, "\"", 1, 0, 4⟩, ⟨.unknown, "\x01", 1, 5, 6⟩]
    let e : LexError := .terminal (Fault.openChar.diagnostic ⟨2, 1⟩)
    (0 ∉ broken.data.toList ∧ ¬ broken.IsValidUTF8
      ∧ ∃ json message, (serve {} (some broken)).1 = some json.toUTF8
        ∧ Payload.parse? json = some (.error false ⟨message, 0, 0⟩))
    ∧ (0 ∉ quoted.toUTF8.data.toList ∧ tokens {} quoted = .ok ts
      ∧ ∃ json, (serve {} (some quoted.toUTF8)).1 = some json.toUTF8
        ∧ Payload.parse? json = some (.tokens true [⟨"L_STRING", "\""⟩, ⟨"UNKNOWN", "\x01"⟩]))
    ∧ (0 ∉ failing.toUTF8.data.toList ∧ failing.length < columnLimit
      ∧ tokens {} failing = .error e
      ∧ ∃ json, (serve {} (some failing.toUTF8)).1 = some json.toUTF8
        ∧ Payload.parse? json = some (.error false ⟨"Char is not ended", 2, 1⟩))
    ∧ Json.Printed (answer {} "\x00").1.toList := by
  intro broken quoted failing ts e
  have hbroken : 0 ∉ broken.data.toList := by decide
  have hinvalid : ¬ broken.IsValidUTF8 := by decide
  have hquoted : 0 ∉ quoted.toUTF8.data.toList := by decide +kernel
  have hts : tokens {} quoted = .ok ts := by decide +kernel
  have hfailing : 0 ∉ failing.toUTF8.data.toList := by decide +kernel
  have hfits : failing.length < columnLimit := by decide +kernel
  have he : tokens {} failing = .error e := by decide +kernel
  obtain ⟨hserved, hprinted⟩ := serve_answers {}
  obtain ⟨json, hjson, -, -, hfault, -⟩ := hserved broken hbroken
  obtain ⟨fault, hparse⟩ := hfault hinvalid
  obtain ⟨json', hjson', -, -, -, htext⟩ := hserved quoted.toUTF8 hquoted
  obtain ⟨json'', hjson'', -, -, -, htext'⟩ := hserved failing.toUTF8 hfailing
  exact ⟨⟨hbroken, hinvalid, json, _, hjson, hparse⟩,
    ⟨hquoted, hts, json', hjson', ((htext quoted rfl).1 ts hts).1⟩,
    ⟨hfailing, hfits, he, json'', hjson'', (htext' failing rfl).2 e he hfits⟩,
    (hprinted "\x00").1⟩

end Boundary

end ContractLex
