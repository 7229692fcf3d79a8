import ContractLex.Json.Reader
import ContractLex.Proofs.JsonText
import Mathlib.Data.List.TakeDrop

/-!
# Reading back what was written

The reader inverts the writer on values whose leaves are exact (`read?_render`). A text stands in
front of other text, so each lemma says what is read from the front and what is left. Only a numeral
could read on into what follows it, and what follows a value never lets it (`Stops`). The induction
is on the value, as the writer takes it apart; the reader's bound on steps is spent no faster than
the text.
-/

namespace ContractLex.Json

/-! ## Numerals -/

/-- What a numeral does not read on into. -/
def Stops (rest : List Char) : Prop :=
  ∀ c ∈ rest.head?, c.isDigit = false ∧ c ≠ '.' ∧ c ≠ 'e' ∧ c ≠ 'E'

theorem stops_nil : Stops [] := by simp [Stops]

theorem stops_cons {c : Char} (h : c = ',' ∨ c = ']' ∨ c = '}') (rest : List Char) :
    Stops (c :: rest) := by
  intro d hd
  obtain rfl : c = d := by simpa using hd
  rcases h with rfl | rfl | rfl <;> decide

theorem takeDigits_append {ds rest : List Char} (hds : ∀ c ∈ ds, c.isDigit = true)
    (h : Stops rest) : takeDigits (ds ++ rest) = (ds, rest) := by
  rw [takeDigits, List.span_eq_takeWhile_dropWhile, List.takeWhile_append_of_pos hds,
    List.dropWhile_append_of_pos hds]
  cases rest with
  | nil => simp
  | cons c rest =>
      have hc := (h c (by simp)).1
      simp [hc]

/-- Only zero begins with the digit zero. -/
theorem head?_toDigits (m : Nat) (hm : 0 < m) : (Nat.toDigits 10 m).head? ≠ some '0' := by
  induction m using Nat.strongRecOn with
  | ind m ih =>
      rcases Nat.lt_or_ge m 10 with hlt | hge
      · have hdigit : ∀ d < 10, 0 < d → Nat.digitChar d ≠ '0' := by decide
        rw [Nat.toDigits_of_lt_base hlt]
        simpa using hdigit m hlt hm
      · have hhead := ih (m / 10) (by omega) (by omega)
        obtain ⟨c, cs, hcs⟩ := List.exists_cons_of_ne_nil (Nat.toDigits_ne_nil (n := m / 10))
        rw [Nat.toDigits_of_base_le (by decide) hge, hcs]
        rwa [hcs] at hhead

theorem isWhole_toDigits (m : Nat) : isWhole (Nat.toDigits 10 m) = true := by
  rcases Nat.eq_zero_or_pos m with rfl | hm
  · rfl
  · have hhead := head?_toDigits m hm
    unfold isWhole
    split
    · next hnil => exact absurd hnil Nat.toDigits_ne_nil
    · next hzero => rw [hzero] at hhead; exact absurd rfl hhead
    · rfl

theorem readNumber_toDigits (negative : Bool) (m : Nat) {rest : List Char} (h : Stops rest) :
    readNumber negative (Nat.toDigits 10 m ++ rest) =
      some (Numeral.toJson { negative, whole := Nat.toDigits 10 m }, rest) := by
  have hdigits : ∀ c ∈ Nat.toDigits 10 m, c.isDigit = true :=
    fun c hc => Nat.isDigit_of_mem_toDigits (by decide) (by decide) hc
  have hfraction : readFraction rest = some (none, rest) := by
    unfold readFraction
    split
    · exact absurd rfl (h _ rfl).2.1
    · rfl
  have hexponent : readExponent rest = some (none, rest) := by
    unfold readExponent
    split
    · exact absurd rfl (h _ rfl).2.2.1
    · exact absurd rfl (h _ rfl).2.2.2
    · rfl
  simp [readNumber, takeDigits_append hdigits h, isWhole_toDigits, hfraction, hexponent, guard]

theorem natOfDigits_toDigits (m : Nat) : Decimal.natOfDigits (Nat.toDigits 10 m) = m := by
  rw [Decimal.natOfDigits, ← Nat.ofDigitChars_eq_foldl, Nat.ofDigitChars_ten_toDigits]

theorem toJson_natural {m : Nat} (h : m < naturalLimit) :
    Numeral.toJson { negative := false, whole := Nat.toDigits 10 m } = .int m := by
  simp [Numeral.toJson, natOfDigits_toDigits, h]

theorem toJson_negative {m : Nat} (hpos : 0 < m) (h : m ≤ negativeLimit) :
    Numeral.toJson { negative := true, whole := Nat.toDigits 10 m } = .int (-m) := by
  simp [Numeral.toJson, natOfDigits_toDigits, hpos, h]

/-! ## Strings -/

theorem readString_hex4 (s : StringState) {n : Nat} (h : n < 0x20) (tail : List Char) :
    readString s ('\\' :: 'u' :: (hex4 n ++ tail)) = readString (s.pushUnit n) tail := by
  have hvalue : ∀ n < 0x20, hex4? (Nat.digitChar (n / 4096 % 16)) (Nat.digitChar (n / 256 % 16))
      (Nat.digitChar (n / 16 % 16)) (Nat.digitChar (n % 16)) = some n := by decide
  simp [hex4, readString, hvalue n h]

theorem pushUnit_toNat (s : StringState) {c : Char} (h : c.toNat < 0x20) :
    s.pushUnit c.toNat = s.push c := by
  rw [StringState.pushUnit, if_neg (by omega), if_neg (by omega), Char.ofNat_toNat]

theorem readString_escapeChar (s : StringState) (c : Char) (tail : List Char) :
    readString s (escapeChar c ++ tail) = readString (s.push c) tail := by
  unfold escapeChar
  iterate 7
    split
    · next hc => subst hc; simp [readString, unescape?]
  split
  · next hc => rw [← pushUnit_toNat s hc, ← readString_hex4 s hc]; rfl
  · simp [readString, *]

theorem readString_escape (cs tail : List Char) :
    ∀ s : StringState, readString s (escape cs ++ tail) = readString (cs.foldl .push s) tail := by
  induction cs with
  | nil => intro s; rfl
  | cons c cs ih =>
      intro s
      rw [escape, List.flatMap_cons, List.append_assoc, readString_escapeChar, ← escape, ih]
      rfl

theorem text?_foldl_push (cs : List Char) :
    ∀ done : List Char, (cs.foldl StringState.push { reversed := done }).text? =
      some (String.ofList (done.reverse ++ cs)) := by
  induction cs with
  | nil => simp [StringState.text?]
  | cons c cs ih =>
      intro done
      rw [List.foldl_cons, StringState.push]
      simpa using ih (c :: done)

theorem readString_quoted (s : String) (rest : List Char) :
    readString {} (escape s.toList ++ '"' :: rest) = some (some s, rest) := by
  rw [readString_escape, readString, text?_foldl_push]
  simp

/-! ## Values -/

theorem skipBlanks_cons {c : Char} (h : isBlank c = false) (cs : List Char) :
    skipBlanks (c :: cs) = c :: cs := by
  simp [skipBlanks, h]

theorem toDigits_head (m : Nat) : ∃ d ds, Nat.toDigits 10 m = d :: ds ∧ d.isDigit = true := by
  obtain ⟨d, ds, hds⟩ := List.exists_cons_of_ne_nil (Nat.toDigits_ne_nil (b := 10) (n := m))
  exact ⟨d, ds, hds, Nat.isDigit_of_mem_toDigits (by decide) (by decide) (hds ▸ List.mem_cons_self)⟩

theorem ne_of_isDigit {c d : Char} (hc : c.isDigit = true) (hd : d.isDigit = false) : c ≠ d := by
  rintro rfl
  exact absurd (hc.symm.trans hd) (by decide)

theorem isBlank_of_isDigit {c : Char} (h : c.isDigit = true) : isBlank c = false := by
  have hne (d : Char) (hd : d.isDigit = false) : (c == d) = false :=
    beq_false_of_ne (ne_of_isDigit h hd)
  simp [isBlank, hne]

/-- No value begins with a blank or with a closing bracket. -/
theorem text_head : ∀ {j : Json}, (∀ x ∈ leaves j, x.isExact = true) →
    ∃ c cs, text j = c :: cs ∧ isBlank c = false ∧ c ≠ ']'
  | .null, _ | .bool true, _ | .bool false, _ => ⟨_, _, rfl, by decide, by decide⟩
  | .string _, _ | .array _, _ | .object _, _ => ⟨_, _, rfl, by decide, by decide⟩
  | .real _, h | .beyond, h => nomatch (show false = true from h _ List.mem_cons_self)
  | .int n, _ => by
      rw [text_int]
      split
      · obtain ⟨d, ds, hds, hd⟩ := toDigits_head n.toNat
        exact ⟨d, ds, hds, isBlank_of_isDigit hd, ne_of_isDigit hd (by decide)⟩
      · exact ⟨_, _, rfl, by decide, by decide⟩

theorem readValue_int {n : Int} (hlow : -(negativeLimit : Int) ≤ n) (hhigh : n < naturalLimit)
    (fuel : Nat) {rest : List Char} (h : Stops rest) :
    readValue (fuel + 1) (text (.int n) ++ rest) = some (.int n, rest) := by
  rw [text_int]
  split
  · next hn =>
    obtain ⟨d, ds, hds, hd⟩ := toDigits_head n.toNat
    have hnumber := readNumber_toDigits false n.toNat h
    rw [toJson_natural (by omega), Int.toNat_of_nonneg hn, hds] at hnumber
    have hne (c : Char) (hc : c.isDigit = false) : d ≠ c := ne_of_isDigit hd hc
    rw [hds, readValue, List.cons_append, skipBlanks_cons (isBlank_of_isDigit hd)]
    simpa [hne] using hnumber
  · next hn =>
    have hnumber := readNumber_toDigits true (-n).toNat h
    rw [toJson_negative (by omega) (by omega), Int.toNat_of_nonneg (by omega), Int.neg_neg]
      at hnumber
    simpa [readValue, skipBlanks_cons, isBlank] using hnumber

theorem itemsText_head {item : Json} {items : List Json}
    (h : ∀ x ∈ itemsLeaves (item :: items), x.isExact = true) :
    ∃ c cs, itemsText true (item :: items) = c :: cs ∧ isBlank c = false ∧ c ≠ ']' := by
  rw [itemsLeaves, List.forall_mem_append] at h
  obtain ⟨c, cs, hcs, hc⟩ := text_head h.1
  exact ⟨c, cs ++ itemsText false items, by simp [itemsText, hcs], hc⟩

theorem itemsText_false (item : Json) (items : List Json) :
    itemsText false (item :: items) = ',' :: itemsText true (item :: items) := by
  simp [itemsText]

theorem membersText_false (member : String × Json) (members : List (String × Json)) :
    membersText false (member :: members) = ',' :: membersText true (member :: members) := by
  obtain ⟨name, value⟩ := member
  simp [membersText]

mutual

theorem readValue_text : ∀ {j : Json} {n : Nat}, (∀ x ∈ leaves j, x.isExact = true) →
    (text j).length < n → ∀ {rest : List Char}, Stops rest →
    readValue n (text j ++ rest) = some (j, rest)
  | .null, n + 1, _, _, rest, _ | .bool true, n + 1, _, _, rest, _
  | .bool false, n + 1, _, _, rest, _ => by
      simp [readValue, text, skipBlanks, isBlank, takeWord]
  | .real _, _, hexact, _, _, _ | .beyond, _, hexact, _, _, _ =>
      nomatch (show false = true from hexact _ List.mem_cons_self)
  | .int k, n + 1, hexact, _, rest, hrest => by
      have hk : isExact (.int k) = true := hexact _ List.mem_cons_self
      rw [isExact, Bool.and_eq_true, decide_eq_true_iff, decide_eq_true_iff] at hk
      exact readValue_int hk.1 hk.2 n hrest
  | .string s, n + 1, _, _, rest, _ => by
      simp [readValue, text, quoted, skipBlanks_cons, isBlank, readString_quoted]
  | .array [], n + 1, _, _, rest, _ => by
      simp [readValue, text, itemsText, skipBlanks, isBlank]
  | .array (item :: items), n + 1, hexact, hn, rest, _ => by
      rw [leaves] at hexact
      rw [text, List.length_append, List.length_cons, List.length_singleton] at hn
      obtain ⟨c, cs, hcs, hblank, hclosing⟩ := itemsText_head hexact
      have hitems := readItems_text hexact (by omega : _ < n) [] rest
      rw [hcs] at hitems
      simpa [readValue, text, hcs, skipBlanks_cons, skipBlanks_cons hblank, isBlank, hclosing]
        using hitems
  | .object [], n + 1, _, _, rest, _ => by
      simp [readValue, text, membersText, skipBlanks, isBlank]
  | .object ((name, value) :: members), n + 1, hexact, hn, rest, _ => by
      rw [leaves] at hexact
      rw [text, List.length_append, List.length_cons, List.length_singleton] at hn
      have hmembers := readMembers_text hexact (by omega : _ < n) [] rest
      simpa [readValue, text, membersText, quoted, skipBlanks_cons, isBlank] using hmembers

theorem readItems_text : ∀ {item : Json} {items : List Json} {n : Nat},
    (∀ x ∈ itemsLeaves (item :: items), x.isExact = true) →
    (itemsText true (item :: items)).length + 1 < n →
    ∀ (done : List Json) (rest : List Char),
      readItems n done (itemsText true (item :: items) ++ ']' :: rest) =
        some (.array (done.reverse ++ item :: items), rest)
  | item, [], n + 1, hexact, hn, done, rest => by
      rw [itemsLeaves, List.forall_mem_append] at hexact
      have hlength : (text item).length < n := by
        rw [itemsText, itemsText] at hn
        simp only [List.length_append] at hn
        omega
      have hvalue := readValue_text hexact.1 hlength (stops_cons (.inr (.inl rfl)) rest)
      simp [readItems, itemsText, hvalue, skipBlanks_cons, isBlank]
  | item, next :: items, n + 1, hexact, hn, done, rest => by
      rw [itemsLeaves, List.forall_mem_append] at hexact
      have hlength : (text item).length + (itemsText true (next :: items)).length + 1 < n := by
        rw [itemsText, itemsText_false] at hn
        simp only [List.length_append, List.length_cons] at hn
        omega
      have hvalue := readValue_text hexact.1 (n := n) (by omega)
        (stops_cons (.inl rfl) (itemsText true (next :: items) ++ ']' :: rest))
      have hitems := readItems_text hexact.2 (n := n) (by omega) (item :: done) rest
      rw [itemsText, itemsText_false]
      simpa [readItems, hvalue, skipBlanks_cons, isBlank] using hitems

theorem readMembers_text : ∀ {name : String} {value : Json} {members : List (String × Json)}
    {n : Nat}, (∀ x ∈ membersLeaves ((name, value) :: members), x.isExact = true) →
    (membersText true ((name, value) :: members)).length + 1 < n →
    ∀ (done : List (String × Json)) (rest : List Char),
      readMembers n true done (membersText true ((name, value) :: members) ++ '}' :: rest) =
        some (.object (done.reverse ++ (name, value) :: members), rest)
  | name, value, [], n + 1, hexact, hn, done, rest => by
      rw [membersLeaves, List.forall_mem_append] at hexact
      have hlength : (text value).length < n := by
        rw [membersText, membersText] at hn
        simp only [List.length_append, List.length_cons] at hn
        omega
      have hvalue := readValue_text hexact.1 hlength (stops_cons (.inr (.inr rfl)) rest)
      simp [readMembers, membersText, quoted, readString_quoted, hvalue, skipBlanks_cons, isBlank]
  | name, value, (next, held) :: members, n + 1, hexact, hn, done, rest => by
      rw [membersLeaves, List.forall_mem_append] at hexact
      have hlength :
          (text value).length + (membersText true ((next, held) :: members)).length + 1 < n := by
        rw [membersText, membersText_false] at hn
        simp only [List.length_append, List.length_cons] at hn
        omega
      have hvalue := readValue_text hexact.1 (n := n) (by omega)
        (stops_cons (.inl rfl) (membersText true ((next, held) :: members) ++ '}' :: rest))
      have hmembers := readMembers_text hexact.2 (n := n) (by omega) ((name, value) :: done) rest
      rw [membersText, membersText_false]
      simpa [readMembers, quoted, readString_quoted, hvalue, skipBlanks_cons, isBlank]
        using hmembers

end

/-! ## Whole texts -/

theorem read?_render {j : Json} (h : ∀ x ∈ leaves j, x.isExact = true) :
    read? j.render = some j := by
  have hvalue := readValue_text h (Nat.lt_succ_self _) stops_nil
  rw [List.append_nil] at hvalue
  simp [read?, toList_render, hvalue, skipBlanks]

theorem parse?_render {j : Json} (h : ∀ x ∈ leaves j, x.isExact = true)
    (hdepth : j.depth ≤ maxDepth) : parse? j.render = some j := by
  simp [parse?, read?_render h, isHeld_of_isExact h, hdepth]

end ContractLex.Json
