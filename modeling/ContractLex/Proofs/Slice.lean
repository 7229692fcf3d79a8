import ContractLex.Proofs.Word
import ContractLex.Span
import Mathlib.Data.String.Basic

/-!
# What a slice covers

`Span.slice` looks byte offsets up and cuts between them. That it counts characters all the same
rests on two facts: the offset of a character is the size of the characters before it, whatever
their sizes are (`Text.getElem?_offsetsFrom`), and between two such offsets a text can be cut, with
the characters between them as the result (`Text.cut?_eq`). The end of a span is looked up in what
follows its start, so `Span.exists_stops` says both once more about the rest of a text. It follows
that `Span.slice` neither fails nor differs from `Span.slice?` (`Span.slice_eq`); what that is,
span by span, is `Span.slice_covers`.
-/

namespace ContractLex

open String (utf8Len)

/-! ## Offsets and cuts -/

namespace Text

/-- A character is as many bytes from the first one as the characters before it have. The end of
the text comes after the last one. -/
theorem getElem?_offsetsFrom (cs : List Char) : ∀ b k : Nat,
    (offsetsFrom b cs ++ [b + utf8Len cs])[k]? =
      if k ≤ cs.length then some (b + utf8Len (cs.take k)) else none := by
  induction cs with
  | nil =>
      intro b k
      cases k <;> simp [offsetsFrom]
  | cons c cs ih =>
      intro b k
      cases k with
      | zero => simp [offsetsFrom]
      | succ k =>
          have hend : b + utf8Len (c :: cs) = b + c.utf8Size + utf8Len cs := by
            rw [String.utf8Len_cons]
            omega
          rw [offsetsFrom, hend, List.cons_append, List.getElem?_cons_succ, ih]
          simp only [List.length_cons, Nat.add_le_add_iff_right, List.take_succ_cons,
            String.utf8Len_cons]
          split
          · congr 1
            omega
          · rfl

theorem le_of_mem_offsetsFrom {cs : List Char} {x : Nat} :
    ∀ {b : Nat}, x ∈ offsetsFrom b cs → x ≤ b + utf8Len cs := by
  induction cs with
  | nil => exact fun h => nomatch h
  | cons c cs ih =>
      intro b h
      rw [String.utf8Len_cons]
      rcases List.mem_cons.mp h with rfl | h
      · exact Nat.le_add_right _ _
      · have := ih h
        omega

/-- A cut takes out what stands between two of the offsets. -/
theorem cut?_eq {text : String} {a w b : List Char} (h : text.toList = a ++ w ++ b) :
    cut? text (utf8Len a) (utf8Len (a ++ w)) = some (String.ofList w) := by
  have hvalid : ∀ v, v <+: text.toList → String.Pos.Raw.IsValid text ⟨utf8Len v⟩ := fun v hv =>
    String.Pos.Raw.isValid_iff_exists_take_toList.mpr
      ⟨v.length, by rw [← List.prefix_iff_eq_take.mp hv, String.utf8ByteSize_ofList]⟩
  have haw : a ++ w <+: text.toList := h ▸ List.prefix_append _ _
  have ha : a <+: text.toList := (List.prefix_append a w).trans haw
  have htext : text.toByteArray = (String.ofList a).toByteArray
      ++ ((String.ofList w).toByteArray ++ (String.ofList b).toByteArray) := by
    rw [← String.toByteArray_append, ← String.toByteArray_append, ← String.ofList_append,
      ← String.ofList_append, ← List.append_assoc, ← h, String.ofList_toList]
  have hsize : ∀ v : List Char, utf8Len v = (String.ofList v).toByteArray.size := fun v => by
    rw [String.size_toByteArray, String.utf8ByteSize_ofList]
  have hle : utf8Len a ≤ utf8Len (a ++ w) := String.utf8Len_le_of_prefix (List.prefix_append a w)
  rw [cut?, dif_pos ⟨hle, hvalid a ha, hvalid _ haw⟩]
  congr 1
  rw [← String.toByteArray_inj, String.toByteArray_extract, String.offset_pos, String.offset_pos,
    htext, String.utf8Len_append]
  exact (ByteArray.extract_append_size_add' (i := 0) (hsize a)).trans
    (ByteArray.extract_append_eq_left (hsize w))

theorem getElem?_offsets (text : String) (k : Nat) :
    (offsets text ++ [text.utf8ByteSize])[k]? =
      if k ≤ text.toList.length then some (utf8Len (text.toList.take k)) else none := by
  have h := getElem?_offsetsFrom text.toList 0 k
  rwa [Nat.zero_add, Nat.zero_add, String.utf8Len_toList] at h

end Text

/-! ## The walk to the end of a span -/

namespace Span

theorem byteAfter_of_lt {i n : Nat} (h : i + n < columnLimit) : byteAfter i n = .ok (i + n) :=
  if_pos h

theorem mapM_byteAfter {i : Nat} : ∀ {ns : List Nat}, (∀ n ∈ ns, i + n < columnLimit) →
    ns.mapM (byteAfter i) = .ok (ns.map (i + ·))
  | [], _ => rfl
  | n :: ns, h => by
      obtain ⟨hn, hns⟩ := List.forall_mem_cons.mp h
      rw [List.mapM_cons, byteAfter_of_lt hn, mapM_byteAfter hns]
      rfl

/-- Only the first `n + 1` elements tell which one is element `n`. -/
theorem getElem?_take_append {α : Type} (xs : List α) (x : α) (n : Nat) :
    (xs.take (n + 1) ++ [x])[n]? = (xs ++ [x])[n]? := by
  rcases Nat.lt_or_ge n xs.length with hlt | hge
  · have hlt' : n < (xs.take (n + 1)).length := by
      rw [List.length_take]
      omega
    rw [List.getElem?_append_left hlt', List.getElem?_append_left hlt,
      List.getElem?_take_of_lt (Nat.lt_succ_self n)]
  · rw [List.take_of_length_le (Nat.le_succ_of_le hge)]

section Rest

variable {text : String} {a b : List Char}

theorem textFrom_eq (h : text.toList = a ++ b) :
    textFrom text (utf8Len a) = .ok (String.ofList b) := by
  have hcut := Text.cut?_eq (h.trans (List.append_nil _).symm)
  rw [← h, String.utf8Len_toList] at hcut
  rw [textFrom, hcut]

/-- The offsets from some character on, as they are looked up. -/
theorem exists_stops (h : text.toList = a ++ b) (hsize : text.utf8ByteSize < columnLimit)
    (n : Nat) :
    ∃ stops,
      ((Text.offsets (String.ofList b)).take (n + 1)).mapM (byteAfter (utf8Len a)) = .ok stops
        ∧ (stops ++ [text.utf8ByteSize])[n]? =
          if n ≤ b.length then some (utf8Len (a ++ b.take n)) else none := by
  have htotal : text.utf8ByteSize = utf8Len a + utf8Len b := by
    rw [← String.utf8Len_toList, h, String.utf8Len_append]
  have hfits : ∀ x ∈ (Text.offsets (String.ofList b)).take (n + 1),
      utf8Len a + x < columnLimit := by
    intro x hx
    have hle := Text.le_of_mem_offsetsFrom (List.mem_of_mem_take hx)
    rw [String.toList_ofList] at hle
    omega
  refine ⟨_, mapM_byteAfter hfits, ?_⟩
  have hlookup := Text.getElem?_offsets (String.ofList b) n
  rw [String.toList_ofList, String.utf8ByteSize_ofList] at hlookup
  rw [htotal, ← List.map_singleton (f := (utf8Len a + ·)), ← List.map_append, List.getElem?_map,
    getElem?_take_append, hlookup]
  split
  · rw [Option.map_some, String.utf8Len_append]
  · rfl

end Rest

/-! ## Slices -/

theorem slice?_of_lt {line i j : Nat} {text : String} (hij : i ≤ j)
    (hj : text.toList.length < j) : slice? ⟨⟨line, i⟩, ⟨line, j⟩⟩ text = none := by
  rcases Nat.eq_or_lt_of_le hij with rfl | hlt
  · simp [slice?, hj]
  · have hne : i ≠ j := by omega
    have hl : text.toList.length < i + (j - i) := by omega
    simp [slice?, length, isEmpty, hl, hne]

theorem slice?_of_length_eq_zero {s : Span} (h : s.length = 0) (text : String) :
    s.slice? text = if s.start.column ≤ text.toList.length then some "" else none := by
  by_cases hstart : s.start.column ≤ text.toList.length
  · simp [slice?, h, hstart, Nat.not_lt.mpr hstart]
  · simp [slice?, hstart, Nat.lt_of_not_le hstart]

/-- The bytes that are cut out are those of the characters that are covered. -/
theorem slice_eq (s : Span) {text : String} (hsize : text.utf8ByteSize < columnLimit) :
    s.slice text = .ok (s.slice? text) := by
  unfold slice slice?
  rw [Text.getElem?_offsets]
  by_cases hstart : s.start.column ≤ text.toList.length
  · have hsplit : text.toList =
        text.toList.take s.start.column ++ text.toList.drop s.start.column :=
      (List.take_append_drop _ _).symm
    simp only [if_pos hstart, if_neg (Nat.not_lt.mpr hstart)]
    split
    · have hempty : text.toList =
          text.toList.take s.start.column ++ [] ++ text.toList.drop s.start.column := by
        rwa [List.append_nil]
      have hcut := Text.cut?_eq hempty
      rw [List.append_nil] at hcut
      rw [hcut, String.ofList_nil]
    · obtain ⟨stops, hstops, hstop⟩ := exists_stops hsplit hsize s.length
      rw [textFrom_eq hsplit]
      simp only [hstops, bind, Except.bind, hstop, List.length_drop]
      by_cases hlength : s.length ≤ text.toList.length - s.start.column
      · have hshort : ¬ text.toList.length < s.start.column + s.length := by omega
        have hcovered : text.toList = text.toList.take s.start.column
            ++ (text.toList.drop s.start.column).take s.length
            ++ (text.toList.drop s.start.column).drop s.length := by
          rw [List.append_assoc, List.take_append_drop, List.take_append_drop]
        simp only [if_pos hlength, if_neg hshort, Text.cut?_eq hcovered]
      · have hlong : text.toList.length < s.start.column + s.length := by omega
        simp only [if_neg hlength, if_pos hlong]
  · simp only [if_neg hstart, if_pos (Nat.lt_of_not_le hstart)]

/-- A slice counts characters: on one line it is the characters from the start column up to the end
column, if there are that many; where the ends are on two lines or in the wrong order it is empty,
if the text has a character offset where the span starts. No text is cut inside a character, and no
offset overflows. -/
theorem slice_covers (s : Span) {text : String} (hsize : text.utf8ByteSize < columnLimit) :
    s.slice text = .ok
      (if s.start.line = s.stop.line ∧ s.start.column ≤ s.stop.column then
        if s.stop.column ≤ text.toList.length then
          some (String.ofList (stretch text.toList s.start.column s.stop.column))
        else none
      else if s.start.column ≤ text.toList.length then some "" else none) := by
  rw [slice_eq s hsize]
  congr 1
  obtain ⟨⟨line, i⟩, ⟨line', j⟩⟩ := s
  dsimp only
  split
  · next h =>
    obtain ⟨rfl, hij⟩ := h
    split
    · next hj => exact slice?_of_le hij hj
    · next hj => exact slice?_of_lt hij (Nat.lt_of_not_le hj)
  · next h =>
    refine slice?_of_length_eq_zero ?_ text
    simp only [length]
    split
    · next hline => exact Nat.sub_eq_zero_of_le (Nat.le_of_not_le fun hij => h ⟨hline, hij⟩)
    · rfl

/-- Characters of two and of four bytes; an end that is far away; ends on two lines. -/
theorem slice_covers_wide :
    let text := "é𝄞 let"
    text.utf8ByteSize < columnLimit
      ∧ (⟨⟨1, 1⟩, ⟨1, 3⟩⟩ : Span).slice text = .ok (some "𝄞 ")
      ∧ (⟨⟨1, 1⟩, ⟨1, 18446744073709551615⟩⟩ : Span).slice text = .ok none
      ∧ (⟨⟨1, 6⟩, ⟨2, 0⟩⟩ : Span).slice text = .ok (some "") := by
  have hsize : "é𝄞 let".utf8ByteSize < columnLimit := by decide
  exact ⟨hsize, slice_covers _ hsize, slice_covers _ hsize, slice_covers _ hsize⟩

end Span

end ContractLex
