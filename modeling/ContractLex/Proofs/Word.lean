import ContractLex.Spelling

/-!
# Words

What a stretch of text must look like to be a token of a given kind, or to be a comment. Nothing
here mentions the scanner: these are the classes that its tokens are held against.

`Kind.Reads k w text` says that the characters `w` are a word of the class of `k` and that a token
for them carries `text`. Only character and string literals carry something else than their own
characters; for those `ContentUnit` and `Content` pair what is written with what it stands for.
-/

namespace ContractLex

open Spelling

/-! ## Stretches of a text -/

/-- The characters of a text from offset `i` (included) to offset `j` (excluded). -/
def stretch (text : List Char) (i j : Nat) : List Char := (text.drop i).take (j - i)

section Stretch

variable {text : List Char} {i j k : Nat} {c : Char}

@[simp] theorem stretch_self (text : List Char) (i : Nat) : stretch text i i = [] := by
  simp [stretch]

theorem length_stretch (hj : j ≤ text.length) : (stretch text i j).length = j - i := by
  simp only [stretch, List.length_take, List.length_drop]
  omega

theorem stretch_append (hij : i ≤ j) (hjk : j ≤ k) :
    stretch text i j ++ stretch text j k = stretch text i k := by
  have hsplit : k - i = (j - i) + (k - j) := by omega
  have hdrop : (text.drop i).drop (j - i) = text.drop j := by
    rw [List.drop_drop]
    congr 1
    omega
  rw [stretch, stretch, stretch, hsplit, List.take_add, hdrop]

theorem stretch_one (h : text[i]? = some c) : stretch text i (i + 1) = [c] := by
  obtain ⟨hi, rfl⟩ := List.getElem?_eq_some_iff.mp h
  rw [stretch, List.drop_eq_getElem_cons hi, Nat.add_sub_cancel_left, List.take_succ_cons,
    List.take_zero]

theorem stretch_concat (hij : i ≤ j) (h : text[j]? = some c) :
    stretch text i (j + 1) = stretch text i j ++ [c] := by
  rw [← stretch_append hij (Nat.le_succ j), stretch_one h]

theorem stretch_append_drop (hij : i ≤ j) :
    stretch text i j ++ text.drop j = text.drop i := by
  have hdrop : text.drop j = (text.drop i).drop (j - i) := by
    rw [List.drop_drop]
    congr 1
    omega
  rw [stretch, hdrop, List.take_append_drop]

theorem stretch_length (text : List Char) (i : Nat) : stretch text i text.length = text.drop i := by
  rw [stretch, List.take_of_length_le (by simp)]

/-- A word between two cuts of a stretch. -/
theorem stretch_middle {a b c : List Char} (hj : j ≤ text.length)
    (h : stretch text i j = a ++ b ++ c) :
    stretch text (i + a.length) (i + a.length + b.length) = b := by
  have hdrop : stretch text (i + a.length) (i + a.length + b.length) =
      ((stretch text i j).drop a.length).take b.length := by
    have hlen : a.length + b.length ≤ j - i := by
      rw [← length_stretch (i := i) hj, h]
      simp
    simp only [stretch, List.drop_take, List.take_take, List.drop_drop]
    congr 1
    omega
  rw [hdrop, h, List.append_assoc, List.drop_left, List.take_left]

@[simp] theorem toList_extract_toArray (text : List Char) (i j : Nat) :
    (text.toArray.extract i j).toList = stretch text i j := by
  simp [stretch]

end Stretch

/-! ## Words, numbers and literals -/

/-- A letter or underscore, then letters, digits and underscores. -/
def IsWord (w : List Char) : Prop :=
  ∃ c v, w = c :: v ∧ isWordStart c = true ∧ ∀ d ∈ v, isWordChar d = true

/-- Words that are a keyword or a boolean literal, so no name. -/
def IsReserved (word : String) : Prop :=
  (keyword? word).isSome ∨ isBoolean word = true

def AllDigits (w : List Char) : Prop := ∀ c ∈ w, c.isDigit = true

/-- At least one digit. -/
def IsNumeral (w : List Char) : Prop := w ≠ [] ∧ AllDigits w

/-- A numeral and a period, with or without digits after it. -/
def IsDecimal (w : List Char) : Prop :=
  ∃ a b, IsNumeral a ∧ AllDigits b ∧ w = a ++ '.' :: b

/-- One unit of the content of a literal that `quote` closes: what is written, and the character it
stands for. -/
inductive ContentUnit (quote : Char) : List Char → Char → Prop
  | raw {c} : c ≠ quote → c ≠ '\\' → ContentUnit quote [c] c
  | escaped {c d} : escape? c = some d → ContentUnit quote ['\\', c] d

/-- Content of a literal, unit by unit: what is written, and what it stands for. -/
inductive Content (quote : Char) : List Char → List Char → Prop
  | nil : Content quote [] []
  | concat {w text u d} :
      Content quote w text → ContentUnit quote u d → Content quote (w ++ u) (text ++ [d])

theorem ContentUnit.length_pos {quote d : Char} {u : List Char} (h : ContentUnit quote u d) :
    0 < u.length := by
  cases h <;> simp

theorem Content.length_le {quote : Char} {w text : List Char} (h : Content quote w text) :
    text.length ≤ w.length := by
  induction h with
  | nil => simp
  | concat _ hu ih =>
      have := hu.length_pos
      simp only [List.length_append, List.length_singleton]
      omega

theorem IsWord.concat {w : List Char} {c : Char} (h : IsWord w) (hc : isWordChar c = true) :
    IsWord (w ++ [c]) := by
  obtain ⟨d, v, rfl, hd, hv⟩ := h
  refine ⟨d, v ++ [c], rfl, hd, fun e he => ?_⟩
  rcases List.mem_append.mp he with hm | hm
  · exact hv e hm
  · exact List.mem_singleton.mp hm ▸ hc

theorem isWord_singleton {c : Char} (hc : isWordStart c = true) : IsWord [c] :=
  ⟨c, [], rfl, hc, fun _ h => absurd h List.not_mem_nil⟩

theorem IsWord.ne_nil {w : List Char} (h : IsWord w) : w ≠ [] := by
  obtain ⟨c, v, rfl, -⟩ := h
  exact List.cons_ne_nil c v

theorem IsWord.forall_isWordChar {w : List Char} (h : IsWord w) :
    ∀ c ∈ w, isWordChar c = true := by
  obtain ⟨c, v, rfl, hc, hv⟩ := h
  intro d hd
  rcases List.mem_cons.mp hd with rfl | hmem
  · exact isWordChar_of_isWordStart hc
  · exact hv d hmem

theorem IsWord.head?_append {w : List Char} (h : IsWord w) (rest : List Char) :
    ∃ c, (w ++ rest).head? = some c ∧ isWordStart c = true := by
  obtain ⟨c, v, rfl, hc, -⟩ := h
  exact ⟨c, rfl, hc⟩

theorem dash_not_mem {w : List Char} (hw : ∀ c ∈ w, isWordChar c = true) : '-' ∉ w := by
  intro hmem
  exact absurd (hw '-' hmem) (by decide)

/-- A word has no dash. -/
theorem IsWord.dash_not_mem {w : List Char} (h : IsWord w) : '-' ∉ w :=
  ContractLex.dash_not_mem h.forall_isWordChar

/-- No character of a word is a delimiter. -/
theorem isDelimiter_of_isWordChar {c : Char} (hc : isWordChar c = true) :
    isDelimiter c = false := by
  unfold isDelimiter delimiter?
  split <;> first | rfl | exact absurd hc (by decide)

theorem AllDigits.concat {w : List Char} {c : Char} (h : AllDigits w) (hc : c.isDigit = true) :
    AllDigits (w ++ [c]) := by
  intro d hd
  rcases List.mem_append.mp hd with hm | hm
  · exact h d hm
  · exact List.mem_singleton.mp hm ▸ hc

theorem IsNumeral.concat {w : List Char} {c : Char} (h : AllDigits w) (hc : c.isDigit = true) :
    IsNumeral (w ++ [c]) :=
  ⟨by simp, h.concat hc⟩

theorem IsNumeral.head?_append {w : List Char} (h : IsNumeral w) (rest : List Char) :
    ∃ c, (w ++ rest).head? = some c ∧ c.isDigit = true := by
  obtain ⟨c, v, rfl⟩ := List.exists_cons_of_ne_nil h.1
  exact ⟨c, rfl, h.2 c List.mem_cons_self⟩

theorem IsDecimal.concat {w : List Char} {c : Char} (h : IsDecimal w) (hc : c.isDigit = true) :
    IsDecimal (w ++ [c]) := by
  obtain ⟨a, b, ha, hb, rfl⟩ := h
  exact ⟨a, b ++ [c], ha, hb.concat hc, by simp⟩

/-- Decimals that do not end with their period have digits after it. -/
theorem IsDecimal.fraction {w : List Char} (h : IsDecimal w) (hlast : w.getLast? ≠ some '.') :
    ∃ a b, IsNumeral a ∧ IsNumeral b ∧ w = a ++ '.' :: b := by
  obtain ⟨a, b, ha, hb, rfl⟩ := h
  refine ⟨a, b, ha, ⟨fun hnil => hlast ?_, hb⟩, rfl⟩
  simp [hnil]

/-! ## Words of the tables -/

theorem mem_keywords {w : String} {k : Keyword} (h : keyword? w = some k) : (w, k) ∈ keywords := by
  obtain ⟨front, back, heq, -⟩ := List.lookup_eq_some_iff.mp h
  simp [heq]

theorem mem_operators {w : String} {o : Operator} (h : operator? w = some o) :
    (w, o) ∈ operators := by
  obtain ⟨front, back, heq, -⟩ := List.lookup_eq_some_iff.mp h
  simp [heq]

/-! ## Comments -/

/-- The inside of a block comment that is still open: no `*/` yet. -/
def IsOpen (body : List Char) : Prop := ¬ ['*', '/'] <:+: body

/-- A complete comment: from `/*` to the first `*/` after it, or from `//` to the next line feed. -/
inductive IsComment : List Char → Prop
  | block {body} : IsOpen (body ++ ['*']) → IsComment ('/' :: '*' :: body ++ ['*', '/'])
  | line {body} : '\n' ∉ body → IsComment ('/' :: '/' :: body ++ ['\n'])

theorem isOpen_concat {body : List Char} {c : Char} (h : IsOpen body)
    (hc : c = '/' → body.getLast? ≠ some '*') : IsOpen (body ++ [c]) := by
  intro hin
  rcases List.infix_concat_iff.mp hin with hsuf | hin
  · obtain ⟨front, hfront⟩ := hsuf
    have hpair : front ++ ['*'] ++ ['/'] = body ++ [c] := by simpa using hfront
    obtain ⟨hbody, hlast⟩ := List.append_inj' hpair rfl
    refine hc (by simpa using hlast.symm) ?_
    simp [← hbody]
  · exact h hin

/-! ## The class of a kind -/

/-- The characters `w` are a word of the class of a kind, and a token for them carries `text`. -/
def Kind.Reads : Kind → (w text : List Char) → Prop
  | .identifier, w, text => IsWord w ∧ text = w
  | .keyword k, w, text => keyword? (String.ofList w) = some k ∧ text = w
  | .literal .bool, w, text => isBoolean (String.ofList w) = true ∧ text = w
  | .literal .int, w, text => IsNumeral w ∧ text = w
  | .literal .double, w, text =>
      (∃ a b, IsNumeral a ∧ IsNumeral b ∧ w = a ++ '.' :: b) ∧ text = w
  | .literal .float, w, text => (∃ v, IsDecimal v ∧ w = v ++ ['f']) ∧ text = w
  | .literal .char, w, text =>
      ∃ u d, ContentUnit '\'' u d ∧ w = '\'' :: u ++ ['\''] ∧ text = [d]
  | .literal .string, w, text => ∃ body, Content '"' body text ∧ w = '"' :: body ++ ['"']
  | .operator o, w, text => operator? (String.ofList w) = some o ∧ text = w
  | .delimiter d, w, text => ∃ c, delimiter? c = some (.delimiter d) ∧ w = [c] ∧ text = w
  | .unknown, w, text => w ≠ [] ∧ text = w
  | .blank _, _, _ => False

/-- No kind has the empty word. -/
theorem Kind.Reads.ne_nil {k : Kind} {w text : List Char} (h : k.Reads w text) : w ≠ [] := by
  rintro rfl
  cases k with
  | literal l =>
      cases l with
      | int => exact h.1.1 rfl
      | float => obtain ⟨⟨v, -, hv⟩, -⟩ := h; simp at hv
      | double => obtain ⟨⟨a, b, -, -, hw⟩, -⟩ := h; simp at hw
      | char => obtain ⟨u, d, -, hw, -⟩ := h; simp at hw
      | string => obtain ⟨body, -, hw⟩ := h; simp at hw
      | bool => exact absurd h.1 (by decide)
  | keyword k => exact absurd h.1 (by simp [keyword?, keywords, List.lookup_cons])
  | operator o => exact absurd h.1 (by simp [operator?, operators, List.lookup_cons])
  | delimiter d => obtain ⟨c, -, hw, -⟩ := h; simp at hw
  | identifier => exact h.1.ne_nil rfl
  | unknown => exact h.1 rfl
  | blank b => exact h

/-- No word is of the class of a blank. -/
theorem Kind.Reads.isEmitted {k : Kind} {w text : List Char} (h : k.Reads w text) :
    k.isEmitted = true := by
  cases k with
  | blank b => exact h.elim
  | literal | keyword | operator | delimiter | identifier | unknown => rfl

/-! ## The longest operator -/

/-- No spelling of an operator that begins at `i` reaches beyond `j`. -/
def Longest (text : List Char) (i j : Nat) : Prop :=
  ∀ x ∈ operators, j - i < x.1.toList.length → ¬ x.1.toList <+: text.drop i

instance (text : List Char) (i j : Nat) : Decidable (Longest text i j) :=
  inferInstanceAs (Decidable (∀ x ∈ operators, _ → ¬ _))

/-- The characters with which the spelling of an operator goes on after `w`. -/
def extensions (w : List Char) : List Char :=
  operators.filterMap fun x =>
    if w <+: x.1.toList then (x.1.toList.drop w.length).head? else none

/-- One character after a stretch decides whether a longer operator begins with it. -/
theorem longest_of_next {text : List Char} {i j : Nat} (hij : i ≤ j) (hj : j ≤ text.length)
    (h : ∀ c, text[j]? = some c → c ∉ extensions (stretch text i j)) : Longest text i j := by
  intro x hx hlen hpre
  rw [← stretch_append_drop hij] at hpre
  have hshort : (stretch text i j).length ≤ x.1.toList.length := by
    rw [length_stretch hj]
    exact Nat.le_of_lt hlen
  obtain ⟨v, hv⟩ := List.prefix_of_prefix_length_le (List.prefix_append _ _) hpre hshort
  cases v with
  | nil =>
      rw [← hv, List.append_nil, length_stretch hj] at hlen
      exact Nat.lt_irrefl _ hlen
  | cons c v =>
      have hnext : text[j]? = some c := by
        rw [← hv, List.prefix_append_right_inj] at hpre
        obtain ⟨rest, hrest⟩ := hpre
        rw [← List.head?_drop, ← hrest]
        rfl
      refine h c hnext (List.mem_filterMap.mpr ⟨x, hx, ?_⟩)
      rw [if_pos ⟨c :: v, hv⟩, ← hv, List.drop_left]
      rfl

theorem longest_length (text : List Char) {i : Nat} (hi : i ≤ text.length) :
    Longest text i text.length :=
  longest_of_next hi (Nat.le_refl _) fun c hc => by simp at hc

end ContractLex
