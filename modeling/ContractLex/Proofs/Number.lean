import ContractLex.Proofs.ReadOn

/-!
# A text that begins with a number

`numberFront` is the grammar of numbers: digits, then perhaps a period and more digits, then perhaps
an `f`. An integer or a double ends before a delimiter, an operator character or the end of the
text, and a float before a delimiter or the end of the text; whatever else follows is a fault, and
skipping begins (`rejected`). A period with no digit after it is a fault as well, unless an `f`
follows.

Three states read a number: `number` the first digits (`readOn_digits`), `decimal` the period and
what follows it (`readOn_period`), and `float` the `f` (`readOn_suffix`).
-/

namespace ContractLex

open Spelling

/-! ## The grammar -/

/-- A fault at column `i`, and what is skipped from `start` on. -/
def rejected (text : List Char) (line start i : Nat) (f : Fault) : Front where
  tokens := [⟨.unknown, String.ofList (stretch text start (skipEnd text i)), line, start,
    skipEnd text i⟩]
  diagnostics := [f.diagnostic ⟨line, i⟩]
  stop := skipEnd text i

/-- A number that is a token. -/
def numeric (line : Nat) (k : Literal) (w : List Char) : Front where
  tokens := [⟨.literal k, String.ofList w, line, 0, w.length⟩]
  stop := w.length

/-- What is read of `w`, which ends with a period and the digits `f`. -/
def doubleFront (text : List Char) (line : Nat) (w f : List Char) : Front :=
  if f = [] then rejected text line 0 w.length .openDouble else numeric line .double w

/-- What is read of `w`, which ends with the suffix of a float, if `rest` follows. -/
def floatFront (text : List Char) (line : Nat) (w rest : List Char) : Front :=
  if rest.head?.all isDelimiter then numeric line .float w
  else (rejected text line w.length w.length .floatSuffix).after (numeric line .float w).tokens

/-- What is read of `w`, which ends with a period and the digits `f`, if `rest` follows. -/
def decimalFront (text : List Char) (line : Nat) (w f rest : List Char) : Front :=
  match rest with
  | [] => doubleFront text line w f
  | c :: rest =>
      if c = 'f' then floatFront text line (w ++ ['f']) rest
      else if endsNumber c then doubleFront text line w f
      else rejected text line 0 w.length (.badDecimal c)

/-- What is read at the beginning of a text that begins with a digit. -/
def numberFront (text : List Char) (line : Nat) : Front :=
  let d := text.takeWhile Char.isDigit
  match text.dropWhile Char.isDigit with
  | [] => numeric line .int d
  | c :: rest =>
      if c = '.' then
        let f := rest.takeWhile Char.isDigit
        decimalFront text line (d ++ '.' :: f) f (rest.dropWhile Char.isDigit)
      else if endsNumber c then numeric line .int d
      else rejected text line 0 d.length (.badInteger c)

/-- The digits, the period, the digits and the `f` at the beginning of a text. -/
def numericPart (text : List Char) : List Char :=
  let d := text.takeWhile Char.isDigit
  match text.dropWhile Char.isDigit with
  | '.' :: rest =>
      d ++ '.' :: rest.takeWhile Char.isDigit
        ++ ((rest.dropWhile Char.isDigit).take 1).filter (· == 'f')
  | _ => d

/-! ## Fronts of numbers -/

section Fronts

variable {text rest w : List Char} {line i start : Nat} {carry : Bool} {c : Char} {p : Pending}

/-- A number that ends before what follows it, or with the text. -/
theorem readsFront_numeric {st : State} {k : Literal} (hsize : w.length < maxLexeme)
    (hnext : ∀ c, rest.head? = some c → ∀ s, dispatch (.under st w.toArray line 0) s c =
      (Pending.under st w.toArray line 0).closeBefore s (.literal k))
    (hend : ∀ s, (Pending.under st w.toArray line 0).finish s carry =
      ⟨{}, [(Pending.under st w.toArray line 0).token s (.literal k) s.column], .ok ()⟩) :
    ReadsFront (w ++ rest) line carry w.length (.under st w.toArray line 0) (numeric line k w) := by
  have hle : w.length ≤ (w ++ rest).length := by simp
  refine ⟨hle, _, rfl, rfl, readOn_closeBefore hle ?_ ?_ (hend _)⟩
  · exact fun _ => isFull_eq_false (by simpa using hsize)
  · intro c hc
    rw [getElem?_append_length] at hc
    exact hnext c hc _

/-- A number that is given up before the next character. -/
theorem readsFront_rejected {f : Fault} (hc : text[i]? = some c) (hp : p.isFull = false)
    (hlength : p.length = p.lexeme.size)
    (hopened : (p.opened <|> some ⟨line, i⟩) = some ⟨line, start⟩) (hstart : start ≤ i)
    (h : dispatch p ⟨text.toArray, line, i⟩ c = p.reject ⟨text.toArray, line, i⟩ f) :
    ReadsFront text line carry i p (rejected text line start i f) := by
  have hi := Nat.le_of_lt (List.getElem?_eq_some_iff.mp hc).1
  have hreject : dispatch p ⟨text.toArray, line, i⟩ c =
      .handOn (.under .invalid p.lexeme line start) [p.fault ⟨text.toArray, line, i⟩ f] := by
    rw [h, Pending.reject, Site.position, hopened, hlength]
  exact ⟨skipEnd_le hi, _, rfl, rfl, readOn_reject hc hp hstart hreject⟩

/-- A number that is given up at the end of the text. -/
theorem readsFront_rejected_end {f : Fault} (hi : text.length = i)
    (hopened : p.opened = some ⟨line, start⟩) (hstart : start ≤ i)
    (h : p.finish ⟨text.toArray, line, i⟩ carry =
      ⟨{}, [p.fault ⟨text.toArray, line, i⟩ f, p.skipped ⟨text.toArray, line, i⟩ i], .ok ()⟩) :
    ReadsFront text line carry i p (rejected text line start i f) := by
  have hskip : skipEnd text i = i := by simp [skipEnd, ← hi]
  have hskipped : p.skipped ⟨text.toArray, line, i⟩ i = _ :=
    skipped_eq hopened hstart (Nat.le_of_eq hi.symm)
  rw [hskipped] at h
  rw [rejected, hskip]
  have hread : readOn text line carry i p =
      (readOn text line carry i {}).after [p.fault ⟨text.toArray, line, i⟩ f, .token
        ⟨.unknown, String.ofList (stretch text start i), line, start, i⟩] := by
    rw [readOn_length hi, readOn_length_start hi, h]
    rfl
  exact ⟨Nat.le_of_eq hi.symm, _, rfl, rfl, hread⟩

end Fronts

/-! ## The states of a number -/

section Number

variable {text rest d f w : List Char} {line i : Nat} {carry : Bool} {c : Char} {s : Site}

theorem isWordStart_of_isDigit (hc : c.isDigit = true) : isWordStart c = false := by
  have hne : c ≠ '_' := by
    rintro rfl
    exact absurd hc (by decide)
  have hdigit : '0'.val ≤ c.val ∧ c.val ≤ '9'.val := by
    simpa only [Char.isDigit, Bool.and_eq_true, decide_eq_true_eq] using hc
  delta isWordStart Char.isAlpha Char.isUpper Char.isLower
  grind

theorem dispatch_start_digit (hc : c.isDigit = true) :
    dispatch {} s c = .handOn (.under .number #[] s.line s.column) := by
  have hdelimiter : isDelimiter c = false :=
    isDelimiter_of_isWordChar (by simp [isWordChar, Char.isAlphanum, hc])
  simp only [dispatch, onStart, hdelimiter, isWordStart_of_isDigit hc, hc, if_true,
    Bool.false_eq_true, if_false]
  rfl

/-- A text that begins with digits, up to their end. -/
theorem readOn_digits (hhead : ∃ c, text.head? = some c ∧ c.isDigit = true)
    (hd : AllDigits d) (hpre : d <+: text) (hsize : d.length ≤ maxLexeme) :
    readOn text line carry 0 {} =
      readOn text line carry d.length (.under .number d.toArray line 0) := by
  obtain ⟨c, hc, hdigit⟩ := hhead
  refine readOn_begin hc (fun _ => dispatch_start_digit hdigit) hpre hsize ?_
  intro u c v hsplit s
  have hc : c.isDigit = true := hd c (by simp [hsplit])
  simp [dispatch, onNumber, hc, under_push]

/-- Digits that the end of the text or a character that ends a number follows. -/
theorem readsFront_int (hsize : d.length < maxLexeme)
    (hrest : ∀ c, rest.head? = some c → c.isDigit = false ∧ c ≠ '.' ∧ endsNumber c = true) :
    ReadsFront (d ++ rest) line carry d.length (.under .number d.toArray line 0)
      (numeric line .int d) := by
  refine readsFront_numeric hsize ?_ fun _ => rfl
  intro c hc s
  obtain ⟨hdigit, hperiod, hends⟩ := hrest c hc
  simp only [dispatch, onNumber, hdigit, hperiod, hends, Bool.false_eq_true, if_false, if_true]

theorem readsFront_badInteger (hsize : d.length < maxLexeme) (hdigit : c.isDigit = false)
    (hperiod : c ≠ '.') (hends : endsNumber c = false) :
    ReadsFront (d ++ c :: rest) line carry d.length (.under .number d.toArray line 0)
      (rejected (d ++ c :: rest) line 0 d.length (.badInteger c)) := by
  refine readsFront_rejected (getElem?_append_length d (c :: rest))
    (isFull_eq_false (by simpa using hsize)) rfl rfl (Nat.zero_le _) ?_
  simp only [dispatch, onNumber, hdigit, hperiod, hends, Bool.false_eq_true, if_false]

/-- Digits that a period follows, up to the end of the digits after it. -/
theorem readOn_period (hf : AllDigits f) (hsize : (d ++ '.' :: f).length ≤ maxLexeme) :
    readOn (d ++ '.' :: f ++ rest) line carry d.length (.under .number d.toArray line 0) =
      readOn (d ++ '.' :: f ++ rest) line carry (d ++ '.' :: f).length
        (.under .decimal (d ++ '.' :: f).toArray line 0) := by
  have hlength : (d ++ '.' :: f).length = d.length + 1 + f.length := by
    simp only [List.length_append, List.length_cons]
    omega
  have hc : (d ++ '.' :: f ++ rest)[d.length]? = some '.' := by simp
  have hperiod : dispatch (.under .number d.toArray line 0)
      ⟨(d ++ '.' :: f ++ rest).toArray, line, d.length⟩ '.' =
      .use (.under .decimal (d ++ ['.']).toArray line 0) := by
    rw [← List.push_toArray, ← under_push]
    rfl
  have hpre : f <+: (d ++ '.' :: f ++ rest).drop (d.length + 1) := ⟨rest, by simp⟩
  rw [readOn_use hc (isFull_eq_false (by simp only [List.size_toArray]; omega)) hperiod,
    Ending.after_nil,
    readOn_push hpre (by simp only [List.length_append, List.length_singleton]; omega)]
  · rw [hlength, List.append_assoc d ['.'] f]
    rfl
  · intro u c v hsplit s
    have hdigit : c.isDigit = true := hf c (by simp [hsplit])
    simp [dispatch, onDecimal, hdigit, under_push]

/-- A period and its digits that the end of the text or a character that ends a number follows. -/
theorem readsFront_double (hf : AllDigits f) (hsize : (d ++ '.' :: f).length < maxLexeme)
    (hrest : ∀ c, rest.head? = some c → c.isDigit = false ∧ c ≠ 'f' ∧ endsNumber c = true) :
    ReadsFront (d ++ '.' :: f ++ rest) line carry (d ++ '.' :: f).length
      (.under .decimal (d ++ '.' :: f).toArray line 0)
      (doubleFront (d ++ '.' :: f ++ rest) line (d ++ '.' :: f) f) := by
  have hperiod : '.' ∉ f := by
    intro hmem
    exact absurd (hf '.' hmem) (by decide)
  have hback := back?_append_cons d hperiod
  by_cases hnil : f = []
  · have hfront : doubleFront (d ++ '.' :: f ++ rest) line (d ++ '.' :: f) f =
        rejected (d ++ '.' :: f ++ rest) line 0 (d ++ '.' :: f).length .openDouble := if_pos hnil
    rw [hfront]
    cases rest with
    | nil =>
        refine readsFront_rejected_end (by simp) rfl (Nat.zero_le _) ?_
        simp only [Pending.finish, hback.mpr hnil, if_true]
    | cons c rest =>
        obtain ⟨hdigit, hsuffix, hends⟩ := hrest c rfl
        refine readsFront_rejected (getElem?_append_length _ (c :: rest))
          (isFull_eq_false hsize) rfl rfl (Nat.zero_le _) ?_
        simp only [dispatch, onDecimal, hdigit, hsuffix, hends, hback.mpr hnil, Bool.false_eq_true,
          if_false, if_true]
  · have hback : (d ++ '.' :: f).toArray.back? ≠ some '.' := hback.not.mpr hnil
    rw [doubleFront, if_neg hnil]
    refine readsFront_numeric hsize ?_ ?_
    · intro c hc s
      obtain ⟨hdigit, hsuffix, hends⟩ := hrest c hc
      simp only [dispatch, onDecimal, hdigit, hsuffix, hends, Bool.false_eq_true, if_false, if_true,
        hback]
    · intro s
      simp only [Pending.finish, hback, if_false]

theorem readsFront_badDecimal (hsize : w.length < maxLexeme) (hdigit : c.isDigit = false)
    (hsuffix : c ≠ 'f') (hends : endsNumber c = false) :
    ReadsFront (w ++ c :: rest) line carry w.length (.under .decimal w.toArray line 0)
      (rejected (w ++ c :: rest) line 0 w.length (.badDecimal c)) := by
  refine readsFront_rejected (getElem?_append_length w (c :: rest))
    (isFull_eq_false (by simpa using hsize)) rfl rfl (Nat.zero_le _) ?_
  simp only [dispatch, onDecimal, hdigit, hsuffix, hends, Bool.false_eq_true, if_false]

/-- The suffix of a float is used, and then a delimiter must follow. -/
theorem readOn_suffix (hsize : w.length < maxLexeme) (rest : List Char) (line : Nat)
    (carry : Bool) :
    readOn (w ++ 'f' :: rest) line carry w.length (.under .decimal w.toArray line 0) =
      (readOn (w ++ 'f' :: rest) line carry (w ++ ['f']).length
        { state := .expectDelimiter }).after
        [.token ⟨.literal .float, String.ofList (w ++ ['f']), line, 0, (w ++ ['f']).length⟩] := by
  have hc : (w ++ 'f' :: rest)[w.length]? = some 'f' := getElem?_append_length w ('f' :: rest)
  have hdecimal : dispatch (.under .decimal w.toArray line 0)
      ⟨(w ++ 'f' :: rest).toArray, line, w.length⟩ 'f' =
      .handOn (.under .float w.toArray line 0) := by
    simp only [dispatch, onDecimal]
    rfl
  have hfloat : dispatch (.under .float w.toArray line 0)
      ⟨(w ++ 'f' :: rest).toArray, line, w.length⟩ 'f' = .use { state := .expectDelimiter }
        [.token ⟨.literal .float, String.ofList (w ++ ['f']), line, 0, (w ++ ['f']).length⟩] := by
    have hpush : (Pending.under .float w.toArray line 0).push 'f' =
        .under .float (w ++ ['f']).toArray line 0 := by simp [under_push]
    simp only [dispatch, onFloat, hpush]
    rw [token_eq rfl, List.length_append]
    rfl
  have hfull : ∀ st, (Pending.under st w.toArray line 0).isFull = false :=
    fun _ => isFull_eq_false (by simpa using hsize)
  rw [readOn_handOn hc (hfull _) (hfull _) hdecimal, Ending.after_nil,
    readOn_use hc (hfull _) hfloat, List.length_append]
  rfl

/-- After a float a delimiter is passed over, and everything else is skipped. -/
theorem readsFront_float (hsize : w.length < maxLexeme) :
    ReadsFront (w ++ 'f' :: rest) line carry w.length (.under .decimal w.toArray line 0)
      (floatFront (w ++ 'f' :: rest) line (w ++ ['f']) rest) := by
  have hsplit : w ++ 'f' :: rest = w ++ ['f'] ++ rest := by simp
  have hsuffix := readOn_suffix hsize rest line carry
  rw [hsplit] at hsuffix ⊢
  have hle := (List.prefix_append (w ++ ['f']) rest).length_le
  by_cases hnext : rest.head?.all isDelimiter = true
  · have hread : readOn (w ++ ['f'] ++ rest) line carry (w ++ ['f']).length
        { state := .expectDelimiter } =
        readOn (w ++ ['f'] ++ rest) line carry (w ++ ['f']).length {} := by
      refine (readOn_settle hle ?_ rfl).trans (Ending.after_nil _)
      intro c hc
      have hdelimiter : isDelimiter c = true := by
        rw [getElem?_append_length] at hc
        rwa [hc] at hnext
      have hexpect : dispatch { state := .expectDelimiter }
          ⟨(w ++ ['f'] ++ rest).toArray, line, (w ++ ['f']).length⟩ c =
          .handOn { state := .delimiter } := by
        simp only [dispatch, onExpectDelimiter, hdelimiter, if_true]
        rfl
      rw [readOn_handOn hc rfl rfl hexpect, readOn_delimiter hc hdelimiter]
    rw [hread] at hsuffix
    rw [floatFront, if_pos hnext]
    exact ⟨hle, _, rfl, rfl, hsuffix⟩
  · rw [floatFront, if_neg hnext]
    refine ReadsFront.after ?_ hsuffix
    obtain ⟨c, hc, hdelimiter⟩ : ∃ c, rest.head? = some c ∧ isDelimiter c = false := by
      simpa [Option.all_eq_true] using hnext
    refine readsFront_rejected (getElem?_append_length _ rest ▸ hc) rfl rfl rfl (Nat.le_refl _) ?_
    simp only [dispatch, onExpectDelimiter, hdelimiter, Bool.false_eq_true, if_false]

/-- A period and its digits, whatever follows. -/
theorem readsFront_decimal (hf : AllDigits f)
    (hrest : ∀ c, rest.head? = some c → c.isDigit = false)
    (hsize : (d ++ '.' :: f).length < maxLexeme) :
    ReadsFront (d ++ '.' :: f ++ rest) line carry (d ++ '.' :: f).length
      (.under .decimal (d ++ '.' :: f).toArray line 0)
      (decimalFront (d ++ '.' :: f ++ rest) line (d ++ '.' :: f) f rest) := by
  cases rest with
  | nil => exact readsFront_double hf hsize nofun
  | cons c rest =>
      have hdigit := hrest c rfl
      by_cases hsuffix : c = 'f'
      · subst hsuffix
        exact readsFront_float hsize
      · cases hends : endsNumber c with
        | true =>
            simp only [decimalFront, hsuffix, hends, if_false, if_true]
            refine readsFront_double hf hsize ?_
            rintro c ⟨⟩
            exact ⟨hdigit, hsuffix, hends⟩
        | false =>
            simp only [decimalFront, hsuffix, hends, if_false, Bool.false_eq_true]
            exact readsFront_badDecimal hsize hdigit hsuffix hends

end Number

/-! ## Reading a number -/

section Read

variable {text : List Char}

/-- A text that begins with a digit is read as the grammar of numbers says. -/
theorem readsFront_number (hhead : ∃ c, text.head? = some c ∧ c.isDigit = true)
    (hcap : (numericPart text).length < maxLexeme) (line : Nat) (carry : Bool) :
    ReadsFront text line carry 0 {} (numberFront text line) := by
  obtain ⟨d, rest, htext, htake, hdrop, hd, hrest⟩ := exists_run Char.isDigit text
  have hpart : d.length ≤ (numericPart text).length := by
    unfold numericPart
    rw [htake, hdrop]
    split
    · simp only [List.length_append, List.length_cons]
      omega
    · exact Nat.le_refl _
  have hsize : d.length < maxLexeme := Nat.lt_of_le_of_lt hpart hcap
  refine ReadsFront.of_eq ?_
    (readOn_digits hhead hd ⟨rest, htext.symm⟩ (Nat.le_of_lt hsize))
  cases rest with
  | nil =>
      simp only [numberFront, htake, hdrop]
      rw [htext]
      exact readsFront_int hsize nofun
  | cons c rest =>
      have hdigit := hrest c rfl
      by_cases hperiod : c = '.'
      · subst hperiod
        obtain ⟨f, back, rfl, hftake, hfdrop, hf, hback⟩ := exists_run Char.isDigit rest
        have hcap : (d ++ '.' :: f).length < maxLexeme := by
          simp only [numericPart, htake, hdrop, hftake, List.length_append] at hcap ⊢
          omega
        have hsplit : text = d ++ '.' :: f ++ back := by rw [htext]; simp
        simp only [numberFront, htake, hdrop, if_true, hftake, hfdrop]
        rw [hsplit]
        exact (readsFront_decimal hf hback hcap).of_eq (readOn_period hf (Nat.le_of_lt hcap))
      · cases hends : endsNumber c with
        | true =>
            simp only [numberFront, htake, hdrop, hperiod, hends, if_false, if_true]
            rw [htext]
            refine readsFront_int hsize ?_
            rintro c ⟨⟩
            exact ⟨hdigit, hperiod, hends⟩
        | false =>
            simp only [numberFront, htake, hdrop, hperiod, hends, if_false, Bool.false_eq_true]
            rw [htext]
            exact readsFront_badInteger hsize hdigit hperiod hends

end Read

/-- A text that begins with a digit is fed as the grammar of numbers says, and what follows is fed
afresh. -/
theorem feed_number {lx : Lexer} (h : lx.Reachable) (hstart : lx.state = .start) {text : String}
    {c : Char} (hc : text.toList.head? = some c) (hdigit : c.isDigit = true) (line : Nat)
    (hcap : (numericPart text.toList).length < maxLexeme) :
    lx.FeedsThen text line (numberFront text.toList line) := by
  have hread := readsFront_number ⟨c, hc, hdigit⟩ hcap line lx.settings.carryComments
  exact Lexer.feedsThen_of_readsFront (h.pending_eq hstart) hread

/-- A float that no delimiter follows, and a period that no digit follows. -/
theorem feed_number_faults :
    ({} : Lexer).FeedsThen "1.5f+2 x" 1
        ⟨[⟨.literal .float, "1.5f", 1, 0, 4⟩, ⟨.unknown, "+2", 1, 4, 6⟩],
          [Fault.floatSuffix.diagnostic ⟨1, 4⟩], 6⟩
      ∧ ({} : Lexer).FeedsThen "3.;" 1
        ⟨[⟨.unknown, "3.", 1, 0, 2⟩], [Fault.openDouble.diagnostic ⟨1, 2⟩], 2⟩ := by
  have hreach : ({} : Lexer).Reachable := ⟨{}, [], rfl⟩
  have hfloat : numberFront "1.5f+2 x".toList 1 =
      ⟨[⟨.literal .float, "1.5f", 1, 0, 4⟩, ⟨.unknown, "+2", 1, 4, 6⟩],
        [Fault.floatSuffix.diagnostic ⟨1, 4⟩], 6⟩ := by decide +kernel
  have hdouble : numberFront "3.;".toList 1 =
      ⟨[⟨.unknown, "3.", 1, 0, 2⟩], [Fault.openDouble.diagnostic ⟨1, 2⟩], 2⟩ := by decide +kernel
  have hfirst : "1.5f+2 x".toList.head? = some '1' := by decide +kernel
  have hsecond : "3.;".toList.head? = some '3' := by decide +kernel
  rw [← hfloat, ← hdouble]
  exact ⟨feed_number hreach rfl hfirst rfl 1 (by decide +kernel),
    feed_number hreach rfl hsecond rfl 1 (by decide +kernel)⟩

end ContractLex
