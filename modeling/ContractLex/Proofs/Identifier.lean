import ContractLex.Proofs.ReadOn

/-!
# A text that begins with a word

`wordFront` is the rule for words: a word is as long as it can be, and `init` and `auto` take a dash
with the word after it along. With that word they may be one keyword; if they are not, the word is
cut at its dash (`splitWord`).

The scanner decides this in two states. `identifier` takes in the first word, and `identifierDash`
the dash and the second one; its lexeme is the only thing that tells whether the second word has
begun (`dispatch_dash`). `dashed_eq` says that what the end of the word makes of the lexeme is what
the rule says.

A lexeme that is as long as a lexeme may be is accepted at the end of a text but not before another
character (`not_feedsThen_full`).
-/

namespace ContractLex

open Spelling

/-! ## The rule -/

/-- The kind of a word without a dash. -/
def wordKind (w : List Char) : Kind :=
  match keyword? (String.ofList w) with
  | some k => .keyword k
  | none => if isBoolean (String.ofList w) then .literal .bool else .identifier

/-- The word at the beginning of what follows a dash; nothing if no word begins there. -/
def dashWord (rest : List Char) : List Char :=
  if rest.head?.any isWordStart then rest.takeWhile isWordChar else []

/-- The tokens of `w`, a dash, and `v`. -/
def dashTokens (line : Nat) (w v : List Char) : List Token :=
  match if v = [] then none else keyword? (String.ofList (w ++ '-' :: v)) with
  | some k =>
      [⟨.keyword k, String.ofList (w ++ '-' :: v), line, 0, w.length + 1 + v.length⟩]
  | none => splitWord line 0 w v

/-- What is read at the beginning of a text that begins with a word. -/
def wordFront (text : List Char) (line : Nat) : Front :=
  let w := text.takeWhile isWordChar
  let rest := text.dropWhile isWordChar
  if rest.head? = some '-' ∧ isDashPrefix (String.ofList w) = true then
    let v := dashWord (rest.drop 1)
    { tokens := dashTokens line w v, stop := w.length + 1 + v.length }
  else { tokens := [⟨wordKind w, String.ofList w, line, 0, w.length⟩], stop := w.length }

/-! ## The states of a word -/

section Word

variable {text rest w v u : List Char} {line : Nat} {carry : Bool} {c : Char} {s : Site}

theorem dispatch_start_word (hc : isWordStart c = true) :
    dispatch {} s c = .handOn (.under .identifier #[] s.line s.column) := by
  have hdelimiter := isDelimiter_of_isWordChar (isWordChar_of_isWordStart hc)
  simp only [dispatch, onStart, hdelimiter, hc, if_true, Bool.false_eq_true, if_false]
  rfl

/-- A text that begins with a word, up to the end of the word. -/
theorem readOn_word (hstart : ∃ c, text.head? = some c ∧ isWordStart c = true)
    (hw : ∀ c ∈ w, isWordChar c = true) (hpre : w <+: text) (hsize : w.length ≤ maxLexeme) :
    readOn text line carry 0 {} =
      readOn text line carry w.length (.under .identifier w.toArray line 0) := by
  obtain ⟨c, hc, hword⟩ := hstart
  refine readOn_begin hc (fun _ => dispatch_start_word hword) hpre hsize ?_
  intro u d v hsplit s
  have hd : isWordChar d = true := hw d (by simp [hsplit])
  simp [dispatch, onIdentifier, hd, under_push]

/-- A word that is over ends before the next character. -/
theorem dispatch_word_over (hc : isWordChar c = false)
    (hdash : ¬ (c = '-' ∧ isDashPrefix (String.ofList w) = true)) :
    dispatch (.under .identifier w.toArray line 0) s c =
      (Pending.under .identifier w.toArray line 0).closeBefore s (wordKind w) := by
  have hword : ¬ (c = '-'
      ∧ isDashPrefix (Pending.under .identifier w.toArray line 0).word = true) := hdash
  simp only [dispatch, onIdentifier, hc, hword, Bool.false_eq_true, if_false]
  rfl

theorem dispatch_word_dash (hw : isDashPrefix (String.ofList w) = true) :
    dispatch (.under .identifier w.toArray line 0) s '-' =
      .use (.under .identifierDash (w ++ ['-']).toArray line 0) := by
  have hchar : isWordChar '-' = false := by decide
  have hword : '-' = '-' ∧ isDashPrefix (Pending.under .identifier w.toArray line 0).word = true :=
    ⟨rfl, hw⟩
  simp only [dispatch, onIdentifier, hchar, hword, Bool.false_eq_true, if_false, and_self, if_true]
  rw [under_push, List.push_toArray]
  rfl

/-- After the dash a word begins, or goes on. -/
theorem dispatch_dash (line start : Nat) (hu : '-' ∉ u) :
    dispatch (.under .identifierDash (w ++ '-' :: u).toArray line start) s c =
      if (if u = [] then isWordStart c else isWordChar c) = true then
        .use (.under .identifierDash (w ++ '-' :: u ++ [c]).toArray line start)
      else .handOn {}
        ((Pending.under .identifierDash (w ++ '-' :: u).toArray line start).dashed s s.column) := by
  simp only [dispatch, onIdentifierDash, back?_append_cons w hu, under_push, List.push_toArray]

/-- No keyword ends with its dash. -/
theorem keyword?_dash (hw : isDashPrefix (String.ofList w) = true) :
    keyword? (String.ofList (w ++ ['-'])) = none := by
  rw [String.ofList_append]
  rcases eq_of_isDashPrefix hw with heq | heq <;> rw [heq] <;> decide

/-- What the end of a word with a dash in it makes of the lexeme. -/
theorem dashed_eq {i : Nat} (hw : isDashPrefix (String.ofList w) = true)
    (htext : stretch text 0 i = w ++ '-' :: v) (hi : i = w.length + 1 + v.length) :
    (Pending.under .identifierDash (w ++ '-' :: v).toArray line 0).dashed
      ⟨text.toArray, line, i⟩ i = (dashTokens line w v).map .token := by
  have hlength : 0 + (stretch text 0 i).length = i := by
    rw [htext, hi]
    simp only [List.length_append, List.length_cons]
    omega
  cases hk : keyword? (String.ofList (w ++ '-' :: v)) with
  | some k =>
      have hv : v ≠ [] := by
        rintro rfl
        rw [keyword?_dash hw] at hk
        cases hk
      have hword : keyword? (Pending.under .identifierDash (w ++ '-' :: v).toArray line 0).word =
          some k := hk
      simp only [Pending.dashed, hword, dashTokens, hv, hk, if_false, List.map_cons, List.map_nil,
        ← hi]
      rw [token_eq rfl]
  | none =>
      rcases dashed_cases .identifierDash line htext hlength hw htext.symm with
        ⟨k, ⟨hread, -⟩, -⟩ | hsplit
      · rw [htext, hk] at hread
        cases hread
      · simp only [hsplit, dashTokens, hk, ite_self]

end Word

/-! ## Reading a word -/

section Read

variable {text rest w v : List Char} {line : Nat} {carry : Bool} {c : Char}

/-- A word that takes no dash along. -/
theorem readOn_plain (hstart : ∃ c, (w ++ rest).head? = some c ∧ isWordStart c = true)
    (hw : ∀ c ∈ w, isWordChar c = true) (hrest : ∀ c, rest.head? = some c → isWordChar c = false)
    (hdash : ¬ (rest.head? = some '-' ∧ isDashPrefix (String.ofList w) = true))
    (hcap : w.length < maxLexeme ∨ (w ++ rest).length ≤ maxLexeme) :
    readOn (w ++ rest) line carry 0 {} = (readOn (w ++ rest) line carry w.length {}).after
      [.token ⟨wordKind w, String.ofList w, line, 0, w.length⟩] := by
  have hle : w.length ≤ (w ++ rest).length := by simp
  rw [readOn_word hstart hw (List.prefix_append w rest) (by omega)]
  refine readOn_closeBefore hle ?_ ?_ rfl
  · intro hlt
    refine isFull_eq_false ?_
    simp only [List.size_toArray]
    omega
  · intro c hc
    rw [getElem?_append_length] at hc
    exact dispatch_word_over (hrest c hc) fun ⟨heq, hpre⟩ => hdash ⟨heq ▸ hc, hpre⟩

theorem length_dashed : (w ++ '-' :: v).length = w.length + 1 + v.length := by
  simp only [List.length_append, List.length_cons]
  omega

/-- A word that takes a dash along, up to the end of the word after it. -/
theorem readOn_dashed (hw : isDashPrefix (String.ofList w) = true)
    (hv : ∀ c ∈ v, isWordChar c = true) (hstart : ∀ c, v.head? = some c → isWordStart c = true)
    (hsize : w.length + 1 + v.length ≤ maxLexeme) :
    readOn (w ++ '-' :: v ++ rest) line carry 0 {} =
      readOn (w ++ '-' :: v ++ rest) line carry (w.length + 1 + v.length)
        (.under .identifierDash (w ++ '-' :: v).toArray line 0) := by
  have hword : readOn (w ++ '-' :: v ++ rest) line carry 0 {} =
      readOn (w ++ '-' :: v ++ rest) line carry w.length (.under .identifier w.toArray line 0) := by
    have hfirst := isWord_of_isDashPrefix hw
    have hstart := hfirst.head?_append ('-' :: v ++ rest)
    rw [← List.append_assoc] at hstart
    exact readOn_word hstart hfirst.forall_isWordChar ⟨'-' :: v ++ rest, by simp⟩ (by omega)
  have hdash : readOn (w ++ '-' :: v ++ rest) line carry w.length
      (.under .identifier w.toArray line 0) =
      readOn (w ++ '-' :: v ++ rest) line carry (w.length + 1)
        (.under .identifierDash (w ++ ['-']).toArray line 0) := by
    have hc : (w ++ '-' :: v ++ rest)[w.length]? = some '-' := by simp
    rw [readOn_use hc (isFull_eq_false (by simp only [List.size_toArray]; omega))
      (dispatch_word_dash hw), Ending.after_nil]
  have hpre : v <+: (w ++ '-' :: v ++ rest).drop (w.length + 1) := ⟨rest, by simp⟩
  rw [hword, hdash,
    readOn_push hpre (by simp only [List.length_append, List.length_singleton]; omega)]
  · simp
  · intro u c back hsplit s
    have hu : '-' ∉ u := dash_not_mem fun d hd => hv d (by simp [hsplit, hd])
    have hgoes : (if u = [] then isWordStart c else isWordChar c) = true := by
      split
      · next hnil => exact hstart c (by simp [hsplit, hnil])
      · exact hv c (by simp [hsplit])
    have hstep := dispatch_dash (w := w) (s := s) (c := c) line 0 hu
    rw [if_pos hgoes] at hstep
    simpa using hstep

/-- A word that takes a dash along, and the word after it. -/
theorem readOn_dash (hw : isDashPrefix (String.ofList w) = true)
    (hv : ∀ c ∈ v, isWordChar c = true) (hstart : ∀ c, v.head? = some c → isWordStart c = true)
    (hrest : ∀ c, rest.head? = some c →
      (if v = [] then isWordStart c else isWordChar c) = false) (line : Nat) (carry : Bool)
    (hcap : w.length + 1 + v.length < maxLexeme
      ∨ (w ++ '-' :: v ++ rest).length ≤ maxLexeme) :
    readOn (w ++ '-' :: v ++ rest) line carry 0 {} =
      (readOn (w ++ '-' :: v ++ rest) line carry (w.length + 1 + v.length) {}).after
        ((dashTokens line w v).map .token) := by
  have hlength : (w ++ '-' :: v ++ rest).length = w.length + 1 + v.length + rest.length := by
    rw [List.length_append, length_dashed]
  have hstretch : stretch (w ++ '-' :: v ++ rest) 0 (w.length + 1 + v.length) = w ++ '-' :: v := by
    rw [← length_dashed, stretch_append_left]
  rw [readOn_dashed hw hv hstart (by omega), ← dashed_eq hw hstretch rfl]
  refine readOn_settle (by omega) ?_ rfl
  intro c hc
  have hlt := (List.getElem?_eq_some_iff.mp hc).1
  have hhead : rest.head? = some c := by
    rwa [← length_dashed, getElem?_append_length] at hc
  have hdash := dash_not_mem hv
  have hstep := dispatch_dash (w := w) (c := c)
    (s := ⟨(w ++ '-' :: v ++ rest).toArray, line, w.length + 1 + v.length⟩) line 0 hdash
  rw [hrest c hhead, if_neg Bool.false_ne_true] at hstep
  refine readOn_handOn hc (isFull_eq_false ?_) rfl hstep
  simp only [List.size_toArray, length_dashed]
  omega

/-- What follows a dash, cut where the word that the dash joins ends. -/
theorem exists_dashWord (back : List Char) :
    ∃ rest, back = dashWord back ++ rest ∧ (∀ c ∈ dashWord back, isWordChar c = true)
      ∧ (∀ c, (dashWord back).head? = some c → isWordStart c = true)
      ∧ ∀ c, rest.head? = some c →
        (if dashWord back = [] then isWordStart c else isWordChar c) = false := by
  by_cases hstart : back.head?.any isWordStart = true
  · obtain ⟨v, rest, hback, htake, -, hv, hrest⟩ := exists_run isWordChar back
    have hword : dashWord back = v := by rw [dashWord, if_pos hstart, htake]
    obtain ⟨c, hc, hcstart⟩ := (Option.any_eq_true ..).mp hstart
    obtain ⟨tail, rfl⟩ := List.head?_eq_some_iff.mp hc
    obtain ⟨u, rfl⟩ : ∃ u, v = c :: u :=
      ⟨_, by rw [← htake, List.takeWhile_cons_of_pos (isWordChar_of_isWordStart hcstart)]⟩
    rw [hword]
    refine ⟨rest, hback, hv, ?_, hrest⟩
    intro d hd
    cases hd
    exact hcstart
  · have hword : dashWord back = [] := by rw [dashWord, if_neg hstart]
    rw [hword]
    refine ⟨back, rfl, List.forall_mem_nil _, nofun, ?_⟩
    intro c hc
    simpa [hc] using hstart

/-- A text that begins with a word is read as the rule for words says. -/
theorem readsFront_word (hstart : ∃ c, text.head? = some c ∧ isWordStart c = true)
    (hcap : (wordFront text line).stop < maxLexeme ∨ text.length ≤ maxLexeme) (carry : Bool) :
    ReadsFront text line carry 0 {} (wordFront text line) := by
  obtain ⟨w, rest, htext, htake, hdrop, hw, hrest⟩ := exists_run isWordChar text
  by_cases hdash : rest.head? = some '-' ∧ isDashPrefix (String.ofList w) = true
  · obtain ⟨hhead, hpre⟩ := hdash
    obtain ⟨back, rfl⟩ := List.head?_eq_some_iff.mp hhead
    obtain ⟨rest, hback, hv, hvstart, hvrest⟩ := exists_dashWord back
    have hfront : wordFront text line =
        { tokens := dashTokens line w (dashWord back)
          stop := w.length + 1 + (dashWord back).length } := by
      simp only [wordFront, htake, hdrop, List.head?_cons, hpre, and_self, if_true,
        List.drop_succ_cons, List.drop_zero]
    rw [hfront] at hcap ⊢
    have hsplit : text = w ++ '-' :: dashWord back ++ rest := by
      rw [htext, List.append_assoc, List.cons_append, ← hback]
    have hread := readOn_dash hpre hv hvstart hvrest line carry
    rw [← hsplit] at hread
    refine ⟨?_, _, tokensOf_map_token _, diagnosticsOf_map_token _, hread hcap⟩
    rw [hsplit, List.length_append, length_dashed]
    exact Nat.le_add_right _ _
  · have hfront : wordFront text line =
        { tokens := [⟨wordKind w, String.ofList w, line, 0, w.length⟩], stop := w.length } := by
      simp only [wordFront, htake, hdrop, if_neg hdash]
    rw [hfront] at hcap ⊢
    subst htext
    exact ⟨by simp, _, rfl, rfl, readOn_plain hstart hw hrest hdash hcap⟩

end Read

/-- A text that begins with a word is fed as the rule for words says, and what follows is fed
afresh. The words and the dash between them may be as long as a lexeme may be if the text ends with
them, and must be shorter if it goes on. -/
theorem feed_word {lx : Lexer} (h : lx.Reachable) (hstart : lx.state = .start) {text : String}
    {c : Char} (hc : text.toList.head? = some c) (hword : isWordStart c = true) (line : Nat)
    (hcap : (wordFront text.toList line).stop < maxLexeme ∨ text.toList.length ≤ maxLexeme) :
    lx.FeedsThen text line (wordFront text.toList line) := by
  have hread := readsFront_word ⟨c, hc, hword⟩ hcap lx.settings.carryComments
  exact Lexer.feedsThen_of_readsFront (h.pending_eq hstart) hread

/-- A keyword that is cut short by nothing, and two words that are none together. -/
theorem feed_word_dashed :
    ({} : Lexer).FeedsThen "auto-reset;" 1
        ⟨[⟨.keyword .autoResetKw, "auto-reset", 1, 0, 10⟩], [], 10⟩
      ∧ ({} : Lexer).FeedsThen "auto-if x" 1
        ⟨[⟨.identifier, "auto", 1, 0, 4⟩, ⟨.operator .minus, "-", 1, 4, 5⟩,
          ⟨.identifier, "if", 1, 5, 7⟩], [], 7⟩ := by
  have hreach : ({} : Lexer).Reachable := ⟨{}, [], rfl⟩
  have hreset : wordFront "auto-reset;".toList 1 =
      ⟨[⟨.keyword .autoResetKw, "auto-reset", 1, 0, 10⟩], [], 10⟩ := by decide +kernel
  have hif : wordFront "auto-if x".toList 1 =
      ⟨[⟨.identifier, "auto", 1, 0, 4⟩, ⟨.operator .minus, "-", 1, 4, 5⟩,
        ⟨.identifier, "if", 1, 5, 7⟩], [], 7⟩ := by decide +kernel
  have hfirst : "auto-reset;".toList.head? = some 'a' := by decide +kernel
  have hsecond : "auto-if x".toList.head? = some 'a' := by decide +kernel
  rw [← hreset, ← hif]
  refine ⟨feed_word hreach rfl hfirst (by decide) 1 (Or.inl ?_),
    feed_word hreach rfl hsecond (by decide) 1 (Or.inl ?_)⟩
  · rw [hreset]
    decide
  · rw [hif]
    decide

/-! ## A lexeme that is full -/

section Full

variable {w v rest : List Char} {line : Nat}

/-- No keyword is longer than `export_default`. -/
theorem keyword?_long (h : 14 < w.length) : keyword? (String.ofList w) = none := by
  cases hk : keyword? (String.ofList w) with
  | none => rfl
  | some k =>
      have hall : ∀ x ∈ keywords, x.1.toList.length ≤ 14 := by decide +kernel
      have hle := hall _ (mem_keywords hk)
      rw [String.toList_ofList] at hle
      omega

/-- The rule for words, where a dash and another word follow the first one. -/
theorem wordFront_dashed (hw : isDashPrefix (String.ofList w) = true) (hv : IsWord v)
    (hrest : ∀ c, rest.head? = some c → isWordChar c = false) :
    wordFront (w ++ '-' :: v ++ rest) line =
      { tokens := dashTokens line w v, stop := w.length + 1 + v.length } := by
  have hrun : ∀ {u back : List Char}, IsWord u →
      (∀ c, back.head? = some c → isWordChar c = false) →
      (u ++ back).takeWhile isWordChar = u ∧ (u ++ back).dropWhile isWordChar = back := by
    intro u back hu hback
    rw [List.takeWhile_append_of_pos hu.forall_isWordChar,
      List.dropWhile_append_of_pos hu.forall_isWordChar]
    cases back with
    | nil => simp
    | cons d back => simp [hback d rfl]
  have hdash : ∀ c, ('-' :: (v ++ rest)).head? = some c → isWordChar c = false := by
    rintro c ⟨⟩
    decide
  obtain ⟨htake, hdrop⟩ := hrun (isWord_of_isDashPrefix hw) hdash
  have hword : dashWord (v ++ rest) = v := by
    rw [dashWord, (hrun hv hrest).1]
    obtain ⟨c, tail, rfl, hc, -⟩ := hv
    simp [hc]
  simp only [wordFront, List.append_assoc, List.cons_append, htake, hdrop, List.head?_cons, hw,
    and_self, if_true, List.drop_succ_cons, List.drop_zero, hword]

/-- A lexeme that is as long as a lexeme may be is given up when a blank follows. -/
theorem readOn_full_dashed (hw : isDashPrefix (String.ofList w) = true) (hv : IsWord v)
    (hsize : w.length + 1 + v.length = maxLexeme) (line : Nat) (carry : Bool) :
    ∃ t, t.kind = .unknown
      ∧ ∃ fs, tokensOf (readOn (w ++ '-' :: v ++ [' ']) line carry 0 {}).findings = t :: fs := by
  have hstart : ∀ c, v.head? = some c → isWordStart c = true := by
    obtain ⟨d, tail, rfl, hd, -⟩ := hv
    rintro c ⟨⟩
    exact hd
  have hblank : (w ++ '-' :: v ++ [' '])[maxLexeme]? = some ' ' := by
    rw [← hsize, ← length_dashed, getElem?_append_length]
    rfl
  have hfull : (Pending.under .identifierDash (w ++ '-' :: v).toArray line 0).isFull = true := by
    have hle : maxLexeme ≤ (w ++ '-' :: v).toArray.size := by
      rw [List.size_toArray, length_dashed, hsize]
    simp only [Pending.isFull, hle, decide_true]
    rfl
  have hlt := (List.getElem?_eq_some_iff.mp hblank).1
  rw [readOn_dashed hw hv.forall_isWordChar hstart (Nat.le_of_eq hsize), hsize,
    readOn_full hblank hfull, Pending.goto, readOn_skip (Nat.zero_le _) (Nat.le_of_lt hlt)]
  exact ⟨_, rfl, _, rfl⟩

/-- So the rule for words does not hold of two words that are as long as a lexeme may be with the
dash between them. -/
theorem not_feedsThen_full (hw : isDashPrefix (String.ofList w) = true) (hv : IsWord v)
    (hsize : w.length + 1 + v.length = maxLexeme) (line : Nat) :
    wordFront (w ++ '-' :: v ++ [' ']) line =
        { tokens := splitWord line 0 w v, stop := maxLexeme }
      ∧ ¬ ({} : Lexer).FeedsThen (String.ofList (w ++ '-' :: v ++ [' '])) line
        (wordFront (w ++ '-' :: v ++ [' ']) line) := by
  have hlong : keyword? (String.ofList (w ++ '-' :: v)) = none := by
    refine keyword?_long ?_
    rw [length_dashed, hsize]
    decide
  have hblank : ∀ c, [' '].head? = some c → isWordChar c = false := by
    rintro c ⟨⟩
    decide
  have hfront : wordFront (w ++ '-' :: v ++ [' ']) line =
      { tokens := splitWord line 0 w v, stop := maxLexeme } := by
    rw [wordFront_dashed hw hv hblank, dashTokens, hlong, ite_self, hsize]
  refine ⟨hfront, ?_⟩
  intro hfeeds
  obtain ⟨t, ht, fs, hfs⟩ := readOn_full_dashed hw hv hsize line false
  have htokens := hfeeds.tokens
  rw [Lexer.feed_tokens, Lexer.reading_eq_readOn, String.toList_ofList] at htokens
  have heq := hfs.symm.trans htokens
  rw [hfront] at heq
  rw [(List.cons.inj heq).1] at ht
  cases ht

/-- Words that are shorter together than a lexeme may be can be too long with their dash. -/
theorem feed_word_full :
    let w := ['i', 'n', 'i', 't']
    let v := List.replicate (maxLexeme - 5) 'a'
    w.length + v.length < maxLexeme
      ∧ wordFront (w ++ '-' :: v ++ [' ']) 1 =
        { tokens := splitWord 1 0 w v, stop := maxLexeme }
      ∧ ¬ ({} : Lexer).FeedsThen (String.ofList (w ++ '-' :: v ++ [' '])) 1
        (wordFront (w ++ '-' :: v ++ [' ']) 1) := by
  have hlength : (List.replicate (maxLexeme - 5) 'a').length = maxLexeme - 5 :=
    List.length_replicate
  have hword : IsWord (List.replicate (maxLexeme - 5) 'a') := by
    refine ⟨'a', List.replicate (maxLexeme - 6) 'a', List.replicate_succ, by decide, ?_⟩
    intro d hd
    rw [List.eq_of_mem_replicate hd]
    decide
  have hcap : 5 < maxLexeme := by decide
  refine ⟨?_, not_feedsThen_full (by decide) hword ?_ 1⟩
  · rw [hlength]
    simp only [List.length_cons, List.length_nil]
    omega
  · rw [hlength]
    simp only [List.length_cons, List.length_nil]
    omega

end Full

end ContractLex
