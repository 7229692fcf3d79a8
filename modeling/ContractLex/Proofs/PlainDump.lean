import ContractLex.Dump
import ContractLex.Proofs.Lines
import ContractLex.Proofs.Spelled
import ContractLex.Text.Blank

/-!
# The lines of a plain dump

A plain dump has a line for each token, `KIND | text`, unless the text of a token has a line feed in
it: then the token takes as many lines as its text (`splitOn_plain`). Wire names have neither a
blank nor a line feed (`wire_plain`), so as long as every token is one line, a dump says which kinds
and texts it was made of (`plain_injective`). A text that is decoded can have a line feed from an
escape, and then a dump may be that of other tokens as well.

Which tokens have a line feed, or any blank, in their text follows from what their kinds read
(`Kind.Reads.visible`): a literal in quotes, or text that was skipped. Skipped text is not decoded,
so where a source is read line by line it is the literals alone that have a line feed.
-/

namespace ContractLex

open Spelling

/-- What a dump shows of a token. -/
def Token.shown (t : Token) : Kind × String := (t.kind, t.text)

/-- The text of a token takes more than one line. -/
def Token.IsBroken (t : Token) : Prop := '\n' ∈ t.text.toList

/-! ## Lines -/

section Lines

variable {ts us : List Token} {t u : Token}

theorem toList_plain (ts : List Token) :
    (Dump.plain ts).toList = ts.flatMap fun t => t.render.toList ++ ['\n'] := by
  have hfold : ∀ (ts : List Token) (out : String),
      (ts.foldl (fun out t => out ++ t.render ++ "\n") out).toList =
        out.toList ++ ts.flatMap fun t => t.render.toList ++ ['\n'] := by
    intro ts
    induction ts with
    | nil => simp
    | cons t ts ih =>
        intro out
        rw [List.foldl_cons, ih]
        simp
  exact hfold ts ""

/-- The lines of a dump are those of its tokens, one token after the other. -/
theorem splitOn_plain (ts : List Token) :
    (Dump.plain ts).toList.splitOn '\n' =
      ts.flatMap (fun t => t.render.toList.splitOn '\n') ++ [[]] := by
  rw [toList_plain]
  induction ts with
  | nil => rfl
  | cons t ts ih =>
      rw [List.flatMap_cons, List.append_assoc, List.singleton_append,
        List.splitOn_append_cons_self, ih, List.flatMap_cons, List.append_assoc]

theorem wire_plain (k : Kind) : ' ' ∉ k.wire.toList ∧ '\n' ∉ k.wire.toList := by
  have hall : ∀ k ∈ Kind.all, ' ' ∉ k.wire.toList ∧ '\n' ∉ k.wire.toList := by decide +kernel
  exact hall k k.mem_all

theorem toList_render (t : Token) :
    t.render.toList = t.kind.wire.toList ++ ' ' :: '|' :: ' ' :: t.text.toList := by
  simp [Token.render]

theorem lineFeed_mem_render : '\n' ∈ t.render.toList ↔ t.IsBroken := by
  rw [toList_render, Token.IsBroken]
  simp [(wire_plain t.kind).2]

/-- The line of a token determines its kind and its text. -/
theorem shown_of_render (h : t.render.toList = u.render.toList) : t.shown = u.shown := by
  rw [toList_render, toList_render] at h
  -- the first blank of the line comes right after the kind
  have hsplit := congrArg (List.splitOn ' ') h
  rw [List.splitOn_append_cons_self_of_not_mem (wire_plain t.kind).1,
    List.splitOn_append_cons_self_of_not_mem (wire_plain u.kind).1] at hsplit
  have hwire := (List.cons.inj hsplit).1
  have hkind : t.kind = u.kind := Kind.wire_injective (String.toList_inj.mp hwire)
  rw [hwire] at h
  have hrest : '|' :: ' ' :: t.text.toList = '|' :: ' ' :: u.text.toList :=
    (List.cons.inj (List.append_cancel_left h)).2
  have htext : t.text = u.text := String.toList_inj.mp (List.cons.inj (List.cons.inj hrest).2).2
  rw [Token.shown, Token.shown, hkind, htext]

/-- A token is one line if its text is. -/
theorem splitOn_render (h : ¬ t.IsBroken) : t.render.toList.splitOn '\n' = [t.render.toList] :=
  List.splitOn_eq_singleton fun hmem => h (lineFeed_mem_render.mp hmem)

theorem length_splitOn_render (t : Token) : 1 ≤ (t.render.toList.splitOn '\n').length :=
  List.length_pos_iff.mpr (List.splitOn_ne_nil _ _)

theorem length_splitOn_broken (h : t.IsBroken) : 2 ≤ (t.render.toList.splitOn '\n').length := by
  obtain ⟨front, back, heq⟩ := List.append_of_mem (lineFeed_mem_render.mpr h)
  have hfront := List.length_pos_iff.mpr (List.splitOn_ne_nil '\n' front)
  have hback := List.length_pos_iff.mpr (List.splitOn_ne_nil '\n' back)
  rw [heq, List.splitOn_append_cons_self, List.length_append]
  omega

theorem length_le_lines (ts : List Token) :
    ts.length ≤ (ts.flatMap fun t => t.render.toList.splitOn '\n').length := by
  induction ts with
  | nil => exact Nat.le_refl 0
  | cons t ts ih =>
      have hone := length_splitOn_render t
      rw [List.flatMap_cons, List.length_append, List.length_cons]
      omega

/-- A dump has one line for each token just if no token is broken. -/
theorem splitOn_plain_eq_iff :
    (Dump.plain ts).toList.splitOn '\n' = ts.map (·.render.toList) ++ [[]] ↔
      ∀ t ∈ ts, ¬ t.IsBroken := by
  rw [splitOn_plain, List.append_left_inj]
  constructor
  · intro heq t ht hbroken
    obtain ⟨front, back, rfl⟩ := List.append_of_mem ht
    have hlength := congrArg List.length heq
    have htwo := length_splitOn_broken hbroken
    have hfront := length_le_lines front
    have hback := length_le_lines back
    simp only [List.flatMap_append, List.flatMap_cons, List.length_append, List.length_map,
      List.length_cons] at hlength
    omega
  · intro hunbroken
    induction ts with
    | nil => rfl
    | cons t ts ih =>
        rw [List.flatMap_cons, splitOn_render (hunbroken t List.mem_cons_self),
          ih fun u hu => hunbroken u (List.mem_cons_of_mem t hu)]
        rfl

theorem map_shown_of_map_render (h : ts.map (·.render.toList) = us.map (·.render.toList)) :
    ts.map Token.shown = us.map Token.shown := by
  induction ts generalizing us with
  | nil =>
      obtain rfl := List.map_eq_nil_iff.mp h.symm
      rfl
  | cons t ts ih =>
      cases us with
      | nil => cases h
      | cons u us =>
          obtain ⟨hfirst, hrest⟩ := List.cons.inj h
          rw [List.map_cons, List.map_cons, shown_of_render hfirst, ih hrest]

/-- Where no token is broken, a dump determines the kinds and the texts. -/
theorem plain_injective (hts : ∀ t ∈ ts, ¬ t.IsBroken) (hus : ∀ u ∈ us, ¬ u.IsBroken)
    (h : Dump.plain ts = Dump.plain us) : ts.map Token.shown = us.map Token.shown := by
  have hlines := splitOn_plain_eq_iff.mpr hts
  rw [h, splitOn_plain_eq_iff.mpr hus] at hlines
  exact map_shown_of_map_render (List.append_cancel_right hlines.symm)

end Lines

/-! ## Blanks and line feeds in the text of a token -/

theorem Text.isBlank_of_visible {c : Char} (h : 0x21 ≤ c.toNat ∧ c.toNat ≤ 0x7e) :
    Text.isBlank c = false := by
  simp only [Text.isBlank, Text.blankRanges, List.any_cons, List.any_nil, Bool.or_false,
    Bool.or_eq_false_iff, Bool.and_eq_false_iff, decide_eq_false_iff_not]
  omega

theorem isBlank_of_isWordChar {c : Char} (h : isWordChar c = true) : Text.isBlank c = false := by
  change (((decide (65 ≤ c.val ∧ c.val ≤ 90)
    || decide (97 ≤ c.val) && decide (c.val ≤ 122))
    || decide (48 ≤ c.val) && decide (c.val ≤ 57)) || c == '_') = true at h
  simp only [Bool.or_eq_true, Bool.and_eq_true, decide_eq_true_eq, beq_iff_eq,
    UInt32.le_iff_toNat_le] at h
  rcases h with h | rfl
  · change ((65 ≤ c.toNat ∧ c.toNat ≤ 90) ∨ (97 ≤ c.toNat ∧ c.toNat ≤ 122)) ∨
      (48 ≤ c.toNat ∧ c.toNat ≤ 57) at h
    exact Text.isBlank_of_visible (by omega)
  · decide

/-- A text that is not empty and has no blanks. -/
def IsVisible (text : List Char) : Prop := text ≠ [] ∧ ∀ c ∈ text, Text.isBlank c = false

section Visible

variable {a b : List Char}

theorem IsNumeral.isVisible (h : IsNumeral a) : IsVisible a := by
  refine ⟨h.1, fun c hc => isBlank_of_isWordChar ?_⟩
  simp [isWordChar, Char.isAlphanum, h.2 c hc]

theorem IsVisible.append (ha : IsVisible a) (hb : ∀ c ∈ b, Text.isBlank c = false) :
    IsVisible (a ++ b) :=
  ⟨List.append_ne_nil_of_left_ne_nil ha.1 b, List.forall_mem_append.mpr ⟨ha.2, hb⟩⟩

theorem IsDecimal.isVisible (h : IsDecimal a) : IsVisible a := by
  obtain ⟨v, w, hv, hw, rfl⟩ := h
  refine hv.isVisible.append (List.forall_mem_cons.mpr ⟨by decide, fun c hc => ?_⟩)
  exact isBlank_of_isWordChar (by simp [isWordChar, Char.isAlphanum, hw c hc])

end Visible

/-- Only a literal in quotes, or text that was skipped, has a blank in its text or is empty. -/
theorem Kind.Reads.visible {k : Kind} {w text : List Char} (h : k.Reads w text) :
    k = .literal .char ∨ k = .literal .string ∨ (k = .unknown ∧ text = w) ∨ IsVisible text := by
  have htable (word : String) (names : List String) (hmem : word ∈ names)
      (hall : ∀ name ∈ names, name.toList ≠ [] ∧ name.toList.all (!Text.isBlank ·) = true) :
      IsVisible word.toList := by
    obtain ⟨hne, hblank⟩ := hall word hmem
    exact ⟨hne, by simpa using hblank⟩
  cases k with
  | literal l =>
      cases l with
      | char => exact Or.inl rfl
      | string => exact Or.inr (Or.inl rfl)
      | int =>
          obtain ⟨hw, rfl⟩ := h
          exact Or.inr (Or.inr (Or.inr hw.isVisible))
      | double =>
          obtain ⟨⟨a, b, ha, hb, hw⟩, rfl⟩ := h
          exact Or.inr (Or.inr (Or.inr (IsDecimal.isVisible ⟨a, b, ha, hb.2, hw⟩)))
      | float =>
          obtain ⟨⟨v, hv, rfl⟩, rfl⟩ := h
          have hsuffix : ∀ c ∈ ['f'], Text.isBlank c = false :=
            List.forall_mem_singleton.mpr (by decide)
          exact Or.inr (Or.inr (Or.inr (hv.isVisible.append hsuffix)))
      | bool =>
          obtain ⟨hw, rfl⟩ := h
          have hvisible := htable (String.ofList text) ["true", "false"]
            (by simpa [isBoolean] using hw) (by decide +kernel)
          rw [String.toList_ofList] at hvisible
          exact Or.inr (Or.inr (Or.inr hvisible))
  | keyword k =>
      obtain ⟨hw, rfl⟩ := h
      have hvisible := htable _ _ (List.mem_map_of_mem (f := Prod.fst) (mem_keywords hw))
        (by decide +kernel)
      rw [String.toList_ofList] at hvisible
      exact Or.inr (Or.inr (Or.inr hvisible))
  | operator o =>
      obtain ⟨hw, rfl⟩ := h
      have hvisible := htable _ _ (List.mem_map_of_mem (f := Prod.fst) (mem_operators hw))
        (by decide +kernel)
      rw [String.toList_ofList] at hvisible
      exact Or.inr (Or.inr (Or.inr hvisible))
  | delimiter d =>
      obtain ⟨c, hc, rfl, rfl⟩ := h
      refine Or.inr (Or.inr (Or.inr ⟨List.cons_ne_nil c [], List.forall_mem_singleton.mpr ?_⟩))
      unfold delimiter? at hc
      split at hc <;> cases hc <;> decide
  | identifier =>
      obtain ⟨hw, rfl⟩ := h
      exact Or.inr (Or.inr (Or.inr
        ⟨hw.ne_nil, fun c hc => isBlank_of_isWordChar (hw.forall_isWordChar c hc)⟩))
  | unknown => exact Or.inr (Or.inr (Or.inl ⟨rfl, h.2⟩))
  | blank b => exact h.elim

/-- Only a literal in quotes, or text that was skipped, has a line feed in its text. -/
theorem Kind.Reads.lineFeed {k : Kind} {w text : List Char} (h : k.Reads w text)
    (hfeed : '\n' ∈ text) :
    k = .literal .char ∨ k = .literal .string ∨ k = .unknown ∧ text = w := by
  rcases h.visible with hk | hk | hk | hvisible
  · exact Or.inl hk
  · exact Or.inr (Or.inl hk)
  · exact Or.inr (Or.inr hk)
  · exact absurd (hvisible.2 _ hfeed) (by decide)

/-! ## What is read of a text and of a source -/

namespace Lexer

section Reads

variable {lx : Lexer} {b : Nat}

/-- The tokens of a text read words of it. -/
theorem emitted_reads (h : lx.pending.Rests lx.settings.carryComments b) (text : String)
    (line : Nat) :
    ∀ t ∈ lx.emitted text line, t.kind.Reads (stretch text.toList t.start t.stop) t.text.toList := by
  intro t ht
  rcases reading_tiles text line h with
    ⟨st, -, -, -, heq⟩ | ⟨k, front, fs, start, p, e, hfront, htiles, -, hends, heq⟩
  · rw [emitted, heq] at ht
    cases ht
  · have hspelled : SpelledFrom text.toList [] (tokensOf fs ++ tokensOf e.findings) :=
      (htiles.spelled []).append (hends.spelled _)
    have hemitted : lx.emitted text line = tokensOf fs ++ tokensOf e.findings := by
      rw [emitted, heq, tokensOf_append, tokensOf_append]
      rcases hfront with rfl | ⟨-, rfl⟩ <;> rfl
    rw [hemitted] at ht
    obtain ⟨before, after, hsplit⟩ := List.append_of_mem ht
    rw [hsplit] at hspelled
    exact hspelled.spelled.reads

/-- Tokens that read words in which there is no line feed. -/
def ReadsLines (ts : List Token) : Prop :=
  ∀ t ∈ ts, ∃ w, '\n' ∉ w ∧ t.kind.Reads w t.text.toList

theorem feedLines_readsLines (ls : List String) (hls : ∀ l ∈ ls, '\n' ∉ l.toList) :
    ∀ {lx : Lexer} {b : Nat} (k : Nat), lx.pending.Rests lx.settings.carryComments b →
      ReadsLines lx.tokens.toList → ReadsLines (lx.feedLines k ls).1.tokens.toList := by
  induction ls with
  | nil => exact fun _ _ hts => hts
  | cons l ls ih =>
      intro lx b k hrests hts
      have hnext : ReadsLines (lx.feed l (lineNumber k)).1.tokens.toList := by
        intro t ht
        rw [feed_tokens] at ht
        rcases List.mem_append.mp ht with ht | ht
        · exact hts t ht
        · have hline : '\n' ∉ stretch l.toList t.start t.stop := by
            intro hmem
            exact hls l List.mem_cons_self (List.mem_of_mem_drop (List.mem_of_mem_take hmem))
          exact ⟨_, hline, emitted_reads hrests l (lineNumber k) t ht⟩
      have hrests' := call_rests hrests (.feed l (lineNumber k))
      rw [call, ← lx.feed_settings l (lineNumber k)] at hrests'
      rw [feedLines]
      rcases heq : lx.feed l (lineNumber k) with ⟨ly, error | _⟩
      · rw [heq] at hnext
        exact hnext
      · rw [heq] at hnext hrests'
        exact ih (fun m hm => hls m (List.mem_cons_of_mem l hm)) (k + 1) hrests' hnext

end Reads

end Lexer

/-- The lines of a source have no line feed. -/
theorem lineFeed_not_mem_lines (source : String) : ∀ l ∈ Text.lines source, '\n' ∉ l.toList := by
  have hsplit : ∀ (rest line : List Char), '\n' ∉ line →
      ∀ l ∈ (Text.splitLines #[] line rest).toList, '\n' ∉ l.toList := by
    intro rest
    induction rest with
    | nil =>
        intro line hline l hl
        unfold Text.splitLines at hl
        split at hl
        · cases hl
        · obtain rfl : l = String.ofList line.reverse := by simpa using hl
          simpa using hline
    | cons c rest ih =>
        intro line hline l hl
        by_cases hc : c = '\n'
        · rw [Text.splitLines, if_pos hc, Text.splitLines_eq_append, Array.toList_append] at hl
          rcases List.mem_append.mp hl with hl | hl
          · obtain ⟨-, -, -, hmem⟩ := dropReturn_cases line
            obtain rfl : l = String.ofList (Text.dropReturn line).reverse := by simpa using hl
            rw [String.toList_ofList, List.mem_reverse]
            exact fun hfeed => hline (hmem _ hfeed)
          · exact ih [] List.not_mem_nil l hl
        · rw [Text.splitLines, if_neg hc] at hl
          exact ih (c :: line) (by simp [hline, Ne.symm hc]) l hl
  exact hsplit source.toList [] List.not_mem_nil

section Read

variable {text source : String} {settings : LexicalSettings} {ts : List Token}

theorem tokenize_lineFeed (h : tokenize text settings = .ok ts) :
    ∀ t ∈ ts, t.IsBroken →
      t.kind = .literal .char ∨ t.kind = .literal .string ∨ t.kind = .unknown := by
  intro t ht hbroken
  have hrests : ({ settings } : Lexer).pending.Rests settings.carryComments 0 := Or.inl rfl
  have hemitted : ts = ({ settings } : Lexer).emitted text 1 := by
    have htokens := ({ settings } : Lexer).feed_tokens text 1
    unfold tokenize at h
    split at h
    · cases h
    · next lx heq =>
      cases h
      rw [heq] at htokens
      exact htokens
  rw [hemitted] at ht
  rcases (Lexer.emitted_reads hrests text 1 t ht).lineFeed hbroken with hk | hk | ⟨hk, -⟩
  · exact Or.inl hk
  · exact Or.inr (Or.inl hk)
  · exact Or.inr (Or.inr hk)

theorem tokenizeSource_lineFeed (h : tokenizeSource source settings = .ok ts) :
    ∀ t ∈ ts, t.IsBroken → t.kind = .literal .char ∨ t.kind = .literal .string := by
  have hrests : ({ settings } : Lexer).pending.Rests settings.carryComments 0 := Or.inl rfl
  have hlines : Lexer.ReadsLines
      (({ settings } : Lexer).feedLines 0 (Text.lines source)).1.tokens.toList :=
    Lexer.feedLines_readsLines _ (lineFeed_not_mem_lines source) 0 hrests (List.forall_mem_nil _)
  have htokens : ts = (({ settings } : Lexer).feedLines 0 (Text.lines source)).1.tokens.toList := by
    unfold tokenizeSource Lexer.feedSource at h
    rcases hfeed : ({ settings } : Lexer).feedLines 0 (Text.lines source) with ⟨lx, error | _⟩
    · rw [hfeed] at h
      cases h
    · rw [hfeed] at h
      dsimp only at h
      obtain ⟨fs, hnone, hadds⟩ := lx.adds_finish
      have hfinish := hadds.tokens
      rw [hnone, List.append_nil] at hfinish
      rcases hend : lx.finish with ⟨ly, error | _⟩
      · rw [hend] at h
        cases h
      · rw [hend] at h hfinish
        cases h
        rw [hfinish]
  intro t ht hbroken
  rw [htokens] at ht
  obtain ⟨w, hw, hreads⟩ := hlines t ht
  rcases hreads.lineFeed hbroken with hk | hk | ⟨-, heq⟩
  · exact Or.inl hk
  · exact Or.inr hk
  · exact absurd (heq ▸ hbroken) hw

end Read

/-- Only a literal in quotes, or skipped text with a line break in it, takes more than one line of a
plain dump, and in a source read line by line only such a literal. As long as no token does, a plain
dump is one line for each token, in order, and determines their kinds and texts. -/
theorem plain_lines (ts us : List Token) :
    (∀ text settings, tokenize text settings = .ok ts → ∀ t ∈ ts, t.IsBroken →
      t.kind = .literal .char ∨ t.kind = .literal .string ∨ t.kind = .unknown)
    ∧ (∀ source settings, tokenizeSource source settings = .ok ts → ∀ t ∈ ts, t.IsBroken →
      t.kind = .literal .char ∨ t.kind = .literal .string)
    ∧ ((Dump.plain ts).toList.splitOn '\n' = ts.map (·.render.toList) ++ [[]] ↔
      ∀ t ∈ ts, ¬ t.IsBroken)
    ∧ ((∀ t ∈ ts, ¬ t.IsBroken) → (∀ u ∈ us, ¬ u.IsBroken) → Dump.plain ts = Dump.plain us →
      ts.map Token.shown = us.map Token.shown) := by
  refine ⟨?_, ?_, splitOn_plain_eq_iff, ?_⟩
  · intro text settings h
    exact tokenize_lineFeed h
  · intro source settings h
    exact tokenizeSource_lineFeed h
  · intro hts hus h
    exact plain_injective hts hus h

/-- Two sources that differ in a blank have the same dump, of the same kinds and texts; and the text
of a character is the one that is broken. -/
theorem plain_lines_blank :
    let ts : List Token := [⟨.identifier, "a", 1, 0, 1⟩, ⟨.literal .string, "b | c", 1, 2, 9⟩]
    let us : List Token := [⟨.identifier, "a", 1, 0, 1⟩, ⟨.literal .string, "b | c", 1, 3, 10⟩]
    let feed : Token := ⟨.literal .char, "\n", 1, 0, 4⟩
    tokenize "a \"b | c\"" {} = .ok ts ∧ tokenizeSource "a  \"b | c\"" {} = .ok us
      ∧ (Dump.plain ts).toList.splitOn '\n' = ts.map (·.render.toList) ++ [[]]
      ∧ Dump.plain ts = Dump.plain us ∧ ts.map Token.shown = us.map Token.shown
      ∧ tokenize "'\\n'" {} = .ok [feed] ∧ feed.IsBroken
      ∧ (feed.kind = .literal .char ∨ feed.kind = .literal .string ∨ feed.kind = .unknown)
      ∧ tokenizeSource "'\\n'" {} = .ok [feed]
      ∧ (feed.kind = .literal .char ∨ feed.kind = .literal .string) := by
  intro ts us feed
  have hts : ∀ t ∈ ts, ¬ t.IsBroken := by
    show ∀ t ∈ ts, '\n' ∉ t.text.toList
    decide +kernel
  have hus : ∀ u ∈ us, ¬ u.IsBroken := by
    show ∀ u ∈ us, '\n' ∉ u.text.toList
    decide +kernel
  have hfeed : feed.IsBroken := by
    show '\n' ∈ feed.text.toList
    decide +kernel
  have hdump : Dump.plain ts = Dump.plain us := by decide +kernel
  have htext : tokenize "'\\n'" {} = .ok [feed] := by decide +kernel
  have hsource : tokenizeSource "'\\n'" {} = .ok [feed] := by decide +kernel
  obtain ⟨-, -, hlines, hshown⟩ := plain_lines ts us
  obtain ⟨hread, hreadSource, -, -⟩ := plain_lines [feed] []
  have hmem := List.mem_singleton_self feed
  exact ⟨by decide +kernel, by decide +kernel, hlines.mpr hts, hdump, hshown hts hus hdump, htext,
    hfeed, hread _ _ htext feed hmem hfeed, hsource, hreadSource _ _ hsource feed hmem hfeed⟩

/-- A string with an escaped line feed, and a string with a word after it: different tokens, and not
as many of them, but the same dump. -/
theorem plain_lines_broken :
    ∃ ts us, tokenize "\"a\\nIDENT | b\"" = .ok ts ∧ tokenize "\"a\" b" = .ok us
      ∧ Dump.plain ts = Dump.plain us ∧ ts.map Token.shown ≠ us.map Token.shown
      ∧ (Dump.plain ts).toList.splitOn '\n' ≠ ts.map (·.render.toList) ++ [[]] := by
  refine ⟨[⟨.literal .string, "a\nIDENT | b", 1, 0, 14⟩],
    [⟨.literal .string, "a", 1, 0, 3⟩, ⟨.identifier, "b", 1, 4, 5⟩], by decide +kernel,
    by decide +kernel, by decide +kernel, ?_, ?_⟩
  · intro heq
    exact absurd (congrArg List.length heq) (by decide)
  · intro heq
    have hlines := congrArg List.length heq
    exact absurd hlines (by decide +kernel)

end ContractLex
