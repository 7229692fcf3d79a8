import ContractLex.Proofs.Failures
import ContractLex.Proofs.Lines

/-!
# The strict and the recovering reading of a source

Both readings make the same calls up to the first error. There the strict one stops, and the
recovering one goes on from the lexer that the strict one has left; whatever it does then, it only
adds to what that lexer holds (`Extends`).

A lexer that begins between tokens returns its errors line by line. `Ordered` is the invariant of
the recovering reading: the errors name lines that increase, none of them comes after the line that
was fed last, and a comment that is open was opened after the last of them. So `finish`, which
complains of that comment, names a later line than all errors before it.

An error of the strict reading names a place in the source (`feedSource_within`), since a comment
that is open was opened at such a place.
-/

namespace ContractLex

namespace Lexer

/-! ## Lexers that hold more -/

/-- One lexer holds what another held, and perhaps more. -/
structure Extends (lx ly : Lexer) : Prop where
  tokens : lx.tokens.toList <+: ly.tokens.toList
  diagnostics : lx.diagnostics.toList <+: ly.diagnostics.toList

section Extends

variable {lx ly lz : Lexer}

theorem extends_refl (lx : Lexer) : lx.Extends lx := ⟨List.prefix_refl _, List.prefix_refl _⟩

theorem Extends.trans (h : lx.Extends ly) (h' : ly.Extends lz) : lx.Extends lz :=
  ⟨h.tokens.trans h'.tokens, h.diagnostics.trans h'.diagnostics⟩

theorem Adds.extends {fs : List Finding} (h : lx.Adds fs ly) : lx.Extends ly where
  tokens := ⟨_, h.tokens.symm⟩
  diagnostics := ⟨_, h.diagnostics.symm⟩

theorem feed_extends (lx : Lexer) (text : String) (line : Nat) :
    lx.Extends (lx.feed text line).1 :=
  (adds_feed lx text line).extends

theorem finish_extends (lx : Lexer) : lx.Extends lx.finish.1 := by
  obtain ⟨fs, -, hadds⟩ := adds_finish lx
  exact hadds.extends

theorem feedAllLines_extends (ls : List String) :
    ∀ (lx : Lexer) (k : Nat) (errors : Array LexError),
      lx.Extends (lx.feedAllLines k errors ls).1 := by
  induction ls with
  | nil => exact fun lx _ _ => extends_refl lx
  | cons l ls ih =>
      intro lx k errors
      have hfeed := lx.feed_extends l (lineNumber k)
      rw [feedAllLines]
      rcases heq : lx.feed l (lineNumber k) with ⟨ly, error | _⟩
      · rw [heq] at hfeed
        exact hfeed.trans (ih ly (k + 1) (errors.push error))
      · rw [heq] at hfeed
        exact hfeed.trans (ih ly (k + 1) errors)

end Extends

/-! ## The first error -/

theorem feedAllLines_errors (ls : List String) :
    ∀ (lx : Lexer) (k : Nat) (errors : Array LexError),
      errors.toList <+: (lx.feedAllLines k errors ls).2.toList := by
  induction ls with
  | nil => exact fun _ _ _ => List.prefix_refl _
  | cons l ls ih =>
      intro lx k errors
      rw [feedAllLines]
      rcases lx.feed l (lineNumber k) with ⟨ly, error | _⟩
      · refine List.IsPrefix.trans ?_ (ih ly (k + 1) (errors.push error))
        rw [Array.toList_push]
        exact List.prefix_append _ _
      · exact ih ly (k + 1) errors

/-- Without an error, both readings of lines do the same. -/
theorem feedAllLines_of_ok (ls : List String) :
    ∀ (lx : Lexer) (k : Nat) (errors : Array LexError), (lx.feedLines k ls).2 = .ok () →
      lx.feedAllLines k errors ls = ((lx.feedLines k ls).1, errors) := by
  induction ls with
  | nil => exact fun _ _ _ _ => rfl
  | cons l ls ih =>
      intro lx k errors hok
      rw [feedLines] at hok ⊢
      rw [feedAllLines]
      rcases heq : lx.feed l (lineNumber k) with ⟨ly, error | _⟩
      · rw [heq] at hok
        cases hok
      · rw [heq] at hok
        exact ih ly (k + 1) errors hok

/-- At the first error, the recovering reading of lines goes on where the strict one stops. -/
theorem feedAllLines_of_error (ls : List String) :
    ∀ (lx : Lexer) (k : Nat) (errors : Array LexError) (error : LexError),
      (lx.feedLines k ls).2 = .error error →
      ∃ j rest, lx.feedAllLines k errors ls =
        (lx.feedLines k ls).1.feedAllLines j (errors.push error) rest := by
  induction ls with
  | nil => exact fun _ _ _ _ herror => nomatch herror
  | cons l ls ih =>
      intro lx k errors error herror
      rw [feedLines] at herror ⊢
      rw [feedAllLines]
      rcases heq : lx.feed l (lineNumber k) with ⟨ly, error' | _⟩
      · rw [heq] at herror
        cases herror
        exact ⟨k + 1, ls, rfl⟩
      · rw [heq] at herror
        exact ih ly (k + 1) errors error herror

/-- The recovering reading, by the call that ends it. -/
theorem feedSourceRecovering_finish (lx : Lexer) (source : String) :
    lx.feedSourceRecovering source =
      ((lx.feedAllLines 0 #[] (Text.lines source)).1.finish.1,
        (lx.feedAllLines 0 #[] (Text.lines source)).2.toList
          ++ errorsOf (lx.feedAllLines 0 #[] (Text.lines source)).1.finish.2) := by
  unfold feedSourceRecovering
  rcases lx.feedAllLines 0 #[] (Text.lines source) with ⟨ly, errors⟩
  dsimp only
  rcases ly.finish with ⟨lz, error | _⟩
  · simp [errorsOf]
  · simp [errorsOf]

section Source

variable {lx : Lexer} {source : String} {error : LexError}

theorem feedSourceRecovering_of_ok (hok : (lx.feedSource source).2 = .ok ()) :
    lx.feedSourceRecovering source = ((lx.feedSource source).1, []) := by
  have hlines := feedAllLines_of_ok (Text.lines source) lx 0 #[]
  rw [feedSourceRecovering_finish]
  unfold feedSource at hok ⊢
  rcases hstrict : lx.feedLines 0 (Text.lines source) with ⟨ly, error | _⟩
  · rw [hstrict] at hok
    cases hok
  · rw [hstrict] at hok hlines
    have hfinish : ly.finish.2 = .ok () := hok
    rw [hlines rfl, hfinish]
    rfl

theorem feedSourceRecovering_of_error (herror : (lx.feedSource source).2 = .error error) :
    (lx.feedSourceRecovering source).2.head? = some error
      ∧ (lx.feedSource source).1.Extends (lx.feedSourceRecovering source).1 := by
  have hok := feedAllLines_of_ok (Text.lines source) lx 0 #[]
  have hfails := feedAllLines_of_error (Text.lines source) lx 0 #[]
  rw [feedSourceRecovering_finish]
  unfold feedSource at herror ⊢
  rcases hstrict : lx.feedLines 0 (Text.lines source) with ⟨ly, error' | _⟩
  -- a line fails, and the recovering reading goes on after it
  · rw [hstrict] at herror hfails
    cases herror
    obtain ⟨j, rest, hrest⟩ := hfails error rfl
    obtain ⟨later, hlater⟩ := feedAllLines_errors rest ly j (#[].push error)
    rw [hrest]
    refine ⟨?_, (feedAllLines_extends rest ly j _).trans (finish_extends _)⟩
    rw [← hlater]
    rfl
  -- only the end of the source fails
  · rw [hstrict] at herror hok
    have hfinish : ly.finish.2 = .error error := herror
    rw [hok rfl, hfinish]
    exact ⟨rfl, extends_refl _⟩

end Source

/-! ## The lines of the errors -/

section Ordered

variable {lx ly : Lexer} {b k line : Nat} {text : String} {error : LexError}
  {errors : List LexError}

/-- A text that fails names a place in itself and leaves nothing pending; otherwise, what is pending
was opened in this text, or it was pending before. -/
theorem feed_opened (h : lx.pending.Rests lx.settings.carryComments b) (text : String)
    (line : Nat) :
    (∀ error, (lx.feed text line).2 = .error error →
      error.position.line = line ∧ error.position.column < text.toList.length
        ∧ (lx.feed text line).1.pending = {})
    ∧ ∀ o, (lx.feed text line).1.pending.opened = some o →
      o.line = line ∧ o.column < text.toList.length ∨ lx.pending.opened = some o := by
  rw [feed_result, feed_pending]
  rcases reading_tiles text line h with
    ⟨st, -, -, -, heq⟩ | ⟨k, front, fs, start, p, e, -, -, hstands, hends, heq⟩
  · rw [heq]
    exact ⟨nofun, fun o ho => Or.inr ho⟩
  · rw [heq]
    cases hends with
    | settled | cut => exact ⟨nofun, nofun⟩
    | carried _ hst _ hdrop =>
        have hidle := State.isIdle_of_isBlockComment hst
        have hlt : start < text.toList.length := Nat.lt_of_not_le fun hle => by
          rw [List.drop_eq_nil_of_le hle] at hdrop
          cases hdrop
        refine ⟨nofun, fun o ho => Or.inl ?_⟩
        obtain rfl := Option.some.inj ((hstands.opened_some hidle).symm.trans ho)
        exact ⟨rfl, hlt⟩
    | terminal _ hlt => exact ⟨fun error herror => by cases herror; exact ⟨rfl, hlt, rfl⟩, nofun⟩

/-- Errors in order, none after line `k`, which was the last; what is pending was opened later. -/
structure Ordered (lx : Lexer) (k : Nat) (errors : List LexError) : Prop where
  rests : ∃ b, lx.pending.Rests lx.settings.carryComments b
  increasing : (errors.map (·.position.line)).Pairwise (· < ·)
  within : ∀ error ∈ errors, 0 < error.position.line ∧ error.position.line ≤ k
  opened : ∀ o, lx.pending.opened = some o →
    0 < o.line ∧ o.line ≤ k ∧ ∀ error ∈ errors, error.position.line < o.line

theorem lineNumber_eq (hk : k + 1 < lineLimit) : lineNumber k = k + 1 := by
  unfold lineNumber
  omega

/-- An error that comes after all others. -/
theorem pairwise_concat (h : (errors.map (·.position.line)).Pairwise (· < ·))
    (hlast : ∀ e ∈ errors, e.position.line < error.position.line) :
    ((errors ++ [error]).map (·.position.line)).Pairwise (· < ·) := by
  rw [List.map_append, List.pairwise_append]
  refine ⟨h, List.pairwise_singleton _ _, fun m hm n hn => ?_⟩
  obtain ⟨e, he, rfl⟩ := List.mem_map.mp hm
  obtain rfl := List.mem_singleton.mp hn
  exact hlast e he

theorem Ordered.feed (h : lx.Ordered k errors) (hk : k + 1 < lineLimit) (text : String) :
    (lx.feed text (lineNumber k)).1.Ordered (k + 1)
      (errors ++ errorsOf (lx.feed text (lineNumber k)).2) := by
  obtain ⟨b, hrests⟩ := h.rests
  obtain ⟨herror, hopened⟩ := feed_opened hrests text (lineNumber k)
  have hnext : ∃ b, (lx.feed text (lineNumber k)).1.pending.Rests
      (lx.feed text (lineNumber k)).1.settings.carryComments b := by
    rw [feed_settings]
    exact ⟨_, call_rests hrests (.feed text (lineNumber k))⟩
  rw [lineNumber_eq hk] at *
  rcases hfeed : lx.feed text (k + 1) with ⟨ly, error | _⟩
  · rw [hfeed] at hnext herror
    obtain ⟨hline, -, hpending⟩ := herror error rfl
    refine ⟨hnext, pairwise_concat h.increasing fun e he => ?_, ?_, fun o ho => ?_⟩
    · rw [hline]
      exact Nat.lt_succ_of_le (h.within e he).2
    · refine List.forall_mem_append.mpr ⟨fun e he => ?_, fun e he => ?_⟩
      · exact ⟨(h.within e he).1, Nat.le_succ_of_le (h.within e he).2⟩
      · obtain rfl := List.mem_singleton.mp he
        omega
    · rw [hpending] at ho
      cases ho
  · rw [hfeed] at hnext hopened
    simp only [errorsOf, List.append_nil]
    refine ⟨hnext, h.increasing, fun e he => ?_, fun o ho => ?_⟩
    · exact ⟨(h.within e he).1, Nat.le_succ_of_le (h.within e he).2⟩
    · rcases hopened o ho with ⟨hline, -⟩ | hbefore
      · rw [hline]
        exact ⟨Nat.succ_pos k, Nat.le_refl _, fun e he => Nat.lt_succ_of_le (h.within e he).2⟩
      · obtain ⟨hpos, hle, hlast⟩ := h.opened o hbefore
        exact ⟨hpos, Nat.le_succ_of_le hle, hlast⟩

theorem Ordered.feedAllLines (ls : List String) :
    ∀ {lx : Lexer} {k : Nat} {errors : Array LexError}, lx.Ordered k errors.toList →
      k + ls.length < lineLimit →
      (lx.feedAllLines k errors ls).1.Ordered (k + ls.length)
        (lx.feedAllLines k errors ls).2.toList := by
  induction ls with
  | nil => exact fun h _ => h
  | cons l ls ih =>
      intro lx k errors h hk
      rw [List.length_cons] at hk ⊢
      have hnext := h.feed (by omega) l
      rw [Lexer.feedAllLines, Nat.add_comm ls.length, ← Nat.add_assoc]
      rcases hfeed : lx.feed l (lineNumber k) with ⟨ly, error | _⟩
      · rw [hfeed] at hnext
        refine ih ?_ (by omega)
        rw [Array.toList_push]
        exact hnext
      · rw [hfeed] at hnext
        refine ih ?_ (by omega)
        simpa [errorsOf] using hnext

/-- What `finish` complains of was opened after all errors before. -/
theorem Ordered.finish (h : lx.Ordered k errors) :
    lx.finish.1.Ordered k (errors ++ errorsOf lx.finish.2) := by
  obtain ⟨b, hrests⟩ := h.rests
  rcases finish_cases hrests with heq | ⟨o, ho, -, heq⟩
  · rw [heq, errorsOf, List.append_nil]
    exact h
  · obtain ⟨hpos, hle, hlast⟩ := h.opened o ho
    rw [heq]
    refine ⟨⟨b, Or.inl rfl⟩, pairwise_concat h.increasing hlast, ?_, fun o' ho' => ?_⟩
    · refine List.forall_mem_append.mpr ⟨h.within, fun e he => ?_⟩
      obtain rfl := List.mem_singleton.mp he
      exact ⟨hpos, hle⟩
    · cases ho'

end Ordered

/-- The two readings of a source. If the strict one succeeds, the recovering one does the same and
returns no error. If it fails, its error is the first that the recovering one returns, and what it
leaves is the beginning of what the recovering one leaves. From between tokens, the errors that are
returned, that of `finish` among them, name lines of the source that increase. -/
theorem feedSource_refines {lx : Lexer} (h : lx.Reachable) (source : String)
    (hlines : (Text.lines source).length < lineLimit) :
    ((lx.feedSource source).2 = .ok () →
      lx.feedSourceRecovering source = ((lx.feedSource source).1, []))
    ∧ (∀ error, (lx.feedSource source).2 = .error error →
      (lx.feedSourceRecovering source).2.head? = some error
        ∧ (lx.feedSource source).1.tokens.toList
          <+: (lx.feedSourceRecovering source).1.tokens.toList
        ∧ (lx.feedSource source).1.diagnostics.toList
          <+: (lx.feedSourceRecovering source).1.diagnostics.toList)
    ∧ (lx.state = .start →
      ((lx.feedSourceRecovering source).2.map (·.position.line)).Pairwise (· < ·)
        ∧ ∀ error ∈ (lx.feedSourceRecovering source).2,
          0 < error.position.line ∧ error.position.line ≤ (Text.lines source).length) := by
  refine ⟨feedSourceRecovering_of_ok, fun error herror => ?_, fun hstart => ?_⟩
  · obtain ⟨hhead, hextends⟩ := feedSourceRecovering_of_error herror
    exact ⟨hhead, hextends.tokens, hextends.diagnostics⟩
  · rw [feedSourceRecovering_finish]
    have hfresh : lx.Ordered 0 (#[] : Array LexError).toList :=
      ⟨h.rests, .nil, List.forall_mem_nil _, by rw [h.pending_eq hstart]; nofun⟩
    have hordered := (Ordered.feedAllLines (Text.lines source) hfresh (by omega)).finish
    rw [Nat.zero_add] at hordered
    exact ⟨hordered.increasing, hordered.within⟩

/-- A source with two lines that fail and a comment that is still open at its end; and one that is
read without an error. -/
theorem feedSource_refines_errors :
    let lx := ({ settings := { carryComments := true } } : Lexer).run [.feed "x" 1]
    let source := "a 'b\nc\n\"d\n/* e\nf"
    let error : LexError := .terminal (Fault.openChar.diagnostic ⟨1, 2⟩)
    (lx.Reachable ∧ lx.state = .start)
      ∧ ((Text.lines source).length < lineLimit ∧ (lx.feedSource source).2 = .error error
        ∧ (lx.feedSourceRecovering source).2.head? = some error
        ∧ ((lx.feedSourceRecovering source).2.map (·.position.line)).Pairwise (· < ·))
      ∧ (Text.lines "a\nb").length < lineLimit ∧ (lx.feedSource "a\nb").2 = .ok ()
        ∧ lx.feedSourceRecovering "a\nb" = ((lx.feedSource "a\nb").1, []) := by
  intro lx source error
  have hreach : lx.Reachable := ⟨_, [.feed "x" 1], rfl⟩
  have hstart : lx.state = .start := by decide +kernel
  have hlines : (Text.lines source).length < lineLimit := by decide +kernel
  have hlines' : (Text.lines "a\nb").length < lineLimit := by decide +kernel
  have herror : (lx.feedSource source).2 = .error error := by decide +kernel
  have hok : (lx.feedSource "a\nb").2 = .ok () := by decide +kernel
  obtain ⟨-, hfails, hordered⟩ := feedSource_refines hreach source hlines
  obtain ⟨hsame, -, -⟩ := feedSource_refines hreach "a\nb" hlines'
  exact ⟨⟨hreach, hstart⟩, ⟨hlines, herror, (hfails error herror).1, (hordered hstart).1⟩,
    hlines', hok, hsame hok⟩

end Lexer

/-! ## The places of the errors -/

/-- A place on a line of at most `n` characters, whose number the machine holds. -/
def Position.Within (n : Nat) (p : Position) : Prop := p.line < lineLimit ∧ p.column < n

theorem lineNumber_lt (k : Nat) : lineNumber k < lineLimit := by
  unfold lineNumber lineLimit
  omega

namespace Lexer

section Within

variable {lx : Lexer} {n : Nat}

/-- Nothing is pending, or a comment that was opened at such a place. -/
structure OpensWithin (n : Nat) (lx : Lexer) : Prop where
  rests : ∃ b, lx.pending.Rests lx.settings.carryComments b
  opened : ∀ o, lx.pending.opened = some o → o.Within n

theorem OpensWithin.feed (h : lx.OpensWithin n) {text : String} {line : Nat}
    (htext : text.toList.length ≤ n) (hline : line < lineLimit) :
    (lx.feed text line).1.OpensWithin n
      ∧ ∀ error, (lx.feed text line).2 = .error error → error.position.Within n := by
  obtain ⟨b, hrests⟩ := h.rests
  obtain ⟨herror, hopened⟩ := feed_opened hrests text line
  refine ⟨⟨?_, fun o ho => ?_⟩, fun error he => ?_⟩
  · rw [feed_settings]
    exact ⟨_, call_rests hrests (.feed text line)⟩
  · rcases hopened o ho with ⟨rfl, hlt⟩ | hbefore
    · exact ⟨hline, Nat.lt_of_lt_of_le hlt htext⟩
    · exact h.opened o hbefore
  · obtain ⟨rfl, hlt, -⟩ := herror error he
    exact ⟨hline, Nat.lt_of_lt_of_le hlt htext⟩

theorem OpensWithin.feedLines {ls : List String} (hls : ∀ l ∈ ls, l.toList.length ≤ n) :
    ∀ {lx : Lexer} (k : Nat), lx.OpensWithin n →
      (lx.feedLines k ls).1.OpensWithin n
        ∧ ∀ error, (lx.feedLines k ls).2 = .error error → error.position.Within n := by
  induction ls with
  | nil => exact fun k h => ⟨h, nofun⟩
  | cons l ls ih =>
      intro lx k h
      obtain ⟨hl, hls⟩ := List.forall_mem_cons.mp hls
      obtain ⟨hnext, herror⟩ := h.feed hl (lineNumber_lt k)
      unfold Lexer.feedLines
      split
      · next ly e hfeed =>
        rw [hfeed] at hnext herror
        exact ⟨hnext, herror⟩
      · next ly hfeed =>
        rw [hfeed] at hnext
        exact ih hls (k + 1) hnext

theorem OpensWithin.finish (h : lx.OpensWithin n) :
    ∀ error, lx.finish.2 = .error error → error.position.Within n := by
  obtain ⟨b, hrests⟩ := h.rests
  rcases finish_cases hrests with heq | ⟨o, ho, -, heq⟩
  · rw [heq]
    exact nofun
  · rw [heq]
    intro error herror
    cases herror
    exact h.opened o ho

/-- An error names a place in the source. -/
theorem feedSource_within (settings : LexicalSettings) (source : String) :
    ∀ error, (({ settings } : Lexer).feedSource source).2 = .error error →
      error.position.Within source.toList.length := by
  have hfresh : ({ settings } : Lexer).OpensWithin source.toList.length := ⟨⟨0, .inl rfl⟩, nofun⟩
  obtain ⟨hend, herror⟩ := OpensWithin.feedLines (lines_splitsInto source).length_le 0 hfresh
  unfold feedSource
  split
  · next heq =>
    rw [heq] at herror
    exact herror
  · next heq =>
    rw [heq] at hend
    exact hend.finish

end Within

end Lexer

end ContractLex
