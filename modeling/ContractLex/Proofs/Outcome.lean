import ContractLex.Proofs.Stance
import Mathlib.Tactic.Tauto

/-!
# What a dispatch can do

`Outcome` is the inversion of `dispatch`: where the scanner stands as `Pending.Stands` says, a move
is one of ten things, and each comes with what is then known about the characters absorbed so far.
`dispatch_outcome` goes through the 27 states once; everything that is proved about a step
afterwards distinguishes outcomes and opens no handler again.
-/

namespace ContractLex

open Spelling

/-- Faults that give a token up: skipping begins, and the text goes on. -/
def Fault.IsRejection (f : Fault) : Prop :=
  f.kind.isTerminal = false ∧ f.kind ≠ .malformedOperator ∧ f.kind ≠ .lineBreakInLiteral

/-- The tokens of a word with a dash that is no keyword: what stands before the dash, the dash, and
what stands after it, if anything does. -/
def splitWord (line start : Nat) (a b : List Char) : List Token :=
  let dash := start + a.length
  ⟨.identifier, String.ofList a, line, start, dash⟩
    :: ⟨.operator .minus, "-", line, dash, dash + 1⟩
    :: if b = [] then []
      else [⟨.identifier, String.ofList b, line, dash + 1, dash + 1 + b.length⟩]

/-- What dispatching `c` at column `i` can do to `p`, which began at `start`. -/
inductive Outcome (text : List Char) (line i : Nat) (c : Char) (p : Pending) (start : Nat) :
    Move → Prop
  /-- A blank is passed over. -/
  | blank {b} : start = i → delimiter? c = some (.blank b) → Outcome text line i c p start (.use {})
  /-- The token or comment under way takes `c` in. -/
  | goOn (st : State) {l} : st.isIdle = false →
      st.Holds none (stretch text start i ++ [c]) l.toList →
      Outcome text line i c p start (.use (.under st l line start))
  /-- A literal takes a line break in, and the fault is reported. -/
  | lineBreak (st : State) {l} : st.isIdle = false → isLineBreak c = true →
      st.Holds none (stretch text start i ++ [c]) l.toList →
      Outcome text line i c p start
        (.use (.under st l line start) [.fault p.state (Fault.lineBreak.diagnostic ⟨line, i⟩)])
  /-- `c` is for another state, and nothing is reported. -/
  | pass (st : State) : st.Holds (some c) (stretch text start i) p.lexeme.toList →
      Outcome text line i c p start
        (.handOn ⟨st, p.lexeme, if st.isIdle then none else some ⟨line, start⟩, p.lexeme.size⟩)
  /-- The token ends with `c`, and no longer operator begins with it. -/
  | close {k t q} : k.Reads (stretch text start i ++ [c]) t → k ≠ .identifier → k ≠ .unknown →
      q = {} ∨ k = .literal .float ∧ q = { state := .expectDelimiter } →
      (∀ o, k = .operator o → extensions (stretch text start i ++ [c]) = []) →
      Outcome text line i c p start (.use q [.token ⟨k, String.ofList t, line, start, i + 1⟩])
  /-- The token has ended before `c`, which does not go on with it. -/
  | closeBefore {k t} : k.Reads (stretch text start i) t → k ≠ .unknown →
      (k = .identifier → ¬ IsReserved (String.ofList t)) →
      (∀ o, k = .operator o → c ∉ extensions (stretch text start i)) →
      (k = .identifier → isDashPrefix (String.ofList t) = true → c ≠ '-') →
      Outcome text line i c p start (.handOn {} [.token ⟨k, String.ofList t, line, start, i⟩])
  /-- A word with a dash has ended before `c`, and it is no keyword. -/
  | split {a b} : stretch text start i = a ++ '-' :: b → isDashPrefix (String.ofList a) = true →
      b = [] ∨ IsWord b → (b = [] → isWordStart c = false) →
      Outcome text line i c p start (.handOn {} ((splitWord line start a b).map .token))
  /-- The comment ends with `c`. -/
  | comment : IsComment (stretch text start i ++ [c]) →
      Outcome text line i c p start (.use {} [.comment])
  /-- The token is given up. -/
  | reject {f : Fault} : f.IsRejection → p.state ≠ .invalid → p.state ≠ .delimiter →
      (stretch text start i = [] → isDelimiter c = false) →
      Outcome text line i c p start
        (.handOn (.under .invalid p.lexeme line start)
          [.fault p.state (f.diagnostic ⟨line, i⟩)])
  /-- A delimiter ends what has been skipped. -/
  | skip : isDelimiter c = true → stretch text start i ≠ [] → p.state = .invalid →
      Outcome text line i c p start
        (.handOn { state := .delimiter }
          [.token ⟨.unknown, String.ofList (stretch text start i), line, start, i⟩])

/-! ## Tables -/

theorem delimiter?_eq_some {c : Char} {k : Kind} (h : delimiter? c = some k) :
    (∃ b, k = .blank b) ∨ ∃ d, k = .delimiter d := by
  unfold delimiter? at h
  split at h <;> cases h
  all_goals first | exact Or.inl ⟨_, rfl⟩ | exact Or.inr ⟨_, rfl⟩

theorem mem_of_isOperatorChar {c : Char} (h : isOperatorChar c = true) :
    c ∈ ['=', '+', '-', '*', '/', '%', '.', '<', '>', '&', '|', '^', '!'] := by
  unfold isOperatorChar single? at h
  split at h <;> first | decide | exact absurd h (by decide)

theorem reads_single {c : Char} {o : Operator} (h : single? c = some o) :
    (Kind.operator o).Reads [c] [c] :=
  ⟨by rw [← String.singleton_eq_ofList]; exact spelling_of_single? h, rfl⟩

theorem reads_assigned {c : Char} {o : Operator} (h : assigned? c = some o) :
    (Kind.operator o).Reads [c, '='] [c, '='] :=
  ⟨spelling_of_assigned? h, rfl⟩

theorem extensions_of_assigned? {c : Char} {o : Operator} (h : assigned? c = some o) :
    extensions [c, '='] = [] := by
  unfold assigned? at h
  split at h <;> first | decide | contradiction

/-- Operator characters that nothing but an equals sign extends. -/
theorem not_mem_extensions_single {o c : Char} (ho : o ∈ ['=', '*', '%', '.', '/'])
    (hc : c = '=' → assigned? o = none) : c ∉ extensions [o] := by
  simp only [List.mem_cons, List.not_mem_nil, or_false] at ho
  rcases ho with rfl | rfl | rfl | rfl | rfl
  case inr.inr.inr.inl => exact List.not_mem_nil
  all_goals exact fun hmem => nomatch hc (List.mem_singleton.mp hmem)

theorem eq_of_isDashPrefix {word : String} (h : isDashPrefix word = true) :
    word = "init" ∨ word = "auto" := by
  simpa [isDashPrefix, dashPrefixes] using h

theorem not_reserved_of_isDashPrefix {word : String} (h : isDashPrefix word = true) :
    ¬ IsReserved word := by
  unfold IsReserved
  rcases eq_of_isDashPrefix h with rfl | rfl <;> decide

theorem isWord_of_isDashPrefix {a : List Char} (h : isDashPrefix (String.ofList a) = true) :
    IsWord a := by
  have ha : a = (String.ofList a).toList := by simp
  rcases eq_of_isDashPrefix h with heq | heq <;> rw [ha, heq]
  · exact ⟨'i', ['n', 'i', 't'], rfl, rfl, List.all_eq_true.mp rfl⟩
  · exact ⟨'a', ['u', 't', 'o'], rfl, rfl, List.all_eq_true.mp rfl⟩

/-! ## State by state

A state in which a token is under way is taken at `Pending.under`, so that what it knows is there by
computation. -/

section Handlers

variable {text : List Char} {line i start : Nat} {c : Char} {st : State} {l : Array Char}

/-- Giving a token up is an outcome of every state but the two after it. -/
theorem outcome_reject (h : Pending.Stands text line i (some c) (.under st l line start) start)
    {f : Fault} (hf : f.IsRejection) (hinv : st ≠ .invalid) (hdel : st ≠ .delimiter)
    (hc : stretch text start i = [] → isDelimiter c = false) :
    Outcome text line i c (.under st l line start) start
      ((Pending.under st l line start).reject ⟨text.toArray, line, i⟩ f) := by
  rw [reject_eq f h]
  exact .reject hf hinv hdel hc

/-- For `c`, the lexeme takes `d` in. -/
theorem outcome_push (st' : State) {d : Char} (hst : st'.isIdle = false)
    (hh : st'.Holds none (stretch text start i ++ [c]) (l.push d).toList) :
    Outcome text line i c (.under st l line start) start
      (.use (((Pending.under st l line start).push d).goto st')) := by
  rw [under_push]
  exact .goOn st' hst hh

theorem outcome_closeWith {k : Kind}
    (hk : k.Reads (stretch text start i ++ [c]) (l.toList ++ [c]))
    (hid : k ≠ .identifier) (hun : k ≠ .unknown)
    (hext : ∀ o, k = .operator o → extensions (stretch text start i ++ [c]) = []) :
    Outcome text line i c (.under st l line start) start
      ((Pending.under st l line start).closeWith ⟨text.toArray, line, i⟩ c k) := by
  have htoken : (Pending.under st (l.push c) line start).token ⟨text.toArray, line, i⟩ k (i + 1) =
      .token ⟨k, String.ofList (l.push c).toList, line, start, i + 1⟩ := token_eq rfl
  rw [Pending.closeWith, under_push, htoken]
  exact .close (by simpa using hk) hid hun (Or.inl rfl) hext

theorem outcome_closeBefore {k : Kind} (hk : k.Reads (stretch text start i) l.toList)
    (hun : k ≠ .unknown) (hid : k = .identifier → ¬ IsReserved (String.ofList l.toList))
    (hext : ∀ o, k = .operator o → c ∉ extensions (stretch text start i))
    (hdash : k = .identifier → isDashPrefix (String.ofList l.toList) = true → c ≠ '-') :
    Outcome text line i c (.under st l line start) start
      ((Pending.under st l line start).closeBefore ⟨text.toArray, line, i⟩ k) := by
  rw [Pending.closeBefore, token_eq rfl]
  exact .closeBefore hk hun hid hext hdash

theorem firstOperator_eq (st : State) (text : List Char) (line i start stop : Nat) {o : Char}
    (hl : l.toList = [o]) (ho : isOperatorChar o = true) :
    ∃ op, (Kind.operator op).Reads [o] [o]
      ∧ (Pending.under st l line start).firstOperator ⟨text.toArray, line, i⟩ stop =
        [.token ⟨.operator op, String.ofList [o], line, start, stop⟩] := by
  obtain ⟨op, hop⟩ := Option.isSome_iff_exists.mp ho
  have hfirst : l[0]? = some o := by
    rw [← Array.getElem?_toList, hl]
    rfl
  refine ⟨op, reads_single hop, ?_⟩
  rw [Pending.firstOperator, hfirst, Option.bind_some, hop]
  dsimp only
  rw [token_eq rfl, hl]

/-- An operator character that stands alone. -/
theorem outcome_closeOperator {o : Char} (hl : l.toList = stretch text start i)
    (hw : stretch text start i = [o]) (ho : isOperatorChar o = true) (hext : c ∉ extensions [o]) :
    Outcome text line i c (.under st l line start) start
      ((Pending.under st l line start).closeOperator ⟨text.toArray, line, i⟩) := by
  obtain ⟨op, hreads, heq⟩ := firstOperator_eq st text line i start i (hl.trans hw) ho
  rw [Pending.closeOperator, heq]
  exact .closeBefore (by rwa [hw]) nofun nofun (fun _ _ => by rwa [hw]) nofun

/-! ### Between tokens -/

theorem outcome_onStart (h : Pending.Stands text line i (some c) {} start) :
    Outcome text line i c {} start (onStart {} ⟨text.toArray, line, i⟩ c) := by
  obtain ⟨rfl, -⟩ := h.idle rfl
  have hw : stretch text start start = [] := stretch_self text start
  unfold onStart
  split
  · next hd => exact .pass .delimiter ⟨hw, rfl, c, rfl, hd⟩
  · next hd =>
    dsimp only [Site.position]
    split
    · next hc => exact .pass .identifier ⟨hw.symm, Or.inr ⟨hw, c, rfl, hc⟩⟩
    · split
      · next hc => exact .pass .number ⟨hw.symm, Or.inr ⟨hw, c, rfl, hc⟩⟩
      · split
        · next hc => exact .pass .operator ⟨hw, rfl, c, rfl, hc⟩
        · split
          · next hc => exact .goOn .charOpen rfl ⟨by rw [hw, hc]; rfl, rfl⟩
          · split
            · next hc => exact .goOn .stringOpen rfl ⟨by rw [hw, hc]; rfl, rfl⟩
            · exact .reject (f := .unrecognized) ⟨rfl, nofun, nofun⟩ nofun nofun
                fun _ => by simpa using hd

theorem outcome_onDelimiter
    (h : Pending.Stands text line i (some c) { state := .delimiter } start) :
    Outcome text line i c { state := .delimiter } start
      (onDelimiter { state := .delimiter } ⟨text.toArray, line, i⟩ c) := by
  obtain ⟨rfl, -⟩ := h.idle rfl
  obtain ⟨-, -, d, hd, hdel⟩ := h.holds
  cases hd
  obtain ⟨k, hk⟩ := Option.isSome_iff_exists.mp hdel
  unfold onDelimiter
  rw [hk]
  dsimp only
  rcases delimiter?_eq_some hk with ⟨b, rfl⟩ | ⟨d, rfl⟩
  · exact .blank rfl hk
  · have hemit : (Kind.delimiter d).isEmitted = true := rfl
    rw [if_pos hemit]
    exact .close (k := .delimiter d) (t := [c]) ⟨c, hk, by simp, by simp⟩ nofun nofun (Or.inl rfl)
      nofun

theorem outcome_onExpectDelimiter
    (h : Pending.Stands text line i (some c) { state := .expectDelimiter } start) :
    Outcome text line i c { state := .expectDelimiter } start
      (onExpectDelimiter { state := .expectDelimiter } ⟨text.toArray, line, i⟩ c) := by
  obtain ⟨rfl, -⟩ := h.idle rfl
  unfold onExpectDelimiter
  split
  · next hd => exact .pass .delimiter ⟨stretch_self text start, rfl, c, rfl, hd⟩
  · next hd =>
    exact .reject (f := .floatSuffix) ⟨rfl, nofun, nofun⟩ nofun nofun fun _ => by simpa using hd

theorem outcome_onInvalid
    (h : Pending.Stands text line i (some c) (.under .invalid l line start) start) :
    Outcome text line i c (.under .invalid l line start) start
      (onInvalid (.under .invalid l line start) ⟨text.toArray, line, i⟩ c) := by
  obtain ⟨hlen, hw⟩ := h.holds
  unfold onInvalid
  split
  · next hd =>
    rw [skipped_eq rfl h.start_le h.le_length]
    refine .skip hd (fun hnil => ?_) rfl
    obtain ⟨d, hd', hdel⟩ := hw hnil
    cases hd'
    simp [hd] at hdel
  · refine .goOn .invalid rfl ⟨?_, by simp⟩
    simp only [List.length_append, List.length_singleton]
    exact Nat.le_succ_of_le hlen

/-! ### Words -/

theorem wordKind_ne_operator (p : Pending) (o : Operator) : p.wordKind ≠ .operator o := by
  unfold Pending.wordKind
  split
  · exact nofun
  · split <;> exact nofun

theorem wordKind_ne_unknown (p : Pending) : p.wordKind ≠ .unknown := by
  unfold Pending.wordKind
  split
  · exact nofun
  · split <;> exact nofun

/-- A word without a dash is a keyword, a boolean literal or a name. -/
theorem wordKind_reads (st : State) (line start : Nat) {w : List Char} (hw : IsWord w)
    (hl : l.toList = w) :
    (Pending.under st l line start).wordKind.Reads w l.toList
      ∧ (Pending.under st l line start).wordKind ≠ .unknown
      ∧ ((Pending.under st l line start).wordKind = .identifier →
        ¬ IsReserved (String.ofList l.toList)) := by
  have hword : (Pending.under st l line start).word = String.ofList w := by rw [← hl]; rfl
  unfold Pending.wordKind
  rw [hword]
  split
  · next k hk => exact ⟨⟨hk, hl⟩, nofun, nofun⟩
  · next hk =>
    split
    · next hb => exact ⟨⟨hb, hl⟩, nofun, nofun⟩
    · next hb => exact ⟨⟨hw, hl⟩, nofun, fun _ => by simp [IsReserved, hl, hk, hb]⟩

theorem outcome_onIdentifier
    (h : Pending.Stands text line i (some c) (.under .identifier l line start) start) :
    Outcome text line i c (.under .identifier l line start) start
      (onIdentifier (.under .identifier l line start) ⟨text.toArray, line, i⟩ c) := by
  obtain ⟨hl, hw⟩ := h.holds
  unfold onIdentifier
  split
  · next hc =>
    rw [under_push]
    refine .goOn .identifier rfl ⟨by simpa using hl, Or.inl ?_⟩
    rcases hw with hw | ⟨hw, d, hd, hstart⟩
    · exact hw.concat hc
    · cases hd
      rw [hw]
      exact isWord_singleton hstart
  · next hc =>
    have hword : IsWord (stretch text start i) := by
      rcases hw with hw | ⟨-, d, hd, hstart⟩
      · exact hw
      · cases hd
        exact absurd (isWordChar_of_isWordStart hstart) hc
    split
    · next hdash =>
      obtain ⟨rfl, hpre⟩ := hdash
      exact outcome_push .identifierDash rfl
        ⟨by simpa using hl, stretch text start i, [], by rw [← hl]; exact hpre, Or.inl rfl, rfl⟩
    · next hdash =>
      obtain ⟨hreads, hun, hid⟩ := wordKind_reads .identifier line start hword hl
      exact outcome_closeBefore hreads hun hid (fun o ho => absurd ho (wordKind_ne_operator _ o))
        fun _ hpre hc => hdash ⟨hc, hpre⟩

/-- A word with a dash is a keyword, or it is cut at its first dash. -/
theorem dashed_cases (st : State) (line : Nat) {a b : List Char}
    (hw : stretch text start i = a ++ '-' :: b) (hi : start + (stretch text start i).length = i)
    (ha : isDashPrefix (String.ofList a) = true) (hl : l.toList = stretch text start i) :
    (∃ k, (Kind.keyword k).Reads (stretch text start i) l.toList
      ∧ (Pending.under st l line start).dashed ⟨text.toArray, line, i⟩ i =
        [.token ⟨.keyword k, String.ofList l.toList, line, start, i⟩])
    ∨ (Pending.under st l line start).dashed ⟨text.toArray, line, i⟩ i =
        (splitWord line start a b).map .token := by
  have hword := isWord_of_isDashPrefix ha
  have hchars : ∀ d ∈ a, (d != '-') = true := fun d hd => by
    have hne : d ≠ '-' := fun heq => hword.dash_not_mem (heq ▸ hd)
    simpa using hne
  have hleft : l.toList.takeWhile (· != '-') = a := by
    rw [hl, hw, List.takeWhile_append_of_pos hchars]
    simp
  have hright : (l.toList.dropWhile (· != '-')).drop 1 = b := by
    rw [hl, hw, List.dropWhile_append_of_pos hchars]
    simp
  have hcontains : l.contains '-' = true := by
    rw [Array.contains_iff_mem, ← Array.mem_toList_iff, hl, hw]
    simp
  have hstart : i - l.size = start := by
    rw [← Array.length_toList, hl]
    omega
  have hstop : start + a.length + 1 + b.length = i := by
    simp only [hw, List.length_append, List.length_cons] at hi
    omega
  unfold Pending.dashed
  split
  · next k hk =>
    refine Or.inl ⟨k, ⟨?_, hl⟩, by rw [token_eq rfl]⟩
    rw [← hl]
    exact hk
  · right
    simp only [hcontains, if_true, hstart, hleft, hright]
    by_cases hb : b = []
    · simp [splitWord, hb, hword.ne_nil]
    · simp [splitWord, hb, hword.ne_nil, hstop]

theorem outcome_onIdentifierDash
    (h : Pending.Stands text line i (some c) (.under .identifierDash l line start) start) :
    Outcome text line i c (.under .identifierDash l line start) start
      (onIdentifierDash (.under .identifierDash l line start) ⟨text.toArray, line, i⟩ c) := by
  obtain ⟨hl, a, b, ha, hb, hw⟩ := h.holds
  have hback : l.back? = (a ++ '-' :: b).getLast? := by
    rw [← hw, ← hl, Array.getLast?_toList]
  -- directly after the dash a word begins, later it goes on
  have hgo : (if l.back? = some '-' then isWordStart c else isWordChar c) = true →
      IsWord (b ++ [c]) := by
    intro hc
    rcases hb with rfl | hb
    · rw [hback] at hc
      simp at hc
      exact isWord_singleton hc
    · have hlast : l.back? ≠ some '-' := by
        rw [hback]
        obtain ⟨d, v, rfl, -⟩ := id hb
        intro hlast
        refine hb.dash_not_mem (List.mem_of_getLast? ?_)
        simpa [List.getLast?_append, List.getLast?_cons] using hlast
      rw [if_neg hlast] at hc
      exact hb.concat hc
  by_cases hc : (if l.back? = some '-' then isWordStart c else isWordChar c) = true
  · rw [onIdentifierDash, if_pos hc, under_push]
    refine .goOn .identifierDash rfl ⟨by simpa using hl, a, b ++ [c], ha, Or.inr (hgo hc), ?_⟩
    rw [hw, List.append_assoc, List.cons_append]
  · rw [onIdentifierDash, if_neg hc]
    have hi : start + (stretch text start i).length = i := by
      have := h.start_le
      rw [h.length_stretch]
      omega
    rcases dashed_cases .identifierDash line hw hi ha hl with ⟨k, hk, heq⟩ | heq
    · rw [heq]
      exact .closeBefore hk (fun h => Kind.noConfusion h) (fun h => Kind.noConfusion h)
        (fun _ h => Kind.noConfusion h) fun h => Kind.noConfusion h
    · rw [heq]
      refine .split hw ha hb fun hnil => ?_
      have hdash : l.back? = some '-' := by simp [hback, hnil]
      simpa [hdash] using hc

/-! ### Numbers -/

theorem outcome_onNumber
    (h : Pending.Stands text line i (some c) (.under .number l line start) start) :
    Outcome text line i c (.under .number l line start) start
      (onNumber (.under .number l line start) ⟨text.toArray, line, i⟩ c) := by
  obtain ⟨hl, hw⟩ := h.holds
  have hnil : AllDigits [] := fun d hd => absurd hd List.not_mem_nil
  unfold onNumber
  split
  · next hc =>
    rw [under_push]
    refine .goOn .number rfl ⟨by simpa using hl, Or.inl (IsNumeral.concat ?_ hc)⟩
    rcases hw with hw | ⟨hw, -⟩
    · exact hw.2
    · rw [hw]
      exact hnil
  · next hc =>
    have hnum : IsNumeral (stretch text start i) := by
      rcases hw with hw | ⟨-, d, hd, hdigit⟩
      · exact hw
      · cases hd
        exact absurd hdigit hc
    split
    · next hdot =>
      exact outcome_push .decimal rfl ⟨by simpa using hl, _, [], hnum, hnil, by rw [hdot]⟩
    · split
      · exact outcome_closeBefore (k := .literal .int) ⟨hnum, hl⟩ nofun nofun nofun nofun
      · exact outcome_reject h ⟨rfl, nofun, nofun⟩ nofun nofun fun hw => absurd hw hnum.1

theorem outcome_onDecimal
    (h : Pending.Stands text line i (some c) (.under .decimal l line start) start) :
    Outcome text line i c (.under .decimal l line start) start
      (onDecimal (.under .decimal l line start) ⟨text.toArray, line, i⟩ c) := by
  obtain ⟨hl, hw⟩ := h.holds
  have hne : stretch text start i = [] → isDelimiter c = false := fun hnil => by
    obtain ⟨a, b, -, -, hab⟩ := hw
    simp [hnil] at hab
  unfold onDecimal
  split
  · next hc =>
    rw [under_push]
    exact .goOn .decimal rfl ⟨by simpa using hl, hw.concat hc⟩
  · split
    · next hf => exact .pass .float ⟨hl, hw, by rw [hf]⟩
    · split
      · split
        · exact outcome_reject h ⟨rfl, nofun, nofun⟩ nofun nofun hne
        · next hback =>
          rw [← Array.getLast?_toList, hl] at hback
          exact outcome_closeBefore (k := .literal .double) ⟨hw.fraction hback, hl⟩ nofun nofun
            nofun nofun
      · exact outcome_reject h ⟨rfl, nofun, nofun⟩ nofun nofun hne

theorem outcome_onFloat
    (h : Pending.Stands text line i (some c) (.under .float l line start) start) :
    Outcome text line i c (.under .float l line start) start
      (onFloat (.under .float l line start) ⟨text.toArray, line, i⟩ c) := by
  obtain ⟨hl, hw, hc⟩ := h.holds
  cases hc
  have htoken : (Pending.under .float (l.push 'f') line start).token ⟨text.toArray, line, i⟩
        (.literal .float) (i + 1) =
      .token ⟨.literal .float, String.ofList (l.push 'f').toList, line, start, i + 1⟩ :=
    token_eq rfl
  rw [onFloat, under_push, htoken]
  exact .close (k := .literal .float) ⟨⟨_, hw, rfl⟩, by simpa using hl⟩ nofun nofun
    (Or.inr ⟨rfl, rfl⟩) nofun

/-! ### Literals in quotes -/

/-- A character of a literal's content as it stands. -/
theorem outcome_content (st : State) {p : Pending} (hst : st.isIdle = false)
    (hh : st.Holds none (stretch text start i ++ [c]) l.toList) :
    Outcome text line i c p start
      (.use (.under st l line start) (lineBreakFault p ⟨text.toArray, line, i⟩ c)) := by
  unfold lineBreakFault
  split
  · next hc => exact .lineBreak st hst hc hh
  · exact .goOn st hst hh

theorem outcome_onCharOpen
    (h : Pending.Stands text line i (some c) (.under .charOpen l line start) start) :
    Outcome text line i c (.under .charOpen l line start) start
      (onCharOpen (.under .charOpen l line start) ⟨text.toArray, line, i⟩ c) := by
  obtain ⟨hw, hl⟩ := h.holds
  unfold onCharOpen
  split
  · next hc => exact .goOn .charEscape rfl ⟨by rw [hw, hc]; rfl, hl⟩
  · next hc =>
    split
    · exact outcome_reject h ⟨rfl, nofun, nofun⟩ nofun nofun fun hnil => by simp [hw] at hnil
    · next hq =>
      dsimp only
      rw [under_push]
      exact outcome_content .charClose rfl
        ⟨[c], c, .raw hq hc, by rw [hw]; rfl, by simpa using hl⟩

theorem outcome_onCharEscape
    (h : Pending.Stands text line i (some c) (.under .charEscape l line start) start) :
    Outcome text line i c (.under .charEscape l line start) start
      (onCharEscape (.under .charEscape l line start) ⟨text.toArray, line, i⟩ c) := by
  obtain ⟨hw, hl⟩ := h.holds
  unfold onCharEscape
  split
  · next d hd =>
    exact outcome_push .charClose rfl
      ⟨['\\', c], d, .escaped hd, by rw [hw]; rfl, by simpa using hl⟩
  · exact outcome_reject h ⟨rfl, nofun, nofun⟩ nofun nofun fun hnil => by simp [hw] at hnil

theorem outcome_onCharClose
    (h : Pending.Stands text line i (some c) (.under .charClose l line start) start) :
    Outcome text line i c (.under .charClose l line start) start
      (onCharClose (.under .charClose l line start) ⟨text.toArray, line, i⟩ c) := by
  obtain ⟨u, d, hu, hw, hl⟩ := h.holds
  unfold onCharClose
  split
  · next hc =>
    rw [token_eq rfl]
    exact .close (k := .literal .char) ⟨u, d, hu, by rw [hw, hc], hl⟩ nofun nofun (Or.inl rfl)
      nofun
  · exact outcome_reject h ⟨rfl, nofun, nofun⟩ nofun nofun fun hnil => by simp [hw] at hnil

/-- Both states of a string literal between two units: directly after the quote, and later. -/
theorem outcome_onString {body : List Char} (hbody : Content '"' body l.toList)
    (hw : stretch text start i = '"' :: body) :
    Outcome text line i c (.under st l line start) start
      (onString (.under st l line start) ⟨text.toArray, line, i⟩ c) := by
  unfold onString
  split
  · next hc =>
    rw [token_eq rfl]
    exact .close (k := .literal .string) ⟨body, hbody, by rw [hw, hc]⟩ nofun nofun (Or.inl rfl)
      nofun
  · next hq =>
    split
    · next hc => exact .goOn .stringEscape rfl ⟨body, hbody, by rw [hw, hc]⟩
    · next hc =>
      dsimp only
      rw [under_push]
      refine outcome_content .string rfl ⟨body ++ [c], ?_, by rw [hw]; rfl⟩
      simpa using hbody.concat (.raw hq hc)

theorem outcome_onStringEscape
    (h : Pending.Stands text line i (some c) (.under .stringEscape l line start) start) :
    Outcome text line i c (.under .stringEscape l line start) start
      (onStringEscape (.under .stringEscape l line start) ⟨text.toArray, line, i⟩ c) := by
  obtain ⟨body, hbody, hw⟩ := h.holds
  unfold onStringEscape
  split
  · next d hd =>
    refine outcome_push .string rfl ⟨body ++ ['\\', c], ?_, by simp [hw]⟩
    simpa using hbody.concat (.escaped hd)
  · exact outcome_reject h ⟨rfl, nofun, nofun⟩ nofun nofun fun hnil => by simp [hw] at hnil

/-! ### Operators -/

theorem outcome_onOperator
    (h : Pending.Stands text line i (some c) (.under .operator l line start) start) :
    Outcome text line i c (.under .operator l line start) start
      (onOperator (.under .operator l line start) ⟨text.toArray, line, i⟩ c) := by
  obtain ⟨hw, hl, d, hd, ho⟩ := h.holds
  cases hd
  have hpush : (l.push c).toList = stretch text start i ++ [c] := by simpa [hw] using hl
  have hone : stretch text start i ++ [c] = [c] := by rw [hw]; rfl
  unfold onOperator
  split
  · exact outcome_push .slash rfl ⟨hpush, hone⟩
  · exact outcome_push .minus rfl ⟨hpush, hone⟩
  · exact outcome_push .less rfl ⟨hpush, hone⟩
  · exact outcome_push .greater rfl ⟨hpush, hone⟩
  · exact outcome_push .logical rfl ⟨hpush, Or.inl hone⟩
  · exact outcome_push .logical rfl ⟨hpush, Or.inr hone⟩
  · exact outcome_push .doubling rfl ⟨hpush, Or.inl hone⟩
  · refine outcome_closeWith (k := .operator .bitXor) ?_ nofun nofun fun _ _ => by rw [hone]; rfl
    rw [hw, show l.toList = [] from hl]
    exact reads_single rfl
  · refine outcome_closeWith (k := .operator .not) ?_ nofun nofun fun _ _ => by rw [hone]; rfl
    rw [hw, show l.toList = [] from hl]
    exact reads_single rfl
  · refine outcome_push .beforeEquals rfl ⟨hpush, c, hone, Or.inl ?_⟩
    have hmem := mem_of_isOperatorChar ho
    simp only [List.mem_cons, List.not_mem_nil, or_false] at hmem ⊢
    tauto

/-- A compound operator ends with `c`. -/
theorem outcome_compound {o : Operator} {d : Char} (hl : l.toList = stretch text start i)
    (hw : stretch text start i = [d]) (ho : operator? (String.ofList [d, c]) = some o)
    (hext : extensions [d, c] = []) :
    Outcome text line i c (.under st l line start) start
      ((Pending.under st l line start).closeWith ⟨text.toArray, line, i⟩ c (.operator o)) := by
  refine outcome_closeWith ?_ nofun nofun fun _ _ => by rw [hw]; exact hext
  rw [hl, hw]
  exact ⟨ho, rfl⟩

theorem outcome_onBeforeEquals
    (h : Pending.Stands text line i (some c) (.under .beforeEquals l line start) start) :
    Outcome text line i c (.under .beforeEquals l line start) start
      (onBeforeEquals (.under .beforeEquals l line start) ⟨text.toArray, line, i⟩ c) := by
  obtain ⟨hl, o, hw, ho⟩ := h.holds
  have hmem : o ∈ ['=', '*', '%', '.', '+', '-', '/'] := by
    simp only [List.mem_cons, List.not_mem_nil, or_false] at ho ⊢
    tauto
  have hall : ∀ d ∈ ['=', '*', '%', '.', '+', '-', '/'], isOperatorChar d = true :=
    List.all_eq_true.mp rfl
  have hone : l = #[o] := by
    rw [← Array.toList_inj]
    exact hl.trans hw
  unfold onBeforeEquals
  rw [if_neg (by simp [hone])]
  split
  · next op hop =>
    split at hop
    · next hc =>
      subst hc
      simp only [hone] at hop
      have hassigned : assigned? o = some op := by simpa using hop
      exact outcome_compound hl hw (reads_assigned hassigned).1 (extensions_of_assigned? hassigned)
    · cases hop
  · next hop =>
    have hplain : c = '=' → assigned? o = none := fun hc => by simpa [hc, hone] using hop
    refine outcome_closeOperator hl hw (hall o hmem) (not_mem_extensions_single ?_ hplain)
    rcases ho with ho | ⟨ho, hc⟩ | ⟨ho, -⟩
    · exact List.mem_append_left ['/'] ho
    -- a plus sign or a dash waits here for its equals sign
    · have hnone := hplain (Option.some.inj hc)
      simp only [List.mem_cons, List.not_mem_nil, or_false] at ho
      rcases ho with rfl | rfl <;> cases hnone
    · rw [ho]
      decide

theorem outcome_onDoubling
    (h : Pending.Stands text line i (some c) (.under .doubling l line start) start) :
    Outcome text line i c (.under .doubling l line start) start
      (onDoubling (.under .doubling l line start) ⟨text.toArray, line, i⟩ c) := by
  obtain ⟨hl, hw⟩ := h.holds
  -- only a plus sign waits here; a dash comes with its second one
  have hone : ∃ o, stretch text start i = [o] ∧ l = #[o] ∧ (o = '+' ∨ o = '-' ∧ c = '-') := by
    rcases hw with hw | ⟨hw, hc⟩
    · exact ⟨'+', hw, by rw [← Array.toList_inj]; exact hl.trans hw, Or.inl rfl⟩
    · exact ⟨'-', hw, by rw [← Array.toList_inj]; exact hl.trans hw,
        Or.inr ⟨rfl, Option.some.inj hc⟩⟩
  obtain ⟨o, hw, rfl, ho⟩ := hone
  unfold onDoubling
  rw [if_neg (by simp)]
  split
  · next hc =>
    refine .pass .beforeEquals ⟨hl, o, hw, Or.inr (Or.inl ⟨?_, by rw [hc]⟩)⟩
    rcases ho with rfl | ⟨rfl, -⟩ <;> simp
  · next hne =>
    split
    · next h0 =>
      cases h0
      exact outcome_compound hl hw (by decide) (by decide)
    · next h0 =>
      cases h0
      exact outcome_compound hl hw (by decide) (by decide)
    · next hplus hminus =>
      rcases ho with rfl | ⟨rfl, rfl⟩
      · refine outcome_closeOperator hl hw (by decide) ?_
        simpa [show extensions ['+'] = ['+', '='] from rfl] using ⟨hplus rfl, hne⟩
      · exact absurd rfl (hminus rfl)

theorem outcome_onLogical
    (h : Pending.Stands text line i (some c) (.under .logical l line start) start) :
    Outcome text line i c (.under .logical l line start) start
      (onLogical (.under .logical l line start) ⟨text.toArray, line, i⟩ c) := by
  obtain ⟨hl, hw⟩ := h.holds
  have hone : ∃ o, stretch text start i = [o] ∧ l = #[o] ∧ isOperatorChar o = true
      ∧ (o = '&' ∨ o = '|') ∧ extensions [o] = [o] := by
    rcases hw with hw | hw
    · exact ⟨'&', hw, by rw [← Array.toList_inj]; exact hl.trans hw, rfl, Or.inl rfl, rfl⟩
    · exact ⟨'|', hw, by rw [← Array.toList_inj]; exact hl.trans hw, rfl, Or.inr rfl, rfl⟩
  obtain ⟨o, hw, rfl, ho, hcases, hext⟩ := hone
  unfold onLogical
  split
  · next h0 =>
    cases h0
    exact outcome_compound hl hw (by decide) (by decide)
  · next h0 =>
    cases h0
    exact outcome_compound hl hw (by decide) (by decide)
  · next hand hor =>
    refine outcome_closeOperator hl hw ho ?_
    rw [hext, List.mem_singleton]
    rintro rfl
    rcases hcases with rfl | rfl
    · exact hand rfl rfl
    · exact hor rfl rfl

theorem outcome_onMinus
    (h : Pending.Stands text line i (some c) (.under .minus l line start) start) :
    Outcome text line i c (.under .minus l line start) start
      (onMinus (.under .minus l line start) ⟨text.toArray, line, i⟩ c) := by
  obtain ⟨hl, hw⟩ := h.holds
  unfold onMinus
  split
  · exact .pass .doubling ⟨hl, Or.inr ⟨hw, rfl⟩⟩
  · exact .pass .beforeEquals ⟨hl, '-', hw, Or.inr (Or.inl ⟨by decide, rfl⟩)⟩
  · exact outcome_compound hl hw (by decide) (by decide)
  · next hminus hequals hgreater =>
    refine outcome_closeOperator hl hw (by decide) ?_
    simpa [show extensions ['-'] = ['-', '=', '>'] from rfl] using ⟨hminus, hequals, hgreater⟩

theorem outcome_onLess
    (h : Pending.Stands text line i (some c) (.under .less l line start) start) :
    Outcome text line i c (.under .less l line start) start
      (onLess (.under .less l line start) ⟨text.toArray, line, i⟩ c) := by
  obtain ⟨hl, hw⟩ := h.holds
  unfold onLess
  split
  · exact outcome_compound hl hw (by decide) (by decide)
  · exact outcome_compound hl hw (by decide) (by decide)
  · exact outcome_push .leftArrow rfl ⟨by simpa using hl, by rw [hw]; rfl⟩
  · next hequals hless hminus =>
    refine outcome_closeOperator hl hw (by decide) ?_
    simpa [show extensions ['<'] = ['=', '<', '-', '-'] from rfl] using ⟨hequals, hless, hminus⟩

theorem outcome_onGreater
    (h : Pending.Stands text line i (some c) (.under .greater l line start) start) :
    Outcome text line i c (.under .greater l line start) start
      (onGreater (.under .greater l line start) ⟨text.toArray, line, i⟩ c) := by
  obtain ⟨hl, hw⟩ := h.holds
  unfold onGreater
  split
  · exact outcome_compound hl hw (by decide) (by decide)
  · exact outcome_compound hl hw (by decide) (by decide)
  · next hequals hgreater =>
    refine outcome_closeOperator hl hw (by decide) ?_
    simpa [show extensions ['>'] = ['=', '>'] from rfl] using ⟨hequals, hgreater⟩

theorem outcome_onLeftArrow
    (h : Pending.Stands text line i (some c) (.under .leftArrow l line start) start) :
    Outcome text line i c (.under .leftArrow l line start) start
      (onLeftArrow (.under .leftArrow l line start) ⟨text.toArray, line, i⟩ c) := by
  obtain ⟨hl, hw⟩ := h.holds
  have hl : l.toList = stretch text start i := hl
  unfold onLeftArrow
  split
  · next hc =>
    refine outcome_closeWith (k := .operator .bothArrow) ?_ nofun nofun fun _ _ => by
      rw [hw, hc]; rfl
    rw [hl, hw, hc]
    exact ⟨by decide, rfl⟩
  · next hc =>
    have hext : c ∉ extensions ['<', '-'] := by
      simpa [show extensions ['<', '-'] = ['>'] from rfl] using hc
    refine outcome_closeBefore (k := .operator .leftArrow) ?_ nofun nofun
      (fun _ _ => by rwa [hw]) nofun
    rw [hl, hw]
    exact ⟨by decide, rfl⟩

/-! ### Comments -/

theorem outcome_onSlash
    (h : Pending.Stands text line i (some c) (.under .slash l line start) start) :
    Outcome text line i c (.under .slash l line start) start
      (onSlash (.under .slash l line start) ⟨text.toArray, line, i⟩ c) := by
  obtain ⟨hl, hw⟩ := h.holds
  unfold onSlash
  split
  · exact .goOn .lineComment rfl ⟨rfl, [], List.not_mem_nil, by rw [hw]; rfl⟩
  · exact .goOn .blockComment rfl
      ⟨rfl, [], by simp [IsOpen], by simp, by rw [hw]; rfl⟩
  · next hline hblock =>
    exact .pass .beforeEquals
      ⟨hl, '/', hw, Or.inr (Or.inr ⟨rfl, c, rfl, hline, hblock⟩)⟩

theorem outcome_onLineComment
    (h : Pending.Stands text line i (some c) (.under .lineComment l line start) start) :
    Outcome text line i c (.under .lineComment l line start) start
      (onLineComment (.under .lineComment l line start) ⟨text.toArray, line, i⟩ c) := by
  obtain ⟨hl, body, hbody, hw⟩ := h.holds
  unfold onLineComment
  split
  · next hc =>
    refine .comment ?_
    rw [hw, hc]
    exact .line hbody
  · next hc =>
    refine .goOn .lineComment rfl ⟨hl, body ++ [c], ?_, by rw [hw]; rfl⟩
    simp [hbody, Ne.symm hc]

theorem outcome_onBlockComment
    (h : Pending.Stands text line i (some c) (.under .blockComment l line start) start) :
    Outcome text line i c (.under .blockComment l line start) start
      (onBlockComment (.under .blockComment l line start) ⟨text.toArray, line, i⟩ c) := by
  obtain ⟨hl, body, hopen, hlast, hw⟩ := h.holds
  unfold onBlockComment
  split
  · next hc =>
    subst hc
    exact .goOn .blockCommentStar rfl
      ⟨hl, body, isOpen_concat hopen fun _ => hlast, by rw [hw]; rfl⟩
  · next hc =>
    exact .goOn .blockComment rfl
      ⟨hl, body ++ [c], isOpen_concat hopen fun _ => hlast, by simpa using hc, by rw [hw]; rfl⟩

theorem outcome_onBlockCommentStar
    (h : Pending.Stands text line i (some c) (.under .blockCommentStar l line start) start) :
    Outcome text line i c (.under .blockCommentStar l line start) start
      (onBlockCommentStar (.under .blockCommentStar l line start) ⟨text.toArray, line, i⟩ c) := by
  obtain ⟨hl, body, hopen, hw⟩ := h.holds
  unfold onBlockCommentStar
  split
  · next hc =>
    refine .comment ?_
    rw [hw, hc]
    simpa using IsComment.block hopen
  · next hslash =>
    have hnext : IsOpen (body ++ ['*'] ++ [c]) := isOpen_concat hopen fun hc => absurd hc hslash
    split
    · next hc =>
      subst hc
      exact .goOn .blockCommentStar rfl ⟨hl, body ++ ['*'], hnext, by rw [hw]; rfl⟩
    · next hstar =>
      exact .goOn .blockComment rfl
        ⟨hl, body ++ ['*'] ++ [c], hnext, by simpa using hstar, by rw [hw]; rfl⟩

end Handlers

/-- Every move is an outcome. -/
theorem dispatch_outcome {text : List Char} {line i start : Nat} {c : Char} {p : Pending}
    (h : p.Stands text line i (some c) start) :
    Outcome text line i c p start (dispatch p ⟨text.toArray, line, i⟩ c) := by
  obtain ⟨st, l, o, n⟩ := p
  have hopened : o = if st.isIdle then none else some ⟨line, start⟩ := h.opened
  have hlength : n = l.size := h.length_eq
  subst hopened hlength
  cases st
  case start =>
      obtain rfl : l = #[] := (h.idle rfl).2
      exact outcome_onStart h
  case delimiter =>
      obtain rfl : l = #[] := (h.idle rfl).2
      exact outcome_onDelimiter h
  case expectDelimiter =>
      obtain rfl : l = #[] := (h.idle rfl).2
      exact outcome_onExpectDelimiter h
  case stringOpen =>
      obtain ⟨hw, hl⟩ := h.holds
      exact outcome_onString (by rw [hl]; exact .nil) hw
  case string =>
      obtain ⟨body, hbody, hw⟩ := h.holds
      exact outcome_onString hbody hw
  case identifier => exact outcome_onIdentifier h
  case identifierDash => exact outcome_onIdentifierDash h
  case number => exact outcome_onNumber h
  case decimal => exact outcome_onDecimal h
  case float => exact outcome_onFloat h
  case charOpen => exact outcome_onCharOpen h
  case charEscape => exact outcome_onCharEscape h
  case charClose => exact outcome_onCharClose h
  case stringEscape => exact outcome_onStringEscape h
  case operator => exact outcome_onOperator h
  case beforeEquals => exact outcome_onBeforeEquals h
  case doubling => exact outcome_onDoubling h
  case logical => exact outcome_onLogical h
  case minus => exact outcome_onMinus h
  case less => exact outcome_onLess h
  case greater => exact outcome_onGreater h
  case leftArrow => exact outcome_onLeftArrow h
  case slash => exact outcome_onSlash h
  case lineComment => exact outcome_onLineComment h
  case blockComment => exact outcome_onBlockComment h
  case blockCommentStar => exact outcome_onBlockCommentStar h
  case invalid => exact outcome_onInvalid h

end ContractLex
