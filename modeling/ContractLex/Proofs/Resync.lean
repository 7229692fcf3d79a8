import ContractLex.Proofs.Prefix
import Mathlib.Data.List.Forall2

/-!
# Every rejection is answered by one unknown token

A fault that gives a token up starts skipping, and skipping ends with an `unknown` token: at the
next delimiter, or at the end of the text. So the rejections that are reported for a text and its
`unknown` tokens come in pairs, in order. `Paired` is the invariant of a scan: outside of skipping
every rejection has been answered; while skipping, exactly the last one is outstanding, and no
delimiter has come since. One dispatch preserves it (`dispatch_paired`), hence a passage, a step and
a trace; the end of the text answers what is still outstanding (`finish_paired`).

A character makes at most one fault, at its own column (`step_diagnostics`, `step_column`), so the
columns of the faults increase. `feed_resyncs` is the result for a call.
-/

namespace ContractLex

open Spelling

/-! ## Rejections and their tokens -/

/-- Kinds of fault that give a token up. -/
def DiagnosticKind.isRejection (k : DiagnosticKind) : Bool :=
  !k.isTerminal && k != .lineBreakInLiteral

/-- The rejections among findings. -/
def rejectionsOf (fs : List Finding) : List Diagnostic :=
  (diagnosticsOf fs).filter (·.kind.isRejection)

/-- The tokens among findings that stand for skipped text. -/
def unknownsOf (fs : List Finding) : List Token := (tokensOf fs).filter (·.kind == .unknown)

/-- `t` is what is skipped because of `d`: it ends at the first delimiter from `d` on, or with the
text. -/
structure Resyncs (text : List Char) (d : Diagnostic) (t : Token) : Prop where
  start_le : t.start ≤ d.column
  le_stop : d.column ≤ t.stop
  le_length : t.stop ≤ text.length
  text_eq : t.text = String.ofList (stretch text t.start t.stop)
  undelimited : ∀ c ∈ stretch text d.column t.stop, isDelimiter c = false
  stop : t.stop = text.length ∨ ∃ c, text[t.stop]? = some c ∧ isDelimiter c = true

/-- Findings in which neither a rejection nor skipped text is reported. -/
def IsQuiet (fs : List Finding) : Prop := rejectionsOf fs = [] ∧ unknownsOf fs = []

section Quiet

variable {fs gs : List Finding} {k : Kind} {p : Pending} {s : Site} {stop : Nat}

@[simp] theorem rejectionsOf_append :
    rejectionsOf (fs ++ gs) = rejectionsOf fs ++ rejectionsOf gs := by
  simp [rejectionsOf]

@[simp] theorem unknownsOf_append : unknownsOf (fs ++ gs) = unknownsOf fs ++ unknownsOf gs := by
  simp [unknownsOf]

theorem Fault.IsRejection.isRejection {f : Fault} (h : f.IsRejection) :
    f.kind.isRejection = true := by
  obtain ⟨hterminal, -, hbreak⟩ := h
  simp [DiagnosticKind.isRejection, hterminal, hbreak]

theorem isQuiet_nil : IsQuiet [] := ⟨rfl, rfl⟩

theorem isQuiet_comment : IsQuiet [.comment] := ⟨rfl, rfl⟩

theorem isQuiet_fault {st : State} {d : Diagnostic} (h : d.kind.isRejection = false) :
    IsQuiet [.fault st d] := by
  refine ⟨?_, rfl⟩
  simp [rejectionsOf, h]

theorem isQuiet_map_token (ts : List Token) (h : ∀ t ∈ ts, t.kind ≠ .unknown) :
    IsQuiet (ts.map .token) := by
  constructor
  · simp [rejectionsOf]
  · rw [unknownsOf, tokensOf_map_token, List.filter_eq_nil_iff]
    intro t ht
    simpa using h t ht

theorem isQuiet_token (hk : k ≠ .unknown) : IsQuiet [p.token s k stop] :=
  isQuiet_map_token [⟨k, p.word, s.line, p.startColumn s stop, stop⟩] (by simpa using hk)

theorem isQuiet_dashed : IsQuiet (p.dashed s stop) := by
  unfold Pending.dashed
  split
  · exact isQuiet_token nofun
  · dsimp only
    split
    · constructor
      · simp [rejectionsOf, diagnosticsOf, List.filterMap_map, Function.comp_def,
          Finding.diagnostic?]
      · rw [unknownsOf, List.filter_eq_nil_iff]
        intro t ht
        obtain ⟨part, hpart, heq⟩ := List.mem_map.mp (mem_tokensOf.mp ht)
        obtain rfl := Finding.token.inj heq
        have hmem := (List.mem_filter.mp hpart).1
        simp only [List.mem_cons, List.not_mem_nil, or_false] at hmem
        rcases hmem with rfl | rfl | rfl <;> simp
    · exact isQuiet_map_token [_] (by simp)

theorem isQuiet_firstOperator : IsQuiet (p.firstOperator s stop) := by
  unfold Pending.firstOperator
  split
  · exact isQuiet_token nofun
  · exact isQuiet_nil

theorem isQuiet_splitWord (line start : Nat) (a b : List Char) :
    IsQuiet ((splitWord line start a b).map .token) := by
  refine isQuiet_map_token _ ?_
  intro t ht
  simp only [splitWord, List.mem_cons] at ht
  rcases ht with rfl | rfl | ht
  · exact fun hk => Kind.noConfusion hk
  · exact fun hk => Kind.noConfusion hk
  · split at ht
    · cases ht
    · obtain rfl := List.mem_singleton.mp ht
      exact fun hk => Kind.noConfusion hk

end Quiet

/-! ## One dispatch -/

/-- What has been reported up to column `i` where `p` is pending: every rejection has its token; or
the last one is outstanding, and what is skipped because of it goes on. -/
inductive Paired (text : List Char) (i : Nat) (p : Pending) (fs : List Finding) : Prop
  | settled : p.state ≠ .invalid →
      List.Forall₂ (Resyncs text) (rejectionsOf fs) (unknownsOf fs) → Paired text i p fs
  | skipping (ds : List Diagnostic) (d : Diagnostic) {o : Position} :
      p.state = .invalid → p.opened = some o → o.column ≤ d.column → d.column ≤ i →
      (∀ c ∈ stretch text d.column i, isDelimiter c = false) →
      rejectionsOf fs = ds ++ [d] → List.Forall₂ (Resyncs text) ds (unknownsOf fs) →
      Paired text i p fs

section Paired

variable {text : List Char} {line i start n : Nat} {c : Char} {p q : Pending} {fs gs : List Finding}

/-- Nothing is answered, and nothing needs an answer. -/
theorem forall₂_quiet (h : List.Forall₂ (Resyncs text) (rejectionsOf fs) (unknownsOf fs))
    (hgs : IsQuiet gs) :
    List.Forall₂ (Resyncs text) (rejectionsOf (fs ++ gs)) (unknownsOf (fs ++ gs)) := by
  rw [rejectionsOf_append, unknownsOf_append, hgs.1, hgs.2, List.append_nil, List.append_nil]
  exact h

/-- A rejection at column `i` is outstanding. -/
theorem paired_reject (h : List.Forall₂ (Resyncs text) (rejectionsOf fs) (unknownsOf fs))
    {st : State} {f : Fault} {o : Position} (hf : f.kind.isRejection = true)
    (hq : q.state = .invalid) (hopened : q.opened = some o) (ho : o.column ≤ i) :
    Paired text i q (fs ++ [.fault st (f.diagnostic ⟨line, i⟩)]) := by
  have hreject : rejectionsOf [.fault st (f.diagnostic ⟨line, i⟩)] = [f.diagnostic ⟨line, i⟩] := by
    have hkind : (f.diagnostic ⟨line, i⟩).kind.isRejection = true := hf
    simp [rejectionsOf, hkind]
  refine .skipping (rejectionsOf fs) (f.diagnostic ⟨line, i⟩) hq hopened ho
    (Nat.le_refl i) ?_ ?_ ?_
  · intro c hc
    rw [show (f.diagnostic ⟨line, i⟩).column = i from rfl, stretch_self] at hc
    cases hc
  · rw [rejectionsOf_append, hreject]
  · rw [unknownsOf_append,
      show unknownsOf [Finding.fault st (f.diagnostic ⟨line, i⟩)] = [] from rfl, List.append_nil]
    exact h

/-- The token that answers the outstanding rejection `d`. -/
theorem forall₂_skipped (line : Nat) {ds : List Diagnostic} {d : Diagnostic} {stop : Nat}
    (hds : List.Forall₂ (Resyncs text) ds (unknownsOf fs)) (hfs : rejectionsOf fs = ds ++ [d])
    (hle : start ≤ d.column) (hstop : d.column ≤ stop) (hlen : stop ≤ text.length)
    (hfree : ∀ c ∈ stretch text d.column stop, isDelimiter c = false)
    (hend : stop = text.length ∨ ∃ c, text[stop]? = some c ∧ isDelimiter c = true) :
    let t : Token := ⟨.unknown, String.ofList (stretch text start stop), line, start, stop⟩
    List.Forall₂ (Resyncs text) (rejectionsOf (fs ++ [.token t]))
      (unknownsOf (fs ++ [.token t])) := by
  intro t
  have hrejections : rejectionsOf (fs ++ [.token t]) = ds ++ [d] := by
    rw [rejectionsOf_append, hfs, show rejectionsOf [Finding.token t] = [] from rfl,
      List.append_nil]
  have hunknowns : unknownsOf (fs ++ [.token t]) = unknownsOf fs ++ [t] := by
    rw [unknownsOf_append, show unknownsOf [Finding.token t] = [t] from rfl]
  have hpair : Resyncs text d t := ⟨hle, hstop, hlen, rfl, hfree, hend⟩
  rw [hrejections, hunknowns]
  exact List.rel_append hds (.cons hpair .nil)

/-- While skipping, a delimiter answers the outstanding rejection, and anything else is skipped. -/
theorem dispatch_paired_skipping (h : p.Stands text line i (some c) start)
    (hst : p.state = .invalid) (hp : Paired text i p fs) :
    Paired text (if (dispatch p ⟨text.toArray, line, i⟩ c).used then i + 1 else i)
      (dispatch p ⟨text.toArray, line, i⟩ c).pending
      (fs ++ (dispatch p ⟨text.toArray, line, i⟩ c).findings) := by
  have hopened := h.opened_some (by rw [hst]; rfl)
  cases hp with
  | settled hne => exact absurd hst hne
  | @skipping ds d o _ ho hle hdi hfree hfs hds =>
      obtain rfl : (⟨line, start⟩ : Position) = o := Option.some.inj (hopened.symm.trans ho)
      have hdispatch : dispatch p ⟨text.toArray, line, i⟩ c =
          onInvalid p ⟨text.toArray, line, i⟩ c := by
        simp only [dispatch, hst]
      rw [hdispatch]
      unfold onInvalid
      by_cases hc : isDelimiter c = true
      · rw [if_pos hc, skipped_eq hopened h.start_le h.le_length]
        have hanswer := forall₂_skipped line hds hfs hle hdi h.le_length hfree
          (Or.inr ⟨c, h.getElem? c rfl, hc⟩)
        exact .settled (fun hq => State.noConfusion hq) hanswer
      · rw [if_neg hc]
        refine .skipping ds d hst ho hle (Nat.le_succ_of_le hdi) ?_ ?_ ?_
        · intro e he
          have he : e ∈ stretch text d.column (i + 1) := he
          rw [stretch_concat hdi (h.getElem? c rfl)] at he
          rcases List.mem_append.mp he with he | he
          · exact hfree e he
          · obtain rfl := List.mem_singleton.mp he
            simpa using hc
        · simpa [Move.use] using hfs
        · simpa [Move.use] using hds

/-- Outside of skipping, only a rejection needs an answer. -/
theorem dispatch_paired_settled (h : p.Stands text line i (some c) start)
    (hst : p.state ≠ .invalid)
    (hp : List.Forall₂ (Resyncs text) (rejectionsOf fs) (unknownsOf fs)) :
    Paired text (if (dispatch p ⟨text.toArray, line, i⟩ c).used then i + 1 else i)
      (dispatch p ⟨text.toArray, line, i⟩ c).pending
      (fs ++ (dispatch p ⟨text.toArray, line, i⟩ c).findings) := by
  have hout := dispatch_outcome h
  have hskip := fault_of_skipping (s := ⟨text.toArray, line, i⟩) (c := c) hst
  revert hout hskip
  generalize dispatch p ⟨text.toArray, line, i⟩ c = m
  intro hout hskip
  -- what is no rejection does not lead to skipping
  have hquiet : ∀ {j : Nat}, IsQuiet m.findings → m.used = true ∨ diagnosticsOf m.findings = [] →
      Paired text j m.pending (fs ++ m.findings) := by
    intro j hm hno
    refine .settled ?_ (forall₂_quiet hp hm)
    intro hinvalid
    obtain ⟨hused, hne⟩ := hskip hinvalid
    rcases hno with hno | hno
    · rw [hused] at hno
      cases hno
    · exact hne hno
  cases hout with
  | blank | goOn => exact hquiet isQuiet_nil (Or.inl rfl)
  | comment => exact hquiet isQuiet_comment (Or.inl rfl)
  | lineBreak => exact hquiet (isQuiet_fault rfl) (Or.inl rfl)
  | pass => exact hquiet isQuiet_nil (Or.inr rfl)
  | close _ _ hun => exact hquiet (isQuiet_map_token [_] (by simpa using hun)) (Or.inl rfl)
  | closeBefore _ hun =>
      exact hquiet (isQuiet_map_token [_] (by simpa using hun)) (Or.inr rfl)
  | split => exact hquiet (isQuiet_splitWord _ _ _ _) (Or.inr (diagnosticsOf_map_token _))
  | reject hf => exact paired_reject hp hf.isRejection rfl rfl h.start_le
  | skip _ _ hinvalid => exact absurd hinvalid hst

theorem dispatch_paired (h : p.Stands text line i (some c) start) (hp : Paired text i p fs) :
    Paired text (if (dispatch p ⟨text.toArray, line, i⟩ c).used then i + 1 else i)
      (dispatch p ⟨text.toArray, line, i⟩ c).pending
      (fs ++ (dispatch p ⟨text.toArray, line, i⟩ c).findings) := by
  by_cases hst : p.state = .invalid
  · exact dispatch_paired_skipping h hst hp
  · cases hp with
    | settled _ hpairs => exact dispatch_paired_settled h hst hpairs
    | skipping _ _ hinvalid => exact absurd hinvalid hst

/-! ## Steps and traces -/

theorem Passage.paired (hpass : Passage ⟨text.toArray, line, i⟩ c p n gs q) :
    ∀ {start : Nat} {fs : List Finding}, p.Stands text line i (some c) start →
      Paired text i p fs → Paired text (i + 1) q (fs ++ gs) :=
  hpass.preserves dispatch_paired

/-- A lexeme that is full is rejected before the next character is dispatched. -/
theorem entry_paired (h : p.Stands text line i none start) (hp : Paired text i p fs) :
    Paired text i p.entry (fs ++ p.overflow ⟨text.toArray, line, i⟩) := by
  by_cases hfull : p.isFull = true
  · have hentry : p.entry = p.goto .invalid := by simp [Pending.entry, hfull]
    have hoverflow : p.overflow ⟨text.toArray, line, i⟩ =
        [.fault p.state (Fault.longLexeme.diagnostic ⟨line, i⟩)] := by
      simp only [Pending.overflow, hfull, if_true]
      rfl
    have hidle := h.isIdle_of_isFull hfull
    simp only [Pending.isFull, Bool.and_eq_true, decide_eq_true_eq] at hfull
    have hne : p.state ≠ .invalid := by simpa using hfull.1.2
    rw [hentry, hoverflow]
    cases hp with
    | settled _ hpairs =>
        exact paired_reject hpairs rfl rfl (h.opened_some hidle) h.start_le
    | skipping _ _ hinvalid => exact absurd hinvalid hne
  · have hentry : p.entry = p := by simp [Pending.entry, hfull]
    have hoverflow : p.overflow ⟨text.toArray, line, i⟩ = [] := by simp [Pending.overflow, hfull]
    rw [hentry, hoverflow, List.append_nil]
    exact hp

theorem step_paired (h : p.Stands text line i none start) (hc : text[i]? = some c)
    (hp : Paired text i p fs) :
    Paired text (i + 1) (step ⟨text.toArray, line, i⟩ p c).pending
      (fs ++ (step ⟨text.toArray, line, i⟩ p c).findings) := by
  obtain ⟨n, -, gs, q, hpass, hstep⟩ := exists_step ⟨text.toArray, line, i⟩ c p
  have hnext := hpass.paired (h.entry hc) (entry_paired h hp)
  rw [hstep]
  rwa [List.append_assoc] at hnext

end Paired

/-! ## Columns -/

section Columns

variable {text : List Char} {line i start n : Nat} {c : Char} {p q : Pending} {fs : List Finding}

/-- A fault stands at the character that makes it. -/
theorem Passage.column (hpass : Passage ⟨text.toArray, line, i⟩ c p n fs q) :
    ∀ {start : Nat}, p.Stands text line i (some c) start →
      ∀ d ∈ diagnosticsOf fs, d.column = i := by
  have hdispatch : ∀ {p : Pending} {start : Nat}, p.Stands text line i (some c) start →
      ∀ d ∈ diagnosticsOf (dispatch p ⟨text.toArray, line, i⟩ c).findings, d.column = i := by
    intro p start h
    have hout := dispatch_outcome h
    generalize dispatch p ⟨text.toArray, line, i⟩ c = m at hout
    cases hout with
    | blank | goOn | pass | close | closeBefore | comment | skip => exact List.forall_mem_nil _
    | @split a b =>
        show ∀ d ∈ diagnosticsOf ((splitWord line start a b).map .token), d.column = i
        rw [diagnosticsOf_map_token]
        exact List.forall_mem_nil _
    | lineBreak | reject =>
        intro d hd
        obtain rfl := List.mem_singleton.mp hd
        rfl
  induction hpass with
  | use => exact fun h => hdispatch h
  | handOn hused _ ih =>
      intro start h
      obtain ⟨start', -, hstands⟩ := (dispatch_outcome h).advance h
      rw [hused] at hstands
      rw [diagnosticsOf_append]
      exact List.forall_mem_append.mpr ⟨hdispatch h, ih hstands⟩

theorem step_column (h : p.Stands text line i none start) (hc : text[i]? = some c) :
    ∀ d ∈ diagnosticsOf (step ⟨text.toArray, line, i⟩ p c).findings, d.column = i := by
  obtain ⟨n, -, fs, q, hpass, hstep⟩ := exists_step ⟨text.toArray, line, i⟩ c p
  rw [hstep]
  show ∀ d ∈ diagnosticsOf (p.overflow ⟨text.toArray, line, i⟩ ++ fs), d.column = i
  rw [diagnosticsOf_append, List.forall_mem_append]
  refine ⟨?_, hpass.column (h.entry hc)⟩
  unfold Pending.overflow
  split
  · intro d hd
    obtain rfl := List.mem_singleton.mp hd
    rfl
  · exact List.forall_mem_nil _

/-- Faults in the order of their columns, all of them before column `i`. -/
def Ascending (i : Nat) (ds : List Diagnostic) : Prop :=
  ds.Pairwise (fun a b => a.column < b.column) ∧ ∀ d ∈ ds, d.column < i

theorem ascending_nil (i : Nat) : Ascending i [] := ⟨.nil, List.forall_mem_nil _⟩

/-- At most one more fault, at column `i`. -/
theorem Ascending.concat {ds es : List Diagnostic} (h : Ascending i ds) (hlen : es.length ≤ 1)
    (hcol : ∀ d ∈ es, d.column = i) : Ascending (i + 1) (ds ++ es) := by
  obtain ⟨hsorted, hbelow⟩ := h
  constructor
  · rw [List.pairwise_append]
    refine ⟨hsorted, ?_, ?_⟩
    · match es, hlen with
      | [], _ => exact .nil
      | [d], _ => exact List.pairwise_singleton _ d
    · intro a ha b hb
      rw [hcol b hb]
      exact hbelow a ha
  · intro d hd
    rcases List.mem_append.mp hd with hd | hd
    · exact Nat.lt_succ_of_lt (hbelow d hd)
    · rw [hcol d hd]
      exact Nat.lt_succ_self i

end Columns

/-! ## A whole text -/

section Text

variable {text : List Char} {line i start : Nat} {p : Pending} {fs : List Finding}

/-- What a trace from between two tokens reports. -/
theorem traceFrom_paired (text : List Char) (line : Nat) :
    ∃ start, (traceFrom text line 0).1.Stands text line text.length none start
      ∧ Paired text text.length (traceFrom text line 0).1 (traceFrom text line 0).2
      ∧ Ascending text.length (diagnosticsOf (traceFrom text line 0).2) := by
  have hinv := trace_induction text line
    (I := fun j q fs => ∃ start, q.Stands text line j none start ∧ Paired text j q fs
      ∧ Ascending j (diagnosticsOf fs))
    (fun j q fs c hc ⟨start, hstands, hpaired, hascending⟩ => by
      obtain ⟨start', -, hstands'⟩ := step_tiles hstands hc
      have hone := step_diagnostics hstands hc
      have hcol := step_column hstands hc
      refine ⟨start', hstands', step_paired hstands hc hpaired, ?_⟩
      rw [diagnosticsOf_append]
      exact hascending.concat hone hcol)
    (text.drop 0) 0 {} [] (List.prefix_refl _)
    ⟨0, stands_start line (Nat.zero_le _), .settled nofun .nil, ascending_nil 0⟩
  simpa [traceFrom] using hinv

/-- Where nothing is skipped and no decimal lacks its digits, the end of a text is quiet. -/
theorem finish_quiet {s : Site} {carry : Bool} (hst : p.state ≠ .invalid)
    (hdecimal : p.state = .decimal → p.lexeme.back? ≠ some '.') :
    IsQuiet (p.finish s carry).findings := by
  obtain ⟨st, l, o, m⟩ := p
  cases st
  case invalid => exact absurd rfl hst
  case start | delimiter | expectDelimiter => exact isQuiet_nil
  case identifier => exact isQuiet_token (wordKind_ne_unknown _)
  case identifierDash => exact isQuiet_dashed
  case decimal =>
      have hback : l.back? ≠ some '.' := hdecimal rfl
      simp only [Pending.finish, hback, if_false]
      exact isQuiet_token fun hk => Kind.noConfusion hk
  case number | float | leftArrow => exact isQuiet_token fun hk => Kind.noConfusion hk
  case operator | beforeEquals | doubling | logical | minus | less | greater | slash =>
      exact isQuiet_firstOperator
  case lineComment => exact isQuiet_comment
  case blockComment | blockCommentStar =>
      simp only [Pending.finish]
      split
      · exact isQuiet_nil
      · exact isQuiet_fault rfl
  -- what is left is inside a literal
  all_goals exact isQuiet_fault rfl

/-- The end of a text answers what is outstanding. -/
theorem finish_paired (carry : Bool) (h : p.Stands text line text.length none start)
    (hp : Paired text text.length p fs) :
    List.Forall₂ (Resyncs text)
      (rejectionsOf (fs ++ (p.finish ⟨text.toArray, line, text.length⟩ carry).findings))
      (unknownsOf (fs ++ (p.finish ⟨text.toArray, line, text.length⟩ carry).findings)) := by
  have hskipped : ∀ {q : Pending} {gs : List Finding}, q.state = .invalid →
      q.opened = some ⟨line, start⟩ → Paired text text.length q gs →
      List.Forall₂ (Resyncs text)
        (rejectionsOf (gs ++ [q.skipped ⟨text.toArray, line, text.length⟩ text.length]))
        (unknownsOf (gs ++ [q.skipped ⟨text.toArray, line, text.length⟩ text.length])) := by
    intro q gs hst hopened hq
    rw [skipped_eq hopened h.start_le (Nat.le_refl _)]
    cases hq with
    | settled hne => exact absurd hst hne
    | @skipping ds d o _ ho hle hdi hfree hgs hds =>
        obtain rfl : (⟨line, start⟩ : Position) = o := Option.some.inj (hopened.symm.trans ho)
        exact forall₂_skipped line hds hgs hle hdi (Nat.le_refl _) hfree (Or.inl rfl)
  cases hp with
  | @skipping ds d o hst ho hle hdi hfree hfs hds =>
      have hfinish : (p.finish ⟨text.toArray, line, text.length⟩ carry).findings =
          [p.skipped ⟨text.toArray, line, text.length⟩ text.length] := by
        simp only [Pending.finish, hst]
      rw [hfinish]
      exact hskipped hst (h.opened_some (by rw [hst]; rfl))
        (.skipping ds d hst ho hle hdi hfree hfs hds)
  | settled hst hpairs =>
      by_cases hdecimal : p.state = .decimal ∧ p.lexeme.back? = some '.'
      · -- the decimal is rejected here, and answered at once
        obtain ⟨hdec, hback⟩ := hdecimal
        have hopened := h.opened_some (by rw [hdec]; rfl)
        have hfinish : (p.finish ⟨text.toArray, line, text.length⟩ carry).findings =
            [.fault p.state (Fault.openDouble.diagnostic ⟨line, text.length⟩)]
              ++ [(p.goto .invalid).skipped ⟨text.toArray, line, text.length⟩ text.length] := by
          simp only [Pending.finish, hdec, hback, if_true, Pending.fault]
          rfl
        rw [hfinish, ← List.append_assoc]
        exact hskipped rfl hopened (paired_reject hpairs rfl rfl hopened h.start_le)
      · refine forall₂_quiet hpairs (finish_quiet hst ?_)
        intro hdec hback
        exact hdecimal ⟨hdec, hback⟩

/-- A fault that the end of a text makes, and that is not terminal, stands at the end. -/
theorem finish_column {s : Site} {carry : Bool} :
    ∀ d ∈ diagnosticsOf (p.finish s carry).findings, d.kind.isTerminal = false →
      d.column = s.column := by
  intro d hd hkind
  rcases finish_faults p s carry with heq | ⟨e, heq, hterminal⟩ | ⟨-, -, heq⟩
  · rw [heq] at hd
    cases hd
  · rw [heq] at hd
    obtain rfl := List.mem_singleton.mp hd
    rw [hkind] at hterminal
    cases hterminal
  · rw [heq] at hd
    obtain rfl := List.mem_singleton.mp hd
    rfl

end Text

/-! ## A call -/

/-- What a call from `start` reports, whether it succeeds or not: but for the terminal one, the
diagnostics stand in the order of their columns; and those that give a token up are answered, one by
one and in order, by the `unknown` tokens, each of which ends at the first delimiter from its
diagnostic on, or with the text. -/
theorem feed_resyncs {lx : Lexer} (h : lx.Reachable) (hstart : lx.state = .start) (text : String)
    (line : Nat) :
    (lx.feed text line).1.tokens.toList = lx.tokens.toList ++ lx.emitted text line
      ∧ (lx.feed text line).1.diagnostics.toList = lx.diagnostics.toList
        ++ (lx.reported text line).take (maxDiagnostics - lx.diagnostics.size)
      ∧ (lx.feed text line).1.metrics.diagnostics =
        lx.metrics.diagnostics + (lx.reported text line).length
      ∧ ((lx.reported text line).filter (!·.kind.isTerminal)).Pairwise
        (fun a b => a.column < b.column)
      ∧ List.Forall₂ (Resyncs text.toList)
        ((lx.reported text line).filter (·.kind.isRejection))
        ((lx.emitted text line).filter (·.kind == .unknown)) := by
  obtain ⟨start, hstands, hpaired, hascending⟩ := traceFrom_paired text.toList line
  have hreading := lx.reading_eq_trace text line
  rw [h.pending_eq hstart] at hreading
  have hfindings : (lx.reading text line).findings = (traceFrom text.toList line 0).2
      ++ ((traceFrom text.toList line 0).1.finish ⟨text.toList.toArray, line, text.toList.length⟩
        lx.settings.carryComments).findings := by
    rw [hreading]
    rfl
  refine ⟨lx.feed_tokens text line, lx.feed_diagnostics text line,
    lx.feed_diagnosticCount text line, ?_, ?_⟩
  · rw [Lexer.reported, hfindings, diagnosticsOf_append, List.filter_append]
    -- what is left of the faults of the end is at most one, at the end
    have hlast : (((diagnosticsOf ((traceFrom text.toList line 0).1.finish
        ⟨text.toList.toArray, line, text.toList.length⟩ lx.settings.carryComments).findings)).filter
          (!·.kind.isTerminal)).length ≤ 1 :=
      Nat.le_trans (List.length_filter_le _ _) (finish_diagnostics _ _ _)
    have hbefore : Ascending text.toList.length
        ((diagnosticsOf (traceFrom text.toList line 0).2).filter (!·.kind.isTerminal)) :=
      ⟨hascending.1.filter _, fun d hd => hascending.2 d (List.mem_filter.mp hd).1⟩
    refine (hbefore.concat hlast ?_).1
    intro d hd
    obtain ⟨hd, hkind⟩ := List.mem_filter.mp hd
    exact finish_column d hd (by simpa using hkind)
  · have hpairs := finish_paired lx.settings.carryComments hstands hpaired
    rw [Lexer.reported, Lexer.emitted, hfindings]
    exact hpairs

/-- A call that fails, after a literal with a line break in it, a character that opens no token and
a decimal without digits. -/
theorem feed_resyncs_open :
    ({} : Lexer).Reachable ∧ ({} : Lexer).state = .start
      ∧ (({} : Lexer).feed "\"a\n\" @x 1. '" 4).1.tokens.toList =
        ({} : Lexer).tokens.toList ++ ({} : Lexer).emitted "\"a\n\" @x 1. '" 4
      ∧ (({} : Lexer).feed "\"a\n\" @x 1. '" 4).1.diagnostics.toList =
        ({} : Lexer).diagnostics.toList ++ (({} : Lexer).reported "\"a\n\" @x 1. '" 4).take
          (maxDiagnostics - ({} : Lexer).diagnostics.size)
      ∧ (({} : Lexer).feed "\"a\n\" @x 1. '" 4).1.metrics.diagnostics =
        ({} : Lexer).metrics.diagnostics + (({} : Lexer).reported "\"a\n\" @x 1. '" 4).length
      ∧ ((({} : Lexer).reported "\"a\n\" @x 1. '" 4).filter (!·.kind.isTerminal)).Pairwise
        (fun a b => a.column < b.column)
      ∧ List.Forall₂ (Resyncs "\"a\n\" @x 1. '".toList)
        ((({} : Lexer).reported "\"a\n\" @x 1. '" 4).filter (·.kind.isRejection))
        ((({} : Lexer).emitted "\"a\n\" @x 1. '" 4).filter (·.kind == .unknown)) :=
  ⟨⟨{}, [], rfl⟩, rfl, feed_resyncs ⟨{}, [], rfl⟩ rfl _ 4⟩

end ContractLex
