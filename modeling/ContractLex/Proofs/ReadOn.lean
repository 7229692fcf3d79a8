import ContractLex.Proofs.Comment
import ContractLex.Proofs.Independence
import ContractLex.Proofs.LineEnd
import ContractLex.Proofs.Prefix
import Mathlib.Data.List.TakeWhile

/-!
# Reading on

`readOn text line carry i p` is what the scanner makes of the rest of a text, from column `i` on,
where `p` is pending. It is followed dispatch by dispatch: a character that is used leads to the
next column (`readOn_use`), one that is handed on is dispatched again (`readOn_handOn`), a run of
characters is taken in as one (`readOn_push`, `readOn_stay`), and at the end of the text what is
pending is settled (`readOn_length`). What was found on the way comes first (`Ending.after`).

Where nothing is pending the rest is read as a text of its own, and moved (`readOn_fresh`). So as
soon as a text has been followed to a column with nothing pending, the whole of it is known: its
`Front` up to that column, and what a fresh lexer makes of the characters beyond
(`feedsThen_of_readsFront`).
-/

namespace ContractLex

open Spelling

/-! ## Findings that come first -/

/-- The same ending, with findings `fs` that come first. -/
def Ending.after (fs : List Finding) (e : Ending) : Ending :=
  ⟨e.pending, fs ++ e.findings, e.result⟩

/-- The same move, with findings `fs` that come first. -/
def Move.after (fs : List Finding) (m : Move) : Move :=
  ⟨m.pending, fs ++ m.findings, m.used⟩

@[simp] theorem Ending.after_nil (e : Ending) : e.after [] = e := rfl

@[simp] theorem Ending.after_after (fs gs : List Finding) (e : Ending) :
    (e.after gs).after fs = e.after (fs ++ gs) := by
  simp [Ending.after]

/-! ## One character -/

section Step

variable {s : Site} {c : Char} {p q : Pending} {fs : List Finding}

theorem step_use (h : dispatch p s c = .use q fs) (hp : p.isFull = false) :
    step s p c = .use q fs := by
  have hentry : p.entry = p := by simp [Pending.entry, hp]
  have hoverflow : p.overflow s = [] := by simp [Pending.overflow, hp]
  have hpass := passage_of_use h
  rw [← hentry] at hpass
  rw [step_of_passage hpass (Nat.zero_le 3), hoverflow, List.nil_append]

/-- A character that is handed on is dispatched as if it had come to `q` in the first place. -/
theorem step_handOn (h : dispatch p s c = .handOn q fs) (hp : p.isFull = false)
    (hq : q.isFull = false) : step s p c = (step s q c).after fs := by
  have hlower := lowers_dispatch p s c (by rw [h]; rfl)
  rw [h] at hlower
  have hbound := p.state.handOvers_le c
  obtain ⟨n, hn, gs, r, hpass⟩ :=
    exists_passage_of_le (s := s) (Nat.le_refl (q.state.handOvers c))
  have hentry : ∀ {x : Pending}, x.isFull = false → x.entry = x := fun hx => by
    simp [Pending.entry, hx]
  have hoverflow : ∀ {x : Pending}, x.isFull = false → x.overflow s = [] := fun hx => by
    simp [Pending.overflow, hx]
  have hlower : q.state.handOvers c < p.state.handOvers c := hlower
  have hstep := step_of_passage (p := p) (by rw [hentry hp]; exact passage_of_handOn h hpass)
    (by omega)
  have hstep' := step_of_passage (p := q) (by rw [hentry hq]; exact hpass) (by omega)
  rw [hstep, hstep', hoverflow hp, hoverflow hq]
  rfl

end Step

/-! ## The rest of a text -/

/-- What the scanner makes of a text from column `i` on, where `p` is pending. -/
def readOn (text : List Char) (line : Nat) (carry : Bool) (i : Nat) (p : Pending) : Ending :=
  let t := trace text line i p (text.drop i)
  (t.1.finish ⟨text.toArray, line, text.length⟩ carry).after t.2

theorem Lexer.reading_eq_readOn (lx : Lexer) (text : String) (line : Nat) :
    lx.reading text line =
      readOn text.toList line lx.settings.carryComments 0 lx.pending := by
  rw [reading_eq_trace]
  rfl

section ReadOn

variable {text w : List Char} {line i d l start : Nat} {carry : Bool} {c : Char} {p q : Pending}
  {fs gs : List Finding}

theorem readOn_trace (h : w <+: text.drop i) (htrace : trace text line i p w = (q, fs)) :
    readOn text line carry i p = (readOn text line carry (i + w.length) q).after fs := by
  obtain ⟨rest, hrest⟩ := h
  have hdrop : text.drop (i + w.length) = rest := by
    rw [← List.drop_drop, ← hrest, List.drop_left]
  have hsplit := trace_append text line w rest i p
  rw [hrest, htrace] at hsplit
  simp only [readOn, hdrop, hsplit, Ending.after_after]

theorem readOn_step (hc : text[i]? = some c)
    (hstep : step ⟨text.toArray, line, i⟩ p c = .use q fs) :
    readOn text line carry i p = (readOn text line carry (i + 1) q).after fs := by
  obtain ⟨hi, rfl⟩ := List.getElem?_eq_some_iff.mp hc
  have hpre : [text[i]] <+: text.drop i := ⟨text.drop (i + 1), by
    rw [List.singleton_append, List.getElem_cons_drop]⟩
  refine readOn_trace hpre ?_
  simp [trace, hstep, Move.use]

/-- A character that is used. -/
theorem readOn_use (hc : text[i]? = some c) (hp : p.isFull = false)
    (h : dispatch p ⟨text.toArray, line, i⟩ c = .use q fs) :
    readOn text line carry i p = (readOn text line carry (i + 1) q).after fs :=
  readOn_step hc (step_use h hp)

/-- Two pendings that make the same of the next character. -/
theorem readOn_congr (hc : text[i]? = some c)
    (h : step ⟨text.toArray, line, i⟩ p c = (step ⟨text.toArray, line, i⟩ q c).after fs) :
    readOn text line carry i p = (readOn text line carry i q).after fs := by
  obtain ⟨n, -, gs, r, -, hstep⟩ := exists_step ⟨text.toArray, line, i⟩ c q
  have hstep' : step ⟨text.toArray, line, i⟩ p c =
      .use r (fs ++ (q.overflow ⟨text.toArray, line, i⟩ ++ gs)) := by
    rw [h, hstep]
    rfl
  rw [readOn_step hc hstep, readOn_step hc hstep', Ending.after_after]

/-- A character that is handed on. -/
theorem readOn_handOn (hc : text[i]? = some c) (hp : p.isFull = false) (hq : q.isFull = false)
    (h : dispatch p ⟨text.toArray, line, i⟩ c = .handOn q fs) :
    readOn text line carry i p = (readOn text line carry i q).after fs :=
  readOn_congr hc (step_handOn h hp hq)

/-- The end of the text. -/
theorem readOn_length (hi : text.length = i) :
    readOn text line carry i p = p.finish ⟨text.toArray, line, i⟩ carry := by
  subst hi
  simp [readOn, trace]

/-- A text that has come to its end with nothing pending. -/
theorem readOn_length_start (hi : text.length = i) :
    readOn text line carry i {} = ⟨{}, [], .ok ()⟩ :=
  readOn_length hi

/-- What is pending is settled with findings `fs`, by the next character or by the end of the
text. -/
theorem readOn_settle (hi : i ≤ text.length)
    (hnext : ∀ c, text[i]? = some c →
      readOn text line carry i p = (readOn text line carry i {}).after fs)
    (hend : p.finish ⟨text.toArray, line, i⟩ carry = ⟨{}, fs, .ok ()⟩) :
    readOn text line carry i p = (readOn text line carry i {}).after fs := by
  rcases Nat.lt_or_eq_of_le hi with hlt | heq
  · exact hnext _ (List.getElem?_eq_getElem hlt)
  · rw [readOn_length heq.symm, readOn_length_start heq.symm, hend, Ending.after, List.append_nil]

/-- A token that ends before the next character, whichever that is, or with the text. -/
theorem readOn_closeBefore {st : State} {b : Array Char} {k : Kind} (hi : i ≤ text.length)
    (hp : i < text.length → (Pending.under st b line start).isFull = false)
    (hnext : ∀ c, text[i]? = some c → dispatch (.under st b line start) ⟨text.toArray, line, i⟩ c =
      (Pending.under st b line start).closeBefore ⟨text.toArray, line, i⟩ k)
    (hend : (Pending.under st b line start).finish ⟨text.toArray, line, i⟩ carry =
      ⟨{}, [(Pending.under st b line start).token ⟨text.toArray, line, i⟩ k i], .ok ()⟩) :
    readOn text line carry i (.under st b line start) = (readOn text line carry i {}).after
      [.token ⟨k, String.ofList b.toList, line, start, i⟩] := by
  have htoken : (Pending.under st b line start).token ⟨text.toArray, line, i⟩ k i =
      .token ⟨k, String.ofList b.toList, line, start, i⟩ := token_eq rfl
  rw [← htoken]
  refine readOn_settle hi ?_ hend
  intro c hc
  exact readOn_handOn hc (hp (List.getElem?_eq_some_iff.mp hc).1) rfl (hnext c hc)

/-! ## Runs of characters -/

theorem stretch_append_left (a b : List Char) : stretch (a ++ b) 0 a.length = a := by
  simp [stretch]

theorem getElem?_append_length (a b : List Char) : (a ++ b)[a.length]? = b.head? := by
  rw [List.getElem?_append_right (Nat.le_refl _), Nat.sub_self, List.head?_eq_getElem?]

/-- Whether a lexeme ends with the last `c` in it. -/
theorem back?_append_cons {u : List Char} (w : List Char) (hu : c ∉ u) :
    (w ++ c :: u).toArray.back? = some c ↔ u = [] := by
  rw [List.back?_toArray]
  cases u with
  | nil => simp
  | cons d u =>
      have hlast : (w ++ c :: d :: u).getLast? = (d :: u).getLast? := by
        simp [List.getLast?_append, List.getLast?_cons]
      rw [hlast]
      exact ⟨fun h => absurd (List.mem_of_getLast? h) hu, fun h => nomatch h⟩

/-- A text, cut where its first run of characters with `p` ends. -/
theorem exists_run (p : Char → Bool) (text : List Char) :
    ∃ w rest, text = w ++ rest ∧ text.takeWhile p = w ∧ text.dropWhile p = rest
      ∧ (∀ c ∈ w, p c = true) ∧ ∀ c, rest.head? = some c → p c = false := by
  refine ⟨_, _, List.takeWhile_append_dropWhile.symm, rfl, rfl,
    fun c hc => List.mem_takeWhile_imp hc, ?_⟩
  induction text with
  | nil => exact fun c hc => nomatch hc
  | cons d text ih =>
      by_cases hd : p d = true
      · rwa [List.dropWhile_cons_of_pos hd]
      · intro c hc
        rw [List.dropWhile_cons_of_neg hd] at hc
        cases hc
        simpa using hd

/-- Characters that leave everything as it is. -/
theorem readOn_stay (h : w <+: text.drop i) (hp : p.isFull = false)
    (hstay : ∀ c ∈ w, ∀ s, dispatch p s c = .use p) :
    readOn text line carry i p = readOn text line carry (i + w.length) p := by
  have htrace : ∀ (v : List Char) (j : Nat), (∀ c ∈ v, c ∈ w) →
      trace text line j p v = (p, []) := by
    intro v
    induction v with
    | nil => exact fun _ _ => rfl
    | cons c v ih =>
        intro j hv
        have hstep : step ⟨text.toArray, line, j⟩ p c = .use p :=
          step_use (hstay c (hv c List.mem_cons_self) _) hp
        have hnext := ih (j + 1) fun d hd => hv d (List.mem_cons_of_mem c hd)
        simp [trace, hstep, Move.use, hnext]
  rw [readOn_trace h (htrace w i fun _ => id), Ending.after_nil]

/-- Characters that are taken into the lexeme one after the other. What a state makes of one may
depend on those before it. -/
theorem readOn_push {st : State} {b : List Char} {start : Nat} (h : w <+: text.drop i)
    (hsize : b.length + w.length ≤ maxLexeme)
    (hpush : ∀ u c v, w = u ++ c :: v → ∀ s,
      dispatch (.under st (b ++ u).toArray line start) s c =
        .use (.under st (b ++ u ++ [c]).toArray line start)) :
    readOn text line carry i (.under st b.toArray line start) =
      readOn text line carry (i + w.length) (.under st (b ++ w).toArray line start) := by
  have htrace : ∀ (v u : List Char) (j : Nat), w = u ++ v →
      trace text line j (.under st (b ++ u).toArray line start) v =
        (.under st (b ++ w).toArray line start, []) := by
    intro v
    induction v with
    | nil =>
        intro u j hw
        rw [hw, List.append_nil]
        rfl
    | cons c v ih =>
        intro u j hw
        have hfull : (Pending.under st (b ++ u).toArray line start).isFull = false := by
          refine isFull_eq_false ?_
          simp only [hw, List.length_append, List.length_cons] at hsize
          simp only [List.size_toArray, List.length_append]
          omega
        have hnext := ih (u ++ [c]) (j + 1) (by simp [hw])
        rw [← List.append_assoc] at hnext
        simp only [trace, step_use (hpush u c v hw _) hfull, Move.use, hnext]
        rfl
  have hrun := htrace w [] i rfl
  rw [List.append_nil] at hrun
  rw [readOn_trace h hrun, Ending.after_nil]

/-- A text whose first character is handed on to a state that takes in all of `w`. -/
theorem readOn_begin {st : State} (hc : text.head? = some c)
    (hstart : ∀ s : Site, dispatch {} s c = .handOn (.under st #[] s.line s.column))
    (hpre : w <+: text) (hsize : w.length ≤ maxLexeme)
    (hpush : ∀ u d v, w = u ++ d :: v → ∀ s, dispatch (.under st u.toArray line 0) s d =
      .use (.under st (u ++ [d]).toArray line 0)) :
    readOn text line carry 0 {} = readOn text line carry w.length (.under st w.toArray line 0) := by
  have hempty : (Pending.under st #[] line 0).isFull = false :=
    isFull_eq_false (by simp [maxLexeme])
  have hrun : readOn text line carry 0 (.under st #[] line 0) =
      readOn text line carry (0 + w.length) (.under st w.toArray line 0) :=
    readOn_push (b := []) hpre (by simpa using hsize) hpush
  rw [Nat.zero_add] at hrun
  rw [List.head?_eq_getElem?] at hc
  rw [readOn_handOn hc rfl hempty (hstart _), Ending.after_nil]
  exact hrun

/-! ## Comments -/

/-- A comment that is open to the end of the text. -/
theorem InComment.readOn_open {body rest : List Char} (h : InComment body p)
    (hdrop : text.drop i = rest) (hopen : IsOpen (body ++ rest)) (line : Nat) (carry : Bool) :
    readOn text line carry i p = (p.goto (commentState (body ++ rest))).finish
      ⟨text.toArray, line, text.length⟩ carry := by
  rw [readOn, hdrop, h.trace_open hopen, Ending.after_nil]

/-- A comment that ends within the text. -/
theorem InComment.readOn_close {body head : List Char} (h : InComment body p)
    (hpre : head ++ ['/'] <+: text.drop i) (hhead : IsOpen (body ++ head))
    (hlast : (body ++ head).getLast? = some '*') (line : Nat) (carry : Bool) :
    readOn text line carry i p =
      (readOn text line carry (i + (head.length + 1)) {}).after [.comment] := by
  rw [readOn_trace hpre (h.trace_close hhead hlast), List.length_append]
  rfl

/-! ## Skipping -/

/-- Where the next delimiter stands from column `i` on, or the end of the text. -/
def skipEnd (text : List Char) (i : Nat) : Nat :=
  i + ((text.drop i).takeWhile fun c => !isDelimiter c).length

theorem le_skipEnd (text : List Char) (i : Nat) : i ≤ skipEnd text i := Nat.le_add_right i _

theorem skipEnd_le (hi : i ≤ text.length) : skipEnd text i ≤ text.length := by
  have hle := (List.takeWhile_prefix (l := text.drop i) fun c => !isDelimiter c).length_le
  rw [List.length_drop] at hle
  unfold skipEnd
  omega

/-- A delimiter is passed over in `start` as in the state for delimiters. -/
theorem readOn_delimiter (hc : text[i]? = some c) (hd : isDelimiter c = true) :
    readOn text line carry i { state := .delimiter } = readOn text line carry i {} := by
  have hstart : dispatch {} ⟨text.toArray, line, i⟩ c = .handOn { state := .delimiter } := by
    simp only [dispatch, onStart, hd, if_true]
    rfl
  rw [readOn_handOn hc rfl rfl hstart, Ending.after_nil]

/-- What is being skipped ends at the next delimiter or with the text. -/
theorem readOn_skip {b : Array Char} (hstart : start ≤ i) (hi : i ≤ text.length) :
    readOn text line carry i (.under .invalid b line start) =
      (readOn text line carry (skipEnd text i) {}).after
        [.token ⟨.unknown, String.ofList (stretch text start (skipEnd text i)), line, start,
          skipEnd text i⟩] := by
  have hfull : (Pending.under .invalid b line start).isFull = false := by simp [Pending.isFull]
  obtain ⟨w, rest, hdrop, htake, -, hw, hrest⟩ := exists_run (fun c => !isDelimiter c) (text.drop i)
  have hend : i + w.length = skipEnd text i := by rw [skipEnd, htake]
  have hskipped : (Pending.under .invalid b line start).skipped
      ⟨text.toArray, line, skipEnd text i⟩ (skipEnd text i) = _ :=
    skipped_eq rfl (Nat.le_trans hstart (le_skipEnd text i)) (skipEnd_le hi)
  have hstay : ∀ c ∈ w, ∀ s, dispatch (.under .invalid b line start) s c =
      .use (.under .invalid b line start) := by
    intro c hc s
    have hd : isDelimiter c = false := by simpa using hw c hc
    simp only [dispatch, onInvalid, hd, Bool.false_eq_true, if_false]
  rw [readOn_stay ⟨rest, hdrop.symm⟩ hfull hstay, hend, ← hskipped]
  refine readOn_settle (skipEnd_le hi) ?_ rfl
  intro c hc
  have hhead : rest.head? = some c := by
    rw [← hend, ← List.getElem?_drop, hdrop, List.getElem?_append_right (Nat.le_refl _),
      Nat.sub_self] at hc
    rwa [List.head?_eq_getElem?]
  have hd : isDelimiter c = true := by simpa using hrest c hhead
  have hskip : dispatch (.under .invalid b line start) ⟨text.toArray, line, skipEnd text i⟩ c =
      .handOn { state := .delimiter } [(Pending.under .invalid b line start).skipped
        ⟨text.toArray, line, skipEnd text i⟩ (skipEnd text i)] := by
    simp only [dispatch, onInvalid, hd, if_true]
  rw [readOn_handOn hc hfull rfl hskip, readOn_delimiter hc hd]

/-- A token that is given up: the fault, and what is skipped from where the token began. -/
theorem readOn_reject {b : Array Char} {f : Finding} (hc : text[i]? = some c)
    (hp : p.isFull = false) (hstart : start ≤ i)
    (h : dispatch p ⟨text.toArray, line, i⟩ c = .handOn (.under .invalid b line start) [f]) :
    readOn text line carry i p = (readOn text line carry (skipEnd text i) {}).after
      [f, .token ⟨.unknown, String.ofList (stretch text start (skipEnd text i)), line, start,
        skipEnd text i⟩] := by
  have hfull : (Pending.under .invalid b line start).isFull = false := by simp [Pending.isFull]
  have hi := Nat.le_of_lt (List.getElem?_eq_some_iff.mp hc).1
  rw [readOn_handOn hc hp hfull h, readOn_skip hstart hi, Ending.after_after]
  rfl

/-- A character that meets a full lexeme. -/
theorem readOn_full (hc : text[i]? = some c) (hp : p.isFull = true) :
    readOn text line carry i p = (readOn text line carry i (p.goto .invalid)).after
      [p.fault ⟨text.toArray, line, i⟩ .longLexeme] := by
  refine readOn_congr hc ?_
  have hskipping : (p.goto .invalid).isFull = false := by simp [Pending.isFull, Pending.goto]
  rw [step, step, if_pos hp, hskipping]
  rfl

/-! ## The rest as a text of its own -/

/-- The rest of a text is read as it is where the same characters end another text. -/
theorem readOn_moved {part : List Char} (hpart : PartAt part text d)
    (hend : part.length + d = text.length) (line : Nat) (h : p.Stands part l i none start) :
    readOn text line carry (i + d) (p.moved line d) = (readOn part l carry i p).moved line d := by
  have hdrop : text.drop (i + d) = part.drop i := by
    obtain ⟨front, back, rfl, rfl⟩ := hpart
    obtain rfl : back = [] := by
      simp only [List.length_append] at hend
      exact List.eq_nil_of_length_eq_zero (by omega)
    rw [List.append_nil, Nat.add_comm, ← List.drop_drop, List.drop_left]
  obtain ⟨start', -, hstands⟩ := trace_tiles (part.drop i) h (List.prefix_refl _)
  have hlength : i + (part.drop i).length = part.length := by
    have hle := h.le_length
    rw [List.length_drop]
    omega
  rw [hlength] at hstands
  have hfinish := finish_moved (hstands.abreast hpart line) hstands.size_le carry
  rw [hend] at hfinish
  have htrace := trace_moved hpart line (part.drop i) h (List.prefix_refl _)
  simp only [readOn, hdrop, htrace, hfinish, Ending.after, Ending.moved, List.map_append]

/-- Where nothing is pending, the rest is read as a text of its own. -/
theorem readOn_fresh {k : Nat} (hk : k ≤ text.length) :
    readOn text line carry k {} = (readOn (text.drop k) line carry 0 {}).moved line k := by
  have hpart : PartAt (text.drop k) text k :=
    ⟨text.take k, [], by simp, by rw [List.length_take]; omega⟩
  have hend : (text.drop k).length + k = text.length := by
    rw [List.length_drop]
    omega
  have hstands := stands_start line (Nat.zero_le (text.drop k).length)
  rw [← readOn_moved hpart hend line hstands, Nat.zero_add, moved_empty]

end ReadOn

/-! ## A front, and what is beyond it -/

/-- What is read at the beginning of a text: tokens, diagnostics, and the offset where it ends. -/
structure Front where
  tokens : List Token := []
  diagnostics : List Diagnostic := []
  stop : Nat
deriving DecidableEq, Repr

/-- The same front, with tokens `ts` that come first. -/
def Front.after (ts : List Token) (front : Front) : Front :=
  { front with tokens := ts ++ front.tokens }

/-- From column `i` on, where `p` is pending, a text is read as `front` says, and from the end of
the front on with nothing pending. -/
def ReadsFront (text : List Char) (line : Nat) (carry : Bool) (i : Nat) (p : Pending)
    (front : Front) : Prop :=
  front.stop ≤ text.length ∧ ∃ fs, tokensOf fs = front.tokens ∧ diagnosticsOf fs = front.diagnostics
    ∧ readOn text line carry i p = (readOn text line carry front.stop {}).after fs

section Reads

variable {text : List Char} {line i j : Nat} {carry : Bool} {p q : Pending} {front : Front}

theorem ReadsFront.of_eq (h : ReadsFront text line carry j q front)
    (heq : readOn text line carry i p = readOn text line carry j q) :
    ReadsFront text line carry i p front := by
  unfold ReadsFront
  rwa [heq]

theorem ReadsFront.after {t : Token} (h : ReadsFront text line carry j q front)
    (heq : readOn text line carry i p = (readOn text line carry j q).after [.token t]) :
    ReadsFront text line carry i p (front.after [t]) := by
  obtain ⟨hstop, fs, htokens, hdiagnostics, hread⟩ := h
  refine ⟨hstop, .token t :: fs, ?_, ?_, ?_⟩
  · rw [tokensOf_token, htokens, Front.after, List.singleton_append]
  · exact hdiagnostics
  · rw [heq, hread, Ending.after_after]
    rfl

end Reads

/-- The characters of a text from offset `k` on. -/
def beyond (text : String) (k : Nat) : String := String.ofList (text.toList.drop k)

theorem tokensOf_moved (line d : Nat) (fs : List Finding) :
    tokensOf (fs.map (Finding.moved line d)) = (tokensOf fs).map (Token.moved line d) := by
  induction fs with
  | nil => rfl
  | cons f fs ih => cases f <;> simp [Finding.moved, ih]

theorem diagnosticsOf_moved (line d : Nat) (fs : List Finding) :
    diagnosticsOf (fs.map (Finding.moved line d)) =
      (diagnosticsOf fs).map (Diagnostic.moved line d) := by
  induction fs with
  | nil => rfl
  | cons f fs ih => cases f <;> simp [Finding.moved, ih]

theorem commentsOf_moved (line d : Nat) (fs : List Finding) :
    commentsOf (fs.map (Finding.moved line d)) = commentsOf fs := by
  induction fs with
  | nil => rfl
  | cons f fs ih => cases f <;> simp [Finding.moved, ih]

theorem Ending.moved_moved (e : Ending) (line k d : Nat) :
    (e.moved line k).moved line d = e.moved line (k + d) := by
  have hposition : Position.moved line d ∘ Position.moved line k = Position.moved line (k + d) :=
    funext fun p => congrArg (Position.mk line) (Nat.add_assoc p.column k d)
  have hdiagnostic : ∀ x : Diagnostic, (x.moved line k).moved line d = x.moved line (k + d) := by
    intro x
    simp [Diagnostic.moved, Nat.add_assoc]
  have hfinding : Finding.moved line d ∘ Finding.moved line k = Finding.moved line (k + d) := by
    funext f
    cases f with
    | token t => simp [Finding.moved, Token.moved, Nat.add_assoc]
    | fault st x => simp [Finding.moved, hdiagnostic]
    | comment => rfl
  have herror : ∀ x : LexError, (x.moved line k).moved line d = x.moved line (k + d) := by
    intro x
    cases x with
    | terminal x => simp [LexError.moved, hdiagnostic]
    | handOverLimit st c p => simp [LexError.moved, Position.moved, Nat.add_assoc]
  obtain ⟨p, fs, result⟩ := e
  simp only [Ending.moved, Pending.moved, List.map_map, Option.map_map, hfinding, hposition]
  cases result with
  | ok => rfl
  | error x => exact congrArg (fun y => Ending.mk _ _ (.error y)) (herror x)

namespace Lexer

/-- What a fresh lexer makes of a text from offset `k` on. -/
def afresh (lx : Lexer) (text : String) (line k : Nat) : Lexer × Except LexError Unit :=
  ({ settings := lx.settings } : Lexer).feed (beyond text k) line

/-- A text is fed as its front says, and then as a fresh lexer is fed what is beyond the front, with
the offsets moved. -/
structure FeedsThen (lx : Lexer) (text : String) (line : Nat) (front : Front) : Prop where
  stop_le : front.stop ≤ text.toList.length
  result : (lx.feed text line).2 =
    (lx.afresh text line front.stop).2.mapError (LexError.moved line front.stop)
  pending : (lx.feed text line).1.pending =
    (lx.afresh text line front.stop).1.pending.moved line front.stop
  tokens : (lx.feed text line).1.tokens.toList = lx.tokens.toList ++ (front.tokens ++
    (lx.afresh text line front.stop).1.tokens.toList.map (Token.moved line front.stop))
  diagnostics : (lx.feed text line).1.diagnostics.toList = lx.diagnostics.toList ++
    (front.diagnostics ++ (lx.afresh text line front.stop).1.diagnostics.toList.map
      (Diagnostic.moved line front.stop)).take (maxDiagnostics - lx.diagnostics.size)

/-- A text that has been followed to the end of its front with nothing pending there. -/
theorem feedsThen_of_readsFront {lx : Lexer} {text : String} {line : Nat} {front : Front}
    (hp : lx.pending = {})
    (h : ReadsFront text.toList line lx.settings.carryComments 0 {} front) :
    lx.FeedsThen text line front := by
  obtain ⟨hstop, fs, htokens, hdiagnostics, h⟩ := h
  have hfresh : ({ settings := lx.settings } : Lexer).reading (beyond text front.stop) line =
      readOn (text.toList.drop front.stop) line lx.settings.carryComments 0 {} := by
    rw [reading_eq_readOn, beyond, String.toList_ofList]
  have hread : lx.reading text line = ((({ settings := lx.settings } : Lexer).reading
      (beyond text front.stop) line).moved line front.stop).after fs := by
    rw [reading_eq_readOn, hp, h, readOn_fresh hstop, hfresh]
  refine ⟨hstop, ?_, ?_, ?_, ?_⟩
  · rw [feed_result, hread, afresh, feed_result]
    rfl
  · rw [feed_pending, hread, afresh, feed_pending]
    rfl
  · rw [feed_tokens, hread, afresh, fresh_tokens]
    simp only [Ending.after, Ending.moved, tokensOf_append, tokensOf_moved, htokens]
  · rw [feed_diagnostics, hread, afresh, fresh_diagnostics]
    simp only [Ending.after, Ending.moved, diagnosticsOf_append, diagnosticsOf_moved, hdiagnostics,
      List.take_append, List.map_take, List.take_take]
    congr 3
    omega

theorem feedsThen_ofList {lx : Lexer} {text : List Char} {line : Nat} {front : Front}
    (hp : lx.pending = {}) (h : ReadsFront text line lx.settings.carryComments 0 {} front) :
    lx.FeedsThen (String.ofList text) line front := by
  refine feedsThen_of_readsFront hp ?_
  rwa [String.toList_ofList]

end Lexer

end ContractLex
