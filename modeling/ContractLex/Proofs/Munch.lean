import ContractLex.Proofs.Lines
import ContractLex.Proofs.Spelled
import Mathlib.Data.List.Chain

/-!
# Operators are as long as they can be

An operator token is the longest spelling of an operator that begins at its column. One dash is
excepted: `init-` and `auto-` can begin a keyword, so the dash is read as a part of the word, before
it is known what follows; where no word does, it is cut off as a minus sign on its own. `endsCut`
finds that dash again in a list of tokens: it follows `init` or `auto` directly, and these are not
themselves what stands after such a dash.

Two invariants are behind the results. `Cleared` is kept from piece to piece of a tiling: after
`init` or `auto` comes no dash that would still belong to them, and after a dash that was cut off
comes no word that would have been read together with it. `Followed` is kept from dispatch to
dispatch: after a word that a dash follows, the operator that begins with the dash comes next, or it
is under way.
-/

namespace ContractLex

open Spelling

/-! ## Words that were cut at their dash

Tokens that have been read are listed from the latest one back. -/

def Token.isDashName (t : Token) : Bool := t.kind == .identifier && isDashPrefix t.text

/-- The latest token ends at column `i`. -/
def touches (past : List Token) (i : Nat) : Bool := past.head?.any (·.stop == i)

/-- The latest token is the dash of a word that was cut at its dash. -/
def endsCut : List Token → Bool
  | m :: a :: past =>
      m.kind == .operator .minus && a.stop == m.start && a.isDashName
        && !(endsCut past && touches past a.start)
  | _ => false

/-- A dash directly after `t` would belong to the same word. -/
def opensCut (past : List Token) (t : Token) : Bool :=
  t.isDashName && !(endsCut past && touches past t.start)

/-- Every operator among tokens that come after `past` is as long as it can be, unless it is the
dash of a word that was cut. -/
def MunchedFrom (text : List Char) : (past ts : List Token) → Prop
  | _, [] => True
  | past, t :: ts =>
      (t.kind.isOperator = true → Longest text t.start t.stop ∨ endsCut (t :: past) = true)
        ∧ MunchedFrom text (t :: past) ts

/-- The tokens `past` lie before column `i`, and no word that was cut could have gone on here. -/
structure Cleared (text : List Char) (past : List Token) (i : Nat) : Prop where
  le : ∀ t ∈ past.head?, t.stop ≤ i
  undashed : ∀ t rest, past = t :: rest → t.stop = i → opensCut rest t = true →
    text[i]? ≠ some '-'
  unstarted : endsCut past = true → touches past i = true →
    ∀ c, text[i]? = some c → isWordStart c = false

theorem getElem?_of_stretch_cons {text w : List Char} {i j : Nat} {c : Char}
    (h : stretch text i j = c :: w) : text[i]? = some c := by
  have hhead := congrArg List.head? h
  rw [stretch, List.head?_take] at hhead
  split at hhead
  · cases hhead
  · rwa [List.head?_drop] at hhead

theorem eq_of_minus {w : List Char} (h : operator? (String.ofList w) = some .minus) :
    w = ['-'] := by
  have hall : ∀ x ∈ operators, x.2 = .minus → x.1 = "-" := by decide
  have heq := congrArg String.toList (hall _ (mem_operators h) rfl)
  simpa using heq

section Munched

variable {text : List Char} {line i j : Nat} {past ts us front back : List Token} {t m : Token}
  {fs : List Finding}

theorem touches_iff : touches past i = true ↔ ∃ t rest, past = t :: rest ∧ t.stop = i := by
  cases past <;> simp [touches]

theorem endsCut_cons_iff {a : Token} :
    endsCut (m :: a :: past) = true ↔
      m.kind = .operator .minus ∧ a.stop = m.start ∧ opensCut past a = true := by
  simp [endsCut, opensCut, and_assoc]

theorem endsCut_nonminus (h : t.kind ≠ .operator .minus) : endsCut (t :: past) = false := by
  cases past with
  | nil => rfl
  | cons a past => simp [endsCut, h]

theorem MunchedFrom.append (h : MunchedFrom text past ts)
    (h' : MunchedFrom text (ts.reverse ++ past) us) : MunchedFrom text past (ts ++ us) := by
  induction ts generalizing past with
  | nil => simpa using h'
  | cons t ts ih => exact ⟨h.1, ih h.2 (by simpa using h')⟩

theorem MunchedFrom.munched (h : MunchedFrom text past (front ++ t :: back))
    (ht : t.kind.isOperator = true) :
    Longest text t.start t.stop ∨ endsCut (t :: (front.reverse ++ past)) = true := by
  induction front generalizing past with
  | nil => exact h.1 ht
  | cons u front ih => simpa using ih h.2

/-- After a gap everything is clear. -/
theorem Cleared.skip (h : Cleared text past i) (hij : i < j) : Cleared text past j where
  le := fun t ht => Nat.le_trans (h.le t ht) (Nat.le_of_lt hij)
  undashed := by
    rintro t rest rfl hstop
    have := h.le t rfl
    omega
  unstarted := by
    intro _ htouches
    obtain ⟨t, rest, rfl, hstop⟩ := touches_iff.mp htouches
    have := h.le t rfl
    omega

theorem cleared_nil (text : List Char) (i : Nat) : Cleared text [] i :=
  ⟨nofun, nofun, nofun⟩

/-- A token that reads a minus sign and has clear space before it is no dash that was cut off. -/
theorem Cleared.endsCut_eq_false (h : Cleared text past t.start)
    (hread : t.kind = .operator .minus → text[t.start]? = some '-') :
    endsCut (t :: past) = false := by
  cases past with
  | nil => rfl
  | cons a rest =>
      refine Bool.eq_false_iff.mpr fun hcut => ?_
      obtain ⟨hminus, hstop, hopens⟩ := endsCut_cons_iff.mp hcut
      exact h.undashed a rest rfl hstop hopens (hread hminus)

/-- A name with clear space before it opens a word that a dash can cut. -/
theorem Cleared.opensCut (h : Cleared text past t.start) (ht : t.isDashName = true) {c : Char}
    (hc : text[t.start]? = some c) (hstart : isWordStart c = true) : opensCut past t = true := by
  have hnot : (endsCut past && touches past t.start) = false := by
    refine Bool.eq_false_iff.mpr fun hboth => ?_
    obtain ⟨hcut, htouches⟩ := Bool.and_eq_true_iff.mp hboth
    exact Bool.false_ne_true ((h.unstarted hcut htouches c hc).symm.trans hstart)
  simp [ContractLex.opensCut, ht, hnot]

/-- The tokens of a word that is cut at its dash. Only the dash is an operator, and it is excepted;
what stands after it opens no word that a dash can cut. -/
theorem munched_splitWord {a b : List Char} (hpast : Cleared text past i) (hj : j ≤ text.length)
    (hw : stretch text i j = a ++ '-' :: b) (ha : isDashPrefix (String.ofList a) = true)
    (hnext : b = [] → ∀ c, text[j]? = some c → isWordStart c = false) :
    MunchedFrom text past (splitWord line i a b)
      ∧ Cleared text ((splitWord line i a b).reverse ++ past) j := by
  have hlen := add_length_of_stretch_eq (by simp) hj hw
  have hopens : opensCut past ⟨.identifier, String.ofList a, line, i, i + a.length⟩ = true := by
    obtain ⟨c, v, hword, hc, -⟩ := isWord_of_isDashPrefix ha
    have hhead : stretch text i j = c :: (v ++ '-' :: b) := by rw [hw, hword]; rfl
    exact Cleared.opensCut (t := ⟨.identifier, _, line, i, _⟩) hpast
      (by simp [Token.isDashName, ha]) (getElem?_of_stretch_cons hhead) hc
  have hcut : endsCut (⟨.operator .minus, "-", line, i + a.length, i + a.length + 1⟩
      :: ⟨.identifier, String.ofList a, line, i, i + a.length⟩ :: past) = true :=
    endsCut_cons_iff.mpr ⟨rfl, rfl, hopens⟩
  by_cases hb : b = []
  · have hstop : i + a.length + 1 = j := by
      simp only [hb, List.length_append, List.length_singleton] at hlen
      omega
    rw [splitWord, if_pos hb]
    refine ⟨⟨?_, fun _ => Or.inr hcut, trivial⟩, ⟨?_, ?_, fun _ _ => hnext hb⟩⟩
    · intro hop
      cases hop
    · intro t ht
      cases ht
      exact Nat.le_of_eq hstop
    · rintro t rest heq - hname
      obtain ⟨rfl, -⟩ := List.cons.inj heq
      cases hname
  · have hstop : i + a.length + 1 + b.length = j := by
      simp only [List.length_append, List.length_cons] at hlen
      omega
    rw [splitWord, if_neg hb]
    refine ⟨⟨?_, fun _ => Or.inr hcut, ?_, trivial⟩, ⟨?_, ?_, fun hlast => ?_⟩⟩
    · intro hop
      cases hop
    · intro hop
      cases hop
    · intro t ht
      cases ht
      exact Nat.le_of_eq hstop
    · rintro t rest heq - hname
      obtain ⟨rfl, rfl⟩ := List.cons.inj heq
      simp [opensCut, hcut, touches] at hname
    · exact absurd ((endsCut_nonminus (by simp)).symm.trans hlast) Bool.false_ne_true

/-- The tokens of one piece, and what is clear after it. -/
theorem Piece.munched (h : Piece text line i fs j) (hpast : Cleared text past i) :
    MunchedFrom text past (tokensOf fs) ∧ Cleared text ((tokensOf fs).reverse ++ past) j := by
  cases h with
  | fault => exact ⟨trivial, hpast⟩
  | blank => exact ⟨trivial, hpast.skip (Nat.lt_succ_self _)⟩
  | comment hij => exact ⟨trivial, hpast.skip hij⟩
  | @token _ k tx hij hj hk hid hended =>
      refine ⟨⟨fun hop => Or.inl ?_, trivial⟩, ?_⟩
      · cases k with
        | operator o => exact hended.longest o rfl
        | literal | keyword | delimiter | identifier | unknown | blank => cases hop
      · have hcut := Cleared.endsCut_eq_false
          (t := ⟨k, String.ofList tx, line, i, j⟩) hpast ?_
        · refine ⟨fun t ht => by cases ht; exact Nat.le_refl _, ?_, fun h => ?_⟩
          · rintro t rest heq - hopens
            obtain ⟨rfl, -⟩ := List.cons.inj heq
            simp only [opensCut, Token.isDashName, Bool.and_eq_true, beq_iff_eq] at hopens
            exact hended.undashed hopens.1.1 hopens.1.2
          · exact absurd (hcut.symm.trans h) Bool.false_ne_true
        · rintro rfl
          obtain ⟨hw, -⟩ := hk
          exact getElem?_of_stretch_cons (eq_of_minus hw)
  | @split _ a b hj hw ha hb hnext =>
      rw [tokensOf_map_token]
      exact munched_splitWord hpast hj hw ha hnext

theorem Tiles.munched (h : Tiles text line i fs j) :
    ∀ {past : List Token}, Cleared text past i →
      MunchedFrom text past (tokensOf fs) ∧ Cleared text ((tokensOf fs).reverse ++ past) j := by
  induction h with
  | nil => exact fun hpast => ⟨trivial, hpast⟩
  | cons hp _ ih =>
      intro past hpast
      obtain ⟨hfirst, hmid⟩ := hp.munched hpast
      obtain ⟨hrest, hlast⟩ := ih hmid
      rw [tokensOf_append]
      exact ⟨hfirst.append hrest, by simpa using hlast⟩

theorem Ends.munched {carry : Bool} {p : Pending} {start : Nat} {e : Ending}
    (h : Ends text line carry p start e) (hpast : Cleared text past start) :
    MunchedFrom text past (tokensOf e.findings) := by
  cases h with
  | settled htiles => exact (htiles.munched hpast).1
  | cut | carried | terminal => exact trivial

end Munched

/-! ## Words that an operator follows -/

/-- Names, keywords and boolean literals. -/
def Kind.isWord : Kind → Bool
  | .identifier | .keyword _ | .literal .bool => true
  | _ => false

/-- The token is a word, and a dash follows it directly. -/
def Token.BeforeDash (text : List Char) (t : Token) : Prop :=
  t.kind.isWord = true ∧ text[t.stop]? = some '-'

/-- After a word that a dash follows comes the operator that begins with the dash. -/
def DashNext (text : List Char) (t n : Token) : Prop :=
  t.BeforeDash text → n.start = t.stop ∧ n.kind.isOperator = true

/-- The operator that begins with a dash at column `j` is still to come, or it is under way. -/
inductive Awaits (line j : Nat) : Nat → Pending → Prop
  | next : Awaits line j j {}
  | begun : Awaits line j j (.under .operator #[] line j)
  | dash {st} : st = .minus ∨ st = .doubling ∨ st = .beforeEquals →
      Awaits line j (j + 1) (.under st #['-'] line j)

/-- Every word that a dash follows has its operator after it; only the last token may lack it, if
the operator at its end is awaited. -/
structure Followed (text : List Char) (awaited : Nat → Prop) (ts : List Token) : Prop where
  chain : ts.IsChain (DashNext text)
  last : ∀ t ∈ ts.getLast?, t.BeforeDash text → awaited t.stop

/-- No word lacks its operator. -/
abbrev AllFollowed (text : List Char) (ts : List Token) : Prop := Followed text (fun _ => False) ts

section Followed

variable {text : List Char} {line i j n start : Nat} {c : Char} {p q : Pending} {m : Move}
  {awaited : Nat → Prop} {ts us : List Token} {fs gs : List Finding} {t u : Token}

theorem not_beforeDash (h : t.kind.isWord = false) : ¬ t.BeforeDash text :=
  fun ht => Bool.false_ne_true (h.symm.trans ht.1)

theorem isWord_of_isOperator {k : Kind} (h : k.isOperator = true) : k.isWord = false := by
  cases k with
  | operator o => rfl
  | literal | keyword | delimiter | identifier | unknown | blank => cases h

theorem followed_nil : Followed text awaited [] := ⟨.nil, nofun⟩

theorem followed_singleton (h : t.BeforeDash text → awaited t.stop) :
    Followed text awaited [t] :=
  ⟨.singleton t, fun u hu => by cases hu; exact h⟩

theorem Followed.append (hts : AllFollowed text ts) (hus : Followed text awaited us) :
    Followed text awaited (ts ++ us) where
  chain := List.isChain_append.mpr
    ⟨hts.chain, hus.chain, fun t ht _ _ hdash => (hts.last t ht hdash).elim⟩
  last := by
    intro t ht hdash
    rcases List.eq_nil_or_concat' us with rfl | ⟨front, u, rfl⟩
    · rw [List.append_nil] at ht
      exact (hts.last t ht hdash).elim
    · rw [← List.append_assoc, List.getLast?_concat] at ht
      exact hus.last t (by rwa [List.getLast?_concat]) hdash

/-- The operator that was awaited. -/
theorem Followed.concat (hts : Followed text awaited ts)
    (h : ∀ t ∈ ts.getLast?, u.start = t.stop) (hu : u.kind.isOperator = true) :
    AllFollowed text (ts ++ [u]) where
  chain := List.isChain_append.mpr ⟨hts.chain, .singleton u, fun t ht v hv _ => by
    cases hv
    exact ⟨h t ht, hu⟩⟩
  last := by
    intro t ht hdash
    rw [List.getLast?_concat] at ht
    cases ht
    exact not_beforeDash (isWord_of_isOperator hu) hdash

/-- Either the operator after the last word is awaited, or no word lacks its operator. -/
theorem Followed.cases_last (h : Followed text awaited ts) :
    (∃ t ∈ ts.getLast?, t.BeforeDash text ∧ awaited t.stop) ∨ AllFollowed text ts := by
  by_cases hlast : ∃ t ∈ ts.getLast?, t.BeforeDash text
  · obtain ⟨t, ht, hdash⟩ := hlast
    exact Or.inl ⟨t, ht, hdash, h.last t ht hdash⟩
  · exact Or.inr ⟨h.chain, fun t ht hdash => hlast ⟨t, ht, hdash⟩⟩

/-! ### One dispatch -/

/-- What a dispatch reports is one operator, which begins at column `j`. -/
def ReportsOperator (j : Nat) (fs : List Finding) : Prop :=
  ∃ u, fs = [.token u] ∧ u.start = j ∧ u.kind.isOperator = true

theorem reportsOperator_closeWith {st : State} {l : Array Char} (o : Operator) :
    ReportsOperator j ((Pending.under st l line j).closeWith ⟨text.toArray, line, i⟩ c
      (.operator o)).findings := by
  have htoken : (Pending.under st (l.push c) line j).token ⟨text.toArray, line, i⟩ (.operator o)
      (i + 1) = .token ⟨.operator o, String.ofList (l.push c).toList, line, j, i + 1⟩ :=
    token_eq rfl
  rw [Pending.closeWith, under_push, htoken]
  exact ⟨_, rfl, rfl, rfl⟩

theorem reportsOperator_firstOperator (st : State) (text : List Char) (line i j stop : Nat) :
    ReportsOperator j ((Pending.under st #['-'] line j).firstOperator ⟨text.toArray, line, i⟩
      stop) := by
  obtain ⟨o, -, heq⟩ := firstOperator_eq (l := #['-']) st text line i j stop rfl rfl
  exact ⟨_, heq, rfl, rfl⟩

theorem reportsOperator_closeOperator (st : State) :
    ReportsOperator j ((Pending.under st #['-'] line j).closeOperator
      ⟨text.toArray, line, i⟩).findings :=
  reportsOperator_firstOperator st text line i j i

/-- The first character of the operator is a dash, and whatever follows, a token ends with it or
before it. -/
theorem Awaits.dispatch (h : Awaits line j i p) (hj : text[j]? = some '-')
    (hc : text[i]? = some c) :
    (dispatch p ⟨text.toArray, line, i⟩ c).findings = []
        ∧ Awaits line j (if (dispatch p ⟨text.toArray, line, i⟩ c).used then i + 1 else i)
          (dispatch p ⟨text.toArray, line, i⟩ c).pending
      ∨ ReportsOperator j (dispatch p ⟨text.toArray, line, i⟩ c).findings := by
  cases h with
  | next =>
      obtain rfl := Option.some.inj (hc.symm.trans hj)
      exact Or.inl ⟨rfl, .begun⟩
  | begun =>
      obtain rfl := Option.some.inj (hc.symm.trans hj)
      exact Or.inl ⟨rfl, .dash (Or.inl rfl)⟩
  | @dash st hst =>
      rcases hst with rfl | rfl | rfl
      · simp only [ContractLex.dispatch, onMinus]
        split
        · exact Or.inl ⟨rfl, .dash (Or.inr (Or.inl rfl))⟩
        · exact Or.inl ⟨rfl, .dash (Or.inr (Or.inr rfl))⟩
        · exact Or.inr (reportsOperator_closeWith _)
        · exact Or.inr (reportsOperator_closeOperator _)
      · simp only [ContractLex.dispatch, onDoubling]
        split
        · next hsize => exact absurd rfl hsize
        · split
          · exact Or.inl ⟨rfl, .dash (Or.inr (Or.inr rfl))⟩
          · split
            · exact Or.inr (reportsOperator_closeWith _)
            · exact Or.inr (reportsOperator_closeWith _)
            · exact Or.inr (reportsOperator_closeOperator _)
      · simp only [ContractLex.dispatch, onBeforeEquals]
        split
        · next hsize => exact absurd rfl hsize
        · split
          · exact Or.inr (reportsOperator_closeWith _)
          · exact Or.inr (reportsOperator_closeOperator _)

/-- The dash of a word that is cut follows at once. -/
theorem followed_splitWord {a b : List Char} (hj : start + (a ++ '-' :: b).length = j)
    (h : b ≠ [] → awaited j) : Followed text awaited (splitWord line start a b) := by
  have hdash : DashNext text ⟨.identifier, String.ofList a, line, start, start + a.length⟩
      ⟨.operator .minus, "-", line, start + a.length, start + a.length + 1⟩ :=
    fun _ => ⟨rfl, rfl⟩
  by_cases hb : b = []
  · rw [splitWord, if_pos hb]
    refine ⟨.cons_cons hdash (.singleton _), fun t ht => ?_⟩
    cases ht
    exact fun h => absurd h (not_beforeDash rfl)
  · rw [splitWord, if_neg hb]
    refine ⟨.cons_cons hdash (.cons_cons (fun h => absurd h (not_beforeDash rfl)) (.singleton _)),
      fun t ht _ => ?_⟩
    cases ht
    have hstop : start + a.length + 1 + b.length = j := by
      simp only [List.length_append, List.length_cons] at hj
      omega
    exact hstop ▸ h hb

/-- What is reported where no operator is awaited. -/
theorem Outcome.followed (h : p.Stands text line i (some c) start)
    (ho : Outcome text line i c p start m) :
    Followed text (Awaits line · (if m.used then i + 1 else i) m.pending)
      (tokensOf m.findings) := by
  cases ho with
  | blank | goOn | lineBreak | pass | comment | reject => exact followed_nil
  | close hk _ _ hq =>
      rcases hq with rfl | ⟨rfl, rfl⟩
      · exact followed_singleton fun _ => .next
      · exact followed_singleton fun h => absurd h (not_beforeDash rfl)
  | closeBefore => exact followed_singleton fun _ => .next
  | skip => exact followed_singleton fun h => absurd h (not_beforeDash rfl)
  | split hw =>
      rw [Move.handOn, tokensOf_map_token]
      exact followed_splitWord (add_length_of_stretch_eq (by simp) h.le_length hw) fun _ => .next

theorem dispatch_followed (h : p.Stands text line i (some c) start)
    (hf : Followed text (Awaits line · i p) (tokensOf fs)) :
    Followed text
      (Awaits line · (if (dispatch p ⟨text.toArray, line, i⟩ c).used then i + 1 else i)
        (dispatch p ⟨text.toArray, line, i⟩ c).pending)
      (tokensOf (fs ++ (dispatch p ⟨text.toArray, line, i⟩ c).findings)) := by
  rw [tokensOf_append]
  rcases hf.cases_last with ⟨t, ht, hdash, hawaited⟩ | hall
  · have hunique : ∀ u ∈ (tokensOf fs).getLast?, t = u := fun u hu =>
      Option.some.inj (ht.symm.trans hu)
    rcases hawaited.dispatch hdash.2 (h.getElem? c rfl) with
      ⟨hnil, hawaits⟩ | ⟨u, hu, hstart, hop⟩
    · rw [hnil, tokensOf_nil, List.append_nil]
      exact ⟨hf.chain, fun u hu _ => hunique u hu ▸ hawaits⟩
    · rw [hu]
      have hall : AllFollowed text (tokensOf fs ++ [u]) :=
        hf.concat (fun v hv => hunique v hv ▸ hstart) hop
      exact ⟨hall.chain, fun v hv hdash => (hall.last v hv hdash).elim⟩
  · exact hall.append ((dispatch_outcome h).followed h)

/-! ### A text -/

theorem Awaits.length_le (h : Awaits line j i p) : p.length ≤ 1 := by
  cases h <;> simp

/-- A lexeme that is full belongs to no operator. -/
theorem entry_followed (hf : Followed text (Awaits line · i p) ts) :
    Followed text (Awaits line · i p.entry) ts := by
  refine ⟨hf.chain, fun t ht hdash => ?_⟩
  have hawaits := hf.last t ht hdash
  have hfull : p.isFull = false := by
    have hlength := Nat.lt_of_le_of_lt hawaits.length_le (show 1 < maxLexeme by decide)
    simp [Pending.isFull, Nat.not_le.mpr hlength]
  rwa [Pending.entry, hfull]

theorem step_followed (h : p.Stands text line i none start) (hc : text[i]? = some c)
    (hf : Followed text (Awaits line · i p) (tokensOf fs)) :
    Followed text (Awaits line · (i + 1) (step ⟨text.toArray, line, i⟩ p c).pending)
      (tokensOf (fs ++ (step ⟨text.toArray, line, i⟩ p c).findings)) := by
  obtain ⟨n, -, gs, q, hpass, hstep⟩ := exists_step ⟨text.toArray, line, i⟩ c p
  have hnext := hpass.preserves
    (I := fun i p fs => Followed text (Awaits line · i p) (tokensOf fs))
    dispatch_followed (h.entry hc) (entry_followed hf)
  rw [hstep]
  simpa [Move.use, tokensOf_overflow] using hnext

theorem trace_followed (rest : List Char) (h : p.Stands text line i none start)
    (hpre : rest <+: text.drop i) :
    Followed text (Awaits line · (i + rest.length) (trace text line i p rest).1)
      (tokensOf (trace text line i p rest).2) := by
  have hinv := trace_induction text line
    (I := fun i q fs => (∃ start, q.Stands text line i none start)
      ∧ Followed text (Awaits line · i q) (tokensOf fs))
    (fun j q fs c hc ⟨⟨start, hstands⟩, hf⟩ => by
      obtain ⟨start', -, hstands'⟩ := step_tiles hstands hc
      exact ⟨⟨start', hstands'⟩, step_followed hstands hc hf⟩)
    rest i p [] hpre ⟨⟨start, h⟩, followed_nil⟩
  exact hinv.2

/-- No dash follows a token that ends with the text. -/
theorem Followed.all (h : Followed text (· = text.length) ts) : AllFollowed text ts :=
  ⟨h.chain, fun t ht hdash => by simpa [h.last t ht hdash] using hdash.2⟩

theorem dashed_followed {st : State} {l : Array Char} {a b : List Char}
    (hl : l.toList = stretch text start text.length) (ha : isDashPrefix (String.ofList a) = true)
    (hw : stretch text start text.length = a ++ '-' :: b) :
    Followed text (· = text.length) (tokensOf
      ((Pending.under st l line start).dashed ⟨text.toArray, line, text.length⟩ text.length)) := by
  have hend := add_length_of_stretch_eq (by simp) (Nat.le_refl _) hw
  rcases dashed_cases st line hw (by rw [hw]; exact hend) ha hl with ⟨k, -, heq⟩ | heq
  · rw [heq]
    exact followed_singleton fun _ => rfl
  · rw [heq, tokensOf_map_token]
    exact followed_splitWord hend fun _ => rfl

theorem finish_followed (carry : Bool) (h : p.Stands text line text.length none start) :
    Followed text (· = text.length)
      (tokensOf (p.finish ⟨text.toArray, line, text.length⟩ carry).findings) := by
  obtain ⟨st, l, o, m⟩ := p
  have hopened : o = if st.isIdle then none else some ⟨line, start⟩ := h.opened
  have hlength : m = l.size := h.length_eq
  subst hopened hlength
  have htoken : ∀ (q : Pending) (k : Kind), Followed text (· = text.length)
      (tokensOf [q.token ⟨text.toArray, line, text.length⟩ k text.length]) :=
    fun _ _ => followed_singleton fun _ => rfl
  have hfirst : ∀ q : Pending, Followed text (· = text.length)
      (tokensOf (q.firstOperator ⟨text.toArray, line, text.length⟩ text.length)) := fun q => by
    unfold Pending.firstOperator
    split
    · exact htoken q _
    · exact followed_nil
  cases st <;> simp only [Pending.finish]
  case identifier | number | float | leftArrow => exact htoken _ _
  case operator | beforeEquals | doubling | logical | minus | less | greater | slash =>
      exact hfirst _
  case identifierDash =>
      obtain ⟨hl, a, b, ha, -, hw⟩ := h.holds
      exact dashed_followed hl ha hw
  case decimal =>
      split
      · exact followed_singleton fun _ => rfl
      · exact htoken _ _
  case invalid => exact followed_singleton fun _ => rfl
  case blockComment | blockCommentStar => split <;> exact followed_nil
  all_goals exact followed_nil

theorem Awaits.finish (carry : Bool) (h : Awaits line j i p) (hj : text[j]? = some '-')
    (hi : text.length ≤ i) :
    ReportsOperator j (p.finish ⟨text.toArray, line, i⟩ carry).findings := by
  have hlt := (List.getElem?_eq_some_iff.mp hj).1
  cases h with
  | next | begun => omega
  | @dash st hst =>
      have hop := reportsOperator_firstOperator st text line (j + 1) j (j + 1)
      rcases hst with rfl | rfl | rfl <;> exact hop

/-- At the end of a text nothing is awaited any more. -/
theorem Followed.finish (carry : Bool) (h : p.Stands text line text.length none start)
    (hf : Followed text (Awaits line · text.length p) ts) :
    AllFollowed text
      (ts ++ tokensOf (p.finish ⟨text.toArray, line, text.length⟩ carry).findings) := by
  rcases hf.cases_last with ⟨t, ht, hdash, hawaited⟩ | hall
  · obtain ⟨u, heq, hu, hop⟩ := hawaited.finish carry hdash.2 (Nat.le_refl _)
    rw [heq]
    exact hf.concat (fun v hv => Option.some.inj (ht.symm.trans hv) ▸ hu) hop
  · exact hall.append (finish_followed carry h).all

theorem AllFollowed.next (h : AllFollowed text (ts ++ t :: us)) (hdash : t.BeforeDash text) :
    ∃ u rest, us = u :: rest ∧ u.start = t.stop ∧ u.kind.isOperator = true := by
  cases us with
  | nil => exact (h.last t (by rw [List.getLast?_concat]; rfl) hdash).elim
  | cons u rest =>
      have hchain := (List.isChain_append.mp h.chain).2.1
      obtain ⟨hstart, hop⟩ := (List.isChain_cons_cons.mp hchain).1 hdash
      exact ⟨u, rest, rfl, hstart, hop⟩

end Followed

/-! ## A call -/

/-- The operators of two characters that begin with a dash. -/
def dashCompounds : List (String × Operator) :=
  [("->", .rightArrow), ("--", .decrement), ("-=", .minusEquals)]

section Compound

variable {text : List Char} {n : Token}

/-- An operator that is as long as it can be, where one of them stands. -/
theorem eq_of_dashCompounds {before : List Token} (hs : Spelled text before n)
    (hop : n.kind.isOperator = true) (hlong : Longest text n.start n.stop)
    {x : String × Operator} (hx : x ∈ dashCompounds) (hpre : x.1.toList <+: text.drop n.start) :
    n = ⟨.operator x.2, x.1, n.line, n.start, n.start + 2⟩ := by
  have htable : ∀ x ∈ dashCompounds, x ∈ operators ∧ x.1.toList.length = 2
      ∧ ∀ y ∈ operators, x.1.toList <+: y.1.toList → y = x := by decide
  obtain ⟨hmem, hlen, hunique⟩ := htable x hx
  obtain ⟨k, tx, line, i, j⟩ := n
  cases k with
  | operator o =>
      obtain ⟨hread, htext⟩ := hs.reads
      have hij : i < j := hs.lt
      have hj : j ≤ text.length := hs.le
      have hw : stretch text i j <+: text.drop i :=
        ⟨text.drop j, stretch_append_drop (Nat.le_of_lt hij)⟩
      have hshort : x.1.toList.length ≤ (stretch text i j).length := by
        rw [length_stretch hj]
        exact Nat.le_of_not_lt fun hlt => hlong x hmem hlt hpre
      have heq : (String.ofList (stretch text i j), o) = x :=
        hunique _ (mem_operators hread) (by
          simpa using List.prefix_of_prefix_length_le hpre hw hshort)
      subst heq
      have hstop : j = i + 2 := by
        rw [String.toList_ofList, length_stretch hj] at hlen
        omega
      have htx : tx = String.ofList (stretch text i j) := by
        rw [← String.toList_inj, String.toList_ofList]
        exact htext
      rw [htx, hstop]
  | literal | keyword | delimiter | identifier | unknown | blank => cases hop

theorem beforeDash_of_compound {t : Token} {x : String × Operator} (ht : t.kind.isWord = true)
    (hx : x ∈ dashCompounds) (hpre : x.1.toList <+: text.drop t.stop) : t.BeforeDash text := by
  have htable : ∀ x ∈ dashCompounds, x.1.toList.head? = some '-' := by decide
  refine ⟨ht, ?_⟩
  obtain ⟨rest, hrest⟩ := hpre
  rw [← List.head?_drop, ← hrest, List.head?_append, htable x hx]
  rfl

end Compound

theorem Lexer.Reachable.reading_followed {lx : Lexer} (h : lx.Reachable)
    (hstart : lx.state = .start) (text : String) (line : Nat) :
    AllFollowed text.toList (tokensOf (lx.reading text line).findings) := by
  obtain ⟨start, -, hstands⟩ := traceFrom_tiles line (Nat.zero_le text.toList.length)
  have htrace := trace_followed text.toList (stands_start line (Nat.zero_le text.toList.length))
    (List.prefix_refl _)
  rw [Nat.zero_add] at htrace
  rw [Lexer.reading_eq_trace, h.pending_eq hstart, tokensOf_append]
  exact htrace.finish lx.settings.carryComments hstands

/-- The tokens that a call from `start` adds: each operator is the longest that begins at its
column, unless it is the dash of a word that was cut; and directly after a word that opens no such
word, `->`, `--` and `-=` are one token. -/
theorem feed_munches {lx : Lexer} (h : lx.Reachable) (hstart : lx.state = .start) (text : String)
    (line : Nat) :
    ∃ ts, (lx.feed text line).1.tokens.toList = lx.tokens.toList ++ ts
      ∧ ∀ before t after, ts = before ++ t :: after →
        (t.kind.isOperator = true →
          Longest text.toList t.start t.stop ∨ endsCut (t :: before.reverse) = true)
        ∧ (t.kind.isWord = true → opensCut before.reverse t = false →
          ∀ x ∈ dashCompounds, x.1.toList <+: text.toList.drop t.stop →
            ∃ rest, after = ⟨.operator x.2, x.1, line, t.stop, t.stop + 2⟩ :: rest) := by
  obtain ⟨fs, start, p, e, htiles, hends, heq⟩ := h.reading_ends hstart text line
  have hfollowed := h.reading_followed hstart text line
  refine ⟨_, lx.feed_tokens text line, fun before t after hsplit => ?_⟩
  have hmunched : MunchedFrom text.toList [] (tokensOf (lx.reading text line).findings) := by
    obtain ⟨hfront, hclear⟩ := htiles.munched (cleared_nil text.toList 0)
    rw [heq, tokensOf_append]
    exact hfront.append (hends.munched hclear)
  have hspelled : SpelledFrom text.toList [] (tokensOf (lx.reading text line).findings) := by
    rw [heq, tokensOf_append]
    exact (htiles.spelled []).append (hends.spelled _)
  have hline : ∀ u ∈ tokensOf (lx.reading text line).findings, u.line = line := by
    intro u hu
    rw [heq] at hu
    exact List.forall_mem_append.mpr ⟨htiles.onLine, hends.onLine⟩ _ (mem_tokensOf.mp hu)
  rw [hsplit] at hfollowed hmunched hspelled hline
  refine ⟨fun hop => ?_, fun hword hopens x hx hpre => ?_⟩
  · simpa using hmunched.munched hop
  · obtain ⟨u, rest, rfl, hu, hop⟩ := hfollowed.next (beforeDash_of_compound hword hx hpre)
    rw [List.append_cons] at hmunched hspelled
    have hlong : Longest text.toList u.start u.stop := by
      refine (hmunched.munched hop).resolve_right fun hcut => ?_
      -- otherwise the dash would have been cut off from `t`
      have hcut : endsCut (u :: t :: before.reverse) = true := by simpa using hcut
      exact Bool.false_ne_true (hopens.symm.trans (endsCut_cons_iff.mp hcut).2.2)
    have heq := eq_of_dashCompounds hspelled.spelled hop hlong hx (by rwa [hu])
    rw [hu, hline u (by simp)] at heq
    exact ⟨rest, by rw [heq]⟩

/-- A text in which the dash of `auto-` is cut off, and two words with a compound after them. -/
theorem feed_munches_auto :
    ({} : Lexer).Reachable ∧ ({} : Lexer).state = .start
      ∧ ∃ ts, (({} : Lexer).feed "auto-=init-y->fn--" 1).1.tokens.toList =
          ({} : Lexer).tokens.toList ++ ts
        ∧ ∀ before t after, ts = before ++ t :: after →
          (t.kind.isOperator = true →
            Longest "auto-=init-y->fn--".toList t.start t.stop
              ∨ endsCut (t :: before.reverse) = true)
          ∧ (t.kind.isWord = true → opensCut before.reverse t = false →
            ∀ x ∈ dashCompounds, x.1.toList <+: "auto-=init-y->fn--".toList.drop t.stop →
              ∃ rest, after = ⟨.operator x.2, x.1, 1, t.stop, t.stop + 2⟩ :: rest) :=
  ⟨⟨{}, [], rfl⟩, rfl, feed_munches ⟨{}, [], rfl⟩ rfl "auto-=init-y->fn--" 1⟩

/-- The dash of `init-` is cut off before a greater sign, though the two spell an operator. -/
theorem feed_cuts_arrow :
    ¬ ∀ t ∈ (({} : Lexer).feed "init->x" 1).1.tokens.toList,
      t.kind.isOperator = true → Longest "init->x".toList t.start t.stop := by
  intro h
  have hmem : ⟨.operator .minus, "-", 1, 4, 5⟩
      ∈ (({} : Lexer).feed "init->x" 1).1.tokens.toList := by decide +kernel
  have hnot : ¬ Longest "init->x".toList 4 5 := by decide
  exact hnot (h _ hmem rfl)

end ContractLex
