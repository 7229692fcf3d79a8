import ContractLex.Proofs.Session
import ContractLex.Proofs.Shift
import ContractLex.Source
import Mathlib.Data.List.Forall2

/-!
# The lines of a source

`Text.lines` takes a source apart into lines, each followed by its line end, except for the last
(`SplitsInto`). Feeding the lines adds the findings of one after the other (`Lexer.Adds`). The line
with index `k` begins at `lineStart`, and what is found in it, fed by itself, is found in the source
that many columns further on (`Finding.MovedIn`).
-/

namespace ContractLex

open Spelling

/-! ## The lines of a source -/

/-- The offset at which the line with index `k` begins: right after the line feed before it. -/
def lineStart : List Char → Nat → Nat
  | _, 0 => 0
  | [], _ + 1 => 0
  | c :: rest, k + 1 => 1 + lineStart rest (if c = '\n' then k else k + 1)

@[simp] theorem lineStart_zero (text : List Char) : lineStart text 0 = 0 := by
  cases text <;> rfl

/-- A line feed, with or without a carriage return before it. -/
def IsLineEnd (w : List Char) : Prop := w = ['\n'] ∨ w = ['\r', '\n']

/-- A source taken apart into lines and line ends. -/
inductive SplitsInto : List Char → List String → Prop
  | nil : SplitsInto [] []
  | last (l : String) : SplitsInto l.toList [l]
  | line {l : String} {w rest ls} : '\n' ∉ l.toList → IsLineEnd w → SplitsInto rest ls →
      SplitsInto (l.toList ++ w ++ rest) (l :: ls)

/-- A line feed ends a line together with the carriage return before it, if there is one. -/
theorem dropReturn_cases (line : List Char) :
    ∃ w, IsLineEnd w ∧ line.reverse ++ ['\n'] = (Text.dropReturn line).reverse ++ w
      ∧ ∀ c ∈ Text.dropReturn line, c ∈ line := by
  unfold Text.dropReturn
  split
  · exact ⟨['\r', '\n'], Or.inr rfl, by simp, fun c hc => List.mem_cons_of_mem _ hc⟩
  · exact ⟨['\n'], Or.inl rfl, rfl, fun c hc => hc⟩

theorem splitLines_splitsInto (rest : List Char) :
    ∀ line : List Char, '\n' ∉ line →
      SplitsInto (line.reverse ++ rest) (Text.splitLines #[] line rest).toList := by
  induction rest with
  | nil =>
      intro line _
      cases line with
      | nil => exact .nil
      | cons c line =>
          have hlast := SplitsInto.last (String.ofList (c :: line).reverse)
          rw [String.toList_ofList] at hlast
          simpa [Text.splitLines] using hlast
  | cons c rest ih =>
      intro line hline
      by_cases hc : c = '\n'
      · subst hc
        have hrest := ih [] List.not_mem_nil
        rw [Text.splitLines, if_pos rfl, Text.splitLines_eq_append]
        obtain ⟨w, hw, heq, hmem⟩ := dropReturn_cases line
        have hl : (String.ofList (Text.dropReturn line).reverse).toList =
            (Text.dropReturn line).reverse := String.toList_ofList
        have hline' := SplitsInto.line (l := String.ofList (Text.dropReturn line).reverse)
          (by rw [hl]; exact fun hm => hline (hmem _ (List.mem_reverse.mp hm))) hw hrest
        rw [hl, ← heq] at hline'
        simpa using hline'
      · rw [Text.splitLines, if_neg hc]
        have hnext := ih (c :: line) (by simp [hline, Ne.symm hc])
        simpa using hnext

theorem lines_splitsInto (source : String) : SplitsInto source.toList (Text.lines source) := by
  simpa [Text.lines] using splitLines_splitsInto source.toList [] List.not_mem_nil

theorem SplitsInto.length_le {cs : List Char} {ls : List String} (h : SplitsInto cs ls) :
    ∀ l ∈ ls, l.toList.length ≤ cs.length := by
  induction h with
  | nil => exact List.forall_mem_nil _
  | last l => exact List.forall_mem_singleton.mpr (Nat.le_refl _)
  | line _ _ _ ih =>
      refine List.forall_mem_cons.mpr ⟨?_, fun l hl => ?_⟩
      · simp only [List.length_append]
        omega
      · have hle := ih l hl
        simp only [List.length_append]
        omega

theorem lineStart_line {l w : List Char} (hl : '\n' ∉ l) (hw : IsLineEnd w) (rest : List Char)
    (k : Nat) : lineStart (l ++ w ++ rest) (k + 1) = (l ++ w).length + lineStart rest k := by
  induction l with
  | nil =>
      rcases hw with rfl | rfl
      · simp [lineStart]
      · simp [lineStart]
        omega
  | cons c l ih =>
      have hc : c ≠ '\n' := fun heq => hl (by simp [heq])
      have hnext := ih (fun hm => hl (List.mem_cons_of_mem c hm))
      simp only [List.cons_append, lineStart, hc, if_false, hnext, List.length_cons]
      omega

/-- The source goes on with `rest` where its line with index `k` begins, after `front`. -/
structure LeftFrom (source : List Char) (k : Nat) (front rest : List Char) : Prop where
  source_eq : source = front ++ rest
  starts : ∀ j, lineStart source (k + j) = front.length + lineStart rest j

section LeftFrom

variable {source front rest l w : List Char} {k : Nat}

theorem leftFrom_zero (source : List Char) : LeftFrom source 0 [] source := ⟨rfl, by simp⟩

theorem LeftFrom.start_eq (h : LeftFrom source k front rest) :
    lineStart source k = front.length := by
  simpa using h.starts 0

theorem LeftFrom.partAt (h : LeftFrom source k front (l ++ rest)) :
    PartAt l source front.length :=
  ⟨front, rest, by rw [h.source_eq, List.append_assoc], rfl⟩

/-- After a line and its end, the next line begins. -/
theorem LeftFrom.next (h : LeftFrom source k front (l ++ w ++ rest)) (hl : '\n' ∉ l)
    (hw : IsLineEnd w) : LeftFrom source (k + 1) (front ++ (l ++ w)) rest where
  source_eq := by
    rw [h.source_eq]
    simp only [List.append_assoc]
  starts := by
    intro j
    have hlen : (front ++ (l ++ w)).length = front.length + (l ++ w).length := List.length_append
    rw [Nat.add_assoc, Nat.add_comm 1, h.starts, lineStart_line hl hw, hlen, Nat.add_assoc]

end LeftFrom

/-! ## Feeding lines -/

/-- One lexer holds what another held, and the findings `fs` on top. -/
structure Lexer.Adds (lx : Lexer) (fs : List Finding) (ly : Lexer) : Prop where
  settings : ly.settings = lx.settings
  tokens : ly.tokens.toList = lx.tokens.toList ++ tokensOf fs
  diagnostics : ly.diagnostics.toList = lx.diagnostics.toList
    ++ (diagnosticsOf fs).take (maxDiagnostics - lx.diagnostics.size)
  count : ly.metrics.diagnostics = lx.metrics.diagnostics + (diagnosticsOf fs).length

namespace Lexer

variable {lx ly lz : Lexer} {fs gs : List Finding}

theorem adds_nil (lx : Lexer) : lx.Adds [] lx := ⟨rfl, by simp, by simp, rfl⟩

theorem adds_feed (lx : Lexer) (text : String) (line : Nat) :
    lx.Adds (lx.reading text line).findings (lx.feed text line).1 :=
  ⟨lx.feed_settings text line, lx.feed_tokens text line, lx.feed_diagnostics text line,
    lx.feed_diagnosticCount text line⟩

theorem adds_absorbEnding (lx : Lexer) (e : Ending) : lx.Adds e.findings (lx.absorbEnding e) :=
  ⟨foldl_absorb_settings _ _, foldl_absorb_tokens _ _, foldl_absorb_diagnostics _ _,
    foldl_absorb_diagnosticCount _ _⟩

/-- The end of the input adds no token. -/
theorem adds_finish (lx : Lexer) : ∃ fs, tokensOf fs = [] ∧ lx.Adds fs lx.finish.1 := by
  unfold finish
  split
  · exact ⟨_, rfl, adds_absorbEnding lx _⟩
  · exact ⟨[], rfl, adds_nil lx⟩

theorem Adds.trans (h : lx.Adds fs ly) (h' : ly.Adds gs lz) : lx.Adds (fs ++ gs) lz where
  settings := h'.settings.trans h.settings
  tokens := by rw [h'.tokens, h.tokens, tokensOf_append, List.append_assoc]
  diagnostics := by
    have hsize : ly.diagnostics.size = lx.diagnostics.size
        + min (maxDiagnostics - lx.diagnostics.size) (diagnosticsOf fs).length := by
      rw [← Array.length_toList, h.diagnostics]
      simp
    have hroom : maxDiagnostics - ly.diagnostics.size =
        maxDiagnostics - lx.diagnostics.size - (diagnosticsOf fs).length := by omega
    rw [h'.diagnostics, h.diagnostics, hroom, diagnosticsOf_append, List.take_append,
      List.append_assoc]
  count := by
    rw [h'.count, h.count, diagnosticsOf_append, List.length_append]
    omega

/-- Feeding lines is a sequence of calls. -/
theorem exists_run_feedLines (ls : List String) :
    ∀ (lx : Lexer) (k : Nat), ∃ calls, (lx.feedLines k ls).1 = lx.run calls := by
  induction ls with
  | nil => exact fun lx k => ⟨[], rfl⟩
  | cons l ls ih =>
      intro lx k
      rw [feedLines]
      rcases hfeed : lx.feed l (lineNumber k) with ⟨ly, error | _⟩
      · exact ⟨[.feed l (lineNumber k)], by simp [run, call, hfeed]⟩
      · obtain ⟨calls, heq⟩ := ih ly (k + 1)
        exact ⟨.feed l (lineNumber k) :: calls, by simp [run, call, hfeed, heq]⟩

end Lexer

/-! ## What is found in a line -/

def Finding.OnLine (line : Nat) : Finding → Prop
  | .token t => t.line = line
  | .fault _ d => d.line = line
  | .comment => True

/-- What is found in one of the first `n` lines, and the same as it is found in the source. -/
def Finding.MovedIn (source : List Char) (n : Nat) (f g : Finding) : Prop :=
  ∃ k < n, f.OnLine (lineNumber k) ∧ g = f.moved 1 (lineStart source k)

section OnLine

variable {text : List Char} {line i j : Nat} {fs : List Finding}

theorem Piece.onLine (h : Piece text line i fs j) : ∀ f ∈ fs, f.OnLine line := by
  cases h with
  | fault hline => simpa [Finding.OnLine] using hline
  | blank => exact List.forall_mem_nil _
  | comment | token => simp [Finding.OnLine]
  | @split j a b =>
      intro f hf
      obtain ⟨t, ht, rfl⟩ := List.mem_map.mp hf
      simp only [splitWord, List.mem_cons] at ht
      rcases ht with rfl | rfl | ht
      · rfl
      · rfl
      · split at ht
        · cases ht
        · obtain rfl := List.mem_singleton.mp ht
          rfl

theorem Tiles.onLine (h : Tiles text line i fs j) : ∀ f ∈ fs, f.OnLine line := by
  induction h with
  | nil => exact List.forall_mem_nil _
  | cons hp _ ih => exact List.forall_mem_append.mpr ⟨hp.onLine, ih⟩

theorem Ends.onLine {carry : Bool} {p : Pending} {start : Nat} {e : Ending}
    (h : Ends text line carry p start e) : ∀ f ∈ e.findings, f.OnLine line := by
  cases h with
  | settled htiles => exact htiles.onLine
  | cut => simp [Finding.OnLine]
  | carried => exact List.forall_mem_nil _
  | terminal =>
      intro f hf
      obtain rfl := List.mem_singleton.mp hf
      rfl

theorem forall₂_movedIn {source : List Char} {k n : Nat} (hk : k < n)
    (hfs : ∀ f ∈ fs, f.OnLine (lineNumber k)) :
    List.Forall₂ (Finding.MovedIn source n) fs
      (fs.map (Finding.moved 1 (lineStart source k))) := by
  rw [List.forall₂_map_right_iff, List.forall₂_same]
  exact fun f hf => ⟨k, hk, hfs f hf, rfl⟩

end OnLine

end ContractLex
