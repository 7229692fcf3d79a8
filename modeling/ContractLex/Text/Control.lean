/-!
# Control characters

What is left of a text that goes to a place where controls mean nothing. Control characters are left
out, and with them the control sequences that an escape character begins; line breaks and tabs stay.

The sequences are read in the way of a terminal: an escape character breaks off the sequence that is
under way and begins another, the next character says of what sort it is, and each sort has its own
end. Where the text stands is a `ControlState`, and `ControlState.take` is one step of the reading.
`withoutControls_of_plain` says that a text of plain characters stays as it is, and
`isPlain_of_mem_keepPlain` that nothing else stays of any text.
-/

namespace ContractLex.Text

def isLayout (c : Char) : Bool := c == '\t' || c == '\n' || c == '\x0c' || c == '\r'

/-- Characters that stay, unless they are part of a sequence. -/
def isPlain (c : Char) : Bool := isLayout c || (' ' ≤ c && c != '\x7f')

/-- How far a control sequence has come. -/
inductive ControlSequence where
  | none
  | escape
  /-- After it and a character that wants a final one. -/
  | designation
  | command
  /-- In a title, which only the bell ends. -/
  | title
  | device
  | deviceParameter
  | deviceIntermediate
  /-- In the body of a device string, or in one that nobody reads. -/
  | body
deriving DecidableEq, Repr

namespace ControlSequence

/-- The octet that ends the body of a string. -/
def terminator : UInt8 := 0x9c

/-- What the character after an escape begins. Controls do not count. -/
def afterEscape (c : Char) : ControlSequence :=
  if ' ' ≤ c ∧ c ≤ '/' then .designation
  else if c = '[' then .command
  else if c = ']' then .title
  else if c = 'P' then .device
  else if c = 'X' ∨ c = '^' ∨ c = '_' then .body
  else if '0' ≤ c ∧ c ≤ '~' then .none
  else .escape

/-- The sequence after one more character. Cancel and substitute end any, and an escape begins
another. -/
def next (q : ControlSequence) (c : Char) : ControlSequence :=
  if c = '\x18' ∨ c = '\x1a' then .none
  else if c = '\x1b' then .escape
  else
    match q with
    | .none => .none
    | .escape => afterEscape c
    | .designation => if '0' ≤ c ∧ c ≤ '~' then .none else .designation
    | .command => if '@' ≤ c ∧ c ≤ '~' then .none else .command
    | .title => if c = '\x07' then .none else .title
    | .device =>
      if ' ' ≤ c ∧ c ≤ '/' then .deviceIntermediate
      else if '0' ≤ c ∧ c ≤ '?' then .deviceParameter
      else if '@' ≤ c ∧ c ≤ '~' then .body
      else .device
    | .deviceParameter =>
      if ' ' ≤ c ∧ c ≤ '/' then .deviceIntermediate
      else if '<' ≤ c ∧ c ≤ '~' then .body
      else .deviceParameter
    | .deviceIntermediate => if '0' ≤ c ∧ c ≤ '~' then .body else .deviceIntermediate
    | .body => if (String.utf8EncodeChar c).contains terminator then .none else .body

/-- Whether a character stays that stands in the sequence. Titles and strings keep nothing, and of
other sequences only the layout stays. -/
def keeps (q : ControlSequence) (c : Char) : Bool :=
  match q with
  | .none => isPlain c
  | .escape | .designation | .command => isLayout c
  | _ => false

end ControlSequence

/-- Where a text stands: the sequence that is under way, and whether the character before stayed. A
run of plain characters stays as a whole once its first one does, also in a sequence. -/
structure ControlState where
  sequence : ControlSequence := .none
  running : Bool := false
deriving DecidableEq, Repr

namespace ControlState

/-- Takes a character, and says whether it stays. -/
def take (s : ControlState) (c : Char) : ControlState × Bool :=
  if s.running && isPlain c then
    ({ s with sequence := if c ≤ '~' then s.sequence else .none }, true)
  else
    let kept := s.sequence.keeps c
    ({ sequence := s.sequence.next c, running := kept }, kept)

def keepPlain (s : ControlState) : List Char → List Char
  | [] => []
  | c :: cs =>
    match s.take c with
    | (s, true) => c :: s.keepPlain cs
    | (s, false) => s.keepPlain cs

end ControlState

def withoutControls (text : String) : String :=
  String.ofList (({} : ControlState).keepPlain text.toList)

/-! ## What stays -/

theorem isPlain_of_isLayout {c : Char} (h : isLayout c = true) : isPlain c = true := by
  simp [isPlain, h]

theorem ControlSequence.isPlain_of_keeps {q : ControlSequence} {c : Char}
    (h : q.keeps c = true) : isPlain c = true := by
  cases q with
  | none => exact h
  | escape | designation | command => exact isPlain_of_isLayout h
  | title | device | deviceParameter | deviceIntermediate | body => exact Bool.noConfusion h

namespace ControlState

theorem isPlain_of_take {s : ControlState} {c : Char} (h : (s.take c).2 = true) :
    isPlain c = true := by
  unfold take at h
  split at h
  · next hp => exact (Bool.and_eq_true_iff.1 hp).2
  · exact ControlSequence.isPlain_of_keeps h

theorem isPlain_of_mem_keepPlain {cs : List Char} {s : ControlState} {c : Char}
    (h : c ∈ s.keepPlain cs) : isPlain c = true := by
  induction cs generalizing s with
  | nil => simp [keepPlain] at h
  | cons d ds ih =>
    have hd : (s.take d).2 = true → isPlain d = true := isPlain_of_take
    unfold keepPlain at h
    split at h
    · next heq =>
      rcases List.mem_cons.1 h with rfl | h
      · exact hd (by rw [heq])
      · exact ih h
    · exact ih h

/-- Outside a sequence a plain character stays and begins none. -/
theorem take_plain {s : ControlState} {c : Char} (hs : s.sequence = .none)
    (hc : isPlain c = true) : (s.take c).2 = true ∧ (s.take c).1.sequence = .none := by
  have hesc : c ≠ '\x1b' := by rintro rfl; exact absurd hc (by decide)
  unfold take
  split
  · exact ⟨rfl, by simp [hs]⟩
  · simp [hs, hc, hesc, ControlSequence.keeps, ControlSequence.next]

theorem keepPlain_of_plain {cs : List Char} {s : ControlState} (hs : s.sequence = .none)
    (h : ∀ c ∈ cs, isPlain c = true) : s.keepPlain cs = cs := by
  induction cs generalizing s with
  | nil => rfl
  | cons c cs ih =>
    obtain ⟨hkept, hnone⟩ := take_plain hs (h c List.mem_cons_self)
    have hcs := ih hnone fun d hd => h d (List.mem_cons_of_mem _ hd)
    rw [keepPlain, ← Prod.eta (s.take c), hkept]
    exact congrArg (c :: ·) hcs

end ControlState

/-- A text of plain characters has no controls to lose. -/
theorem withoutControls_of_plain {text : String} (h : ∀ c ∈ text.toList, isPlain c = true) :
    withoutControls text = text := by
  rw [withoutControls, ControlState.keepPlain_of_plain rfl h, String.ofList_toList]

end ContractLex.Text
