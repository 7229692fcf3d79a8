import ContractLex.Json.Basic

/-!
# The text of a JSON value

`Json.text` says what `Json.write` appends, as a list of characters (`toList_write`): a string in
quotes with its characters escaped, items and members with commas between them. What a value holds
are its `leaves`; where none of them is a number kept as it was written, no control character is in
the text (`printed_text`).
-/

namespace ContractLex.Json

/-! ## Texts -/

/-- A string between its quotes. -/
def quoted (s : String) : List Char := '"' :: escape s.toList ++ ['"']

mutual

def text : Json → List Char
  | .null => "null".toList
  | .bool b => (if b then "true" else "false").toList
  | .int n => (toString n).toList
  | .real literal => literal.toList
  | .string s => quoted s
  | .array items => '[' :: itemsText true items ++ [']']
  | .object members => '{' :: membersText true members ++ ['}']
  | .beyond => "null".toList

def itemsText (first : Bool) : List Json → List Char
  | [] => []
  | item :: items => (if first then [] else [',']) ++ text item ++ itemsText false items

def membersText (first : Bool) : List (String × Json) → List Char
  | [] => []
  | (name, value) :: members =>
    (if first then [] else [',']) ++ quoted name ++ ':' :: text value ++ membersText false members

end

/-! ## Writing -/

theorem toList_foldl_push (cs : List Char) :
    ∀ out : String, (cs.foldl String.push out).toList = out.toList ++ cs := by
  induction cs with
  | nil => simp
  | cons c cs ih =>
      intro out
      rw [List.foldl_cons, ih, String.toList_push, List.append_assoc]
      rfl

theorem toList_foldl_escape (cs : List Char) :
    ∀ out : String, (cs.foldl (fun out c => (escapeChar c).foldl String.push out) out).toList =
      out.toList ++ escape cs := by
  induction cs with
  | nil => simp [escape]
  | cons c cs ih =>
      intro out
      rw [List.foldl_cons, ih, toList_foldl_push, List.append_assoc]
      rfl

theorem toList_writeString (out s : String) :
    (writeString out s).toList = out.toList ++ quoted s := by
  rw [writeString, String.toList_push, toList_foldl_escape, String.toList_push]
  simp [quoted]

mutual

theorem toList_write : ∀ (j : Json) (out : String), (write out j).toList = out.toList ++ text j
  | .null, out | .bool _, out | .int _, out | .real _, out | .beyond, out => by
      rw [write, String.toList_append, text]
  | .string s, out => by rw [write, toList_writeString, text]
  | .array items, out => by
      rw [write, String.toList_push, toList_writeItems items, String.toList_push, text]
      simp
  | .object members, out => by
      rw [write, String.toList_push, toList_writeMembers members, String.toList_push, text]
      simp

theorem toList_writeItems : ∀ (items : List Json) (out : String) (first : Bool),
    (writeItems out first items).toList = out.toList ++ itemsText first items
  | [], out, first => by simp [writeItems, itemsText]
  | item :: items, out, first => by
      rw [writeItems, toList_writeItems items, toList_write item, itemsText]
      cases first <;> simp

theorem toList_writeMembers : ∀ (members : List (String × Json)) (out : String) (first : Bool),
    (writeMembers out first members).toList = out.toList ++ membersText first members
  | [], out, first => by simp [writeMembers, membersText]
  | (name, value) :: members, out, first => by
      rw [writeMembers, toList_writeMembers members, toList_write value, String.toList_push,
        toList_writeString, membersText]
      cases first <;> simp

end

theorem toList_render (j : Json) : j.render.toList = text j := by
  rw [render, toList_write]
  rfl

/-! ## Leaves -/

mutual

/-- The values inside a value that hold no others. -/
def leaves : Json → List Json
  | .array items => itemsLeaves items
  | .object members => membersLeaves members
  | j => [j]

def itemsLeaves : List Json → List Json
  | [] => []
  | item :: items => leaves item ++ itemsLeaves items

def membersLeaves : List (String × Json) → List Json
  | [] => []
  | (_, value) :: members => leaves value ++ membersLeaves members

end

theorem itemsLeaves_eq_flatMap (items : List Json) : itemsLeaves items = items.flatMap leaves := by
  induction items with
  | nil => rfl
  | cons item items ih => rw [itemsLeaves, ih, List.flatMap_cons]

def isReal : Json → Bool
  | .real _ => true
  | _ => false

/-- A value that is read back as it is written: if it is a number, then an integer that 64 bits
hold. -/
def isExact : Json → Bool
  | .int n => -(negativeLimit : Int) ≤ n && n < naturalLimit
  | .real _ | .beyond => false
  | _ => true

theorem isReal_of_isExact {j : Json} (h : j.isExact = true) : j.isReal = false := by
  cases j with
  | real => cases h
  | _ => rfl

theorem isExact_nat {n : Nat} (h : n < naturalLimit) : (nat n).isExact = true := by
  rw [nat, isExact, Bool.and_eq_true, decide_eq_true_iff, decide_eq_true_iff]
  omega

mutual

theorem isHeld_of_isExact : ∀ {j : Json}, (∀ x ∈ leaves j, x.isExact = true) → j.isHeld = true
  | .array items, h => by
      rw [leaves] at h
      rw [isHeld]
      exact itemsHeld_of_isExact h
  | .object members, h => by
      rw [leaves] at h
      rw [isHeld]
      exact membersHeld_of_isExact h
  | .beyond, h => absurd (h .beyond List.mem_cons_self) (by decide)
  | .null, _ | .bool _, _ | .int _, _ | .string _, _ | .real _, _ => rfl

theorem itemsHeld_of_isExact : ∀ {items : List Json},
    (∀ x ∈ itemsLeaves items, x.isExact = true) → itemsHeld items = true
  | [], _ => rfl
  | item :: items, h => by
      rw [itemsLeaves, List.forall_mem_append] at h
      rw [itemsHeld, isHeld_of_isExact h.1, itemsHeld_of_isExact h.2]
      rfl

theorem membersHeld_of_isExact : ∀ {members : List (String × Json)},
    (∀ x ∈ membersLeaves members, x.isExact = true) → membersHeld members = true
  | [], _ => rfl
  | (_, value) :: members, h => by
      rw [membersLeaves, List.forall_mem_append] at h
      rw [membersHeld, isHeld_of_isExact h.1, membersHeld_of_isExact h.2]
      rfl

end

/-! ## Control characters -/

/-- No character is a control character. -/
def Printed (cs : List Char) : Prop := ∀ c ∈ cs, 0x20 ≤ c.toNat

theorem printed_of_all {cs : List Char} (h : cs.all (0x20 ≤ ·.toNat) = true) : Printed cs :=
  fun c hc => of_decide_eq_true (List.all_eq_true.mp h c hc)

theorem printed_append {cs ds : List Char} (hc : Printed cs) (hd : Printed ds) :
    Printed (cs ++ ds) :=
  List.forall_mem_append.mpr ⟨hc, hd⟩

theorem printed_cons {c : Char} {cs : List Char} (hc : 0x20 ≤ c.toNat) (hcs : Printed cs) :
    Printed (c :: cs) :=
  List.forall_mem_cons.mpr ⟨hc, hcs⟩

theorem printed_hex4 (n : Nat) : Printed (hex4 n) := by
  have hdigit : ∀ d < 16, 0x20 ≤ (Nat.digitChar d).toNat := by decide
  have hmod (m : Nat) : 0x20 ≤ (Nat.digitChar (m % 16)).toNat :=
    hdigit _ (Nat.mod_lt _ (by decide))
  intro c hc
  simp only [hex4, List.map_cons, List.map_nil, List.mem_cons, List.not_mem_nil, or_false] at hc
  rcases hc with rfl | rfl | rfl | rfl <;> exact hmod _

theorem printed_escapeChar (c : Char) : Printed (escapeChar c) := by
  unfold escapeChar
  iterate 7
    split
    · exact printed_of_all rfl
  split
  · exact printed_cons (by decide) (printed_cons (by decide) (printed_hex4 _))
  · next hc => exact List.forall_mem_singleton.mpr (Nat.le_of_not_lt hc)

theorem printed_quoted (s : String) : Printed (quoted s) := by
  refine printed_append (printed_cons (by decide) ?_) (printed_of_all rfl)
  intro c hc
  obtain ⟨a, -, ha⟩ := List.mem_flatMap.mp hc
  exact printed_escapeChar a c ha

theorem printed_toDigits (n : Nat) : Printed (Nat.toDigits 10 n) := by
  intro c hc
  have hdigit : c.isDigit = true := Nat.isDigit_of_mem_toDigits (by decide) (by decide) hc
  have hlow : '0'.val ≤ c.val := of_decide_eq_true (Bool.and_eq_true_iff.mp hdigit).1
  exact Nat.le_trans (by decide) (UInt32.le_iff_toNat_le.mp hlow)

theorem text_int (n : Int) :
    text (.int n) =
      if 0 ≤ n then Nat.toDigits 10 n.toNat else '-' :: Nat.toDigits 10 (-n).toNat := by
  rw [text, Int.toString_eq_repr, Int.repr_eq_if]
  split <;> simp

theorem printed_int (n : Int) : Printed (text (.int n)) := by
  rw [text_int]
  split
  · exact printed_toDigits _
  · exact printed_cons (by decide) (printed_toDigits _)

mutual

theorem printed_text : ∀ {j : Json}, (∀ x ∈ leaves j, x.isReal = false) → Printed (text j)
  | .null, _ | .bool true, _ | .bool false, _ | .beyond, _ =>
      printed_of_all rfl
  | .int n, _ => printed_int n
  | .real _, h => nomatch (show true = false from h _ List.mem_cons_self)
  | .string s, _ => by rw [text]; exact printed_quoted s
  | .array items, h => by
      rw [leaves] at h
      rw [text]
      exact printed_append (printed_cons (by decide) (printed_itemsText true h))
        (printed_of_all rfl)
  | .object members, h => by
      rw [leaves] at h
      rw [text]
      exact printed_append (printed_cons (by decide) (printed_membersText true h))
        (printed_of_all rfl)

theorem printed_itemsText : ∀ {items : List Json} (first : Bool),
    (∀ x ∈ itemsLeaves items, x.isReal = false) → Printed (itemsText first items)
  | [], _, _ => by rw [itemsText]; exact List.forall_mem_nil _
  | item :: items, first, h => by
      rw [itemsLeaves, List.forall_mem_append] at h
      rw [itemsText]
      refine printed_append (printed_append ?_ (printed_text h.1)) (printed_itemsText false h.2)
      cases first <;> exact printed_of_all rfl

theorem printed_membersText : ∀ {members : List (String × Json)} (first : Bool),
    (∀ x ∈ membersLeaves members, x.isReal = false) → Printed (membersText first members)
  | [], _, _ => by rw [membersText]; exact List.forall_mem_nil _
  | (name, value) :: members, first, h => by
      rw [membersLeaves, List.forall_mem_append] at h
      rw [membersText]
      refine printed_append (printed_append (printed_append ?_ (printed_quoted name))
        (printed_cons (by decide) (printed_text h.1))) (printed_membersText false h.2)
      cases first <;> exact printed_of_all rfl

end

theorem printed_render {j : Json} (h : ∀ x ∈ leaves j, x.isReal = false) :
    Printed j.render.toList := by
  rw [toList_render]
  exact printed_text h

end ContractLex.Json
