import ContractLex.Path
import Mathlib.Data.List.Induction

/-!
# The parts of a path

What a path says are its parts but for the idle ones, and where it starts (`components_eq`). A name
that is joined to a path is one more component (`components_join`). A path that ends in a file name
is its parent with that name joined to it, as far as components go, and every name joined to the
parent has the same parent again (`parent_of_fileName?`).
-/

namespace ContractLex.Path

/-! ## Slashes -/

theorem splitSlashes_ne_nil (cs : List Char) : splitSlashes cs ≠ [] := by
  cases cs with
  | nil => exact List.cons_ne_nil _ _
  | cons c cs =>
      rw [splitSlashes]
      split
      · exact List.cons_ne_nil _ _
      · split <;> exact List.cons_ne_nil _ _

theorem splitSlashes_append_slash (cs ds : List Char) :
    splitSlashes (cs ++ '/' :: ds) = splitSlashes cs ++ splitSlashes ds := by
  induction cs with
  | nil => simp [splitSlashes]
  | cons c cs ih =>
      rw [List.cons_append, splitSlashes, splitSlashes, ih]
      by_cases hc : c = '/'
      · simp [hc]
      · obtain ⟨part, parts, hparts⟩ := List.exists_cons_of_ne_nil (splitSlashes_ne_nil cs)
        simp [hc, hparts]

theorem splitSlashes_of_not_mem {cs : List Char} (h : '/' ∉ cs) : splitSlashes cs = [cs] := by
  induction cs with
  | nil => rfl
  | cons c cs ih =>
      rw [List.mem_cons, not_or] at h
      rw [splitSlashes, if_neg (Ne.symm h.1), ih h.2]

theorem slash_not_mem_of_mem_splitSlashes (cs : List Char) :
    ∀ part ∈ splitSlashes cs, '/' ∉ part := by
  induction cs with
  | nil => simp [splitSlashes]
  | cons c cs ih =>
      rw [splitSlashes]
      split
      · exact List.forall_mem_cons.mpr ⟨List.not_mem_nil, ih⟩
      · next hc =>
        obtain ⟨part, parts, hparts⟩ := List.exists_cons_of_ne_nil (splitSlashes_ne_nil cs)
        rw [hparts] at ih ⊢
        obtain ⟨hpart, hrest⟩ := List.forall_mem_cons.mp ih
        have hcons : '/' ∉ c :: part := by
          rw [List.mem_cons, not_or]
          exact ⟨Ne.symm hc, hpart⟩
        exact List.forall_mem_cons.mpr ⟨hcons, hrest⟩

theorem splitSlashes_joinSlashes : ∀ {parts : List (List Char)}, parts ≠ [] →
    (∀ part ∈ parts, '/' ∉ part) → splitSlashes (joinSlashes parts) = parts
  | [], hne, _ => absurd rfl hne
  | [part], _, h => splitSlashes_of_not_mem (h part List.mem_cons_self)
  | part :: next :: parts, _, h => by
      obtain ⟨hpart, hrest⟩ := List.forall_mem_cons.mp h
      rw [joinSlashes, splitSlashes_append_slash, splitSlashes_of_not_mem hpart,
        splitSlashes_joinSlashes (List.cons_ne_nil _ _) hrest]
      · rfl
      · exact List.cons_ne_nil _ _

theorem head?_splitSlashes_cons {c : Char} {cs part : List Char}
    (h : (splitSlashes (c :: cs)).head? = some (c :: part)) :
    (splitSlashes cs).head? = some part := by
  rw [splitSlashes] at h
  split at h
  · cases h
  · obtain ⟨first, parts, hparts⟩ := List.exists_cons_of_ne_nil (splitSlashes_ne_nil cs)
    rw [hparts] at h ⊢
    simpa using h

theorem head?_splitSlashes_nil {cs : List Char} (h : (splitSlashes cs).head? = some []) :
    cs = [] ∨ ∃ rest, cs = '/' :: rest := by
  cases cs with
  | nil => exact Or.inl rfl
  | cons c cs =>
      rw [splitSlashes] at h
      split at h
      · next hc => exact Or.inr ⟨cs, by rw [hc]⟩
      · obtain ⟨first, parts, hparts⟩ := List.exists_cons_of_ne_nil (splitSlashes_ne_nil cs)
        simp [hparts] at h

/-! ## Idle parts at the end -/

section Trim

variable {parts : List (List Char)} {part : List Char}

theorem trimParts_concat_of_idle (h : isIdle part = true) :
    trimParts (parts ++ [part]) = trimParts parts := by
  simp [trimParts, h]

theorem trimParts_concat (h : isIdle part = false) :
    trimParts (parts ++ [part]) = parts ++ [part] := by
  simp [trimParts, h]

theorem trimParts_cases (parts : List (List Char)) :
    trimParts parts = [] ∨ ∃ before part, trimParts parts = before ++ [part]
      ∧ isIdle part = false := by
  induction parts using List.reverseRecOn with
  | nil => exact Or.inl rfl
  | append_singleton parts part ih =>
      cases h : isIdle part with
      | true => rwa [trimParts_concat_of_idle h]
      | false => exact Or.inr ⟨parts, part, trimParts_concat h, h⟩

theorem trimParts_trimParts (parts : List (List Char)) :
    trimParts (trimParts parts) = trimParts parts := by
  rcases trimParts_cases parts with h | ⟨before, part, h, hpart⟩
  · rw [h]
    rfl
  · rw [h, trimParts_concat hpart]

theorem filter_trimParts (parts : List (List Char)) :
    (trimParts parts).filter (!isIdle ·) = parts.filter (!isIdle ·) := by
  induction parts using List.reverseRecOn with
  | nil => rfl
  | append_singleton parts part ih =>
      cases h : isIdle part with
      | true => simp [trimParts_concat_of_idle h, ih, h]
      | false => rw [trimParts_concat h]

theorem trimParts_isPrefix (parts : List (List Char)) : trimParts parts <+: parts := by
  induction parts using List.reverseRecOn with
  | nil => exact List.prefix_rfl
  | append_singleton parts part ih =>
      cases h : isIdle part with
      | true =>
          rw [trimParts_concat_of_idle h]
          exact ih.trans (List.prefix_append _ _)
      | false => simp only [trimParts_concat h, List.prefix_rfl]

end Trim

/-! ## Where a path starts -/

theorem lead_slash (cs : List Char) : lead ('/' :: cs) = (['/'], cs) := rfl

/-- A text begins with a root, with a period that is a part, or with another part. -/
theorem lead_cases (cs : List Char) :
    (∃ body, cs = '/' :: body ∧ lead cs = (['/'], body))
    ∨ (∃ body, cs = '.' :: body ∧ (body = [] ∨ ∃ rest, body = '/' :: rest)
        ∧ lead cs = (['.'], body))
    ∨ lead cs = ([], cs) ∧ (splitSlashes cs).head? ≠ some ['.']
        ∧ ∀ rest, cs ≠ '/' :: rest := by
  unfold lead
  split
  · exact Or.inl ⟨_, rfl, rfl⟩
  · exact Or.inr (Or.inl ⟨_, rfl, Or.inl rfl, rfl⟩)
  · exact Or.inr (Or.inl ⟨_, rfl, Or.inr ⟨_, rfl⟩, rfl⟩)
  · next hroot hlone hdot =>
    refine Or.inr (Or.inr ⟨rfl, fun hhead => ?_, fun rest h => hroot rest h⟩)
    cases cs with
    | nil => cases hhead
    | cons c cs =>
        have hc : c = '.' := by
          rw [splitSlashes] at hhead
          split at hhead
          · cases hhead
          · split at hhead <;> cases hhead <;> rfl
        subst hc
        rcases head?_splitSlashes_nil (head?_splitSlashes_cons hhead) with rfl | ⟨rest, rfl⟩
        · exact hlone rfl
        · exact hdot rest rfl

/-- A first part that is neither empty nor a period stays where it is. -/
theorem lead_of_head {cs : List Char} (hroot : ∀ rest, cs ≠ '/' :: rest)
    (hdot : (splitSlashes cs).head? ≠ some ['.']) : lead cs = ([], cs) := by
  rcases lead_cases cs with ⟨body, rfl, -⟩ | ⟨body, rfl, rfl | ⟨rest, rfl⟩, -⟩ | ⟨h, -⟩
  · exact absurd rfl (hroot body)
  · exact absurd rfl hdot
  · exact absurd (by simp [splitSlashes]) hdot
  · exact h

theorem lead_append_slash {cs : List Char} (hcs : cs ≠ []) (ds : List Char) :
    lead (cs ++ '/' :: ds) = ((lead cs).1, (lead cs).2 ++ '/' :: ds) := by
  rcases lead_cases cs with ⟨body, rfl, -⟩ | ⟨body, rfl, rfl | ⟨rest, rfl⟩, -⟩ | ⟨h, hdot, hroot⟩
  · rfl
  · rfl
  · rfl
  · rw [h]
    refine lead_of_head ?_ ?_
    · intro rest hrest
      obtain ⟨c, cs, rfl⟩ := List.exists_cons_of_ne_nil hcs
      rw [List.cons_append, List.cons.injEq] at hrest
      exact hroot cs (by rw [hrest.1])
    · obtain ⟨first, parts, hparts⟩ := List.exists_cons_of_ne_nil (splitSlashes_ne_nil cs)
      rw [splitSlashes_append_slash, hparts]
      rwa [hparts] at hdot

/-! ## Components -/

/-- The parts that say something. -/
def tellingParts (cs : List Char) : List (List Char) := (splitSlashes cs).filter (!isIdle ·)

/-- Where a path starts, if it says so. -/
def anchor (cs : List Char) : List Component :=
  if (lead cs).1 = ['/'] then [.root] else if (lead cs).1 = ['.'] then [.current] else []

theorem tellingParts_append_slash (cs ds : List Char) :
    tellingParts (cs ++ '/' :: ds) = tellingParts cs ++ tellingParts ds := by
  rw [tellingParts, splitSlashes_append_slash, List.filter_append]
  rfl

theorem tellingParts_slash (cs : List Char) : tellingParts ('/' :: cs) = tellingParts cs :=
  tellingParts_append_slash [] cs

theorem tellingParts_of_concat {cs part : List Char} {parts : List (List Char)}
    (h : splitSlashes cs = parts ++ [part]) (hpart : isIdle part = false) :
    tellingParts cs = parts.filter (!isIdle ·) ++ [part] := by
  have hsingle : [part].filter (!isIdle ·) = [part] := by simp [hpart]
  rw [tellingParts, h, List.filter_append, hsingle]

/-- What is split off in front says nothing. -/
theorem tellingParts_lead (cs : List Char) : tellingParts (lead cs).2 = tellingParts cs := by
  rcases lead_cases cs with ⟨body, rfl, h⟩ | ⟨body, rfl, rfl | ⟨rest, rfl⟩, h⟩ | ⟨h, -⟩
  · rw [h, tellingParts_slash]
  · rfl
  · rw [h, tellingParts_slash]
    exact (tellingParts_append_slash ['.'] rest).symm
  · rw [h]

theorem components_eq (p : Path) :
    p.components = anchor p.text.toList ++ (tellingParts p.text.toList).map Component.ofPart := by
  rw [← tellingParts_lead]
  rfl

/-- The part that a component comes from. -/
def Component.part? : Component → Option (List Char)
  | .root => none
  | .current => none
  | .parent => some ['.', '.']
  | .name chars => some chars

theorem part?_ofPart (part : List Char) : (Component.ofPart part).part? = some part := by
  rw [Component.ofPart]
  split
  · next h => rw [h]; rfl
  · rfl

/-- The components know the parts that say something. -/
theorem tellingParts_eq_filterMap (p : Path) :
    tellingParts p.text.toList = p.components.filterMap Component.part? := by
  have hanchor : (anchor p.text.toList).filterMap Component.part? = [] := by
    rw [anchor]
    split
    · rfl
    · split <;> rfl
  have hparts : Component.part? ∘ Component.ofPart = some := funext part?_ofPart
  rw [components_eq, List.filterMap_append, hanchor, List.filterMap_map, hparts,
    List.filterMap_some, List.nil_append]

theorem isAbsolute_iff (p : Path) : p.isAbsolute = true ↔ p.components.head? = some .root := by
  rw [isAbsolute, components_eq, anchor]
  rcases lead_cases p.text.toList with ⟨body, hp, h⟩ | ⟨body, hp, -, h⟩ | ⟨h, -, hroot⟩
  · simp [hp, lead_slash]
  · simp [hp, hp ▸ h]
  · have hslash : p.text.toList.head? ≠ some '/' := by
      intro hhead
      obtain ⟨rest, hrest⟩ := List.head?_eq_some_iff.mp hhead
      exact hroot rest hrest
    simp only [h, beq_iff_eq, hslash, false_iff]
    cases tellingParts p.text.toList with
    | nil => exact nofun
    | cons part parts =>
        have hpart : Component.ofPart part ≠ .root := by
          rw [Component.ofPart]
          split <;> exact nofun
        simpa using hpart

theorem anchor_append_slash {cs : List Char} (hcs : cs ≠ []) (ds : List Char) :
    anchor (cs ++ '/' :: ds) = anchor cs := by
  rw [anchor, lead_append_slash hcs]
  rfl

/-! ## Names -/

/-- A part that names something. -/
structure IsName (part : List Char) : Prop where
  slash : '/' ∉ part
  telling : isIdle part = false
  proper : part ≠ ['.', '.']

section Names

variable {part : List Char}

theorem IsName.splitSlashes_eq (h : IsName part) : splitSlashes part = [part] :=
  splitSlashes_of_not_mem h.slash

theorem IsName.tellingParts_eq (h : IsName part) : tellingParts part = [part] := by
  simp [tellingParts, h.splitSlashes_eq, h.telling]

theorem IsName.ofPart_eq (h : IsName part) : Component.ofPart part = .name part :=
  if_neg h.proper

theorem IsName.lead_eq (h : IsName part) : lead part = ([], part) := by
  refine lead_of_head ?_ ?_
  · rintro rest rfl
    exact h.slash List.mem_cons_self
  · rw [h.splitSlashes_eq]
    intro hdot
    have hpart : part = ['.'] := by simpa using hdot
    exact absurd h.telling (by rw [hpart]; decide)

theorem IsName.anchor_eq (h : IsName part) : anchor part = [] := by
  rw [anchor, h.lead_eq]
  rfl

/-- A name is joined with a slash, unless the path is empty or ends with one. -/
theorem join_cases (p : Path) (name : String) :
    (p.text.toList = [] ∧ (p.join name).text.toList = name.toList)
    ∨ (∃ before, p.text.toList = before ++ ['/']
        ∧ (p.join name).text.toList = before ++ '/' :: name.toList)
    ∨ p.text.toList ≠ [] ∧ p.text.toList.getLast? ≠ some '/'
        ∧ (p.join name).text.toList = p.text.toList ++ '/' :: name.toList := by
  rw [join]
  split
  · next hend =>
    rw [String.toList_append]
    rcases Bool.or_eq_true_iff.mp hend with hempty | hslash
    · rw [List.isEmpty_iff] at hempty
      exact Or.inl ⟨hempty, by rw [hempty, List.nil_append]⟩
    · obtain ⟨before, hbefore⟩ := List.getLast?_eq_some_iff.mp (beq_iff_eq.mp hslash)
      exact Or.inr (Or.inl ⟨before, hbefore, by rw [hbefore, List.append_assoc]; rfl⟩)
  · next hend =>
    rw [Bool.or_eq_true_iff, not_or, List.isEmpty_iff, beq_iff_eq] at hend
    refine Or.inr (Or.inr ⟨hend.1, hend.2, ?_⟩)
    simp

/-- A name that is joined to a path is one more component. -/
theorem components_join (p : Path) {name : String} (h : IsName name.toList) :
    (p.join name).components = p.components ++ [.name name.toList] := by
  have hname : (tellingParts name.toList).map Component.ofPart = [.name name.toList] := by
    rw [h.tellingParts_eq, List.map_singleton, h.ofPart_eq]
  rw [components_eq, components_eq]
  rcases join_cases p name with ⟨hp, hjoin⟩ | ⟨before, hp, hjoin⟩ | ⟨hp, -, hjoin⟩
  · rw [hp, hjoin, hname, h.anchor_eq]
    rfl
  · rw [hp, hjoin, tellingParts_append_slash, tellingParts_append_slash, List.map_append, hname]
    cases before with
    | nil => rfl
    | cons c before =>
        rw [anchor_append_slash (List.cons_ne_nil _ _), anchor_append_slash (List.cons_ne_nil _ _)]
        simp [tellingParts, splitSlashes, isIdle]
  · rw [hjoin, tellingParts_append_slash, anchor_append_slash hp, List.map_append, hname,
      List.append_assoc]

/-- The name is the last part of the text. -/
theorem splitSlashes_join (p : Path) {name : String} (h : IsName name.toList) :
    ∃ parts, splitSlashes (p.join name).text.toList = parts ++ [name.toList] := by
  rcases join_cases p name with ⟨-, hjoin⟩ | ⟨before, -, hjoin⟩ | ⟨-, -, hjoin⟩
  · exact ⟨[], by rw [hjoin, h.splitSlashes_eq, List.nil_append]⟩
  · exact ⟨_, by rw [hjoin, splitSlashes_append_slash, h.splitSlashes_eq]⟩
  · exact ⟨_, by rw [hjoin, splitSlashes_append_slash, h.splitSlashes_eq]⟩

end Names

/-! ## Parents -/

theorem fileName?_eq_some {p : Path} {name : List Char} :
    p.fileName? = some name ↔ p.components.getLast? = some (.name name) := by
  unfold fileName?
  split
  · next chars h => rw [h, Option.some.injEq, Option.some.injEq, Component.name.injEq]
  · next h => simpa using h name

theorem tellingParts_joinSlashes {parts : List (List Char)} (h : ∀ part ∈ parts, '/' ∉ part) :
    tellingParts (joinSlashes parts) = parts.filter (!isIdle ·) := by
  cases parts with
  | nil => rfl
  | cons part parts => rw [tellingParts, splitSlashes_joinSlashes (List.cons_ne_nil _ _) h]

/-- The text of a parent is split at the same place as that of the path. -/
theorem lead_parent {cs part : List Char} {before : List (List Char)}
    (h : trimParts (splitSlashes (lead cs).2) = before ++ [part]) :
    lead ((lead cs).1 ++ joinSlashes (trimParts before)) =
      ((lead cs).1, joinSlashes (trimParts before)) := by
  have hbefore : trimParts before <+: splitSlashes (lead cs).2 :=
    ((trimParts_isPrefix before).trans (List.prefix_append _ [part])).trans
      (h ▸ trimParts_isPrefix _)
  have htrimmed := trimParts_trimParts before
  cases hparts : trimParts before with
  | nil =>
      rcases lead_cases cs with ⟨_, -, hlead⟩ | ⟨_, -, -, hlead⟩ | ⟨hlead, -⟩ <;> rw [hlead] <;> rfl
  | cons first more =>
      rw [hparts] at hbefore htrimmed
      have hhead : (splitSlashes (lead cs).2).head? = some first := by
        obtain ⟨after, hafter⟩ := hbefore
        rw [← hafter]
        rfl
      have hslash : ∀ part ∈ first :: more, '/' ∉ part :=
        fun part hmem => slash_not_mem_of_mem_splitSlashes _ part (hbefore.subset hmem)
      rcases lead_cases cs with
        ⟨body, rfl, hlead⟩ | ⟨body, rfl, hbody, hlead⟩ | ⟨hlead, hdot, hroot⟩
      · rw [hlead]
        rfl
      · -- the period is a part of its own, so a slash follows
        rw [hlead] at hhead ⊢
        have hfirst : first = [] := by
          rcases hbody with rfl | ⟨rest, rfl⟩ <;> cases hhead <;> rfl
        subst hfirst
        cases more with
        | nil => cases htrimmed
        | cons second more => rfl
      · rw [hlead, List.nil_append]
        rw [hlead] at hhead
        have hsplit := splitSlashes_joinSlashes (List.cons_ne_nil first more) hslash
        have hfirst : (splitSlashes (joinSlashes (first :: more))).head? ≠ some ['.'] := by
          rw [hsplit]
          exact fun hfirst => hdot (hhead.trans hfirst)
        refine lead_of_head ?_ hfirst
        intro rest hrest
        rw [hrest, splitSlashes, if_pos rfl] at hsplit
        cases hsplit
        rcases head?_splitSlashes_nil hhead with rfl | ⟨rest, rfl⟩
        · rw [hlead] at h
          simp [splitSlashes, trimParts, isIdle] at h
        · exact hroot rest rfl

/-- The parts of a path that has a file name. -/
theorem parts_of_fileName? {p : Path} {name : List Char} (h : p.fileName? = some name) :
    IsName name ∧ ∃ before, trimParts (splitSlashes (lead p.text.toList).2) = before ++ [name]
      ∧ tellingParts p.text.toList = before.filter (!isIdle ·) ++ [name] := by
  have hlast := fileName?_eq_some.mp h
  have htelling : tellingParts p.text.toList =
      (trimParts (splitSlashes (lead p.text.toList).2)).filter (!isIdle ·) := by
    rw [filter_trimParts, ← tellingParts_lead]
    rfl
  rw [components_eq] at hlast
  rcases trimParts_cases (splitSlashes (lead p.text.toList).2) with
    hnil | ⟨before, part, hparts, hpart⟩
  · rw [htelling, hnil] at hlast
    unfold anchor at hlast
    split at hlast
    · cases hlast
    · split at hlast <;> cases hlast
  · have hsingle : [part].filter (!isIdle ·) = [part] := by simp [hpart]
    rw [hparts, List.filter_append, hsingle] at htelling
    rw [htelling, List.map_append, ← List.append_assoc, List.map_singleton, List.getLast?_concat,
      Option.some.injEq, Component.ofPart] at hlast
    split at hlast
    · cases hlast
    · next hproper =>
      cases hlast
      have hmem : name ∈ splitSlashes (lead p.text.toList).2 :=
        (hparts ▸ trimParts_isPrefix _).subset (List.mem_append_right _ List.mem_cons_self)
      exact ⟨⟨slash_not_mem_of_mem_splitSlashes _ name hmem, hpart, hproper⟩, before, hparts,
        htelling⟩

theorem parent?_eq {p folder : Path} {front body part : List Char} {before : List (List Char)}
    (hlead : lead p.text.toList = (front, body))
    (hparts : trimParts (splitSlashes body) = before ++ [part])
    (hfolder : folder.text.toList = front ++ joinSlashes (trimParts before)) :
    p.parent? = some folder := by
  have htext : folder.text = String.ofList (front ++ joinSlashes (trimParts before)) := by
    rw [← hfolder, String.ofList_toList]
  simp [parent?, hlead, hparts, ← htext]

theorem trimParts_splitSlashes_joinSlashes {parts : List (List Char)}
    (hslash : ∀ part ∈ parts, '/' ∉ part) (htrimmed : trimParts parts = parts) :
    trimParts (splitSlashes (joinSlashes parts)) = parts := by
  cases parts with
  | nil => rfl
  | cons part parts => rwa [splitSlashes_joinSlashes (List.cons_ne_nil _ _) hslash]

/-- Trimmed parts do not end with a slash. -/
theorem joinSlashes_ne_append_slash {parts : List (List Char)}
    (hslash : ∀ part ∈ parts, '/' ∉ part) (htrimmed : trimParts parts = parts) (cs : List Char) :
    joinSlashes parts ≠ cs ++ ['/'] := by
  intro h
  cases parts with
  | nil => simp [joinSlashes] at h
  | cons part parts =>
      have hparts := splitSlashes_joinSlashes (List.cons_ne_nil part parts) hslash
      rw [h, splitSlashes_append_slash, splitSlashes] at hparts
      rw [← hparts, trimParts_concat_of_idle rfl] at htrimmed
      have hle := (trimParts_isPrefix (splitSlashes cs)).length_le
      rw [htrimmed, List.length_append, List.length_singleton] at hle
      omega

/-- Every name that is joined to a parent has that parent. -/
theorem parent?_join {folder : Path} {front : List Char} {parts : List (List Char)}
    (hfolder : folder.text.toList = front ++ joinSlashes parts)
    (hlead : lead folder.text.toList = (front, joinSlashes parts))
    (hslash : ∀ part ∈ parts, '/' ∉ part) (htrimmed : trimParts parts = parts) {name : String}
    (hname : IsName name.toList) : (folder.join name).parent? = some folder := by
  have halone : trimParts (splitSlashes name.toList) = [] ++ [name.toList] := by
    rw [hname.splitSlashes_eq]
    exact @trimParts_concat [] _ hname.telling
  rcases join_cases folder name with
    ⟨hempty, hjoin⟩ | ⟨before, hend, hjoin⟩ | ⟨hne, -, hjoin⟩
  · rw [← hjoin] at hname halone
    exact parent?_eq hname.lead_eq halone hempty
  · rw [hend] at hlead
    cases before with
    | nil => exact parent?_eq (by rw [hjoin]; rfl) halone hend
    | cons c before =>
        rw [lead_append_slash (List.cons_ne_nil c before), Prod.mk.injEq] at hlead
        exact absurd hlead.2.symm (joinSlashes_ne_append_slash hslash htrimmed _)
  · have hbody : lead (folder.join name).text.toList =
        (front, joinSlashes parts ++ '/' :: name.toList) := by
      rw [hjoin, lead_append_slash hne, hlead]
    have hsplit : trimParts (splitSlashes (joinSlashes parts ++ '/' :: name.toList)) =
        splitSlashes (joinSlashes parts) ++ [name.toList] := by
      rw [splitSlashes_append_slash, hname.splitSlashes_eq, trimParts_concat hname.telling]
    refine parent?_eq hbody hsplit ?_
    rw [trimParts_splitSlashes_joinSlashes hslash htrimmed, hfolder]

/-- A path with a file name is its parent with one more component, and every name that is joined to
the parent has the same parent. -/
theorem parent_of_fileName? {p : Path} {name : List Char} (h : p.fileName? = some name) :
    ∃ folder, p.parent? = some folder ∧ p.components = folder.components ++ [.name name]
      ∧ ∀ other : String, IsName other.toList → (folder.join other).parent? = some folder := by
  obtain ⟨hname, before, hparts, htelling⟩ := parts_of_fileName? h
  have hlead := lead_parent hparts
  have hslash : ∀ part ∈ trimParts before, '/' ∉ part := by
    intro part hmem
    refine slash_not_mem_of_mem_splitSlashes (lead p.text.toList).2 part ?_
    have hprefix : before ++ [name] <+: splitSlashes (lead p.text.toList).2 :=
      hparts ▸ trimParts_isPrefix _
    exact hprefix.subset (List.mem_append_left _ ((trimParts_isPrefix before).subset hmem))
  obtain ⟨folder, hfolder⟩ : ∃ folder : Path,
      folder.text.toList = (lead p.text.toList).1 ++ joinSlashes (trimParts before) :=
    ⟨⟨String.ofList _⟩, String.toList_ofList⟩
  rw [← hfolder] at hlead
  refine ⟨folder, parent?_eq rfl hparts hfolder, ?_, fun other hother => ?_⟩
  · rw [components_eq, components_eq, ← tellingParts_lead folder.text.toList, hlead,
      tellingParts_joinSlashes hslash, filter_trimParts, htelling, anchor, anchor, hlead]
    simp [hname.ofPart_eq]
  · exact parent?_join hfolder hlead hslash (trimParts_trimParts before) hother

end ContractLex.Path
