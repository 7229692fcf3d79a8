import ContractLex.Proofs.PathParts
import ContractLex.Proofs.Tree

/-!
# Places in a tree

A path is followed through folders (`Reaches`, `Leads`), and its last part names a place in the last
of them (`Sits`). What is read and written there depends on what is to be seen at places, the
`view`, and not on the order of entries (`read_eq_ok`, `write_eq_ok`). Files that are written where
there was no folder do not change where paths lead (`Gained.sits`, `Gained.resolve_view`).
-/

namespace ContractLex

theorem bind_eq_ok {ε α β : Type} {x : Except ε α} {f : α → Except ε β} {b : β} :
    (x >>= f) = .ok b ↔ ∃ a, x = .ok a ∧ f a = .ok b := by
  cases x with
  | error e => simp [bind, Except.bind]
  | ok a => simp [bind, Except.bind]

namespace Files

open ContractLex.Path Node

variable {files before after : Files} {p : Path} {names next place folder : List String}
  {part name : List Char} {parts : List (List Char)} {text : String} {contents : ByteArray}
  {s : Shape}

/-! ## Views -/

/-- What is to be seen at a place. -/
def view (files : Files) (names : List String) : Option Shape :=
  (files.root.find? names).map shape

theorem view_eq_folder : files.view names = some .folder ↔
    ∃ entries, files.root.find? names = some (.folder entries) := by
  rw [view, Option.map_eq_some_iff]
  constructor
  · rintro ⟨node, hfind, hshape⟩
    obtain ⟨entries, rfl⟩ := shape_eq_folder.mp hshape
    exact ⟨entries, hfind⟩
  · rintro ⟨entries, hfind⟩
    exact ⟨_, hfind, rfl⟩

theorem view_eq_file :
    files.view names = some (.file contents) ↔ files.root.find? names = some (.file contents) := by
  rw [view, Option.map_eq_some_iff]
  constructor
  · rintro ⟨node, hfind, hshape⟩
    cases node with
    | file old =>
        cases hshape
        exact hfind
    | folder | lockedFile | lockedFolder => cases hshape
  · intro hfind
    exact ⟨_, hfind, rfl⟩

theorem view_concat {entries : List (String × Node)} {name : String}
    (h : files.root.find? names = some (.folder entries)) :
    files.view (names ++ [name]) = (entries.lookup name).map shape := by
  rw [view, find?_append, h, Option.bind_some, find?_cons_folder]
  cases entries.lookup name <;> rfl

theorem view_dropLast (h : files.view names = some .folder) :
    files.view names.dropLast = some .folder := by
  rcases List.eq_nil_or_concat names with rfl | ⟨front, last, rfl⟩
  · exact h
  · obtain ⟨entries, hfind⟩ := view_eq_folder.mp h
    rw [List.concat_eq_append, find?_append] at hfind
    obtain ⟨node, hnode, hlast⟩ := Option.bind_eq_some_iff.mp hfind
    obtain ⟨outer, -, rfl, -⟩ := find?_cons_eq_some hlast
    rw [List.concat_eq_append, List.dropLast_concat]
    exact view_eq_folder.mpr ⟨outer, hnode⟩

/-! ## Following a path -/

/-- The place that a part stands for, seen from a folder. -/
def advance? (names : List String) (part : List Char) : Option (List String) :=
  if isIdle part then some names
  else if part = ['.', '.'] then some names.dropLast
  else if maxName < (String.ofList part).utf8ByteSize then none
  else some (names ++ [String.ofList part])

theorem advance?_of_isName (h : IsName part) (hsize : (String.ofList part).utf8ByteSize ≤ maxName) :
    advance? names part = some (names ++ [String.ofList part]) := by
  rw [advance?, if_neg (by simp [h.telling]), if_neg h.proper, if_neg (Nat.not_lt.mpr hsize)]

theorem advance?_cases (h : advance? names part = some next) :
    next = names ∨ next = names.dropLast
    ∨ isIdle part = false ∧ part ≠ ['.', '.'] ∧ (String.ofList part).utf8ByteSize ≤ maxName
      ∧ next = names ++ [String.ofList part] := by
  rw [advance?] at h
  split at h
  · exact Or.inl (Option.some.inj h).symm
  · next hidle =>
    split at h
    · exact Or.inr (Or.inl (Option.some.inj h).symm)
    · next hproper =>
      split at h
      · cases h
      · next hsize =>
        exact Or.inr (Or.inr ⟨Bool.eq_false_iff.mpr hidle, hproper, Nat.not_lt.mp hsize,
          (Option.some.inj h).symm⟩)

theorem step_eq_ok : files.step names part = .ok next ↔
    files.view names = some .folder ∧ advance? names part = some next
      ∧ (files.view next).isSome = true
    ∨ files.view names = some .lockedFolder ∧ part = [] ∧ next = names := by
  rw [step]
  split
  · next hfind => simp [view, hfind]
  · next hfind => simp [view, hfind, shape]
  · next hfind => simp [view, hfind, shape]
  · next hfind =>
    cases part with
    | nil => simp [view, hfind, shape, eq_comm (a := next)]
    | cons c part => simp [view, hfind, shape]
  · next entries hfind =>
    have hview := view_eq_folder.mpr ⟨entries, hfind⟩
    have hunlocked : files.view names ≠ some .lockedFolder := by simp [hview]
    rw [and_iff_right hview, or_iff_left (fun h => hunlocked h.1), advance?]
    split
    · rw [Except.ok.injEq, Option.some.injEq, iff_self_and]
      rintro rfl
      simp [hview]
    · split
      · rw [Except.ok.injEq, Option.some.injEq, iff_self_and]
        rintro rfl
        simp [view_dropLast hview]
      · dsimp only
        split
        · simp
        · have hsome : files.view (names ++ [String.ofList part]) =
            (entries.lookup (String.ofList part)).map shape := view_concat hfind
          split
          · next hentry =>
            rw [Except.ok.injEq, Option.some.injEq, iff_self_and]
            rintro rfl
            rw [hsome, Option.isSome_map, hentry]
          · next hentry =>
            simp only [reduceCtorEq, Option.some.injEq, false_iff, not_and]
            rintro rfl
            rwa [hsome, Option.isSome_map]

/-- Parts that can be followed, to a place where something is to be seen. -/
def Reaches (files : Files) (names : List String) (parts : List (List Char))
    (place : List String) (s : Shape) : Prop :=
  parts.foldlM files.step names = .ok place ∧ files.view place = some s

theorem reaches_nil :
    files.Reaches names [] place s ↔ place = names ∧ files.view names = some s := by
  rw [Reaches, List.foldlM_nil]
  constructor
  · rintro ⟨h, hview⟩
    cases h
    exact ⟨rfl, hview⟩
  · rintro ⟨rfl, hview⟩
    exact ⟨rfl, hview⟩

theorem foldlM_step_cons : (part :: parts).foldlM files.step names = .ok place ↔
    ∃ next, files.step names part = .ok next ∧ parts.foldlM files.step next = .ok place := by
  rw [List.foldlM_cons, bind_eq_ok]

theorem Reaches.isSome (h : files.Reaches names parts place s) :
    (files.view names).isSome = true := by
  cases parts with
  | nil => simp [(reaches_nil.mp h).2]
  | cons part parts =>
      obtain ⟨next, hstep, -⟩ := foldlM_step_cons.mp h.1
      rcases step_eq_ok.mp hstep with ⟨hview, -⟩ | ⟨hview, -⟩ <;> simp [hview]

theorem reaches_cons : files.Reaches names (part :: parts) place s ↔
    files.view names = some .folder
      ∧ (∃ next, advance? names part = some next ∧ files.Reaches next parts place s)
    ∨ files.view names = some .lockedFolder ∧ part = [] ∧ files.Reaches names parts place s := by
  constructor
  · rintro ⟨h, hview⟩
    obtain ⟨next, hstep, hrest⟩ := foldlM_step_cons.mp h
    rcases step_eq_ok.mp hstep with ⟨hnames, hnext, -⟩ | ⟨hnames, hpart, rfl⟩
    · exact Or.inl ⟨hnames, next, hnext, hrest, hview⟩
    · exact Or.inr ⟨hnames, hpart, hrest, hview⟩
  · rintro (⟨hnames, next, hnext, hrest⟩ | ⟨hnames, hpart, hrest⟩)
    · have hstep := step_eq_ok.mpr (Or.inl ⟨hnames, hnext, hrest.isSome⟩)
      exact ⟨foldlM_step_cons.mpr ⟨next, hstep, hrest.1⟩, hrest.2⟩
    · have hstep := step_eq_ok.mpr (Or.inr ⟨hnames, hpart, rfl⟩)
      exact ⟨foldlM_step_cons.mpr ⟨names, hstep, hrest.1⟩, hrest.2⟩

/-- Parts that can be followed, from one folder to another. -/
def Leads (files : Files) (names : List String) (parts : List (List Char))
    (folder : List String) : Prop :=
  files.Reaches names parts folder .folder

theorem leads_nil :
    files.Leads names [] folder ↔ folder = names ∧ files.view names = some .folder :=
  reaches_nil

/-- What leads to a folder starts in one. -/
theorem Leads.start (h : files.Leads names parts folder) : files.view names = some .folder := by
  induction parts with
  | nil => exact (leads_nil.mp h).2
  | cons part parts ih =>
      rcases reaches_cons.mp h with ⟨hview, -⟩ | ⟨-, -, hrest⟩
      · exact hview
      · exact ih hrest

theorem leads_cons : files.Leads names (part :: parts) folder ↔
    files.view names = some .folder ∧ ∃ next, advance? names part = some next
      ∧ files.Leads next parts folder := by
  refine reaches_cons.trans (or_iff_left ?_)
  rintro ⟨hlocked, -, hrest⟩
  have hview := Leads.start hrest
  rw [hlocked] at hview
  cases hview

/-- Parts that say nothing lead nowhere else. -/
theorem leads_filter : files.Leads names (parts.filter (!isIdle ·)) folder ↔
    files.Leads names parts folder := by
  induction parts generalizing names with
  | nil => rfl
  | cons part parts ih =>
      cases hpart : isIdle part with
      | true =>
          -- such a part needs a folder, and the parts after it start in that folder
          rw [List.filter_cons_of_neg (by simp [hpart]), ih, leads_cons, advance?, if_pos hpart]
          constructor
          · intro h
            exact ⟨h.start, names, rfl, h⟩
          · rintro ⟨-, _, ⟨⟩, h⟩
            exact h
      | false =>
          rw [List.filter_cons_of_pos (by simp [hpart]), leads_cons, leads_cons]
          simp only [ih]

/-- A path leads where its parts do. -/
theorem resolve_view : files.resolve p = .ok place ∧ files.view place = some s ↔
    ∃ start parts, files.start p = .ok (start, parts) ∧ files.Reaches start parts place s := by
  rw [resolve, bind_eq_ok]
  constructor
  · rintro ⟨⟨⟨start, parts⟩, hstart, hparts⟩, hview⟩
    exact ⟨start, parts, hstart, hparts, hview⟩
  · rintro ⟨start, parts, hstart, hparts, hview⟩
    exact ⟨⟨⟨start, parts⟩, hstart, hparts⟩, hview⟩

/-! ## The place of a path -/

/-- The last part of a path names an entry of a folder, which may be missing. -/
def Sits (files : Files) (p : Path) (place : List String) : Prop :=
  ∃ names parts name folder, files.start p = .ok (names, parts ++ [name]) ∧ IsName name
    ∧ (String.ofList name).utf8ByteSize ≤ maxName ∧ files.Leads names parts folder
    ∧ place = folder ++ [String.ofList name]

theorem resolve_concat {start : List String}
    (hstart : files.start p = .ok (start, parts ++ [part])) : files.resolve p = .ok place ↔
      ∃ names, parts.foldlM files.step start = .ok names ∧ files.step names part = .ok place := by
  have hresolve : files.resolve p = (parts ++ [part]).foldlM files.step start := by
    rw [resolve, hstart]
    rfl
  rw [hresolve, List.foldlM_append, bind_eq_ok]
  simp only [List.foldlM_cons, List.foldlM_nil, bind_pure]

theorem start_eq_ok (h : files.start p = .ok (names, parts)) :
    names = (if p.isAbsolute then [] else files.here) ∧ parts = splitSlashes p.text.toList := by
  rw [start] at h
  split at h
  · cases h
  · split at h
    · cases h
    · split at h
      · cases h
      · cases h
        exact ⟨rfl, rfl⟩

/-- A path that leads to a file ends in the name of the file. -/
theorem sits_of_resolve (h : files.resolve p = .ok place)
    (hfile : files.view place = some (.file contents)) : files.Sits p place := by
  cases hstart : files.start p with
  | error fault =>
      rw [resolve, hstart] at h
      cases h
  | ok found =>
      obtain ⟨start, parts⟩ := found
      rcases List.eq_nil_or_concat parts with rfl | ⟨front, part, rfl⟩
      · exact absurd (start_eq_ok hstart).2.symm (splitSlashes_ne_nil _)
      · rw [List.concat_eq_append] at hstart
        obtain ⟨names, hnames, hstep⟩ := (resolve_concat hstart).mp h
        rcases step_eq_ok.mp hstep with ⟨hview, hadvance, -⟩ | ⟨hlocked, -, rfl⟩
        case inr =>
          rw [hlocked] at hfile
          cases hfile
        have hslash : '/' ∉ part := by
          refine slash_not_mem_of_mem_splitSlashes p.text.toList part ?_
          rw [← (start_eq_ok hstart).2]
          exact List.mem_append_right _ List.mem_cons_self
        rcases advance?_cases hadvance with rfl | rfl | ⟨hidle, hproper, hsize, rfl⟩
        · rw [hview] at hfile
          cases hfile
        · rw [view_dropLast hview] at hfile
          cases hfile
        · exact ⟨start, front, part, names, hstart, ⟨hslash, hidle, hproper⟩, hsize,
            ⟨hnames, hview⟩, rfl⟩

theorem Sits.resolve (h : files.Sits p place) (hsome : (files.view place).isSome = true) :
    files.resolve p = .ok place := by
  obtain ⟨start, parts, name, folder, hstart, hname, hsize, hleads, rfl⟩ := h
  exact (resolve_concat hstart).mpr ⟨folder, hleads.1,
    step_eq_ok.mpr (Or.inl ⟨hleads.2, advance?_of_isName hname hsize, hsome⟩)⟩

theorem Leads.unique {other : List String} (h : files.Leads names parts folder)
    (h' : files.Leads names parts other) : folder = other := by
  have hsame := h.1.symm.trans h'.1
  cases hsame
  rfl

theorem Sits.unique {other : List String} (h : files.Sits p place) (h' : files.Sits p other) :
    place = other := by
  obtain ⟨start, parts, name, folder, hstart, -, -, hleads, rfl⟩ := h
  obtain ⟨start', parts', name', folder', hstart', -, -, hleads', rfl⟩ := h'
  rw [hstart, Except.ok.injEq, Prod.mk.injEq] at hstart'
  obtain ⟨rfl, hparts⟩ := hstart'
  obtain ⟨rfl, hname⟩ := List.append_inj' hparts rfl
  cases hname
  rw [hleads.unique hleads']

/-- Which folder a path leads into depends on its components only. -/
theorem Sits.of_components {components : List Component} (h : files.Sits p place)
    (hp : p.components = components ++ [.name name]) :
    ∃ folder, files.Leads (if components.head? = some .root then [] else files.here)
        (components.filterMap Component.part?) folder
      ∧ place = folder ++ [String.ofList name] := by
  obtain ⟨start, parts, last, folder, hstart, hlast, -, hleads, rfl⟩ := h
  obtain ⟨hfrom, hparts⟩ := start_eq_ok hstart
  have htelling := tellingParts_eq_filterMap p
  have hname : [Component.name name].filterMap Component.part? = [name] := rfl
  rw [tellingParts_of_concat hparts.symm hlast.telling, hp, List.filterMap_append, hname]
    at htelling
  obtain ⟨hfront, hend⟩ := List.append_inj' htelling rfl
  cases hend
  have hroot : start = if components.head? = some .root then [] else files.here := by
    have habsolute := isAbsolute_iff p
    rw [hp] at habsolute
    rw [hfrom]
    refine if_congr (habsolute.trans ?_) rfl rfl
    cases components <;> simp
  rw [← hfront, ← hroot]
  exact ⟨folder, leads_filter.mpr hleads, rfl⟩

/-- What sits in a folder has its file name there. -/
theorem Sits.fileName? (h : files.Sits p place) :
    ∃ name folder, p.fileName? = some name ∧ place = folder ++ [String.ofList name] := by
  obtain ⟨start, parts, name, folder, hstart, hname, -, -, rfl⟩ := h
  refine ⟨name, folder, ?_, rfl⟩
  rw [fileName?_eq_some, components_eq,
    tellingParts_of_concat (start_eq_ok hstart).2.symm hname.telling, List.map_append,
    List.map_singleton, hname.ofPart_eq, ← List.append_assoc, List.getLast?_concat]

/-! ## Reading and writing -/

theorem get_eq_ok {node : Node} : files.get p = .ok node ↔
    ∃ place, files.resolve p = .ok place ∧ files.root.find? place = some node := by
  rw [get, bind_eq_ok]
  refine exists_congr fun place => and_congr_right fun _ => ?_
  split
  · next found hfound => rw [hfound, Except.ok.injEq, Option.some.injEq]
  · next hnone => simp [hnone]

theorem isFolder_eq_true : files.isFolder p = true ↔
    ∃ s : Shape, s.isFolder = true
      ∧ ∃ place, files.resolve p = .ok place ∧ files.view place = some s := by
  rw [isFolder]
  constructor
  · intro h
    split at h
    · next node hget =>
      obtain ⟨place, hplace, hfind⟩ := get_eq_ok.mp hget
      exact ⟨node.shape, (isFolder_shape node).trans h, place, hplace, by rw [view, hfind]; rfl⟩
    · cases h
  · rintro ⟨_, hfolder, place, hplace, hview⟩
    obtain ⟨node, hfind, rfl⟩ := Option.map_eq_some_iff.mp hview
    rw [get_eq_ok.mpr ⟨place, hplace, hfind⟩]
    exact (isFolder_shape node).symm.trans hfolder

theorem read_iff_get : files.read p = .ok contents ↔ files.get p = .ok (.file contents) := by
  rw [read, bind_eq_ok]
  constructor
  · rintro ⟨node, hget, hread⟩
    cases node with
    | file old =>
        cases hread
        exact hget
    | folder | lockedFile | lockedFolder => cases hread
  · intro hget
    exact ⟨_, hget, rfl⟩

theorem read_eq_ok : files.read p = .ok contents ↔
    ∃ place, files.Sits p place ∧ files.view place = some (.file contents) := by
  rw [read_iff_get, get_eq_ok]
  constructor
  · rintro ⟨place, hplace, hfind⟩
    have hview := view_eq_file.mpr hfind
    exact ⟨place, sits_of_resolve hplace hview, hview⟩
  · rintro ⟨place, hsits, hview⟩
    exact ⟨place, hsits.resolve (by rw [hview]; rfl), view_eq_file.mp hview⟩

/-- The files with one at a place. -/
def withFile (files : Files) (place : List String) (contents : ByteArray) : Files :=
  { files with root := files.root.put (.file contents) place }

theorem Sits.view_withFile (h : files.Sits p place) (hfree : Shape.IsFree (files.view place))
    (contents : ByteArray) (names : List String) :
    (files.withFile place contents).view names =
      if names = place then some (.file contents) else files.view names := by
  obtain ⟨_, _, name, folder, -, -, -, hleads, rfl⟩ := h
  obtain ⟨entries, hfind⟩ := view_eq_folder.mp hleads.2
  rw [view_concat hfind] at hfree
  exact shape_find?_put hfind hfree names

/-- A file can be written where there is none, or another one. -/
theorem write_eq_ok (hparts : splitSlashes p.text.toList = parts ++ [name]) (hname : IsName name) :
    files.write p text = .ok after ↔
      ∃ place, files.Sits p place ∧ Shape.IsFree (files.view place)
        ∧ after = files.withFile place text.toUTF8 := by
  constructor
  · intro h
    obtain ⟨⟨start, found⟩, hstart, h⟩ := bind_eq_ok.mp h
    obtain rfl : found = parts ++ [name] := (start_eq_ok hstart).2.trans hparts
    obtain ⟨folder, hfolder, h⟩ := bind_eq_ok.mp h
    rw [List.dropLast_concat] at hfolder
    simp only [List.getLast?_concat, Option.map_some, Option.getD_some] at h
    split at h
    · next entries hfind =>
      have hview := view_eq_folder.mpr ⟨entries, hfind⟩
      split at h
      · cases h
      · next hsize =>
        refine ⟨_, ⟨start, parts, name, folder, hstart, hname, Nat.not_lt.mp hsize,
          ⟨hfolder, hview⟩, rfl⟩, ?_⟩
        rw [view_concat hfind]
        split at h
        · cases h
        · cases h
        · cases h
        · next hfolder hlockedFolder hlockedFile =>
          cases h
          refine ⟨?_, rfl⟩
          cases hentry : entries.lookup (String.ofList name) with
          | none => trivial
          | some node =>
              cases node with
              | file contents => trivial
              | folder entries => exact absurd hentry (hfolder entries)
              | lockedFile size => exact absurd hentry (hlockedFile size)
              | lockedFolder => exact absurd hentry hlockedFolder
    · cases h
    · cases h
    · cases h
    · cases h
  · rintro ⟨_, ⟨start, front, last, folder, hstart, -, hsize, hleads, rfl⟩, hfree, rfl⟩
    have hsplit := (start_eq_ok hstart).2.trans hparts
    obtain ⟨rfl, hlast⟩ := List.append_inj' hsplit rfl
    cases hlast
    obtain ⟨entries, hfind⟩ := view_eq_folder.mp hleads.2
    refine bind_eq_ok.mpr ⟨_, hstart, bind_eq_ok.mpr ⟨folder, ?_, ?_⟩⟩
    · rw [List.dropLast_concat]
      exact hleads.1
    · simp only [List.getLast?_concat, Option.map_some, Option.getD_some, hfind,
        if_neg (Nat.not_lt.mpr hsize)]
      rw [view_concat hfind] at hfree
      split
      · next hentry =>
        rw [hentry] at hfree
        cases hfree
      · next hentry =>
        rw [hentry] at hfree
        cases hfree
      · next hentry =>
        rw [hentry] at hfree
        cases hfree
      · rfl

/-! ## Files that are written -/

/-- Some files are written at places of a kind. -/
structure Gained (places : List String → Prop) (before after : Files) : Prop where
  here : after.here = before.here
  view (names : List String) : after.view names = before.view names
    ∨ places names ∧ Shape.IsFree (before.view names)
      ∧ ∃ contents, after.view names = some (.file contents)

namespace Gained

variable {places : List String → Prop}

theorem refl (places : List String → Prop) (files : Files) : Gained places files files :=
  ⟨rfl, fun _ => Or.inl rfl⟩

theorem withFile (h : Gained places before after) (hplace : places place)
    (hsits : after.Sits p place) (hfree : Shape.IsFree (after.view place)) (contents : ByteArray) :
    Gained places before (after.withFile place contents) := by
  refine ⟨h.here, fun names => ?_⟩
  rw [hsits.view_withFile hfree]
  split
  · next hnames =>
    subst hnames
    refine Or.inr ⟨hplace, ?_, contents, rfl⟩
    rcases h.view names with hsame | ⟨-, hbefore, -⟩
    · rwa [← hsame]
    · exact hbefore
  · exact h.view names

theorem isFree (h : Gained places before after) :
    Shape.IsFree (after.view names) ↔ Shape.IsFree (before.view names) := by
  rcases h.view names with hsame | ⟨-, hbefore, contents, hafter⟩
  · rw [hsame]
  · rw [hafter]
    exact iff_of_true trivial hbefore

/-- What no file can be written over is to be seen as before. -/
theorem view_eq (h : Gained places before after) (hs : ¬ Shape.IsFree (some s)) :
    after.view names = some s ↔ before.view names = some s := by
  rcases h.view names with hsame | ⟨-, hbefore, contents, hafter⟩
  · rw [hsame]
  · rw [hafter]
    refine iff_of_false (fun hfile => ?_) fun hview => ?_
    · cases hfile
      exact hs trivial
    · rw [hview] at hbefore
      exact hs hbefore

theorem reaches (h : Gained places before after) (hs : ¬ Shape.IsFree (some s)) :
    after.Reaches names parts place s ↔ before.Reaches names parts place s := by
  have hfolder : ∀ names, after.view names = some .folder ↔ before.view names = some .folder :=
    fun _ => h.view_eq id
  have hlocked : ∀ names,
      after.view names = some .lockedFolder ↔ before.view names = some .lockedFolder :=
    fun _ => h.view_eq id
  induction parts generalizing names with
  | nil => rw [reaches_nil, reaches_nil, h.view_eq hs]
  | cons part parts ih => simp only [reaches_cons, hfolder, hlocked, ih]

theorem leads (h : Gained places before after) :
    after.Leads names parts folder ↔ before.Leads names parts folder :=
  h.reaches id

theorem start (h : Gained places before after) (p : Path) : after.start p = before.start p := by
  rw [Files.start, Files.start, h.here]

theorem resolve_view (h : Gained places before after) (hs : ¬ Shape.IsFree (some s)) :
    after.resolve p = .ok place ∧ after.view place = some s ↔
      before.resolve p = .ok place ∧ before.view place = some s := by
  simp only [Files.resolve_view, h.start, h.reaches hs]

theorem isFolder (h : Gained places before after) (p : Path) :
    after.isFolder p = before.isFolder p := by
  rw [Bool.eq_iff_iff, isFolder_eq_true, isFolder_eq_true]
  exact exists_congr fun s => and_congr_right fun hs => exists_congr fun place =>
    h.resolve_view (Shape.not_isFree_of_isFolder hs)

theorem sits (h : Gained places before after) : after.Sits p place ↔ before.Sits p place := by
  simp only [Sits, h.start, h.leads]

end Gained

section Written

variable {other : Path} (h : files.Sits p place) (hfree : Shape.IsFree (files.view place))

include h hfree

theorem Sits.gained (contents : ByteArray) :
    Gained (fun names => names = place) files (files.withFile place contents) :=
  (Gained.refl (fun names => names = place) files).withFile rfl h hfree contents

theorem Sits.view_self (contents : ByteArray) :
    (files.withFile place contents).view place = some (.file contents) := by
  rw [h.view_withFile hfree, if_pos rfl]

/-- A path for the place of a file leads to it once the file is written. -/
theorem Sits.resolve_withFile (hother : files.Sits other place) (contents : ByteArray) :
    (files.withFile place contents).resolve other = .ok place := by
  refine ((h.gained hfree contents).sits.mpr hother).resolve ?_
  rw [h.view_self hfree]
  rfl

end Written

end Files

end ContractLex
