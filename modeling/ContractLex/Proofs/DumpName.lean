import ContractLex.Discovery
import ContractLex.Dump.File
import ContractLex.Proofs.PathParts
import Mathlib.Data.List.TakeDrop

/-!
# Names of dumps

A name is its stem and its extension, with a period between them (`splitName_cases`). The name of a
dump has the extension of its source and the stem made longer (`splitName_fileName`), so that it is
never the source's own name and no two sources have the same (`fileName_injective`). A dump stands
in the folder of its source (`path?_eq_some`).
-/

namespace ContractLex

/-! ## Stem and extension -/

namespace Path

theorem splitName_append_dot {stem extension : List Char} (hstem : stem ≠ [])
    (h : '.' ∉ extension) : splitName (stem ++ '.' :: extension) = (stem, some extension) := by
  have hall : ∀ c ∈ extension.reverse, (c != '.') = true := by
    intro c hc
    exact bne_iff_ne.mpr (ne_of_mem_of_not_mem (List.mem_reverse.mp hc) h)
  have hspan : (stem ++ '.' :: extension).reverse.span (· != '.') =
      (extension.reverse, '.' :: stem.reverse) := by
    rw [List.span_eq_takeWhile_dropWhile, List.reverse_append, List.reverse_cons,
      List.append_assoc, List.takeWhile_append_of_pos hall, List.dropWhile_append_of_pos hall]
    simp
  rw [splitName, hspan]
  simp [hstem]

/-- A period in front begins no extension. -/
theorem splitName_of_not_mem {name : List Char} (h : '.' ∉ name.tail) :
    splitName name = (name, none) := by
  cases name with
  | nil => rfl
  | cons c rest =>
      have hall : ∀ d ∈ rest.reverse, (d != '.') = true := by
        intro d hd
        exact bne_iff_ne.mpr (ne_of_mem_of_not_mem (List.mem_reverse.mp hd) h)
      have hdrop : (c :: rest).reverse.dropWhile (· != '.') = [c].dropWhile (· != '.') := by
        rw [List.reverse_cons, List.dropWhile_append_of_pos hall]
      rw [splitName, List.span_eq_takeWhile_dropWhile, hdrop]
      by_cases hc : c = '.' <;> simp [hc]

theorem splitName_cases (name : List Char) :
    ('.' ∉ name.tail ∧ splitName name = (name, none))
    ∨ ∃ stem extension, name = stem ++ '.' :: extension ∧ '.' ∉ extension
        ∧ splitName name = (stem, some extension) := by
  by_cases h : '.' ∈ name.tail
  · obtain ⟨c, rest, rfl⟩ := List.exists_cons_of_ne_nil (l := name) (by rintro rfl; cases h)
    obtain ⟨after, before, hrest, hafter⟩ := List.eq_append_cons_of_mem (List.mem_reverse.mpr h)
    have hname : c :: rest = (c :: before.reverse) ++ '.' :: after.reverse := by
      rw [← List.reverse_reverse rest, ← @List.tail_cons _ c rest, hrest]
      simp
    have hnot : '.' ∉ after.reverse := fun hmem => hafter (List.mem_reverse.mp hmem)
    refine Or.inr ⟨c :: before.reverse, after.reverse, hname, hnot, ?_⟩
    rw [hname, splitName_append_dot (List.cons_ne_nil _ _) hnot]
  · exact Or.inl ⟨h, splitName_of_not_mem h⟩

theorem fileName?_join (p : Path) {name : String} (h : IsName name.toList) :
    (p.join name).fileName? = some name.toList := by
  rw [fileName?_eq_some, components_join p h, List.getLast?_concat]

end Path

/-! ## Names of dumps -/

namespace Dump

open ContractLex.Path

theorem dot_not_mem_stemSuffix : '.' ∉ stemSuffix.toList := by decide

theorem splitName_fileName (name : List Char) :
    splitName (fileName name) =
      ((splitName name).1 ++ stemSuffix.toList, (splitName name).2) := by
  rcases splitName_cases name with ⟨hdot, hname⟩ | ⟨stem, extension, rfl, hdot, hname⟩
  · have htail : '.' ∉ (name ++ stemSuffix.toList).tail := by
      cases name with
      | nil => decide
      | cons c rest => exact List.not_mem_append hdot dot_not_mem_stemSuffix
    have hfile : fileName name = name ++ stemSuffix.toList := by simp [fileName, hname]
    rw [hfile, hname, splitName_of_not_mem htail]
  · have hstem : stem ++ stemSuffix.toList ≠ [] := List.append_ne_nil_of_right_ne_nil _ (by decide)
    have hfile : fileName (stem ++ '.' :: extension) =
        (stem ++ stemSuffix.toList) ++ '.' :: extension := by simp [fileName, hname]
    rw [hfile, hname, splitName_append_dot hstem hdot]

theorem fileName_injective {name other : List Char} (h : fileName name = fileName other) :
    name = other := by
  have hsplit := congrArg splitName h
  rw [splitName_fileName, splitName_fileName, Prod.mk.injEq, List.append_left_inj] at hsplit
  obtain ⟨hstem, hextension⟩ := hsplit
  rcases splitName_cases name with ⟨-, hname⟩ | ⟨stem, extension, hparts, -, hname⟩ <;>
    rcases splitName_cases other with ⟨-, hother⟩ | ⟨stem', extension', hparts', -, hother⟩ <;>
    simp_all

theorem fileName_ne (name : List Char) : fileName name ≠ name := by
  intro h
  have hlength := congrArg (List.length ∘ Prod.fst ∘ splitName) h
  simp [splitName_fileName, stemSuffix] at hlength

theorem isName_fileName {name : List Char} (h : IsName name) : IsName (fileName name) := by
  have hmem : '_' ∈ fileName name := by
    have hsuffix : '_' ∈ stemSuffix.toList := by decide
    simp [fileName, hsuffix]
  refine ⟨?_, ?_, ?_⟩
  · have hsuffix : '/' ∉ stemSuffix.toList := by decide
    have hslash := h.slash
    rcases splitName_cases name with ⟨-, hname⟩ | ⟨stem, extension, rfl, -, hname⟩
    · simp [fileName, hname, hslash, hsuffix]
    · simp_all [fileName]
  · rw [isIdle, Bool.or_eq_false_iff, beq_eq_false_iff_ne, beq_eq_false_iff_ne]
    constructor <;> intro h <;> rw [h] at hmem <;> revert hmem <;> decide
  · intro h
    rw [h] at hmem
    revert hmem
    decide

/-- A dump stands in the folder of its source. -/
theorem path?_eq_some {p q : Path} (h : path? p = some q) :
    ∃ name folder, p.fileName? = some name ∧ p.parent? = some folder
      ∧ p.components = folder.components ++ [.name name]
      ∧ q = folder.join (String.ofList (fileName name)) ∧ q.parent? = some folder
      ∧ q.fileName? = some (fileName name)
      ∧ q.components = folder.components ++ [.name (fileName name)] := by
  obtain ⟨name, hname, rfl⟩ := Option.map_eq_some_iff.mp h
  obtain ⟨folder, hfolder, hcomponents, hparent⟩ := parent_of_fileName? hname
  have hproper : IsName (String.ofList (fileName name)).toList := by
    rw [String.toList_ofList]
    exact isName_fileName (parts_of_fileName? hname).1
  have hjoin : p.withFileName (String.ofList (fileName name)) =
      folder.join (String.ofList (fileName name)) := by rw [withFileName, hfolder]; rfl
  rw [hjoin]
  refine ⟨name, folder, hname, hfolder, hcomponents, rfl, hparent _ hproper, ?_, ?_⟩
  · rw [fileName?_join folder hproper, String.toList_ofList]
  · rw [components_join folder hproper, String.toList_ofList]

/-- The name of the dump is the last part of its path. -/
theorem splitSlashes_path? {p q : Path} (h : path? p = some q) :
    ∃ name parts, p.fileName? = some name ∧ splitSlashes q.text.toList = parts ++ [fileName name]
      ∧ IsName (fileName name) := by
  obtain ⟨name, folder, hname, -, -, rfl, -⟩ := path?_eq_some h
  have hproper := isName_fileName (parts_of_fileName? hname).1
  have hlist : IsName (String.ofList (fileName name)).toList := by rwa [String.toList_ofList]
  obtain ⟨parts, hparts⟩ := splitSlashes_join folder hlist
  rw [String.toList_ofList] at hparts
  exact ⟨name, parts, hname, hparts, hproper⟩

theorem path?_eq_none {p : Path} : path? p = none ↔ p.fileName? = none := Option.map_eq_none_iff

theorem isDump_of_fileName? {q : Path} {name : List Char}
    (h : q.fileName? = some (fileName name)) : Discovery.isDump q = true := by
  have hstem : q.stem? = some ((splitName name).1 ++ stemSuffix.toList) := by
    rw [stem?, h, Option.map_some, splitName_fileName]
  rw [Discovery.isDump, hstem]
  exact List.isSuffixOf_iff_suffix.mpr (List.suffix_append _ _)

/-- Whatever folder the file of a dump is in, it is known to be a dump. -/
theorem isDump_join {name : List Char} (h : IsName (fileName name)) (p : Path) :
    Discovery.isDump (p.join (String.ofList (fileName name))) = true := by
  have hname : (p.join (String.ofList (fileName name))).fileName? = some (fileName name) := by
    rw [fileName?_join p (by rwa [String.toList_ofList]), String.toList_ofList]
  exact isDump_of_fileName? hname

theorem extension?_of_fileName? {p q : Path} {name : List Char} (hp : p.fileName? = some name)
    (hq : q.fileName? = some (fileName name)) : q.extension? = p.extension? := by
  rw [extension?, extension?, hp, hq, Option.bind_some, Option.bind_some, splitName_fileName]

end Dump

end ContractLex
