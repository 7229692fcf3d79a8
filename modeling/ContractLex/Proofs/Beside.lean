import ContractLex.Proofs.DumpName
import ContractLex.Proofs.Place

/-!
# Beside a source

The dump of a file that can be read stands in the same folder as the file (`sits_beside`), however
the path is spelled. It is written if its place is free (`writeText_cases`).
-/

namespace ContractLex.Dump

open ContractLex.Path Node Files

variable {files : Files} {p q : Path} {place : List String}

/-- A dump is written if its place is free. -/
theorem writeText_cases (files : Files) (p : Path) (text : String) :
    (∃ q place, path? p = some q ∧ files.Sits q place ∧ Shape.IsFree (files.view place)
      ∧ writeText files p text = ⟨files.withFile place text.toUTF8, .ok q, []⟩)
    ∨ (∀ q place, path? p = some q → files.Sits q place → ¬ Shape.IsFree (files.view place))
      ∧ ∃ e events, writeText files p text = ⟨files, .error e, events⟩ := by
  rw [writeText, pathOf]
  cases hq : path? p with
  | none =>
      refine Or.inr ⟨?_, _, _, rfl⟩
      rintro q place ⟨⟩
  | some q =>
      obtain ⟨name, parts, -, hparts, hproper⟩ := splitSlashes_path? hq
      dsimp only
      cases hwrite : files.write q text with
      | error fault =>
          refine Or.inr ⟨?_, _, _, rfl⟩
          rintro _ place ⟨⟩ hsits hfree
          rw [(write_eq_ok hparts hproper).mpr ⟨place, hsits, hfree, rfl⟩] at hwrite
          cases hwrite
      | ok after =>
          obtain ⟨place, hsits, hfree, rfl⟩ := (write_eq_ok hparts hproper).mp hwrite
          exact Or.inl ⟨q, place, rfl, hsits, hfree, rfl⟩

/-- A dump has its name in a folder. -/
theorem sits_path? (hq : path? p = some q) (h : files.Sits q place) :
    ∃ name folder, p.fileName? = some name ∧ files.view folder = some .folder
      ∧ place = folder ++ [String.ofList (fileName name)] := by
  obtain ⟨name, outer, hname, -, -, -, -, -, hcomponents⟩ := path?_eq_some hq
  obtain ⟨folder, hleads, rfl⟩ := h.of_components hcomponents
  exact ⟨name, folder, hname, hleads.2, rfl⟩

/-- A file and its dump are in one folder. -/
theorem sits_beside {beside : List String} (hq : path? p = some q) (hp : files.Sits p place)
    (hbeside : files.Sits q beside) :
    ∃ name folder, place = folder ++ [String.ofList name]
      ∧ beside = folder ++ [String.ofList (fileName name)] := by
  obtain ⟨name, outer, -, -, hcomponents, -, -, -, hqcomponents⟩ := path?_eq_some hq
  obtain ⟨folder, hleads, rfl⟩ := hp.of_components hcomponents
  obtain ⟨folder', hleads', rfl⟩ := hbeside.of_components hqcomponents
  exact ⟨name, folder, rfl, by rw [hleads.unique hleads']⟩

end ContractLex.Dump
