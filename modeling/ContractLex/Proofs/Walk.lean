import ContractLex.Proofs.Beside

/-!
# Dumps and sources apart

A walk through a folder does not see the file of a dump, so the sources that are found are the same
before and after dumps are written (`sources_writeText`).
-/

namespace ContractLex

open Node ContractLex.Path Files

/-! ## Walks -/

namespace Discovery

variable {node inner new : Node} {entries : List (String × Node)} {p : Path}
  {name : String} {names place : List String} {contents : ByteArray}

/-- An entry that is not seen, put in the place of one that is not seen, is not seen. -/
theorem belowEntries_putEntry (p : Path)
    (hsorted : entries.Pairwise fun entry next => entry.1 < next.1)
    (h : below (p.join name) new = ((entries.lookup name).map (below (p.join name))).getD []) :
    belowEntries p (putEntry name new entries) = belowEntries p entries := by
  induction entries with
  | nil => simp [putEntry, belowEntries, h]
  | cons entry entries ih =>
      obtain ⟨other, old⟩ := entry
      rw [putEntry]
      split
      · next heq =>
        subst heq
        rw [Node.lookup_cons, if_pos rfl] at h
        rw [belowEntries, belowEntries, h]
        rfl
      · next hne =>
        split
        · next hlt =>
          rw [lookup_eq_none_of_lt hsorted hlt] at h
          rw [belowEntries, h]
          rfl
        · rw [Node.lookup_cons, if_neg hne] at h
          rw [belowEntries, belowEntries, ih (List.pairwise_cons.mp hsorted).2 h]

theorem below_file_of_isDump (h : isDump p = true) : below p (.file contents) = [] := by
  simp [below, h]

/-- The file of a dump is not seen. -/
theorem belowEntries_putEntry_file (hordered : IsOrdered (.folder entries))
    (hfree : Shape.IsFree ((entries.lookup name).map shape)) (hdump : isDump (p.join name) = true) :
    belowEntries p (putEntry name (.file contents) entries) = belowEntries p entries := by
  cases hordered with
  | folder sorted _ =>
      refine belowEntries_putEntry p sorted ?_
      rw [below_file_of_isDump hdump]
      cases hentry : entries.lookup name with
      | none => rfl
      | some old =>
          rw [hentry] at hfree
          cases old with
          | file old => exact (@below_file_of_isDump _ old hdump).symm
          | folder | lockedFile | lockedFolder => cases hfree

variable (hdump : ∀ p : Path, isDump (p.join name) = true)

include hdump

/-- A walk does not see that the file of a dump is put somewhere below. -/
theorem below_put (contents : ByteArray) (hordered : node.IsOrdered)
    (hplace : node.find? place = some (.folder entries))
    (hfree : Shape.IsFree ((entries.lookup name).map shape)) (p : Path) :
    below p (node.put (.file contents) (place ++ [name])) = below p node := by
  induction place generalizing node p with
  | nil =>
      cases hplace
      exact belowEntries_putEntry_file hordered hfree (hdump p)
  | cons step place ih =>
      obtain ⟨outer, next, rfl, hnext, hinner⟩ := find?_cons_eq_some hplace
      rw [List.cons_append, put_cons_folder hnext, below, below]
      cases hordered with
      | folder sorted inside =>
          refine belowEntries_putEntry p sorted ?_
          rw [ih (inside _ (mem_of_lookup hnext)) hinner, hnext]
          rfl

/-- A folder anywhere in a tree looks the same to a walk after a dump is put somewhere. -/
theorem find?_put_folder (contents : ByteArray) (hordered : node.IsOrdered)
    (hplace : node.find? place = some (.folder entries))
    (hfree : Shape.IsFree ((entries.lookup name).map shape))
    (hfound : node.find? names = some inner) (hinner : inner.isFolder = true) :
    ∃ after, (node.put (.file contents) (place ++ [name])).find? names = some after
      ∧ after.isFolder = true ∧ ∀ p, below p after = below p inner := by
  induction names generalizing node place with
  | nil =>
      -- the folder is on the way to the file
      cases hfound
      have hbelow := below_put hdump contents hordered hplace hfree
      cases place with
      | nil => exact ⟨_, rfl, rfl, hbelow⟩
      | cons step place => exact ⟨_, rfl, rfl, hbelow⟩
  | cons first names ih =>
      obtain ⟨outer, next, rfl, hnext, hbelow⟩ := find?_cons_eq_some hfound
      cases place with
      | nil =>
          -- the file stands in a folder above, under another name than leads on
          cases hplace
          have hfirst : first ≠ name := by
            rintro rfl
            rw [hnext] at hfree
            cases next with
            | file contents =>
                cases names <;> cases hbelow
                cases hinner
            | folder | lockedFile | lockedFolder => cases hfree
          refine ⟨inner, ?_, hinner, fun p => rfl⟩
          rw [List.nil_append, put_singleton_folder, find?_cons_folder, lookup_putEntry,
            if_neg hfirst, hnext]
          exact hbelow
      | cons step place =>
          obtain ⟨_, middle, ⟨⟩, hmiddle, hplace⟩ := find?_cons_eq_some hplace
          rw [List.cons_append, put_cons_folder hmiddle, find?_cons_folder, lookup_putEntry]
          split
          · next hfirst =>
            subst hfirst
            cases hnext.symm.trans hmiddle
            exact ih (hordered.of_lookup hnext) hplace hbelow
          · rw [hnext]
            exact ⟨inner, hbelow, hinner, fun p => rfl⟩

end Discovery

namespace Discovery

variable {files after : Files} {root : Path}

theorem sourcesAt_of_folder {node : Node} (h : files.get root = .ok node)
    (hfolder : node.isFolder = true) :
    sourcesAt files root = (below root node, [folderEvent root (below root node).length]) := by
  rw [sourcesAt, h]
  exact if_pos hfolder

theorem sourcesAt_of_not_folder (h : files.isFolder root = false) :
    sourcesAt files root = ([root], []) := by
  rw [Files.isFolder] at h
  rw [sourcesAt]
  split
  · next node hget =>
    rw [hget] at h
    exact if_neg (Bool.eq_false_iff.mp h)
  · rfl

/-- Writing a dump changes nothing about which sources are found. -/
theorem sourcesAt_writeText (hordered : files.root.IsOrdered) (p : Path) (text : String)
    (root : Path) : sourcesAt (Dump.writeText files p text).files root = sourcesAt files root := by
  rcases Dump.writeText_cases files p text with
    ⟨q, place, hq, hsits, hfree, hwritten⟩ | ⟨-, e, events, hwritten⟩
  · obtain ⟨name, folder, hname, hview, rfl⟩ := Dump.sits_path? hq hsits
    have hproper := Dump.isName_fileName (parts_of_fileName? hname).1
    obtain ⟨entries, hfolder⟩ := view_eq_folder.mp hview
    rw [hwritten]
    have hgained := hsits.gained hfree text.toUTF8
    rw [view_concat hfolder] at hfree
    cases hroot : files.isFolder root with
    | true =>
        obtain ⟨_, hshape, names, hnames, hview⟩ := isFolder_eq_true.mp hroot
        have hresolve := ((hgained.resolve_view (Shape.not_isFree_of_isFolder hshape)).mpr
          ⟨hnames, hview⟩).1
        obtain ⟨node, hfound, rfl⟩ := Option.map_eq_some_iff.mp hview
        rw [isFolder_shape] at hshape
        obtain ⟨after, hafter, hinner, hbelow⟩ := find?_put_folder (Dump.isDump_join hproper)
          text.toUTF8 hordered hfolder hfree hfound hshape
        rw [sourcesAt_of_folder (get_eq_ok.mpr ⟨names, hnames, hfound⟩) hshape,
          sourcesAt_of_folder (get_eq_ok.mpr ⟨names, hresolve, hafter⟩) hinner, hbelow root]
    | false =>
        rw [sourcesAt_of_not_folder hroot,
          sourcesAt_of_not_folder ((hgained.isFolder root).trans hroot)]
  · rw [hwritten]

theorem isOrdered_writeText (hordered : files.root.IsOrdered) (p : Path) (text : String) :
    (Dump.writeText files p text).files.root.IsOrdered := by
  rcases Dump.writeText_cases files p text with ⟨q, place, -, -, -, hwritten⟩ | ⟨-, _, _, hwritten⟩
  · rw [hwritten]
    exact hordered.put (.file _) place
  · rwa [hwritten]

/-! ## Sources are no dumps -/

mutual

theorem not_isDump_of_mem_below (p : Path) (node : Node) :
    ∀ source ∈ below p node, isDump source = false := by
  cases node with
  | file | lockedFile =>
      intro source hmem
      rw [below] at hmem
      split at hmem
      · next hsource =>
        rw [List.mem_singleton.mp hmem]
        simpa using (Bool.and_eq_true_iff.mp hsource).2
      · cases hmem
  | folder entries => exact not_isDump_of_mem_belowEntries p entries
  | lockedFolder =>
      rintro source ⟨⟩

theorem not_isDump_of_mem_belowEntries (p : Path) (entries : List (String × Node)) :
    ∀ source ∈ belowEntries p entries, isDump source = false := by
  cases entries with
  | nil =>
      rintro source ⟨⟩
  | cons entry entries =>
      intro source hmem
      rw [belowEntries, List.mem_append] at hmem
      rcases hmem with hmem | hmem
      · exact not_isDump_of_mem_below _ entry.2 source hmem
      · exact not_isDump_of_mem_belowEntries p entries source hmem

end

theorem isDump_congr {p q : Path} (h : p.components = q.components) : isDump p = isDump q := by
  simp only [isDump, stem?, fileName?, h]

theorem not_isDump_of_mem_sourcesAt (h : files.isFolder root = true) :
    ∀ source ∈ (sourcesAt files root).1, isDump source = false := by
  rw [Files.isFolder] at h
  split at h
  · next node hget =>
    rw [sourcesAt_of_folder hget h]
    exact not_isDump_of_mem_below root node
  · cases h

end Discovery

/-! ## Dumps beside sources -/

namespace Dump

/-- Writes the texts of dumps, each beside a path. -/
def writeAll (files : Files) : List (Path × String) → Files
  | [] => files
  | (p, text) :: rest => writeAll (writeText files p text).files rest

theorem sources_writeAll {files : Files} (hordered : files.root.IsOrdered)
    (dumps : List (Path × String)) (roots : List Path) :
    Discovery.sources (writeAll files dumps) roots = Discovery.sources files roots := by
  induction dumps generalizing files with
  | nil => rfl
  | cons dump dumps ih =>
      have hsame : Discovery.sourcesAt (writeText files dump.1 dump.2).files =
          Discovery.sourcesAt files :=
        funext fun root => Discovery.sourcesAt_writeText hordered dump.1 dump.2 root
      rw [writeAll, ih (Discovery.isOrdered_writeText hordered dump.1 dump.2), Discovery.sources,
        Discovery.sources, hsame]

theorem pathOf_eq_ok {p q : Path} : pathOf p = .ok q ↔ path? p = some q := by
  rw [pathOf]
  cases path? p <;> simp

theorem pathOf_eq_error {p : Path} {e : DumpError} :
    pathOf p = .error e ↔ e = .noFileName p ∧ p.fileName? = none := by
  rw [pathOf, ← path?_eq_none]
  cases path? p <;> simp [eq_comm]

/-- The path of a dump is beside its source, is not that of the source, and is known to be that of a
dump. So no walk through a folder comes upon it, and dumps that are written change nothing about
what is found. Sources with different file names have different dumps. Only a path without a file
name has no dump. -/
theorem pathOf_apart :
    (∀ p q, pathOf p = .ok q →
      q.parent? = p.parent? ∧ q.extension? = p.extension? ∧ q.components ≠ p.components
      ∧ Discovery.isDump q = true
      ∧ ∀ (files : Files) (root : Path), files.isFolder root = true →
        ∀ source ∈ (Discovery.sourcesAt files root).1, source.components ≠ q.components)
    ∧ (∀ files : Files, files.root.IsOrdered → ∀ (dumps : List (Path × String)) (roots : List Path),
      Discovery.sources (writeAll files dumps) roots = Discovery.sources files roots)
    ∧ (∀ p q p' q', pathOf p = .ok q → pathOf p' = .ok q' → p.fileName? ≠ p'.fileName? →
      q.components ≠ q'.components)
    ∧ ∀ p e, pathOf p = .error e ↔ e = .noFileName p ∧ p.fileName? = none := by
  refine ⟨fun p q hq => ?_, fun files hordered => sources_writeAll hordered, ?_, fun p e =>
    pathOf_eq_error⟩
  · obtain ⟨name, folder, hname, hparent, hp, -, hqparent, hqname, hqcomponents⟩ :=
      path?_eq_some (pathOf_eq_ok.mp hq)
    have hdump := isDump_of_fileName? hqname
    refine ⟨hqparent.trans hparent.symm, extension?_of_fileName? hname hqname, ?_, hdump, ?_⟩
    · rw [hp, hqcomponents]
      intro h
      have hlast := List.append_cancel_left h
      simp [fileName_ne] at hlast
    · intro files root hroot source hmem h
      have hsource := Discovery.not_isDump_of_mem_sourcesAt hroot source hmem
      rw [Discovery.isDump_congr h, hdump] at hsource
      cases hsource
  · intro p q p' q' hq hq' hne h
    obtain ⟨name, -, hname, -, -, -, -, hqname, -⟩ := path?_eq_some (pathOf_eq_ok.mp hq)
    obtain ⟨name', -, hname', -, -, -, -, hqname', -⟩ := path?_eq_some (pathOf_eq_ok.mp hq')
    have hsame : q.fileName? = q'.fileName? := by rw [fileName?, fileName?, h]
    rw [hqname, hqname', Option.some.injEq] at hsame
    exact hne (by rw [hname, hname', fileName_injective hsame])

/-- A folder with two sources and the dump of an earlier run of one of them. -/
def exampleFiles : Files where
  root := .folder [("d", .folder [
    ("a.spc", .file "x".toUTF8), ("b.c.spc", .file "y".toUTF8),
    ("b.c_tokens.spc", .file ByteArray.empty)])]

theorem pathOf_apart_example :
    exampleFiles.isFolder ⟨"d"⟩ = true ∧ exampleFiles.root.IsOrdered
    ∧ Discovery.sources
        (writeAll exampleFiles [(⟨"d/a.spc"⟩, "IDENT | x\n"), (⟨"./d//b.c.spc"⟩, "")])
        [⟨"d"⟩, ⟨"d/a.spc"⟩] = Discovery.sources exampleFiles [⟨"d"⟩, ⟨"d/a.spc"⟩]
    ∧ (⟨"./d/b.c_tokens.spc"⟩ : Path).parent? = (⟨"./d//b.c.spc"⟩ : Path).parent?
    ∧ (∀ source ∈ (Discovery.sourcesAt exampleFiles ⟨"d"⟩).1,
        source.components ≠ (⟨"./d/b.c_tokens.spc"⟩ : Path).components)
    ∧ (⟨"d/a_tokens.spc"⟩ : Path).components ≠ (⟨"./d/b.c_tokens.spc"⟩ : Path).components
    ∧ pathOf ⟨"d/.."⟩ = .error (.noFileName ⟨"d/.."⟩) := by
  have hfolder : exampleFiles.isFolder ⟨"d"⟩ = true := by decide +kernel
  have hordered : exampleFiles.root.IsOrdered := by
    refine .folder (List.pairwise_singleton _ _) fun entry hentry => ?_
    cases List.mem_singleton.mp hentry
    refine .folder (by decide +kernel) fun entry hentry => ?_
    simp only [List.mem_cons, List.not_mem_nil, or_false] at hentry
    rcases hentry with rfl | rfl | rfl <;> exact .file _
  have ha : pathOf ⟨"d/a.spc"⟩ = .ok ⟨"d/a_tokens.spc"⟩ := by decide +kernel
  have hb : pathOf ⟨"./d//b.c.spc"⟩ = .ok ⟨"./d/b.c_tokens.spc"⟩ := by decide +kernel
  obtain ⟨hparent, -, -, -, hwalk⟩ := pathOf_apart.1 _ _ hb
  exact ⟨hfolder, hordered, pathOf_apart.2.1 exampleFiles hordered _ _, hparent,
    hwalk exampleFiles ⟨"d"⟩ hfolder, pathOf_apart.2.2.1 _ _ _ _ ha hb (by decide +kernel),
    (pathOf_apart.2.2.2 _ _).mpr ⟨rfl, by decide +kernel⟩⟩

end Dump

end ContractLex
