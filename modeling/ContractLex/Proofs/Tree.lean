import ContractLex.Files

/-!
# Trees

A file that is put into a tree is found where it was put, and everything else that is to be seen
from the root stays as it was (`shape_find?_put`). A tree whose folders keep their entries in the
order of their names still does so afterwards (`IsOrdered.put`).
-/

namespace ContractLex.Node

variable {node inner new : Node} {entries : List (String × Node)} {name other : String}
  {names place : List String} {contents : ByteArray}

/-! ## Entries -/

theorem lookup_cons (other : String) (old : Node) (entries : List (String × Node))
    (name : String) :
    ((other, old) :: entries).lookup name =
      if name = other then some old else entries.lookup name := by
  rw [List.lookup_cons]
  by_cases h : name = other
  · simp [h]
  · rw [beq_false_of_ne h, if_neg h]

theorem lookup_putEntry (name : String) (new : Node) (entries : List (String × Node))
    (other : String) :
    (putEntry name new entries).lookup other =
      if other = name then some new else entries.lookup other := by
  induction entries with
  | nil => exact lookup_cons name new [] other
  | cons entry entries ih =>
      obtain ⟨first, old⟩ := entry
      rw [putEntry]
      split
      · next h =>
        rw [lookup_cons, lookup_cons, ← h]
        split <;> rfl
      · next h =>
        split
        · exact lookup_cons name new _ other
        · rw [lookup_cons, lookup_cons, ih]
          by_cases hother : other = name
          · rw [if_neg (hother ▸ h), if_pos hother, if_pos hother]
          · rw [if_neg hother, if_neg hother]

theorem find?_cons_folder :
    (Node.folder entries).find? (name :: names) = (entries.lookup name).bind (·.find? names) := by
  rw [find?]
  cases entries.lookup name <;> rfl

theorem find?_append (node : Node) (names more : List String) :
    node.find? (names ++ more) = (node.find? names).bind (·.find? more) := by
  induction names generalizing node with
  | nil => rfl
  | cons name names ih =>
      cases node with
      | folder entries =>
          rw [List.cons_append, find?_cons_folder, find?_cons_folder]
          cases entries.lookup name with
          | none => rfl
          | some inner => exact ih inner
      | file | lockedFile | lockedFolder => rfl

/-- What leads on is a folder with an entry. -/
theorem find?_cons_eq_some (h : node.find? (name :: names) = some inner) :
    ∃ entries next, node = .folder entries ∧ entries.lookup name = some next
      ∧ next.find? names = some inner := by
  cases node with
  | folder entries =>
      rw [find?_cons_folder] at h
      obtain ⟨next, hnext, hinner⟩ := Option.bind_eq_some_iff.mp h
      exact ⟨entries, next, rfl, hnext, hinner⟩
  | file | lockedFile | lockedFolder => cases h

theorem put_cons_folder (h : entries.lookup name = some inner) :
    (Node.folder entries).put new (name :: names) =
      .folder (putEntry name (inner.put new names) entries) := by
  rw [put]
  simp only [h, Option.getD_some]

theorem put_singleton_folder :
    (Node.folder entries).put new [name] = .folder (putEntry name new entries) := rfl

/-! ## Shapes -/

/-- What is to be seen of a node without looking below it. -/
inductive Shape where
  | file (contents : ByteArray)
  | folder
  | lockedFile (size : Nat)
  | lockedFolder

def shape : Node → Shape
  | .file contents => .file contents
  | .folder _ => .folder
  | .lockedFile size => .lockedFile size
  | .lockedFolder => .lockedFolder

theorem shape_eq_folder : node.shape = .folder ↔ ∃ entries, node = .folder entries := by
  cases node <;> simp [shape]

def Shape.isFolder : Shape → Bool
  | .folder | .lockedFolder => true
  | .file _ | .lockedFile _ => false

theorem isFolder_shape (node : Node) : node.shape.isFolder = node.isFolder := by
  cases node <;> rfl

/-- A place where a file may be written: there is nothing, or a file. -/
def Shape.IsFree : Option Shape → Prop
  | none => True
  | some (.file _) => True
  | _ => False

theorem Shape.not_isFree_of_isFolder {s : Shape} (h : s.isFolder = true) : ¬ IsFree (some s) := by
  cases s with
  | file | lockedFile => cases h
  | folder | lockedFolder => exact id

theorem find?_cons_of_isFree {found : Option Node} (h : Shape.IsFree (found.map shape)) :
    found.bind (·.find? (name :: names)) = none := by
  cases found with
  | none => rfl
  | some node =>
      cases node with
      | file contents => rfl
      | folder | lockedFile | lockedFolder => cases h

/-- A file that is put into a folder is to be seen there, and nothing else is changed. -/
theorem shape_find?_put (hplace : node.find? place = some (.folder entries))
    (hfree : Shape.IsFree ((entries.lookup name).map shape)) (names : List String) :
    ((node.put (.file contents) (place ++ [name])).find? names).map shape =
      if names = place ++ [name] then some (.file contents) else (node.find? names).map shape := by
  -- down the folders to the one with the file; names that branch off see what they saw
  induction place generalizing node names with
  | nil =>
      cases hplace
      rw [List.nil_append, put_singleton_folder]
      cases names with
      | nil => rfl
      | cons first names =>
          rw [find?_cons_folder, find?_cons_folder, lookup_putEntry]
          by_cases hfirst : first = name
          · subst hfirst
            cases names with
            | nil => simp [find?, shape]
            | cons second names =>
                rw [if_pos rfl, Option.bind_some, find?_cons_of_isFree hfree, if_neg (by simp)]
                rfl
          · simp [hfirst]
  | cons step place ih =>
      obtain ⟨outer, next, rfl, hnext, hinner⟩ := find?_cons_eq_some hplace
      rw [List.cons_append, put_cons_folder hnext]
      cases names with
      | nil => rfl
      | cons first names =>
          rw [find?_cons_folder, find?_cons_folder, lookup_putEntry]
          by_cases hfirst : first = step
          · subst hfirst
            simp [hnext, ih hinner]
          · simp [hfirst]

/-! ## Order -/

/-- Every folder has its entries in the order of their names. -/
inductive IsOrdered : Node → Prop
  | file (contents : ByteArray) : IsOrdered (.file contents)
  | lockedFile (size : Nat) : IsOrdered (.lockedFile size)
  | lockedFolder : IsOrdered .lockedFolder
  | folder {entries : List (String × Node)}
      (sorted : entries.Pairwise fun entry next => entry.1 < next.1)
      (below : ∀ entry ∈ entries, IsOrdered entry.2) : IsOrdered (.folder entries)

theorem mem_of_lookup (h : entries.lookup name = some node) : (name, node) ∈ entries := by
  induction entries with
  | nil => cases h
  | cons entry entries ih =>
      obtain ⟨first, old⟩ := entry
      rw [lookup_cons] at h
      split at h
      · next hname =>
        cases h
        rw [hname]
        exact List.mem_cons_self
      · exact List.mem_cons_of_mem _ (ih h)

theorem mem_putEntry {entry : String × Node} (h : entry ∈ putEntry name new entries) :
    entry = (name, new) ∨ entry ∈ entries := by
  induction entries with
  | nil => exact Or.inl (List.mem_singleton.mp h)
  | cons first entries ih =>
      obtain ⟨other, old⟩ := first
      rw [putEntry] at h
      split at h
      · exact (List.mem_cons.mp h).imp_right (List.mem_cons_of_mem _)
      · split at h
        · exact List.mem_cons.mp h
        · rcases List.mem_cons.mp h with rfl | h
          · exact Or.inr List.mem_cons_self
          · exact (ih h).imp_right (List.mem_cons_of_mem _)

theorem pairwise_putEntry (h : entries.Pairwise fun entry next => entry.1 < next.1)
    (name : String) (new : Node) :
    (putEntry name new entries).Pairwise fun entry next => entry.1 < next.1 := by
  induction entries with
  | nil => exact List.pairwise_singleton _ _
  | cons first entries ih =>
      obtain ⟨other, old⟩ := first
      obtain ⟨hfirst, hrest⟩ := List.pairwise_cons.mp h
      rw [putEntry]
      split
      · next hname =>
        subst hname
        exact List.pairwise_cons.mpr ⟨hfirst, hrest⟩
      · next hname =>
        split
        · next hlt =>
          refine List.pairwise_cons.mpr ⟨fun entry hentry => ?_, h⟩
          rcases List.mem_cons.mp hentry with rfl | hentry
          · exact hlt
          · exact String.lt_trans hlt (hfirst entry hentry)
        · next hlt =>
          refine List.pairwise_cons.mpr ⟨fun entry hentry => ?_, ih hrest⟩
          rcases mem_putEntry hentry with rfl | hentry
          · exact Decidable.byContradiction fun h' =>
              hname (String.le_antisymm (String.not_lt.mp h') (String.not_lt.mp hlt))
          · exact hfirst entry hentry

/-- In order, what comes after a greater name is not found. -/
theorem lookup_eq_none_of_lt {old : Node}
    (h : ((other, old) :: entries).Pairwise fun entry next => entry.1 < next.1)
    (hlt : name < other) : ((other, old) :: entries).lookup name = none := by
  cases hfound : ((other, old) :: entries).lookup name with
  | none => rfl
  | some node =>
      rcases List.mem_cons.mp (mem_of_lookup hfound) with heq | hmem
      · cases heq
        exact absurd hlt (String.lt_irrefl _)
      · exact absurd (String.lt_trans hlt ((List.pairwise_cons.mp h).1 _ hmem)) (String.lt_irrefl _)

theorem IsOrdered.putEntry (h : IsOrdered (.folder entries)) (hnew : IsOrdered new) :
    IsOrdered (.folder (putEntry name new entries)) := by
  cases h with
  | folder sorted below =>
      refine .folder (pairwise_putEntry sorted name new) fun entry hentry => ?_
      rcases mem_putEntry hentry with rfl | hentry
      · exact hnew
      · exact below entry hentry

theorem IsOrdered.of_lookup (h : IsOrdered (.folder entries))
    (hlookup : entries.lookup name = some inner) : inner.IsOrdered := by
  cases h with
  | folder sorted below => exact below _ (mem_of_lookup hlookup)

theorem IsOrdered.put (h : node.IsOrdered) (hnew : new.IsOrdered) (names : List String) :
    (node.put new names).IsOrdered := by
  induction names generalizing node with
  | nil => exact hnew
  | cons name names ih =>
      have hempty : IsOrdered (.folder []) := .folder .nil fun _ hmem => by cases hmem
      cases node with
      | file | lockedFile | lockedFolder => exact hempty.putEntry (ih hempty)
      | folder entries =>
          refine h.putEntry ?_
          cases hlookup : entries.lookup name with
          | none => exact ih hempty
          | some inner => exact ih (h.of_lookup hlookup)

end ContractLex.Node
