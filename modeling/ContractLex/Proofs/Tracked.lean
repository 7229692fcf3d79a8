import ContractLex.Log.Collector
import Mathlib.Data.List.Induction
import Mathlib.Data.List.Nodup
import Mathlib.Data.List.Perm.Basic

/-!
# What a collector keeps

A collector tracks the files for which something was recorded first, as many as it may, and keeps
the first events of each, as many as it may, with one warning if there were more
(`Collector.recordAll_collects`). So what is kept for a tracked file depends on its own events
alone. A summary counts what is kept.

`Keeps` says this of a collector and of what was recorded. Recording one more event preserves it
(`Keeps.record`): the event belongs to a file that is tracked, to a new one for which there is room,
or to one for which there is none.
-/

namespace ContractLex

/-! ## Keys of paths -/

theorem Path.Component.key_injective : Function.Injective Component.key := by
  intro a b h
  have hlist : a.key.toList = b.key.toList := congrArg String.toList h
  cases a <;> cases b <;>
    simp only [Component.key, String.toList_ofList] at hlist <;> simp_all

/-- Two paths have the same key just if they have the same components. -/
theorem Path.key_eq_iff {p q : Path} : p.key = q.key ↔ p.components = q.components :=
  (List.map_injective_iff.mpr Component.key_injective).eq_iff

/-! ## The events of one file -/

namespace FileEvents

/-- What is kept of the events of a file. -/
def keep (es : List Event) : List Event :=
  es.take maxFileEvents ++ if maxFileEvents < es.length then [overflow] else []

theorem keep_of_le {es : List Event} (h : es.length ≤ maxFileEvents) : keep es = es := by
  rw [keep, List.take_of_length_le h, if_neg (by omega), List.append_nil]

theorem keep_of_lt {es : List Event} (h : maxFileEvents < es.length) :
    keep es = es.take maxFileEvents ++ [overflow] := by
  rw [keep, if_pos h]

/-- One more event is kept, or is the first one too many, or leaves no trace. -/
theorem add_keep {f : FileEvents} {es : List Event} (h : f.events.toList = keep es) (e : Event) :
    (f.add e).events.toList = keep (es ++ [e]) := by
  have hsize : f.events.size = (keep es).length := by rw [← h, Array.length_toList]
  have hlength : (es ++ [e]).length = es.length + 1 := by simp
  rcases Nat.lt_trichotomy es.length maxFileEvents with hlt | heq | hgt
  · rw [keep_of_le (Nat.le_of_lt hlt)] at h hsize
    rw [add, if_pos (by omega), Array.toList_push, h, keep_of_le (by omega)]
  · rw [keep_of_le (Nat.le_of_eq heq)] at h hsize
    rw [add, if_neg (by omega), if_pos (by omega), Array.toList_push, h, keep_of_lt (by omega),
      List.take_left' heq]
  · rw [keep_of_lt hgt] at h hsize
    rw [List.length_append, List.length_take, List.length_singleton] at hsize
    rw [add, if_neg (by omega), if_neg (by omega), h, keep_of_lt (by omega),
      List.take_append_of_le_length (Nat.le_of_lt hgt)]

theorem path_add (f : FileEvents) (e : Event) : (f.add e).path = f.path := by
  rw [add]
  split
  · rfl
  · split <;> rfl

end FileEvents

namespace Collector

/-! ## What is recorded -/

/-- An event that is recorded, and the path of its file. -/
structure Entry where
  path : Path
  event : Event
deriving DecidableEq, Repr

def recordAll (c : Collector) (rs : List Entry) : Collector :=
  rs.foldl (fun c r => c.record r.path r.event) c

/-- The files for which something is recorded, each once, in the order of their first events. -/
def filesOf (rs : List Entry) : List (List String) := (rs.map (·.path.key)).eraseDups

/-- The files that are tracked. -/
def tracked (rs : List Entry) : List (List String) := (filesOf rs).take maxFiles

/-- The path under which a file is named first. -/
def nameOf (rs : List Entry) (k : List String) : Option Path :=
  (rs.find? (·.path.key = k)).map (·.path)

/-- The events that are recorded for a file. -/
def eventsOf (rs : List Entry) (k : List String) : List Event :=
  (rs.filter (·.path.key = k)).map (·.event)

/-- What is kept of the events of a file. -/
def kept (rs : List Entry) (k : List String) : List Event := FileEvents.keep (eventsOf rs k)

section Recorded

variable {rs more : List Entry} {r : Entry} {k : List String}

theorem eraseDups_concat (xs : List (List String)) (x : List String) :
    (xs ++ [x]).eraseDups = if x ∈ xs then xs.eraseDups else xs.eraseDups ++ [x] := by
  rw [List.eraseDups_append]
  split <;> next h => simp [List.removeAll, List.eraseDups_cons, h]

theorem filesOf_concat (rs : List Entry) (r : Entry) :
    filesOf (rs ++ [r]) =
      if r.path.key ∈ filesOf rs then filesOf rs else filesOf rs ++ [r.path.key] := by
  simp only [filesOf, List.map_append, List.map_cons, List.map_nil, eraseDups_concat,
    List.mem_eraseDups]

theorem nodup_filesOf (rs : List Entry) : (filesOf rs).Nodup := by
  induction rs using List.reverseRecOn with
  | nil => exact List.nodup_nil
  | append_singleton rs r ih =>
      rw [filesOf_concat]
      split
      · exact ih
      · next hnew => exact List.concat_eq_append ▸ List.Nodup.concat hnew ih

theorem nodup_tracked (rs : List Entry) : (tracked rs).Nodup :=
  (nodup_filesOf rs).sublist (List.take_sublist _ _)

theorem tracked_of_mem (h : r.path.key ∈ tracked rs) : tracked (rs ++ [r]) = tracked rs := by
  rw [tracked, filesOf_concat, if_pos (List.mem_of_mem_take h), tracked]

theorem tracked_eq_filesOf (hroom : (tracked rs).length < maxFiles) :
    tracked rs = filesOf rs := by
  rw [tracked, List.length_take] at hroom
  exact List.take_of_length_le (by omega)

theorem tracked_of_room (h : r.path.key ∉ tracked rs) (hroom : (tracked rs).length < maxFiles) :
    tracked (rs ++ [r]) = tracked rs ++ [r.path.key] := by
  rw [tracked_eq_filesOf hroom] at h ⊢
  rw [tracked_eq_filesOf hroom] at hroom
  rw [tracked, filesOf_concat, if_neg h, List.take_of_length_le (by simp; omega)]

theorem tracked_of_full (hfull : ¬ (tracked rs).length < maxFiles) (r : Entry) :
    tracked (rs ++ [r]) = tracked rs := by
  have hle : maxFiles ≤ (filesOf rs).length := by
    rw [tracked, List.length_take] at hfull
    omega
  rw [tracked, filesOf_concat, tracked]
  split
  · rfl
  · exact List.take_append_of_le_length hle

/-- A file that is tracked stays so. -/
theorem tracked_isPrefix (rs more : List Entry) : tracked rs <+: tracked (rs ++ more) := by
  induction more using List.reverseRecOn with
  | nil => simp
  | append_singleton more r ih =>
      rw [← List.append_assoc]
      refine ih.trans ?_
      by_cases hmem : r.path.key ∈ tracked (rs ++ more)
      · exact tracked_of_mem hmem ▸ List.prefix_rfl
      · by_cases hroom : (tracked (rs ++ more)).length < maxFiles
        · exact tracked_of_room hmem hroom ▸ List.prefix_append _ _
        · exact tracked_of_full hroom r ▸ List.prefix_rfl

theorem nameOf_append {p : Path} (h : nameOf rs k = some p) (more : List Entry) :
    nameOf (rs ++ more) k = some p := by
  obtain ⟨r, hr, rfl⟩ := Option.map_eq_some_iff.mp h
  rw [nameOf, List.find?_append, hr]
  rfl

theorem nameOf_concat_of_not_mem (h : r.path.key ∉ filesOf rs) :
    nameOf (rs ++ [r]) r.path.key = some r.path := by
  have hnone : rs.find? (·.path.key = r.path.key) = none := by
    simpa [filesOf] using h
  simp [nameOf, List.find?_append, hnone]

theorem eventsOf_append (rs more : List Entry) (k : List String) :
    eventsOf (rs ++ more) k = eventsOf rs k ++ eventsOf more k := by
  simp [eventsOf]

theorem mem_filesOf : k ∈ filesOf rs ↔ ∃ r ∈ rs, r.path.key = k := by
  simp [filesOf]

theorem eventsOf_eq_nil (h : k ∉ filesOf rs) : eventsOf rs k = [] := by
  simp_all [eventsOf, mem_filesOf]

theorem kept_concat_of_ne (h : r.path.key ≠ k) : kept (rs ++ [r]) k = kept rs k := by
  simp [kept, eventsOf, h]

theorem kept_concat (rs : List Entry) (r : Entry) :
    kept (rs ++ [r]) r.path.key = FileEvents.keep (eventsOf rs r.path.key ++ [r.event]) := by
  simp [kept, eventsOf]

/-! ## Keeping it -/

theorem getElem?_insert (files : Std.TreeMap (List String) FileEvents) (k k' : List String)
    (f : FileEvents) : (files.insert k f)[k']? = if k = k' then some f else files[k']? := by
  rw [Std.TreeMap.getElem?_insert]
  simp only [Std.LawfulEqOrd.compare_eq_iff_eq]

/-- That a collector keeps of what was recorded just what it may. -/
structure Keeps (c : Collector) (rs : List Entry) : Prop where
  size : c.files.size = (tracked rs).length
  absent : ∀ k, k ∉ tracked rs → c.files[k]? = none
  present : ∀ k ∈ tracked rs, ∃ f,
    c.files[k]? = some f ∧ nameOf rs k = some f.path ∧ f.events.toList = kept rs k

theorem Keeps.empty : Keeps {} [] where
  size := rfl
  absent _ _ := rfl
  present k hk := by simp [tracked, filesOf] at hk

/-- An event of another file makes no difference to what is kept of a file. -/
theorem Keeps.present_of_ne {c : Collector} (h : c.Keeps rs) (hk : k ∈ tracked rs)
    (hne : r.path.key ≠ k) : ∃ f, c.files[k]? = some f ∧ nameOf (rs ++ [r]) k = some f.path ∧
      f.events.toList = kept (rs ++ [r]) k := by
  obtain ⟨f, hf, hname, hkept⟩ := h.present k hk
  exact ⟨f, hf, nameOf_append hname _, by rw [hkept, kept_concat_of_ne hne]⟩

/-- What is put in place for the file of the event, next to what was kept of the others. -/
theorem Keeps.present_insert {c : Collector} (h : c.Keeps rs) {f : FileEvents}
    (hname : nameOf (rs ++ [r]) r.path.key = some f.path)
    (hkept : f.events.toList = kept (rs ++ [r]) r.path.key)
    (hk : r.path.key ≠ k → k ∈ tracked rs) : ∃ f', (c.files.insert r.path.key f)[k]? = some f' ∧
      nameOf (rs ++ [r]) k = some f'.path ∧ f'.events.toList = kept (rs ++ [r]) k := by
  simp only [getElem?_insert]
  by_cases heq : r.path.key = k
  · subst heq
    exact ⟨f, if_pos rfl, hname, hkept⟩
  · simpa only [if_neg heq] using h.present_of_ne (hk heq) heq

theorem Keeps.record_tracked {c : Collector} (h : c.Keeps rs) (hmem : r.path.key ∈ tracked rs) :
    (c.record r.path r.event).Keeps (rs ++ [r]) := by
  obtain ⟨f, hf, hname, hkept⟩ := h.present _ hmem
  have hrecord : c.record r.path r.event = ⟨c.files.insert r.path.key (f.add r.event)⟩ := by
    simp only [record, hf]
  rw [hrecord]
  constructor
  · have hin : c.files.contains r.path.key = true := by
      rw [Std.TreeMap.contains_eq_isSome_getElem?, hf, Option.isSome_some]
    rw [tracked_of_mem hmem, Std.TreeMap.size_insert, if_pos hin, h.size]
  · intro k hk
    rw [tracked_of_mem hmem] at hk
    rw [getElem?_insert, if_neg (ne_of_mem_of_not_mem hmem hk), h.absent k hk]
  · intro k hk
    rw [tracked_of_mem hmem] at hk
    refine h.present_insert ?_ ?_ fun _ => hk
    · rw [nameOf_append hname, FileEvents.path_add]
    · rw [kept_concat, FileEvents.add_keep hkept]

theorem Keeps.record_new {c : Collector} (h : c.Keeps rs) (hnew : r.path.key ∉ tracked rs)
    (hroom : (tracked rs).length < maxFiles) :
    (c.record r.path r.event).Keeps (rs ++ [r]) := by
  have hrecord : c.record r.path r.event =
      ⟨c.files.insert r.path.key (FileEvents.add { path := r.path } r.event)⟩ := by
    simp only [record, h.absent _ hnew, h.size, if_pos hroom]
  have hfirst : r.path.key ∉ filesOf rs := by
    rwa [tracked_eq_filesOf hroom] at hnew
  rw [hrecord]
  constructor
  · have hout : ¬ c.files.contains r.path.key = true := by
      rw [Std.TreeMap.contains_eq_isSome_getElem?, h.absent _ hnew, Option.isSome_none]
      exact Bool.false_ne_true
    rw [tracked_of_room hnew hroom, Std.TreeMap.size_insert, if_neg hout, h.size,
      List.length_append, List.length_singleton]
  · intro k hk
    rw [tracked_of_room hnew hroom, List.mem_append, not_or, List.mem_singleton] at hk
    rw [getElem?_insert, if_neg (Ne.symm hk.2), h.absent k hk.1]
  · intro k hk
    rw [tracked_of_room hnew hroom, List.mem_append, List.mem_singleton] at hk
    refine h.present_insert ?_ ?_ fun hne => hk.resolve_right (Ne.symm hne)
    · rw [nameOf_concat_of_not_mem hfirst, FileEvents.path_add]
    · rw [kept_concat, eventsOf_eq_nil hfirst]
      exact FileEvents.add_keep rfl r.event

theorem Keeps.record_full {c : Collector} (h : c.Keeps rs) (hnew : r.path.key ∉ tracked rs)
    (hfull : ¬ (tracked rs).length < maxFiles) :
    (c.record r.path r.event).Keeps (rs ++ [r]) := by
  have hrecord : c.record r.path r.event = c := by
    simp only [record, h.absent _ hnew, h.size, if_neg hfull]
  have htracked := tracked_of_full hfull r
  rw [hrecord]
  constructor
  · rw [htracked, h.size]
  · intro k hk
    exact h.absent k (htracked ▸ hk)
  · intro k hk
    rw [htracked] at hk
    exact h.present_of_ne hk (ne_of_mem_of_not_mem hk hnew).symm

theorem Keeps.record {c : Collector} (h : c.Keeps rs) (r : Entry) :
    (c.record r.path r.event).Keeps (rs ++ [r]) := by
  by_cases hmem : r.path.key ∈ tracked rs
  · exact h.record_tracked hmem
  · by_cases hroom : (tracked rs).length < maxFiles
    · exact h.record_new hmem hroom
    · exact h.record_full hmem hroom

theorem recordAll_append (c : Collector) (rs more : List Entry) :
    c.recordAll (rs ++ more) = (c.recordAll rs).recordAll more :=
  List.foldl_append

theorem keeps_recordAll (rs : List Entry) : (recordAll {} rs).Keeps rs := by
  induction rs using List.reverseRecOn with
  | nil => exact .empty
  | append_singleton rs r ih => exact recordAll_append {} rs [r] ▸ ih.record r

/-! ## Looking at it -/

namespace Keeps

variable {c : Collector} {p : Path}

theorem events_eq (h : c.Keeps rs) (p : Path) :
    c.events p = if p.key ∈ tracked rs then kept rs p.key else [] := by
  by_cases hmem : p.key ∈ tracked rs
  · obtain ⟨f, hf, -, hkept⟩ := h.present _ hmem
    simp only [if_pos hmem, events, hf, hkept]
  · rw [if_neg hmem, events, h.absent _ hmem]

theorem mem_keys_iff (h : c.Keeps rs) : k ∈ c.files.keys ↔ k ∈ tracked rs := by
  rw [Std.TreeMap.mem_keys, Std.TreeMap.mem_iff_isSome_getElem?]
  by_cases hmem : k ∈ tracked rs
  · obtain ⟨f, hf, -, -⟩ := h.present _ hmem
    simp only [hf, hmem, Option.isSome_some]
  · simp [h.absent _ hmem, hmem]

theorem keys_perm (h : c.Keeps rs) : c.files.keys.Perm (tracked rs) :=
  (List.perm_ext_iff_of_nodup c.files.nodup_keys (nodup_tracked rs)).mpr fun _ => h.mem_keys_iff

/-- The files of a collector are those that are tracked, with what is kept of each. -/
theorem toList_perm (h : c.Keeps rs) :
    (c.toList.map fun f => (some f.path, f.events.toList)).Perm
      ((tracked rs).map fun k => (nameOf rs k, kept rs k)) := by
  have hkeys : (c.toList.map fun f => (some f.path, f.events.toList)) =
      c.files.keys.map fun k => (nameOf rs k, kept rs k) := by
    rw [← Std.TreeMap.map_fst_toList_eq_keys, toList, List.map_map, List.map_map]
    refine List.map_congr_left fun entry hentry => ?_
    have hget := Std.TreeMap.mem_toList_iff_getElem?_eq_some.mp hentry
    have hin : entry.1 ∈ c.files.keys := by
      rw [← Std.TreeMap.map_fst_toList_eq_keys]
      exact List.mem_map_of_mem hentry
    obtain ⟨f, hf, hname, hkept⟩ := h.present entry.1 (h.mem_keys_iff.mp hin)
    rw [hget, Option.some.injEq] at hf
    simp only [Function.comp_apply, hf, hname, hkept]
  rw [hkeys]
  exact h.keys_perm.map _

end Keeps

end Recorded

end Collector

/-! ## Summaries -/

namespace Summary

/-- The summary of what is kept of each file. -/
def ofKept (kept : List (List Event)) : Summary where
  files := kept.length
  successful := kept.countP fun es => !es.any Event.isError && !es.any Event.isWarning
  failed := kept.countP (·.any Event.isError)
  withWarnings := kept.countP fun es => !es.any Event.isError && es.any Event.isWarning
  errors := kept.flatten.countP Event.isError
  warnings := kept.flatten.countP Event.isWarning

theorem any_eq_countP (es : List Event) (p : Event → Bool) :
    es.any p = decide (0 < es.countP p) := by
  rw [Bool.eq_iff_iff, decide_eq_true_iff, List.countP_pos_iff, List.any_eq_true]

theorem ofKept_concat (kept : List (List Event)) (f : FileEvents) :
    ofKept (kept ++ [f.events.toList]) = (ofKept kept).add f := by
  have herrors : f.errors.length = f.events.toList.countP Event.isError :=
    List.countP_eq_length_filter.symm
  have hwarnings : f.warnings.length = f.events.toList.countP Event.isWarning :=
    List.countP_eq_length_filter.symm
  simp only [ofKept, add, herrors, hwarnings, any_eq_countP, List.countP_append,
    List.countP_singleton, List.flatten_append, List.flatten_singleton, List.length_append,
    List.length_singleton]
  generalize f.events.toList.countP Event.isError = errors
  generalize f.events.toList.countP Event.isWarning = warnings
  by_cases he : 0 < errors <;> by_cases hw : 0 < warnings <;> simp [he, hw]

theorem foldl_add (fs : List FileEvents) :
    fs.foldl add {} = ofKept (fs.map (·.events.toList)) := by
  induction fs using List.reverseRecOn with
  | nil => rfl
  | append_singleton fs f ih =>
      rw [List.foldl_append, ih, List.map_append, List.map_singleton, ofKept_concat]
      rfl

theorem ofKept_perm {kept kept' : List (List Event)} (h : kept.Perm kept') :
    ofKept kept = ofKept kept' := by
  simp only [ofKept, h.length_eq, h.countP_eq, h.flatten.countP_eq]

/-- Every file is counted once. -/
theorem files_ofKept (kept : List (List Event)) :
    (ofKept kept).files =
      (ofKept kept).successful + (ofKept kept).failed + (ofKept kept).withWarnings := by
  induction kept with
  | nil => rfl
  | cons es kept ih =>
      simp only [ofKept] at ih ⊢
      simp only [List.countP_cons, List.length_cons]
      cases es.any Event.isError <;> cases es.any Event.isWarning <;> simp <;> omega

end Summary

namespace Collector

theorem Keeps.summary_eq {c : Collector} {rs : List Entry} (h : c.Keeps rs) :
    c.summary = .ofKept ((tracked rs).map (kept rs)) := by
  have hperm := h.toList_perm.map Prod.snd
  rw [List.map_map, List.map_map] at hperm
  exact (Summary.foldl_add _).trans (Summary.ofKept_perm hperm)

/-- What a collector holds after events were recorded in some order. The files that are tracked are
the first ones, up to their number; of each, the first events are kept, and one warning for all the
others. The summary counts every file once, and the events that are kept. -/
theorem recordAll_collects (rs : List Entry) :
    (∀ p q : Path, p.key = q.key ↔ p.components = q.components) ∧
    ((recordAll {} rs).toList.map fun f => (some f.path, f.events.toList)).Perm
      ((tracked rs).map fun k => (nameOf rs k, kept rs k)) ∧
    (∀ p, (recordAll {} rs).events p = if p.key ∈ tracked rs then kept rs p.key else []) ∧
    FileEvents.overflow.isWarning = true ∧
    (∀ p more more', p.key ∈ tracked rs → eventsOf more p.key = eventsOf more' p.key →
      (recordAll {} (rs ++ more)).events p = (recordAll {} (rs ++ more')).events p) ∧
    (recordAll {} rs).summary = .ofKept ((tracked rs).map (kept rs)) ∧
    (recordAll {} rs).summary.files = (recordAll {} rs).summary.successful +
      (recordAll {} rs).summary.failed + (recordAll {} rs).summary.withWarnings := by
  have hkeeps := keeps_recordAll rs
  refine ⟨fun _ _ => Path.key_eq_iff, hkeeps.toList_perm, hkeeps.events_eq, rfl, ?_,
    hkeeps.summary_eq, ?_⟩
  · intro p more more' hmem hsame
    have hkept (more : List Entry) : (recordAll {} (rs ++ more)).events p =
        FileEvents.keep (eventsOf rs p.key ++ eventsOf more p.key) := by
      rw [(keeps_recordAll _).events_eq, if_pos ((tracked_isPrefix rs more).subset hmem), kept,
        eventsOf_append]
    rw [hkept, hkept, hsame]
  · rw [hkeeps.summary_eq]
    exact Summary.files_ofKept _

/-- Two events of a file that is tracked, with one of another file before or after the second. -/
theorem recordAll_collects_interleaved :
    let a : Path := ⟨"a"⟩
    let first : Entry := ⟨a, .error "E020" "Unrecognized character"⟩
    let second : Entry := ⟨a, .warning "Unusual"⟩
    let other : Entry := ⟨⟨"b"⟩, .warning "Unusual"⟩
    a.key ∈ tracked [first] ∧ eventsOf [second, other] a.key = eventsOf [other, second] a.key ∧
      (recordAll {} [first, second, other]).events a =
        (recordAll {} [first, other, second]).events a := by
  intro a first second other
  have htracked : a.key ∈ tracked [first] := by
    rw [tracked, filesOf]
    decide
  have hsame : eventsOf [second, other] a.key = eventsOf [other, second] a.key := by decide
  exact ⟨htracked, hsame, (recordAll_collects [first]).2.2.2.2.1 a [second, other] [other, second]
    htracked hsame⟩

end Collector

end ContractLex
