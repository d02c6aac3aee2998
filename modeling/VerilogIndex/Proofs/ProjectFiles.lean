import VerilogIndex.Index.Basic
import VerilogIndex.Proofs.Filelists

/-!
# The files of a project

A file is in a project if folders lead to it from the root, none of which is ignored
(`Discovery.InProject`). This is said of the path of the file alone; a discovery walks the tree of
the root, and comes to these files and no others, each once (`Discovery.mem_walk_iff_inProject`).
A file of the project that the pattern accepts is a filelist. Main statement: the files that a
discovery gives are the source files of the project, in order, if it has no filelist, and otherwise
those that its filelists name, in the order in which they first do (`Index.discover_exact`).
-/

namespace VerilogIndex

namespace Folder

/-- From a folder on the way the rest of the way leads on. -/
theorem find_append_of_folder {bs : List Text} : ∀ {as : List Text} {f g : Folder},
    find as f = .ok (.folder g) → find (as ++ bs) f = find bs g
  | [], f, g, h => by
    cases h
    rfl
  | a :: as, f, g, h => by
    rcases hget : Table.get? f a with _ | content | entries
    · rw [find_cons_of_none hget] at h
      cases h
    · rw [find_cons_of_file hget] at h
      split_ifs at h
      cases h
    · rw [find_cons_of_folder hget] at h
      rw [List.cons_append, find_cons_of_folder hget, find_append_of_folder h]

end Folder

namespace Disk

theorem absolute_of_isAbsolute (d : Disk) {p : Text} (hp : Path.isAbsolute p = true) :
    d.absolute p = Path.normalise p := by
  rw [absolute, Path.absolute, Path.join, if_pos hp]

theorem absolute_absolute {d : Disk} (hh : Path.isAbsolute d.here = true) (p : Text) :
    d.absolute (d.absolute p) = d.absolute p := by
  have hp : Path.isAbsolute (d.absolute p) = true := Path.isAbsolute_absolute hh p
  rw [absolute_of_isAbsolute d hp]
  exact Path.normalise_absolute hh p

end Disk

namespace Discovery

/-- There is a file called `name` at the absolute path `q`, which leads on from the root through
folders that are not ignored. Whether the file can be opened does not matter. -/
structure InProject (d : Disk) (c : Config) (root q name : Text) : Prop where
  absolute : d.absolute q = q
  file : ∃ content, d.entry q = .ok (.file content)
  leads : Path.rootOf q = Path.rootOf root ∧ ∃ dirs,
    Path.components q = Path.components root ++ (dirs ++ [name])
      ∧ ∀ dir ∈ dirs, .text dir ∉ c.ignoreDirs

theorem mem_ignoredNames {c : Config} {ignored : List Text} (hi : ignoredNames c = .ok ignored)
    {dir : Text} : dir ∈ ignored ↔ .text dir ∈ c.ignoreDirs := by
  rw [ignoredNames] at hi
  split_ifs at hi
  cases hi
  rw [List.mem_filterMap]
  constructor
  · rintro ⟨v, hv, hdir⟩
    split at hdir
    · cases hdir
      exact hv
    · cases hdir
  · exact fun h => ⟨_, h, rfl⟩

theorem absolute_pathOf_names {d : Disk} (hh : Path.isAbsolute d.here = true) (r : Text)
    {dirs : List Text} {name : Text} (hn : ∀ part ∈ dirs ++ [name], Path.IsName part) :
    d.absolute (pathOf (dirs.foldl Path.join (d.absolute r), name)) =
      pathOf (dirs.foldl Path.join (d.absolute r), name) := by
  have hrooted : Path.isAbsolute (Path.join (dirs.foldl Path.join (d.absolute r)) name) = true := by
    rw [Path.isAbsolute_iff, Path.rootOf_join (hn name (by simp)),
      (Path.join_names (fun part hpart => hn part (List.mem_append_left _ hpart)) _).1]
    exact (Path.absolute_eq hh r).1
  rw [pathOf, ← d.absolute_of_isAbsolute hrooted, Disk.absolute_absolute hh]

section Walk

variable {d : Disk} (hd : d.WellFormed) {c : Config} {ignored : List Text}
  (hi : ignoredNames c = .ok ignored)
include hd hi

theorem inProject_of_mem_filesBelow {r : Text} {x : Text × Text}
    (hx : x ∈ d.filesBelow ignored.contains (d.absolute r)) :
    InProject d c (d.absolute r) (pathOf x) x.2 := by
  rw [Disk.filesBelow] at hx
  split at hx
  · rename_i entries hroot
    have hw := Disk.wellFormed_entry hd hroot
    obtain ⟨dirs, content, hfind, hskips, hdir⟩ := Folder.leads_of_mem_filesIn _ entries hw x hx
    obtain ⟨dir, name⟩ := x
    obtain rfl : dir = dirs.foldl Path.join (d.absolute r) := hdir
    have hnames := Folder.isName_of_find hw hfind
    have habsolute := absolute_pathOf_names hd.here r hnames
    obtain ⟨hrootOf, hcomponents⟩ := split_pathOf_names hd.here r hnames
    refine ⟨habsolute, ?_, hrootOf, dirs, hcomponents, fun dir hmem hignored => ?_⟩
    · rw [Disk.entry_absolute hd.here] at hroot
      refine ⟨content, ?_⟩
      rw [← habsolute, Disk.entry_absolute hd.here, habsolute, hcomponents,
        Folder.find_append_of_folder hroot, hfind]
    · have hskip := hskips dir hmem
      rw [List.contains_iff_mem.2 ((mem_ignoredNames hi).2 hignored)] at hskip
      cases hskip
  · cases hx

/-- A walk comes to the files of the project. -/
theorem mem_walk_iff_inProject (r : Text) (accepts : Text → Bool) (q : Text) :
    q ∈ ((d.filesBelow ignored.contains (d.absolute r)).filter fun x => accepts x.2).map pathOf ↔
      ∃ name, InProject d c (d.absolute r) q name ∧ accepts name = true := by
  constructor
  · intro hq
    obtain ⟨x, hx, rfl⟩ := List.mem_map.1 hq
    obtain ⟨hx, haccepts⟩ := List.mem_filter.1 hx
    exact ⟨x.2, inProject_of_mem_filesBelow hd hi hx, haccepts⟩
  · rintro ⟨name, h, haccepts⟩
    obtain ⟨hrootOf, dirs, hcomponents, hdirs⟩ := h.leads
    have habsolute := h.absolute
    have hbelow : Path.Below (d.absolute r) (d.absolute q) := by
      rw [habsolute]
      exact ⟨hrootOf, dirs ++ [name], by simp, hcomponents⟩
    obtain ⟨entries, init, name', content, hroot, hfind, hcs⟩ :=
      Disk.exists_names hd (by rw [habsolute]; exact h.file) hbelow
    have hparts : init ++ [name'] = dirs ++ [name] := by
      rw [habsolute, hcomponents] at hcs
      exact (List.append_cancel_left hcs).symm
    obtain ⟨rfl, rfl⟩ := List.concat_inj.1 (by simpa using hparts)
    have hwalk := (mem_walk_iff hd hroot hfind hbelow hcs ignored.contains accepts).2
      ⟨fun dir hdir => ?_, haccepts⟩
    · rwa [habsolute] at hwalk
    · rw [← Bool.not_eq_true, List.contains_iff_mem, mem_ignoredNames hi]
      exact hdirs dir hdir

end Walk

/-- What a walk gives, in order and without repetition. -/
theorem sorted_walk {d : Disk} (hd : d.WellFormed) {c : Config} {ignored : List Text}
    (hi : ignoredNames c = .ok ignored) (r : Text) (accepts : Text → Bool) :
    let files := Text.sorted
      (((d.filesBelow ignored.contains (d.absolute r)).filter fun x => accepts x.2).map pathOf)
    (files.Pairwise fun a b => Text.le a b = true) ∧ files.Nodup
      ∧ ∀ q, q ∈ files ↔ ∃ name, InProject d c (d.absolute r) q name ∧ accepts name = true := by
  refine ⟨Text.sorted_pairwise _, ?_, fun q => ?_⟩
  · refine (Text.sorted_perm _).nodup_iff.2 ?_
    exact (nodup_candidates hd (candidates_eq hi)).sublist (List.filter_sublist.map _)
  · rw [Text.mem_sorted, mem_walk_iff_inProject hd hi]

/-- Filelists are told by their names, if the pattern is a text. -/
theorem filelists_of_text (d : Disk) (root : Text) {c : Config} {ignored : List Text} {p : Text}
    (hi : ignoredNames c = .ok ignored) (hp : c.filelistPattern = .text p) :
    filelists d root c = .ok (Text.sorted
      (((d.filesBelow ignored.contains root).filter fun x => Glob.accepts p x.2).map pathOf)) := by
  have hname : ∀ name, isFilelist c name = .ok (Glob.accepts p name) := fun name => by
    rw [isFilelist, hp]
  refine (filelists_eq_ok hi).2 ⟨fun x _ => ⟨_, hname x.2⟩, ?_⟩
  simp only [hname, Except.toOption, Option.some_beq_some, beq_true]

/-- With filelists the files are those that they name. -/
theorem discover_of_filelists {d : Disk} {root : Text} {c : Config} {lists : List Text}
    (hl : filelists d root c = .ok lists) (hne : lists ≠ []) : ∃ notices, discover d root c =
      .ok (⟨(lists.flatMap fun l => (Filelist.resolve d c.extensions l).1).eraseDups, true⟩,
        notices) := by
  have hfiles : Text.distinct ((lists.map (Filelist.resolve d c.extensions)).flatMap (·.1)) =
      (lists.flatMap fun l => (Filelist.resolve d c.extensions l).1).eraseDups := by
    rw [List.flatMap_map, Text.distinct_eq_eraseDups]
  rw [discover, hl, ← hfiles]
  exact ⟨_, if_neg (by simpa using hne)⟩

end Discovery

namespace Index

open Discovery

variable {d : Disk} {x : Index}

theorem discover_eq {found : Found} {notices : List Notice}
    (h : Discovery.discover d x.root x.config = .ok (found, notices)) :
    x.discover d = .ok (found.files, { x with byFilelist := found.byFilelist }, notices) := by
  rw [discover, h]
  rfl

/-- If no file of the project has a name that the pattern accepts, a discovery gives the files of
the project that have one of the extensions, apart from case, in order and each once, and notes that
no filelist named them. Otherwise it notes that filelists named the files, and gives what the files
with accepted names list, one filelist after the other in the order of their paths, each file at its
first place only. -/
theorem discover_exact (hd : d.WellFormed) {r p : Text} (hroot : x.root = d.absolute r)
    (hkeys : ∀ v ∈ x.config.ignoreDirs, v.isKey = true)
    (hpattern : x.config.filelistPattern = .text p) :
    ((∀ q name, InProject d x.config x.root q name → Glob.accepts p name = false) →
      ∃ files, x.discover d = .ok (files, { x with byFilelist := false }, [])
        ∧ (files.Pairwise fun a b => Text.le a b = true) ∧ files.Nodup
        ∧ ∀ q, q ∈ files ↔ ∃ name, InProject d x.config x.root q name
          ∧ ∃ e ∈ x.config.extensions, Text.lower e <:+ Text.lower name)
    ∧ ((∃ q name, InProject d x.config x.root q name ∧ Glob.accepts p name = true) →
      ∃ (lists : List Text) (notices : List Notice), x.discover d =
          .ok ((lists.flatMap fun l => (Filelist.resolve d x.config.extensions l).1).eraseDups,
            { x with byFilelist := true }, notices)
        ∧ (lists.Pairwise fun a b => Text.le a b = true) ∧ lists.Nodup
        ∧ ∀ q, q ∈ lists ↔ ∃ name, InProject d x.config x.root q name
          ∧ Glob.accepts p name = true) := by
  obtain ⟨ignored, hi⟩ : ∃ ignored, ignoredNames x.config = .ok ignored :=
    ⟨_, if_pos (List.all_eq_true.2 hkeys)⟩
  have hlists := filelists_of_text d x.root hi hpattern
  have hwalk := sorted_walk hd hi r
  simp only [← hroot] at hwalk
  obtain ⟨hsorted, hnodup, hmem⟩ := hwalk (Glob.accepts p)
  generalize Text.sorted (((d.filesBelow ignored.contains x.root).filter
    fun x => Glob.accepts p x.2).map pathOf) = lists at hlists hsorted hnodup hmem
  refine ⟨fun hnone => ?_, fun ⟨q, hq⟩ => ?_⟩
  · obtain rfl : lists = [] := by
      rw [List.eq_nil_iff_forall_not_mem]
      intro q hq
      obtain ⟨name, hproject, haccepts⟩ := (hmem q).1 hq
      rw [hnone q name hproject] at haccepts
      cases haccepts
    obtain ⟨hsorted, hnodup, hmem⟩ := hwalk (hasExtension x.config.extensions)
    refine ⟨_, discover_eq (discover_of_no_filelists hi hlists), hsorted, hnodup, fun q => ?_⟩
    simp only [hmem, hasExtension_iff]
  · have hne : lists ≠ [] := List.ne_nil_of_mem ((hmem q).2 hq)
    obtain ⟨notices, hdiscover⟩ := discover_of_filelists hlists hne
    exact ⟨lists, notices, discover_eq hdiscover, hsorted, hnodup, hmem⟩

/-- A project with a filelist in a folder that one index ignores and another one does not. -/
theorem discover_exact_ignoring :
    let d₀ : Disk := ⟨[], "/"⟩
    let d := ((d₀.putFile (d₀.absolute "p/rtl/a.SV") []).putFile
      (d₀.absolute "p/tmp/b.sv") []).putFile (d₀.absolute "p/tmp/all.f") []
    let x := fun dirs : List Value =>
      { root := d.absolute "p", config := { ignoreDirs := dirs } : Index }
    d.WellFormed
      ∧ (∀ dirs, (x dirs).root = d.absolute "p" ∧ (x dirs).config.filelistPattern = .text "*.f")
      ∧ (∀ v ∈ (x [.text "tmp"]).config.ignoreDirs, v.isKey = true)
      ∧ (∃ files, (x [.text "tmp"]).discover d = .ok (files, x [.text "tmp"], [])
        ∧ d.absolute "p/rtl/a.SV" ∈ files ∧ d.absolute "p/tmp/b.sv" ∉ files)
      ∧ ∃ files notices,
        (x []).discover d = .ok (files, { x [] with byFilelist := true }, notices) := by
  intro d₀ d x
  have hempty : Entry.WellFormed (.folder []) := .folder (by simp) (by simp) (by simp)
  have h₀ : d₀.WellFormed := ⟨hempty, rfl⟩
  have h₂ := Disk.wellFormed_putFile (d := d₀.putFile (d₀.absolute "p/rtl/a.SV") [])
    (Disk.wellFormed_putFile h₀ _ _) "p/tmp/b.sv" []
  have hd : d.WellFormed := Disk.wellFormed_putFile h₂ "p/tmp/all.f" []
  have hpath : ∀ p, d.absolute (d.absolute p) = d.absolute p := Disk.absolute_absolute hd.here
  have ha : InProject d (x [.text "tmp"]).config (d.absolute "p") (d.absolute "p/rtl/a.SV")
      "a.SV" :=
    ⟨hpath _, Disk.exists_entry_of_isFile (by decide +kernel), by decide +kernel, ["rtl"],
      by decide +kernel, by simp [x]⟩
  have hlist : InProject d (x []).config (d.absolute "p") (d.absolute "p/tmp/all.f") "all.f" :=
    ⟨hpath _, Disk.exists_entry_of_isFile (by decide +kernel), by decide +kernel, ["tmp"],
      by decide +kernel, by simp [x]⟩
  have hb : Path.components (d.absolute "p/tmp/b.sv") =
      Path.components (d.absolute "p") ++ (["tmp".toList] ++ ["b.sv".toList]) := by decide +kernel
  have hextension : ".sv".toList ∈ ({} : Config).extensions := by decide
  have hi : ignoredNames (x [.text "tmp"]).config = .ok ["tmp"] := rfl
  have hnone : (d.filesBelow ["tmp".toList].contains (d.absolute "p")).filter
      (fun f => Glob.accepts "*.f" f.2) = [] := by decide +kernel
  have hkeys : ∀ v ∈ (x [.text "tmp"]).config.ignoreDirs, v.isKey = true := by
    simp [x, Value.isKey, Value.unhashable?]
  clear_value d
  have hno : ∀ q name, InProject d (x [.text "tmp"]).config (d.absolute "p") q name →
      Glob.accepts "*.f" name = false := by
    intro q name hq
    by_contra haccepts
    have := (mem_walk_iff_inProject hd hi "p" (Glob.accepts "*.f") q).2
      ⟨name, hq, by simpa using haccepts⟩
    rw [hnone] at this
    cases this
  obtain ⟨hfound, -⟩ := discover_exact (x := x [.text "tmp"]) hd rfl hkeys rfl
  obtain ⟨-, hlisted⟩ := discover_exact (x := x []) hd rfl (by simp [x]) rfl
  obtain ⟨files, hfiles, -, -, hmem⟩ := hfound hno
  obtain ⟨lists, notices, hlists, -⟩ := hlisted ⟨_, _, hlist, rfl⟩
  refine ⟨hd, fun dirs => ⟨rfl, rfl⟩, hkeys, ⟨files, hfiles, ?_, fun hb' => ?_⟩, _, notices, hlists⟩
  · exact (hmem _).2 ⟨_, ha, _, hextension, by decide⟩
  · obtain ⟨name, hproject, -⟩ := (hmem _).1 hb'
    obtain ⟨-, dirs, hdirs, hignored⟩ := hproject.leads
    obtain ⟨rfl, -⟩ := List.append_inj' (List.append_cancel_left (hb.symm.trans hdirs)) rfl
    exact hignored "tmp" (by simp) (by simp [x])

end Index

end VerilogIndex
