import VerilogIndex.Disk.Write
import VerilogIndex.Proofs.Spellings

/-!
# What writing does to a disk

The names from the root to an entry are its place. What paths lead to hangs only on what is at each
place: nothing, a folder, or a file with its content (`Disk.kind?`). Making folders puts folders
where there was nothing, so no file is new or changed (`grows_makeFolders`). Saving a file changes
the place that its path leads to and no other, also where there is not room for all of it
(`sets_of_save`).
-/

namespace VerilogIndex

open Text.Utf8 (Bytes)

/-- What an entry is, apart from what is in a folder. -/
inductive Entry.Kind where
  | folder
  | file (content : Option Bytes)

namespace Entry

def kind : Entry → Kind
  | .file content => .file content
  | .folder _ => .folder

/-- The content of a file that can be opened; a folder has none. -/
def Kind.content? : Kind → Option Bytes
  | .file content => content
  | .folder => none

end Entry

/-! ## Entries by place -/

namespace Folder

/-- What the names lead to: nothing, a folder, or a file with its content. -/
def kind? (place : List Text) (f : Folder) : Option Entry.Kind :=
  (at? place f).map Entry.kind

@[simp] theorem kind?_nil (f : Folder) : kind? [] f = some .folder := rfl

theorem kind?_eq_folder {place : List Text} {f : Folder} :
    kind? place f = some .folder ↔ ∃ g, at? place f = some (.folder g) := by
  rw [kind?]
  rcases at? place f with _ | content | g <;> simp [Entry.kind]

theorem kind?_cons_of_none {c : Text} {cs : List Text} {f : Folder} (h : Table.get? f c = none) :
    kind? (c :: cs) f = none := by
  rcases cs with _ | ⟨d, cs⟩
  · rw [kind?, at?, h]
    rfl
  · rw [kind?, at?, h]
    · rfl
    · simp

theorem kind?_cons_of_folder {c : Text} {cs : List Text} {f g : Folder}
    (h : Table.get? f c = some (.folder g)) : kind? (c :: cs) f = kind? cs g := by
  rcases cs with _ | ⟨d, cs⟩
  · rw [kind?, at?, h]
    rfl
  · rw [kind?, at?, h]
    · rfl
    · simp

theorem kind?_cons_of_file {c : Text} {cs : List Text} {f : Folder} {b : Option Bytes}
    (h : Table.get? f c = some (.file b)) :
    kind? (c :: cs) f = if cs = [] then some (.file b) else none := by
  rcases cs with _ | ⟨d, cs⟩
  · rw [kind?, at?, h]
    rfl
  · rw [kind?, at?, h]
    · rfl
    · simp

/-- Folders with the same entry under a name have the same below it. -/
theorem kind?_cons_congr {c : Text} {f g : Folder} (h : Table.get? g c = Table.get? f c)
    (cs : List Text) : kind? (c :: cs) g = kind? (c :: cs) f := by
  rcases hget : Table.get? f c with _ | b | entries
  · rw [kind?_cons_of_none hget, kind?_cons_of_none (h.trans hget)]
  · rw [kind?_cons_of_file hget, kind?_cons_of_file (h.trans hget)]
  · rw [kind?_cons_of_folder hget, kind?_cons_of_folder (h.trans hget)]

/-- A file or an empty folder that is put into a folder, where no folder is, changes this one
place. -/
theorem kind?_putAt {e : Entry} (he : ∀ g, e = .folder g → g = []) {c : Text} :
    ∀ {place : List Text} {f : Folder}, kind? place f = some .folder →
    kind? (place ++ [c]) f ≠ some .folder → ∀ other, kind? other (putAt (place ++ [c]) e f) =
      if other = place ++ [c] then some e.kind else kind? other f
  | [], f, _, hfree, [] => by simp
  | [], f, _, hfree, x :: rest => by
    rw [List.nil_append, putAt]
    by_cases hx : x = c
    · subst hx
      have hget : Table.get? (Table.put x e f) x = some e := by rw [Table.get?_put, if_pos rfl]
      have hbelow : rest ≠ [] → kind? (x :: rest) f = none := by
        intro hrest
        rcases hf : Table.get? f x with _ | b | g
        · exact kind?_cons_of_none hf
        · rw [kind?_cons_of_file hf, if_neg hrest]
        · exact absurd (kind?_cons_of_folder hf) hfree
      rcases e with b | g
      · rw [kind?_cons_of_file hget]
        by_cases hrest : rest = []
        · simp [hrest, Entry.kind]
        · rw [if_neg hrest, if_neg (by simpa using hrest), hbelow hrest]
      · obtain rfl := he g rfl
        rw [kind?_cons_of_folder hget]
        rcases rest with _ | ⟨y, rest⟩
        · rw [if_pos rfl]
          rfl
        · rw [kind?_cons_of_none rfl, if_neg (by simp), hbelow (by simp)]
    · rw [if_neg (by simp [hx])]
      exact kind?_cons_congr (by rw [Table.get?_put, if_neg hx]) rest
  | c' :: place, f, hfolder, hfree, other => by
    obtain ⟨g, hg⟩ : ∃ g, Table.get? f c' = some (.folder g) := by
      rcases hf : Table.get? f c' with _ | b | g
      · rw [kind?_cons_of_none hf] at hfolder
        cases hfolder
      · rw [kind?_cons_of_file hf] at hfolder
        split_ifs at hfolder
        cases hfolder
      · exact ⟨g, rfl⟩
    rw [kind?_cons_of_folder hg] at hfolder
    rw [List.cons_append, kind?_cons_of_folder hg] at hfree
    have hput : putAt (c' :: place ++ [c]) e f =
        Table.put c' (.folder (putAt (place ++ [c]) e g)) f := by
      rw [List.cons_append, putAt, inner, hg]
      simp
    rw [hput]
    rcases other with _ | ⟨x, rest⟩
    · simp
    by_cases hx : x = c'
    · subst hx
      rw [kind?_cons_of_folder (by rw [Table.get?_put, if_pos rfl]), kind?_cons_of_folder hg,
        kind?_putAt he hfolder hfree rest]
      simp
    · rw [if_neg (by simp [hx])]
      exact kind?_cons_congr (by rw [Table.get?_put, if_neg hx]) rest

end Folder

/-! ## Last components -/

theorem Text.splitAll_replicate (c : Char) (t : Text) : ∀ k,
    splitAll c (List.replicate k c ++ t) = List.replicate k [] ++ splitAll c t
  | 0 => rfl
  | k + 1 => by
    rw [List.replicate_succ, List.cons_append, splitAll, if_pos rfl, splitAll_replicate c t k]
    rfl

namespace Path

theorem not_mem_baseName (p : Text) : '/' ∉ baseName p := fun h => by
  simpa using List.mem_takeWhile_imp (List.mem_reverse.1 h)

/-- A path is its last component, or slashes stand before this: after the path of the folder, or as
the path of the folder. -/
theorem dirName_cases (p : Text) : dirName p = [] ∧ p = baseName p ∨
    ∃ k, p = dirName p ++ List.replicate k '/' ++ baseName p
      ∧ (dirName p ≠ [] ∧ k ≠ 0 ∨ ∃ j, dirName p = List.replicate (j + 1) '/' ∧ k = 0) := by
  have hp : p = (p.reverse.dropWhile (· != '/')).reverse ++ baseName p := by
    rw [baseName, ← List.reverse_append, List.takeWhile_append_dropWhile, List.reverse_reverse]
  rw [dirName]
  generalize hhead : p.reverse.dropWhile (· != '/') = head at hp
  have hslash : ∀ c, head.head? = some c → c = '/' := fun c hc => by
    have := List.head?_dropWhile_not (· != '/') p.reverse
    rw [hhead, hc] at this
    simpa using this
  -- the slashes at the end of what stands before the last component
  have hrun : head.takeWhile (· == '/') = List.replicate (head.takeWhile (· == '/')).length '/' :=
    List.eq_replicate_iff.2 ⟨rfl, fun c hc => by simpa using List.mem_takeWhile_imp hc⟩
  have hsplit := List.takeWhile_append_dropWhile (p := (· == '/')) (l := head)
  rcases hbare : head.dropWhile (· == '/') with _ | ⟨c, bare⟩
  · rw [hbare, List.append_nil] at hsplit
    rw [hsplit] at hrun
    simp only [List.isEmpty_nil, if_true]
    rcases hlen : head.length with _ | j
    · rw [List.length_eq_zero_iff.1 hlen] at hp ⊢
      exact .inl ⟨rfl, hp⟩
    · rw [hlen] at hrun
      refine .inr ⟨0, by simpa using hp, .inr ⟨j, ?_, rfl⟩⟩
      rw [hrun, List.reverse_replicate]
  · simp only [List.isEmpty_cons, Bool.false_eq_true, if_false]
    refine .inr ⟨(head.takeWhile (· == '/')).length, ?_, .inl ⟨by simp, fun hzero => ?_⟩⟩
    · rw [← List.reverse_replicate, ← hrun, ← hbare, ← List.reverse_append, hsplit]
      exact hp
    · -- a slash stands before the last component
      rw [List.length_eq_zero_iff.1 hzero, List.nil_append, hbare] at hsplit
      have hc := hslash c (by rw [← hsplit]; rfl)
      have hnot := List.head?_dropWhile_not (· == '/') head
      rw [hbare] at hnot
      simp [hc] at hnot

end Path

/-! ## Paths by place -/

namespace Disk

variable {d d' : Disk} {p : Text} {place : List Text}

/-- What is at a place. -/
def kind? (d : Disk) (place : List Text) : Option Entry.Kind := Folder.kind? place d.root

/-- The content of the file at a place. -/
def fileAt? (d : Disk) (place : List Text) : Option Bytes :=
  (d.kind? place).bind Entry.Kind.content?

theorem walkStep_of_folder (h : d.kind? place = some .folder) (c : Text) : d.walkStep place c =
    if c = [] ∨ c = ['.'] then .ok place
    else if c = ['.', '.'] then .ok place.dropLast
    else if (d.kind? (place ++ [c])).isSome then .ok (place ++ [c])
    else .error .notFound := by
  obtain ⟨g, hg⟩ := Folder.kind?_eq_folder.1 h
  rw [walkStep, kind?, Folder.kind?, Folder.at?_concat, hg, Option.isSome_map]
  rfl

theorem kind?_of_walkStep {c : Text} {next : List Text} (h : d.walkStep place c = .ok next) :
    d.kind? place = some .folder := by
  obtain ⟨g, hg, -⟩ := walkStep_eq_ok h
  exact Folder.kind?_eq_folder.2 ⟨g, hg⟩

theorem kind?_dropLast (h : d.kind? place = some .folder) :
    d.kind? place.dropLast = some .folder := by
  obtain ⟨g, hg⟩ := Folder.kind?_eq_folder.1 h
  exact Folder.kind?_eq_folder.2 (Folder.exists_at?_dropLast hg)

theorem exists?_iff : d.exists? p = true ↔
    ∃ place, d.resolve p = .ok place ∧ (d.kind? place).isSome = true := by
  rw [exists?, entry]
  rcases d.resolve p with f | place
  · simp [bind, Except.bind, Except.isOk, Except.toBool]
  · rcases hat : Folder.at? place d.root with _ | e <;>
      simp [hat, kind?, Folder.kind?, bind, Except.bind, pure, Except.pure, throw, throwThe,
        MonadExceptOf.throw, Except.isOk, Except.toBool]

theorem bytes_eq_ok {b : Bytes} (hr : d.resolve p = .ok place)
    (hk : d.fileAt? place = some b) : d.bytes p = .ok b := by
  obtain ⟨k, hk, hb⟩ := Option.bind_eq_some_iff.1 hk
  obtain ⟨e, he, rfl⟩ := Option.map_eq_some_iff.1 hk
  rcases e with content | g
  · cases hb
    rw [bytes_eq_ok_iff, entry, hr]
    simp [he, bind, Except.bind, pure, Except.pure]
  · cases hb

/-- The walk over empty pieces stays in its folder. -/
theorem walk_blanks (h : d.kind? place = some .folder) : ∀ k,
    (List.replicate k ([] : Text)).foldlM d.walkStep place = .ok place
  | 0 => rfl
  | k + 1 => by
    rw [List.replicate_succ, List.foldlM_cons, walkStep_of_folder h, if_pos (.inl rfl)]
    exact walk_blanks h k

/-- The path of the current folder leads to it, from name to name. -/
structure Placed (d : Disk) : Prop where
  absolute : Path.isAbsolute d.here = true
  resolve : d.resolve d.here = .ok (Path.components d.here)

theorem folderOf_eq_ok (h : d.folderOf p = .ok place) :
    d.resolve (if (Path.dirName p).isEmpty then d.here else Path.dirName p) = .ok place
      ∧ d.kind? place = some .folder := by
  rw [folderOf, bind_eq_ok_iff] at h
  obtain ⟨place', hresolve, h⟩ := h
  split at h
  · rename_i g hg
    cases h
    exact ⟨hresolve, Folder.kind?_eq_folder.2 ⟨g, hg⟩⟩
  · cases h

/-- A path leads into the folder of its last component and then a step further. -/
theorem resolve_of_folderOf (hd : d.Placed) (hp : p ≠ []) (h : d.folderOf p = .ok place) :
    d.resolve p = d.walkStep place (Path.baseName p) := by
  obtain ⟨hresolve, hfolder⟩ := folderOf_eq_ok h
  have hbase := Text.splitAll_of_not_mem (Path.not_mem_baseName p)
  rw [Disk.resolve, if_neg (by simpa using hp)]
  rcases Path.dirName_cases p with ⟨hdir, hself⟩ | ⟨k, hself, ⟨hdir, hk⟩ | ⟨j, hdir, rfl⟩⟩
  · have habs : Path.isAbsolute p = false := by
      rw [Bool.eq_false_iff]
      intro habs
      refine Path.not_mem_baseName p (hself ▸ List.mem_of_head? ?_)
      simpa [Path.isAbsolute] using habs
    rw [hdir, List.isEmpty_nil, if_pos rfl, hd.resolve] at hresolve
    cases hresolve
    rw [← hself] at hbase
    simp [habs, hbase, ← hself]
  · obtain ⟨k, rfl⟩ := Nat.exists_eq_succ_of_ne_zero hk
    have hsplit : Text.splitAll '/' p = Text.splitAll '/' (Path.dirName p) ++
        (List.replicate k [] ++ [Path.baseName p]) := by
      conv_lhs => rw [hself]
      rw [List.replicate_succ, List.append_assoc, List.cons_append, Text.splitAll_append,
        Text.splitAll_replicate, hbase]
    have habs : Path.isAbsolute p = Path.isAbsolute (Path.dirName p) := by
      conv_lhs => rw [hself]
      obtain ⟨c, t, ht⟩ := List.exists_cons_of_ne_nil hdir
      rw [ht]
      rfl
    rw [if_neg (by simpa using hdir), Disk.resolve, if_neg (by simpa using hdir)] at hresolve
    simp only [hsplit, habs, List.foldlM_append, List.foldlM_cons, List.foldlM_nil, bind_pure,
      hresolve]
    simp only [bind, Except.bind, walk_blanks hfolder]
  · have hroot : d.kind? [] = some .folder := rfl
    have habs : ∀ t, Path.isAbsolute (List.replicate (j + 1) '/' ++ t) = true := fun t => by
      rw [List.replicate_succ, List.cons_append]
      rfl
    have hwalk : d.resolve (Path.dirName p) = .ok [] := by
      have hsplit := Text.splitAll_replicate '/' [] (j + 1)
      have habs' := habs []
      rw [List.append_nil, ← hdir] at hsplit habs'
      rw [Disk.resolve, if_neg (by simp [hdir])]
      simp only [habs', if_true, hsplit, List.foldlM_append, walk_blanks hroot (j + 1)]
      rfl
    rw [if_neg (by simp [hdir]), hwalk] at hresolve
    cases hresolve
    have hsplit := Text.splitAll_replicate '/' (Path.baseName p) (j + 1)
    have habs' := habs (Path.baseName p)
    rw [← hdir, show Path.dirName p ++ Path.baseName p = p by simpa using hself.symm]
      at hsplit habs'
    simp only [habs', if_true, hsplit, hbase, List.foldlM_append, List.foldlM_cons,
      List.foldlM_nil, bind_pure]
    simp only [bind, Except.bind, walk_blanks hroot]

/-! ## Disks with more on them -/

section Monotone

variable (hhere : d'.here = d.here)
  (hfolder : ∀ place, d.kind? place = some .folder → d'.kind? place = some .folder)
  (hsome : ∀ place, (d.kind? place).isSome = true → (d'.kind? place).isSome = true)
include hfolder hsome

theorem walkStep_mono {c : Text} {next : List Text} (h : d.walkStep place c = .ok next) :
    d'.walkStep place c = .ok next := by
  have hplace := kind?_of_walkStep h
  rw [walkStep_of_folder hplace] at h
  rw [walkStep_of_folder (hfolder _ hplace)]
  split_ifs at h with hstay hup hdown
  · rwa [if_pos hstay]
  · rwa [if_neg hstay, if_pos hup]
  · rwa [if_neg hstay, if_neg hup, if_pos (hsome _ hdown)]

theorem walk_mono : ∀ {cs : List Text} {start next : List Text},
    cs.foldlM d.walkStep start = .ok next → cs.foldlM d'.walkStep start = .ok next
  | [], _, _, h => h
  | c :: cs, start, next, h => by
    rw [List.foldlM_cons, bind_eq_ok_iff] at h
    obtain ⟨mid, hstep, hwalk⟩ := h
    rw [List.foldlM_cons, walkStep_mono hfolder hsome hstep]
    exact walk_mono hwalk

include hhere

/-- Where folders stay folders and nothing goes, paths lead where they led. -/
theorem resolve_mono (h : d.resolve p = .ok place) : d'.resolve p = .ok place := by
  rw [resolve] at h ⊢
  rw [hhere]
  split at h
  · cases h
  · rw [if_neg ‹_›]
    exact walk_mono hfolder hsome h

theorem folderOf_mono (h : d.folderOf p = .ok place) : d'.folderOf p = .ok place := by
  obtain ⟨hresolve, hplace⟩ := folderOf_eq_ok h
  obtain ⟨g, hg⟩ := Folder.kind?_eq_folder.1 (hfolder _ hplace)
  rw [folderOf, hhere, resolve_mono hhere hfolder hsome hresolve]
  simp only [bind, Except.bind, hg]
  rfl

theorem placed_mono (h : d.Placed) : d'.Placed where
  absolute := hhere ▸ h.absolute
  resolve := by
    rw [hhere]
    exact resolve_mono hhere hfolder hsome h.resolve

end Monotone

/-- The second disk has what the first one has, and more folders. -/
structure Grows (d d' : Disk) : Prop where
  here : d'.here = d.here
  kept : ∀ place k, d.kind? place = some k → d'.kind? place = some k
  files : ∀ place b, d'.kind? place = some (.file b) → d.kind? place = some (.file b)

theorem Grows.refl (d : Disk) : Grows d d := ⟨rfl, fun _ _ h => h, fun _ _ h => h⟩

theorem Grows.trans {d₁ d₂ d₃ : Disk} (h : Grows d₁ d₂) (h' : Grows d₂ d₃) : Grows d₁ d₃ :=
  ⟨h'.here.trans h.here, fun place k hk => h'.kept place k (h.kept place k hk),
    fun place b hb => h.files place b (h'.files place b hb)⟩

theorem Grows.placed (h : Grows d d') (hd : d.Placed) : d'.Placed := by
  refine placed_mono h.here (fun place => h.kept place .folder) (fun place hsome => ?_) hd
  obtain ⟨k, hk⟩ := Option.isSome_iff_exists.1 hsome
  exact Option.isSome_iff_exists.2 ⟨k, h.kept place k hk⟩

/-- More folders change no file. -/
theorem Grows.fileAt? (h : Grows d d') (place : List Text) :
    d'.fileAt? place = d.fileAt? place := by
  rw [Disk.fileAt?, Disk.fileAt?]
  rcases hk : d.kind? place with _ | k
  · rcases hk' : d'.kind? place with _ | _ | b
    · rfl
    · rfl
    · rw [h.files place b hk'] at hk
      cases hk
  · rw [h.kept place k hk]

/-! ## Writing -/

theorem kind?_putIn {e : Entry} {name : Text} (he : ∀ g, e = .folder g → g = [])
    (hplace : d.kind? place = some .folder) (hfree : d.kind? (place ++ [name]) ≠ some .folder)
    (other : List Text) : (d.putIn place name e).kind? other =
      if other = place ++ [name] then some e.kind else d.kind? other :=
  Folder.kind?_putAt he hplace hfree other

theorem makeFolder_eq_ok (h : d.makeFolder p = .ok d') : ∃ q place, q ≠ [] ∧
    d.folderOf q = .ok place ∧ d.exists? q = false
      ∧ d' = d.putIn place (Path.baseName q) (.folder []) := by
  simp only [makeFolder] at h
  split at h
  · cases h
  · rename_i hp
    rw [bind_eq_ok_iff] at h
    obtain ⟨place, hplace, h⟩ := h
    split at h
    · cases h
    · rename_i hexists
      cases h
      exact ⟨_, place, by simpa using hp, hplace, by simpa using hexists, rfl⟩

/-- A folder is made where there was nothing. -/
theorem grows_makeFolder (hd : d.Placed) (h : d.makeFolder p = .ok d') : Grows d d' := by
  obtain ⟨q, place, hq, hplace, hexists, rfl⟩ := makeFolder_eq_ok h
  obtain ⟨-, hfolder⟩ := folderOf_eq_ok hplace
  have hresolve := resolve_of_folderOf hd hq hplace
  rw [walkStep_of_folder hfolder] at hresolve
  have hnone : d.kind? (place ++ [Path.baseName q]) = none := by
    by_contra hsome
    have hthere : ∃ place, d.resolve q = .ok place ∧ (d.kind? place).isSome = true := by
      split_ifs at hresolve with hstay hup hdown
      · exact ⟨_, hresolve, by rw [hfolder]; rfl⟩
      · exact ⟨_, hresolve, by rw [kind?_dropLast hfolder]; rfl⟩
      · exact ⟨_, hresolve, hdown⟩
      · exact absurd (Option.isSome_iff_ne_none.2 hsome) hdown
    rw [exists?_iff.2 hthere] at hexists
    cases hexists
  have hfree : d.kind? (place ++ [Path.baseName q]) ≠ some .folder := by simp [hnone]
  have hkind := kind?_putIn (e := .folder []) (by simp) hfolder hfree
  refine ⟨rfl, fun other k hk => ?_, fun other b hb => ?_⟩
  · rw [hkind, if_neg, hk]
    rintro rfl
    rw [hnone] at hk
    cases hk
  · rw [hkind] at hb
    split_ifs at hb
    · cases hb
    · exact hb

/-- Also where only some of the folders can be made, nothing but folders is new. -/
theorem grows_ensureFolder (hd : d.Placed) (p : Text) : Grows d (d.ensureFolder p).2 := by
  rw [ensureFolder]
  split
  · rename_i hmade
    exact grows_makeFolder hd hmade
  · exact .refl d

theorem grows_makeFoldersFrom : ∀ (fuel : Nat) {d : Disk} (p : Text), d.Placed →
    Grows d (makeFoldersFrom fuel d p).2
  | 0, d, _, _ => .refl d
  | fuel + 1, d, p, hd => by
    rw [makeFoldersFrom]
    generalize hbelow : (!(splitLast p).1.isEmpty && !(splitLast p).2.isEmpty
      && !d.exists? (splitLast p).1) = below
    obtain ⟨above, d₁, hrun, hgrows⟩ : ∃ above d₁,
        (if below then makeFoldersFrom fuel d (splitLast p).1 else (.ok (), d)) = (above, d₁)
          ∧ Grows d d₁ := by
      rcases below with _ | _
      · exact ⟨_, _, rfl, .refl d⟩
      · exact ⟨_, _, rfl, grows_makeFoldersFrom fuel _ hd⟩
    simp only [hbelow, hrun]
    have hhere : Grows d (if (below && (splitLast p).2 == ['.']) then (.ok (), d₁) else
        d₁.ensureFolder p : Except Fault Unit × Disk).2 := by
      split
      · exact hgrows
      · exact hgrows.trans (grows_ensureFolder (hgrows.placed hd) p)
    split
    · exact hhere
    · exact hhere
    · exact hgrows

theorem grows_makeFolders (hd : d.Placed) (p : Text) : Grows d (d.makeFolders p).2 :=
  grows_makeFoldersFrom (p.length + 1) p hd

/-- The file that the path leads to has got the content, and no other file has changed. -/
def Sets (d d' : Disk) (p : Text) (content : Bytes) : Prop :=
  ∃ place, d'.resolve p = .ok place ∧
    ∀ other, d'.fileAt? other = if other = place then some content else d.fileAt? other

theorem Sets.bytes {content : Bytes} (h : Sets d d' p content) : d'.bytes p = .ok content := by
  obtain ⟨place, hresolve, hfiles⟩ := h
  have hplace := hfiles place
  rw [if_pos rfl] at hplace
  exact bytes_eq_ok hresolve hplace

theorem Grows.sets {d'' : Disk} {content : Bytes} (h : Grows d d') (hs : Sets d' d'' p content) :
    Sets d d'' p content := by
  obtain ⟨place, hresolve, hfiles⟩ := hs
  exact ⟨place, hresolve, fun other => by rw [hfiles, h.fileAt?]⟩

theorem fitting_of_fits {room : Option Nat} {content : Bytes} (h : fits room content = true) :
    fitting room content = content := by
  rcases room with _ | n
  · rfl
  · exact List.take_of_length_le (by simpa [fits] using h)

/-- Either the file cannot be opened, or there is no folder at its path and it gets what fits. -/
theorem save_cases (d : Disk) (room : Option Nat) (p : Text) (content : Bytes) :
    (∃ f, d.save room p content = (.error f, d))
    ∨ ∃ place, d.folderOf p = .ok place ∧ (∀ g, d.entry p ≠ .ok (.folder g))
      ∧ d.save room p content =
        (if fits room content then .ok () else .error ⟨.noSpace, p⟩,
          d.putIn place (Path.baseName p) (.file (fitting room content))) := by
  rw [save]
  split
  · exact .inl ⟨_, rfl⟩
  · exact .inl ⟨_, rfl⟩
  · exact .inl ⟨_, rfl⟩
  · rename_i place hplace hentry _
    exact .inr ⟨place, hplace, hentry, rfl⟩

/-- A file is put where its path leads, in a folder that is there. -/
theorem sets_putIn {content : Bytes} (hd : d.Placed) (hp : Path.IsName (Path.baseName p))
    (hplace : d.folderOf p = .ok place) (hentry : ∀ g, d.entry p ≠ .ok (.folder g)) :
    Sets d (d.putIn place (Path.baseName p) (.file content)) p content := by
  obtain ⟨-, hfolder⟩ := folderOf_eq_ok hplace
  have hne : p ≠ [] := fun he => hp.ne_nil (by rw [he]; rfl)
  have hstep : ∀ d : Disk, d.kind? place = some .folder →
      (d.kind? (place ++ [Path.baseName p])).isSome = true →
      d.walkStep place (Path.baseName p) = .ok (place ++ [Path.baseName p]) := fun d hf hs => by
    rw [walkStep_of_folder hf, if_neg (by simp [hp.ne_nil, hp.ne_dot]), if_neg hp.ne_dots,
      if_pos hs]
  have hfree : d.kind? (place ++ [Path.baseName p]) ≠ some .folder := by
    intro hinner
    obtain ⟨g, hg⟩ := Folder.kind?_eq_folder.1 hinner
    refine hentry g ?_
    rw [entry, resolve_of_folderOf hd hne hplace, hstep d hfolder (by rw [hinner]; rfl)]
    simp only [bind, Except.bind, hg]
    rfl
  generalize hput : d.putIn place (Path.baseName p) (.file content) = d'
  have hhere : d'.here = d.here := by
    rw [← hput]
    rfl
  have hkind : ∀ other, d'.kind? other =
      if other = place ++ [Path.baseName p] then some (.file content) else d.kind? other := by
    rw [← hput]
    exact kind?_putIn (by simp) hfolder hfree
  have hkept : ∀ other, d.kind? other = some .folder → d'.kind? other = some .folder := by
    intro other hother
    rw [hkind, if_neg, hother]
    rintro rfl
    exact hfree hother
  have hsome : ∀ other, (d.kind? other).isSome = true →
      (d'.kind? other).isSome = true := by
    intro other hother
    rw [hkind]
    split_ifs
    · rfl
    · exact hother
  refine ⟨place ++ [Path.baseName p], ?_, fun other => ?_⟩
  · rw [resolve_of_folderOf (placed_mono hhere hkept hsome hd) hne
      (folderOf_mono hhere hkept hsome hplace)]
    exact hstep d' (hkept place hfolder) (by rw [hkind, if_pos rfl]; rfl)
  · rw [fileAt?, hkind]
    split_ifs
    · rfl
    · rfl

/-- A file that is saved gets what fits, and no other file changes. If it cannot be opened, nothing
changes. -/
theorem sets_of_save (hd : d.Placed) (room : Option Nat) (hp : Path.IsName (Path.baseName p))
    (content : Bytes) :
    (∃ f, d.save room p content = (.error f, d))
    ∨ Sets d (d.save room p content).2 p (fitting room content)
      ∧ (d.save room p content).1 = if fits room content then .ok () else .error ⟨.noSpace, p⟩ := by
  rcases save_cases d room p content with h | ⟨place, hplace, hentry, h⟩
  · exact .inl h
  · rw [h]
    exact .inr ⟨sets_putIn hd hp hplace hentry, rfl⟩

end Disk

end VerilogIndex
