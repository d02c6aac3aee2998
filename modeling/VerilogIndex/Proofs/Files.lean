import VerilogIndex.Proofs.Walk

/-!
# Files that are written and deleted

An absolute path leads through names, so following it is a walk from folder to folder
(`entry_absolute`). A file that is written is there afterwards (`bytes_putFile`). The other files
stay what they are, when a file is written where one can be (`bytes_putFile_of_ne`) and when a file
is deleted (`bytes_erase_of_ne`).
-/

namespace VerilogIndex

open Text.Utf8 (Bytes)

/-! ## Absolute paths -/

theorem Text.splitAll_joinWith {c : Char} : ∀ {ps : List Text}, ps ≠ [] → (∀ p ∈ ps, c ∉ p) →
    splitAll c (joinWith [c] ps) = ps
  | [p], _, h => splitAll_of_not_mem (h p (by simp))
  | p :: q :: ps, _, h => by
    rw [joinWith, List.append_assoc, List.singleton_append, splitAll_append,
      splitAll_of_not_mem (h p List.mem_cons_self),
      splitAll_joinWith (by simp) fun r hr => h r (List.mem_cons_of_mem _ hr),
      List.singleton_append]

namespace Path

/-- Between the slashes of an absolute path stand its components, after nothing. -/
theorem splitAll_absolute {here : Text} (hh : isAbsolute here = true) (p : Text) :
    ∃ k, Text.splitAll '/' (absolute here p) =
      List.replicate k [] ++ components (absolute here p) := by
  have hr : rootOf (join here p) ≠ [] := isAbsolute_iff.1 (isAbsolute_join hh)
  rw [absolute, components_normalise (.inl hr), normalise_eq (.inl hr)]
  generalize hcs : (stack (join here p)).reverse = cs
  have hslash : ∀ c ∈ cs, '/' ∉ c := fun c hc =>
    (kept_of_mem_stack (List.mem_reverse.1 (hcs ▸ hc))).no_slash
  have hsplit : ∃ k, Text.splitAll '/' (Text.joinWith ['/'] cs) = List.replicate k [] ++ cs := by
    rcases cs with _ | ⟨c, cs⟩
    · exact ⟨1, rfl⟩
    · exact ⟨0, Text.splitAll_joinWith (by simp) hslash⟩
  have hcons : ∀ t, Text.splitAll '/' ('/' :: t) = [] :: Text.splitAll '/' t := fun t => by
    rw [Text.splitAll, if_pos rfl]
  obtain ⟨k, hk⟩ := hsplit
  revert hr
  unfold rootOf
  split
  · exact fun _ => ⟨k + 1, by rw [List.singleton_append, hcons, hk]; rfl⟩
  · exact fun _ => ⟨k + 2, by rw [List.cons_append, List.singleton_append, hcons, hcons, hk]; rfl⟩
  · exact fun _ => ⟨k + 1, by rw [List.singleton_append, hcons, hk]; rfl⟩
  · exact fun h => absurd rfl h

theorem isAbsolute_absolute {here : Text} (hh : isAbsolute here = true) (p : Text) :
    isAbsolute (absolute here p) = true := by
  have hr : rootOf (join here p) ≠ [] := isAbsolute_iff.1 (isAbsolute_join hh)
  rw [absolute, normalise_eq (.inl hr)]
  revert hr
  unfold rootOf
  split <;> simp [isAbsolute]

end Path

/-! ## From folder to folder -/

namespace Folder

/-- The entry that names lead to from a folder, or why they lead nowhere. -/
def find : (names : List Text) → Folder → Except Disk.Fault Entry
  | [], f => .ok (.folder f)
  | c :: cs, f =>
    match Table.get? f c with
    | none => .error .notFound
    | some (.folder entries) => find cs entries
    | some (.file content) => if cs = [] then .ok (.file content) else .error .notFolder

theorem at?_concat (c : Text) : ∀ (cs : List Text) (f : Folder), at? (cs ++ [c]) f =
    match at? cs f with
    | some (.folder entries) => Table.get? entries c
    | _ => none
  | [], f => rfl
  | [d], f => rfl
  | d :: e :: cs, f => by
    rw [List.cons_append, List.cons_append, at?, at?]
    split
    · exact at?_concat c (e :: cs) _
    · rfl
    · simp
    · simp

variable {b x : Option Bytes}

theorem find_cons_of_none {c : Text} {cs : List Text} {f : Folder} (h : Table.get? f c = none) :
    find (c :: cs) f = .error .notFound := by
  rw [find, h]

theorem find_cons_of_folder {c : Text} {cs : List Text} {f g : Folder}
    (h : Table.get? f c = some (.folder g)) : find (c :: cs) f = find cs g := by
  rw [find, h]

theorem find_cons_of_file {c : Text} {cs : List Text} {f : Folder}
    (h : Table.get? f c = some (.file b)) :
    find (c :: cs) f = if cs = [] then .ok (.file b) else .error .notFolder := by
  rw [find, h]

/-- Below a name that is no folder's there is nothing. -/
theorem eq_nil_of_find {c : Text} {cs : List Text} {f : Folder}
    (hno : ∀ g, Table.get? f c ≠ some (.folder g)) (h : find (c :: cs) f = .ok (.file x)) :
    cs = [] := by
  rcases hget : Table.get? f c with _ | content | entries
  · rw [find_cons_of_none hget] at h
    cases h
  · rw [find_cons_of_file hget] at h
    split_ifs at h with hcs
    exact hcs
  · exact absurd hget (hno entries)

/-- A folder that changes under one name keeps the files that it keeps under this name. -/
theorem find_of_agree {c : Text} {f g : Folder}
    (hother : ∀ d, d ≠ c → Table.get? g d = Table.get? f d) {ds : List Text}
    (hsame : ∀ rest, ds = c :: rest → find ds f = .ok (.file x) → find ds g = .ok (.file x))
    (h : find ds f = .ok (.file x)) : find ds g = .ok (.file x) := by
  rcases ds with _ | ⟨d, rest⟩
  · cases h
  by_cases hd : d = c
  · exact hsame rest (by rw [hd]) h
  · rwa [find, hother d hd, ← find]

theorem find_putAt : ∀ {cs : List Text} {f : Folder}, cs ≠ [] →
    find cs (putAt cs (.file b) f) = .ok (.file b)
  | [c], f, _ => by
    rw [putAt, find_cons_of_file (by rw [Table.get?_put, if_pos rfl]), if_pos rfl]
  | c :: d :: cs, f, _ => by
    rw [putAt, find_cons_of_folder (by rw [Table.get?_put, if_pos rfl])]
    · exact find_putAt (by simp)
    · simp

/-- A file can be put where there is a file, or nothing in a folder. -/
def IsFree (cs : List Text) (f : Folder) : Prop :=
  (∃ content, find cs f = .ok (.file content)) ∨ find cs f = .error .notFound

/-- A file put where one can be leaves the others alone. -/
theorem find_putAt_of_ne : ∀ {cs ds : List Text} {f : Folder}, IsFree cs f → ds ≠ cs →
    find ds f = .ok (.file x) → find ds (putAt cs (.file b) f) = .ok (.file x)
  | [], ds, f, _, _, h => h
  | [c], ds, f, hfree, hne, h => by
    rw [putAt]
    refine find_of_agree (c := c) (fun d hd => by rw [Table.get?_put, if_neg hd]) ?_ h
    rintro rest rfl h
    -- a folder is not free, so there was nothing below the name
    refine absurd (congrArg (c :: ·) (eq_nil_of_find (fun g hg => ?_) h)) hne
    rcases hfree with ⟨content, hfree⟩ | hfree <;>
    · rw [find_cons_of_folder hg] at hfree
      cases hfree
  | c :: c' :: cs, ds, f, hfree, hne, h => by
    rw [putAt]
    · refine find_of_agree (c := c) (fun d hd => by rw [Table.get?_put, if_neg hd]) ?_ h
      rintro rest rfl h
      rcases hget : Table.get? f c with _ | content | entries
      · rw [find_cons_of_none hget] at h
        cases h
      · rcases hfree with ⟨content, hfree⟩ | hfree <;>
        · rw [find_cons_of_file hget, if_neg (by simp)] at hfree
          cases hfree
      · rw [find_cons_of_folder (by rw [Table.get?_put, if_pos rfl]), inner, hget]
        rw [IsFree, find_cons_of_folder hget] at hfree
        rw [find_cons_of_folder hget] at h
        exact find_putAt_of_ne hfree (fun he => hne (by rw [he])) h
    · simp

/-- A file that is deleted leaves the others alone. -/
theorem find_eraseAt_of_ne : ∀ {cs ds : List Text} {f : Folder}, find cs f = .ok (.file b) →
    ds ≠ cs → find ds f = .ok (.file x) → find ds (eraseAt cs f) = .ok (.file x)
  | [], ds, f, _, _, h => h
  | [c], ds, f, hfile, hne, h => by
    rw [eraseAt]
    refine find_of_agree (c := c) (fun d hd => by rw [Table.get?_erase, if_neg hd]) ?_ h
    rintro rest rfl h
    refine absurd (congrArg (c :: ·) (eq_nil_of_find (fun g hg => ?_) h)) hne
    rw [find_cons_of_folder hg] at hfile
    cases hfile
  | c :: c' :: cs, ds, f, hfile, hne, h => by
    rcases hget : Table.get? f c with _ | content | entries
    · rw [find_cons_of_none hget] at hfile
      cases hfile
    · rw [find_cons_of_file hget, if_neg (by simp)] at hfile
      cases hfile
    · have herase : eraseAt (c :: c' :: cs) f =
          Table.put c (.folder (eraseAt (c' :: cs) entries)) f := by
        rw [eraseAt, hget]
        simp
      rw [herase]
      refine find_of_agree (c := c) (fun d hd => by rw [Table.get?_put, if_neg hd]) ?_ h
      rintro rest rfl h
      rw [find_cons_of_folder (by rw [Table.get?_put, if_pos rfl])]
      rw [find_cons_of_folder hget] at hfile h
      exact find_eraseAt_of_ne hfile (fun he => hne (by rw [he])) h

end Folder

/-! ## Files of a disk -/

namespace Disk

variable {d : Disk}

/-- Following names one after the other leads from folder to folder. -/
theorem walk_names : ∀ {cs : List Text}, (∀ c ∈ cs, Path.IsName c) → ∀ {place : List Text}
    {f : Folder}, Folder.at? place d.root = some (.folder f) →
    (cs.foldlM d.walkStep place >>= fun place =>
      match Folder.at? place d.root with
      | some e => .ok e
      | none => .error .notFound) = Folder.find cs f
  | [], _, place, f, h => by
    simp only [List.foldlM_nil, pure_bind, h]
    rfl
  | c :: cs, hc, place, f, h => by
    obtain ⟨hname, hcs⟩ := List.forall_mem_cons.1 hc
    have hnext := Folder.at?_concat c place d.root
    rw [h] at hnext
    have hstep : d.walkStep place c =
        if Table.contains f c then .ok (place ++ [c]) else .error .notFound := by
      simp only [walkStep, h, hname.ne_nil, hname.ne_dot, hname.ne_dots, or_self, if_false]
    rw [List.foldlM_cons, hstep, Table.contains]
    rcases hget : Table.get? f c with _ | content | entries
    · rw [Folder.find_cons_of_none hget]
      rfl
    · rw [Folder.find_cons_of_file hget]
      rcases cs with _ | ⟨e, cs⟩
      · simp [hnext, hget, bind, Except.bind, pure, Except.pure]
      · simp [walkStep, hnext, hget, bind, Except.bind]
    · rw [Folder.find_cons_of_folder hget, ← walk_names hcs (hnext.trans hget)]
      rfl

/-- Following an absolute path is a walk through its components from the root. -/
theorem resolve_absolute (hh : Path.isAbsolute d.here = true) (p : Text) :
    d.resolve (d.absolute p) = (Path.components (d.absolute p)).foldlM d.walkStep [] := by
  have habs := Path.isAbsolute_absolute hh p
  obtain ⟨k, hsplit⟩ := Path.splitAll_absolute hh p
  have hne : (d.absolute p).isEmpty = false := by
    rcases hp : d.absolute p with _ | ⟨c, t⟩
    · rw [absolute] at hp
      rw [hp] at habs
      cases habs
    · rfl
  -- the pieces before the first name are empty, and stay at the root
  have hblank : ∀ k, (List.replicate k ([] : Text)).foldlM d.walkStep [] = .ok [] := by
    intro k
    induction k with
    | zero => rfl
    | succ k ih =>
      rw [List.replicate_succ, List.foldlM_cons]
      exact ih
  rw [resolve, if_neg (by simp [hne])]
  simp only [absolute, habs, if_true, hsplit, List.foldlM_append, hblank]
  rfl

theorem entry_absolute (hh : Path.isAbsolute d.here = true) (p : Text) :
    d.entry (d.absolute p) = Folder.find (Path.components (d.absolute p)) d.root := by
  rw [entry, resolve_absolute hh]
  exact walk_names (fun c hc => Path.isName_of_mem_absolute hh hc) rfl

theorem bytes_eq_ok_iff {p : Text} {content : Bytes} :
    d.bytes p = .ok content ↔ d.entry p = .ok (.file content) := by
  rw [bytes]
  split <;> simp_all

/-- The text that the bytes of a file stand for. -/
def textOf (content : Bytes) : Text := Text.unifyBreaks (Text.Utf8.decodeLossy content)

theorem text_of_bytes {p : Text} {content : Bytes} (h : d.bytes p = .ok content) :
    d.text p = .ok (textOf content) := by
  rw [text, h]
  rfl

/-- A file can be written at the path: there is a file, or nothing in a folder. -/
def canWrite (d : Disk) (p : Text) : Bool :=
  match d.entry p with
  | .ok (.file _) => true
  | .error .notFound => true
  | _ => false

section Absolute

variable (hh : Path.isAbsolute d.here = true) {p q : Text} {b x : Bytes}
include hh

theorem isFree_of_canWrite (hw : d.canWrite (d.absolute p) = true) :
    Folder.IsFree (Path.components (d.absolute p)) d.root := by
  rw [canWrite, entry_absolute hh] at hw
  split at hw
  · rename_i content he
    exact .inl ⟨content, he⟩
  · rename_i he
    exact .inr he
  · cases hw

theorem bytes_putFile (hw : d.canWrite (d.absolute p) = true) :
    (d.putFile (d.absolute p) b).bytes (d.absolute p) = .ok b := by
  have hne : Path.components (d.absolute p) ≠ [] := fun he => by
    have hfree := isFree_of_canWrite hh hw
    rw [he] at hfree
    rcases hfree with ⟨content, hfree⟩ | hfree <;> cases hfree
  have hentry := entry_absolute (d := d.putFile (d.absolute p) b) hh p
  rw [bytes_eq_ok_iff]
  exact hentry.trans (Folder.find_putAt hne)

theorem bytes_putFile_of_ne (hw : d.canWrite (d.absolute p) = true)
    (hne : Path.components (d.absolute q) ≠ Path.components (d.absolute p))
    (h : d.bytes (d.absolute q) = .ok x) :
    (d.putFile (d.absolute p) b).bytes (d.absolute q) = .ok x := by
  have hentry := entry_absolute (d := d.putFile (d.absolute p) b) hh q
  rw [bytes_eq_ok_iff, entry_absolute hh] at h
  rw [bytes_eq_ok_iff]
  exact hentry.trans (Folder.find_putAt_of_ne (isFree_of_canWrite hh hw) hne h)

theorem bytes_erase_of_ne (hf : d.isFile (d.absolute p) = true)
    (hne : Path.components (d.absolute q) ≠ Path.components (d.absolute p))
    (h : d.bytes (d.absolute q) = .ok x) :
    (d.erase (d.absolute p)).bytes (d.absolute q) = .ok x := by
  have hentry := entry_absolute (d := d.erase (d.absolute p)) hh q
  rw [bytes_eq_ok_iff, entry_absolute hh] at h
  rw [isFile, entry_absolute hh] at hf
  rw [bytes_eq_ok_iff]
  split at hf
  · rename_i content he
    exact hentry.trans (Folder.find_eraseAt_of_ne he hne h)
  · cases hf

end Absolute

end Disk

end VerilogIndex
