import VerilogIndex.Proofs.Files
import VerilogIndex.Watch.Event

/-!
# Which files concern an index

A discovery and an event filter both leave out ignored folders. A discovery walks down from the
root, so it leaves out a file if a folder between the root and the file is ignored
(`Discovery.mem_walk_iff`). An event filter looks at all folders on the path, so also at the root
itself and at those above it. So the two agree below a root whose path has no ignored part
(`EventFilter.Clear`), and below any other root the filter passes nothing on. Main statement:
`classify_iff_discovered`.
-/

namespace VerilogIndex

theorem bind_eq_ok_iff {α β ε : Type} {x : Except ε α} {f : α → Except ε β} {b : β} :
    (x >>= f) = .ok b ↔ ∃ a, x = .ok a ∧ f a = .ok b := by
  cases x <;> simp [bind, Except.bind]

theorem exists_mapM_eq_ok {ε α β : Type} {f : α → Except ε β} (h : ∀ a, ∃ b, f a = .ok b) :
    ∀ xs : List α, ∃ ys, xs.mapM f = .ok ys
  | [] => ⟨[], rfl⟩
  | x :: xs => by
    obtain ⟨y, hy⟩ := h x
    obtain ⟨ys, hys⟩ := exists_mapM_eq_ok h xs
    exact ⟨y :: ys, by rw [List.mapM_cons, hy, hys]; rfl⟩

theorem exists_mem_of_mapM {ε α β : Type} {f : α → Except ε β} :
    ∀ {xs : List α} {ys : List β}, xs.mapM f = .ok ys → ∀ y ∈ ys, ∃ x ∈ xs, f x = .ok y
  | [], ys, h => by
    cases h
    simp
  | x :: xs, ys, h => by
    simp only [List.mapM_cons, bind_eq_ok_iff] at h
    obtain ⟨y, hy, zs, hzs, hys⟩ := h
    cases hys
    refine List.forall_mem_cons.2 ⟨⟨x, List.mem_cons_self, hy⟩, fun z hz => ?_⟩
    obtain ⟨x', hx', hz'⟩ := exists_mem_of_mapM hzs z hz
    exact ⟨x', List.mem_cons_of_mem x hx', hz'⟩

/-! ## Normalised paths -/

namespace Path

/-- The path goes on from the other one. -/
def Below (root p : Text) : Prop :=
  rootOf p = rootOf root ∧ ∃ names, names ≠ [] ∧ components p = components root ++ names

theorem rootOf_append_of_head {q : Text} (hq : rootOf q ≠ []) {t : Text}
    (ht : t.head? ≠ some '/') : rootOf (rootOf q ++ t) = rootOf q := by
  have hcases : rootOf q = ['/'] ∨ rootOf q = ['/', '/'] := by
    revert hq
    unfold rootOf
    split <;> simp
  rcases t with _ | ⟨c, t⟩
  · rcases hcases with h | h <;> rw [h] <;> rfl
  · have hc : c ≠ '/' := by simpa using ht
    rcases hcases with h | h <;> rw [h] <;> simp [rootOf, hc]

theorem head?_joinWith : ∀ {cs : List Text}, (∀ c ∈ cs, c ≠ [] ∧ '/' ∉ c) →
    (Text.joinWith ['/'] cs).head? ≠ some '/'
  | [], _ => by simp [Text.joinWith]
  | [c], h => fun he => (h c (by simp)).2 (List.mem_of_head? he)
  | c :: d :: cs, h => by
    obtain ⟨hne, hslash⟩ := h c List.mem_cons_self
    obtain ⟨e, c', rfl⟩ := List.exists_cons_of_ne_nil hne
    intro he
    refine hslash (List.mem_of_head? (he : _ = some '/'))

section Absolute

variable {here : Text} (hh : isAbsolute here = true) (p : Text)
include hh

theorem isName_components : ∀ c ∈ components (absolute here p), IsName c :=
  fun _ hc => isName_of_mem_absolute hh hc

/-- An absolute path is the slashes it starts with and its components. -/
theorem absolute_eq : rootOf (absolute here p) ≠ [] ∧ absolute here p =
    rootOf (absolute here p) ++ Text.joinWith ['/'] (components (absolute here p)) := by
  have hr : rootOf (join here p) ≠ [] := isAbsolute_iff.1 (isAbsolute_join hh)
  have heq : absolute here p =
      rootOf (join here p) ++ Text.joinWith ['/'] (components (absolute here p)) := by
    rw [absolute, components_normalise (.inl hr), ← normalise_eq (.inl hr)]
  have hroot : rootOf (absolute here p) = rootOf (join here p) := by
    rw [heq]
    refine rootOf_append_of_head hr (head?_joinWith fun c hc => ?_)
    have := isName_components hh p c hc
    exact ⟨this.ne_nil, this.no_slash⟩
  rw [hroot]
  exact ⟨hr, heq⟩

/-- The first piece between the slashes of an absolute path is empty. -/
theorem splitAll_absolute_succ : ∃ k, Text.splitAll '/' (absolute here p) =
    List.replicate (k + 1) [] ++ components (absolute here p) := by
  obtain ⟨k, hk⟩ := splitAll_absolute hh p
  rcases k with _ | k
  · have habs := isAbsolute_absolute hh p
    have hnames := isName_components hh p
    rw [List.replicate_zero, List.nil_append] at hk
    rw [← hk] at hnames
    rcases ht : absolute here p with _ | ⟨c, t⟩ <;> rw [ht] at habs hnames
    · cases habs
    · obtain rfl : c = '/' := by simpa [isAbsolute] using habs
      exact absurd rfl (hnames [] (by simp [Text.splitAll])).ne_nil
  · exact ⟨k, hk⟩

end Absolute

theorem foldl_pushComponent {rooted : Bool} : ∀ {names : List Text}, (∀ c ∈ names, IsName c) →
    ∀ done, names.foldl (pushComponent rooted) done = names.reverse ++ done
  | [], _, _ => rfl
  | c :: names, h, done => by
    obtain ⟨hc, hnames⟩ := List.forall_mem_cons.1 h
    rw [List.foldl_cons, pushComponent_of_isName hc, foldl_pushComponent hnames, List.reverse_cons,
      List.append_assoc, List.singleton_append]

theorem stack_absolute {here : Text} (hh : isAbsolute here = true) (p : Text) :
    stack (absolute here p) = (components (absolute here p)).reverse := by
  have hblank : ∀ k, (List.replicate k ([] : Text)).foldl
      (pushComponent (!(rootOf (absolute here p)).isEmpty)) [] = [] := by
    intro k
    induction k with
    | zero => rfl
    | succ k ih =>
      rw [List.replicate_succ, List.foldl_cons]
      exact ih
  obtain ⟨k, hk⟩ := splitAll_absolute hh p
  rw [stack, hk, List.foldl_append, hblank, foldl_pushComponent (isName_components hh p),
    List.append_nil]

theorem normalise_absolute {here : Text} (hh : isAbsolute here = true) (p : Text) :
    normalise (absolute here p) = absolute here p := by
  obtain ⟨hr, heq⟩ := absolute_eq hh p
  rw [normalise_eq (.inl hr), stack_absolute hh, List.reverse_reverse, ← heq]

/-- Names one after the other go on from a path. -/
theorem join_names : ∀ {names : List Text}, (∀ c ∈ names, IsName c) → ∀ dir,
    rootOf (names.foldl join dir) = rootOf dir
      ∧ stack (names.foldl join dir) = names.reverse ++ stack dir
  | [], _, _ => ⟨rfl, rfl⟩
  | c :: names, h, dir => by
    obtain ⟨hc, hnames⟩ := List.forall_mem_cons.1 h
    obtain ⟨hroot, hstack⟩ := join_names hnames (join dir c)
    rw [List.foldl_cons, hroot, hstack, rootOf_join hc, stack_join hc]
    simp

/-- The path that names lead to from an absolute path. -/
theorem normalise_join_names {here : Text} (hh : isAbsolute here = true) (r : Text)
    {names : List Text} (hn : ∀ c ∈ names, IsName c) :
    normalise (names.foldl join (absolute here r)) = rootOf (absolute here r) ++
      Text.joinWith ['/'] (components (absolute here r) ++ names) := by
  obtain ⟨hroot, hstack⟩ := join_names hn (absolute here r)
  rw [normalise_eq (.inl (by rw [hroot]; exact (absolute_eq hh r).1)), hroot, hstack,
    stack_absolute hh]
  simp

end Path

/-! ## Files below a folder -/

namespace Folder

variable {skips : Text → Bool}

theorem mem_filesIn_of_mem {dir name : Text} {e : Entry} {x : Text × Text} :
    ∀ {entries : List (Text × Entry)}, (name, e) ∈ entries → x ∈ e.filesUnder skips dir name →
      x ∈ filesIn skips dir entries
  | (n, e') :: rest, hmem, hx => by
    rw [filesIn, List.mem_append]
    rcases List.mem_cons.1 hmem with he | hmem
    · cases he
      exact .inl hx
    · exact .inr (mem_filesIn_of_mem hmem hx)

/-- A file is walked to through folders that are not left out. -/
theorem mem_filesIn_of_find {content : Option Text.Utf8.Bytes} {name : Text} :
    ∀ {init : List Text} {dir : Text} {entries : Folder},
      find (init ++ [name]) entries = .ok (.file content) → (∀ c ∈ init, skips c = false) →
      (init.foldl Path.join dir, name) ∈ filesIn skips dir entries
  | [], dir, entries, hfind, _ => by
    rcases hget : Table.get? entries name with _ | content' | g
    · rw [List.nil_append, find_cons_of_none hget] at hfind
      cases hfind
    · exact mem_filesIn_of_mem (Table.mem_of_get? hget) (by simp [Entry.filesUnder])
    · rw [List.nil_append, find_cons_of_folder hget] at hfind
      cases hfind
  | c :: init, dir, entries, hfind, hskips => by
    obtain ⟨hc, hinit⟩ := List.forall_mem_cons.1 hskips
    rw [List.cons_append] at hfind
    rcases hget : Table.get? entries c with _ | content' | g
    · rw [find_cons_of_none hget] at hfind
      cases hfind
    · rw [find_cons_of_file hget, if_neg (by simp)] at hfind
      cases hfind
    · rw [find_cons_of_folder hget] at hfind
      refine mem_filesIn_of_mem (Table.mem_of_get? hget) ?_
      rw [Entry.filesUnder, if_neg (by simp [hc])]
      exact mem_filesIn_of_find hfind hinit

/-- The names lead from the folder at `dir` to the file, through folders that are not left out. -/
def Leads (skips : Text → Bool) (dir : Text) (entries : Folder) (x : Text × Text) : Prop :=
  ∃ init content, find (init ++ [x.2]) entries = .ok (.file content)
    ∧ (∀ c ∈ init, skips c = false) ∧ x.1 = init.foldl Path.join dir

theorem find_cons_rest {name : Text} {e : Entry} {rest : Folder} {cs : List Text}
    {content : Option Text.Utf8.Bytes} (hn : name ∉ rest.map (·.1))
    (h : find cs rest = .ok (.file content)) :
    find cs ((name, e) :: rest) = .ok (.file content) := by
  rcases cs with _ | ⟨c, cs⟩
  · cases h
  · have hne : name ≠ c := by
      rintro rfl
      rcases hget : Table.get? rest name with _ | a
      · rw [find_cons_of_none hget] at h
        cases h
      · exact hn (Table.mem_keys_iff.2 ⟨a, hget⟩)
    rw [find, Table.get?_cons, if_neg hne.symm]
    exact h

mutual

theorem leads_of_mem_filesUnder (dir : Text) {name : Text} : ∀ e : Entry, e.WellFormed →
    ∀ x ∈ e.filesUnder skips dir name,
      (∃ content, e = .file content ∧ x = (dir, name))
        ∨ ∃ g, e = .folder g ∧ skips name = false ∧ Leads skips (Path.join dir name) g x
  | .file content, _, x, hx => by
    rw [Entry.filesUnder, List.mem_singleton] at hx
    exact .inl ⟨content, rfl, hx⟩
  | .folder g, h, x, hx => by
    rw [Entry.filesUnder] at hx
    split_ifs at hx with hs
    · cases hx
    · exact .inr ⟨g, rfl, by simpa using hs, leads_of_mem_filesIn (Path.join dir name) g h x hx⟩

/-- A walk comes to files that names lead to. -/
theorem leads_of_mem_filesIn (dir : Text) : ∀ entries : List (Text × Entry),
    Entry.WellFormed (.folder entries) → ∀ x ∈ filesIn skips dir entries, Leads skips dir entries x
  | [], _, x, hx => by simp [filesIn] at hx
  | (name, e) :: rest, h, x, hx => by
    cases h with
    | folder names nodup inner =>
    obtain ⟨hnew, hnodup⟩ := List.nodup_cons.1 nodup
    rw [filesIn, List.mem_append] at hx
    rcases hx with hx | hx
    · rcases leads_of_mem_filesUnder dir e (inner _ List.mem_cons_self) x hx with
        ⟨content, rfl, rfl⟩ | ⟨g, rfl, hs, init, content, hfind, hskips, hdir⟩
      · exact ⟨[], content, by simp [find, Table.get?], by simp, rfl⟩
      · refine ⟨name :: init, content, ?_, List.forall_mem_cons.2 ⟨hs, hskips⟩, hdir⟩
        have hget : Table.get? ((name, .folder g) :: rest) name = some (.folder g) := by
          rw [Table.get?_cons, if_pos rfl]
        rw [List.cons_append, find_cons_of_folder hget, hfind]
    · obtain ⟨init, content, hfind, hskips, hdir⟩ := leads_of_mem_filesIn dir rest (.folder
        (fun y hy => names y (List.mem_cons_of_mem _ hy)) hnodup
        fun y hy => inner y (List.mem_cons_of_mem _ hy)) x hx
      exact ⟨init, content, find_cons_rest hnew hfind, hskips, hdir⟩

end

theorem isName_of_find : ∀ {cs : List Text} {f : Folder} {e : Entry},
    Entry.WellFormed (.folder f) → find cs f = .ok e → ∀ c ∈ cs, Path.IsName c
  | [], _, _, _, _ => by simp
  | c :: cs, f, e, hw, h => by
    have hname : ∀ e, Table.get? f c = some e → Path.IsName c := fun e he => by
      cases hw with
      | folder names _ _ => exact names _ (Table.mem_of_get? he)
    rcases hget : Table.get? f c with _ | content | g
    · rw [find_cons_of_none hget] at h
      cases h
    · rw [find_cons_of_file hget] at h
      split_ifs at h with hcs
      simpa [hcs] using hname _ hget
    · rw [find_cons_of_folder hget] at h
      exact List.forall_mem_cons.2 ⟨hname _ hget,
        isName_of_find (wellFormed_of_get? hw hget) h⟩

/-- On the way to a file there are folders. -/
theorem find_append {bs : List Text} (hb : bs ≠ []) {content : Option Text.Utf8.Bytes} :
    ∀ {as : List Text} {f : Folder}, find (as ++ bs) f = .ok (.file content) →
      ∃ g, find as f = .ok (.folder g) ∧ find bs g = .ok (.file content)
  | [], f, h => ⟨f, rfl, h⟩
  | a :: as, f, h => by
    rw [List.cons_append] at h
    rcases hget : Table.get? f a with _ | content' | g
    · rw [find_cons_of_none hget] at h
      cases h
    · rw [find_cons_of_file hget, if_neg (by simp [hb])] at h
      cases h
    · rw [find_cons_of_folder hget] at h ⊢
      exact find_append hb h

end Folder

/-! ## Discovered files -/

theorem Disk.exists_entry_of_isFile {d : Disk} {p : Text} (h : d.isFile p = true) :
    ∃ content, d.entry p = .ok (.file content) := by
  rw [isFile] at h
  split at h
  · rename_i content hentry
    exact ⟨_, hentry⟩
  · cases h

/-- A file below a root: where it is in the tree of the root. -/
theorem Disk.exists_names {d : Disk} (hd : d.WellFormed) {r q : Text}
    (hfile : ∃ content, d.entry (d.absolute q) = .ok (.file content))
    (hbelow : Path.Below (d.absolute r) (d.absolute q)) :
    ∃ entries init name content, d.entry (d.absolute r) = .ok (.folder entries)
      ∧ Folder.find (init ++ [name]) entries = .ok (.file content)
      ∧ Path.components (d.absolute q) = Path.components (d.absolute r) ++ (init ++ [name]) := by
  obtain ⟨-, names, hne, hcs⟩ := hbelow
  obtain ⟨init, name, rfl⟩ := (List.eq_nil_or_concat' names).resolve_left hne
  obtain ⟨content, hentry⟩ := hfile
  rw [entry_absolute hd.here, hcs] at hentry
  obtain ⟨entries, hroot, hfind⟩ := Folder.find_append hne hentry
  rw [← entry_absolute hd.here] at hroot
  exact ⟨entries, init, name, content, hroot, hfind, hcs⟩

namespace Discovery

/-- The path of a file that names lead to from the root. -/
theorem pathOf_names {d : Disk} (hh : Path.isAbsolute d.here = true) (r : Text) {init : List Text}
    {name : Text} (hn : ∀ c ∈ init ++ [name], Path.IsName c) :
    pathOf (init.foldl Path.join (d.absolute r), name) = Path.rootOf (d.absolute r) ++
      Text.joinWith ['/'] (Path.components (d.absolute r) ++ (init ++ [name])) := by
  have := Path.normalise_join_names hh r hn
  rwa [List.foldl_append, List.foldl_cons, List.foldl_nil] at this

/-- This path goes on from the root by the names. -/
theorem split_pathOf_names {d : Disk} (hh : Path.isAbsolute d.here = true) (r : Text)
    {init : List Text} {name : Text} (hn : ∀ c ∈ init ++ [name], Path.IsName c) :
    Path.rootOf (pathOf (init.foldl Path.join (d.absolute r), name)) = Path.rootOf (d.absolute r)
      ∧ Path.components (pathOf (init.foldl Path.join (d.absolute r), name)) =
        Path.components (d.absolute r) ++ (init ++ [name]) := by
  have hclean : ∀ c ∈ Path.components (d.absolute r) ++ (init ++ [name]), c ≠ [] ∧ '/' ∉ c := by
    intro c hc
    have hc : Path.IsName c := (List.mem_append.1 hc).elim (Path.isName_components hh r c) (hn c)
    exact ⟨hc.ne_nil, hc.no_slash⟩
  rw [pathOf_names hh r hn, Path.components_rootOf_append, Path.components_joinWith hclean]
  exact ⟨Path.rootOf_append_of_head (Path.absolute_eq hh r).1 (Path.head?_joinWith hclean), rfl⟩

/-- A file below the root is among the files of a walk that a test on names accepts if and only if
no folder between the root and the file is left out, and the test accepts its name. -/
theorem mem_walk_iff {d : Disk} (hd : d.WellFormed) {r q : Text} {entries : Folder}
    {init : List Text} {name : Text} {content : Option Text.Utf8.Bytes}
    (hroot : d.entry (d.absolute r) = .ok (.folder entries))
    (hfind : Folder.find (init ++ [name]) entries = .ok (.file content))
    (hbelow : Path.Below (d.absolute r) (d.absolute q))
    (hcs : Path.components (d.absolute q) = Path.components (d.absolute r) ++ (init ++ [name]))
    (skips accepts : Text → Bool) :
    d.absolute q ∈ ((d.filesBelow skips (d.absolute r)).filter fun x => accepts x.2).map pathOf
      ↔ (∀ c ∈ init, skips c = false) ∧ accepts name = true := by
  have hw := Disk.wellFormed_entry hd hroot
  have hq : pathOf (init.foldl Path.join (d.absolute r), name) = d.absolute q := by
    rw [pathOf_names hd.here r (Folder.isName_of_find hw hfind), ← hcs, ← hbelow.1]
    exact (Path.absolute_eq hd.here q).2.symm
  rw [List.mem_map, Disk.filesBelow, hroot]
  simp only [List.mem_filter]
  constructor
  · rintro ⟨x, ⟨hx, haccepts⟩, hxq⟩
    obtain ⟨init', content', hfind', hskips, hdir⟩ := Folder.leads_of_mem_filesIn _ entries hw x hx
    -- the same path, so the same names
    have hnames : init' ++ [x.2] = init ++ [name] := by
      have hx' : x = (init'.foldl Path.join (d.absolute r), x.2) := Prod.ext hdir rfl
      have hcomponents := (split_pathOf_names hd.here r (Folder.isName_of_find hw hfind')).2
      rw [← hx', hxq, hcs] at hcomponents
      exact (List.append_cancel_left hcomponents).symm
    obtain ⟨rfl, hname⟩ := List.append_inj' hnames rfl
    obtain rfl : x.2 = name := by simpa using hname
    exact ⟨hskips, haccepts⟩
  · rintro ⟨hskips, haccepts⟩
    exact ⟨_, ⟨Folder.mem_filesIn_of_find hfind hskips, haccepts⟩, hq⟩

theorem filterAuxM_eq_ok {α ε : Type} {g : α → Except ε Bool} : ∀ {xs acc ys : List α},
    xs.filterAuxM g acc = .ok ys ↔ (∀ x ∈ xs, ∃ b, g x = .ok b)
      ∧ ys = (xs.filter fun x => (g x).toOption == some true).reverse ++ acc
  | [], acc, ys => by
    simp [List.filterAuxM, pure, Except.pure, eq_comm]
  | x :: xs, acc, ys => by
    rcases hx : g x with e | b
    · simp [List.filterAuxM, hx, bind, Except.bind]
    · have hstep : (x :: xs).filterAuxM g acc = xs.filterAuxM g (cond b (x :: acc) acc) := by
        rw [List.filterAuxM, hx]
        rfl
      rw [hstep, filterAuxM_eq_ok, List.filter_cons, hx]
      cases b <;> simp [Except.toOption, hx]

/-- A test that may fail selects from a list if and only if it fails on no member. -/
theorem filterM_eq_ok {α ε : Type} {g : α → Except ε Bool} {xs ys : List α} :
    xs.filterM g = .ok ys ↔ (∀ x ∈ xs, ∃ b, g x = .ok b)
      ∧ ys = xs.filter fun x => (g x).toOption == some true := by
  rw [List.filterM, bind_eq_ok_iff]
  simp only [filterAuxM_eq_ok, List.append_nil]
  constructor
  · rintro ⟨zs, ⟨hall, rfl⟩, ⟨⟩⟩
    exact ⟨hall, List.reverse_reverse _⟩
  · rintro ⟨hall, rfl⟩
    exact ⟨_, ⟨hall, rfl⟩, congrArg Except.ok (List.reverse_reverse _)⟩

theorem toOption_beq_true {ε : Type} {x : Except ε Bool} :
    (x.toOption == some true) = true ↔ x = .ok true := by
  rcases x with e | b <;> simp [Except.toOption]

/-- The pattern for filelists is of use for all names or for none. -/
theorem exists_isFilelist {c : Config} {name : Text} {b : Bool} (h : isFilelist c name = .ok b)
    (n : Text) : ∃ b, isFilelist c n = .ok b := by
  simp only [isFilelist] at h ⊢
  split at h
  · exact ⟨_, rfl⟩
  · cases h

section Found

variable {d : Disk} {root : Text} {c : Config} {ignored : List Text}
  (hi : ignoredNames c = .ok ignored)
include hi

theorem candidates_eq : candidates d root c = .ok (d.filesBelow ignored.contains root) := by
  rw [candidates, hi]
  rfl

theorem filelists_eq_ok {lists : List Text} : filelists d root c = .ok lists ↔
    (∀ x ∈ d.filesBelow ignored.contains root, ∃ b, isFilelist c x.2 = .ok b)
      ∧ lists = Text.sorted (((d.filesBelow ignored.contains root).filter
        fun x => (isFilelist c x.2).toOption == some true).map pathOf) := by
  rw [filelists, candidates_eq hi]
  refine Iff.trans
    (bind_eq_ok_iff (x := (d.filesBelow _ root).filterM fun f => isFilelist c f.2)) ?_
  simp only [filterM_eq_ok]
  constructor
  · rintro ⟨found, ⟨hall, rfl⟩, ⟨⟩⟩
    exact ⟨hall, rfl⟩
  · rintro ⟨hall, rfl⟩
    exact ⟨_, ⟨hall, rfl⟩, rfl⟩

theorem filelists_of_none
    (h : ∀ x ∈ d.filesBelow ignored.contains root, isFilelist c x.2 = .ok false) :
    filelists d root c = .ok [] := by
  refine (filelists_eq_ok hi).2 ⟨fun x hx => ⟨false, h x hx⟩, ?_⟩
  rw [List.filter_eq_nil_iff.2 fun x hx => by rw [h x hx]; decide]
  exact (List.Perm.eq_nil (Text.sorted_perm [])).symm

/-- Without filelists the files are those with an extension. -/
theorem discover_of_no_filelists (hl : filelists d root c = .ok []) : discover d root c =
    .ok (⟨Text.sorted (((d.filesBelow ignored.contains root).filter
      fun x => hasExtension c.extensions x.2).map pathOf), false⟩, []) := by
  rw [discover, hl, candidates_eq hi]
  rfl

end Found

end Discovery

/-! ## Classified paths -/

namespace EventFilter

variable {f : EventFilter} {d : Disk} {c : Config}

/-- No part of the path is the name of an ignored folder. -/
def Clear (f : EventFilter) (root : Text) : Prop :=
  ∀ part ∈ Text.splitAll '/' root, part ∉ f.ignored

theorem ofConfig_eq_ok (hf : ofConfig c = .ok f) :
    f.config = c ∧ Discovery.ignoredNames c = .ok f.ignored := by
  rcases hi : Discovery.ignoredNames c with e | ignored
  · simp [ofConfig, hi, bind, Except.bind] at hf
  · have : (⟨c, ignored⟩ : EventFilter) = f := by
      simpa [ofConfig, hi, bind, Except.bind, pure, Except.pure] using hf
    subst this
    exact ⟨rfl, rfl⟩

/-- What a name is taken for. -/
def categoryOf (f : EventFilter) (name : Text) : Except Discovery.Error (Option Category) :=
  (Discovery.isFilelist f.config name).map fun b =>
    if b then some .filelist
    else if hasExtension f.config.extensions name then some .source else none

theorem categoryOf_eq_filelist {name : Text} : f.categoryOf name = .ok (some .filelist) ↔
    Discovery.isFilelist f.config name = .ok true := by
  rcases h : Discovery.isFilelist f.config name with e | _ | _ <;> simp [categoryOf, h, Except.map]

theorem categoryOf_eq_source {name : Text} (h : Discovery.isFilelist f.config name = .ok false) :
    f.categoryOf name = .ok (some .source) ↔ hasExtension f.config.extensions name = true := by
  simp [categoryOf, h, Except.map]

/-- What a file below a root is classified as: nothing if the path of the root, or a folder between
the root and the file, is ignored; otherwise its name decides. -/
theorem classify_eq (hh : Path.isAbsolute d.here = true) {r q : Text} {init : List Text}
    {name : Text}
    (hcs : Path.components (d.absolute q) = Path.components (d.absolute r) ++ (init ++ [name])) :
    (f.Clear (d.absolute r) → (∀ c ∈ init, f.ignored.contains c = false) →
      f.classify (d.absolute q) = f.categoryOf name)
    ∧ (¬ (f.Clear (d.absolute r) ∧ ∀ c ∈ init, f.ignored.contains c = false) →
      f.classify (d.absolute q) = .ok none) := by
  obtain ⟨k, hk⟩ := Path.splitAll_absolute_succ hh r
  obtain ⟨k', hk'⟩ := Path.splitAll_absolute_succ hh q
  have hparts : Text.splitAll '/' (Path.normalise (d.absolute q)) =
      (List.replicate (k' + 1) [] ++ (Path.components (d.absolute r) ++ init)) ++ [name] := by
    rw [Disk.absolute, Path.normalise_absolute hh, hk']
    rw [Disk.absolute, Disk.absolute] at hcs
    simp [hcs, Disk.absolute]
  -- the empty pieces before the components are no different
  have hclear : f.Clear (d.absolute r) ↔ [] ∉ f.ignored
      ∧ ∀ part ∈ Path.components (d.absolute r), part ∉ f.ignored := by
    rw [Clear, Disk.absolute, hk]
    simp [or_imp, forall_and]
  have hany : ((List.replicate (k' + 1) [] ++ (Path.components (d.absolute r) ++ init)).any
      f.ignored.contains) = false ↔
        f.Clear (d.absolute r) ∧ ∀ c ∈ init, f.ignored.contains c = false := by
    rw [hclear]
    simp [and_assoc]
  simp only [classify, hparts, List.dropLast_concat, List.getLastD_concat]
  refine ⟨fun hroot hinit => ?_, fun hno => ?_⟩
  · rw [if_neg (by rw [hany.2 ⟨hroot, hinit⟩]; simp), categoryOf]
    rcases Discovery.isFilelist f.config name with e | _ | _ <;> rfl
  · rw [← hany, Bool.not_eq_false] at hno
    rw [if_pos hno]
    rfl

/-- A file has a category if and only if nothing on its path is ignored and its name has it. -/
theorem classify_eq_some (hh : Path.isAbsolute d.here = true) {r q : Text} {init : List Text}
    {name : Text} {category : Category}
    (hcs : Path.components (d.absolute q) = Path.components (d.absolute r) ++ (init ++ [name])) :
    f.classify (d.absolute q) = .ok (some category) ↔ f.Clear (d.absolute r)
      ∧ (∀ c ∈ init, f.ignored.contains c = false) ∧ f.categoryOf name = .ok (some category) := by
  obtain ⟨hsome, hnone⟩ := classify_eq (f := f) hh hcs
  by_cases h : f.Clear (d.absolute r) ∧ ∀ c ∈ init, f.ignored.contains c = false
  · rw [hsome h.1 h.2]
    exact ⟨fun hc => ⟨h.1, h.2, hc⟩, fun hc => hc.2.2⟩
  · rw [hnone h]
    exact ⟨fun hc => (by cases hc), fun hc => absurd ⟨hc.1, hc.2.1⟩ h⟩

/-- For every file below the root: the filter takes it for a filelist if and only if the path of the
root is clear and discovery finds it as a filelist; and where there is no filelist, it takes it for
a source file if and only if the path of the root is clear and discovery finds it. Below a root
whose path is not clear the filter passes nothing on. -/
theorem classify_iff_discovered (hd : d.WellFormed) (hf : ofConfig c = .ok f) {r q : Text}
    (hfile : d.isFile (d.absolute q) = true) (hbelow : Path.Below (d.absolute r) (d.absolute q)) :
    (f.classify (d.absolute q) = .ok (some .filelist) ↔ f.Clear (d.absolute r)
      ∧ ∃ lists, Discovery.filelists d (d.absolute r) c = .ok lists ∧ d.absolute q ∈ lists)
    ∧ (Discovery.filelists d (d.absolute r) c = .ok [] →
      (f.classify (d.absolute q) = .ok (some .source) ↔ f.Clear (d.absolute r)
        ∧ ∃ found notices, Discovery.discover d (d.absolute r) c = .ok (found, notices)
          ∧ d.absolute q ∈ found.files))
    ∧ (¬ f.Clear (d.absolute r) → f.classify (d.absolute q) = .ok none) := by
  obtain ⟨rfl, hi⟩ := ofConfig_eq_ok hf
  obtain ⟨entries, init, name, content, hroot, hfind, hcs⟩ :=
    Disk.exists_names hd (Disk.exists_entry_of_isFile hfile) hbelow
  have hwalk := Discovery.mem_walk_iff hd hroot hfind hbelow hcs f.ignored.contains
  refine ⟨?_, fun hl => ?_, fun hno => (classify_eq hd.here hcs).2 fun h => hno h.1⟩
  · have hlisted := hwalk fun n => (Discovery.isFilelist f.config n).toOption == some true
    rw [Discovery.toOption_beq_true] at hlisted
    rw [classify_eq_some hd.here hcs, categoryOf_eq_filelist, ← hlisted]
    refine and_congr_right fun _ => ⟨fun hmem => ?_, ?_⟩
    · have hall := fun x : Text × Text =>
        Discovery.exists_isFilelist (hlisted.1 hmem).2 x.2
      exact ⟨_, (Discovery.filelists_eq_ok hi).2 ⟨fun x _ => hall x, rfl⟩, Text.mem_sorted.2 hmem⟩
    · rintro ⟨lists, hlists, hmem⟩
      obtain ⟨-, rfl⟩ := (Discovery.filelists_eq_ok hi).1 hlists
      exact Text.mem_sorted.1 hmem
  · -- where there is no filelist, no name of a file that is walked to is one
    have hname : (∀ c ∈ init, f.ignored.contains c = false) →
        Discovery.isFilelist f.config name = .ok false := by
      intro hinit
      obtain ⟨hall, hempty⟩ := (Discovery.filelists_eq_ok hi).1 hl
      have hmem : (init.foldl Path.join (d.absolute r), name) ∈
          d.filesBelow f.ignored.contains (d.absolute r) := by
        rw [Disk.filesBelow, hroot]
        exact Folder.mem_filesIn_of_find hfind hinit
      obtain ⟨_ | _, hb⟩ := hall _ hmem
      · exact hb
      · have := (hwalk fun n => (Discovery.isFilelist f.config n).toOption == some true).2
          ⟨hinit, Discovery.toOption_beq_true.2 hb⟩
        rw [← Text.mem_sorted, ← hempty] at this
        cases this
    have hdiscover := Discovery.discover_of_no_filelists hi hl
    rw [classify_eq_some hd.here hcs]
    refine and_congr_right fun _ => ⟨?_, ?_⟩
    · rintro ⟨hinit, hcategory⟩
      refine ⟨_, _, hdiscover, Text.mem_sorted.2 ((hwalk _).2 ⟨hinit, ?_⟩)⟩
      exact (categoryOf_eq_source (hname hinit)).1 hcategory
    · rintro ⟨found, notices, hfound, hmem⟩
      rw [hdiscover] at hfound
      cases hfound
      obtain ⟨hinit, hextension⟩ := (hwalk (hasExtension f.config.extensions)).1
        (Text.mem_sorted.1 hmem)
      exact ⟨hinit, (categoryOf_eq_source (hname hinit)).2 hextension⟩

/-- A source file two folders below a clear root, next to an ignored folder. -/
theorem classify_iff_discovered_source :
    let d₀ : Disk := ⟨[], "/"⟩
    let d := (d₀.putFile (d₀.absolute "p/rtl/a.sv") []).putFile (d₀.absolute "p/tmp/b.sv") []
    let f : EventFilter := ⟨{ ignoreDirs := [.text "tmp"] }, ["tmp"]⟩
    d.WellFormed ∧ ofConfig f.config = .ok f ∧ d.isFile (d.absolute "p/rtl/a.sv") = true
      ∧ Path.Below (d.absolute "p") (d.absolute "p/rtl/a.sv")
      ∧ Discovery.filelists d (d.absolute "p") f.config = .ok []
      ∧ f.classify (d.absolute "p/rtl/a.sv") = .ok (some .source) ∧ f.Clear (d.absolute "p")
      ∧ ∃ found notices, Discovery.discover d (d.absolute "p") f.config = .ok (found, notices)
        ∧ d.absolute "p/rtl/a.sv" ∈ found.files := by
  intro d₀ d f
  have hempty : Entry.WellFormed (.folder []) := .folder (by simp) (by simp) (by simp)
  have h₀ : d₀.WellFormed := ⟨hempty, rfl⟩
  have hd : d.WellFormed := Disk.wellFormed_putFile
    (d := d₀.putFile (d₀.absolute "p/rtl/a.sv") []) (Disk.wellFormed_putFile h₀ _ _) "p/tmp/b.sv" []
  have hf : ofConfig f.config = .ok f := rfl
  have hfile : d.isFile (d.absolute "p/rtl/a.sv") = true := by decide +kernel
  have hbelow : Path.Below (d.absolute "p") (d.absolute "p/rtl/a.sv") :=
    ⟨by decide +kernel, ["rtl", "a.sv"], by simp, by decide +kernel⟩
  have hfiles : d.filesBelow f.ignored.contains (d.absolute "p") =
      [("/p/rtl".toList, "a.sv".toList)] := by decide +kernel
  have hname : Discovery.isFilelist f.config "a.sv" = .ok false := rfl
  have hi : Discovery.ignoredNames f.config = .ok f.ignored := rfl
  have hlists : Discovery.filelists d (d.absolute "p") f.config = .ok [] :=
    Discovery.filelists_of_none hi (by rw [hfiles]; simpa using hname)
  have hpath : d.absolute "p/rtl/a.sv" = "/p/rtl/a.sv".toList := by decide +kernel
  have hsource : f.classify (d.absolute "p/rtl/a.sv") = .ok (some .source) := by
    rw [hpath]
    rfl
  obtain ⟨-, hiff, -⟩ := classify_iff_discovered hd hf hfile hbelow
  exact ⟨hd, hf, hfile, hbelow, hlists, hsource, (hiff hlists).1 hsource⟩

/-- A root that is itself called like an ignored folder: discovery finds its source file, which the
filter takes for nothing. -/
theorem classify_none_below_ignored_root :
    let d₀ : Disk := ⟨[], "/w"⟩
    let d := d₀.putFile (d₀.absolute "proj/a.sv") []
    let f : EventFilter := ⟨{ ignoreDirs := [.text "proj"] }, ["proj"]⟩
    d.WellFormed ∧ ofConfig f.config = .ok f ∧ d.isFile (d.absolute "proj/a.sv") = true
      ∧ Path.Below (d.absolute "proj") (d.absolute "proj/a.sv")
      ∧ Discovery.filelists d (d.absolute "proj") f.config = .ok []
      ∧ (∃ found notices, Discovery.discover d (d.absolute "proj") f.config = .ok (found, notices)
        ∧ d.absolute "proj/a.sv" ∈ found.files)
      ∧ f.classify (d.absolute "proj/a.sv") = .ok none := by
  intro d₀ d f
  have hempty : Entry.WellFormed (.folder []) := .folder (by simp) (by simp) (by simp)
  have h₀ : d₀.WellFormed := ⟨hempty, rfl⟩
  have hfiles : d.filesBelow f.ignored.contains (d.absolute "proj") =
      [("/w/proj".toList, "a.sv".toList)] := by decide +kernel
  have hname : Discovery.isFilelist f.config "a.sv" = .ok false := rfl
  have hi : Discovery.ignoredNames f.config = .ok f.ignored := rfl
  have hlists : Discovery.filelists d (d.absolute "proj") f.config = .ok [] :=
    Discovery.filelists_of_none hi (by rw [hfiles]; simpa using hname)
  have hfound := Discovery.discover_of_no_filelists hi hlists
  have hpath : d.absolute "proj/a.sv" = "/w/proj/a.sv".toList := by decide +kernel
  have hnone : f.classify (d.absolute "proj/a.sv") = .ok none := by
    rw [hpath]
    rfl
  refine ⟨Disk.wellFormed_putFile h₀ _ _, rfl, by decide +kernel,
    ⟨by decide +kernel, ["a.sv"], by simp, by decide +kernel⟩, hlists, ⟨_, _, hfound, ?_⟩, hnone⟩
  rw [Text.mem_sorted, hfiles]
  decide +kernel

end EventFilter

end VerilogIndex
