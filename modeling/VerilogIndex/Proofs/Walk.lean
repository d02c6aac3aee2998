import VerilogIndex.Index.Discovery
import VerilogIndex.Proofs.Tables

/-!
# Discovered files

On a well-formed disk (`Disk.WellFormed`) the entries of a folder have different names, and no name
is empty, a dot or two dots, or has a slash. Such a name is one more component of the path of its
folder, whatever that path looks like (`components_normalise_join`), so different files below a
folder have different paths. Main statement: discovery finds no file twice (`nodup_discover`).
Writing and deleting files keep a disk well-formed.
-/

namespace VerilogIndex

/-! ## Pieces between separators -/

namespace Text

theorem splitAll_ne_nil (c : Char) : ∀ t : Text, splitAll c t ≠ []
  | [] => by simp [splitAll]
  | d :: t => by
    rw [splitAll]
    split_ifs
    · simp
    · split <;> simp

theorem splitAll_append (c : Char) (b : Text) :
    ∀ a : Text, splitAll c (a ++ c :: b) = splitAll c a ++ splitAll c b
  | [] => by simp [splitAll]
  | d :: a => by
    rw [List.cons_append, splitAll, splitAll, splitAll_append c b a]
    by_cases h : d = c
    · simp [h]
    · rcases hs : splitAll c a with _ | ⟨p, ps⟩
      · exact absurd hs (splitAll_ne_nil c a)
      · simp [h]

theorem splitAll_of_not_mem {c : Char} : ∀ {t : Text}, c ∉ t → splitAll c t = [t]
  | [], _ => rfl
  | d :: t, h => by
    rw [List.mem_cons, not_or] at h
    rw [splitAll, if_neg (Ne.symm h.1), splitAll_of_not_mem h.2]

theorem not_mem_of_mem_splitAll {c : Char} : ∀ {t p : Text}, p ∈ splitAll c t → c ∉ p
  | [], p, h => by simp_all [splitAll]
  | d :: t, p, h => by
    have ih := fun q => not_mem_of_mem_splitAll (c := c) (t := t) (p := q)
    rw [splitAll] at h
    split_ifs at h with hd
    · rcases List.mem_cons.1 h with rfl | h
      · simp
      · exact ih p h
    · rcases hs : splitAll c t with _ | ⟨q, qs⟩
      · exact absurd hs (splitAll_ne_nil c t)
      · rw [hs] at h ih
        rcases List.mem_cons.1 h with rfl | h
        · simpa [Ne.symm hd] using ih q List.mem_cons_self
        · exact ih p (List.mem_cons_of_mem _ h)

/-! ## Distinct members -/

section Distinct

variable {α : Type} [DecidableEq α]

/-- Members that were seen before some others take their copies away from these. -/
theorem foldl_distinct : ∀ xs seen : List α,
    xs.foldl (fun seen x => if x ∈ seen then seen else seen ++ [x]) seen =
      seen ++ (distinct xs).filter (· ∉ seen)
  | [], seen => by simp [distinct]
  | x :: xs, seen => by
    have hcons : distinct (x :: xs) = [x] ++ (distinct xs).filter (· ∉ [x]) := by
      rw [← foldl_distinct xs [x]]
      simp [distinct]
    rw [List.foldl_cons, hcons, List.filter_append, List.filter_filter]
    split_ifs with hx
    · rw [foldl_distinct xs seen, List.filter_cons_of_neg (by simpa using hx), List.filter_nil,
        List.nil_append]
      refine congrArg (seen ++ ·) (List.filter_congr fun y _ => ?_)
      by_cases hy : y = x <;> simp [hy, hx]
    · rw [foldl_distinct xs (seen ++ [x]), List.filter_cons_of_pos (by simpa using hx),
        List.filter_nil, List.append_assoc]
      refine congrArg (fun ys => seen ++ ([x] ++ ys)) (List.filter_congr fun y _ => ?_)
      simp

theorem distinct_cons (x : α) (xs : List α) :
    distinct (x :: xs) = x :: (distinct xs).filter (· ≠ x) := by
  have h := foldl_distinct xs [x]
  simp only [List.mem_singleton] at h
  rw [distinct, List.foldl_cons, if_neg List.not_mem_nil, List.nil_append, h]
  rfl

theorem distinct_append (xs ys : List α) :
    distinct (xs ++ ys) = distinct xs ++ (distinct ys).filter (· ∉ distinct xs) := by
  rw [distinct, List.foldl_append, foldl_distinct, ← distinct]

theorem mem_distinct {x : α} {xs : List α} : x ∈ distinct xs ↔ x ∈ xs := by
  induction xs with
  | nil => rfl
  | cons y xs ih =>
    rw [distinct_cons, List.mem_cons, List.mem_cons, List.mem_filter, ih]
    by_cases hx : x = y <;> simp [hx]

theorem nodup_distinct (xs : List α) : (distinct xs).Nodup := by
  induction xs with
  | nil => exact List.nodup_nil
  | cons x xs ih =>
    rw [distinct_cons, List.nodup_cons]
    exact ⟨by simp, ih.filter _⟩

theorem distinct_filter (p : α → Bool) (xs : List α) :
    distinct (xs.filter p) = (distinct xs).filter p := by
  induction xs with
  | nil => rfl
  | cons x xs ih =>
    by_cases hx : p x = true
    · rw [List.filter_cons_of_pos hx, distinct_cons, distinct_cons, List.filter_cons_of_pos hx, ih,
        List.filter_comm]
    · rw [List.filter_cons_of_neg hx, distinct_cons, List.filter_cons_of_neg hx, ih,
        List.filter_filter]
      refine List.filter_congr fun y _ => ?_
      by_cases hy : y = x <;> simp [hy, hx]

/-- Of equal members the first one is kept. -/
theorem distinct_eq_eraseDups [BEq α] [LawfulBEq α] : ∀ xs : List α, distinct xs = xs.eraseDups
  | [] => rfl
  | x :: xs => by
    have hlength : (xs.filter fun y => !y == x).length ≤ xs.length := List.length_filter_le _ _
    have hfilter : (xs.filter fun y => decide (y ≠ x)) = xs.filter fun y => !y == x :=
      List.filter_congr fun y _ => by by_cases hy : y = x <;> simp [hy]
    rw [distinct_cons, List.eraseDups_cons, ← distinct_filter, hfilter,
      distinct_eq_eraseDups (xs.filter fun y => !y == x)]
termination_by xs => xs.length

end Distinct

end Text

/-! ## Components -/

namespace Path

/-- A text that can name an entry of a folder. -/
structure IsName (c : Text) : Prop where
  ne_nil : c ≠ []
  ne_dot : c ≠ ['.']
  ne_dots : c ≠ ['.', '.']
  no_slash : '/' ∉ c

instance (c : Text) : Decidable (IsName c) :=
  decidable_of_iff (c ≠ [] ∧ c ≠ ['.'] ∧ c ≠ ['.', '.'] ∧ '/' ∉ c)
    ⟨fun ⟨h1, h2, h3, h4⟩ => ⟨h1, h2, h3, h4⟩, fun ⟨h1, h2, h3, h4⟩ => ⟨h1, h2, h3, h4⟩⟩

/-- The components that normalising keeps, back to front. -/
def stack (p : Text) : List Text :=
  (Text.splitAll '/' p).foldl (pushComponent (!(rootOf p).isEmpty)) []

theorem pushComponent_of_isName {c : Text} (h : IsName c) (rooted : Bool) (done : List Text) :
    pushComponent rooted done c = c :: done := by
  simp [pushComponent, h.ne_nil, h.ne_dot, h.ne_dots]

theorem not_isAbsolute_of_isName {c : Text} (h : IsName c) : isAbsolute c = false := by
  rcases c with _ | ⟨d, c⟩
  · rfl
  · have hd : '/' ≠ d := fun he => h.no_slash (he ▸ List.mem_cons_self)
    simp [isAbsolute, Ne.symm hd]

/-- One more name after a path follows a slash, or there is one at its end, or the path is empty. -/
theorem join_cases {c : Text} (h : IsName c) (dir : Text) :
    (dir = [] ∧ join dir c = c) ∨ (∃ r, dir = r ++ ['/'] ∧ join dir c = r ++ '/' :: c)
      ∨ ∃ r d, d ≠ '/' ∧ dir = r ++ [d] ∧ join dir c = dir ++ '/' :: c := by
  simp only [join, not_isAbsolute_of_isName h, Bool.false_eq_true, if_false]
  rcases List.eq_nil_or_concat dir with rfl | ⟨r, d, rfl⟩
  · exact .inl ⟨rfl, by simp⟩
  · by_cases hd : d = '/'
    · subst hd
      exact .inr (.inl ⟨r, by simp, by simp⟩)
    · exact .inr (.inr ⟨r, d, hd, by simp, by simp [hd]⟩)

theorem rootOf_of_ne {d : Char} (hd : d ≠ '/') (p : Text) : rootOf (d :: p) = [] := by
  unfold rootOf
  split <;> simp_all

/-- The slashes at the start are settled by the first three characters, and before the end. -/
theorem rootOf_append {d : Char} (hd : d ≠ '/') (p : Text) :
    ∀ r : Text, r ≠ [] → rootOf (r ++ d :: p) = rootOf r
  | [x], _ => by
    by_cases hx : x = '/'
    · subst hx
      simp [rootOf, hd]
    · simp [rootOf, hx]
  | [x, y], _ => by
    by_cases hx : x = '/' <;> by_cases hy : y = '/' <;> simp [rootOf, hx, hy, hd]
  | x :: y :: z :: r, _ => by
    by_cases hx : x = '/' <;> by_cases hy : y = '/' <;> by_cases hz : z = '/' <;>
      simp [rootOf, hx, hy, hz]

theorem rootOf_join {c : Text} (h : IsName c) (dir : Text) : rootOf (join dir c) = rootOf dir := by
  obtain ⟨e, c', rfl⟩ := List.exists_cons_of_ne_nil h.ne_nil
  have he : e ≠ '/' := fun he => h.no_slash (he ▸ List.mem_cons_self)
  rcases join_cases h dir with ⟨rfl, hj⟩ | ⟨r, rfl, hj⟩ | ⟨r, d, hd, rfl, hj⟩
  · rw [hj, rootOf_of_ne he]
    rfl
  · have := rootOf_append he c' (r ++ ['/']) (by simp)
    rwa [List.append_assoc, List.singleton_append, ← hj] at this
  · rw [hj, List.append_assoc, List.singleton_append]
    rcases r with _ | ⟨x, r⟩
    · simp [rootOf_of_ne hd]
    · rw [rootOf_append hd _ _ (by simp), rootOf_append hd _ _ (by simp)]

theorem stack_join {c : Text} (h : IsName c) (dir : Text) :
    stack (join dir c) = c :: stack dir := by
  have hc := Text.splitAll_of_not_mem h.no_slash
  rw [stack, stack, rootOf_join h]
  rcases join_cases h dir with ⟨rfl, hj⟩ | ⟨r, rfl, hj⟩ | ⟨-, -, -, -, hj⟩
  · rw [hj, hc, List.foldl_cons, List.foldl_nil, pushComponent_of_isName h]
    rfl
  · rw [hj, Text.splitAll_append, Text.splitAll_append, hc, List.foldl_append, List.foldl_append,
      List.foldl_cons, List.foldl_nil, pushComponent_of_isName h]
    rfl
  · rw [hj, Text.splitAll_append, hc, List.foldl_append, List.foldl_cons, List.foldl_nil,
      pushComponent_of_isName h]

/-- What normalising keeps: pieces between slashes, which are names below a root. -/
structure Kept (rooted : Bool) (c : Text) : Prop where
  ne_nil : c ≠ []
  no_slash : '/' ∉ c
  isName : rooted = true → IsName c

theorem kept_pushComponent {rooted : Bool} {done : List Text} {d : Text}
    (hdone : ∀ c ∈ done, Kept rooted c) (hd : '/' ∉ d) :
    ∀ c ∈ pushComponent rooted done d, Kept rooted c := by
  have hcons : Kept rooted d → ∀ c ∈ d :: done, Kept rooted c := fun h c hc => by
    rcases List.mem_cons.1 hc with rfl | hc
    · exact h
    · exact hdone c hc
  by_cases h1 : d = [] ∨ d = ['.']
  · simpa only [pushComponent, if_pos h1] using hdone
  by_cases h2 : d = ['.', '.']
  · -- two dots stay only where there is nothing to take away, so not below a root
    have hdots : rooted = false → Kept rooted d := fun hr => ⟨by simp [h2], hd, by simp [hr]⟩
    rcases done with _ | ⟨e, done⟩
    · cases rooted with
      | true => simp [pushComponent, h2]
      | false => simpa [pushComponent, h2] using hdots rfl
    · by_cases he : e = ['.', '.']
      · have hr : rooted = false := Bool.eq_false_iff.2 fun hr =>
          ((hdone e List.mem_cons_self).isName hr).ne_dots he
        simpa only [pushComponent, if_neg h1, if_pos h2, if_pos he] using hcons (hdots hr)
      · simp only [pushComponent, if_neg h1, if_pos h2, if_neg he]
        exact fun c hc => hdone c (List.mem_cons_of_mem _ hc)
  · rw [not_or] at h1
    rw [pushComponent_of_isName ⟨h1.1, h1.2, h2, hd⟩]
    exact hcons ⟨h1.1, hd, fun _ => ⟨h1.1, h1.2, h2, hd⟩⟩

theorem kept_of_mem_stack {p c : Text} (hc : c ∈ stack p) : Kept (!(rootOf p).isEmpty) c := by
  refine List.foldlRecOn (motive := fun done => ∀ c ∈ done, Kept (!(rootOf p).isEmpty) c) _ _
    (by simp) (fun done hdone d hd => ?_) c hc
  exact kept_pushComponent hdone (Text.not_mem_of_mem_splitAll hd)

theorem components_append (a b : Text) :
    components (a ++ '/' :: b) = components a ++ components b := by
  rw [components, Text.splitAll_append, List.filter_append]
  rfl

theorem components_of_not_mem {c : Text} (h : c ≠ []) (hc : '/' ∉ c) : components c = [c] := by
  rw [components, Text.splitAll_of_not_mem hc, List.filter_cons_of_pos (by simp [h]),
    List.filter_nil]

theorem components_joinWith : ∀ {cs : List Text}, (∀ c ∈ cs, c ≠ [] ∧ '/' ∉ c) →
    components (Text.joinWith ['/'] cs) = cs
  | [], _ => rfl
  | [c], h => components_of_not_mem (h c (by simp)).1 (h c (by simp)).2
  | c :: d :: cs, h => by
    have hc := h c List.mem_cons_self
    rw [Text.joinWith, List.append_assoc, List.singleton_append, components_append,
      components_of_not_mem hc.1 hc.2,
      components_joinWith fun e he => h e (List.mem_cons_of_mem _ he), List.singleton_append]

theorem components_rootOf_append (p t : Text) : components (rootOf p ++ t) = components t := by
  have hslash : ∀ t, components ('/' :: t) = components t := fun t => components_append [] t
  unfold rootOf
  split <;> simp [hslash]

theorem joinWith_ne_nil {sep : Text} : ∀ {cs : List Text}, cs ≠ [] → (∀ c ∈ cs, c ≠ []) →
    Text.joinWith sep cs ≠ []
  | [c], _, h => h c (by simp)
  | c :: d :: cs, _, h => by simp [Text.joinWith, h c List.mem_cons_self]

theorem normalise_eq {p : Text} (h : rootOf p ≠ [] ∨ stack p ≠ []) :
    normalise p = rootOf p ++ Text.joinWith ['/'] (stack p).reverse := by
  have hp : p.isEmpty = false := by
    rcases p with _ | ⟨d, p⟩
    · simp [rootOf, stack, Text.splitAll, pushComponent] at h
    · rfl
  have ht : (rootOf p ++ Text.joinWith ['/'] (stack p).reverse).isEmpty = false := by
    rw [List.isEmpty_eq_false_iff, ne_eq, List.append_eq_nil_iff, not_and_or]
    refine h.imp_right fun hs => joinWith_ne_nil (by simpa using hs) fun c hc => ?_
    exact (kept_of_mem_stack (List.mem_reverse.1 hc)).ne_nil
  simp only [normalise, hp, Bool.false_eq_true, if_false]
  exact if_neg (by simpa [stack] using ht)

theorem components_normalise {p : Text} (h : rootOf p ≠ [] ∨ stack p ≠ []) :
    components (normalise p) = (stack p).reverse := by
  rw [normalise_eq h, components_rootOf_append, components_joinWith fun c hc => ?_]
  have hk := kept_of_mem_stack (List.mem_reverse.1 hc)
  exact ⟨hk.ne_nil, hk.no_slash⟩

/-- A name is the last component of its path in a folder. -/
theorem components_normalise_join {c : Text} (h : IsName c) (dir : Text) :
    components (normalise (join dir c)) = (stack dir).reverse ++ [c] := by
  rw [components_normalise (by simp [stack_join h]), stack_join h, List.reverse_cons]

theorem isAbsolute_iff {p : Text} : isAbsolute p = true ↔ rootOf p ≠ [] := by
  rcases p with _ | ⟨d, p⟩
  · simp [isAbsolute, rootOf]
  · by_cases hd : d = '/'
    · subst hd
      unfold rootOf
      split <;> simp_all [isAbsolute]
    · simp [isAbsolute, rootOf_of_ne hd, hd]

theorem isAbsolute_join {here p : Text} (hh : isAbsolute here = true) :
    isAbsolute (join here p) = true := by
  obtain ⟨d, h, rfl⟩ : ∃ d h, here = d :: h := by
    rcases here with _ | ⟨d, h⟩
    · simp [isAbsolute] at hh
    · exact ⟨d, h, rfl⟩
  rw [join]
  split_ifs with hp
  · exact hp
  · exact hh
  · exact hh

/-- Seen from an absolute folder every path leads through names. -/
theorem isName_of_mem_absolute {here p c : Text} (hh : isAbsolute here = true)
    (hc : c ∈ components (absolute here p)) : IsName c := by
  have hr : rootOf (join here p) ≠ [] := isAbsolute_iff.1 (isAbsolute_join hh)
  rw [absolute, components_normalise (.inl hr)] at hc
  exact (kept_of_mem_stack (List.mem_reverse.1 hc)).isName (by simpa using hr)

end Path

/-! ## Well-formed disks -/

/-- The entries of each folder have different names. -/
inductive Entry.WellFormed : Entry → Prop
  | file (content : Option Text.Utf8.Bytes) : WellFormed (.file content)
  | folder {entries : List (Text × Entry)} (names : ∀ x ∈ entries, Path.IsName x.1)
      (nodup : (entries.map (·.1)).Nodup) (inner : ∀ x ∈ entries, WellFormed x.2) :
      WellFormed (.folder entries)

structure Disk.WellFormed (d : Disk) : Prop where
  root : Entry.WellFormed (.folder d.root)
  here : Path.isAbsolute d.here = true

namespace Folder

theorem wellFormed_of_get? {f : Folder} (h : Entry.WellFormed (.folder f)) {c : Text} {e : Entry}
    (he : Table.get? f c = some e) : e.WellFormed := by
  cases h with
  | folder _ _ inner => exact inner _ (Table.mem_of_get? he)

theorem wellFormed_at? : ∀ {cs : List Text} {f : Folder} {e : Entry},
    Entry.WellFormed (.folder f) → at? cs f = some e → e.WellFormed
  | [], f, e, h, he => by
    cases he
    exact h
  | [c], f, e, h, he => wellFormed_of_get? h he
  | c :: d :: cs, f, e, h, he => by
    rw [at?] at he
    split at he
    · rename_i entries hc
      exact wellFormed_at? (wellFormed_of_get? h hc) he
    · cases he
    · simp

theorem wellFormed_put {f : Folder} (h : Entry.WellFormed (.folder f)) {c : Text} {e : Entry}
    (hc : Path.IsName c) (he : e.WellFormed) : Entry.WellFormed (.folder (Table.put c e f)) := by
  cases h with
  | folder names nodup inner =>
    refine .folder (fun x hx => ?_) (Table.nodup_keys_put nodup) fun x hx => ?_
    · rcases Table.mem_put hx with rfl | hx
      · exact hc
      · exact names x hx
    · rcases Table.mem_put hx with rfl | hx
      · exact he
      · exact inner x hx

theorem wellFormed_erase {f : Folder} (h : Entry.WellFormed (.folder f)) (c : Text) :
    Entry.WellFormed (.folder (Table.erase c f)) := by
  cases h with
  | folder names nodup inner =>
    exact .folder (fun x hx => names x (List.mem_filter.1 hx).1) (Table.nodup_keys_erase nodup)
      fun x hx => inner x (List.mem_filter.1 hx).1

theorem wellFormed_inner {f : Folder} (h : Entry.WellFormed (.folder f)) (c : Text) :
    Entry.WellFormed (.folder (inner f c)) := by
  rw [inner]
  split
  · rename_i entries hc
    exact wellFormed_of_get? h hc
  · exact .folder (by simp) (by simp) (by simp)

theorem wellFormed_putAt {e : Entry} (he : e.WellFormed) : ∀ {cs : List Text} {f : Folder},
    Entry.WellFormed (.folder f) → (∀ c ∈ cs, Path.IsName c) →
    Entry.WellFormed (.folder (putAt cs e f))
  | [], f, h, _ => h
  | [c], f, h, hc => wellFormed_put h (hc c (by simp)) he
  | c :: d :: cs, f, h, hc => by
    refine wellFormed_put h (hc c List.mem_cons_self) ?_
    exact wellFormed_putAt he (wellFormed_inner h c) fun x hx => hc x (List.mem_cons_of_mem _ hx)

theorem wellFormed_eraseAt : ∀ {cs : List Text} {f : Folder}, Entry.WellFormed (.folder f) →
    Entry.WellFormed (.folder (eraseAt cs f))
  | [], f, h => h
  | [c], f, h => wellFormed_erase h c
  | c :: d :: cs, f, h => by
    rw [eraseAt]
    split
    · rename_i entries hc
      have hn : Path.IsName c := by
        cases h with
        | folder names _ _ => exact names _ (Table.mem_of_get? hc)
      exact wellFormed_put h hn (wellFormed_eraseAt (wellFormed_of_get? h hc))
    · exact h
    · simp

end Folder

namespace Disk

variable {d : Disk}

theorem wellFormed_entry (h : d.WellFormed) {p : Text} {e : Entry} (he : d.entry p = .ok e) :
    e.WellFormed := by
  rcases hr : d.resolve p with f | cs
  · simp [entry, hr, bind, Except.bind] at he
  · rcases ha : Folder.at? cs d.root with _ | e'
    · simp [entry, hr, ha, bind, Except.bind, throw, throwThe, MonadExceptOf.throw] at he
    · have : e' = e := by simpa [entry, hr, ha, bind, Except.bind, pure, Except.pure] using he
      exact this ▸ Folder.wellFormed_at? h.root ha

theorem wellFormed_putFile (h : d.WellFormed) (p : Text) (content : Text.Utf8.Bytes) :
    (d.putFile (d.absolute p) content).WellFormed where
  root := Folder.wellFormed_putAt (.file content) h.root
    fun _ hc => Path.isName_of_mem_absolute h.here hc
  here := h.here

theorem wellFormed_erase (h : d.WellFormed) (p : Text) : (d.erase p).WellFormed where
  root := Folder.wellFormed_eraseAt h.root
  here := h.here

end Disk

/-! ## Files below a folder -/

/-- The components of the path of a file. -/
def trail (f : Text × Text) : List Text := Path.components (Discovery.pathOf f)

theorem trail_of_isName {dir name : Text} (h : Path.IsName name) :
    trail (dir, name) = (Path.stack dir).reverse ++ [name] :=
  Path.components_normalise_join h dir

mutual

/-- The files below an entry have different paths, all of which lead through the entry. -/
theorem Entry.trails (skips : Text → Bool) (dir : Text) {name : Text} (hn : Path.IsName name) :
    ∀ e : Entry, e.WellFormed → ((e.filesUnder skips dir name).map trail).Nodup
      ∧ ∀ f ∈ e.filesUnder skips dir name,
        ∃ rest, trail f = (Path.stack dir).reverse ++ name :: rest
  | .file content, _ => by
    refine ⟨by simp [Entry.filesUnder], fun f hf => ⟨[], ?_⟩⟩
    rw [Entry.filesUnder, List.mem_singleton] at hf
    rw [hf, trail_of_isName hn]
  | .folder entries, h => by
    rw [Entry.filesUnder]
    split_ifs
    · simp
    · have ih := Folder.trails skips (Path.join dir name) entries h
      refine ⟨ih.1, fun f hf => ?_⟩
      obtain ⟨n, -, rest, ht⟩ := ih.2 f hf
      refine ⟨n :: rest, ?_⟩
      rw [ht, Path.stack_join hn, List.reverse_cons, List.append_assoc, List.singleton_append]

theorem Folder.trails (skips : Text → Bool) (dir : Text) :
    ∀ entries : List (Text × Entry), Entry.WellFormed (.folder entries) →
      ((Folder.filesIn skips dir entries).map trail).Nodup
        ∧ ∀ f ∈ Folder.filesIn skips dir entries, ∃ name ∈ entries.map (·.1),
          ∃ rest, trail f = (Path.stack dir).reverse ++ name :: rest
  | [], _ => by simp [Folder.filesIn]
  | (name, e) :: rest, h => by
    cases h with
    | folder names nodup inner =>
    obtain ⟨hnew, hnodup⟩ := List.nodup_cons.1 nodup
    have hfirst :=
      Entry.trails skips dir (names _ List.mem_cons_self) e (inner _ List.mem_cons_self)
    have hrest := Folder.trails skips dir rest (.folder
      (fun x hx => names x (List.mem_cons_of_mem _ hx)) hnodup
      fun x hx => inner x (List.mem_cons_of_mem _ hx))
    rw [Folder.filesIn]
    refine ⟨?_, fun f hf => ?_⟩
    · rw [List.map_append, List.nodup_append]
      refine ⟨hfirst.1, hrest.1, fun a ha b hb => ?_⟩
      obtain ⟨f, hf, rfl⟩ := List.mem_map.1 ha
      obtain ⟨g, hg, rfl⟩ := List.mem_map.1 hb
      obtain ⟨r, hr⟩ := hfirst.2 f hf
      obtain ⟨n, hn, r', hr'⟩ := hrest.2 g hg
      rw [hr, hr']
      intro he
      have hname : name = n := (List.cons.inj (List.append_cancel_left he)).1
      rw [← hname] at hn
      exact hnew hn
    · rcases List.mem_append.1 hf with hf | hf
      · obtain ⟨r, hr⟩ := hfirst.2 f hf
        exact ⟨name, List.mem_cons_self, r, hr⟩
      · obtain ⟨n, hn, r, hr⟩ := hrest.2 f hf
        exact ⟨n, List.mem_cons_of_mem _ hn, r, hr⟩

end

namespace Discovery

/-- The candidates have different paths. -/
theorem nodup_candidates {d : Disk} (h : d.WellFormed) {root : Text} {c : Config}
    {files : List (Text × Text)} (hf : candidates d root c = .ok files) :
    (files.map pathOf).Nodup := by
  obtain ⟨ignored, rfl⟩ : ∃ ignored : List Text, d.filesBelow ignored.contains root = files := by
    rcases hi : ignoredNames c with e | ignored
    · simp [candidates, hi, bind, Except.bind] at hf
    · exact ⟨ignored, by simpa [candidates, hi, bind, Except.bind, pure, Except.pure] using hf⟩
  rw [Disk.filesBelow]
  split
  · rename_i entries he
    have hw : Entry.WellFormed (.folder entries) := Disk.wellFormed_entry h he
    refine List.Nodup.of_map Path.components ?_
    rw [List.map_map]
    exact (Folder.trails _ root entries hw).1
  · simp

/-- No file is discovered twice. -/
theorem nodup_discover {d : Disk} (h : d.WellFormed) {root : Text} {c : Config} {found : Found}
    {notices : List Notice} (hf : discover d root c = .ok (found, notices)) :
    found.files.Nodup := by
  rcases hl : filelists d root c with e | lists
  · simp [discover, hl, bind, Except.bind] at hf
  by_cases hempty : lists.isEmpty = true
  · rcases hc : candidates d root c with e | files
    · simp [discover, hl, hc, hempty, bind, Except.bind] at hf
    · simp only [discover, hl, hc, hempty, bind, Except.bind, pure, Except.pure, if_true,
        Except.ok.injEq, Prod.mk.injEq] at hf
      rw [← hf.1]
      refine (Text.sorted_perm _).nodup_iff.2 ?_
      exact (nodup_candidates h hc).sublist (List.filter_sublist.map _)
  · simp only [discover, hl, hempty, bind, Except.bind, pure, Except.pure, Bool.false_eq_true,
      if_false, Except.ok.injEq, Prod.mk.injEq] at hf
    rw [← hf.1]
    exact Text.nodup_distinct _

end Discovery

end VerilogIndex
