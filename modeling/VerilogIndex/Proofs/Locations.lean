import VerilogIndex.Proofs.InstanceGrammar
import VerilogIndex.Proofs.Pieces

/-!
# Locations

Names are found in the blanked copy of a text and located in the text itself. A name found at an
offset of the copy stands at the same offset of the text, as a whole word and outside of comments
(`NameAt.of_blankComments`), so the search for its location ends where it begins (`locate_eq`) and
the line and the column are those of that offset (`line_of_offset`).

Main statements: reading a module from a text or from its blanked copy comes to the same, locations
included (`readModule_blankComments`), and every location of a module is exactly that of its name
(`locations_exact`).
-/

namespace VerilogIndex.Source

open Text

/-- The identifier stands at the offset of the text, and no word character follows it. -/
structure NameAt (t name : Text) (offset : Nat) : Prop where
  identifier : isIdentifier name = true
  stands : ∃ r, t.drop offset = name ++ r ∧ startsWord r = false

theorem NameAt.of_append {u t name : Text} {offset : Nat} (h : NameAt t name offset) :
    NameAt (u ++ t) name (u.length + offset) where
  identifier := h.identifier
  stands := by
    rw [List.drop_length_add_append]
    exact h.stands

theorem NameAt.cons {t name : Text} {pos offset : Nat} (c : Char) (hpos : pos + 1 ≤ offset)
    (h : NameAt t name (offset - (pos + 1))) : NameAt (c :: t) name (offset - pos) := by
  have := h.of_append (u := [c])
  rwa [List.length_singleton, show 1 + (offset - (pos + 1)) = offset - pos by omega] at this

theorem NameAt.offset_le {t name : Text} {offset : Nat} (h : NameAt t name offset) :
    offset ≤ t.length := by
  obtain ⟨r, hd, -⟩ := h.stands
  by_contra hlt
  rw [List.drop_eq_nil_of_le (not_le.1 hlt).le] at hd
  exact ne_nil_of_isIdentifier h.identifier (List.append_eq_nil_iff.1 hd.symm).1

theorem nameAt_identifier? {t name r : Text} (h : identifier? t = some (name, r)) :
    NameAt t name 0 ∧ t = name ++ r := by
  obtain ⟨rfl, hn, hr⟩ := identifier?_eq_some_iff.1 h
  exact ⟨⟨hn, r, rfl, hr⟩, rfl⟩

theorem NameAt.of_gap {t name : Text} {offset : Nat}
    (h : NameAt (t.dropWhile isBlank) name offset) :
    NameAt t name ((t.takeWhile isBlank).length + offset) := by
  have := h.of_append (u := t.takeWhile isBlank)
  rwa [List.takeWhile_append_dropWhile] at this

/-! ## Headings -/

theorem nameAt_headingAt? {start : Nat} {t : Text} {h : Heading}
    (hh : headingAt? start t = some h) :
    start ≤ h.nameStart ∧ NameAt t h.name (h.nameStart - start) := by
  simp only [headingAt?, Option.bind_eq_bind, Option.bind_eq_some_iff] at hh
  obtain ⟨r, hr, hh⟩ := hh
  split_ifs at hh
  obtain ⟨⟨name, rest⟩, hi, hh⟩ := Option.bind_eq_some_iff.1 hh
  obtain rfl := Option.some.inj hh
  have := (nameAt_identifier? hi).1.of_gap.of_append (u := "module")
  rw [← after?_eq_some_iff.1 hr] at this
  refine ⟨by simp only []; omega, ?_⟩
  simpa [Nat.add_assoc] using this

theorem nameAt_findHeadingFrom? : ∀ {t : Text} {start : Nat} {glued : Bool} {h : Heading},
    findHeadingFrom? start glued t = some h →
    start ≤ h.nameStart ∧ NameAt t h.name (h.nameStart - start)
  | [], _, _, _, hh => by simp [findHeadingFrom?] at hh
  | c :: t, start, glued, h, hh => by
    rw [findHeadingFrom?] at hh
    split at hh
    · rename_i h' hat
      split_ifs at hat
      rw [← Option.some.inj hh]
      exact nameAt_headingAt? hat
    · obtain ⟨hle, hn⟩ := nameAt_findHeadingFrom? hh
      exact ⟨by omega, hn.cons c hle⟩

theorem nameAt_heading {t : Text} {h : Heading} (hh : findHeading? t = some h) :
    NameAt t h.name h.nameStart :=
  (nameAt_findHeadingFrom? hh).2

/-! ## Instances -/

theorem nameAt_instances {t : Text} {start : Nat} {f : Found} (h : f ∈ instances t start) :
    NameAt t f.name f.offset := by
  obtain ⟨o, -, ho, -, rfl⟩ := exists_occurrence_of_mem h
  obtain ⟨g, r, -, hr, hword⟩ := ho.name_stands
  exact ⟨o.parts.name_identifier, _, hr, hword⟩

/-! ## Names in a text and in its blanked copy -/

section Copy

variable {t name : Text} {offset : Nat}

theorem outsideComments_of_nameAt (h : NameAt (blankComments t) name offset) :
    OutsideComments t name offset := by
  intro ps hps
  obtain ⟨r, hd, -⟩ := h.stands
  obtain ⟨before, after, hsplit, hoffset, -⟩ := hps.word (ne_nil_of_isIdentifier h.identifier)
    (isWord_of_isIdentifier h.identifier) hd
  exact ⟨before, after, hsplit, hoffset⟩

theorem NameAt.of_blankComments (h : NameAt (blankComments t) name offset) :
    NameAt t name offset where
  identifier := h.identifier
  stands := by
    obtain ⟨ps, hps⟩ := exists_pieces none t
    obtain ⟨r, hd, hr⟩ := h.stands
    exact hps.drop_eq (ne_nil_of_isIdentifier h.identifier) (isWord_of_isIdentifier h.identifier)
      hd hr

/-- The search for a name that stands at the offset ends there. -/
theorem findWord?_eq_zero (h : NameAt t name offset) :
    findWord? name false (t.drop offset) = some 0 := by
  obtain ⟨r, hd, hr⟩ := h.stands
  have hne := ne_nil_of_isIdentifier h.identifier
  have hword := isWord_of_isIdentifier h.identifier
  obtain ⟨c, w, rfl⟩ := List.exists_cons_of_ne_nil hne
  have hlast : isWord ((c :: w).getLast hne) = true := hword _ (List.getLast_mem hne)
  have hstands : standsAt (c :: w) false (c :: w ++ r) = true := by
    rw [standsAt, after?_eq_some_iff.2 rfl]
    simp only [List.getLast?_eq_getLast_of_ne_nil hne, hlast, hr]
    simp [startsWord, hword c List.mem_cons_self]
  rw [hd, List.cons_append, findWord?, ← List.cons_append, if_pos hstands]

theorem locate_eq (h : NameAt t name offset) (path : Text) : locate t name offset path =
    { file := path, line := lineOf t offset, column := columnOf t offset
      length := name.length } := by
  rw [locate, findWord?_eq_zero h]
  rfl

/-- The line and the column of an offset are told by the places of the line feeds. -/
theorem position_congr {u : Text} (h : u.map (· == '\n') = t.map (· == '\n')) (offset : Nat) :
    lineOf u offset = lineOf t offset ∧ columnOf u offset = columnOf t offset := by
  have hline : ∀ v : Text, lineOf v offset = ((v.map (· == '\n')).take offset).count true := by
    intro v
    rw [lineOf, ← List.map_take, List.count_eq_countP, List.count_eq_countP, List.countP_map]
    exact List.countP_congr fun c _ => by simp
  have hcolumn : ∀ v : Text, columnOf v offset =
      (((v.map (· == '\n')).take offset).reverse.takeWhile (!·)).length := by
    intro v
    rw [columnOf, ← List.map_take, ← List.map_reverse, List.takeWhile_map, List.length_map]
    rfl
  rw [hline, hline, hcolumn, hcolumn, h]
  exact ⟨rfl, rfl⟩

theorem locate_blankComments (h : NameAt (blankComments t) name offset) (path : Text) :
    locate (blankComments t) name offset path = locate t name offset path := by
  obtain ⟨ps, hps⟩ := exists_pieces none t
  obtain ⟨hline, hcolumn⟩ := position_congr hps.lineFeeds_eq offset
  rw [locate_eq h, locate_eq h.of_blankComments, hline, hcolumn]

end Copy

/-- Comments make no difference to what is read, nor to where it is located. -/
theorem readModule_blankComments (t path : Text) :
    readModule (blankComments t) path = readModule t path := by
  rw [readModule, readModule, blankComments_blankComments]
  refine Option.bind_congr fun heading hh => ?_
  have hinstances : locatedInstances (blankComments t) (blankComments t) heading.start path =
      locatedInstances t (blankComments t) heading.start path := by
    refine List.map_congr_left fun f hf => ?_
    rw [locate_blankComments (nameAt_instances hf)]
  rw [locate_blankComments (nameAt_heading hh), hinstances]

/-! ## Lines and columns -/

/-- The offset of a column of a line: the lines before it, each with its line feed, and the
column. -/
def offsetAt (t : Text) (line column : Nat) : Nat :=
  (((splitAll '\n' t).take line).map (·.length + 1)).sum + column

theorem lineOf_cons_succ (c : Char) (t : Text) (offset : Nat) :
    lineOf (c :: t) (offset + 1) = lineOf t offset + if c = '\n' then 1 else 0 := by
  simp [lineOf, List.count_cons]

theorem columnOf_cons_succ (c : Char) (t : Text) (offset : Nat) : columnOf (c :: t) (offset + 1) =
    columnOf t offset + if lineOf t offset = 0 ∧ c ≠ '\n' then 1 else 0 := by
  have hall : ((t.take offset).reverse.takeWhile (· != '\n')).length
        = (t.take offset).reverse.length
      ↔ lineOf t offset = 0 := by
    rw [(List.takeWhile_sublist _).length_eq, List.takeWhile_eq_self_iff, lineOf,
      List.count_eq_zero]
    simp only [List.mem_reverse, bne_iff_ne]
    exact ⟨fun h hmem => h _ hmem rfl, fun h c hmem hc => h (hc ▸ hmem)⟩
  rw [columnOf, List.take_succ_cons, List.reverse_cons, List.takeWhile_append]
  by_cases hl : lineOf t offset = 0
  · rw [if_pos (hall.2 hl), List.length_append, ← hall.2 hl, columnOf]
    by_cases hc : c = '\n' <;> simp [hl, hc]
  · rw [if_neg (fun he => hl (hall.1 he)), if_neg (fun he => hl he.1), columnOf, Nat.add_zero]

/-- The line at the offset goes on from its column as the text does from the offset. -/
theorem line_of_offset : ∀ (t : Text) (offset : Nat), offset ≤ t.length →
    (∃ line, (splitAll '\n' t)[lineOf t offset]? = some line
      ∧ line.drop (columnOf t offset) = (t.drop offset).takeWhile (· != '\n'))
    ∧ offsetAt t (lineOf t offset) (columnOf t offset) = offset
  | [], 0, _ => ⟨⟨[], rfl, rfl⟩, rfl⟩
  | c :: t, 0, _ => by
    obtain ⟨⟨line, hline, hrest⟩, -⟩ := line_of_offset t 0 (Nat.zero_le _)
    refine ⟨?_, rfl⟩
    rw [splitAll]
    split_ifs with hc
    · exact ⟨[], rfl, by simp [hc]⟩
    · rcases hs : splitAll '\n' t with _ | ⟨p, ps⟩
      · simp [hs] at hline
      · have hp : line = p := by simpa [hs, lineOf] using hline.symm
        refine ⟨c :: p, rfl, ?_⟩
        rw [List.drop_zero, List.takeWhile_cons_of_pos (by simpa using hc), ← hp]
        exact congrArg (c :: ·) hrest
  | c :: t, offset + 1, h => by
    obtain ⟨⟨line, hline, hrest⟩, hoffset⟩ := line_of_offset t offset (Nat.le_of_succ_le_succ h)
    rw [lineOf_cons_succ, columnOf_cons_succ, offsetAt, splitAll, List.drop_succ_cons]
    rw [offsetAt] at hoffset
    by_cases hc : c = '\n'
    · simp only [hc, if_true, ne_eq, not_true_eq_false, and_false, if_false, Nat.add_zero,
        List.getElem?_cons_succ, List.take_succ_cons, List.map_cons, List.sum_cons, List.length_nil]
      exact ⟨⟨line, hline, hrest⟩, by omega⟩
    rcases hs : splitAll '\n' t with _ | ⟨p, ps⟩
    · simp [hs] at hline
    rw [hs] at hline hoffset
    simp only [hc, if_false, ne_eq, not_false_eq_true, and_true, Nat.add_zero]
    rcases hl : lineOf t offset with _ | k
    · rw [hl] at hline hoffset
      obtain rfl : p = line := by simpa using hline
      refine ⟨⟨c :: p, rfl, hrest⟩, ?_⟩
      simp only [List.take_zero, List.map_nil, List.sum_nil, if_true] at hoffset ⊢
      omega
    · rw [hl] at hline hoffset
      refine ⟨⟨line, hline, hrest⟩, ?_⟩
      simp only [List.take_succ_cons, List.map_cons, List.sum_cons, List.length_cons] at hoffset ⊢
      simp only [Nat.succ_ne_zero, if_false]
      omega

/-- The location is that of the name at the offset where it stands in the blanked copy: the stretch
of the line that it stands for is the name, its first character is the one at the offset, and no
comment covers it. The search for the name from the offset on finds it at once, so it has no need of
the start of the file to fall back to. -/
structure ExactLocation (t path name : Text) (offset : Nat) (l : Location) : Prop where
  file : l.file = path
  length : l.length = name.length
  slice : ∃ line, (splitAll '\n' t)[l.line]? = some line ∧ (line.drop l.column).take l.length = name
  offset_eq : offsetAt t l.line l.column = offset
  copy : NameAt (blankComments t) name offset
  outside : OutsideComments t name offset
  found : findWord? name false (t.drop offset) = some 0

theorem exactLocation_locate {t name : Text} {offset : Nat}
    (h : NameAt (blankComments t) name offset) (path : Text) :
    ExactLocation t path name offset (locate t name offset path) := by
  have hn := h.of_blankComments
  obtain ⟨r, hd, -⟩ := hn.stands
  obtain ⟨⟨line, hline, hrest⟩, hoffset⟩ := line_of_offset t offset hn.offset_le
  have hbreak : ∀ c ∈ name, (c != '\n') = true := by
    intro c hc
    rw [bne_iff_ne]
    rintro rfl
    have := isWord_of_isIdentifier h.identifier _ hc
    rw [not_isWord_of_isBlank (by decide)] at this
    cases this
  rw [locate_eq hn]
  refine ⟨rfl, rfl, ⟨line, hline, ?_⟩, hoffset, h, outsideComments_of_nameAt h,
    findWord?_eq_zero hn⟩
  rw [hrest, hd, List.takeWhile_append_of_pos hbreak, List.take_left]

/-- The name of a module and those of its instances are located where they were found in the
blanked copy of the text. -/
theorem locations_exact {t path : Text} {m : Module} (h : readModule t path = some m) :
    ∃ heading, findHeading? (blankComments t) = some heading ∧ m.name = heading.name
      ∧ ExactLocation t path m.name heading.nameStart m.location
      ∧ List.Forall₂ (fun i f => i.type = f.type ∧ i.name = f.name
          ∧ ExactLocation t path i.name f.offset i.location)
        m.instances (instances (blankComments t) heading.start) := by
  simp only [readModule, Option.bind_eq_bind, Option.bind_eq_some_iff] at h
  obtain ⟨heading, hh, hm⟩ := h
  obtain rfl := Option.some.inj hm
  refine ⟨heading, hh, rfl, exactLocation_locate (nameAt_heading hh) path, ?_⟩
  rw [locatedInstances, List.forall₂_map_left_iff, List.forall₂_same]
  exact fun f hf => ⟨rfl, rfl, exactLocation_locate (nameAt_instances hf) path⟩

/-- The names of a module and of its instance touch comments that repeat them. -/
theorem locations_exact_between_comments :
    let t : Text := "/* m */module m// m\n(); s /* u */\n  u/* u */(); endmodule"
    let m : Module := { name := "m", file := "a.v", location := ⟨"a.v", 0, 14, 1⟩
                        instances := [⟨"s", "u", ⟨"a.v", 2, 2, 1⟩, "a.v"⟩] }
    readModule t "a.v" = some m ∧ OutsideComments t "m" 14 ∧ OutsideComments t "u" 36 := by
  intro t m
  have hm : readModule t "a.v" = some m := by decide +kernel
  obtain ⟨heading, -, -, hmodule, hinstances⟩ := locations_exact hm
  obtain ⟨f, -, ⟨-, -, hinstance⟩, -⟩ := List.forall₂_cons_left_iff.1 hinstances
  have hm14 : offsetAt t 0 14 = 14 := by decide +kernel
  have hu36 : offsetAt t 2 2 = 36 := by decide +kernel
  refine ⟨hm, ?_, ?_⟩
  · rw [← hm14, hmodule.offset_eq]
    exact hmodule.outside
  · rw [← hu36, hinstance.offset_eq]
    exact hinstance.outside

end VerilogIndex.Source
