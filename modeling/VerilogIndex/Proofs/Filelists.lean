import VerilogIndex.Proofs.Classification
import VerilogIndex.Proofs.Places

/-!
# Filelists, line by line

After a line feed nothing of what stood before it matters: no character is begun, no return waits
for its feed, and no line has begun. So the lines of a file that goes on after a line feed are those
up to there, and then those of the rest (`Disk.lines_textOf_append`). Each line of a filelist names
a source file or not, whatever the other lines are (`Filelist.resolve_fst`). Main statement: two
filelists one after the other name what the first one names, and then what only the second one does;
what a filelist names are the source files on its lines, each once (`Filelist.resolve_append`).
-/

namespace VerilogIndex

theorem hasExtension_iff {extensions : List Text} {name : Text} :
    hasExtension extensions name = true ↔ ∃ e ∈ extensions, Text.lower e <:+ Text.lower name := by
  simp only [hasExtension, List.any_eq_true, List.isSuffixOf_iff_suffix]

namespace Text

/-! ## Line feeds -/

namespace Utf8

/-- No byte below those of longer characters goes on with a character that is begun. -/
def Begun.High (g : Begun) : Prop := 0x80 ≤ g.least

theorem high_of_start {b : UInt8} {g : Begun} (h : (start b).2 = some g) : g.High := by
  have hfirst : ∀ n, (first n).2 = some g → g.High := fun n hn => by
    unfold first at hn
    split_ifs at hn <;> cases hn <;> simp [Begun.High]
  unfold start at h
  split at h
  · cases h
  · rename_i g' heq
    cases h
    exact hfirst _ (by rw [heq])
  · cases h

theorem high_of_step {g g' : Begun} {b : UInt8} (h : (step g b).2 = some g') : g'.High := by
  unfold step at h
  dsimp only at h
  split_ifs at h
  · cases h
    exact le_refl _
  · exact high_of_start h

/-- A line feed is read as such, and ends what is begun. -/
theorem decodeFrom_feed (x : Bytes) : ∀ {g : Option Begun}, (∀ g' ∈ g, g'.High) →
    ∃ cs, ∀ y, decodeFrom g (x ++ 10 :: y) = cs ++ some '\n' :: decodeFrom none y := by
  have hfeed : start 10 = ([some '\n'], none) := rfl
  induction x with
  | nil =>
    rintro (_ | g) hg
    · exact ⟨[], fun y => by simp [decodeFrom, hfeed]⟩
    · have hlow : ¬(g.least ≤ (10 : UInt8).toNat ∧ (10 : UInt8).toNat ≤ g.greatest) := fun h => by
        have := (hg g rfl).trans h.1
        simp at this
      refine ⟨[none], fun y => ?_⟩
      simp only [List.nil_append, decodeFrom, step, if_neg hlow, hfeed]
      rfl
  | cons b x ih =>
    rintro (_ | g) hg
    · obtain ⟨cs, hcs⟩ := ih fun g' hg' => high_of_start hg'
      exact ⟨(start b).1 ++ cs, fun y => by rw [List.append_assoc, ← hcs]; rfl⟩
    · obtain ⟨cs, hcs⟩ := ih fun g' hg' => high_of_step hg'
      exact ⟨(step g b).1 ++ cs, fun y => by rw [List.append_assoc, ← hcs]; rfl⟩

end Utf8

/-- A line feed that follows a return is the line feed that the return became. -/
theorem unifyBreaksFrom_feed (x : Text) : ∀ returned : Bool, ∃ z, ∀ y,
    (if returned then ['\n'] else []) ++ unifyBreaksFrom returned (x ++ '\n' :: y) =
      z ++ '\n' :: unifyBreaks y := by
  induction x with
  | nil =>
    rintro (_ | _)
    · exact ⟨[], fun y => rfl⟩
    · exact ⟨[], fun y => rfl⟩
  | cons c x ih =>
    intro returned
    obtain ⟨z, hz⟩ := ih (c == '\r')
    by_cases hc : c = '\r'
    · subst hc
      refine ⟨(if returned then ['\n'] else []) ++ z, fun y => ?_⟩
      rw [List.append_assoc, ← hz]
      rfl
    · have hfalse : (c == '\r') = false := by simpa using hc
      simp only [hfalse, Bool.false_eq_true, if_false, List.nil_append] at hz
      by_cases hfeed : returned ∧ c = '\n'
      · refine ⟨(if returned then ['\n'] else []) ++ z, fun y => ?_⟩
        rw [List.append_assoc, ← hz, List.cons_append, unifyBreaksFrom, if_neg hc, if_pos hfeed]
      · refine ⟨(if returned then ['\n'] else []) ++ c :: z, fun y => ?_⟩
        rw [List.append_assoc, List.cons_append, unifyBreaksFrom, if_neg hc, if_neg hfeed, hz]
        rfl

/-- After a line feed a new line begins; right after a return none has begun. -/
theorem linesFrom_feed (x : Text) : ∀ (returned : Bool) (begun : Text),
    (returned = true → begun = []) →
    ∃ ls, ∀ y, linesFrom returned begun (x ++ '\n' :: y) = ls ++ lines y := by
  induction x with
  | nil =>
    rintro (_ | _) begun hbegun
    · exact ⟨[begun.reverse], fun y => rfl⟩
    · rw [hbegun rfl]
      exact ⟨[], fun y => rfl⟩
  | cons c x ih =>
    intro returned begun hbegun
    simp only [List.cons_append, linesFrom]
    split_ifs with hfeed hbreak
    · exact ih false begun (by simp)
    · obtain ⟨ls, hls⟩ := ih (c == '\r') [] fun _ => rfl
      exact ⟨begun.reverse :: ls, fun y => by rw [hls, List.cons_append]⟩
    · exact ih false (c :: begun) (by simp)

/-! ## The first occurrence -/

/-- The first place at which `needle` stands in the text. -/
def IsFirst (needle t : Text) (n : Nat) : Prop :=
  needle <+: t.drop n ∧ ∀ m < n, ¬needle <+: t.drop m

theorem find?_eq_some_iff {needle : Text} : ∀ {t : Text} {n : Nat},
    find? needle t = some n ↔ IsFirst needle t n
  | [], n => by
    rcases n with _ | n
    · cases needle <;> simp [find?, IsFirst]
    · cases needle
      · simpa [find?, IsFirst] using ⟨0, n.zero_le⟩
      · simp [find?, IsFirst]
  | c :: r, n => by
    rw [find?]
    split_ifs with h
    · rw [List.isPrefixOf_iff_prefix] at h
      rcases n with _ | n
      · simp [IsFirst, h]
      · simpa [IsFirst] using fun _ => ⟨0, n.zero_le, h⟩
    · rw [List.isPrefixOf_iff_prefix] at h
      rcases n with _ | n
      · simp [IsFirst, h]
      · simp only [Option.map_eq_some_iff, Nat.add_right_cancel_iff, exists_eq_right, IsFirst,
          find?_eq_some_iff, List.drop_succ_cons, Nat.forall_lt_succ_left, List.drop_zero, h,
          not_false_eq_true, true_and]

theorem find?_eq_none_iff {needle : Text} : ∀ {t : Text},
    find? needle t = none ↔ ¬needle <:+: t
  | [] => by cases needle <;> simp [find?]
  | c :: r => by
    rw [find?, List.infix_cons_iff, ← List.isPrefixOf_iff_prefix]
    split_ifs with h
    · simp [h]
    · simp [h, find?_eq_none_iff]

end Text

namespace Path

theorem isAbsolute_dirName {p : Text} (hp : isAbsolute p = true) :
    isAbsolute (dirName p) = true := by
  rw [isAbsolute, beq_iff_eq] at hp ⊢
  rcases dirName_cases p with ⟨-, hbase⟩ | ⟨k, hsplit, ⟨hne, -⟩ | ⟨j, hslashes, -⟩⟩
  · exact absurd (List.mem_of_head? hp) (hbase ▸ not_mem_baseName p)
  · rw [hsplit, List.append_assoc, List.head?_append_of_ne_nil _ hne] at hp
    exact hp
  · rw [hslashes]
    rfl

end Path

namespace Disk

open Text.Utf8

variable {d : Disk} {p : Text}

theorem isFile_iff_bytes : d.isFile p = true ↔ ∃ content, d.bytes p = .ok content := by
  simp only [bytes_eq_ok_iff]
  rw [isFile]
  split <;> simp_all

/-- What follows a line feed is read by itself. -/
theorem lines_textOf_append {a : Bytes} (ha : a = [] ∨ a.getLast? = some 10) (b : Bytes) :
    Text.lines (textOf (a ++ b)) = Text.lines (textOf a) ++ Text.lines (textOf b) := by
  rcases ha with rfl | ha
  · rfl
  obtain ⟨x, rfl⟩ := List.getLast?_eq_some_iff.1 ha
  obtain ⟨cs, hdecode⟩ := decodeFrom_feed x (g := none) (by simp)
  obtain ⟨z, hunify⟩ := Text.unifyBreaksFrom_feed (cs.map (·.getD '�')) false
  obtain ⟨ls, hlines⟩ := Text.linesFrom_feed z false [] (by simp)
  have hall : ∀ y, Text.lines (textOf (x ++ 10 :: y)) = ls ++ Text.lines (textOf y) := by
    intro y
    rw [← hlines, textOf, decodeLossy, hdecode, List.map_append, List.map_cons]
    exact congrArg Text.lines (hunify _)
  rw [List.append_assoc, List.singleton_append, hall, hall [], List.append_assoc]
  rfl

end Disk

namespace Filelist

/-- The path `e` stands on a line that is no comment and no flag: it is what comes before the first
`//`, without the blanks around it, and there is no variable in it. -/
structure Names (line e : Text) : Prop where
  lead : ∀ l ∈ (["//", "#", "*", "+", "-"] : List Text), ¬l <+: Text.trim line
  path : ¬"//".toList <:+: Text.trim line ∧ e = Text.trim line
    ∨ ∃ n, Text.IsFirst "//" (Text.trim line) n ∧ e = Text.trim ((Text.trim line).take n)
  ne_nil : e ≠ []
  no_variable : '$' ∉ e

theorem startsWithAny_eq_false {leads : List Text} {t : Text} :
    startsWithAny leads t = false ↔ ∀ l ∈ leads, ¬l <+: t := by
  simp [startsWithAny]

/-- What comes before the first `//`. -/
theorem path_iff {t e : Text} : (¬"//".toList <:+: t ∧ e = t
      ∨ ∃ n, Text.IsFirst "//" t n ∧ e = Text.trim (t.take n)) ↔
    e = (Text.find? "//" t).elim t fun n => Text.trim (t.take n) := by
  simp only [← Text.find?_eq_some_iff, ← Text.find?_eq_none_iff]
  rcases Text.find? "//" t with _ | n <;> simp

theorem entry?_eq_some_iff {line e : Text} : entry? line = some e ↔
    (∀ l ∈ (["//", "#", "*", "+", "-"] : List Text), ¬l <+: Text.trim line)
      ∧ e = ((Text.find? "//" (Text.trim line)).elim (Text.trim line) fun n =>
        Text.trim ((Text.trim line).take n)) ∧ e ≠ [] := by
  have hsome : ∀ path : Text, (if path.isEmpty then none else some path) = some e ↔
      e = path ∧ e ≠ [] := fun path => by
    rcases path with _ | ⟨c, path⟩
    · simp
    · simpa [eq_comm] using fun h => h ▸ List.cons_ne_nil c path
  rw [← startsWithAny_eq_false, entry?]
  generalize Text.trim line = t
  rcases hlead : startsWithAny ["//", "#", "*", "+", "-"] t with _ | _
  · rcases t with _ | ⟨c, t⟩
    · constructor
      · rintro ⟨⟩
      · rintro ⟨-, he, hne⟩
        exact absurd he hne
    · simp only [List.isEmpty_cons, Bool.or_self, Bool.false_eq_true, if_false, true_and]
      rcases Text.find? "//" (c :: t) with _ | n
      · exact hsome _
      · exact hsome _
  · simp

theorem names_iff {line e : Text} : Names line e ↔ entry? line = some e ∧ '$' ∉ e := by
  rw [entry?_eq_some_iff, ← path_iff]
  constructor
  · rintro ⟨hlead, hpath, hne, hvariable⟩
    exact ⟨⟨hlead, hpath, hne⟩, hvariable⟩
  · rintro ⟨⟨hlead, hpath, hne⟩, hvariable⟩
    exact ⟨hlead, hpath, hne, hvariable⟩

section Resolve

variable {d : Disk} {extensions : List Text} {p dir : Text}

/-- The source file that a line names, in a filelist of the folder `dir`. -/
def sourceOf (d : Disk) (extensions : List Text) (dir line : Text) : Option Text :=
  (lineOf d extensions [] dir (0, line)).1

theorem lineOf_fst (x : Nat × Text) :
    (lineOf d extensions p dir x).1 = sourceOf d extensions dir x.2 := by
  simp only [sourceOf, lineOf]
  split
  · rfl
  · split_ifs <;> rfl

theorem sourceOf_eq_some_iff {line q : Text} : sourceOf d extensions dir line = some q ↔
    ∃ e, Names line e ∧ q = Path.normalise (Path.join dir e) ∧ d.isFile q = true
      ∧ hasExtension extensions q = true := by
  simp only [names_iff, sourceOf, lineOf]
  rcases entry? line with _ | e
  · simp
  · by_cases he : '$' ∈ e
    · simp [he]
    · simp only [he, if_false]
      split_ifs with h
      · rw [Bool.and_eq_true] at h
        constructor
        · rintro ⟨⟩
          exact ⟨e, ⟨rfl, he⟩, rfl, h⟩
        · rintro ⟨_, ⟨⟨⟩, -⟩, rfl, -⟩
          rfl
      · rw [Bool.and_eq_true] at h
        constructor
        · rintro ⟨⟩
        · rintro ⟨_, ⟨⟨⟩, -⟩, rfl, hq⟩
          exact absurd hq h

theorem resolve_fst {content : Text.Utf8.Bytes} (h : d.bytes p = .ok content) :
    (resolve d extensions p).1 = Text.distinct ((Text.lines (Disk.textOf content)).filterMap
      (sourceOf d extensions (Path.dirName (d.absolute p)))) := by
  have hfile : d.isFile p = true := Disk.isFile_iff_bytes.2 ⟨content, h⟩
  rw [resolve, if_neg (by simp [hfile]), Disk.text_of_bytes h]
  have hfun : (fun x => x.1) ∘ lineOf d extensions p (Path.dirName (d.absolute p)) =
      sourceOf d extensions (Path.dirName (d.absolute p)) ∘ Prod.snd := funext lineOf_fst
  simp only [List.filterMap_map]
  rw [hfun, ← List.filterMap_map, List.map_snd_zip (by simp)]

theorem resolve_fst_of_not_isFile (h : d.isFile p = false) : (resolve d extensions p).1 = [] := by
  rw [resolve, if_pos (by simp [h])]

theorem mem_resolve_iff {q : Text} : q ∈ (resolve d extensions p).1 ↔
    ∃ content, d.bytes p = .ok content ∧ ∃ line ∈ Text.lines (Disk.textOf content), ∃ e,
      Names line e ∧ q = Path.normalise (Path.join (Path.dirName (d.absolute p)) e)
        ∧ d.isFile q = true ∧ hasExtension extensions q = true := by
  simp only [← sourceOf_eq_some_iff, ← List.mem_filterMap]
  rcases hfile : d.isFile p with _ | _
  · rw [resolve_fst_of_not_isFile hfile]
    simp only [List.not_mem_nil, false_iff]
    rintro ⟨content, h, -⟩
    rw [Disk.isFile_iff_bytes.2 ⟨content, h⟩] at hfile
    cases hfile
  · obtain ⟨content, h⟩ := Disk.isFile_iff_bytes.1 hfile
    rw [resolve_fst h, Text.mem_distinct]
    simp [h]

theorem nodup_resolve : (resolve d extensions p).1.Nodup := by
  rcases hfile : d.isFile p with _ | _
  · rw [resolve_fst_of_not_isFile hfile]
    exact List.nodup_nil
  · obtain ⟨content, h⟩ := Disk.isFile_iff_bytes.1 hfile
    rw [resolve_fst h]
    exact Text.nodup_distinct _

end Resolve

/-- A filelist that goes on with another one of its folder after a line feed, or from the start,
names what the first one names, and then what the second one names besides, both in order. What a
filelist names is, each once, the files on its lines that have one of the extensions, by their
absolute and normalised paths, seen from the folder of the filelist; a line that is a comment or a
flag, or has a variable on it, has no file on it. -/
theorem resolve_append {d : Disk} (hh : Path.isAbsolute d.here = true) (extensions : List Text)
    {pa pb pab dir : Text} {a b : Text.Utf8.Bytes} (ha : d.bytes pa = .ok a)
    (hb : d.bytes pb = .ok b) (hab : d.bytes pab = .ok (a ++ b))
    (hdir : ∀ p ∈ [pa, pb, pab], Path.dirName (d.absolute p) = dir)
    (hend : a = [] ∨ a.getLast? = some 10) :
    (resolve d extensions pab).1 = (resolve d extensions pa).1
        ++ (resolve d extensions pb).1.filter (· ∉ (resolve d extensions pa).1)
      ∧ ∀ p, (resolve d extensions p).1.Nodup ∧ ∀ q, q ∈ (resolve d extensions p).1 ↔
        Path.isAbsolute q = true ∧ Path.normalise q = q ∧ d.isFile q = true
          ∧ (∃ e ∈ extensions, Text.lower e <:+ Text.lower q)
          ∧ ∃ content, d.bytes p = .ok content ∧ ∃ line ∈ Text.lines (Disk.textOf content), ∃ e,
            Names line e ∧ q = Path.normalise (Path.join (Path.dirName (d.absolute p)) e) := by
  refine ⟨?_, fun p => ⟨nodup_resolve, fun q => ?_⟩⟩
  · rw [resolve_fst ha, resolve_fst hb, resolve_fst hab, hdir pa (by simp), hdir pb (by simp),
      hdir pab (by simp), Disk.lines_textOf_append hend, List.filterMap_append,
      Text.distinct_append]
    exact congrArg _ (List.filter_congr fun q _ => decide_eq_decide.2 Iff.rfl)
  · rw [mem_resolve_iff, ← hasExtension_iff]
    constructor
    · rintro ⟨content, hcontent, line, hline, e, he, hq, hfile, hextension⟩
      have habsolute : Path.isAbsolute (Path.dirName (d.absolute p)) = true :=
        Path.isAbsolute_dirName (Path.isAbsolute_absolute hh p)
      refine ⟨?_, ?_, hfile, hextension, content, hcontent, line, hline, e, he, hq⟩
      · rw [hq]
        exact Path.isAbsolute_absolute habsolute e
      · rw [hq]
        exact Path.normalise_absolute habsolute e
    · rintro ⟨-, -, hfile, hextension, content, hcontent, line, hline, e, he, hq⟩
      exact ⟨content, hcontent, line, hline, e, he, hq, hfile, hextension⟩

/-- A file that the first list names with a comment after it, and the second one in another way,
after a flag. -/
theorem resolve_append_spellings :
    let d₀ : Disk := ⟨[], "/w"⟩
    let a := Text.Utf8.encode "x.v // top\n"
    let b := Text.Utf8.encode "+incdir+lib\r\n./lib/../x.v\nlib/y.SV"
    let d := ((((d₀.putFile "/w/x.v" []).putFile "/w/lib/y.SV" []).putFile "/w/a.f" a).putFile
      "/w/b.f" b).putFile "/w/ab.f" (a ++ b)
    let files := fun p => (resolve d [".v", ".sv"] p).1
    Path.isAbsolute d.here = true ∧ d.bytes "a.f" = .ok a ∧ d.bytes "b.f" = .ok b
      ∧ d.bytes "ab.f" = .ok (a ++ b) ∧ (a = [] ∨ a.getLast? = some 10)
      ∧ (∀ p ∈ (["a.f", "b.f", "ab.f"] : List Text), Path.dirName (d.absolute p) = "/w".toList)
      ∧ files "ab.f" = files "a.f" ++ (files "b.f").filter (· ∉ files "a.f")
      ∧ "/w/x.v".toList ∈ files "a.f" ∧ "/w/x.v".toList ∈ files "b.f" := by
  intro d₀ a b d files
  have hh : Path.isAbsolute d.here = true := rfl
  have ha : d.bytes "a.f" = .ok a := rfl
  have hb : d.bytes "b.f" = .ok b := rfl
  have hab : d.bytes "ab.f" = .ok (a ++ b) := rfl
  have hdir : ∀ p ∈ (["a.f", "b.f", "ab.f"] : List Text),
      Path.dirName (d.absolute p) = "/w".toList := by
    simp only [List.forall_mem_cons]
    exact ⟨rfl, rfl, rfl, by simp⟩
  have hend : a.getLast? = some 10 := rfl
  have hx : d.isFile "/w/x.v" = true := rfl
  have hlinea : "x.v // top".toList ∈ Text.lines (Disk.textOf a) := by decide +kernel
  have hlineb : "./lib/../x.v".toList ∈ Text.lines (Disk.textOf b) := by decide +kernel
  have hnamesa : Names "x.v // top" "x.v" := names_iff.2 ⟨rfl, by decide⟩
  have hnamesb : Names "./lib/../x.v" "./lib/../x.v" := names_iff.2 ⟨rfl, by decide⟩
  clear_value a b d
  obtain ⟨happend, hfiles⟩ := resolve_append hh [".v", ".sv"] ha hb hab hdir (.inr hend)
  refine ⟨hh, ha, hb, hab, .inr hend, hdir, happend, ((hfiles _).2 _).2 ?_, ((hfiles _).2 _).2 ?_⟩
  · refine ⟨rfl, rfl, hx, ⟨_, List.mem_cons_self, by decide⟩, a, ha, _, hlinea, _, hnamesa, ?_⟩
    rw [hdir _ (by simp)]
    rfl
  · refine ⟨rfl, rfl, hx, ⟨_, List.mem_cons_self, by decide⟩, b, hb, _, hlineb, _, hnamesb, ?_⟩
    rw [hdir _ (by simp)]
    rfl

end Filelist

end VerilogIndex
