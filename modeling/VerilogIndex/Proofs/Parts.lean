import VerilogIndex.Proofs.Written

/-!
# Declarations in parts

An item of a port or parameter block is made of words and bracketed groups: a type in parts, the
name, groups after the name, and perhaps a value behind an equals sign (`WrittenItem`). Blanks may
stand between any two of them, and may be missing where the two stay apart without.

The name is the identifier that only groups follow. It is found by passing over the parts before it:
a word or the name itself follows each identifier there, or the bracket that closes its group
(`declaredNameFrom?_parts`). It is also the last identifier outside of groups
(`getLast?_identifiers`). The parts of the type end up one space apart, whether or not blanks stood
before its groups, and the blanks in a group collapse (`typeText_parts`).
-/

namespace VerilogIndex.Source

open Text

/-! ## Words -/

theorem startsWord_append {g t : Text} (hg : Gap g) (ht : g = [] → startsWord t = false) :
    startsWord (g ++ t) = false := by
  rcases g with _ | ⟨c, g⟩
  · exact ht rfl
  · exact not_isWord_of_isBlank (hg c List.mem_cons_self)

theorem startsWord_trimRight {t : Text} (ht : startsWord t = false) :
    startsWord (trimRight t) = false := by
  rcases t with _ | ⟨c, t⟩
  · rfl
  · rw [trimRight_cons]
    split_ifs
    · rfl
    · exact ht

theorem dropWhile_of_not_startsWord {r : Text} (hr : startsWord r = false) :
    r.dropWhile isWord = r := by
  rcases r with _ | ⟨c, r⟩
  · rfl
  · exact List.dropWhile_cons_of_neg (Bool.eq_false_iff.1 hr)

/-- A word ends where no word character follows it. -/
theorem takeWhile_isWord_append {w r : Text} (hw : ∀ c ∈ w, isWord c = true)
    (hr : startsWord r = false) : (w ++ r).takeWhile isWord = w := by
  have hnil : r.takeWhile isWord = [] := by
    rcases r with _ | ⟨c, r⟩
    · rfl
    · exact List.takeWhile_cons_of_neg (Bool.eq_false_iff.1 hr)
  rw [List.takeWhile_append_of_pos hw, hnil, List.append_nil]

theorem identifier?_append {name r : Text} (hn : isIdentifier name = true)
    (hr : startsWord r = false) : identifier? (name ++ r) = some (name, r) := by
  obtain ⟨c, w, rfl⟩ := List.exists_cons_of_ne_nil (ne_nil_of_isIdentifier hn)
  rw [isIdentifier, Bool.and_eq_true, List.all_eq_true] at hn
  rw [List.cons_append, identifier?, if_pos hn.1, takeWhile_isWord_append hn.2 hr,
    List.dropWhile_append_of_pos hn.2, dropWhile_of_not_startsWord hr]

theorem startsWord_dropWhile (t : Text) : startsWord (t.dropWhile isWord) = false := by
  rcases hd : t.dropWhile isWord with _ | ⟨d, r⟩
  · rfl
  · have := List.head_dropWhile_not isWord (l := t) (by simp [hd])
    simp only [hd, List.head_cons] at this
    exact this

theorem identifier?_eq_some_iff {t name r : Text} : identifier? t = some (name, r) ↔
    t = name ++ r ∧ isIdentifier name = true ∧ startsWord r = false := by
  constructor
  · intro h
    have hn := isIdentifier_of_identifier? h
    rcases t with _ | ⟨c, t⟩
    · simp [identifier?] at h
    rw [identifier?] at h
    split_ifs at h
    obtain ⟨rfl, rfl⟩ := Prod.mk.inj (Option.some.inj h)
    exact ⟨by rw [List.cons_append, List.takeWhile_append_dropWhile], hn, startsWord_dropWhile t⟩
  · rintro ⟨rfl, hn, hr⟩
    exact identifier?_append hn hr

/-- The text ends in a word character; `glued` if one precedes it. -/
def endsWord : (glued : Bool) → Text → Bool
  | glued, [] => glued
  | _, c :: t => endsWord (isWord c) t

theorem endsWord_append (a b : Text) :
    ∀ glued, endsWord glued (a ++ b) = endsWord (endsWord glued a) b := by
  induction a with
  | nil => exact fun _ => rfl
  | cons c a ih => exact fun _ => ih _

theorem endsWord_false {glued : Bool} {t : Text} (h : endsWord glued t = false) :
    endsWord false t = false := by
  cases t with
  | nil => rfl
  | cons c t => exact h

theorem endsWord_gap {g : Text} (hg : Gap g) : endsWord false g = false := by
  induction g with
  | nil => rfl
  | cons c g ih =>
    rw [endsWord, not_isWord_of_isBlank (hg c List.mem_cons_self)]
    exact ih fun d hd => hg d (List.mem_cons_of_mem _ hd)

theorem endsWord_concat (glued : Bool) (a : Text) (c : Char) :
    endsWord glued (a ++ [c]) = isWord c :=
  endsWord_append a [c] glued

/-- A word is no keyword but itself. -/
theorem afterKeyword?_eq_none {k w r : Text} (hk : ∀ c ∈ k, isWord c = true)
    (hw : ∀ c ∈ w, isWord c = true) (hr : startsWord r = false) (hne : w ≠ k) :
    afterKeyword? k (w ++ r) = none := by
  rw [afterKeyword?, Option.filter_eq_none_iff]
  intro s hs
  rw [after?_eq_some_iff] at hs
  rw [Bool.not_eq_true, Bool.not_eq_false']
  by_contra hword
  rw [Bool.not_eq_true] at hword
  have heq := takeWhile_isWord_append hw hr
  rw [hs, takeWhile_isWord_append hk hword] at heq
  exact hne heq.symm

theorem cut_of_not_mem {c : Char} {t : Text} (h : c ∉ t) : cut c t = (t, none) := by
  have hall : ∀ d ∈ t, (d != c) = true := fun d hd => bne_iff_ne.2 fun he => h (he ▸ hd)
  rw [cut, List.dropWhile_eq_nil_iff.2 hall]

theorem cut_append {c : Char} {a : Text} (h : c ∉ a) (b : Text) :
    cut c (a ++ c :: b) = (a, some b) := by
  have hall : ∀ d ∈ a, (d != c) = true := fun d hd => bne_iff_ne.2 fun he => h (he ▸ hd)
  rw [cut, List.dropWhile_append_of_pos hall, List.takeWhile_append_of_pos hall]
  simp

/-! ## Texts -/

/-- What stands between the brackets of a group. -/
structure Bracketed where
  inside : Text
  nested : Nested true inside
  plain : ∀ c ∈ ['[', ']', '='], c ∉ inside

/-- Brackets around a text without brackets and equals signs. -/
def Bracketed.ofPlain (r : Text) (h : r.any isBracket = false) (he : '=' ∉ r) : Bracketed where
  inside := r
  nested := .of_plain (by simpa using h)
  plain := by
    have hbracket : ∀ c, isBracket c = true → c ∉ r := fun c hc hmem =>
      List.any_eq_false.1 h c hmem hc
    simp [hbracket '[' (by decide), hbracket ']' (by decide), he]

inductive Part where
  | word (name : Identifier)
  | group (content : Bracketed)

/-- What stands before a place in a declaration. -/
inductive Edge where
  | start
  | word
  | group

namespace Part

def text : Part → Text
  | word w => w.1
  | group b => '[' :: (b.inside ++ [']'])

/-- The part as a type shows it. -/
def shown : Part → Text
  | word w => w.1
  | group b => '[' :: (collapse b.inside ++ [']'])

/-- What stands before the place right after the part. -/
def edge : Part → Edge
  | word _ => .word
  | group _ => .group

end Part

/-- The type that a declaration with these parts shows. -/
def shownType (parts : List Part) : Text := joinWith [' '] (parts.map Part.shown)

/-- The parts of a declaration up to the name that follows. -/
inductive WrittenParts : Edge → List Part → Text → Prop
  | nil {edge : Edge} {g : Text} (hg : Gap g) (hne : edge = .word → g ≠ []) :
      WrittenParts edge [] g
  | cons {edge : Edge} {g t : Text} {p : Part} {parts : List Part} (hg : Gap g)
      (hne : edge ≠ .start → p.edge = .word → g ≠ []) (ht : WrittenParts p.edge parts t) :
      WrittenParts edge (p :: parts) (g ++ (p.text ++ t))

/-- The groups after a name. -/
inductive WrittenGroups : Text → Prop
  | nil {g : Text} (hg : Gap g) : WrittenGroups g
  | cons {g t : Text} (hg : Gap g) (b : Bracketed) (ht : WrittenGroups t) :
      WrittenGroups (g ++ ((Part.group b).text ++ t))

/-- What follows a name: groups, and perhaps a value. -/
inductive WrittenTail : (value : Option Text) → Text → Prop
  | plain {u : Text} (hu : WrittenGroups u) : WrittenTail none u
  | valued {u : Text} (hu : WrittenGroups u) (v : Text) : WrittenTail (some v) (u ++ '=' :: v)

/-- An item with these parts before its name. A value ends at the comma after it. -/
inductive WrittenItem (parts : List Part) (name : Identifier) (value : Option Text) : Text → Prop
  | mk {t w : Text} (ht : WrittenParts .start parts t) (hw : WrittenTail value w)
      (hv : ∀ v ∈ value, Nested false v) : WrittenItem parts name value (t ++ (name.1 ++ w))

/-! ## Single parts -/

namespace Part

variable (p : Part)

theorem exists_cons : ∃ c r, p.text = c :: r ∧ isBlank c = false := by
  cases p with
  | word w =>
    obtain ⟨c, r, hw⟩ := List.exists_cons_of_ne_nil (ne_nil_of_isIdentifier w.2)
    exact ⟨c, r, hw, not_isBlank_of_isWord (isWord_of_isIdentifier w.2 c (by simp [hw]))⟩
  | group b => exact ⟨'[', b.inside ++ [']'], rfl, by decide⟩

theorem exists_concat : ∃ a e, p.text = a ++ [e] ∧ isBlank e = false := by
  cases p with
  | word w =>
    obtain ⟨a, e, hw⟩ := (List.eq_nil_or_concat' w.1).resolve_left (ne_nil_of_isIdentifier w.2)
    exact ⟨a, e, hw, not_isBlank_of_isWord (isWord_of_isIdentifier w.2 e (by simp [hw]))⟩
  | group b => exact ⟨'[' :: b.inside, ']', rfl, by decide⟩

theorem trimLeft_append (t : Text) : trimLeft (p.text ++ t) = p.text ++ t := by
  obtain ⟨c, r, hp, hc⟩ := p.exists_cons
  rw [hp, List.cons_append, trimLeft_cons hc]

theorem trimRight_append (a t : Text) :
    trimRight (a ++ (p.text ++ t)) = a ++ (p.text ++ trimRight t) := by
  obtain ⟨b, e, hp, he⟩ := p.exists_concat
  have := trimRight_append_cons (a ++ b) he t
  simpa [hp] using this

theorem trim_append (t : Text) : trim (p.text ++ t) = p.text ++ trimRight t := by
  rw [trim, trimLeft_append]
  exact p.trimRight_append [] t

theorem nested : Nested false p.text := by
  cases p with
  | word w => exact (Bare.of_isIdentifier w.2).nested
  | group b => exact .group .square b.nested .nil

theorem not_mem_equals : '=' ∉ p.text := by
  cases p with
  | word w => exact (Bare.of_isIdentifier w.2).not_mem _ (by decide)
  | group b => simp [text, b.plain '=' (by decide)]

end Part

theorem startsWord_part {p : Part} (hp : p.edge ≠ .word) (t : Text) :
    startsWord (p.text ++ t) = false := by
  cases p with
  | word => exact absurd rfl hp
  | group => rfl

/-! ## Brackets, equals signs and blanks at the ends -/

namespace WrittenParts

variable {edge : Edge} {p : Part} {parts : List Part} {t : Text}

theorem nested (h : WrittenParts edge parts t) : Nested false t := by
  induction h with
  | nil hg _ => exact (Bare.of_gap hg).nested
  | @cons _ _ _ p _ hg _ _ ih => exact (Bare.of_gap hg).nested.append (p.nested.append ih)

theorem not_mem_equals (h : WrittenParts edge parts t) : '=' ∉ t := by
  induction h with
  | nil hg _ => exact (Bare.of_gap hg).not_mem _ (by decide)
  | @cons _ _ _ p _ hg _ _ ih =>
    simp [(Bare.of_gap hg).not_mem '=' (by decide), p.not_mem_equals, ih]

theorem startsWord (h : WrittenParts .word parts t) (u : Text) : startsWord (t ++ u) = false := by
  cases h with
  | nil hg hne => exact startsWord_append hg fun he => absurd he (hne rfl)
  | cons hg hne _ =>
    rw [List.append_assoc, List.append_assoc]
    refine startsWord_append hg fun he => startsWord_part (fun hp => ?_) _
    exact hne (by simp) hp he

theorem trimLeft_of_nil (h : WrittenParts edge [] t) : trimLeft t = [] := by
  cases h with
  | nil hg _ => exact List.dropWhile_eq_nil_iff.2 hg

theorem trimLeft_of_cons (h : WrittenParts edge (p :: parts) t) :
    ∃ u, trimLeft t = p.text ++ u ∧ WrittenParts p.edge parts u := by
  cases h with
  | @cons _ _ u _ _ hg _ ht =>
    exact ⟨u, (Text.trimLeft_append hg).trans (p.trimLeft_append u), ht⟩

/-- Without the blanks before them, the parts stand as at the start of an item. -/
theorem trimLeft (h : WrittenParts edge parts t) : WrittenParts .start parts (trimLeft t) := by
  cases parts with
  | nil =>
    rw [h.trimLeft_of_nil]
    exact .nil (by simp [Gap]) (by simp)
  | cons p parts =>
    obtain ⟨u, hu, ht⟩ := h.trimLeft_of_cons
    have hstart : WrittenParts .start (p :: parts) ([] ++ (p.text ++ u)) :=
      .cons (by simp [Gap]) (by simp) ht
    rwa [hu]

end WrittenParts

namespace WrittenGroups

variable {u : Text}

theorem nested (h : WrittenGroups u) : Nested false u := by
  induction h with
  | nil hg => exact (Bare.of_gap hg).nested
  | cons hg b _ ih => exact (Bare.of_gap hg).nested.append ((Part.group b).nested.append ih)

theorem not_mem_equals (h : WrittenGroups u) : '=' ∉ u := by
  induction h with
  | nil hg => exact (Bare.of_gap hg).not_mem _ (by decide)
  | cons hg b _ ih =>
    simp [(Bare.of_gap hg).not_mem '=' (by decide), (Part.group b).not_mem_equals, ih]

theorem startsWord (h : WrittenGroups u) {v : Text} (hv : startsWord v = false) :
    startsWord (u ++ v) = false := by
  cases h with
  | nil hg => exact startsWord_append hg fun _ => hv
  | cons hg b _ =>
    rw [List.append_assoc]
    exact startsWord_append hg fun _ => rfl

theorem trimRight (h : WrittenGroups u) : WrittenGroups (trimRight u) := by
  induction h with
  | nil hg =>
    rw [trimRight_gap hg]
    exact .nil (by simp [Gap])
  | cons hg b _ ih =>
    rw [(Part.group b).trimRight_append]
    exact .cons hg b ih

end WrittenGroups

namespace WrittenTail

variable {value : Option Text} {w : Text}

theorem startsWord (h : WrittenTail value w) : startsWord w = false := by
  cases h with
  | plain hu =>
    have := hu.startsWord (v := []) rfl
    rwa [List.append_nil] at this
  | valued hu v => exact hu.startsWord rfl

theorem nested (h : WrittenTail value w) (hv : ∀ v ∈ value, Nested false v) : Nested false w := by
  cases h with
  | plain hu => exact hu.nested
  | valued hu v => exact hu.nested.append (.plain rfl (by decide) (hv v rfl))

theorem trimRight (h : WrittenTail value w) :
    WrittenTail (value.map Text.trimRight) (trimRight w) := by
  cases h with
  | plain hu => exact .plain hu.trimRight
  | valued hu v =>
    rw [trimRight_append_cons _ (by decide)]
    exact .valued hu _

/-- The declaration before the first equals sign, and the value behind it. -/
theorem cut_eq (h : WrittenTail value w) {a : Text} (ha : '=' ∉ a) :
    ∃ u, WrittenGroups u ∧ cut '=' (a ++ w) = (a ++ u, value) := by
  cases h with
  | plain hu =>
    exact ⟨w, hu, cut_of_not_mem (by simp [ha, hu.not_mem_equals])⟩
  | @valued u hu v =>
    refine ⟨u, hu, ?_⟩
    rw [← List.append_assoc, cut_append (by simp [ha, hu.not_mem_equals])]

end WrittenTail

theorem trim_declaration (t : Text) (name : Identifier) (w : Text) :
    trim (t ++ (name.1 ++ w)) = trimLeft t ++ (name.1 ++ trimRight w) := by
  have hleft : trimLeft (t ++ (name.1 ++ w)) = trimLeft t ++ (name.1 ++ w) := by
    have hname : (name.1 ++ w).dropWhile isBlank = name.1 ++ w := (Part.word name).trimLeft_append w
    rw [trimLeft, List.dropWhile_append, hname]
    split_ifs with ht
    · rw [trimLeft, List.isEmpty_iff.1 ht, List.nil_append]
    · rfl
  rw [trim, hleft]
  exact (Part.word name).trimRight_append _ w

theorem not_mem_equals_name (name : Identifier) : '=' ∉ name.1 := (Part.word name).not_mem_equals

namespace WrittenItem

variable {parts : List Part} {name : Identifier} {value : Option Text} {x : Text}

theorem nested (h : WrittenItem parts name value x) : Nested false x := by
  obtain ⟨ht, hw, hv⟩ := h
  exact ht.nested.append ((Part.word name).nested.append (hw.nested hv))

theorem ne_nil (h : WrittenItem parts name value x) : x ≠ [] := by
  cases h
  simp [ne_nil_of_isIdentifier name.2]

/-- What stands before the value of an item, without the blanks around it. -/
theorem trim_cut (h : WrittenItem parts name value x) : ∃ t u, WrittenParts .start parts t
    ∧ WrittenGroups u ∧ trim (cut '=' x).1 = trimLeft t ++ (name.1 ++ u) := by
  obtain @⟨t, w, ht, hw, -⟩ := h
  obtain ⟨u, hu, hcut⟩ := hw.cut_eq (a := t ++ name.1) (by
    simp [ht.not_mem_equals, not_mem_equals_name])
  rw [List.append_assoc, List.append_assoc] at hcut
  exact ⟨t, trimRight u, ht, hu.trimRight, by rw [hcut, trim_declaration]⟩

end WrittenItem

/-! ## The opening word -/

/-- The word that an item opens with, unless it opens with a group. -/
def opening? : List Part → Identifier → Option Text
  | [], name => some name.1
  | .word w :: _, _ => some w.1
  | .group _ :: _, _ => none

/-- An item has no keyword but the word that it opens with. -/
theorem afterKeyword?_opening {k : Text} (hk : isIdentifier k = true) {edge : Edge}
    {parts : List Part} {t w : Text} (ht : WrittenParts edge parts t) {name : Identifier}
    (hw : startsWord w = false) (hne : opening? parts name ≠ some k) :
    afterKeyword? k (trimLeft t ++ (name.1 ++ w)) = none := by
  have hword := isWord_of_isIdentifier hk
  rcases parts with _ | ⟨v | b, parts⟩
  · rw [ht.trimLeft_of_nil, List.nil_append]
    exact afterKeyword?_eq_none hword (isWord_of_isIdentifier name.2) hw fun he => hne (he ▸ rfl)
  · obtain ⟨u, hu, ht⟩ := ht.trimLeft_of_cons
    rw [hu, List.append_assoc]
    exact afterKeyword?_eq_none hword (isWord_of_isIdentifier v.2) (ht.startsWord _)
      fun he => hne (he ▸ rfl)
  · obtain ⟨u, hu, -⟩ := ht.trimLeft_of_cons
    rw [hu, List.append_assoc]
    exact afterKeyword?_eq_none (w := []) (r := (Part.group b).text ++ _) hword (by simp) rfl
      (ne_nil_of_isIdentifier hk).symm

/-! ## The name -/

theorem onlyRanges_gap {g : Text} (hg : Gap g) (t : Text) :
    onlyRanges false (g ++ t) = onlyRanges false t := by
  induction g with
  | nil => rfl
  | cons c g ih =>
    rw [List.cons_append, onlyRanges, if_pos (hg c List.mem_cons_self),
      ih fun d hd => hg d (List.mem_cons_of_mem _ hd)]

theorem onlyRanges_eq_false {c : Char} (hb : isBlank c = false) (hc : c ≠ '[') (t : Text) :
    onlyRanges false (c :: t) = false := by
  rw [onlyRanges, if_neg (by simp [hb])]
  simp [hc]

theorem onlyRanges_inside {r : Text} (hr : ']' ∉ r) (t : Text) :
    onlyRanges true (r ++ ']' :: t) = onlyRanges false t := by
  induction r with
  | nil => simp [onlyRanges]
  | cons c r ih =>
    rw [List.mem_cons, not_or] at hr
    rw [List.cons_append, onlyRanges, bne_iff_ne.2 (Ne.symm hr.1), ih hr.2]

theorem onlyRanges_name {w : Text} (hw : isIdentifier w = true) (t : Text) :
    onlyRanges false (w ++ t) = false := by
  obtain ⟨c, w', rfl⟩ := List.exists_cons_of_ne_nil (ne_nil_of_isIdentifier hw)
  have hword := isWord_of_isIdentifier hw c List.mem_cons_self
  refine onlyRanges_eq_false (not_isBlank_of_isWord hword) ?_ _
  rintro rfl
  exact (Bare.of_isIdentifier hw).not_mem _ (by decide) List.mem_cons_self

theorem onlyRanges_group (b : Bracketed) (t : Text) :
    onlyRanges false ((Part.group b).text ++ t) = onlyRanges false t := by
  rw [Part.text, List.cons_append, List.append_assoc, List.singleton_append, onlyRanges,
    if_neg (by decide), onlyRanges_inside (b.plain _ (by decide))]
  rfl

/-- A bracket that closes no group is none of the groups. -/
theorem onlyRanges_unopened : ∀ {y : Text}, '[' ∉ y → ∀ t, onlyRanges false (y ++ ']' :: t) = false
  | [], _, t => onlyRanges_eq_false (by decide) (by decide) t
  | c :: y, h, t => by
    rw [List.mem_cons, not_or] at h
    rcases hc : isBlank c with _ | _
    · exact onlyRanges_eq_false hc (Ne.symm h.1) _
    · rw [List.cons_append, onlyRanges, if_pos hc, onlyRanges_unopened h.2 t]

theorem onlyRanges_within {y : Text} (hy : '[' ∉ y) (t : Text) :
    onlyRanges false ((y ++ ']' :: t).dropWhile isWord) = false := by
  induction y with
  | nil => exact onlyRanges_unopened hy t
  | cons c y ih =>
    rw [List.cons_append, List.dropWhile_cons]
    split_ifs
    · exact ih fun h => hy (List.mem_cons_of_mem c h)
    · exact onlyRanges_unopened hy t

theorem declaredNameFrom?_cons {c : Char} (hc : isIdentifierStart c = false) (before t : Text) :
    declaredNameFrom? before (c :: t) = declaredNameFrom? (c :: before) t := by
  rw [declaredNameFrom?, if_neg (by simp [hc])]

/-- A stretch is passed over if more than groups follows each identifier in it. -/
theorem declaredNameFrom?_append (u : Text) : ∀ {a : Text},
    (∀ c y, c :: y <:+ a → isIdentifierStart c = true →
      onlyRanges false ((y ++ u).dropWhile isWord) = false) →
    ∀ before, declaredNameFrom? before (a ++ u) = declaredNameFrom? (a.reverse ++ before) u
  | [], _, _ => rfl
  | c :: a, h, before => by
    have hskip : (isIdentifierStart c && onlyRanges false ((a ++ u).dropWhile isWord)) = false := by
      rcases hs : isIdentifierStart c with _ | _
      · rfl
      · exact h c a (List.suffix_refl _) hs
    rw [List.cons_append, declaredNameFrom?, if_neg (by simp [hskip]),
      declaredNameFrom?_append u fun d y hy => h d y (hy.trans (List.suffix_cons c a)),
      List.reverse_cons, List.append_assoc, List.singleton_append]

theorem declaredNameFrom?_gap {g : Text} (hg : Gap g) (before u : Text) :
    declaredNameFrom? before (g ++ u) = declaredNameFrom? (g.reverse ++ before) u := by
  refine declaredNameFrom?_append u (fun c y hy hs => ?_) before
  have hb := hg c (hy.subset List.mem_cons_self)
  rw [not_isBlank_of_isWord (isWord_of_isIdentifierStart hs)] at hb
  cases hb

/-- A part is passed over if more than groups follows it. -/
theorem declaredNameFrom?_part (p : Part) {u : Text} (hw : p.edge = .word → startsWord u = false)
    (hu : onlyRanges false u = false) (before : Text) :
    declaredNameFrom? before (p.text ++ u) = declaredNameFrom? (p.text.reverse ++ before) u := by
  cases p with
  | word w =>
    -- seen from any place in the word, what follows is what follows the word
    refine declaredNameFrom?_append u (fun c y hy _ => ?_) before
    have hword : ∀ d ∈ y, isWord d = true := fun d hd =>
      isWord_of_isIdentifier w.2 d (hy.subset (List.mem_cons_of_mem _ hd))
    rw [List.dropWhile_append_of_pos hword, dropWhile_of_not_startsWord (hw rfl), hu]
  | group b =>
    have hpass := declaredNameFrom?_append (']' :: u) (a := '[' :: b.inside) fun c y hy _ => by
      refine onlyRanges_within (fun hmem => ?_) u
      rcases List.suffix_cons_iff.1 hy with he | hs
      · exact b.plain '[' (by decide) ((List.cons.inj he).2 ▸ hmem)
      · exact b.plain '[' (by decide) (hs.subset (List.mem_cons_of_mem c hmem))
    have htext : (Part.group b).text ++ u = '[' :: b.inside ++ ']' :: u := by simp [Part.text]
    rw [htext, hpass, declaredNameFrom?_cons (by decide)]
    simp [Part.text]

theorem declaredNameFrom?_name {name u : Text} (hn : isIdentifier name = true)
    (hw : startsWord u = false) (hu : onlyRanges false u = true) (before : Text) :
    declaredNameFrom? before (name ++ u) = some (before.reverse, name) := by
  obtain ⟨c, w, rfl⟩ := List.exists_cons_of_ne_nil (ne_nil_of_isIdentifier hn)
  rw [isIdentifier, Bool.and_eq_true, List.all_eq_true] at hn
  rw [List.cons_append, declaredNameFrom?, List.dropWhile_append_of_pos hn.2,
    dropWhile_of_not_startsWord hw, takeWhile_isWord_append hn.2 hw, hn.1, hu]
  rfl

theorem onlyRanges_parts {edge : Edge} {parts : List Part} {t name : Text}
    (h : WrittenParts edge parts t) (hn : isIdentifier name = true) (u : Text) :
    onlyRanges false (t ++ (name ++ u)) = false := by
  induction h with
  | nil hg _ => rw [onlyRanges_gap hg, onlyRanges_name hn]
  | @cons _ _ _ p _ hg _ _ ih =>
    rw [List.append_assoc, List.append_assoc, onlyRanges_gap hg]
    cases p with
    | word w => exact onlyRanges_name w.2 _
    | group b => rw [onlyRanges_group, ih]

theorem onlyRanges_groups {u : Text} (h : WrittenGroups u) : onlyRanges false u = true := by
  induction h with
  | nil hg =>
    have := onlyRanges_gap hg []
    rw [List.append_nil] at this
    rw [this]
    rfl
  | cons hg b _ ih => rw [onlyRanges_gap hg, onlyRanges_group, ih]

/-- The name after the parts is found, and the parts are what stands before it. -/
theorem declaredNameFrom?_parts {edge : Edge} {parts : List Part} {t u : Text}
    (h : WrittenParts edge parts t) (name : Identifier) (hu : WrittenGroups u) (before : Text) :
    declaredNameFrom? before (t ++ (name.1 ++ u)) = some (before.reverse ++ t, name.1) := by
  have hword : startsWord u = false := (WrittenTail.plain hu).startsWord
  induction h generalizing before with
  | nil hg _ =>
    rw [declaredNameFrom?_gap hg, declaredNameFrom?_name name.2 hword (onlyRanges_groups hu)]
    simp
  | @cons _ _ t p _ hg _ ht ih =>
    rw [List.append_assoc, List.append_assoc, declaredNameFrom?_gap hg,
      declaredNameFrom?_part p (fun hp => (hp ▸ ht).startsWord _) (onlyRanges_parts ht name.2 u),
      ih]
    simp

/-! ## The identifiers outside of groups -/

theorem spaceGroups_append {a : Text} (ha : '[' ∉ a) (t : Text) :
    spaceGroups (a ++ t) = a ++ spaceGroups t := by
  induction a with
  | nil => rfl
  | cons c a ih =>
    rw [List.mem_cons, not_or] at ha
    rw [List.cons_append, spaceGroups, spaceGroupsFrom, if_neg fun hc => ha.1 hc.1.symm]
    exact congrArg (c :: ·) (ih ha.2)

theorem spaceGroupsFrom_inside {r : Text} (hr : ']' ∉ r) (t : Text) :
    spaceGroupsFrom true (r ++ ']' :: t) = spaceGroups t := by
  induction r with
  | nil => simp [spaceGroupsFrom, spaceGroups]
  | cons c r ih =>
    rw [List.mem_cons, not_or] at hr
    rw [List.cons_append, spaceGroupsFrom, bne_iff_ne.2 (Ne.symm hr.1), ih hr.2]

theorem spaceGroups_group (b : Bracketed) (t : Text) :
    spaceGroups ((Part.group b).text ++ t) = ' ' :: spaceGroups t := by
  rw [Part.text, List.cons_append, List.append_assoc, List.singleton_append, spaceGroups,
    spaceGroupsFrom, if_pos ⟨rfl, by simp⟩, spaceGroupsFrom_inside (b.plain _ (by decide))]

theorem startsWord_spaceGroups {t : Text} (ht : startsWord t = false) :
    startsWord (spaceGroups t) = false := by
  rcases t with _ | ⟨c, t⟩
  · rfl
  · rw [spaceGroups, spaceGroupsFrom]
    split_ifs
    · rfl
    · exact ht

theorem identifiersFrom_append {w : Text} (hw : ∀ c ∈ w, isWord c = true) {begun : Text}
    (hb : begun ≠ []) (t : Text) :
    identifiersFrom begun (w ++ t) = identifiersFrom (w.reverse ++ begun) t := by
  induction w generalizing begun with
  | nil => rfl
  | cons c w ih =>
    rw [List.cons_append, identifiersFrom, if_neg (by simpa using hb),
      if_pos (hw c List.mem_cons_self), ih (fun d hd => hw d (List.mem_cons_of_mem _ hd)) (by simp),
      List.reverse_cons, List.append_assoc, List.singleton_append]

theorem identifiers_cons {c : Char} (hc : isWord c = false) (t : Text) :
    identifiers (c :: t) = identifiers t := by
  have hstart : isIdentifierStart c = false := by
    by_contra hs
    rw [Bool.not_eq_false] at hs
    rw [isWord_of_isIdentifierStart hs] at hc
    cases hc
  rw [identifiers, identifiersFrom, if_pos List.isEmpty_nil, hstart]
  rfl

theorem identifiers_gap {g : Text} (hg : Gap g) (t : Text) :
    identifiers (g ++ t) = identifiers t := by
  induction g with
  | nil => rfl
  | cons c g ih =>
    rw [List.cons_append, identifiers_cons (not_isWord_of_isBlank (hg c List.mem_cons_self)),
      ih fun d hd => hg d (List.mem_cons_of_mem _ hd)]

theorem identifiers_word {w t : Text} (hw : isIdentifier w = true) (ht : startsWord t = false) :
    identifiers (w ++ t) = w :: identifiers t := by
  obtain ⟨c, w', rfl⟩ := List.exists_cons_of_ne_nil (ne_nil_of_isIdentifier hw)
  have hword := isWord_of_isIdentifier hw
  rw [isIdentifier, Bool.and_eq_true] at hw
  rw [identifiers, List.cons_append, identifiersFrom, if_pos List.isEmpty_nil, if_pos hw.1,
    identifiersFrom_append (fun d hd => hword d (List.mem_cons_of_mem _ hd)) (by simp)]
  rcases t with _ | ⟨d, t⟩
  · simp [identifiersFrom, identifiers]
  · have hd : isWord d = false := ht
    rw [identifiers_cons hd, identifiersFrom, if_neg (by simp), if_neg (by simp [hd])]
    simp [identifiers]

theorem identifiers_groups {u : Text} (h : WrittenGroups u) :
    identifiers (spaceGroups u) = [] := by
  induction h with
  | @nil g hg =>
    have hspace := spaceGroups_append ((Bare.of_gap hg).not_mem '[' (by decide)) []
    have hnone := identifiers_gap hg []
    rw [List.append_nil] at hspace hnone
    rw [hspace, spaceGroups, spaceGroupsFrom, List.append_nil, hnone]
    rfl
  | cons hg b _ ih =>
    rw [spaceGroups_append ((Bare.of_gap hg).not_mem _ (by decide)), identifiers_gap hg,
      spaceGroups_group, identifiers_cons (not_isWord_of_isBlank rfl), ih]

/-- Of the identifiers outside of groups the name is the last one. -/
theorem getLast?_identifiers {edge : Edge} {parts : List Part} {t u : Text}
    (h : WrittenParts edge parts t) (name : Identifier) (hu : WrittenGroups u) :
    (identifiers (spaceGroups (t ++ (name.1 ++ u)))).getLast? = some name.1 := by
  have hopen : ∀ n : Identifier, '[' ∉ n.1 := fun n =>
    (Bare.of_isIdentifier n.2).not_mem _ (by decide)
  induction h with
  | nil hg _ =>
    have hword : startsWord u = false := (WrittenTail.plain hu).startsWord
    rw [spaceGroups_append ((Bare.of_gap hg).not_mem _ (by decide)), identifiers_gap hg,
      spaceGroups_append (hopen name), identifiers_word name.2 (startsWord_spaceGroups hword),
      identifiers_groups hu]
    rfl
  | @cons _ _ t p _ hg _ ht ih =>
    rw [List.append_assoc, List.append_assoc,
      spaceGroups_append ((Bare.of_gap hg).not_mem _ (by decide)), identifiers_gap hg]
    cases p with
    | word w =>
      rw [Part.text, spaceGroups_append (hopen w),
        identifiers_word w.2 (startsWord_spaceGroups (ht.startsWord _)), List.getLast?_cons, ih]
      rfl
    | group b => rw [spaceGroups_group, identifiers_cons (not_isWord_of_isBlank rfl), ih]

/-! ## The type -/

theorem joinWith_cons (sep t : Text) : ∀ ts : List Text,
    joinWith sep (t :: ts) = t ++ ts.flatMap (sep ++ ·)
  | [] => (List.append_nil t).symm
  | u :: ts => by
    rw [joinWith, joinWith_cons sep u ts, List.flatMap_cons]
    simp only [List.append_assoc]

theorem collapseFrom_part (p : Part) (spaced : Bool) (t : Text) :
    collapseFrom spaced (p.text ++ t) = p.shown ++ collapseFrom false t := by
  cases p with
  | word w =>
    exact collapseFrom_append (fun c hc => not_isBlank_of_isWord (isWord_of_isIdentifier w.2 c hc))
      (ne_nil_of_isIdentifier w.2) spaced t
  | group b =>
    rw [Part.text, List.cons_append, List.append_assoc, List.singleton_append,
      collapseFrom_cons (by decide), collapseFrom_append_cons (by decide)]
    simp [Part.shown, collapse]

theorem spaceRanges_append {a : Text} (ha : '[' ∉ a) {e : Char} (he : e ≠ '[') (r : Text) :
    ∀ last, spaceRanges last (a ++ e :: r) = a ++ e :: spaceRanges (some e) r := by
  induction a with
  | nil =>
    intro last
    simp [spaceRanges, he]
  | cons c a ih =>
    intro last
    rw [List.mem_cons, not_or] at ha
    rw [List.cons_append, spaceRanges, ih ha.2]
    simp [Ne.symm ha.1]

/-- A part of a type is left as it is, up to the space before it. -/
theorem spaceRanges_shown (p : Part) : ∃ e, isBlank e = false ∧ e ≠ '[' ∧
    ∀ (last : Option Char) (r : Text), last.all isBlank = true →
      spaceRanges last (p.shown ++ r) = p.shown ++ spaceRanges (some e) r := by
  cases p with
  | word w =>
    obtain ⟨a, e, hw⟩ := (List.eq_nil_or_concat' w.1).resolve_left (ne_nil_of_isIdentifier w.2)
    have hmem : e ∈ w.1 := by simp [hw]
    have hopen : '[' ∉ w.1 := (Bare.of_isIdentifier w.2).not_mem _ (by decide)
    have he : e ≠ '[' := fun h => hopen (h ▸ hmem)
    have ha : '[' ∉ a := fun h => hopen (by simp [hw, h])
    refine ⟨e, not_isBlank_of_isWord (isWord_of_isIdentifier w.2 e hmem), he, fun last u _ => ?_⟩
    rw [Part.shown, hw, List.append_assoc, List.singleton_append, spaceRanges_append ha he,
      List.append_assoc, List.singleton_append]
  | group b =>
    refine ⟨']', by decide, by decide, fun last u hl => ?_⟩
    have hglued : (last.any fun b => !isBlank b && b != '[') = false := by
      rcases last with _ | b <;> simp_all
    have hopen : '[' ∉ collapse b.inside := fun h =>
      (mem_collapseFrom h).elim (b.plain _ (by decide)) (by decide)
    rw [Part.shown, List.cons_append, spaceRanges, hglued, List.append_assoc,
      List.singleton_append, spaceRanges_append hopen (by decide)]
    simp

/-- One space stands before a part, be it for the blanks there or because a group stands against
what is before it. -/
theorem spaceRanges_lead (p : Part) {g : Text} (hg : Gap g) (hp : p.edge = .word → g ≠ [])
    {e : Char}
    (he : isBlank e = false) (he' : e ≠ '[') (t : Text) :
    spaceRanges (some e) (collapseFrom false (g ++ (p.text ++ t))) =
      ' ' :: spaceRanges (some ' ') (p.shown ++ collapseFrom false t) := by
  by_cases hne : g = []
  · rw [hne, List.nil_append, collapseFrom_part]
    cases p with
    | word => exact absurd hne (hp rfl)
    | group b =>
      have hb : isBlank ' ' = true := rfl
      simp [Part.shown, spaceRanges, he, he', hb]
  · rw [collapseFrom_false_gap hg hne, collapseFrom_part]
    simp [spaceRanges]

theorem spaceRanges_parts {edge : Edge} {parts : List Part} {t : Text}
    (h : WrittenParts edge parts t) (hedge : edge ≠ .start) {e : Char} (he : isBlank e = false)
    (he' : e ≠ '[') : spaceRanges (some e) (collapseFrom false (trimRight t)) =
      (parts.map Part.shown).flatMap ([' '] ++ ·) := by
  induction h generalizing e with
  | nil hg _ =>
    rw [trimRight_gap hg]
    rfl
  | @cons _ _ _ p _ hg hne _ ih =>
    obtain ⟨last, hlast, hlast', hshown⟩ := spaceRanges_shown p
    rw [p.trimRight_append, spaceRanges_lead p hg (hne hedge) he he', hshown _ _ rfl,
      ih (by cases p <;> simp [Part.edge]) hlast hlast', List.map_cons, List.flatMap_cons]
    simp

/-- The parts of a type come out one space apart. -/
theorem typeText_parts {edge : Edge} {parts : List Part} {t : Text}
    (h : WrittenParts edge parts t) : typeText t = shownType parts := by
  rw [typeText, squeeze_eq]
  cases h with
  | nil hg _ =>
    rw [trimRight_gap hg]
    rfl
  | @cons _ _ _ p _ hg _ ht =>
    obtain ⟨last, hlast, hlast', hshown⟩ := spaceRanges_shown p
    rw [p.trimRight_append, collapseFrom_true_gap hg, collapseFrom_part, hshown _ _ rfl,
      spaceRanges_parts ht (by cases p <;> simp [Part.edge]) hlast hlast', shownType, List.map_cons,
      joinWith_cons]

end VerilogIndex.Source
