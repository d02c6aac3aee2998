import Mathlib.Data.List.Infix
import Mathlib.Data.List.TakeWhile
import Mathlib.Tactic
import VerilogIndex.Source.Ports
import VerilogIndex.Text.Lines

/-!
# Blanks, words and lines

No word character is blank, and every line break is. A text is neat (`Text.Neat`) if it has no
blanks at its ends and single spaces are the only blanks in it: squeezing gives a neat text and
leaves neat texts alone (`neat_squeeze`, `squeeze_of_neat`), and so does the text of a type. What it
does to any text is to drop the blanks at its ends and to collapse each other run of them
(`squeeze_eq`). The lines of a text are stretches of it without a line break
(`infix_of_mem_lines`).
-/

namespace VerilogIndex

namespace Text

/-! ## Characters -/

theorem not_isBlank_of_isWord {c : Char} (h : isWord c = true) : isBlank c = false := by
  have hruns : ∀ r ∈ blankRuns, ∀ k ∈ List.range (r.2 + 1 - r.1),
      isWord (Char.ofNat (r.1 + k)) = false := by decide +kernel
  by_contra hb
  rw [Bool.not_eq_false, isBlank, inRuns, List.any_eq_true] at hb
  obtain ⟨r, hr, hc⟩ := hb
  simp only [Bool.and_eq_true, decide_eq_true_eq] at hc
  have := hruns r hr (c.toNat - r.1) (List.mem_range.2 (by omega))
  rw [show r.1 + (c.toNat - r.1) = c.toNat by omega, Char.ofNat_toNat, h] at this
  cases this

theorem not_isWord_of_isBlank {c : Char} (h : isBlank c = true) : isWord c = false := by
  by_contra hw
  rw [Bool.not_eq_false] at hw
  rw [not_isBlank_of_isWord hw] at h
  cases h

theorem isBlank_of_isLineBreak {c : Char} (h : isLineBreak c = true) : isBlank c = true := by
  simp only [isLineBreak, Bool.or_eq_true, Bool.and_eq_true, decide_eq_true_eq, beq_iff_eq] at h
  simp only [isBlank, inRuns, blankRuns, List.any_cons, List.any_nil, Bool.or_eq_true,
    Bool.and_eq_true, decide_eq_true_eq]
  omega

theorem isWord_of_isIdentifierStart {c : Char} (h : Source.isIdentifierStart c = true) :
    isWord c = true := by
  simp only [Source.isIdentifierStart, Bool.or_eq_true] at h
  simp only [isWord, Char.isAlphanum, Bool.or_eq_true]
  rcases h with h | h
  · exact .inl (.inl (.inl h))
  · exact .inl (.inr h)

theorem isWord_of_isIdentifier : ∀ {t : Text}, Source.isIdentifier t = true →
    ∀ c ∈ t, isWord c = true
  | d :: t, h, c, hc => by
    simp only [Source.isIdentifier, Bool.and_eq_true, List.all_eq_true] at h
    rcases List.mem_cons.1 hc with rfl | hc
    · exact isWord_of_isIdentifierStart h.1
    · exact h.2 c hc

theorem ne_nil_of_isIdentifier {t : Text} (h : Source.isIdentifier t = true) : t ≠ [] := by
  rintro rfl
  cases h

theorem after?_eq_some_iff : ∀ {lead t r : Text}, after? lead t = some r ↔ t = lead ++ r
  | [], t, r => by simp [after?]
  | a :: lead, [], r => by simp [after?]
  | a :: lead, c :: t, r => by
    rw [after?]
    split_ifs with h
    · rw [after?_eq_some_iff, h, List.cons_append, List.cons.injEq, eq_self, true_and]
    · simp [Ne.symm h]

/-! ## Trimming -/

/-- Nothing but blanks. -/
def Gap (t : Text) : Prop := ∀ c ∈ t, isBlank c = true

instance (t : Text) : Decidable (Gap t) := decidable_of_iff (t.all isBlank = true) List.all_eq_true

theorem trimLeft_append {a t : Text} (ha : Gap a) :
    trimLeft (a ++ t) = trimLeft t := by
  rw [trimLeft, trimLeft, List.dropWhile_append_of_pos ha]

theorem trimLeft_cons {c : Char} (hc : isBlank c = false) (t : Text) :
    trimLeft (c :: t) = c :: t := by
  rw [trimLeft, List.dropWhile_cons_of_neg (by simp [hc])]

theorem trimLeft_eq_self {t : Text} (h : t.head?.any isBlank = false) : trimLeft t = t := by
  rcases t with _ | ⟨c, t⟩
  · rfl
  · exact trimLeft_cons h t

theorem exists_gap (t : Text) : ∃ g u, Gap g ∧ t = g ++ u ∧ u.head?.any isBlank = false := by
  refine ⟨t.takeWhile isBlank, t.dropWhile isBlank, fun c hc => List.mem_takeWhile_imp hc,
    List.takeWhile_append_dropWhile.symm, ?_⟩
  rcases hu : t.dropWhile isBlank with _ | ⟨c, u⟩
  · rfl
  · have := List.head_dropWhile_not isBlank (l := t) (by simp [hu])
    simpa only [hu, List.head_cons, List.head?_cons, Option.any_some] using this

theorem trimLeft_eq_cons_iff {t r : Text} {d : Char} :
    trimLeft t = d :: r ↔ isBlank d = false ∧ ∃ g, Gap g ∧ t = g ++ d :: r := by
  constructor
  · intro h
    obtain ⟨g, u, hg, rfl, hu⟩ := exists_gap t
    obtain rfl : u = d :: r := by rwa [trimLeft_append hg, trimLeft_eq_self hu] at h
    exact ⟨hu, g, hg, rfl⟩
  · rintro ⟨hd, g, hg, rfl⟩
    rw [trimLeft_append hg, trimLeft_cons hd]

theorem trimRight_append {g : Text} (hg : Gap g) (t : Text) : trimRight (t ++ g) = trimRight t := by
  have hr : ∀ c ∈ g.reverse, isBlank c = true := fun c hc => hg c (List.mem_reverse.1 hc)
  rw [trimRight, trimRight, List.reverse_append, List.dropWhile_append_of_pos hr]

theorem trimRight_gap {g : Text} (hg : Gap g) : trimRight g = [] := trimRight_append hg []

theorem prefix_trimRight (t : Text) : trimRight t <+: t := by
  rw [← List.reverse_suffix, trimRight, List.reverse_reverse]
  exact List.dropWhile_suffix _

/-- Trimming on the right stops at the last character that is not blank. -/
theorem trimRight_append_cons (a : Text) {c : Char} (hc : isBlank c = false) (t : Text) :
    trimRight (a ++ c :: t) = a ++ c :: trimRight t := by
  rw [trimRight, trimRight, List.reverse_append, List.reverse_cons, List.append_assoc,
    List.dropWhile_append]
  split_ifs with ht
  · rw [List.isEmpty_iff.1 ht, List.singleton_append, List.dropWhile_cons_of_neg (by simp [hc])]
    simp
  · simp

theorem trimRight_cons (c : Char) (t : Text) :
    trimRight (c :: t) = if isBlank c ∧ trimRight t = [] then [] else c :: trimRight t := by
  rw [trimRight, List.reverse_cons, List.dropWhile_append]
  rcases hr : t.reverse.dropWhile isBlank with _ | ⟨d, r⟩
  · rcases hc : isBlank c with _ | _ <;> simp [trimRight, hr, hc]
  · simp [trimRight, hr]

theorem trim_of_gaps {g g' : Text} (hg : Gap g) (hg' : Gap g') (t : Text) :
    trim (g ++ (t ++ g')) = trim t := by
  rw [trim, trimLeft_append hg, trimLeft, List.dropWhile_append]
  split_ifs with ht
  · rw [List.dropWhile_eq_nil_iff.2 hg', trim, trimLeft, List.isEmpty_iff.1 ht]
  · exact trimRight_append hg' _

theorem trim_gap {g : Text} (hg : Gap g) : trim g = [] := by
  rw [trim, trimLeft, List.dropWhile_eq_nil_iff.2 hg]
  rfl

theorem trim_trimRight (t : Text) : trim (trimRight t) = trim t := by
  have hsplit : t = trimRight t ++ (t.reverse.takeWhile isBlank).reverse := by
    rw [trimRight, ← List.reverse_append, List.takeWhile_append_dropWhile, List.reverse_reverse]
  have hgap : Gap (t.reverse.takeWhile isBlank).reverse := fun c hc =>
    List.mem_takeWhile_imp (List.mem_reverse.1 hc)
  have := trim_of_gaps (g := []) (by simp [Gap]) hgap (trimRight t)
  rw [List.nil_append, ← hsplit] at this
  exact this.symm

/-! ## Words -/

/-- No blank at the ends, and single spaces between the words; `spaced` right after a blank or at
the start. -/
def NeatFrom : (spaced : Bool) → Text → Prop
  | spaced, [] => spaced = false
  | spaced, c :: r =>
    if isBlank c then spaced = false ∧ c = ' ' ∧ NeatFrom true r else NeatFrom false r

/-- The only blanks are single spaces between words. -/
def Neat (t : Text) : Prop := t = [] ∨ NeatFrom true t

theorem neatFrom_of_isBlank {c : Char} (hc : isBlank c = true) {b : Bool} {t : Text} :
    NeatFrom b (c :: t) ↔ b = false ∧ c = ' ' ∧ NeatFrom true t := by
  rw [NeatFrom, if_pos hc]

theorem neatFrom_of_not_isBlank {c : Char} (hc : isBlank c = false) {b : Bool} {t : Text} :
    NeatFrom b (c :: t) ↔ NeatFrom false t := by
  rw [NeatFrom, if_neg (by simp [hc])]

theorem wordsFrom_of_not_isBlank {c : Char} (hc : isBlank c = false) (word t : Text) :
    wordsFrom word (c :: t) = wordsFrom (c :: word) t := by
  rw [wordsFrom, if_neg (by simp [hc])]

theorem wordsFrom_append {k : Text} (hk : ∀ c ∈ k, isBlank c = false) (word t : Text) :
    wordsFrom word (k ++ t) = wordsFrom (k.reverse ++ word) t := by
  induction k generalizing word with
  | nil => rfl
  | cons c k ih =>
    rw [List.cons_append, wordsFrom_of_not_isBlank (hk c List.mem_cons_self),
      ih fun d hd => hk d (List.mem_cons_of_mem _ hd), List.reverse_cons, List.append_assoc,
      List.singleton_append]

theorem wordsFrom_nil_gap {g : Text} (hg : Gap g) (t : Text) :
    wordsFrom [] (g ++ t) = wordsFrom [] t := by
  induction g with
  | nil => rfl
  | cons c g ih =>
    rw [List.cons_append, wordsFrom, if_pos (hg c List.mem_cons_self),
      if_pos List.isEmpty_nil, ih fun d hd => hg d (List.mem_cons_of_mem _ hd)]

theorem wordsFrom_gap {g word : Text} (hg : Gap g) (hne : g ≠ []) (hw : word ≠ []) (t : Text) :
    wordsFrom word (g ++ t) = word.reverse :: wordsFrom [] t := by
  obtain ⟨c, g, rfl⟩ := List.exists_cons_of_ne_nil hne
  rw [List.cons_append, wordsFrom, if_pos (hg c List.mem_cons_self), if_neg (by simpa using hw),
    wordsFrom_nil_gap fun d hd => hg d (List.mem_cons_of_mem _ hd)]

theorem wordsFrom_ne_nil {word : Text} (hw : word ≠ []) : ∀ t : Text, wordsFrom word t ≠ []
  | [] => by simp [wordsFrom, hw]
  | c :: t => by
    rw [wordsFrom]
    split_ifs with hc he
    · exact absurd (List.isEmpty_iff.1 he) hw
    · simp
    · exact wordsFrom_ne_nil (by simp) t

theorem neatFrom_append {w r : Text} {b : Bool} (hw : w ≠ []) (hb : ∀ c ∈ w, isBlank c = false)
    (hr : NeatFrom false r) : NeatFrom b (w ++ r) := by
  induction w generalizing b with
  | nil => exact absurd rfl hw
  | cons c w ih =>
    rw [List.cons_append, neatFrom_of_not_isBlank (hb c List.mem_cons_self)]
    rcases w with _ | ⟨d, w⟩
    · exact hr
    · exact ih (by simp) fun e he => hb e (List.mem_cons_of_mem _ he)

theorem neatFrom_joinWith : ∀ {ws : List Text}, ws ≠ [] →
    (∀ w ∈ ws, w ≠ [] ∧ ∀ c ∈ w, isBlank c = false) → NeatFrom true (joinWith [' '] ws)
  | [w], _, h => by
    have hw := h w List.mem_cons_self
    have := neatFrom_append (b := true) (r := []) hw.1 hw.2 rfl
    rwa [List.append_nil] at this
  | w :: v :: ws, _, h => by
    have hw := h w List.mem_cons_self
    have ih := neatFrom_joinWith (List.cons_ne_nil v ws) fun u hu => h u (List.mem_cons_of_mem _ hu)
    rw [joinWith, List.append_assoc]
    exact neatFrom_append hw.1 hw.2 ⟨rfl, rfl, ih⟩

theorem mem_wordsFrom : ∀ {t word w : Text}, (∀ c ∈ word, isBlank c = false) →
    w ∈ wordsFrom word t → w ≠ [] ∧ ∀ c ∈ w, isBlank c = false
  | [], word, w, hword, hw => by
    rw [wordsFrom] at hw
    split_ifs at hw with he
    · simp at hw
    · rw [List.mem_singleton.1 hw]
      exact ⟨by simpa using he, fun c hc => hword c (List.mem_reverse.1 hc)⟩
  | c :: t, word, w, hword, hw => by
    rw [wordsFrom] at hw
    split_ifs at hw with hc he
    · exact mem_wordsFrom (by simp) hw
    · rcases List.mem_cons.1 hw with rfl | hw
      · exact ⟨by simpa using he, fun c hc => hword c (List.mem_reverse.1 hc)⟩
      · exact mem_wordsFrom (by simp) hw
    · refine mem_wordsFrom (fun d hd => ?_) hw
      rcases List.mem_cons.1 hd with rfl | hd
      · exact Bool.eq_false_iff.2 hc
      · exact hword d hd

theorem neat_squeeze (t : Text) : Neat (squeeze t) := by
  rcases hw : words t with _ | ⟨w, ws⟩
  · rw [squeeze, hw]
    exact .inl rfl
  · rw [squeeze, hw]
    refine .inr (neatFrom_joinWith (by simp) fun v hv => ?_)
    rw [← hw] at hv
    exact mem_wordsFrom (by simp) hv

theorem squeeze_cons_of_isBlank {c : Char} (hc : isBlank c = true) (t : Text) :
    squeeze (c :: t) = squeeze t := by
  simp only [squeeze, words, wordsFrom, hc, if_true, List.isEmpty_nil]

theorem eq_space_of_neatFrom : ∀ {t : Text} {b : Bool}, NeatFrom b t → ∀ c ∈ t, isBlank c = true →
    c = ' '
  | d :: t, b, h, c, hc, hb => by
    rw [NeatFrom] at h
    split_ifs at h with hd
    · rcases List.mem_cons.1 hc with rfl | hc
      · exact h.2.1
      · exact eq_space_of_neatFrom h.2.2 c hc hb
    · rcases List.mem_cons.1 hc with rfl | hc
      · exact absurd hb hd
      · exact eq_space_of_neatFrom h c hc hb

theorem not_isLineBreak_of_neat {t : Text} (h : Neat t) : ∀ c ∈ t, isLineBreak c = false := by
  intro c hc
  rcases h with rfl | h
  · simp at hc
  · by_contra hb
    rw [Bool.not_eq_false] at hb
    rw [eq_space_of_neatFrom h c hc (isBlank_of_isLineBreak hb)] at hb
    cases hb

/-- A space before a range keeps a text neat. -/
theorem neatFrom_spaceRanges : ∀ (t : Text) (last : Option Char), NeatFrom (last.all isBlank) t →
    NeatFrom (last.all isBlank) (Source.spaceRanges last t)
  | [], last, h => h
  | c :: t, last, h => by
    have ih : NeatFrom (isBlank c) t → NeatFrom (isBlank c) (Source.spaceRanges (some c) t) :=
      neatFrom_spaceRanges t (some c)
    rw [Source.spaceRanges]
    rcases hc : isBlank c with _ | _
    · rw [neatFrom_of_not_isBlank hc] at h
      have hplain : ∀ b, NeatFrom b (c :: Source.spaceRanges (some c) t) := fun b =>
        (neatFrom_of_not_isBlank hc).2 (hc ▸ ih (hc ▸ h))
      split_ifs with hglued
      · -- the space stands after a word, so it is the only one
        have hlast : last.all isBlank = false := by
          rcases last with _ | b <;> simp_all
        rw [hlast]
        exact (neatFrom_of_isBlank rfl).2 ⟨rfl, rfl, hplain true⟩
      · exact hplain _
    · rw [neatFrom_of_isBlank hc] at h
      have hne : c ≠ '[' := by
        rintro rfl
        cases hc
      have hrest := ih (hc ▸ h.2.2)
      rw [hc] at hrest
      simpa [hne] using (neatFrom_of_isBlank hc).2 ⟨h.1, h.2.1, hrest⟩

theorem neat_typeText (t : Text) : Neat (Source.typeText t) := by
  rcases neat_squeeze t with h | h
  · rw [Source.typeText, h]
    exact .inl rfl
  · exact .inr (neatFrom_spaceRanges _ none h)

/-! ## Runs of blanks -/

/-- Each run of blanks as one space; `spaced` right after a blank, whose run goes on. -/
def collapseFrom : (spaced : Bool) → Text → Text
  | _, [] => []
  | spaced, c :: r =>
    if isBlank c then (if spaced then [] else [' ']) ++ collapseFrom true r
    else c :: collapseFrom false r

/-- The text with one space for each run of blanks. -/
def collapse (t : Text) : Text := collapseFrom false t

theorem collapseFrom_cons {c : Char} (hc : isBlank c = false) (spaced : Bool) (t : Text) :
    collapseFrom spaced (c :: t) = c :: collapseFrom false t := by
  rw [collapseFrom, if_neg (by simp [hc])]

theorem collapseFrom_append_cons {c : Char} (hc : isBlank c = false) (t : Text) :
    ∀ (a : Text) (spaced : Bool),
      collapseFrom spaced (a ++ c :: t) = collapseFrom spaced a ++ c :: collapseFrom false t
  | [], spaced => collapseFrom_cons hc spaced t
  | d :: a, spaced => by
    rw [List.cons_append, collapseFrom, collapseFrom, collapseFrom_append_cons hc t a,
      collapseFrom_append_cons hc t a]
    split_ifs <;> rfl

theorem collapseFrom_true_gap {g : Text} (hg : Gap g) (t : Text) :
    collapseFrom true (g ++ t) = collapseFrom true t := by
  induction g with
  | nil => rfl
  | cons c g ih =>
    rw [List.cons_append, collapseFrom, if_pos (hg c List.mem_cons_self),
      ih fun d hd => hg d (List.mem_cons_of_mem _ hd)]
    rfl

theorem collapseFrom_false_gap {g : Text} (hg : Gap g) (hne : g ≠ []) (t : Text) :
    collapseFrom false (g ++ t) = ' ' :: collapseFrom true t := by
  obtain ⟨c, g, rfl⟩ := List.exists_cons_of_ne_nil hne
  rw [List.cons_append, collapseFrom, if_pos (hg c List.mem_cons_self),
    collapseFrom_true_gap fun d hd => hg d (List.mem_cons_of_mem _ hd)]
  rfl

/-- What has no blanks stays as it is. -/
theorem collapseFrom_append {w : Text} (hw : ∀ c ∈ w, isBlank c = false) (hne : w ≠ [])
    (spaced : Bool) (t : Text) : collapseFrom spaced (w ++ t) = w ++ collapseFrom false t := by
  induction w generalizing spaced with
  | nil => exact absurd rfl hne
  | cons c w ih =>
    rw [List.cons_append, collapseFrom_cons (hw c List.mem_cons_self)]
    rcases w with _ | ⟨d, w⟩
    · rfl
    · rw [ih (fun e he => hw e (List.mem_cons_of_mem _ he)) (by simp)]
      rfl

theorem collapse_of_not_isBlank {t : Text} (h : ∀ c ∈ t, isBlank c = false) : collapse t = t := by
  rcases t with _ | ⟨c, t⟩
  · rfl
  · have := collapseFrom_append h (by simp) false []
    rwa [List.append_nil, collapseFrom, List.append_nil] at this

theorem mem_collapseFrom {c : Char} : ∀ {t : Text} {spaced : Bool}, c ∈ collapseFrom spaced t →
    c ∈ t ∨ c = ' '
  | [], _, h => by simp [collapseFrom] at h
  | d :: t, spaced, h => by
    rw [collapseFrom] at h
    split_ifs at h
    · exact (mem_collapseFrom h).imp_left (List.mem_cons_of_mem d)
    · rcases List.mem_cons.1 h with h | h
      · exact .inr h
      · exact (mem_collapseFrom h).imp_left (List.mem_cons_of_mem d)
    · rcases List.mem_cons.1 h with rfl | h
      · exact .inl List.mem_cons_self
      · exact (mem_collapseFrom h).imp_left (List.mem_cons_of_mem d)

theorem wordsFrom_nil_eq_nil_iff : ∀ {t : Text}, wordsFrom [] t = [] ↔ trimRight t = []
  | [] => by simp [wordsFrom, trimRight]
  | c :: t => by
    rw [wordsFrom, trimRight_cons]
    rcases hc : isBlank c with _ | _
    · simp [wordsFrom_ne_nil]
    · simp [wordsFrom_nil_eq_nil_iff]

/-- The words one space apart, after a word that has begun or after a blank. -/
theorem joinWith_wordsFrom_eq : ∀ t word : Text,
    (word ≠ [] →
        joinWith [' '] (wordsFrom word t) = word.reverse ++ collapseFrom false (trimRight t))
      ∧ joinWith [' '] (wordsFrom [] t) = collapseFrom true (trimRight t)
  | [], word => by
    refine ⟨fun hw => ?_, rfl⟩
    simp [wordsFrom, hw, joinWith, trimRight, collapseFrom]
  | c :: t, word => by
    have ih := joinWith_wordsFrom_eq t
    rw [trimRight_cons]
    rcases hc : isBlank c with _ | _
    · simp only [wordsFrom_of_not_isBlank hc, Bool.false_eq_true, false_and, if_false,
        collapseFrom_cons hc]
      refine ⟨fun _ => ?_, (ih [c]).1 (by simp)⟩
      rw [(ih (c :: word)).1 (by simp), List.reverse_cons, List.append_assoc, List.singleton_append]
    · have hnil : wordsFrom [] (c :: t) = wordsFrom [] t := by simp [wordsFrom, hc]
      have hword : word ≠ [] → wordsFrom word (c :: t) = word.reverse :: wordsFrom [] t := by
        intro hw
        simp [wordsFrom, hc, hw]
      rw [hnil, (ih []).2]
      by_cases ht : trimRight t = []
      · rw [if_pos ⟨rfl, ht⟩, ht]
        refine ⟨fun hw => ?_, rfl⟩
        rw [hword hw, wordsFrom_nil_eq_nil_iff.2 ht, joinWith, collapseFrom, List.append_nil]
      · rw [if_neg fun h => ht h.2, collapseFrom, collapseFrom, if_pos hc, if_pos hc]
        refine ⟨fun hw => ?_, rfl⟩
        obtain ⟨v, vs, hv⟩ := List.exists_cons_of_ne_nil (mt wordsFrom_nil_eq_nil_iff.1 ht)
        rw [hword hw, hv, joinWith, ← hv, (ih []).2, List.append_assoc]
        rfl

/-- Squeezing drops the blanks at the ends and makes each other run of them one space. -/
theorem squeeze_eq (t : Text) : squeeze t = collapseFrom true (trimRight t) :=
  (joinWith_wordsFrom_eq t []).2

theorem trimRight_of_neatFrom : ∀ {t : Text} {b : Bool}, NeatFrom b t → trimRight t = t
  | [], _, _ => rfl
  | c :: t, b, h => by
    rcases hc : isBlank c with _ | _
    · rw [neatFrom_of_not_isBlank hc] at h
      rw [trimRight_cons, trimRight_of_neatFrom h, if_neg (by simp [hc])]
    · rw [neatFrom_of_isBlank hc] at h
      have hne : t ≠ [] := by
        rintro rfl
        cases h.2.2
      rw [trimRight_cons, trimRight_of_neatFrom h.2.2, if_neg fun he => hne he.2]

theorem collapseFrom_of_neatFrom : ∀ {t : Text} {b : Bool}, NeatFrom b t → collapseFrom b t = t
  | [], _, _ => rfl
  | c :: t, b, h => by
    rcases hc : isBlank c with _ | _
    · rw [neatFrom_of_not_isBlank hc] at h
      rw [collapseFrom_cons hc, collapseFrom_of_neatFrom h]
    · rw [neatFrom_of_isBlank hc] at h
      obtain ⟨rfl, rfl, ht⟩ := h
      rw [collapseFrom, if_pos hc, collapseFrom_of_neatFrom ht]
      rfl

theorem squeeze_of_neat {t : Text} (h : Neat t) : squeeze t = t := by
  rcases h with rfl | h
  · rfl
  · rw [squeeze_eq, trimRight_of_neatFrom h, collapseFrom_of_neatFrom h]

/-! ## Lines -/

/-- What lines have, and two texts with a line feed between them if both have it, the joined lines
have. -/
theorem joinWith_closed {P : Text → Prop} (hP : ∀ {a b}, P a → P b → P (a ++ '\n' :: b)) :
    ∀ {ls : List Text}, ls ≠ [] → (∀ l ∈ ls, P l) → P (joinWith ['\n'] ls)
  | [l], _, h => h l List.mem_cons_self
  | l :: k :: ls, _, h => by
    rw [joinWith, List.append_assoc, List.singleton_append]
    exact hP (h l List.mem_cons_self)
      (joinWith_closed hP (List.cons_ne_nil k ls) fun j hj => h j (List.mem_cons_of_mem _ hj))

theorem forall_mem_joinWith {P : Char → Prop} {sep : Text} (hsep : ∀ c ∈ sep, P c) :
    ∀ {ts : List Text}, (∀ c ∈ joinWith sep ts, P c) ↔ ∀ t ∈ ts, ∀ c ∈ t, P c
  | [] => by simp [joinWith]
  | [t] => by simp [joinWith]
  | t :: u :: ts => by
    rw [joinWith, List.forall_mem_append, List.forall_mem_append, forall_mem_joinWith hsep,
      and_iff_left hsep]
    exact (List.forall_mem_cons (p := fun t => ∀ c ∈ t, P c)).symm

/-- The text of lines. -/
def joined (ls : List Text) : Text := ls.flatMap fun l => l ++ "\n"

theorem joined_cons (l : Text) (ls : List Text) (t : Text) :
    joined (l :: ls) ++ t = l ++ '\n' :: (joined ls ++ t) := by
  simp [joined]

theorem joined_append (ls ks : List Text) : joined (ls ++ ks) = joined ls ++ joined ks :=
  List.flatMap_append

theorem joinWith_feed : ∀ {ls : List Text}, ls ≠ [] → joinWith ['\n'] ls ++ ['\n'] = joined ls
  | [l], _ => by simp [joinWith, joined]
  | l :: k :: ls, _ => by
    rw [joinWith, List.append_assoc, joinWith_feed (List.cons_ne_nil k ls)]
    simp [joined]

theorem linesFrom_of_not_isLineBreak {l : Text} (h : ∀ c ∈ l, isLineBreak c = false)
    (begun t : Text) : linesFrom false begun (l ++ t) = linesFrom false (l.reverse ++ begun) t := by
  induction l generalizing begun with
  | nil => rfl
  | cons c l ih =>
    rw [List.cons_append, linesFrom, Bool.false_and, if_neg (by simp),
      if_neg (by simp [h c List.mem_cons_self]), ih fun d hd => h d (List.mem_cons_of_mem _ hd),
      List.reverse_cons, List.append_assoc, List.singleton_append]

/-- A line without a break in it is read as one line. -/
theorem lines_cons_line {l : Text} (h : ∀ c ∈ l, isLineBreak c = false) (t : Text) :
    lines (l ++ '\n' :: t) = l :: lines t := by
  rw [lines, linesFrom_of_not_isLineBreak h, linesFrom]
  simp [lines, isLineBreak]

theorem lines_joined {ls : List Text} (h : ∀ l ∈ ls, ∀ c ∈ l, isLineBreak c = false) (t : Text) :
    lines (joined ls ++ t) = ls ++ lines t := by
  induction ls with
  | nil => rfl
  | cons l ls ih =>
    obtain ⟨hl, hls⟩ := List.forall_mem_cons.1 h
    rw [joined_cons, lines_cons_line hl, ih hls, List.cons_append]

theorem lines_of_not_isLineBreak {l : Text} (hne : l ≠ []) (h : ∀ c ∈ l, isLineBreak c = false) :
    lines l = [l] := by
  have hl := linesFrom_of_not_isLineBreak h [] []
  rw [List.append_nil, List.append_nil] at hl
  rw [lines, hl, linesFrom, if_neg (by simp [hne]), List.reverse_reverse]

/-- A line feed that follows a character of a line ends the line. -/
theorem lines_append (b : Text) {d : Char} (hd : isLineBreak d = false) (a : Text) :
    lines (a ++ [d] ++ '\n' :: b) = lines (a ++ [d]) ++ lines b := by
  have hfrom : ∀ (a begun : Text) (returned : Bool),
      linesFrom returned begun (a ++ [d] ++ '\n' :: b) =
        linesFrom returned begun (a ++ [d]) ++ linesFrom false [] b := by
    intro a
    induction a with
    | nil =>
      intro begun returned
      have hn : d ≠ '\n' := by
        rintro rfl
        cases hd
      have hfeed : isLineBreak '\n' = true := rfl
      simp [linesFrom, hd, hn, hfeed]
    | cons c a ih =>
      intro begun returned
      simp only [List.cons_append, linesFrom]
      split_ifs
      · exact ih _ _
      · rw [List.cons_append, ← ih]
      · exact ih _ _
  exact hfrom a [] false

/-- The lines of a text are stretches of it; right after a return no line has begun. -/
theorem infix_of_mem_linesFrom : ∀ {t begun l : Text} {returned : Bool},
    (returned = true → begun = []) → l ∈ linesFrom returned begun t → l <:+: begun.reverse ++ t
  | [], begun, l, returned, _, h => by
    rw [linesFrom] at h
    split_ifs at h
    · simp at h
    · rw [List.mem_singleton.1 h, List.append_nil]
  | c :: t, begun, l, returned, hb, h => by
    rw [linesFrom] at h
    split_ifs at h with hr
    · obtain rfl := hb (Bool.and_eq_true_iff.1 hr).1
      exact (infix_of_mem_linesFrom (by simp) h).trans (List.suffix_cons c t).isInfix
    · rcases List.mem_cons.1 h with rfl | h
      · exact ⟨[], c :: t, rfl⟩
      · exact (infix_of_mem_linesFrom (by simp) h).trans ⟨begun.reverse ++ [c], [], by simp⟩
    · have := infix_of_mem_linesFrom (by simp) h
      rwa [List.reverse_cons, List.append_assoc, List.singleton_append] at this

theorem infix_of_mem_lines {t l : Text} (h : l ∈ lines t) : l <:+: t :=
  infix_of_mem_linesFrom (by simp) h

end Text

end VerilogIndex
