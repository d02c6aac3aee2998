import VerilogIndex.Proofs.Defaults

/-!
# Blanking comments

Blanking replaces characters one by one (`forall₂_blankComments`), so every offset, and every line
feed, stays where it is. Whether a comment opens in a text can be read off its pairs of neighbours
(`Source.Clear`), and the texts in which none does are exactly those that blanking leaves alone
(`blankComments_eq_self_iff`). Main statement: blanking is a projection onto these texts
(`blankComments_projection`).
-/

namespace VerilogIndex.Source

open Text

/-- The character stays, or it is no line feed and becomes a space. -/
def Blanks (c d : Char) : Prop := d = c ∨ c ≠ '\n' ∧ d = ' '

theorem forall₂_blanked : ∀ p : Piece, List.Forall₂ Blanks p.text p.blanked
  | .code c => .cons (.inl rfl) .nil
  | .comment t => by
    rw [Piece.text, Piece.blanked, List.forall₂_map_right_iff, List.forall₂_same]
    intro c _
    split_ifs with hc
    · exact .inl rfl
    · exact .inr ⟨hc, rfl⟩

theorem forall₂_blankComments (t : Text) : List.Forall₂ Blanks t (blankComments t) := by
  obtain ⟨ps, hps⟩ := exists_pieces none t
  rw [hps.blankComments_eq]
  nth_rewrite 1 [← hps.text_eq]
  clear hps
  induction ps with
  | nil => exact .nil
  | cons p ps ih => exact List.rel_append (forall₂_blanked p) ih

theorem getElem?_blankComments {t : Text} {i : Nat} {c : Char} (h : t[i]? = some c) :
    ∃ d, (blankComments t)[i]? = some d ∧ Blanks c d := by
  have hall := forall₂_blankComments t
  obtain ⟨hi, rfl⟩ := List.getElem?_eq_some_iff.1 h
  have hi' : i < (blankComments t).length := hall.length_eq ▸ hi
  exact ⟨_, List.getElem?_eq_getElem hi', hall.get hi hi'⟩

/-! ## Texts without a comment -/

/-- No comment opens in the text: a slash never has an asterisk after it, and two slashes stand
right after a colon or a backslash only. -/
structure Clear (t : Text) : Prop where
  block : ¬ ['/', '*'] <:+: t
  line : ∀ a b, t = a ++ '/' :: '/' :: b → ∃ c, a.getLast? = some c ∧ (c = ':' ∨ c = '\\')

/-- No comment opens in a text that follows the character `last`. -/
def ClearAfter (last : Option Char) (t : Text) : Prop :=
  Apart '/' '*' t ∧ ∀ a b, t = a ++ '/' :: '/' :: b → (a.getLast?.or last).any guards = true

theorem clearAfter_none {t : Text} : ClearAfter none t ↔ Clear t := by
  have hany : ∀ o : Option Char, (o.or none).any guards = true ↔
      ∃ c, o = some c ∧ (c = ':' ∨ c = '\\') := by
    rintro (_ | c) <;> simp [guards]
  simp only [ClearAfter, hany]
  exact ⟨fun h => ⟨h.1, h.2⟩, fun h => ⟨h.1, h.2⟩⟩

theorem clearAfter_cons {last : Option Char} {c : Char} {t : Text} :
    ClearAfter last (c :: t) ↔ ¬ (c = '/' ∧ t.head? = some '*')
      ∧ (c = '/' → t.head? = some '/' → last.any guards = true) ∧ ClearAfter (some c) t := by
  have hlast : ∀ a : Text, ((c :: a).getLast?.or last) = a.getLast?.or (some c) := by
    intro a
    rcases List.eq_nil_or_concat' a with rfl | ⟨a, d, rfl⟩
    · rfl
    · rw [← List.cons_append, List.getLast?_concat, List.getLast?_concat, Option.some_or,
        Option.some_or]
  constructor
  · rintro ⟨hblock, hline⟩
    obtain ⟨hpair, hblock⟩ := apart_cons.1 hblock
    refine ⟨hpair, ?_, hblock, fun a b ht => ?_⟩
    · rintro rfl hd
      obtain ⟨b, rfl⟩ := List.head?_eq_some_iff.1 hd
      exact hline [] b rfl
    · rw [← hlast]
      exact hline (c :: a) b (by rw [ht, List.cons_append])
  · rintro ⟨hpair, hopen, hblock, hline⟩
    refine ⟨apart_cons.2 ⟨hpair, hblock⟩, fun a b ht => ?_⟩
    rcases a with _ | ⟨d, a⟩
    · obtain ⟨rfl, rfl⟩ := List.cons.inj ht
      exact hopen rfl rfl
    · obtain ⟨rfl, rfl⟩ := List.cons.inj ht
      rw [hlast]
      exact hline a b rfl

theorem blankFrom_eq_self_iff : ∀ {t : Text} {last : Option Char},
    blankFrom (.code (last.any guards)) t = t ↔ ClearAfter last t
  | [], last => by simp [blankFrom, ClearAfter, apart_nil]
  | c :: t, last => by
    have ih : blankFrom (.code (guards c)) t = t ↔ ClearAfter (some c) t :=
      @blankFrom_eq_self_iff t (some c)
    rw [clearAfter_cons, ← ih]
    constructor
    · intro h
      obtain ⟨hs, ht⟩ := step_of_blankFrom_eq h
      rcases step_code_cases (last.any guards) c t.head? with ⟨-, hblock, hline⟩ | ⟨block, ho⟩
      · refine ⟨hblock, fun hc hd => ?_, ht⟩
        by_contra hg
        exact hline ⟨hc, hd, by simpa using hg⟩
      · rw [hs] at ho
        cases ho
    · rintro ⟨hblock, hline, ht⟩
      rcases step_code_cases (last.any guards) c t.head? with ⟨hs, -⟩ | ⟨block, ho⟩
      · rw [blankFrom, hs]
        exact congrArg (c :: ·) ht
      · -- both ways to open a comment are ruled out
        rw [Place.step, if_neg hblock, if_neg] at ho
        · cases ho
        · rintro ⟨hc, hd, hg⟩
          rw [hline hc hd] at hg
          cases hg

theorem blankComments_eq_self_iff {t : Text} : blankComments t = t ↔ Clear t :=
  blankFrom_eq_self_iff.trans clearAfter_none

/-- Blanking the comments of a text keeps its length, keeps each character or puts a space in its
place, and keeps the line feeds where they are. Blanking again changes nothing: no comment opens in
what is left, and a text in which none opens is left as it is. -/
theorem blankComments_projection (t : Text) :
    (blankComments t).length = t.length
      ∧ (∀ (i : Nat) (c : Char), t[i]? = some c →
          (blankComments t)[i]? = some c ∨ (blankComments t)[i]? = some ' ')
      ∧ (∀ i : Nat, (blankComments t)[i]? = some '\n' ↔ t[i]? = some '\n')
      ∧ blankComments (blankComments t) = blankComments t
      ∧ Clear (blankComments t) ∧ (Clear t ↔ blankComments t = t) := by
  have hlength : (blankComments t).length = t.length := (forall₂_blankComments t).length_eq.symm
  have hidem := blankComments_blankComments t
  refine ⟨hlength, fun i c h => ?_, fun i => ?_, hidem, blankComments_eq_self_iff.1 hidem,
    blankComments_eq_self_iff.symm⟩
  · obtain ⟨d, hd, rfl | ⟨-, rfl⟩⟩ := getElem?_blankComments h
    · exact .inl hd
    · exact .inr hd
  · rcases hi : t[i]? with _ | c
    · have : (blankComments t)[i]? = none := by
        rw [List.getElem?_eq_none_iff, hlength]
        exact List.getElem?_eq_none_iff.1 hi
      simp [this]
    · obtain ⟨d, hd, rfl | ⟨hc, rfl⟩⟩ := getElem?_blankComments hi
      · rw [hd]
      · rw [hd]
        simp [hc]

end VerilogIndex.Source
