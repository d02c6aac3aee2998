import VerilogIndex.Proofs.Comments
import VerilogIndex.Proofs.Spacing

/-!
# Code and comments

A text is read from left to right as characters of code and whole comments (`Source.Pieces`), and
which characters open and close a comment is said there without a scan. Every text has its pieces
(`exists_pieces`), and blanking the comments of a text is blanking those of its pieces
(`Pieces.blankFrom_eq`). Therefore a word of the blanked text is made of characters of code at the
same place in the text itself, and no word character follows it there if none does in the blanked
text (`Pieces.word`). A blanked text has no comments left (`blankComments_blankComments`).
-/

namespace VerilogIndex.Source

open Text

/-- A character of code, or a whole comment. -/
inductive Piece where
  | code (c : Char)
  | comment (t : Text)
  deriving DecidableEq, Repr

namespace Piece

def text : Piece → Text
  | .code c => [c]
  | .comment t => t

/-- A comment is blanked but for its line feeds. -/
def blanked : Piece → Text
  | .code c => [c]
  | .comment t => t.map fun c => if c = '\n' then c else ' '

end Piece

/-- The character keeps two slashes after it from opening a comment. -/
def guards (c : Char) : Bool := c == ':' || c == '\\'

/-- The comment that opens after the character `last` and has `rest` after it. -/
inductive CommentBefore (last : Option Char) : (k rest : Text) → Prop
  | line {body rest : Text} (hlast : last.any guards = false) (hbody : '\n' ∉ body)
      (hrest : rest = [] ∨ rest.head? = some '\n') : CommentBefore last ('/' :: '/' :: body) rest
  | block {body rest : Text} (hbody : Apart '*' '/' (body ++ ['*'])) :
      CommentBefore last ('/' :: '*' :: (body ++ ['*', '/'])) rest
  | unclosed {body : Text} (hbody : Apart '*' '/' body) : CommentBefore last ('/' :: '*' :: body) []

/-- The pieces of a text that follows the character `last`. -/
inductive Pieces : (last : Option Char) → Text → List Piece → Prop
  | nil {last : Option Char} : Pieces last [] []
  | comment {last : Option Char} {k rest : Text} {ps : List Piece} (hk : CommentBefore last k rest)
      (hrest : Pieces k.getLast? rest ps) : Pieces last (k ++ rest) (.comment k :: ps)
  | code {last : Option Char} {c : Char} {t : Text} {ps : List Piece}
      (hc : ∀ k rest, CommentBefore last k rest → k ++ rest ≠ c :: t) (ht : Pieces (some c) t ps) :
      Pieces last (c :: t) (.code c :: ps)

theorem CommentBefore.head {last : Option Char} {k rest : Text} (h : CommentBefore last k rest) :
    k.head? = some '/' := by
  cases h <;> rfl

theorem exists_pieces (last : Option Char) : ∀ t : Text, ∃ ps, Pieces last t ps
  | [] => ⟨[], .nil⟩
  | c :: t => by
    by_cases h : ∃ k rest, CommentBefore last k rest ∧ k ++ rest = c :: t
    · obtain ⟨k, rest, hk, he⟩ := h
      have hlt : rest.length ≤ t.length := by
        obtain ⟨k', rfl⟩ := List.head?_eq_some_iff.1 hk.head
        have := congrArg List.length he
        simp only [List.length_append, List.length_cons] at this
        omega
      obtain ⟨ps, hps⟩ := exists_pieces k.getLast? rest
      exact ⟨.comment k :: ps, he ▸ .comment hk hps⟩
    · obtain ⟨ps, hps⟩ := exists_pieces (some c) t
      exact ⟨.code c :: ps, .code (fun k rest hk he => h ⟨k, rest, hk, he⟩) hps⟩
termination_by t => t.length

/-! ## Where comments open and close -/

/-- A text either has no closing of a block comment, or it is cut at its first one. -/
theorem apart_or_cut : ∀ t : Text, Apart '*' '/' t ∨
    ∃ body rest, t = body ++ '*' :: '/' :: rest ∧ Apart '*' '/' (body ++ ['*'])
  | [] => .inl apart_nil
  | c :: t => by
    by_cases hc : c = '*' ∧ t.head? = some '/'
    · obtain ⟨rfl, hd⟩ := hc
      obtain ⟨rest, rfl⟩ : ∃ rest, t = '/' :: rest := List.head?_eq_some_iff.1 hd
      exact .inr ⟨[], rest, rfl, by decide⟩
    · rcases apart_or_cut t with h | ⟨body, rest, rfl, h⟩
      · exact .inl (apart_cons.2 ⟨hc, h⟩)
      · refine .inr ⟨c :: body, rest, rfl, apart_cons.2 ⟨fun he => hc ⟨he.1, ?_⟩, h⟩⟩
        rcases body with _ | ⟨d, body⟩
        · simpa using he.2
        · exact he.2

theorem exists_block (last : Option Char) (t : Text) :
    ∃ k rest, CommentBefore last k rest ∧ k ++ rest = '/' :: '*' :: t := by
  rcases apart_or_cut t with h | ⟨body, rest, rfl, h⟩
  · exact ⟨_, [], .unclosed h, List.append_nil _⟩
  · exact ⟨_, rest, .block h, by simp⟩

theorem exists_line {last : Option Char} (hlast : last.any guards = false) (t : Text) :
    ∃ k rest, CommentBefore last k rest ∧ k ++ rest = '/' :: '/' :: t := by
  refine ⟨'/' :: '/' :: t.takeWhile (· != '\n'), t.dropWhile (· != '\n'), .line hlast ?_ ?_, ?_⟩
  · intro h
    simpa using List.mem_takeWhile_imp h
  · rcases hd : t.dropWhile (· != '\n') with _ | ⟨d, r⟩
    · exact .inl rfl
    · have := List.head_dropWhile_not (· != '\n') (l := t) (by simp [hd])
      simp only [hd, List.head_cons, bne_eq_false_iff_eq] at this
      exact .inr (by rw [this]; rfl)
  · rw [List.cons_append, List.cons_append, List.takeWhile_append_dropWhile]

/-- A character at which no comment opens is kept. -/
theorem step_of_code {last : Option Char} {c : Char} {t : Text}
    (hc : ∀ k rest, CommentBefore last k rest → k ++ rest ≠ c :: t) :
    Place.step (.code (last.any guards)) c t.head? = (c, .code (guards c)) := by
  rw [Place.step, if_neg, if_neg]
  · rfl
  · rintro ⟨rfl, hd, hlast⟩
    obtain ⟨r, rfl⟩ := List.head?_eq_some_iff.1 hd
    obtain ⟨k, rest, hk, he⟩ := exists_line hlast r
    exact hc k rest hk he
  · rintro ⟨rfl, hd⟩
    obtain ⟨r, rfl⟩ := List.head?_eq_some_iff.1 hd
    obtain ⟨k, rest, hk, he⟩ := exists_block last r
    exact hc k rest hk he

theorem blankFrom_line {rest : Text} (hrest : rest = [] ∨ rest.head? = some '\n') (guarded : Bool) :
    ∀ {body : Text}, '\n' ∉ body → blankFrom .line (body ++ rest) =
      (Piece.comment body).blanked ++ blankFrom (.code guarded) rest
  | [], _ => by
    rcases hrest with rfl | hrest
    · rfl
    · obtain ⟨r, rfl⟩ := List.head?_eq_some_iff.1 hrest
      simp [blankFrom, Place.step, Piece.blanked]
  | c :: body, h => by
    rw [List.mem_cons, not_or] at h
    have hc : ¬ c = '\n' := Ne.symm h.1
    have ih := blankFrom_line hrest guarded h.2
    simp only [Piece.blanked] at ih
    simp only [List.cons_append, blankFrom, Place.step, if_neg hc, ih, Piece.blanked, List.map_cons]

theorem blankFrom_block (rest : Text) : ∀ {body : Text}, Apart '*' '/' (body ++ ['*']) →
    blankFrom .block (body ++ '*' :: '/' :: rest) =
      (Piece.comment (body ++ ['*', '/'])).blanked ++ blankFrom (.code false) rest
  | [], _ => by simp [blankFrom, Place.step, Piece.blanked]
  | c :: body, h => by
    rw [List.cons_append, apart_cons] at h
    have hc : ¬ (c = '*' ∧ (body ++ '*' :: '/' :: rest).head? = some '/') := by
      rintro ⟨rfl, hd⟩
      refine h.1 ⟨rfl, ?_⟩
      rcases body with _ | ⟨d, body⟩
      · simp at hd
      · exact hd
    have ih := blankFrom_block rest h.2
    simp only [Piece.blanked] at ih
    simp only [List.cons_append, blankFrom, Place.step, if_neg hc, ih, Piece.blanked, List.map_cons]

theorem blankFrom_unclosed : ∀ {body : Text}, Apart '*' '/' body →
    blankFrom .block body = (Piece.comment body).blanked
  | [], _ => rfl
  | c :: body, h => by
    rw [apart_cons] at h
    have ih := blankFrom_unclosed h.2
    simp only [Piece.blanked] at ih
    simp only [blankFrom, Place.step, if_neg h.1, ih, Piece.blanked, List.map_cons]

/-- A comment is blanked as a whole. -/
theorem CommentBefore.blankFrom_append {last : Option Char} {k rest : Text}
    (h : CommentBefore last k rest) : blankFrom (.code (last.any guards)) (k ++ rest) =
      (Piece.comment k).blanked ++ blankFrom (.code (k.getLast?.any guards)) rest := by
  cases h with
  | @line body _ hlast hbody hrest =>
    have := blankFrom_line hrest ((('/' :: '/' :: body).getLast?).any guards) hbody
    simp only [List.cons_append, blankFrom, Place.step, hlast, List.head?_cons]
    simp [this, Piece.blanked]
  | @block body _ hbody =>
    have := blankFrom_block rest hbody
    have hlast : ('/' :: '*' :: (body ++ ['*', '/'])).getLast? = some '/' := by
      rw [show '/' :: '*' :: (body ++ ['*', '/']) = ('/' :: '*' :: (body ++ ['*'])) ++ ['/'] by
        simp,
        List.getLast?_concat]
    rw [hlast]
    simp only [List.cons_append, List.append_assoc, List.nil_append, blankFrom, Place.step,
      List.head?_cons, and_self, if_true, this]
    simp [Piece.blanked, guards]
  | @unclosed body hbody =>
    have := blankFrom_unclosed hbody
    simp only [List.append_nil, blankFrom, Place.step, List.head?_cons, and_self, if_true, this]
    simp [Piece.blanked]

/-! ## A text and its pieces -/

namespace Pieces

variable {last : Option Char} {t : Text} {ps : List Piece}

theorem text_eq (h : Pieces last t ps) : ps.flatMap Piece.text = t := by
  induction h with
  | nil => rfl
  | comment _ _ ih => rw [List.flatMap_cons, ih, Piece.text]
  | code _ _ ih => rw [List.flatMap_cons, ih, Piece.text, List.singleton_append]

theorem blankFrom_eq (h : Pieces last t ps) :
    blankFrom (.code (last.any guards)) t = ps.flatMap Piece.blanked := by
  induction h with
  | nil => rfl
  | comment hk _ ih => rw [hk.blankFrom_append, ih, List.flatMap_cons]
  | code hc _ ih =>
    rw [blankFrom, step_of_code hc, List.flatMap_cons, ← ih]
    rfl

theorem blankComments_eq (h : Pieces none t ps) : blankComments t = ps.flatMap Piece.blanked :=
  h.blankFrom_eq

theorem head_comment (h : Pieces last t ps) : ∀ k, .comment k ∈ ps → k.head? = some '/' := by
  induction h with
  | nil => simp
  | comment hk _ ih =>
    intro k hmem
    rcases List.mem_cons.1 hmem with he | hmem
    · cases he
      exact hk.head
    · exact ih k hmem
  | code _ _ ih =>
    intro k hmem
    rcases List.mem_cons.1 hmem with he | hmem
    · cases he
    · exact ih k hmem

/-- Line feeds stay where they are. -/
theorem lineFeeds_eq (h : Pieces none t ps) :
    (blankComments t).map (· == '\n') = t.map (· == '\n') := by
  have hp : ∀ p : Piece, p.blanked.map (· == '\n') = p.text.map (· == '\n') := by
    rintro (c | k)
    · rfl
    · simp only [Piece.blanked, Piece.text, List.map_map]
      refine List.map_congr_left fun c _ => ?_
      by_cases hc : c = '\n' <;> simp [hc]
  rw [h.blankComments_eq, ← h.text_eq, List.map_flatMap, List.map_flatMap]
  exact List.flatMap_congr fun p _ => hp p

end Pieces

/-! ## Words of code -/

theorem not_isWord_of_mem_blanked {k : Text} {c : Char} (h : c ∈ (Piece.comment k).blanked) :
    isWord c = false := by
  obtain ⟨d, -, rfl⟩ := List.mem_map.1 h
  split_ifs with hd
  · rw [hd]
    exact not_isWord_of_isBlank (by decide)
  · exact not_isWord_of_isBlank (by decide)

/-- The pieces before a word character of the blanked text end where it stands. -/
theorem pieces_before {c : Char} (hc : isWord c = true) (v : Text) :
    ∀ (ps : List Piece) {u : Text}, ps.flatMap Piece.blanked = u ++ c :: v →
      ∃ before after, ps = before ++ after ∧ before.flatMap Piece.blanked = u
        ∧ after.flatMap Piece.blanked = c :: v
  | [], u, h => by simp at h
  | p :: ps, u, h => by
    rw [List.flatMap_cons, List.append_eq_append_iff] at h
    rcases h with ⟨u', rfl, hps⟩ | ⟨v', hp, hv⟩
    · obtain ⟨before, after, rfl, rfl, hafter⟩ := pieces_before hc v ps hps
      exact ⟨p :: before, after, rfl, List.flatMap_cons, hafter⟩
    · rcases v' with _ | ⟨d, v'⟩
      · exact ⟨[p], ps, rfl, by simpa using hp, by simpa using hv.symm⟩
      -- the word character lies within the piece, which is therefore a character of code
      · obtain ⟨rfl, -⟩ := List.cons.inj hv
        rcases p with e | k
        · rcases u with _ | ⟨a, u⟩
          · refine ⟨[], .code e :: ps, rfl, rfl, ?_⟩
            rw [List.flatMap_cons, hp, hv, List.nil_append]
          · simp [Piece.blanked] at hp
        · have hmem : c ∈ (Piece.comment k).blanked := by simp [hp]
          rw [not_isWord_of_mem_blanked hmem] at hc
          cases hc

/-- A word with which the blanked text starts is made of characters of code. -/
theorem pieces_word : ∀ {w r : Text} {ps : List Piece}, (∀ c ∈ w, isWord c = true) →
    (∀ k, .comment k ∈ ps → k.head? = some '/') → ps.flatMap Piece.blanked = w ++ r →
    ∃ after, ps = w.map .code ++ after ∧ after.flatMap Piece.blanked = r
  | [], r, ps, _, _, h => ⟨ps, rfl, h⟩
  | c :: w, r, [], _, _, h => by simp at h
  | c :: w, r, .code d :: ps, hw, hk, h => by
    obtain ⟨rfl, hps⟩ : d = c ∧ ps.flatMap Piece.blanked = w ++ r := List.cons.inj h
    obtain ⟨after, rfl, hafter⟩ := pieces_word (fun c hc => hw c (List.mem_cons_of_mem _ hc))
      (fun k hmem => hk k (List.mem_cons_of_mem _ hmem)) hps
    exact ⟨after, rfl, hafter⟩
  | c :: w, r, .comment k :: ps, hw, hk, h => by
    obtain ⟨k', rfl⟩ := List.head?_eq_some_iff.1 (hk k List.mem_cons_self)
    have hmem : c ∈ (Piece.comment ('/' :: k')).blanked := by
      rw [Piece.blanked, List.map_cons, ← (List.cons.inj h).1]
      exact List.mem_cons_self
    have := hw c List.mem_cons_self
    rw [not_isWord_of_mem_blanked hmem] at this
    cases this

theorem length_blanked (ps : List Piece) :
    (ps.flatMap Piece.blanked).length = (ps.flatMap Piece.text).length := by
  have hp : ∀ p : Piece, p.blanked.length = p.text.length := by
    rintro (c | k) <;> simp [Piece.blanked, Piece.text]
  simp [List.length_flatMap, hp]

/-- No comment covers a character of the word that stands at the offset: read as pieces, the text
has the characters of the word as code, and the pieces before them fill it up to the offset. -/
def OutsideComments (t w : Text) (offset : Nat) : Prop :=
  ∀ ps, Pieces none t ps → ∃ before after, ps = before ++ (w.map .code ++ after)
    ∧ (before.flatMap Piece.text).length = offset

namespace Pieces

variable {t w r : Text} {ps : List Piece} {offset : Nat}

theorem word (h : Pieces none t ps) (hne : w ≠ []) (hw : ∀ c ∈ w, isWord c = true)
    (hd : (blankComments t).drop offset = w ++ r) : ∃ before after,
      ps = before ++ (w.map .code ++ after) ∧ (before.flatMap Piece.text).length = offset
        ∧ after.flatMap Piece.blanked = r := by
  obtain ⟨c, w', rfl⟩ := List.exists_cons_of_ne_nil hne
  have hsplit : ps.flatMap Piece.blanked = (blankComments t).take offset ++ c :: (w' ++ r) := by
    rw [← List.cons_append, ← hd, List.take_append_drop, h.blankComments_eq]
  obtain ⟨before, rest, rfl, hbefore, hrest⟩ :=
    pieces_before (hw c List.mem_cons_self) _ ps hsplit
  obtain ⟨after, rfl, hafter⟩ := pieces_word hw
    (fun k hmem => h.head_comment k (List.mem_append_right _ hmem)) hrest
  refine ⟨before, after, rfl, ?_, hafter⟩
  have hlt : offset < (blankComments t).length := by
    by_contra hle
    rw [List.drop_eq_nil_of_le (not_lt.1 hle)] at hd
    cases hd
  rw [← length_blanked, hbefore, List.length_take_of_le hlt.le]

/-- The word stands in the text itself where it stands in the blanked one, and a word that ends in
the blanked text ends in the text: what follows it is the same or opens a comment. -/
theorem drop_eq (h : Pieces none t ps) (hne : w ≠ []) (hw : ∀ c ∈ w, isWord c = true)
    (hd : (blankComments t).drop offset = w ++ r) (hr : startsWord r = false) :
    ∃ r', t.drop offset = w ++ r' ∧ startsWord r' = false := by
  obtain ⟨before, after, rfl, hoffset, hafter⟩ := h.word hne hw hd
  refine ⟨after.flatMap Piece.text, ?_, ?_⟩
  · rw [← h.text_eq, ← hoffset, List.flatMap_append, List.drop_left, List.flatMap_append,
      List.flatMap_map]
    simp [Piece.text]
  · rcases after with _ | ⟨c | k, after⟩
    · rfl
    · rw [← hafter] at hr
      exact hr
    · obtain ⟨k', rfl⟩ := List.head?_eq_some_iff.1 (h.head_comment k (by simp))
      rfl

end Pieces

/-! ## Blanking twice -/

/-- What starts a text blanked from code on starts the text, unless it is a blank. -/
theorem head?_blankFrom {guarded : Bool} {t : Text} {d : Char} (hd : d ≠ ' ')
    (h : (blankFrom (.code guarded) t).head? = some d) : t.head? = some d := by
  rcases t with _ | ⟨c, t⟩
  · exact h
  · simp only [blankFrom, Place.step, List.head?_cons] at h
    split_ifs at h
    · exact absurd (Option.some.inj h).symm hd
    · exact absurd (Option.some.inj h).symm hd
    · exact h

theorem step_of_blank {c : Char} (hc : c = ' ' ∨ c = '\n') (guarded : Bool) (next : Option Char) :
    Place.step (.code guarded) c next = (c, .code false) := by
  rcases hc with rfl | rfl <;> rfl

/-- Outside of comments, a step keeps the character or blanks it and goes into a comment. -/
theorem step_code_cases (guarded : Bool) (c : Char) (next : Option Char) :
    (Place.step (.code guarded) c next = (c, .code (guards c))
        ∧ ¬ (c = '/' ∧ next = some '*') ∧ ¬ (c = '/' ∧ next = some '/' ∧ guarded = false))
      ∨ ∃ block, Place.step (.code guarded) c next = (' ', .opening block) := by
  rw [Place.step]
  split_ifs with h1 h2
  · exact .inr ⟨true, rfl⟩
  · exact .inr ⟨false, rfl⟩
  · exact .inl ⟨rfl, h1, h2⟩

/-- Inside of comments, a step leaves a blank, and code after it is not guarded. -/
theorem step_comment {place : Place} (h : ∀ g, place ≠ .code g) (c : Char) (next : Option Char) :
    ((place.step c next).1 = ' ' ∨ (place.step c next).1 = '\n')
      ∧ ∀ g, (place.step c next).2 = .code g → g = false := by
  rcases place with g | (_ | _) | _ | _ | _
  · exact absurd rfl (h g)
  · simp [Place.step]
  · simp [Place.step]
  · rw [Place.step]
    split_ifs with hc <;> simp [hc]
  · rw [Place.step]
    split_ifs with hc hn
    · simp
    · simp [hn]
    · simp
  · simp [Place.step]

/-- A text that was blanked from some place on opens no comment. -/
theorem blankFrom_blankFrom : ∀ (t : Text) (place : Place) (guarded : Bool),
    (∀ g, place = .code g → g = guarded) →
    blankFrom (.code guarded) (blankFrom place t) = blankFrom place t
  | [], _, _, _ => rfl
  | c :: t, place, guarded, h => by
    rw [blankFrom, blankFrom]
    by_cases hplace : ∃ g, place = .code g
    · obtain ⟨g, rfl⟩ := hplace
      obtain rfl := h g rfl
      rcases step_code_cases g c t.head? with ⟨hs, hblock, hline⟩ | ⟨block, hs⟩
      · rw [hs]
        have hkeep : Place.step (.code g) c (blankFrom (.code (guards c)) t).head? =
            (c, .code (guards c)) := by
          rw [Place.step, if_neg, if_neg]
          · rfl
          · exact fun he => hline ⟨he.1, head?_blankFrom (by decide) he.2.1, he.2.2⟩
          · exact fun he => hblock ⟨he.1, head?_blankFrom (by decide) he.2⟩
        simp only [hkeep, blankFrom_blankFrom t (.code (guards c)) _ fun g hg => by cases hg; rfl]
      · simp only [hs, step_of_blank (.inl rfl),
          blankFrom_blankFrom t (.opening block) false fun g hg => by cases hg]
    · obtain ⟨hblank, hcode⟩ := step_comment (fun g hg => hplace ⟨g, hg⟩) c t.head?
      simp only [step_of_blank hblank, blankFrom_blankFrom t _ false hcode]

theorem blankComments_blankComments (t : Text) :
    blankComments (blankComments t) = blankComments t :=
  blankFrom_blankFrom t (.code false) false fun g hg => by cases hg; rfl

end VerilogIndex.Source
