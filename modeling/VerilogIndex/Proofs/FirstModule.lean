import VerilogIndex.Proofs.Defaults
import VerilogIndex.Proofs.HeaderGrammar
import VerilogIndex.Proofs.HeaderStyles

/-!
# What follows a module

Text after the `endmodule` of a module takes no part in its interface. A text that ends in a word of
code is blanked by itself, whatever follows it (`EndsInCode.blankComments_append`). A heading and a
header that were found in a text stay what they are if the text goes on (`findHeadingFrom?_append`,
`header?_append`), and the first `endmodule` of a body stays the first one (`bodyOf_append_right`).
Main statement: `readModule_append`.
-/

namespace VerilogIndex.Source

open Text

/-! ## Comments -/

/-- A comment that other text follows ends where it did if that text goes on. -/
theorem CommentBefore.append {last : Option Char} {k rest : Text} (h : CommentBefore last k rest)
    (hne : rest ≠ []) (s : Text) : CommentBefore last k (rest ++ s) := by
  cases h with
  | line hlast hbody hrest =>
    refine .line hlast hbody (.inr ?_)
    rw [List.head?_append_of_ne_nil _ hne]
    exact hrest.resolve_left hne
  | block hbody => exact .block hbody
  | unclosed => exact absurd rfl hne

theorem Pieces.ne_nil {last : Option Char} {t : Text} {ps : List Piece} {c : Char}
    (h : Pieces last t (ps ++ [.code c])) : t ≠ [] := by
  rw [← h.text_eq]
  simp [Piece.text]

/-- What follows a last character of code is blanked by itself, unless a slash could open a comment
with it. -/
theorem Pieces.blankFrom_append {last : Option Char} {t : Text} {ps : List Piece} {c : Char}
    (h : Pieces last t (ps ++ [.code c])) (hc : c ≠ '/') (s : Text) :
    blankFrom (.code (last.any guards)) (t ++ s) =
      blankFrom (.code (last.any guards)) t ++ blankFrom (.code (guards c)) s := by
  generalize hqs : ps ++ [.code c] = qs at h
  -- only the last character of the text looks ahead into what follows, and it is no slash
  induction h generalizing ps with
  | nil => simp at hqs
  | @comment last k rest qs hk hrest ih =>
    rcases ps with _ | ⟨p, ps⟩
    · cases hqs
    · obtain ⟨rfl, rfl⟩ := List.cons.inj hqs
      rw [List.append_assoc, (hk.append hrest.ne_nil s).blankFrom_append, ih rfl,
        hk.blankFrom_append, List.append_assoc]
  | @code last d t qs hd ht ih =>
    have hstep := step_of_code hd
    rcases ps with _ | ⟨p, ps⟩
    · obtain ⟨hdc, rfl⟩ := List.cons.inj hqs
      obtain rfl : c = d := Piece.code.inj hdc
      obtain rfl : [] = t := ht.text_eq
      have hkeep : Place.step (.code (last.any guards)) c s.head? = (c, .code (guards c)) := by
        rw [Place.step, if_neg fun he => hc he.1, if_neg fun he => hc he.1]
        rfl
      rw [List.singleton_append, blankFrom, hkeep, blankFrom, hstep]
      rfl
    · obtain ⟨rfl, rfl⟩ := List.cons.inj hqs
      have hgo : blankFrom (.code (guards d)) (t ++ s) =
          blankFrom (.code (guards d)) t ++ blankFrom (.code (guards c)) s := ih rfl
      rw [List.cons_append, blankFrom, List.head?_append_of_ne_nil _ ht.ne_nil, blankFrom, hstep]
      exact congrArg (d :: ·) hgo

/-- The text ends in the word, of which no comment covers a character. -/
def EndsInCode (t w : Text) : Prop :=
  ∃ u, t = u ++ w ∧ endsWord false u = false ∧ OutsideComments t w u.length

/-- No word ends in blanked text that does not end in one. -/
theorem endsWord_blanked {last : Option Char} {t : Text} {ps qs : List Piece}
    (h : Pieces last t (ps ++ qs)) (hu : endsWord false (ps.flatMap Piece.text) = false) :
    endsWord false (ps.flatMap Piece.blanked) = false := by
  rcases List.eq_nil_or_concat' ps with rfl | ⟨ps, p, rfl⟩
  · rfl
  rw [List.flatMap_append, List.flatMap_singleton] at hu ⊢
  rcases p with c | k
  · rw [Piece.blanked, endsWord_concat]
    rwa [Piece.text, endsWord_concat] at hu
  · obtain ⟨k', rfl⟩ := List.head?_eq_some_iff.1 (h.head_comment k (by simp))
    obtain ⟨b, c, hb⟩ := (List.eq_nil_or_concat' (Piece.comment ('/' :: k')).blanked).resolve_left
      (by simp [Piece.blanked])
    rw [hb, ← List.append_assoc, endsWord_concat]
    exact not_isWord_of_mem_blanked (k := '/' :: k') (by simp [hb])

/-- The pieces of a text that ends in a word of code end in the characters of the word. -/
theorem EndsInCode.pieces {t w : Text} (h : EndsInCode t w) : ∃ ps : List Piece,
    Pieces none t (ps ++ w.map .code) ∧ endsWord false (ps.flatMap Piece.blanked) = false := by
  obtain ⟨u, rfl, hu, hout⟩ := h
  obtain ⟨ps, hps⟩ := exists_pieces none (u ++ w)
  obtain ⟨before, after, rfl, hlength⟩ := hout ps hps
  have hword : (w.map Piece.code).flatMap Piece.text = w := by
    rw [List.flatMap_map]
    simp [Piece.text]
  have htext := hps.text_eq
  rw [List.flatMap_append, List.flatMap_append, hword] at htext
  obtain ⟨hbefore, hafter⟩ := List.append_inj htext hlength
  have hnil : after.flatMap Piece.text = [] := by simpa using hafter
  -- every piece has a character
  obtain rfl : after = [] := by
    rcases after with _ | ⟨c | k, after⟩
    · rfl
    · cases hnil
    · obtain ⟨k', rfl⟩ := List.head?_eq_some_iff.1 (hps.head_comment k (by simp))
      cases hnil
  rw [List.append_nil] at hps
  exact ⟨before, hps, endsWord_blanked hps (hbefore ▸ hu)⟩

theorem ne_slash_of_isWord {c : Char} (h : isWord c = true) : c ≠ '/' ∧ guards c = false := by
  have hne : ∀ d, isWord d = false → c ≠ d := by
    rintro d hd rfl
    rw [h] at hd
    cases hd
  refine ⟨hne '/' (by decide), ?_⟩
  simp [guards, hne ':' (by decide), hne '\\' (by decide)]

/-- A text that ends in a word of code is blanked by itself, and still ends in the word. -/
theorem EndsInCode.blankComments_append {t w : Text} (h : EndsInCode t w)
    (hw : isIdentifier w = true) :
    (∀ s, blankComments (t ++ s) = blankComments t ++ blankComments s)
      ∧ ∃ u, blankComments t = u ++ w ∧ endsWord false u = false := by
  obtain ⟨ps, hps, hends⟩ := h.pieces
  refine ⟨fun s => ?_, ps.flatMap Piece.blanked, ?_, hends⟩
  · obtain ⟨v, c, rfl⟩ := (List.eq_nil_or_concat' w).resolve_left (ne_nil_of_isIdentifier hw)
    obtain ⟨hslash, hguard⟩ := ne_slash_of_isWord (isWord_of_isIdentifier hw c (by simp))
    rw [List.map_append, List.map_singleton, ← List.append_assoc] at hps
    have := hps.blankFrom_append hslash s
    rwa [hguard] at this
  · rw [hps.blankComments_eq, List.flatMap_append, List.flatMap_map]
    simp [Piece.blanked]

/-! ## Headings -/

section Headings

variable {d : Char}

theorem span_append_of_mem {p : Char → Bool} (hd : p d = false) (s : Text) : ∀ {t : Text}, d ∈ t →
    (t ++ s).takeWhile p = t.takeWhile p ∧ (t ++ s).dropWhile p = t.dropWhile p ++ s
      ∧ d ∈ t.dropWhile p
  | c :: t, h => by
    rcases hc : p c with _ | _
    · simpa [hc] using h
    · have hmem : d ∈ t := by
        rcases List.mem_cons.1 h with rfl | hmem
        · rw [hd] at hc
          cases hc
        · exact hmem
      simpa [hc] using span_append_of_mem hd s hmem

theorem after?_append_of_mem (s : Text) : ∀ {lead t : Text}, d ∉ lead → d ∈ t →
    after? lead (t ++ s) = (after? lead t).map (· ++ s)
  | [], _, _, _ => rfl
  | a :: lead, c :: t, hd, h => by
    rw [List.cons_append, after?, after?]
    split_ifs with hac
    · rw [List.mem_cons, not_or] at hd
      have hmem : d ∈ t := (List.mem_cons.1 h).resolve_left fun he => hd.1 (he.trans hac.symm)
      exact after?_append_of_mem s hd.2 hmem
    · rfl

theorem identifier?_append_of_mem (hd : isWord d = false) (s : Text) : ∀ {t : Text}, d ∈ t →
    identifier? (t ++ s) = (identifier? t).map fun w => (w.1, w.2 ++ s)
  | c :: t, h => by
    rw [List.cons_append, identifier?, identifier?]
    split_ifs with hc
    · have hmem : d ∈ t := by
        rcases List.mem_cons.1 h with rfl | hmem
        · rw [isWord_of_isIdentifierStart hc] at hd
          cases hd
        · exact hmem
      obtain ⟨htake, hdrop, -⟩ := span_append_of_mem hd s hmem
      rw [htake, hdrop]
      rfl
    · rfl

/-- Whether a text starts with a heading is told by the text up to a character that is neither a
blank nor part of a word. -/
theorem headingAt?_append_of_mem (hword : isWord d = false) (hblank : isBlank d = false) (s : Text)
    (start : Nat) {t : Text} (h : d ∈ t) : headingAt? start (t ++ s) =
      (headingAt? start t).map fun heading => { heading with rest := heading.rest ++ s } := by
  have hkeyword : d ∉ ("module" : Text) := fun hmem => by
    have hmodule : isIdentifier "module" = true := by decide +kernel
    rw [isWord_of_isIdentifier hmodule d hmem] at hword
    cases hword
  rw [headingAt?, headingAt?, after?_append_of_mem s hkeyword h]
  rcases hr : after? "module" t with _ | r
  · rfl
  have hmem : d ∈ r := by
    rw [after?_eq_some_iff.1 hr] at h
    exact (List.mem_append.1 h).resolve_left hkeyword
  obtain ⟨htake, hdrop, hrest⟩ := span_append_of_mem hblank s hmem
  simp only [Option.map_some, Option.bind_eq_bind, Option.bind_some, htake, hdrop,
    identifier?_append_of_mem hword s hrest]
  split_ifs
  · rfl
  · rcases identifier? (r.dropWhile isBlank) with _ | w <;> rfl

theorem findHeadingFrom?_append (hword : isWord d = false) (hblank : isBlank d = false) (s : Text) :
    ∀ {t : Text} {start : Nat} {glued : Bool} {h : Heading},
      findHeadingFrom? start glued t = some h →
      d ∈ h.rest → findHeadingFrom? start glued (t ++ s) = some { h with rest := h.rest ++ s }
  | [], _, _, _, hh, _ => by simp [findHeadingFrom?] at hh
  | c :: t, start, glued, h, hh, hd => by
    -- at no earlier place does a heading arise that reaches into what follows
    have hat := headingAt?_append_of_mem hword hblank s start
      ((suffix_of_findHeadingFrom? hh).subset hd)
    rw [findHeadingFrom?] at hh
    rw [List.cons_append, findHeadingFrom?, ← List.cons_append, hat]
    cases glued with
    | true => exact findHeadingFrom?_append hword hblank s hh hd
    | false =>
      rcases hfound : headingAt? start (c :: t) with _ | h'
      · simp only [hfound, Bool.false_eq_true, if_false] at hh
        exact findHeadingFrom?_append hword hblank s hh hd
      · simp only [hfound, Bool.false_eq_true, if_false] at hh
        rw [← Option.some.inj hh]
        rfl

end Headings

/-! ## Bodies -/

theorem endsWord_word {w : Text} (hw : isIdentifier w = true) (glued : Bool) :
    endsWord glued w = true := by
  obtain ⟨v, c, rfl⟩ := (List.eq_nil_or_concat' w).resolve_left (ne_nil_of_isIdentifier hw)
  rw [endsWord_concat]
  exact isWord_of_isIdentifier hw c (by simp)

/-- A text with the word is cut where the word stands first. -/
theorem exists_first_word {w : Text} (hw : isIdentifier w = true) : ∀ {t : Text} {glued : Bool},
    HasWord w glued t → ∃ b z, t = b ++ (w ++ z) ∧ ¬ HasWord w glued b ∧ endsWord glued b = false
      ∧ startsWord z = false
  | [], glued, h => absurd h (not_hasWord_nil (ne_nil_of_isIdentifier hw) glued)
  | c :: t, glued, h => by
    by_cases hs : standsAt w glued (c :: t) = true
    · obtain ⟨rfl, r, hr, hword⟩ := (standsAt_iff hw).1 hs
      exact ⟨[], r, hr, not_hasWord_nil (ne_nil_of_isIdentifier hw) false, rfl, hword⟩
    rw [standsAt_iff hw] at hs
    generalize hu : c :: t = u at h
    cases h with
    | @here r hr => exact absurd ⟨rfl, r, hu, hr⟩ hs
    | there h =>
      cases hu
      obtain ⟨b, z, rfl, hb, he, hz⟩ := exists_first_word hw h
      refine ⟨c :: b, z, rfl, fun hcb => ?_, he, hz⟩
      generalize hv : c :: b = v at hcb
      cases hcb with
      | there hcb =>
        cases hv
        exact hb hcb
      | @here r hr =>
        -- the word would stand at the start of the whole text as well
        refine hs ⟨rfl, r ++ (w ++ z), ?_, ?_⟩
        · rw [← List.cons_append, hv, List.append_assoc]
        · rcases r with _ | ⟨d, r⟩
          · have hend : endsWord false (c :: b) = false := he
            rw [hv, List.append_nil, endsWord_word hw] at hend
            cases hend
          · exact hr

theorem bodyOf_append_right {t s : Text} (h : HasWord "endmodule" false t)
    (hs : startsWord s = false) : bodyOf (t ++ s) = bodyOf t := by
  obtain ⟨b, z, rfl, hb, he, hz⟩ := exists_first_word isIdentifier_endmodule h
  have hzs : startsWord (z ++ s) = false := by
    rcases z with _ | ⟨c, z⟩
    · exact hs
    · exact hz
  rw [List.append_assoc, List.append_assoc, bodyOf_append hb he hzs, bodyOf_append hb he hz]

/-! ## Modules -/

theorem header?_append {t : Text} {h : Header} (hh : header? t = some h) (s : Text) :
    header? (t ++ s) = some { h with rest := h.rest ++ s } := by
  obtain ⟨p, hp, rfl⟩ := header?_eq_some_iff.1 hh
  refine header?_eq_some_iff.2 ⟨p, ?_, List.append_assoc _ _ _⟩
  rw [hp]
  rfl

theorem headerPorts_append {h : Header} {s : Text} (hw : HasWord "endmodule" false h.rest)
    (hs : startsWord s = false) : headerPorts { h with rest := h.rest ++ s } = headerPorts h := by
  rw [headerPorts, headerPorts]
  simp only [bodyOf_append_right hw hs]

theorem hasWord_end {w : Text} : ∀ {v : Text} {glued : Bool}, endsWord glued v = false →
    HasWord w glued (v ++ w)
  | [], glued, h => by
    obtain rfl : glued = false := h
    simpa using HasWord.here (w := w) (r := []) rfl
  | _ :: _, _, h => .there (hasWord_end h)

/-- A word that ends the text stands after the header. -/
theorem hasWord_of_header {a t u w : Text} {h : Header} (hh : header? t = some h)
    (hw : isIdentifier w = true) (hu : endsWord false u = false) (he : a ++ t = u ++ w) :
    HasWord w false h.rest := by
  obtain ⟨p, -, rfl⟩ := header?_eq_some_iff.1 hh
  obtain ⟨q, hq⟩ : ∃ q, a ++ p.text = q ++ [';'] :=
    ⟨a ++ (p.lead ++ (p.parameters.elim [] (·.text) ++ (enclosed p.ports ++ p.gap))), by
      simp [HeaderParts.text]⟩
  rw [← List.append_assoc, hq] at he
  rcases List.append_eq_append_iff.1 he with ⟨v, rfl, hrest⟩ | ⟨v, hv, rfl⟩
  · rw [hrest]
    rw [endsWord_append, endsWord_concat] at hu
    exact hasWord_end hu
  · rcases List.eq_nil_or_concat' v with rfl | ⟨v, c, rfl⟩
    · exact hasWord_end (v := []) rfl
    · -- the semicolon would be a character of the word
      rw [← List.append_assoc] at hv
      obtain ⟨-, hc⟩ := List.append_inj' hv rfl
      obtain rfl : ';' = c := (List.cons.inj hc).1
      have := isWord_of_isIdentifier hw ';' (by simp)
      cases this

theorem locate_append {t s name : Text} {offset : Nat} (h : NameAt t name offset)
    (h' : NameAt (t ++ s) name offset) (path : Text) :
    locate (t ++ s) name offset path = locate t name offset path := by
  have htake : (t ++ s).take offset = t.take offset :=
    List.take_append_of_le_length h.offset_le
  rw [locate_eq h', locate_eq h, lineOf, lineOf, columnOf, columnOf, htake]

/-- For any text that ends in the word `endmodule` outside of comments and in which the first module
has a header: text after it that does not go on with the word changes neither the name of the module
nor its location, its parameters or its ports. -/
theorem readModule_append {t s path : Text} {heading : Heading} {header : Header}
    (hend : EndsInCode t "endmodule") (hheading : findHeading? (blankComments t) = some heading)
    (hheader : header? heading.rest = some header) (hs : startsWord s = false) :
    ∃ m m', readModule t path = some m ∧ readModule (t ++ s) path = some m' ∧ m'.name = m.name
      ∧ m'.location = m.location ∧ m'.parameters = m.parameters ∧ m'.ports = m.ports := by
  obtain ⟨happend, u, hu, hends⟩ := hend.blankComments_append isIdentifier_endmodule
  obtain ⟨a, ha⟩ : heading.rest <:+ blankComments t := suffix_of_findHeadingFrom? hheading
  have hsemicolon : ';' ∈ heading.rest := by
    obtain ⟨p, -, hp⟩ := header?_eq_some_iff.1 hheader
    simp [hp, HeaderParts.text]
  have hheading' : findHeading? (blankComments (t ++ s)) =
      some { heading with rest := heading.rest ++ blankComments s } := by
    rw [happend]
    exact findHeadingFrom?_append (d := ';') (by decide) (by decide) _ hheading hsemicolon
  have hheader' := header?_append hheader (blankComments s)
  have hword : HasWord "endmodule" false header.rest :=
    hasWord_of_header hheader isIdentifier_endmodule hends (ha.trans hu)
  have hlocation := locate_append (nameAt_heading hheading).of_blankComments
    (nameAt_heading hheading').of_blankComments path
  have hports := headerPorts_append hword (startsWord_blankComments hs)
  simp only [readModule, hheading, hheading', hheader, hheader', Option.bind_eq_bind,
    Option.bind_some]
  exact ⟨_, _, rfl, rfl, rfl, hlocation, rfl, hports⟩

/-- The module lists names that its body declares, and what follows declares them again, leaves a
bracket open and opens a comment. -/
theorem readModule_append_again :
    let t : Text := "module m (a, b); input [3:0] a; output b;/**/endmodule"
    let s : Text := " output a; module m ((c); endmodule /*"
    EndsInCode t "endmodule" ∧ ∃ m, readModule (t ++ s) "m.v" = some m ∧ m.name = "m"
      ∧ m.location = ⟨"m.v", 0, 7, 1⟩ ∧ m.parameters = []
      ∧ m.ports = [⟨"a", .input, "[3:0]"⟩, ⟨"b", .output, []⟩] := by
  intro t s
  have hread : (blankComments t).drop 45 = ("endmodule" : Text) ++ []
      ∧ (findHeading? (blankComments t)).any (fun h => (header? h.rest).isSome) = true
      ∧ readModule t "m.v" = some { name := "m", file := "m.v", location := ⟨"m.v", 0, 7, 1⟩
                                    ports := [⟨"a", .input, "[3:0]"⟩, ⟨"b", .output, []⟩] } := by
    decide +kernel
  obtain ⟨hword, hheader, hm⟩ := hread
  have hend : EndsInCode t "endmodule" := by
    refine ⟨t.take 45, rfl, rfl, ?_⟩
    exact outsideComments_of_nameAt ⟨isIdentifier_endmodule, [], hword, rfl⟩
  obtain ⟨heading, hheading, hheader⟩ := (Option.any_eq_true _ _).1 hheader
  obtain ⟨header, hheader⟩ := Option.isSome_iff_exists.1 hheader
  obtain ⟨m, m', hm₁, hm', hname, hlocation, hparameters, hports⟩ :=
    @readModule_append t s "m.v" _ _ hend hheading hheader rfl
  obtain rfl := Option.some.inj (hm.symm.trans hm₁)
  exact ⟨hend, m', hm', hname, hlocation, hparameters, hports⟩

end VerilogIndex.Source
