import VerilogIndex.Proofs.Nesting
import VerilogIndex.Proofs.Spacing

/-!
# The grammar of headers

A block ends where its parentheses are balanced for the first time, and has a bounded length
(`Source.IsBlock`). A header is put together from blanks, an optional parameter block and a port
block up to its semicolon (`Source.HeaderParts`). Each reader is told by what it accepts: the search
for the end of a block (`closeBlock?_eq_some_iff`), a block (`block?_eq_some_iff`) and a header
(`header?_eq_some_iff`). The parts of a header are told by the text that starts with them
(`HeaderParts.text_append_inj`). Main statement: `headerAt_iff_parts`.
-/

namespace VerilogIndex.Source

open Text

/-! ## Blocks -/

/-- There are as many opening as closing parentheses. -/
def Balanced (t : Text) : Prop := t.count '(' = t.count ')'

def enclosed (content : Text) : Text := '(' :: (content ++ [')'])

/-- With its parentheses, the content is the shortest start of itself that is balanced, and it is
not too long. -/
structure IsBlock (content : Text) : Prop where
  balanced : Balanced (enclosed content)
  shortest : ∀ p, p <+: enclosed content → p ≠ [] → Balanced p → p = enclosed content
  bounded : (enclosed content).length ≤ maxBlock

/-- The text closes `depth` parentheses more than it opens, and nowhere before its end one more than
that. -/
def Shuts (depth : Nat) (t : Text) : Prop :=
  t.count ')' = t.count '(' + depth ∧ ∀ p, p <+: t → p.count ')' ≠ p.count '(' + depth + 1

theorem shuts_nil {depth : Nat} : Shuts depth [] ↔ depth = 0 := by
  refine ⟨fun h => by simpa using h.1.symm, ?_⟩
  rintro rfl
  refine ⟨rfl, fun p hp => ?_⟩
  rw [List.prefix_nil.1 hp]
  simp

theorem forall_prefix_cons {c : Char} {t : Text} {P : Text → Prop} :
    (∀ p, p <+: c :: t → P p) ↔ P [] ∧ ∀ p, p <+: t → P (c :: p) := by
  constructor
  · exact fun h => ⟨h [] List.nil_prefix, fun p hp => h _ (List.cons_prefix_cons.2 ⟨rfl, hp⟩)⟩
  · rintro ⟨hnil, hcons⟩ p hp
    rcases p with _ | ⟨d, p⟩
    · exact hnil
    · obtain ⟨rfl, hpt⟩ := List.cons_prefix_cons.1 hp
      exact hcons p hpt

/-- At depth zero a closing parenthesis is one too many. -/
theorem not_shuts_close {t : Text} : ¬ Shuts 0 (')' :: t) :=
  fun h => h.2 [')'] (List.cons_prefix_cons.2 ⟨rfl, List.nil_prefix⟩) rfl

theorem shuts_close {depth : Nat} {t : Text} : Shuts (depth + 1) (')' :: t) ↔ Shuts depth t := by
  have hclose : ∀ p : Text, (')' :: p).count ')' = p.count ')' + 1 := fun p =>
    List.count_cons_self
  have hopen : ∀ p : Text, (')' :: p).count '(' = p.count '(' := fun p =>
    List.count_cons_of_ne (by decide)
  simp only [Shuts, forall_prefix_cons, hclose, hopen, ← Nat.add_assoc, Nat.add_right_cancel_iff,
    ne_eq]
  simp

theorem shuts_cons {c : Char} (hc : c ≠ ')') {depth : Nat} {t : Text} :
    Shuts depth (c :: t) ↔ Shuts (if c = '(' then depth + 1 else depth) t := by
  have hclose : ∀ p : Text, (c :: p).count ')' = p.count ')' := fun p =>
    List.count_cons_of_ne hc
  have hopen : ∀ p : Text, (c :: p).count '(' + depth =
      p.count '(' + if c = '(' then depth + 1 else depth := by
    intro p
    split_ifs with ho
    · rw [ho, List.count_cons_self]
      omega
    · rw [List.count_cons_of_ne ho]
  simp only [Shuts, forall_prefix_cons, hclose, hopen]
  simp

theorem closeBlock?_eq_some_iff : ∀ {budget depth : Nat} {t content rest : Text},
    closeBlock? budget depth t = some (content, rest) ↔
      t = content ++ ')' :: rest ∧ content.length < budget ∧ Shuts depth content
  | 0, depth, t, content, rest => by simp [closeBlock?]
  | budget + 1, depth, [], content, rest => by simp [closeBlock?]
  | budget + 1, depth, c :: t, content, rest => by
    -- a character that does not end the block belongs to its content
    have hkeep : ∀ d, (∀ u, Shuts depth (c :: u) ↔ Shuts d u) → (c = ')' → depth ≠ 0) →
        ((closeBlock? budget d t).map (fun b => (c :: b.1, b.2)) = some (content, rest) ↔
          c :: t = content ++ ')' :: rest ∧ content.length < budget + 1
            ∧ Shuts depth content) := by
      intro d hd hend
      rcases content with _ | ⟨e, content⟩
      · simp only [shuts_nil]
        refine iff_of_false (by simp) ?_
        rintro ⟨he, -, h0⟩
        exact hend (List.cons.inj he).1 h0
      · have ih := @closeBlock?_eq_some_iff budget d t content rest
        simp only [Option.map_eq_some_iff, Prod.exists, Prod.mk.injEq, List.cons.injEq,
          List.cons_append, List.length_cons, Nat.add_lt_add_iff_right]
        constructor
        · rintro ⟨b, r, hb, ⟨rfl, rfl⟩, rfl⟩
          obtain ⟨rfl, hlt, hs⟩ := ih.1 hb
          exact ⟨⟨rfl, rfl⟩, hlt, (hd _).2 hs⟩
        · rintro ⟨⟨rfl, rfl⟩, hlt, hs⟩
          exact ⟨content, rest, ih.2 ⟨rfl, hlt, (hd _).1 hs⟩, ⟨rfl, rfl⟩, rfl⟩
    by_cases hc : c = ')'
    · subst hc
      rcases depth with _ | depth
      · rcases content with _ | ⟨e, content⟩
        · simp [closeBlock?.eq_def, shuts_nil]
        · refine iff_of_false (by simp [closeBlock?.eq_def]) ?_
          rintro ⟨he, -, hs⟩
          obtain ⟨rfl, -⟩ := List.cons.inj he
          exact not_shuts_close hs
      · rw [closeBlock?.eq_def]
        exact hkeep depth (fun _ => shuts_close) fun _ => Nat.succ_ne_zero depth
    · rw [closeBlock?_cons hc]
      exact hkeep _ (fun _ => shuts_cons hc) fun he => absurd he hc

theorem isBlock_iff {content : Text} :
    IsBlock content ↔ content.length < maxBlock - 1 ∧ Shuts 0 content := by
  have hlength : (enclosed content).length = content.length + 2 := by simp [enclosed]
  have hbalanced : ∀ p : Text, Balanced ('(' :: p) ↔ p.count ')' = p.count '(' + 1 := by
    intro p
    rw [Balanced, List.count_cons_self, List.count_cons_of_ne (by decide), eq_comm]
  have hwhole : Balanced (enclosed content) ↔ content.count ')' = content.count '(' := by
    rw [enclosed, hbalanced]
    simp [List.count_append]
  have hmax : 2 ≤ maxBlock := by decide
  constructor
  · rintro ⟨hb, hshort, hlen⟩
    refine ⟨by omega, by simpa using hwhole.1 hb, fun p hp hcount => ?_⟩
    have hpre : '(' :: p <+: enclosed content :=
      List.cons_prefix_cons.2 ⟨rfl, hp.trans (List.prefix_append _ _)⟩
    have := congrArg List.length (hshort _ hpre (by simp) ((hbalanced p).2 (by simpa using hcount)))
    rw [hlength, List.length_cons] at this
    have := hp.length_le
    omega
  · rintro ⟨hlen, hcount, hp⟩
    refine ⟨hwhole.2 (by simpa using hcount), fun p hpre hne hb => ?_, by omega⟩
    obtain ⟨c, p, rfl⟩ := List.exists_cons_of_ne_nil hne
    obtain ⟨rfl, hinner⟩ := List.cons_prefix_cons.1 hpre
    rcases List.prefix_concat_iff.1 hinner with rfl | hinner
    · rfl
    · exact absurd ((hbalanced p).1 hb) (by simpa using hp p hinner)

theorem block?_eq_some_iff {t content rest : Text} :
    block? t = some (content, rest) ↔ IsBlock content ∧ t = enclosed content ++ rest := by
  rw [isBlock_iff, enclosed, block?.eq_def]
  split
  · rename_i r
    rw [closeBlock?_eq_some_iff]
    simp [and_comm]
  · rename_i hne
    refine iff_of_false (by simp) ?_
    rintro ⟨-, rfl⟩
    exact hne _ rfl

theorem enclosed_append_inj {a b r r' : Text} (ha : IsBlock a) (hb : IsBlock b)
    (h : enclosed a ++ r = enclosed b ++ r') : a = b ∧ r = r' := by
  have hread : block? (enclosed a ++ r) = some (a, r) := block?_eq_some_iff.2 ⟨ha, rfl⟩
  rw [h, block?_eq_some_iff.2 ⟨hb, rfl⟩] at hread
  obtain ⟨rfl, rfl⟩ := Prod.mk.inj (Option.some.inj hread)
  exact ⟨rfl, rfl⟩

/-! ## Headers -/

/-- What a header writes for its parameters: a number sign, blanks, a block and blanks. -/
structure ParameterParts where
  gap : Text
  content : Text
  after : Text
  gap_blank : Gap gap
  content_block : IsBlock content
  after_blank : Gap after

def ParameterParts.text (p : ParameterParts) : Text :=
  '#' :: (p.gap ++ (enclosed p.content ++ p.after))

/-- What a header is put together from: blanks, what it writes for its parameters, the port block,
blanks and a semicolon. -/
structure HeaderParts where
  lead : Text
  parameters : Option ParameterParts
  ports : Text
  gap : Text
  lead_blank : Gap lead
  ports_block : IsBlock ports
  gap_blank : Gap gap

namespace HeaderParts

def text (p : HeaderParts) : Text :=
  p.lead ++ (p.parameters.elim [] (·.text) ++ (enclosed p.ports ++ (p.gap ++ [';'])))

/-- What is read from the parts, before the text `rest`. -/
def header (p : HeaderParts) (rest : Text) : Header :=
  ⟨p.parameters.map (·.content), p.ports, rest⟩

end HeaderParts

theorem headerEnd?_eq_some_iff {parameters : Option Text} {t : Text} {h : Header} :
    headerEnd? parameters t = some h ↔ ∃ ports g, IsBlock ports ∧ Gap g
      ∧ h = ⟨parameters, ports, h.rest⟩ ∧ t = enclosed ports ++ (g ++ ';' :: h.rest) := by
  simp only [headerEnd?, Option.bind_eq_bind, Option.bind_eq_some_iff, Prod.exists]
  constructor
  · rintro ⟨ports, r, hb, h⟩
    split at h
    · rename_i rest hr
      obtain rfl := Option.some.inj h
      obtain ⟨hblock, rfl⟩ := block?_eq_some_iff.1 hb
      obtain ⟨-, g, hg, rfl⟩ := trimLeft_eq_cons_iff.1 hr
      exact ⟨ports, g, hblock, hg, rfl, rfl⟩
    · cases h
  · rintro ⟨ports, g, hblock, hg, hh, rfl⟩
    refine ⟨ports, g ++ ';' :: h.rest, block?_eq_some_iff.2 ⟨hblock, rfl⟩, ?_⟩
    rw [trimLeft_eq_cons_iff.2 ⟨by decide, g, hg, rfl⟩]
    exact congrArg some hh.symm

theorem header?_eq_some_iff {t : Text} {h : Header} :
    header? t = some h ↔ ∃ p : HeaderParts, h = p.header h.rest ∧ t = p.text ++ h.rest := by
  constructor
  · intro hh
    rw [header?] at hh
    split at hh
    · rename_i r hr
      obtain ⟨-, lead, hlead, rfl⟩ := trimLeft_eq_cons_iff.1 hr
      obtain ⟨⟨content, r'⟩, hb, hend⟩ := Option.bind_eq_some_iff.1 hh
      obtain ⟨hcontent, hr'⟩ := block?_eq_some_iff.1 hb
      obtain ⟨-, gap, hgap, rfl⟩ := trimLeft_eq_cons_iff.1 hr'
      obtain ⟨ports, g, hports, hg, he, ht⟩ := headerEnd?_eq_some_iff.1 hend
      obtain ⟨-, after, hafter, rfl⟩ := trimLeft_eq_cons_iff.1 ht
      refine ⟨⟨lead, some ⟨gap, content, after, hgap, hcontent, hafter⟩, ports, g, hlead, hports,
        hg⟩,
        he, ?_⟩
      simp [HeaderParts.text, ParameterParts.text, enclosed]
    · rename_i hsign
      obtain ⟨ports, g, hports, hg, he, ht⟩ := headerEnd?_eq_some_iff.1 hh
      obtain ⟨-, lead, hlead, rfl⟩ := trimLeft_eq_cons_iff.1 ht
      refine ⟨⟨lead, none, ports, g, hlead, hports, hg⟩, he, ?_⟩
      simp [HeaderParts.text, enclosed]
  · rintro ⟨⟨lead, parameters, ports, g, hlead, hports, hg⟩, he, rfl⟩
    have hend := headerEnd?_eq_some_iff.2 ⟨ports, g, hports, hg, he, rfl⟩
    -- the blanks before the port block end at its parenthesis
    have hopen : ∀ a, Gap a → trimLeft (a ++ (enclosed ports ++ (g ++ ';' :: h.rest))) =
        enclosed ports ++ (g ++ ';' :: h.rest) := fun a ha =>
      trimLeft_eq_cons_iff.2 ⟨by decide, a, ha, rfl⟩
    simp only [HeaderParts.text, List.append_assoc, List.cons_append, List.nil_append]
    rcases parameters with _ | ⟨gap, content, after, hgap, hcontent, hafter⟩
    · rw [Option.elim_none, List.nil_append, header?, hopen lead hlead]
      exact hend
    · generalize enclosed ports ++ (g ++ ';' :: h.rest) = u at hend hopen
      have hsign : trimLeft (lead ++ ('#' :: (gap ++ (enclosed content ++ (after ++ u))))) =
          '#' :: (gap ++ (enclosed content ++ (after ++ u))) :=
        trimLeft_eq_cons_iff.2 ⟨by decide, lead, hlead, rfl⟩
      have hblock : block? (trimLeft (gap ++ (enclosed content ++ (after ++ u)))) =
          some (content, after ++ u) :=
        block?_eq_some_iff.2 ⟨hcontent, trimLeft_eq_cons_iff.2 ⟨by decide, gap, hgap, rfl⟩⟩
      simp only [Option.elim_some, ParameterParts.text, List.cons_append, List.append_assoc]
      rw [header?, hsign]
      simp only [Option.bind_eq_bind, hblock, Option.bind_some, hopen after hafter]
      exact hend

/-! ## One way to take a header apart -/

theorem gap_append_inj {g g' a b : Text} (hg : Gap g) (hg' : Gap g')
    (ha : a.head?.any isBlank = false) (hb : b.head?.any isBlank = false)
    (h : g ++ a = g' ++ b) : g = g' ∧ a = b := by
  have hab := congrArg trimLeft h
  rw [trimLeft_append hg, trimLeft_append hg', trimLeft_eq_self ha, trimLeft_eq_self hb] at hab
  rw [hab] at h
  exact ⟨List.append_cancel_right h, hab⟩

theorem HeaderParts.text_append_inj {p q : HeaderParts} {r r' : Text}
    (h : p.text ++ r = q.text ++ r') : p = q := by
  obtain ⟨lead, params, ports, gap, hlead, hports, hgap⟩ := p
  obtain ⟨lead', params', ports', gap', hlead', hports', hgap'⟩ := q
  have hend (he : enclosed ports ++ (gap ++ ([';'] ++ r)) =
      enclosed ports' ++ (gap' ++ ([';'] ++ r'))) : ports = ports' ∧ gap = gap' := by
    obtain ⟨hp, hr⟩ := enclosed_append_inj hports hports' he
    exact ⟨hp, (gap_append_inj hgap hgap' rfl rfl hr).1⟩
  simp only [text, List.append_assoc] at h
  rcases params with _ | ⟨g, content, after, hg, hcontent, hafter⟩ <;>
    rcases params' with _ | ⟨g', content', after', hg', hcontent', hafter'⟩
  · obtain ⟨rfl, h₁⟩ := gap_append_inj hlead hlead' rfl rfl h
    obtain ⟨rfl, rfl⟩ := hend h₁
    rfl
  -- after the blanks, a number sign is no parenthesis
  · cases (gap_append_inj hlead hlead' rfl rfl h).2
  · cases (gap_append_inj hlead hlead' rfl rfl h).2
  · simp only [Option.elim_some, ParameterParts.text, List.cons_append, List.append_assoc] at h
    obtain ⟨rfl, h₁⟩ := gap_append_inj hlead hlead' rfl rfl h
    obtain ⟨rfl, h₂⟩ := gap_append_inj hg hg' rfl rfl (List.cons.inj h₁).2
    obtain ⟨rfl, h₃⟩ := enclosed_append_inj hcontent hcontent' h₂
    obtain ⟨rfl, h₄⟩ := gap_append_inj hafter hafter' rfl rfl h₃
    obtain ⟨rfl, rfl⟩ := hend h₄
    rfl

/-- A stretch of a text between two offsets is one that starts what stands from the first on, and
the second is told by what follows it. -/
theorem slice_eq_iff {t w : Text} (hw : w ≠ []) {pos stop : Nat} :
    (stop ≤ t.length ∧ (t.take stop).drop pos = w) ↔
      ∃ rest, t.drop pos = w ++ rest ∧ t.length - rest.length = stop := by
  constructor
  · rintro ⟨hle, rfl⟩
    have hlt : pos < stop := by
      by_contra hge
      exact hw (List.drop_eq_nil_of_le (by rw [List.length_take]; omega))
    refine ⟨t.drop stop, ?_, by rw [List.length_drop]; omega⟩
    calc t.drop pos = (t.drop pos).take (stop - pos) ++ (t.drop pos).drop (stop - pos) :=
          (List.take_append_drop _ _).symm
      _ = (t.take stop).drop pos ++ t.drop stop := by
          rw [List.drop_take, List.drop_drop, Nat.add_sub_cancel' hlt.le]
  · rintro ⟨rest, ht, rfl⟩
    have hlength := congrArg List.length ht
    have hpos : 0 < w.length := List.length_pos_of_ne_nil hw
    rw [List.length_drop, List.length_append] at hlength
    refine ⟨Nat.sub_le _ _, ?_⟩
    rw [List.drop_take, ht, show t.length - rest.length - pos = w.length by omega, List.take_left]

/-- The header that stands from an offset on: the contents of its blocks, and the offset after its
semicolon. -/
def headerAt? (t : Text) (pos : Nat) : Option (Option Text × Text × Nat) :=
  (header? (t.drop pos)).map fun h => (h.parameters, h.ports, t.length - h.rest.length)

/-- A header is read from an offset on if and only if the text between that offset and the end of
the header is put together from its parts, and it can be taken apart in one way only. -/
theorem headerAt_iff_parts (t : Text) (pos : Nat) :
    (∀ params ports stop, headerAt? t pos = some (params, ports, stop) ↔
      stop ≤ t.length ∧ ∃ p : HeaderParts, p.parameters.map (·.content) = params
        ∧ p.ports = ports ∧ (t.take stop).drop pos = p.text)
      ∧ ∀ p q : HeaderParts, p.text <+: t.drop pos → q.text <+: t.drop pos → p = q := by
  have hne : ∀ p : HeaderParts, p.text ≠ [] := fun p => by simp [HeaderParts.text]
  refine ⟨fun params ports stop => ⟨fun h => ?_, ?_⟩, fun p q ⟨r, hp⟩ ⟨r', hq⟩ =>
    HeaderParts.text_append_inj (hp.trans hq.symm)⟩
  · obtain ⟨header, hh, he⟩ := Option.map_eq_some_iff.1 h
    obtain ⟨p, hp, ht⟩ := header?_eq_some_iff.1 hh
    simp only [Prod.mk.injEq] at he
    obtain ⟨rfl, rfl, hstop⟩ := he
    obtain ⟨hle, hslice⟩ := (slice_eq_iff (hne p)).2 ⟨header.rest, ht, hstop⟩
    exact ⟨hle, p, (congrArg Header.parameters hp).symm, (congrArg Header.ports hp).symm, hslice⟩
  · rintro ⟨hle, p, rfl, rfl, hslice⟩
    obtain ⟨rest, ht, hstop⟩ := (slice_eq_iff (hne p)).1 ⟨hle, hslice⟩
    have hh : header? (t.drop pos) = some (p.header rest) := header?_eq_some_iff.2 ⟨p, rfl, ht⟩
    rw [headerAt?, hh, Option.map_some]
    exact congrArg (fun n => some (_, _, n)) hstop

end VerilogIndex.Source
