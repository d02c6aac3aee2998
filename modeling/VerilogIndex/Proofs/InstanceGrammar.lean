import VerilogIndex.Proofs.HeaderGrammar
import VerilogIndex.Proofs.Parts
import VerilogIndex.Source.Instances

/-!
# Where instances stand

An instance is put together from a type, blanks, an optional override, a name, blanks and an opening
parenthesis (`Source.InstanceParts`). A text is read as one only if such parts start it
(`shape?_eq_some`), and always if they do (`shape?_ne_none`). The scan goes on after the parenthesis
of an instance, so the stretches that it takes do not overlap, and none is written outside of them
(`Covers`, `covers_shapesFrom`). Main statement: `instances_are_occurrences`.
-/

namespace VerilogIndex.Source

open Text

/-! ## The parts of an instance -/

/-- Nothing, or a number sign, blanks, and from a parenthesis to a closing one a stretch without a
semicolon, and blanks. -/
inductive IsOverride : Text → Prop
  | none : IsOverride []
  | block {g inner g' : Text} (hg : Gap g) (hinner : ';' ∉ inner) (hg' : Gap g') :
    IsOverride ('#' :: (g ++ '(' :: (inner ++ ')' :: g')))

structure InstanceParts where
  type : Text
  gap : Text
  override : Text
  name : Text
  after : Text
  type_identifier : isIdentifier type = true
  gap_blank : Gap gap
  gap_ne_nil : gap ≠ []
  override_form : IsOverride override
  name_identifier : isIdentifier name = true
  after_blank : Gap after

namespace InstanceParts

/-- What stands before the name. -/
def lead (p : InstanceParts) : Text := p.type ++ (p.gap ++ p.override)

def text (p : InstanceParts) : Text := p.lead ++ (p.name ++ (p.after ++ ['(']))

theorem length_lead_lt (p : InstanceParts) : p.lead.length < p.text.length := by
  simp only [text, List.length_append, List.length_singleton]
  omega

theorem text_ne_nil (p : InstanceParts) : p.text ≠ [] :=
  List.ne_nil_of_length_pos (Nat.zero_lt_of_lt p.length_lead_lt)

end InstanceParts

/-! ## Reading an instance -/

section Readers

variable {type name g g' t : Text}

theorem span_gap (hg : Gap g) (ht : t.head?.any isBlank = false) :
    (g ++ t).takeWhile isBlank = g ∧ (g ++ t).dropWhile isBlank = t := by
  rw [List.takeWhile_append_of_pos hg, List.dropWhile_append_of_pos hg]
  rcases t with _ | ⟨c, t⟩
  · simp
  · have hc : isBlank c = false := ht
    rw [List.takeWhile_cons_of_neg (by simp [hc]), List.dropWhile_cons_of_neg (by simp [hc]),
      List.append_nil]
    exact ⟨rfl, rfl⟩

/-- A name starts with no blank, nor with the mark of an override. -/
theorem head?_name (hn : isIdentifier name = true) (t : Text) :
    (name ++ t).head?.any isBlank = false ∧ (name ++ t).head? ≠ some '#' := by
  obtain ⟨c, w, rfl⟩ := List.exists_cons_of_ne_nil (ne_nil_of_isIdentifier hn)
  refine ⟨not_isBlank_of_isWord (isWord_of_isIdentifier hn c List.mem_cons_self), ?_⟩
  rintro ⟨⟩
  cases hn

theorem span_name (hn : isIdentifier name = true) (hg : Gap g) (t : Text) :
    (g ++ (name ++ t)).takeWhile isBlank = g
      ∧ (g ++ (name ++ t)).dropWhile isBlank = name ++ t :=
  span_gap hg (head?_name hn t).1

theorem namedBlock?_append (hg : Gap g) (hn : isIdentifier name = true) (hg' : Gap g') (t : Text) :
    namedBlock? (g ++ (name ++ (g' ++ '(' :: t))) =
      some (g.length, name, g.length + name.length + g'.length + 1) := by
  obtain ⟨htake, hdrop⟩ := span_name hn hg (g' ++ '(' :: t)
  obtain ⟨htake', hdrop'⟩ := span_gap (t := '(' :: t) hg' rfl
  have hid := identifier?_append hn (startsWord_append (t := '(' :: t) hg' fun _ => rfl)
  simp only [namedBlock?, htake, hdrop, hid, Option.bind_eq_bind, Option.bind_some, htake', hdrop']

/-- After a type and blanks, a shape goes on with a named block, unless an override comes first. -/
theorem shape?_append (ht : isIdentifier type = true) (hg : Gap g) (hne : g ≠ [])
    (hblank : t.head?.any isBlank = false) (hmark : t.head? ≠ some '#') :
    shape? (type ++ (g ++ t)) = (namedBlock? t).map fun b =>
      ⟨type, b.2.1, type.length + g.length + b.1, type.length + g.length + b.2.2⟩ := by
  obtain ⟨htake, hdrop⟩ := span_gap hg hblank
  have hid := identifier?_append ht (startsWord_append (t := t) hg fun h => absurd h hne)
  simp only [shape?, hid, Option.bind_eq_bind, Option.bind_some, htake, hdrop]
  rw [if_neg (by simpa using hne)]
  split
  · exact absurd rfl hmark
  · cases namedBlock? t <;> rfl

theorem shape?_override (ht : isIdentifier type = true) (hg : Gap g) (hne : g ≠ [])
    (hg' : Gap g') (t : Text) : shape? (type ++ (g ++ '#' :: (g' ++ '(' :: t))) =
      (afterOverride? 0 t).map fun b => ⟨type, b.2.1,
        type.length + g.length + 1 + g'.length + 1 + b.1,
        type.length + g.length + 1 + g'.length + 1 + b.2.2⟩ := by
  obtain ⟨htake, hdrop⟩ := span_gap (t := '#' :: (g' ++ '(' :: t)) hg rfl
  obtain ⟨htake', hdrop'⟩ := span_gap (t := '(' :: t) hg' rfl
  have hid := identifier?_append ht
    (startsWord_append (t := '#' :: (g' ++ '(' :: t)) hg fun h => absurd h hne)
  simp only [shape?, hid, Option.bind_eq_bind, Option.bind_some, htake, hdrop, htake', hdrop']
  rw [if_neg (by simpa using hne)]
  cases afterOverride? 0 t <;> rfl

end Readers

/-- The two ways to read an instance: after its type comes the name, or an override. -/
inductive ReadsShape : Text → Shape → Prop
  | plain {type g t : Text} {b : Nat × Text × Nat} (htype : isIdentifier type = true) (hg : Gap g)
      (hne : g ≠ []) (hblank : t.head?.any isBlank = false) (hmark : t.head? ≠ some '#')
      (hb : namedBlock? t = some b) : ReadsShape (type ++ (g ++ t))
        ⟨type, b.2.1, type.length + g.length + b.1, type.length + g.length + b.2.2⟩
  | override {type g g' t : Text} {b : Nat × Text × Nat} (htype : isIdentifier type = true)
      (hg : Gap g) (hne : g ≠ []) (hg' : Gap g') (hb : afterOverride? 0 t = some b) :
    ReadsShape (type ++ (g ++ '#' :: (g' ++ '(' :: t)))
      ⟨type, b.2.1, type.length + g.length + 1 + g'.length + 1 + b.1,
        type.length + g.length + 1 + g'.length + 1 + b.2.2⟩

theorem readsShape_of_shape? {t : Text} {s : Shape} (h : shape? t = some s) : ReadsShape t s := by
  have hs := h
  simp only [shape?, Option.bind_eq_bind, Option.bind_eq_some_iff, Prod.exists] at h
  obtain ⟨type, r, hi, h⟩ := h
  obtain ⟨rfl, htype, -⟩ := identifier?_eq_some_iff.1 hi
  obtain ⟨g, u, hg, rfl, hu⟩ := exists_gap r
  obtain ⟨htake, hdrop⟩ := span_gap hg hu
  simp only [htake, hdrop] at h
  split_ifs at h with hne
  replace hne : g ≠ [] := by simpa using hne
  split at h
  · rename_i r
    obtain ⟨g', v, hg', rfl, hv⟩ := exists_gap r
    rw [(span_gap hg' hv).2] at h
    split at h
    · rw [shape?_override htype hg hne hg'] at hs
      obtain ⟨b, hb, rfl⟩ := Option.map_eq_some_iff.1 hs
      exact .override htype hg hne hg' hb
    · cases h
  · rename_i hmark
    replace hmark : u.head? ≠ some '#' := fun hd => by
      obtain ⟨r, rfl⟩ := List.head?_eq_some_iff.1 hd
      exact hmark r rfl
    rw [shape?_append htype hg hne hu hmark] at hs
    obtain ⟨b, hb, rfl⟩ := Option.map_eq_some_iff.1 hs
    exact .plain htype hg hne hu hmark hb

theorem namedBlock?_eq_some {t name : Text} {lead size : Nat}
    (h : namedBlock? t = some (lead, name, size)) : ∃ g g' r, Gap g ∧ isIdentifier name = true
      ∧ Gap g' ∧ t = g ++ (name ++ (g' ++ '(' :: r)) ∧ lead = g.length
      ∧ size = g.length + name.length + g'.length + 1 := by
  obtain ⟨g, u, hg, rfl, hu⟩ := exists_gap t
  obtain ⟨htake, hdrop⟩ := span_gap hg hu
  simp only [namedBlock?, htake, hdrop, Option.bind_eq_bind, Option.bind_eq_some_iff,
    Prod.exists] at h
  obtain ⟨n, r, hi, h⟩ := h
  obtain ⟨rfl, hn, -⟩ := identifier?_eq_some_iff.1 hi
  obtain ⟨g', v, hg', rfl, hv⟩ := exists_gap r
  obtain ⟨htake', hdrop'⟩ := span_gap hg' hv
  rw [htake', hdrop'] at h
  split at h
  · rename_i r
    simp only [Option.some.injEq, Prod.mk.injEq] at h
    obtain ⟨rfl, rfl, rfl⟩ := h
    exact ⟨g, g', r, hg, hn, hg', rfl, rfl, rfl⟩
  · cases h

theorem afterOverride?_eq_some : ∀ {t name : Text} {read offset size : Nat},
    afterOverride? read t = some (offset, name, size) → ∃ inner r lead size',
      t = inner ++ ')' :: r ∧ ';' ∉ inner ∧ namedBlock? r = some (lead, name, size')
        ∧ offset = read + (inner.length + 1 + lead) ∧ size = read + (inner.length + 1 + size')
  | [], _, _, _, _, h => by simp [afterOverride?] at h
  | c :: t, name, read, offset, size, h => by
    have hc : ¬ c = ';' := by
      rintro rfl
      simp [afterOverride?] at h
    rw [afterOverride?, if_neg hc] at h
    split at h
    · rename_i lead name' size' hb
      split_ifs at hb with hclose
      simp only [Option.some.injEq, Prod.mk.injEq] at h
      obtain ⟨rfl, rfl, rfl⟩ := h
      exact ⟨[], t, lead, size', by rw [hclose, List.nil_append], by simp, hb,
        by simp only [List.length_nil]; omega, by simp only [List.length_nil]; omega⟩
    · obtain ⟨inner, r, lead, size', rfl, hinner, hb, rfl, rfl⟩ := afterOverride?_eq_some h
      refine ⟨c :: inner, r, lead, size', rfl, ?_, hb, ?_, ?_⟩
      · simp [hinner, Ne.symm hc]
      · rw [List.length_cons]
        omega
      · rw [List.length_cons]
        omega

/-- An override ends at the latest where a name and a parenthesis follow. -/
theorem afterOverride?_ne_none {r : Text} (hr : namedBlock? r ≠ none) :
    ∀ {inner : Text} (read : Nat),
    ';' ∉ inner → afterOverride? read (inner ++ ')' :: r) ≠ none
  | [], read, _ => by
    obtain ⟨b, hb⟩ := Option.ne_none_iff_exists'.1 hr
    rw [List.nil_append, afterOverride?, if_neg (by decide), if_pos rfl, hb]
    simp
  | c :: inner, read, h => by
    rw [List.mem_cons, not_or] at h
    rw [List.cons_append, afterOverride?, if_neg (Ne.symm h.1)]
    split
    · simp
    · exact afterOverride?_ne_none hr (read + 1) h.2

/-- What is read as an instance is put together as one. -/
theorem shape?_eq_some {t : Text} {s : Shape} (h : shape? t = some s) : ∃ p : InstanceParts,
    p.text <+: t ∧ s = ⟨p.type, p.name, p.lead.length, p.text.length⟩ := by
  cases readsShape_of_shape? h with
  | @plain type g t b htype hg hne hblank _ hb =>
    obtain ⟨lead, name, size⟩ := b
    obtain ⟨g₁, g₂, r, hg₁, hn, hg₂, rfl, rfl, rfl⟩ := namedBlock?_eq_some hb
    -- all blanks belong to the gap after the type
    obtain rfl : g₁ = [] := by
      rcases g₁ with _ | ⟨c, g₁⟩
      · rfl
      · have hc : isBlank c = false := hblank
        rw [hg₁ c List.mem_cons_self] at hc
        cases hc
    refine ⟨⟨type, g, [], name, g₂, htype, hg, hne, .none, hn, hg₂⟩, ⟨r, ?_⟩, ?_⟩
    · simp [InstanceParts.text, InstanceParts.lead]
    · simp only [InstanceParts.text, InstanceParts.lead, List.length_append, List.length_cons,
        List.length_nil, Shape.mk.injEq, true_and]
      omega
  | @override type g g' t b htype hg hne hg' hb =>
    obtain ⟨offset, name, size⟩ := b
    obtain ⟨inner, r, lead, size', rfl, hinner, hr, rfl, rfl⟩ := afterOverride?_eq_some hb
    obtain ⟨g₁, g₂, r, hg₁, hn, hg₂, rfl, rfl, rfl⟩ := namedBlock?_eq_some hr
    refine ⟨⟨type, g, _, name, g₂, htype, hg, hne, .block hg' hinner hg₁, hn, hg₂⟩, ⟨r, ?_⟩, ?_⟩
    · simp [InstanceParts.text, InstanceParts.lead]
    · simp only [InstanceParts.text, InstanceParts.lead, List.length_append, List.length_cons,
        List.length_nil, Shape.mk.injEq, true_and]
      omega

/-- What is put together as an instance is read as one. -/
theorem shape?_ne_none {p : InstanceParts} {t : Text} (h : p.text <+: t) : shape? t ≠ none := by
  obtain ⟨r, rfl⟩ := h
  obtain ⟨type, gap, override, name, after, htype, hgap, hne, hoverride, hname, hafter⟩ := p
  simp only [InstanceParts.text, InstanceParts.lead, List.append_assoc, List.singleton_append]
  cases hoverride with
  | none =>
    obtain ⟨hblank, hmark⟩ := head?_name hname (after ++ '(' :: r)
    have hb : namedBlock? (name ++ (after ++ '(' :: r)) ≠ none := by
      have := namedBlock?_append (g := []) (by simp [Gap]) hname hafter r
      rw [List.nil_append] at this
      simp [this]
    rw [List.nil_append, shape?_append htype hgap hne hblank hmark]
    simpa using hb
  | @block g inner g' hg hinner hg' =>
    simp only [List.cons_append, List.append_assoc]
    rw [shape?_override htype hgap hne hg]
    have hb : namedBlock? (g' ++ (name ++ (after ++ '(' :: r))) ≠ none := by
      rw [namedBlock?_append hg' hname hafter]
      simp
    simpa using afterOverride?_ne_none hb 0 hinner

/-! ## The scan -/

/-- The parts stand in the text `first` characters from its start, and no word character precedes
them; `glued` if one precedes the text. -/
inductive InstanceParts.Stands (p : InstanceParts) : (glued : Bool) → (first : Nat) → Text → Prop
  | here {t : Text} (h : p.text <+: t) : p.Stands false 0 t
  | there {glued : Bool} {c : Char} {first : Nat} {t : Text} (h : p.Stands (isWord c) first t) :
    p.Stands glued (first + 1) (c :: t)

theorem InstanceParts.stands_iff {p : InstanceParts} : ∀ {t : Text} {first : Nat} {glued : Bool},
    p.Stands glued first t ↔ p.text <+: t.drop first ∧ endsWord glued (t.take first) = false
  | t, 0, glued => by
    constructor
    · rintro ⟨h⟩
      exact ⟨h, rfl⟩
    · rintro ⟨h, hg⟩
      obtain rfl : glued = false := hg
      exact .here h
  | [], first + 1, glued => by
    refine iff_of_false (fun h => by cases h) ?_
    rintro ⟨h, -⟩
    exact p.text_ne_nil (List.prefix_nil.1 h)
  | c :: t, first + 1, glued => by
    have ih : p.Stands (isWord c) first t ↔ _ := stands_iff
    refine Iff.trans ⟨fun h => ?_, .there⟩ ih
    cases h with
    | there h => exact h

/-- An instance in a text: the offset at which it starts, and its parts. -/
structure Occurrence where
  first : Nat
  parts : InstanceParts

namespace Occurrence

/-- The offset after the parenthesis. -/
def stop (o : Occurrence) : Nat := o.first + o.parts.text.length

def found (o : Occurrence) : Found := ⟨o.parts.type, o.parts.name, o.first + o.parts.lead.length⟩

/-- Neither the type nor the name is a reserved word. -/
def isFree (o : Occurrence) : Bool := !isReserved o.parts.type && !isReserved o.parts.name

structure StandsIn (o : Occurrence) (t : Text) : Prop where
  written : o.parts.text <+: t.drop o.first
  boundary : endsWord false (t.take o.first) = false

end Occurrence

/-- The occurrences stand one after the other in a text that starts at the offset `pos`, none of
them within its first `skip` characters, and all instances after these start within one of them. -/
structure Covers (pos skip : Nat) (glued : Bool) (t : Text) (os : List Occurrence) : Prop where
  stand : ∀ o ∈ os, ∃ first, o.first = pos + first ∧ skip ≤ first ∧ o.parts.Stands glued first t
  apart : os.Pairwise fun o o' => o.stop ≤ o'.first
  all : ∀ (p : InstanceParts) (first : Nat), skip ≤ first → p.Stands glued first t →
    ∃ o ∈ os, o.first ≤ pos + first ∧ pos + first < o.stop

namespace Covers

variable {pos skip : Nat} {glued : Bool} {t : Text} {os : List Occurrence}

theorem there {c : Char} (h : Covers (pos + 1) skip (isWord c) t os) (glued : Bool) :
    Covers pos (skip + 1) glued (c :: t) os where
  stand o ho := by
    obtain ⟨first, he, hle, hs⟩ := h.stand o ho
    exact ⟨first + 1, by omega, by omega, .there hs⟩
  apart := h.apart
  all p first hle hs := by
    cases hs with
    | here => omega
    | there hs =>
      obtain ⟨o, ho, hfirst, hstop⟩ := h.all p _ (by omega) hs
      exact ⟨o, ho, by omega, by omega⟩

theorem of_none (h : Covers pos 1 glued t os) (hnone : ∀ p : InstanceParts, ¬ p.Stands glued 0 t) :
    Covers pos 0 glued t os where
  stand o ho := by
    obtain ⟨first, he, -, hs⟩ := h.stand o ho
    exact ⟨first, he, Nat.zero_le _, hs⟩
  apart := h.apart
  all p first _ hs := by
    rcases Nat.eq_zero_or_pos first with rfl | hpos
    · exact absurd hs (hnone p)
    · exact h.all p first hpos hs

theorem cons {p : InstanceParts} (h : Covers pos p.text.length glued t os)
    (hp : p.Stands glued 0 t) : Covers pos 0 glued t (⟨pos, p⟩ :: os) where
  stand := by
    refine List.forall_mem_cons.2 ⟨⟨0, rfl, le_rfl, hp⟩, fun o ho => ?_⟩
    obtain ⟨first, he, -, hs⟩ := h.stand o ho
    exact ⟨first, he, Nat.zero_le _, hs⟩
  apart := by
    refine List.pairwise_cons.2 ⟨fun o ho => ?_, h.apart⟩
    obtain ⟨first, he, hle, -⟩ := h.stand o ho
    rw [he, Occurrence.stop]
    exact Nat.add_le_add_left hle pos
  all q first _ hs := by
    -- what starts within the instance is covered by it, the rest by what is found after it
    rcases Nat.lt_or_ge first p.text.length with hlt | hge
    · exact ⟨_, List.mem_cons_self, Nat.le_add_right pos first, Nat.add_lt_add_left hlt pos⟩
    · obtain ⟨o, ho, hfirst, hstop⟩ := h.all q first hge hs
      exact ⟨o, List.mem_cons_of_mem _ ho, hfirst, hstop⟩

end Covers

theorem covers_shapesFrom : ∀ (t : Text) (pos : Nat) (glued : Bool) (skip : Nat),
    ∃ os : List Occurrence, shapesFrom pos glued skip t = os.map (·.found)
      ∧ Covers pos skip glued t os
  | [], pos, glued, skip => by
    refine ⟨[], by simp [shapesFrom], by simp, .nil, fun p first _ hs => ?_⟩
    have := (InstanceParts.stands_iff.1 hs).1
    rw [List.drop_nil, List.prefix_nil] at this
    exact absurd this p.text_ne_nil
  | c :: t, pos, glued, skip + 1 => by
    obtain ⟨os, hos, hcovers⟩ := covers_shapesFrom t (pos + 1) (isWord c) skip
    exact ⟨os, hos, hcovers.there glued⟩
  | c :: t, pos, glued, 0 => by
    rw [shapesFrom]
    rcases hs : (if glued then none else shape? (c :: t)) with _ | s
    · obtain ⟨os, hos, hcovers⟩ := covers_shapesFrom t (pos + 1) (isWord c) 0
      refine ⟨os, hos, (hcovers.there glued).of_none fun p hp => ?_⟩
      cases hp with
      | here hp => exact shape?_ne_none hp hs
    · split_ifs at hs with hglued
      obtain rfl : glued = false := by simpa using hglued
      obtain ⟨p, hp, rfl⟩ := shape?_eq_some hs
      obtain ⟨os, hos, hcovers⟩ := covers_shapesFrom t (pos + 1) (isWord c) (p.text.length - 1)
      have hsize : p.text.length - 1 + 1 = p.text.length :=
        Nat.sub_add_cancel (List.length_pos_of_ne_nil p.text_ne_nil)
      have hthere := hcovers.there false
      rw [hsize] at hthere
      exact ⟨⟨pos, p⟩ :: os, congrArg (_ :: ·) hos, hthere.cons (.here hp)⟩

/-! ## Instances -/

theorem endsWord_eq (t : Text) : endsWord false t = t.getLast?.any isWord := by
  rcases List.eq_nil_or_concat' t with rfl | ⟨a, c, rfl⟩
  · rfl
  · rw [endsWord_concat, List.getLast?_concat, Option.any_some]

/-- Parts that stand after the first `start` characters of a text stand in the text. -/
theorem standsIn_iff {p : InstanceParts} {t : Text} {start first : Nat} :
    (Occurrence.mk (start + first) p).StandsIn t ↔
      p.Stands (endsWord false (t.take start)) first (t.drop start) := by
  rw [InstanceParts.stands_iff, List.drop_drop, ← endsWord_append, ← List.take_add]
  exact ⟨fun h => ⟨h.written, h.boundary⟩, fun h => ⟨h.1, h.2⟩⟩

/-- The name stands at the offset that is found, with no word character after it. -/
theorem Occurrence.StandsIn.name_stands {o : Occurrence} {t : Text} (h : o.StandsIn t) :
    ∃ g r, Gap g ∧ t.drop o.found.offset = o.found.name ++ (g ++ '(' :: r)
      ∧ startsWord (g ++ '(' :: r) = false := by
  obtain ⟨r, hr⟩ := h.written
  refine ⟨o.parts.after, r, o.parts.after_blank, ?_,
    startsWord_append o.parts.after_blank fun _ => rfl⟩
  rw [found, ← List.drop_drop, ← hr, InstanceParts.text, List.append_assoc, List.drop_left]
  simp

/-- The instances that are found are those of the occurrences taken by the scan that have no
reserved word. -/
theorem exists_occurrences (t : Text) (start : Nat) : ∃ os : List Occurrence,
    (∀ o ∈ os, start ≤ o.first ∧ o.StandsIn t)
      ∧ os.Pairwise (fun o o' => o.stop ≤ o'.first)
      ∧ (∀ o : Occurrence, start ≤ o.first → o.StandsIn t →
          ∃ o' ∈ os, o'.first ≤ o.first ∧ o.first < o'.stop)
      ∧ instances t start = (os.filter (·.isFree)).map (·.found) := by
  obtain ⟨os, hos, hcovers⟩ :=
    covers_shapesFrom (t.drop start) start (endsWord false (t.take start)) 0
  refine ⟨os, ?_, hcovers.apart, ?_, ?_⟩
  · rintro ⟨_, p⟩ ho
    obtain ⟨first, rfl, -, hs⟩ := hcovers.stand _ ho
    exact ⟨Nat.le_add_right start first, standsIn_iff.2 hs⟩
  · rintro ⟨_, p⟩ hle hp
    obtain ⟨first, rfl⟩ := Nat.exists_eq_add_of_le hle
    exact hcovers.all p first (Nat.zero_le _) (standsIn_iff.1 hp)
  · rw [instances, ← endsWord_eq, hos, List.filter_map]
    rfl

theorem exists_occurrence_of_mem {t : Text} {start : Nat} {f : Found} (h : f ∈ instances t start) :
    ∃ o : Occurrence, start ≤ o.first ∧ o.StandsIn t ∧ o.isFree = true ∧ f = o.found := by
  obtain ⟨os, hstand, -, -, heq⟩ := exists_occurrences t start
  rw [heq] at h
  obtain ⟨o, ho, rfl⟩ := List.mem_map.1 h
  obtain ⟨ho, hfree⟩ := List.mem_filter.1 ho
  exact ⟨o, (hstand o ho).1, (hstand o ho).2, hfree, rfl⟩

/-- For any text and any offset, there are occurrences in the text from the offset on, each after
the parenthesis of the one before it, and every instance that is written from the offset on starts
within one of them. Those of them in which neither the type nor the name is reserved are the
instances that are found. The offsets of these ascend, and at each stands the name, as far as a word
goes to the right, and then the parenthesis. -/
theorem instances_are_occurrences (t : Text) (start : Nat) : ∃ os : List Occurrence,
    (∀ o ∈ os, start ≤ o.first ∧ o.StandsIn t)
      ∧ os.Pairwise (fun o o' => o.stop ≤ o'.first)
      ∧ (∀ o : Occurrence, start ≤ o.first → o.StandsIn t →
          ∃ o' ∈ os, o'.first ≤ o.first ∧ o.first < o'.stop)
      ∧ instances t start = (os.filter (·.isFree)).map (·.found)
      ∧ (instances t start).Pairwise (fun f f' => f.offset < f'.offset)
      ∧ ∀ f ∈ instances t start, start ≤ f.offset
          ∧ isIdentifier f.type = true ∧ isIdentifier f.name = true
          ∧ f.type ∉ reservedWords ∧ f.name ∉ reservedWords
          ∧ ∃ g r, Gap g ∧ t.drop f.offset = f.name ++ (g ++ '(' :: r)
            ∧ startsWord (g ++ '(' :: r) = false := by
  obtain ⟨os, hstand, hapart, hall, heq⟩ := exists_occurrences t start
  refine ⟨os, hstand, hapart, hall, heq, ?_, fun f hf => ?_⟩
  · rw [heq, List.pairwise_map]
    refine (hapart.sublist List.filter_sublist).imp fun {o o'} hle => ?_
    calc o.first + o.parts.lead.length < o.stop := Nat.add_lt_add_left o.parts.length_lead_lt _
      _ ≤ o'.first := hle
      _ ≤ o'.first + o'.parts.lead.length := Nat.le_add_right _ _
  · obtain ⟨o, hle, ho, hfree, rfl⟩ := exists_occurrence_of_mem hf
    simp only [Occurrence.isFree, isReserved, Bool.and_eq_true, Bool.not_eq_true',
      List.contains_eq_mem, decide_eq_false_iff_not] at hfree
    exact ⟨hle.trans (Nat.le_add_right _ _), o.parts.type_identifier, o.parts.name_identifier,
      hfree.1, hfree.2, ho.name_stands⟩

end VerilogIndex.Source
