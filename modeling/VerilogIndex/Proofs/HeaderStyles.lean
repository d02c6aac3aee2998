import VerilogIndex.Proofs.HeaderRoundTrip

/-!
# Ports in the header or in the body

A header can declare its ports, or list their names and leave the declarations to the body, in any
order. The body ends at the first `endmodule` that stands as a word (`Source.HasWord`,
`bodyOf_append`). Each of its statements declares one port (`declaredPorts_written`), and a list of
names declares nothing by itself (`ports_names`). So both styles give the same ports, in the order
of the header. Main statement: `readModule_styles_agree`.
-/

namespace VerilogIndex.Source

open Text

/-! ## Whole words -/

/-- The word stands in the text, with no word character next to it; `glued` if one precedes the
text. -/
inductive HasWord (w : Text) : (glued : Bool) → Text → Prop
  | here {r : Text} (hr : startsWord r = false) : HasWord w false (w ++ r)
  | there {glued : Bool} {c : Char} {t : Text} (h : HasWord w (isWord c) t) :
    HasWord w glued (c :: t)

section Words

variable {w : Text}

/-- A word does not reach beyond a place with a word character on one side at most. -/
theorem exists_prefix_of_joint (hw : ∀ c ∈ w, isWord c = true) {a b r : Text} {glued : Bool}
    (hj : endsWord glued a = false ∨ startsWord b = false) (ha : a ≠ []) (he : a ++ b = w ++ r)
    (hr : startsWord r = false) : ∃ r', a = w ++ r' ∧ startsWord r' = false := by
  rcases List.append_eq_append_iff.1 he with ⟨v, rfl, rfl⟩ | ⟨r', rfl, rfl⟩
  · rcases v with _ | ⟨c, v⟩
    · exact ⟨[], by simp, rfl⟩
    · -- the word would go on beyond the place
      have hend : endsWord glued a = true := by
        obtain ⟨l, d, rfl⟩ := (List.eq_nil_or_concat' a).resolve_left ha
        rw [endsWord_append]
        exact hw d (by simp)
      have hstart : startsWord (c :: v ++ r) = true := hw c (by simp)
      rw [hend, hstart] at hj
      simp at hj
  · refine ⟨r', rfl, ?_⟩
    rcases r' with _ | ⟨c, r'⟩
    · rfl
    · exact hr

theorem HasWord.unglued {glued : Bool} {t : Text} (h : HasWord w glued t) : HasWord w false t := by
  cases h with
  | here hr => exact .here hr
  | there h => exact .there h

theorem hasWord_append (hw : ∀ c ∈ w, isWord c = true) {b : Text} : ∀ {a : Text} {glued : Bool},
    (endsWord glued a = false ∨ startsWord b = false) → HasWord w glued (a ++ b) →
    HasWord w glued a ∨ HasWord w false b
  | [], _, _, h => .inr h.unglued
  | c :: a, glued, hj, h => by
    generalize ht : c :: a ++ b = t at h
    cases h with
    | here hr =>
      obtain ⟨r', hr', hword⟩ := exists_prefix_of_joint hw hj (by simp) ht hr
      rw [hr']
      exact .inl (.here hword)
    | there h =>
      cases ht
      have ih : HasWord w (isWord c) a ∨ HasWord w false b := hasWord_append hw hj h
      exact ih.imp_left .there

/-- No word stands where it stands in neither part. -/
theorem not_hasWord_append (hw : ∀ c ∈ w, isWord c = true) {a b : Text}
    (hj : endsWord false a = false ∨ startsWord b = false) (ha : ¬ HasWord w false a)
    (hb : ¬ HasWord w false b) : ¬ HasWord w false (a ++ b) :=
  fun h => (hasWord_append hw hj h).elim ha hb

theorem not_hasWord_nil (hw : w ≠ []) : ∀ glued, ¬ HasWord w glued [] := by
  intro glued h
  generalize ht : ([] : Text) = t at h
  cases h with
  | here => exact hw (List.append_eq_nil_iff.1 ht.symm).1
  | there => cases ht

/-- A character that is none of a word does not matter. -/
theorem not_hasWord_cons (hw : isIdentifier w = true) {c : Char} (hc : isWord c = false) {t : Text}
    (ht : ¬ HasWord w false t) : ¬ HasWord w false (c :: t) := by
  intro h
  generalize hct : c :: t = u at h
  cases h with
  | @here r hr =>
    obtain ⟨d, w', rfl⟩ := List.exists_cons_of_ne_nil (ne_nil_of_isIdentifier hw)
    obtain ⟨rfl, -⟩ := List.cons.inj hct
    rw [isWord_of_isIdentifier hw c List.mem_cons_self] at hc
    cases hc
  | there h =>
    cases hct
    exact ht h.unglued

theorem not_hasWord_gap (hw : isIdentifier w = true) : ∀ {g : Text}, Gap g → ¬ HasWord w false g
  | [], _ => not_hasWord_nil (ne_nil_of_isIdentifier hw) false
  | c :: _, hg => not_hasWord_cons hw (not_isWord_of_isBlank (hg c List.mem_cons_self))
      (not_hasWord_gap hw fun d hd => hg d (List.mem_cons_of_mem _ hd))

theorem hasWord_of_word (hw : w ≠ []) : ∀ {v : Text} {glued : Bool}, (∀ c ∈ v, isWord c = true) →
    HasWord w glued v → glued = false ∧ v = w
  | [], glued, _, h => absurd h (not_hasWord_nil hw glued)
  | c :: v, glued, hv, h => by
    generalize hcv : c :: v = u at h
    cases h with
    | @here r hr =>
      rcases r with _ | ⟨d, r⟩
      · exact ⟨rfl, List.append_nil w⟩
      · have hd : isWord d = true := hv d (by rw [hcv]; simp)
        rw [startsWord, hd] at hr
        cases hr
    | there h =>
      cases hcv
      have := (hasWord_of_word hw (fun d hd => hv d (List.mem_cons_of_mem _ hd)) h).1
      rw [hv c List.mem_cons_self] at this
      cases this

theorem not_hasWord_word (hw : w ≠ []) {v : Text} (hv : ∀ c ∈ v, isWord c = true) (hne : v ≠ w) :
    ¬ HasWord w false v :=
  fun h => hne (hasWord_of_word hw hv h).2

/-- The name stands at the start of the text if it opens it and no word character is next to it. -/
theorem standsAt_iff (hw : isIdentifier w = true) {glued : Bool} {t : Text} :
    standsAt w glued t = true ↔ glued = false ∧ ∃ r, t = w ++ r ∧ startsWord r = false := by
  have hne := ne_nil_of_isIdentifier hw
  have hword := isWord_of_isIdentifier hw
  have hlast : isWord (w.getLast hne) = true := hword _ (List.getLast_mem hne)
  rcases ha : after? w t with _ | r
  · simp only [standsAt, ha, Bool.false_eq_true, false_iff]
    rintro ⟨-, r, hr, -⟩
    rw [after?_eq_some_iff.2 hr] at ha
    cases ha
  · obtain rfl := after?_eq_some_iff.1 ha
    have hstart : startsWord (w ++ r) = true := by
      obtain ⟨c, w', rfl⟩ := List.exists_cons_of_ne_nil hne
      exact hword c List.mem_cons_self
    simp only [standsAt, ha, List.getLast?_eq_getLast_of_ne_nil hne, hlast, hstart]
    constructor
    · intro h
      have : glued = false ∧ startsWord r = false := by simpa using h
      exact ⟨this.1, r, rfl, this.2⟩
    · rintro ⟨rfl, r', hr', hword'⟩
      obtain rfl := List.append_cancel_left hr'
      simp [hword']

/-- The first place where a word stands is right after a text in which it does not. -/
theorem findWord?_append (hw : isIdentifier w = true) {z : Text} (hz : startsWord z = false) :
    ∀ {a : Text} {glued : Bool}, endsWord glued a = false → ¬ HasWord w glued a →
      findWord? w glued (a ++ (w ++ z)) = some a.length
  | [], glued, he, _ => by
    obtain rfl : glued = false := he
    have hstands := (standsAt_iff hw).2 ⟨rfl, z, rfl, hz⟩
    obtain ⟨c, w', rfl⟩ := List.exists_cons_of_ne_nil (ne_nil_of_isIdentifier hw)
    rw [List.nil_append, List.cons_append, findWord?, ← List.cons_append, if_pos hstands,
      List.length_nil]
  | c :: a, glued, he, hno => by
    have hstands : standsAt w glued (c :: (a ++ (w ++ z))) ≠ true := by
      rw [ne_eq, standsAt_iff hw]
      rintro ⟨rfl, r, hr, hword⟩
      obtain ⟨r', hr', hword'⟩ := exists_prefix_of_joint (a := c :: a)
        (isWord_of_isIdentifier hw) (.inl he) (by simp) hr hword
      rw [hr'] at hno
      exact hno (.here hword')
    have ih : findWord? w (isWord c) (a ++ (w ++ z)) = some a.length :=
      findWord?_append hw hz he fun h => hno (.there h)
    rw [List.cons_append, findWord?, if_neg hstands, ih, Option.map_some, List.length_cons]

/-- A word stands in a text if and only if the search finds it. -/
theorem hasWord_iff (hw : isIdentifier w = true) : ∀ {t : Text} {glued : Bool},
    HasWord w glued t ↔ (findWord? w glued t).isSome = true
  | [], glued => by
    have hno : standsAt w glued [] ≠ true := by
      rw [ne_eq, standsAt_iff hw]
      rintro ⟨-, r, hr, -⟩
      exact ne_nil_of_isIdentifier hw (List.append_eq_nil_iff.1 hr.symm).1
    rw [findWord?, if_neg hno]
    simpa using not_hasWord_nil (ne_nil_of_isIdentifier hw) glued
  | c :: t, glued => by
    have ih : HasWord w (isWord c) t ↔ (findWord? w (isWord c) t).isSome = true := hasWord_iff hw
    rw [findWord?]
    split_ifs with hs
    · obtain ⟨rfl, r, hr, hword⟩ := (standsAt_iff hw).1 hs
      rw [hr]
      simpa using HasWord.here hword
    · rw [Option.isSome_map, ← ih]
      refine ⟨fun h => ?_, .there⟩
      generalize hct : c :: t = u at h
      cases h with
      | @here r hr => exact absurd ((standsAt_iff hw).2 ⟨rfl, r, hct, hr⟩) hs
      | there h =>
        cases hct
        exact h

end Words

/-! ## Texts -/

inductive WrittenName (n : Identifier) : Text → Prop
  | mk {g g' : Text} (hg : Gap g) (hg' : Gap g') : WrittenName n (g ++ (n.1 ++ g'))

inductive WrittenNames : List Identifier → Text → Prop
  | nil {g : Text} (hg : Gap g) : WrittenNames [] g
  | cons {n : Identifier} {ns : List Identifier} {ts : List Text}
      (hts : List.Forall₂ WrittenName (n :: ns) ts) : WrittenNames (n :: ns) (joinWith [','] ts)

/-- Declarations one after the other, each with its semicolon. -/
inductive WrittenBody : List PortDeclaration → Text → Prop
  | nil {g : Text} (hg : Gap g) : WrittenBody [] g
  | cons {p : PortDeclaration} {ps : List PortDeclaration} {t b : Text} (ht : WrittenPort p t)
      (hb : WrittenBody ps b) : WrittenBody (p :: ps) (t ++ ';' :: b)

/-- A module that lists the names of its ports and declares them in its body. -/
inductive WrittenListing (name : Identifier) (ns : List Identifier) (ps : List PortDeclaration) :
    Text → Prop
  | mk {g g₁ g₂ b body : Text} (hg : Gap g) (hne : g ≠ []) (h₁ : Gap g₁) (hb : WrittenNames ns b)
      (hlen : b.length + 2 ≤ maxBlock) (h₂ : Gap g₂) (hbody : WrittenBody ps body) :
      WrittenListing name ns ps ("module" ++ (g ++ (name.1 ++
        (g₁ ++ '(' :: (b ++ ')' :: (g₂ ++ ';' :: (body ++ "endmodule")))))))

/-- The part of a type does not end the statement or the body it stands in. -/
def TypePart.Inner : TypePart → Prop
  | .word w => w.1 ≠ "endmodule"
  | .range r => ';' ∉ r.text ∧ ¬ HasWord "endmodule" false r.text

/-- The port can be declared in a body: its name is no keyword of a declaration, and nothing in the
declaration ends the statement or the body. -/
structure PortDeclaration.Inner (p : PortDeclaration) : Prop where
  name_direction : ∀ d : Direction, p.name.1 ≠ d.text
  name : p.name.1 ≠ "endmodule"
  type : ∀ part ∈ p.type, part.Inner

/-! ## The end of the body -/

theorem isIdentifier_endmodule : isIdentifier "endmodule" = true := by decide +kernel

theorem ne_endmodule_of_direction (d : Direction) : d.text ≠ "endmodule" := by
  cases d <;> decide

/-- Only blanks and ranges stand between a type's last word and the name after it. -/
theorem endsWord_written {glued : Bool} {type : List TypePart} {t : Text}
    (h : WrittenType glued type t) : endsWord glued t = false := by
  induction h with
  | @nil glued g hg hne =>
    rcases g with _ | ⟨c, g⟩
    · rw [endsWord, ← Bool.not_eq_true]
      exact fun hglued => hne hglued rfl
    · rw [← endsWord_gap hg]
      rfl
  | @word _ g t w type _ _ _ ih =>
    obtain ⟨a, c, hw⟩ := (List.eq_nil_or_concat' w.1).resolve_left (ne_nil_of_isIdentifier w.2)
    have hc : isWord c = true := isWord_of_isIdentifier w.2 c (by simp [hw])
    rw [endsWord_append, endsWord_append, hw, endsWord_append, endsWord, endsWord, hc]
    exact ih
  | range _ _ ih =>
    rw [endsWord_append, endsWord, endsWord_append, endsWord]
    exact ih

section End

variable {p : PortDeclaration}

theorem not_hasWord_type {glued : Bool} {type : List TypePart} {t : Text}
    (h : WrittenType glued type t) (hin : ∀ part ∈ type, part.Inner) :
    ¬ HasWord "endmodule" false t := by
  have hend := isIdentifier_endmodule
  have hword := isWord_of_isIdentifier hend
  induction h with
  | nil hg _ => exact not_hasWord_gap hend hg
  | @word _ g t w type hg _ ht ih =>
    obtain ⟨hw, htype⟩ := List.forall_mem_cons.1 hin
    have hstart : startsWord t = false := by
      have := startsWord_written ht []
      rwa [List.append_nil] at this
    exact not_hasWord_append hword (.inl (endsWord_gap hg)) (not_hasWord_gap hend hg)
      (not_hasWord_append hword (.inr hstart)
        (not_hasWord_word (by decide) (isWord_of_isIdentifier w.2) hw) (ih htype))
  | @range _ g t r type hg ht ih =>
    obtain ⟨⟨-, hr⟩, htype⟩ := List.forall_mem_cons.1 hin
    exact not_hasWord_append hword (.inl (endsWord_gap hg)) (not_hasWord_gap hend hg)
      (not_hasWord_cons hend (by decide) (not_hasWord_append hword (.inr rfl) hr
        (not_hasWord_cons hend (by decide) (ih htype))))

theorem not_hasWord_port {t : Text} (h : WrittenPort p t) (hin : p.Inner) :
    ¬ HasWord "endmodule" false t := by
  have hend := isIdentifier_endmodule
  have hword := isWord_of_isIdentifier hend
  have hother : ∀ v, isIdentifier v = true → v ≠ "endmodule" → ¬ HasWord "endmodule" false v :=
    fun v hv hne => not_hasWord_word (by decide) (isWord_of_isIdentifier hv) hne
  obtain ⟨hg, ht, hg'⟩ := h
  rename_i g g' t
  have hgap : startsWord g' = false := by
    have := startsWord_append (t := []) hg' fun _ => rfl
    rwa [List.append_nil] at this
  have hname := not_hasWord_append hword (.inr hgap) (hother _ p.name.2 hin.name)
    (not_hasWord_gap hend hg')
  have htype := not_hasWord_append hword (.inl (endsWord_false (endsWord_written ht)))
    (not_hasWord_type ht hin.type) hname
  have hdirection := not_hasWord_append hword (.inr (startsWord_written ht _))
    (hother _ (isIdentifier_direction p.direction) (ne_endmodule_of_direction _)) htype
  exact not_hasWord_append hword (.inl (endsWord_gap hg)) (not_hasWord_gap hend hg) hdirection

/-- Nothing ends a body before its last declaration. -/
theorem WrittenBody.clear {ps : List PortDeclaration} {b : Text} (h : WrittenBody ps b)
    (hin : ∀ p ∈ ps, p.Inner) : ¬ HasWord "endmodule" false b ∧ endsWord false b = false := by
  have hend := isIdentifier_endmodule
  induction h with
  | nil hg => exact ⟨not_hasWord_gap hend hg, endsWord_gap hg⟩
  | cons ht _ ih =>
    obtain ⟨hp, hps⟩ := List.forall_mem_cons.1 hin
    obtain ⟨hclear, hends⟩ := ih hps
    refine ⟨not_hasWord_append (isWord_of_isIdentifier hend) (.inr rfl) (not_hasWord_port ht hp)
      (not_hasWord_cons hend (by decide) hclear), ?_⟩
    rw [endsWord_append, endsWord]
    exact hends

theorem bodyOf_append {b z : Text} (hb : ¬ HasWord "endmodule" false b)
    (he : endsWord false b = false) (hz : startsWord z = false) :
    bodyOf (b ++ ("endmodule" ++ z)) = b := by
  rw [bodyOf, findWord?_append isIdentifier_endmodule hz he hb]
  exact List.take_left

end End

/-! ## Declarations of a body -/

theorem not_mem_semicolon_bare {t : Text} (h : Bare t) : ';' ∉ t := fun hmem =>
  (h ';' hmem).elim (by decide) (by decide)

theorem not_mem_semicolon_type {glued : Bool} {type : List TypePart} {t : Text}
    (h : WrittenType glued type t) (hin : ∀ part ∈ type, part.Inner) : ';' ∉ t := by
  induction h with
  | nil hg _ => exact not_mem_semicolon_bare (.of_gap hg)
  | @word _ _ _ w _ hg _ _ ih =>
    have hw := not_mem_semicolon_bare (.of_isIdentifier w.2)
    have hg := not_mem_semicolon_bare (.of_gap hg)
    simp [hw, hg, ih (List.forall_mem_cons.1 hin).2]
  | @range _ _ _ r _ hg _ ih =>
    obtain ⟨⟨hr, -⟩, htype⟩ := List.forall_mem_cons.1 hin
    have hg := not_mem_semicolon_bare (.of_gap hg)
    simp [hr, hg, ih htype]

/-- A statement that has begun goes on to its semicolon. -/
theorem portStatementsFrom_append (r : Text) : ∀ {a : Text} (glued : Bool) (begun : Text), ';' ∉ a →
    portStatementsFrom glued (some begun) (a ++ ';' :: r) =
      (begun.reverse ++ a) :: portStatements r
  | [], glued, begun, _ => by
    rw [List.nil_append, portStatementsFrom, if_pos rfl, List.append_nil, portStatements]
  | c :: a, glued, begun, h => by
    rw [List.mem_cons, not_or] at h
    rw [List.cons_append, portStatementsFrom, if_neg (Ne.symm h.1),
      portStatementsFrom_append r false (c :: begun) h.2, List.reverse_cons, List.append_assoc,
      List.singleton_append]

theorem directionKeyword?_blank {c : Char} (hc : isBlank c = true) (t : Text) :
    directionKeyword? (c :: t) = none := by
  refine directionKeyword?_eq_none fun d => ?_
  rw [afterKeyword?, Option.filter_eq_none_iff]
  intro r hr
  rw [after?_eq_some_iff] at hr
  have hdir := isIdentifier_direction d
  obtain ⟨e, w, hw⟩ := List.exists_cons_of_ne_nil (ne_nil_of_isIdentifier hdir)
  rw [hw, List.cons_append] at hr
  obtain ⟨rfl, -⟩ := List.cons.inj hr
  rw [not_isBlank_of_isWord (isWord_of_isIdentifier hdir c (by simp [hw]))] at hc
  cases hc

/-- Blanks before a statement are passed over. -/
theorem portStatements_gap (t : Text) : ∀ {g : Text}, Gap g →
    portStatements (g ++ t) = portStatements t
  | [], _ => rfl
  | c :: g, hg => by
    have hc := hg c List.mem_cons_self
    rw [portStatements, List.cons_append, portStatementsFrom, directionKeyword?_blank hc,
      not_isWord_of_isBlank hc]
    exact portStatements_gap t fun d hd => hg d (List.mem_cons_of_mem _ hd)

/-- The statement of a declaration declares its port. -/
theorem portStatements_port {p : PortDeclaration} {t : Text} (h : WrittenPort p t) (hin : p.Inner)
    (r : Text) : ∃ statement, portStatements (t ++ ';' :: r) = statement :: portStatements r
      ∧ ports statement = [p.port] := by
  obtain ⟨hg, ht, hg'⟩ := h
  rename_i g g' t
  have hdir := isIdentifier_direction p.direction
  obtain ⟨c, w, hw⟩ := List.exists_cons_of_ne_nil (ne_nil_of_isIdentifier hdir)
  have hstatement : WrittenPort p (p.direction.text ++ (t ++ (p.name.1 ++ g'))) :=
    .mk (g := []) (by simp [Gap]) ht hg'
  refine ⟨_, ?_, ports_written (.cons (.cons hstatement .nil))⟩
  have hkeyword : (directionKeyword? (c :: (w ++ (t ++ (p.name.1 ++ (g' ++ ';' :: r)))))).isSome =
      true := by
    rw [← List.cons_append, ← hw, directionKeyword?_text p.direction (startsWord_written ht _)]
    rfl
  have hsemicolon : ';' ∉ w ++ (t ++ (p.name.1 ++ g')) := by
    have hd := not_mem_semicolon_bare (.of_isIdentifier hdir)
    rw [hw, List.mem_cons, not_or] at hd
    simp [hd.2, not_mem_semicolon_type ht hin.type,
      not_mem_semicolon_bare (.of_isIdentifier p.name.2), not_mem_semicolon_bare (.of_gap hg')]
  have hstart := portStatementsFrom_append r false [c] hsemicolon
  simp only [List.append_assoc] at hstart ⊢
  rw [portStatements_gap _ hg, portStatements, hw, List.cons_append, portStatementsFrom, hkeyword]
  exact hstart

theorem declaredPorts_written {ps : List PortDeclaration} {b : Text} (h : WrittenBody ps b)
    (hin : ∀ p ∈ ps, p.Inner) : declaredPorts b = ps.map PortDeclaration.port := by
  induction h with
  | @nil g hg =>
    have := portStatements_gap [] hg
    rw [List.append_nil] at this
    rw [declaredPorts, this]
    rfl
  | @cons p ps t b ht _ ih =>
    obtain ⟨hp, hps⟩ := List.forall_mem_cons.1 hin
    obtain ⟨statement, hstatement, hports⟩ := portStatements_port ht hp b
    rw [declaredPorts] at ih ⊢
    rw [hstatement, List.flatMap_cons, hports, ih hps]
    rfl

/-- Of declarations with different names, that of a name is found wherever it stands. -/
theorem find?_port {ps : List PortDeclaration} (hn : (ps.map (·.name)).Nodup) {p : PortDeclaration}
    (hp : p ∈ ps) :
    (ps.map PortDeclaration.port).find? (fun q => q.name == p.name.1) = some p.port := by
  induction ps with
  | nil => cases hp
  | cons q ps ih =>
    obtain ⟨hq, hps⟩ := List.nodup_cons.1 hn
    rw [List.map_cons, List.find?_cons]
    rcases List.mem_cons.1 hp with rfl | hmem
    · simp [PortDeclaration.port]
    · have hne : (q.port.name == p.name.1) = false := by
        rw [beq_eq_false_iff_ne]
        intro he
        exact hq (List.mem_map.2 ⟨p, hmem, Subtype.ext he.symm⟩)
      rw [hne]
      exact ih hps hmem

theorem bodyPorts_written {ps qs : List PortDeclaration} (hn : (ps.map (·.name)).Nodup)
    (hin : ∀ p ∈ ps, p.Inner) (hperm : qs.Perm ps) {b : Text} (hb : WrittenBody qs b) :
    bodyPorts b (ps.map (·.name.1)) = ps.map PortDeclaration.port := by
  have hdeclared := declaredPorts_written hb fun p hp => hin p (hperm.subset hp)
  have hnq : (qs.map (·.name)).Nodup := (hperm.map _).nodup_iff.2 hn
  have hmap : ps.map PortDeclaration.port = ps.filterMap (some ∘ PortDeclaration.port) :=
    (congrFun List.filterMap_eq_map ps).symm
  simp only [bodyPorts, hdeclared, List.filterMap_map, hmap]
  exact List.filterMap_congr fun p hp => find?_port hnq (hperm.symm.subset hp)

/-! ## Lists of names -/

section Names

variable {n : Identifier} {t : Text}

theorem WrittenName.bare (h : WrittenName n t) : Bare t := by
  obtain ⟨hg, hg'⟩ := h
  intro c hc
  simp only [List.mem_append] at hc
  rcases hc with hc | hc | hc
  · exact Bare.of_gap hg c hc
  · exact Bare.of_isIdentifier n.2 c hc
  · exact Bare.of_gap hg' c hc

theorem WrittenName.trim_eq (h : WrittenName n t) : trim t = n.1 := by
  obtain ⟨hg, hg'⟩ := h
  have hblank : ∀ c ∈ n.1, isBlank c = false := fun c hc =>
    not_isBlank_of_isWord (isWord_of_isIdentifier n.2 c hc)
  obtain ⟨c, w, hw⟩ := List.exists_cons_of_ne_nil (ne_nil_of_isIdentifier n.2)
  obtain ⟨a, d, ha⟩ := (List.eq_nil_or_concat' n.1).resolve_left (ne_nil_of_isIdentifier n.2)
  have hleft : trimLeft n.1 = n.1 := by
    rw [hw, trimLeft_cons (hblank c (by simp [hw]))]
  rw [trim_of_gaps hg hg', trim, hleft, ha, trimRight_append_cons a (hblank d (by simp [ha]))]
  rfl

theorem portOf_name (h : WrittenName n t) (hd : ∀ d : Direction, n.1 ≠ d.text) :
    portOf none t = (none, none) := by
  have hnone : directionKeyword? n.1 = none := by
    refine directionKeyword?_eq_none fun d => ?_
    have := afterKeyword?_eq_none (r := []) (isWord_of_isIdentifier (isIdentifier_direction d))
      (isWord_of_isIdentifier n.2) rfl (hd d)
    rwa [List.append_nil] at this
  have hne : n.1.isEmpty = false := by simp [ne_nil_of_isIdentifier n.2]
  simp only [portOf, cut_of_not_mem (h.bare.not_mem '=' (by decide)), h.trim_eq, hne, hnone]
  rfl

theorem portsFrom_names {ns : List Identifier} {ts : List Text}
    (h : List.Forall₂ WrittenName ns ts) (hd : ∀ n ∈ ns, ∀ d : Direction, n.1 ≠ d.text) :
    portsFrom none ts = [] := by
  induction h with
  | nil => rfl
  | cons ht _ ih =>
    obtain ⟨hn, hns⟩ := List.forall_mem_cons.1 hd
    simp only [portsFrom, portOf_name ht hn, ih hns]
    rfl

theorem WrittenName.contained (h : WrittenName n t) : Contained false t := .of_bare h.bare

theorem WrittenName.ne_nil (h : WrittenName n t) : t ≠ [] := by
  obtain ⟨hg, hg'⟩ := h
  simp [ne_nil_of_isIdentifier n.2]

theorem WrittenNames.contained {ns : List Identifier} (h : WrittenNames ns t) :
    Contained true t := by
  cases h with
  | nil hg => exact .of_gap hg
  | cons hts => exact .joinWith (forall_of_forall₂ (fun _ _ h => h.contained) hts)

theorem map_trim_names {ns : List Identifier} {ts : List Text}
    (h : List.Forall₂ WrittenName ns ts) : ts.map trim = ns.map (·.1) := by
  induction h with
  | nil => rfl
  | cons ht _ ih => rw [List.map_cons, List.map_cons, ht.trim_eq, ih]

/-- A list of names declares no port, and its names are found. -/
theorem ports_names {ns : List Identifier} (h : WrittenNames ns t)
    (hd : ∀ n ∈ ns, ∀ d : Direction, n.1 ≠ d.text) :
    ports t = [] ∧ ((splitTopLevel t).map trim).filter isIdentifier = ns.map (·.1) := by
  cases h with
  | nil hg =>
    have hgaps := fun u hu => gap_of_mem_splitTopLevel (t := u) hg hu
    refine ⟨portsFrom_blank hgaps, List.filter_eq_nil_iff.2 fun u hu => ?_⟩
    obtain ⟨v, hv, rfl⟩ := List.mem_map.1 hu
    rw [trim_gap (hgaps v hv)]
    decide
  | cons hts =>
    have hitems := forall_of_forall₂ (P := fun t => Nested false t ∧ t ≠ [])
      (fun _ _ h => ⟨h.contained.nested, h.ne_nil⟩) hts
    rw [ports, splitTopLevel_joinWith hitems, map_trim_names hts]
    refine ⟨portsFrom_names hts hd, List.filter_eq_self.2 fun u hu => ?_⟩
    obtain ⟨n, -, rfl⟩ := List.mem_map.1 hu
    exact n.2

end Names

/-! ## Modules -/

theorem startsWord_blankComments {z : Text} (hz : startsWord z = false) :
    startsWord (blankComments z) = false := by
  rcases z with _ | ⟨c, z⟩
  · rfl
  · simp only [blankComments, blankFrom, Place.step]
    split_ifs
    · rfl
    · rfl
    · exact hz

/-- Nothing is blanked in a body. -/
theorem blankComments_body {ps : List PortDeclaration} {b : Text} (h : WrittenBody ps b)
    (z : Text) : blankComments (b ++ ("endmodule" ++ z)) =
      b ++ ("endmodule" ++ blankComments z) := by
  induction h with
  | @nil g hg =>
    have hword : isIdentifier "endmodul" = true := by decide +kernel
    have hquiet : Quiet (g ++ "endmodul") :=
      (Bare.of_gap hg).quiet.append (Bare.of_isIdentifier hword).quiet
    have := blankComments_append hquiet.1 (d := 'e') (by decide) z
    rwa [List.append_assoc, List.append_assoc] at this
  | cons ht _ ih =>
    rw [List.append_assoc, List.cons_append,
      blankComments_append ht.contained.quiet.1 (by decide), ih, List.append_assoc,
      List.cons_append]

/-- A port block of nested content is read as one, whatever follows its semicolon. -/
theorem header?_block {g b g' : Text} (hg : Gap g) (hb : Nested true b)
    (hlen : b.length + 2 ≤ maxBlock) (hg' : Gap g') (u : Text) :
    header? (g ++ '(' :: (b ++ ')' :: (g' ++ ';' :: u))) = some ⟨none, b, u⟩ := by
  have hend : headerEnd? none ('(' :: (b ++ ')' :: (g' ++ ';' :: u))) = some ⟨none, b, u⟩ := by
    rw [headerEnd?, block?_nested hb hlen]
    simp only [Option.bind_eq_bind, Option.bind_some, trimLeft_append hg',
      trimLeft_cons (show isBlank ';' = false from rfl)]
  rw [header?, trimLeft_append hg, trimLeft_cons rfl]
  exact hend

/-- What follows the name of a listing is read as a header with its names, and after that comes the
body. -/
theorem header?_listing {name : Identifier} {ns : List Identifier} {qs : List PortDeclaration}
    {g₀ t : Text} (h₀ : Gap g₀) (h : WrittenListing name ns qs t) (z : Text) : ∃ g r b body,
      blankComments (g₀ ++ (t ++ z)) = g₀ ++ ("module" ++ (g ++ (name.1 ++ r)))
      ∧ Gap g ∧ g ≠ [] ∧ startsWord r = false
      ∧ header? r = some ⟨none, b, body ++ ("endmodule" ++ blankComments z)⟩
      ∧ WrittenNames ns b ∧ WrittenBody qs body := by
  obtain ⟨hg, hne, h₁, hb, hlen, h₂, hbody⟩ := h
  rename_i g g₁ g₂ b body
  have hkeyword : isIdentifier "module" = true := by decide +kernel
  have hquiet := (Bare.of_gap h₀).quiet.append ((Bare.of_isIdentifier hkeyword).quiet.append
    ((Bare.of_gap hg).quiet.append ((Bare.of_isIdentifier name.2).quiet.append
      ((Bare.of_gap h₁).quiet.append (hb.contained.block (.of_gap h₂)).quiet))))
  have hcode := blankComments_append hquiet.1 (d := ';') (by decide) (body ++ ("endmodule" ++ z))
  rw [blankComments_body hbody] at hcode
  refine ⟨g, _, b, body, ?_, hg, hne, startsWord_append h₁ fun _ => rfl,
    header?_block h₁ hb.contained.nested hlen h₂ _, hb, hbody⟩
  simpa only [List.append_assoc, List.cons_append] using hcode

/-- The ports of a list of names are those that the body declares, in the order of the names. -/
theorem headerPorts_listing {ps qs : List PortDeclaration} (hn : (ps.map (·.name)).Nodup)
    (hin : ∀ p ∈ ps, p.Inner) (hperm : qs.Perm ps) {b body z : Text}
    (hb : WrittenNames (ps.map (·.name)) b) (hbody : WrittenBody qs body)
    (hz : startsWord z = false) :
    headerPorts ⟨none, b, body ++ ("endmodule" ++ z)⟩ = ps.map PortDeclaration.port := by
  obtain ⟨hnone, hnames⟩ := ports_names hb fun n hmem d => by
    obtain ⟨p, hp, rfl⟩ := List.mem_map.1 hmem
    exact (hin p hp).name_direction d
  obtain ⟨hclear, hends⟩ := hbody.clear fun q hq => hin q (hperm.subset hq)
  rw [headerPorts, hnone]
  simp only [hnames, bodyOf_append hclear hends hz, List.map_map]
  exact bodyPorts_written hn hin hperm hbody

/-- A module is read from the heading and the header that its code opens with. -/
theorem readModule_of_code {g₀ g r t : Text} {name : Identifier} {header : Header} (h₀ : Gap g₀)
    (hg : Gap g) (hne : g ≠ []) (hr : startsWord r = false) (hheader : header? r = some header)
    (hcode : blankComments t = g₀ ++ ("module" ++ (g ++ (name.1 ++ r)))) (path : Text) :
    ∃ m, readModule t path = some m ∧ m.name = name.1 ∧ m.ports = headerPorts header := by
  obtain ⟨heading, hh, hname, rfl⟩ := findHeading?_written h₀ hg hne name.2 hr
  rw [← hcode] at hh
  obtain ⟨m, hm, hmname, -, hmports⟩ := readModule_of_header hh hheader path
  exact ⟨m, hm, hmname.trans hname, hmports⟩

/-- For any ports with different names, none of which ends a body or is a keyword of a declaration:
a module whose header declares them, and one whose header lists their names and whose body declares
them in any order, are read with the same ports, in the order of the header. -/
theorem readModule_styles_agree {name : Identifier} {ps qs : List PortDeclaration}
    (hn : (ps.map (·.name)).Nodup) (hin : ∀ p ∈ ps, p.Inner) (hperm : qs.Perm ps)
    {g t g' t' z : Text} (hg : Gap g) (ht : WrittenHeader name [] ps t) (hg' : Gap g')
    (ht' : WrittenListing name (ps.map (·.name)) qs t') (hz : startsWord z = false)
    (u path : Text) :
    ∃ m m', readModule (g ++ (t ++ ';' :: u)) path = some m
      ∧ readModule (g' ++ (t' ++ z)) path = some m'
      ∧ m.name = name.1 ∧ m'.name = name.1
      ∧ m.ports = ps.map PortDeclaration.port ∧ m'.ports = m.ports := by
  obtain ⟨g₁, r, b, parameters, hsplit, hg₁, hne, hword, hheader, hb, -⟩ :=
    header?_written ht (blankComments u)
  obtain ⟨g₂, r', b', body, hcode', hg₂, hne', hword', hheader', hb', hbody⟩ :=
    header?_listing hg' ht' z
  have hfree : CommentFree (g ++ t) := ((Bare.of_gap hg).quiet.append ht.contained.quiet).1
  have hcode : blankComments (g ++ (t ++ ';' :: u)) = g ++ ("module" ++ (g₁ ++ (name.1 ++ r))) := by
    rw [← List.append_assoc, blankComments_append hfree (by decide), List.append_assoc, hsplit]
  obtain ⟨m, hm, hname, hports⟩ := readModule_of_code hg hg₁ hne hword hheader hcode path
  obtain ⟨m', hm', hname', hports'⟩ :=
    readModule_of_code hg' hg₂ hne' hword' hheader' hcode' path
  rw [headerPorts_written hb] at hports
  rw [headerPorts_listing hn hin hperm hb' hbody (startsWord_blankComments hz)] at hports'
  exact ⟨m, m', hm, hm', hname, hname', hports, hports'.trans hports.symm⟩

/-- Names that extend keywords, a range with parentheses and the letters of `endmodule` in a longer
word, declared in the other order. -/
theorem readModule_styles_agree_swapped :
    let t : Text := "module m(input wire[f(endmodules)]input_x, output y)"
    let t' : Text :=
      "module m(input_x , y);\noutput y;input wire [f(endmodules)] input_x ; endmodule"
    ∃ m m', readModule (t ++ ';' :: " endmodule") [] = some m
      ∧ readModule (t' ++ "\n") [] = some m'
      ∧ m.ports = [⟨"input_x", .input, "wire [f(endmodules)]"⟩, ⟨"y", .output, []⟩]
      ∧ m'.ports = m.ports := by
  intro t t'
  have hnone : Gap [] := by decide
  have hspace : Gap [' '] := by decide
  have hfeed : Gap ['\n'] := by decide
  have hname : ∀ n ∈ (["m", "wire", "input_x", "y"] : List Text), isIdentifier n = true := by
    decide +kernel
  have hcall : Nested true ("f" ++ '(' :: ("endmodules" ++ [')'])) :=
    (Nested.of_plain (by decide)).append (.group .round (.of_plain (by decide)) .nil)
  have hinside : (("f(endmodules)" : Text).all fun c =>
      !isBlank c && decide (c ∉ ['[', ']', '='])) = true := by decide +kernel
  let r : RangeText := ⟨"f(endmodules)", hcall, by simpa using hinside, by decide +kernel⟩
  let m : Identifier := ⟨"m", hname _ (by simp)⟩
  let wire : TypePart := .word ⟨"wire", hname _ (by simp)⟩
  let x : PortDeclaration := ⟨.input, [wire, .range r], ⟨"input_x", hname _ (by simp)⟩⟩
  let y : PortDeclaration := ⟨.output, [], ⟨"y", hname _ (by simp)⟩⟩
  -- nothing ends the statements and the body
  have hne : x.name ≠ y.name := fun he =>
    (show ("input_x" : Text) ≠ "y" by decide) (congrArg Subtype.val he)
  have hdirection : ∀ n ∈ (["input_x", "y"] : List Text), ∀ d : Direction, n ≠ d.text := by
    intro n hn d
    revert n
    cases d <;> decide
  have hrange : ¬ HasWord "endmodule" false "f(endmodules)" := by
    rw [hasWord_iff isIdentifier_endmodule]
    decide +kernel
  have hwire : wire.Inner := show ("wire" : Text) ≠ "endmodule" by decide
  have hcalled : (TypePart.range r).Inner := ⟨show ';' ∉ ("f(endmodules)" : Text) by decide, hrange⟩
  have hx : x.Inner := ⟨hdirection "input_x" (by simp),
    show ("input_x" : Text) ≠ "endmodule" by decide,
    List.forall_mem_cons.2 ⟨hwire, List.forall_mem_cons.2 ⟨hcalled, by simp⟩⟩⟩
  have hy : y.Inner := ⟨hdirection "y" (by simp), show ("y" : Text) ≠ "endmodule" by decide,
    fun _ hmem => by cases hmem⟩
  -- the header that declares the ports
  have htype : WrittenType true x.type " wire[f(endmodules)]" :=
    .word hspace (by decide) (.range hnone (.nil hnone (by decide)))
  have hnotype : WrittenType true y.type " " := .nil hspace (by decide)
  have hports : List.Forall₂ WrittenPort [x, y] ["input wire[f(endmodules)]input_x", " output y"] :=
    .cons (.mk hnone htype hnone) (.cons (.mk hspace hnotype hnone) .nil)
  have ht : WrittenHeader m [] [x, y] t :=
    .plain hspace (by decide) (.mk hnone (.cons hports) (by decide) hnone)
  -- the list of names and the body
  have hlist : List.Forall₂ WrittenName [x.name, y.name] ["input_x ", " y"] :=
    .cons (.mk hnone hspace) (.cons (.mk hspace hnone) .nil)
  have htype' : WrittenType true x.type " wire [f(endmodules)] " :=
    .word hspace (by decide) (.range hspace (.nil hspace (by decide)))
  have hbody : WrittenBody [y, x]
      ("\noutput y" ++ ';' :: ("input wire [f(endmodules)] input_x " ++ ';' :: [' '])) :=
    .cons (.mk hfeed hnotype hnone) (.cons (.mk hnone htype' hspace) (.nil hspace))
  have ht' : WrittenListing m ([x, y].map (·.name)) [y, x] t' :=
    .mk hspace (by decide) hnone (.cons hlist) (by decide) hnone hbody
  obtain ⟨a, a', ha, ha', -, -, hports, hsame⟩ := readModule_styles_agree (by simp [hne])
    (List.forall_mem_cons.2 ⟨hx, List.forall_mem_cons.2 ⟨hy, by simp⟩⟩) (.swap x y []) hnone ht
    hnone ht' (z := "\n") rfl " endmodule" []
  exact ⟨a, a', ha, ha', hports, hsame⟩

end VerilogIndex.Source
