import VerilogIndex.Proofs.CommentProtocol
import VerilogIndex.Proofs.Defaults
import VerilogIndex.Proofs.HeaderRoundTrip

/-!
# Instances are read back from instantiations

The scan for instances goes over marks and over names in parentheses without finding one (`Idle`),
so nothing is found in the lines that connect ports, with comments or without (`silent_portLine`).
What stands before the parenthesis of the ports is found as one instance of the module: the scan of
the override ends at no parenthesis but the last one, as a comma or another parenthesis follows each
of those that close a value (`afterOverride?_parameterLines`).

Main statement: a module that holds nothing but instantiations is read with one instance for each of
them, in order (`readModule_enclose`).
-/

namespace VerilogIndex

open Text

namespace Source

/-! ## What the scan finds -/

/-- The types and names that the scan of a text finds, reserved words included. -/
def found (glued : Bool) (t : Text) : List (Text × Text) :=
  (shapesFrom 0 glued 0 t).map fun f => (f.type, f.name)

theorem map_shapesFrom : ∀ (t : Text) (pos pos' : Nat) (glued : Bool) (skip : Nat),
    (shapesFrom pos glued skip t).map (fun f => (f.type, f.name)) =
      (shapesFrom pos' glued skip t).map fun f => (f.type, f.name)
  | [], _, _, _, _ => by simp [shapesFrom]
  | c :: t, pos, pos', glued, skip + 1 => by
    rw [shapesFrom, shapesFrom]
    exact map_shapesFrom t _ _ _ _
  | c :: t, pos, pos', glued, 0 => by
    rw [shapesFrom, shapesFrom]
    split
    · rw [List.map_cons, List.map_cons, map_shapesFrom t (pos + 1) (pos' + 1)]
    · exact map_shapesFrom t _ _ _ _

theorem shapesFrom_skip (d : Char) (t : Text) : ∀ (a : Text) (pos : Nat) (glued : Bool),
    shapesFrom pos glued (a.length + 1) (a ++ d :: t) =
      shapesFrom (pos + a.length + 1) (isWord d) 0 t
  | [], _, _ => rfl
  | c :: a, pos, glued => by
    rw [List.length_cons, List.cons_append, shapesFrom, shapesFrom_skip d t a,
      show pos + 1 + a.length = pos + (a.length + 1) by omega]

theorem found_cons_of_none {glued : Bool} {c : Char} {t : Text}
    (h : glued = true ∨ shape? (c :: t) = none) : found glued (c :: t) = found (isWord c) t := by
  have hnone : (if glued then none else shape? (c :: t)) = none := by
    rcases h with h | h <;> simp [h]
  rw [found, shapesFrom, hnone]
  exact map_shapesFrom t _ _ _ _

/-- The scan goes on after the parenthesis that ends an instance's shape. -/
theorem found_of_shape? {a t : Text} {s : Shape} (hne : a ≠ [])
    (hs : shape? (a ++ '(' :: t) = some s) (hsize : s.size = a.length + 1) :
    found false (a ++ '(' :: t) = (s.type, s.name) :: found false t := by
  obtain ⟨c, a, rfl⟩ := List.exists_cons_of_ne_nil hne
  have hskip : s.size - 1 = a.length + 1 := by
    rw [hsize, List.length_cons]
    rfl
  rw [List.cons_append] at hs ⊢
  rw [found, shapesFrom, if_neg (by simp), hs]
  simp only [hskip, shapesFrom_skip, List.map_cons]
  rw [map_shapesFrom t _ 0]
  rfl

/-! ## Shapes -/

section Shapes

variable {type name g g' t : Text}

theorem namedBlock?_eq_none {d : Char} (hg : Gap g) (hb : isBlank d = false)
    (hd : isIdentifierStart d = false) (t : Text) : namedBlock? (g ++ d :: t) = none := by
  have hid : identifier? (d :: t) = none := by
    rw [identifier?, if_neg (by simp [hd])]
  simp only [namedBlock?, (span_gap (t := d :: t) hg hb).2, hid, Option.bind_eq_bind,
    Option.bind_none]

theorem isIdentifier_append (ht : isIdentifier type = true) (hn : isIdentifier name = true) :
    isIdentifier (type ++ name) = true := by
  obtain ⟨c, w, rfl⟩ := List.exists_cons_of_ne_nil (ne_nil_of_isIdentifier ht)
  rw [isIdentifier, Bool.and_eq_true] at ht
  rw [List.cons_append, isIdentifier, List.all_append, ht.1, ht.2, Bool.true_and, Bool.true_and,
    List.all_eq_true]
  exact isWord_of_isIdentifier hn

/-- The character is no part of a word or a gap, and opens no override. -/
def isMark (c : Char) : Bool := !isWord c && !isBlank c && c != '#'

/-- A name before a mark is no type. -/
theorem shape?_eq_none {d : Char} (hn : isIdentifier name = true) (hg : Gap g)
    (hd : isMark d = true) (t : Text) : shape? (name ++ (g ++ d :: t)) = none := by
  simp only [isMark, Bool.and_eq_true, Bool.not_eq_true', bne_iff_ne] at hd
  obtain ⟨⟨hword, hblank⟩, hoverride⟩ := hd
  have hstart : isIdentifierStart d = false := by
    by_contra hs
    rw [Bool.not_eq_false] at hs
    rw [isWord_of_isIdentifierStart hs] at hword
    cases hword
  have hid := identifier?_append hn (startsWord_append (t := d :: t) hg fun _ => hword)
  have hblock : namedBlock? (d :: t) = none :=
    namedBlock?_eq_none (g := []) (by simp [Gap]) hblank hstart t
  simp only [shape?, hid, Option.bind_eq_bind, Option.bind_some,
    (span_gap (t := d :: t) hg hblank).2]
  split_ifs
  · rfl
  · split
    · rename_i heq
      exact absurd (List.cons.inj heq).1 hoverride
    · rw [hblock]
      rfl

theorem found_instance (ht : isIdentifier type = true) (hg : Gap g) (hne : g ≠ [])
    (hn : isIdentifier name = true) (hg' : Gap g') (t : Text) :
    found false (type ++ (g ++ (name ++ (g' ++ '(' :: t)))) = (type, name) :: found false t := by
  have hblock : namedBlock? (name ++ (g' ++ '(' :: t)) =
      some (0, name, 0 + name.length + g'.length + 1) :=
    namedBlock?_append (g := []) (by simp [Gap]) hn hg' t
  have hshape : shape? (type ++ (g ++ (name ++ (g' ++ '(' :: t)))) = some ⟨type, name,
      type.length + g.length + 0, type.length + g.length + (0 + name.length + g'.length + 1)⟩ := by
    obtain ⟨hblank, hmark⟩ := head?_name hn (g' ++ '(' :: t)
    rw [shape?_append ht hg hne hblank hmark, hblock]
    rfl
  have := found_of_shape? (a := type ++ (g ++ (name ++ g'))) (t := t)
    (by simp [ne_nil_of_isIdentifier ht]) (by simpa only [List.append_assoc] using hshape)
    (by simp only [List.length_append]; omega)
  simpa only [List.append_assoc] using this

theorem found_override {o : Text} {offset : Nat} (ht : isIdentifier type = true) (hg : Gap g)
    (hne : g ≠ []) (ho : afterOverride? 0 (o ++ '(' :: t) = some (offset, name, o.length + 1)) :
    found false (type ++ (g ++ '#' :: '(' :: (o ++ '(' :: t))) = (type, name) :: found false t := by
  have hshape : shape? (type ++ (g ++ '#' :: '(' :: (o ++ '(' :: t))) = some ⟨type, name,
      type.length + g.length + 1 + 0 + 1 + offset,
      type.length + g.length + 1 + 0 + 1 + (o.length + 1)⟩ := by
    have hnil : Gap [] := by simp [Gap]
    have := shape?_override ht hg hne hnil (o ++ '(' :: t)
    rw [ho] at this
    exact this
  have := found_of_shape? (a := type ++ (g ++ '#' :: '(' :: o)) (t := t)
    (by simp [ne_nil_of_isIdentifier ht])
    (by simpa only [List.append_assoc, List.cons_append] using hshape)
    (by simp only [List.length_append, List.length_cons]; omega)
  simpa only [List.append_assoc, List.cons_append] using this

end Shapes

/-! ## Texts without instances -/

/-- No instance starts in the text, whatever follows it. -/
def Idle (a : Text) : Prop := ∀ t, found false (a ++ t) = found false t

theorem Idle.append {a b : Text} (ha : Idle a) (hb : Idle b) : Idle (a ++ b) := by
  intro t
  rw [List.append_assoc, ha, hb]

theorem Idle.of_marks {a : Text} (h : a.any isWord = false) : Idle a := by
  intro t
  induction a with
  | nil => rfl
  | cons c a ih =>
    rw [List.any_cons, Bool.or_eq_false_iff] at h
    obtain ⟨hc, ha⟩ := h
    have hstart : isIdentifierStart c = false := by
      by_contra hs
      rw [Bool.not_eq_false] at hs
      rw [isWord_of_isIdentifierStart hs] at hc
      cases hc
    have hshape : shape? (c :: (a ++ t)) = none := by
      rw [shape?, identifier?, if_neg (by simp [hstart])]
      rfl
    rw [List.cons_append, found_cons_of_none (.inr hshape), hc, ih ha]

theorem found_word {w : Text} (hw : ∀ c ∈ w, isWord c = true) (t : Text) :
    found true (w ++ t) = found true t := by
  induction w with
  | nil => rfl
  | cons c w ih =>
    rw [List.cons_append, found_cons_of_none (.inl rfl), hw c List.mem_cons_self,
      ih fun d hd => hw d (List.mem_cons_of_mem _ hd)]

/-- A name before a mark is passed over together with it. -/
theorem Idle.name {w g : Text} {d : Char} (hw : isIdentifier w = true) (hg : Gap g)
    (hd : isMark d = true) : Idle (w ++ (g ++ [d])) := by
  intro t
  have hmarks : (g ++ [d]).any isWord = false := by
    have hblank : g.any isWord = false := List.any_eq_false.2 fun c hc => by
      simp [not_isWord_of_isBlank (hg c hc)]
    have hword : isWord d = false := by
      simp only [isMark, Bool.and_eq_true, Bool.not_eq_true'] at hd
      exact hd.1.1
    simp [hblank, hword]
  have hword := isWord_of_isIdentifier hw
  have hshape := shape?_eq_none hw hg hd t
  obtain ⟨c, w, rfl⟩ := List.exists_cons_of_ne_nil (ne_nil_of_isIdentifier hw)
  obtain ⟨e, m, hm⟩ := List.exists_cons_of_ne_nil (show g ++ [d] ≠ [] by simp)
  have hsplit : g ++ d :: t = e :: (m ++ t) := by
    rw [← List.cons_append, ← hm, List.append_assoc, List.singleton_append]
  rw [hm, List.any_cons, Bool.or_eq_false_iff] at hmarks
  rw [hsplit, List.cons_append] at hshape
  -- the first character starts no instance, and the others follow a word character
  rw [hm, List.append_assoc, List.cons_append, List.cons_append, found_cons_of_none (.inr hshape),
    hword c List.mem_cons_self, found_word fun d hd => hword d (List.mem_cons_of_mem _ hd),
    found_cons_of_none (.inl rfl), hmarks.1, Idle.of_marks hmarks.2]

/-- Nothing is found in the line after its comments are blanked. -/
def Silent (l : Text) : Prop := ∀ t,
  found false (blankComments (l ++ '\n' :: t)) = found false (blankComments t)

theorem Silent.append {a b : Text} (ha : Silent a) (hb : Silent b) : Silent (a ++ '\n' :: b) := by
  intro t
  rw [List.append_assoc, List.cons_append, ha, hb]

theorem Silent.of_blanked {l body : Text} (hbody : Idle body)
    (h : ∀ t, blankComments (l ++ '\n' :: t) = body ++ '\n' :: blankComments t) : Silent l := by
  intro t
  rw [h, hbody]
  exact Idle.of_marks (a := ['\n']) rfl _

theorem Silent.of_not_mem {l : Text} (hl : Idle l) (h : '/' ∉ l) : Silent l :=
  .of_blanked hl fun t => Uncommented.of_not_mem h '\n' (.inr rfl) t

/-- A comment after a space adds nothing to what is found. -/
theorem Silent.commented {a k : Text} (ha : Idle a) (hslash : '/' ∉ a) (hk : '\n' ∉ k) (n : Nat) :
    Silent (a ++ List.replicate n ' ' ++ ' ' :: '/' :: '/' :: k) := by
  let comment : Text := '/' :: '/' :: k
  have hspace : isWord ' ' = false := rfl
  have hmarks : (List.replicate n ' ' ++ ' ' :: (Piece.comment comment).blanked).any isWord =
      false := by
    rw [List.any_eq_false]
    intro c hc
    rcases List.mem_append.1 hc with hc | hc
    · simp [List.eq_of_mem_replicate hc, hspace]
    · rcases List.mem_cons.1 hc with rfl | hc
      · simp [hspace]
      · simp [not_isWord_of_mem_blanked hc]
  have hslash' : '/' ∉ a ++ List.replicate n ' ' := by
    simp [hslash]
  refine .of_blanked (ha.append (.of_marks hmarks)) fun t => ?_
  have hbefore : CommentBefore none comment ('\n' :: t) := .line rfl hk (.inr rfl)
  have hblank : blankComments (comment ++ '\n' :: t) =
      (Piece.comment comment).blanked ++ '\n' :: blankComments t := by
    refine hbefore.blankFrom_append.trans ?_
    rw [blankFrom, step_of_blank (.inr rfl), blankComments]
  have := blankComments_append (commentFree_of_not_mem hslash') (d := ' ') (by decide)
    (comment ++ '\n' :: t)
  rw [hblank] at this
  simpa [comment] using this

/-! ## Overrides -/

theorem afterOverride?_append (t : Text) : ∀ {a : Text}, ';' ∉ a ∧ ')' ∉ a →
    ∀ read, afterOverride? read (a ++ t) = afterOverride? (read + a.length) t
  | [], _, _ => rfl
  | c :: a, h, read => by
    simp only [List.mem_cons, not_or] at h
    obtain ⟨⟨hend, hend'⟩, hclose, hclose'⟩ := h
    rw [List.cons_append, afterOverride?, if_neg (Ne.symm hend), if_neg (Ne.symm hclose)]
    simp only [afterOverride?_append t ⟨hend', hclose'⟩, List.length_cons]
    congr 1
    omega

theorem afterOverride?_of_none {t : Text} (h : namedBlock? t = none) (read : Nat) :
    afterOverride? read (')' :: t) = afterOverride? (read + 1) t := by
  rw [afterOverride?, if_neg (by decide), if_pos rfl, h]

theorem afterOverride?_of_some {t name : Text} {lead size : Nat}
    (h : namedBlock? t = some (lead, name, size)) (read : Nat) :
    afterOverride? read (')' :: t) = some (read + 1 + lead, name, read + 1 + size) := by
  rw [afterOverride?, if_neg (by decide), if_pos rfl, h]

end Source

namespace Generate

open Source

variable {s : Template}

/-! ## The lines of an instantiation -/

/-- The line that sets a parameter. -/
def parameterLine (s : Template) (width : Nat) (last : Bool) (p : Parameter) : Text :=
  s.indent ++ "." ++ padRight width p.name ++ " ( " ++ p.value ++ " )" ++ Template.comma last

/-- A parameter can be set: its value opens no comment, closes no parenthesis and ends no
statement. -/
structure Settable (p : Parameter) : Prop where
  name : isIdentifier p.name = true
  uncommented : Uncommented p.value
  inside : ';' ∉ p.value ∧ ')' ∉ p.value

theorem parameterLine_eq (width : Nat) (last : Bool) (p : Parameter) :
    parameterLine s width last p = (s.indent ++ '.' :: (padRight width p.name ++ [' ', '('])) ++
      ' ' :: (p.value ++ ' ' :: ')' :: Template.comma last) := by
  simp [parameterLine]

theorem mem_lead (hi : ∀ c ∈ s.indent, c = ' ') {name : Text} (hn : isIdentifier name = true)
    (width : Nat) : ∀ c ∈ s.indent ++ '.' :: (padRight width name ++ [' ', '(']),
      isWord c = true ∨ c ∈ [' ', '.', '('] := by
  intro c hc
  simp only [List.mem_append, List.mem_cons, List.not_mem_nil, or_false] at hc ⊢
  rcases hc with hc | hc | hc | hc | hc
  · exact .inr (.inl (hi c hc))
  · exact .inr (.inr (.inl hc))
  · rcases mem_padRight (isWord_of_isIdentifier hn) c hc with hc | hc
    · exact .inl hc
    · exact .inr (.inl hc)
  · exact .inr (.inl hc)
  · exact .inr (.inr (.inr hc))

theorem uncommented_parameterLine (hi : ∀ c ∈ s.indent, c = ' ') {p : Parameter} (hp : Settable p)
    (width : Nat) (last : Bool) : Uncommented (parameterLine s width last p) := by
  rw [parameterLine_eq]
  have hlead : '/' ∉ s.indent ++ '.' :: (padRight width p.name ++ [' ', '(']) := fun hmem => by
    rcases mem_lead hi hp.name width _ hmem with h | h
    · cases h
    · simp at h
  have hend : '/' ∉ ')' :: Template.comma last := by
    cases last <;> decide
  exact (Uncommented.of_not_mem hlead).append (.inl rfl)
    (hp.uncommented.append (.inl rfl) (.of_not_mem hend))

/-- The search for the end of an override goes over a line after which no name follows. -/
theorem afterOverride?_parameterLine (hi : ∀ c ∈ s.indent, c = ' ') {p : Parameter}
    (hp : Settable p) (width : Nat) (last : Bool) {t : Text}
    (ht : namedBlock? (Template.comma last ++ t) = none) (read : Nat) :
    afterOverride? read (parameterLine s width last p ++ t) =
      afterOverride? (read + (parameterLine s width last p).length) t := by
  let lead := s.indent ++ '.' :: (padRight width p.name ++ [' ', '(']) ++ ' ' :: (p.value ++ [' '])
  have heq : parameterLine s width last p = lead ++ ')' :: Template.comma last := by
    rw [parameterLine_eq]
    simp [lead]
  have hlead : ∀ c, isWord c = false → c ∉ [' ', '.', '('] → c ∉ p.value → c ∉ lead := by
    intro c hword hmark hvalue hmem
    rcases List.mem_append.1 hmem with hmem | hmem
    · rcases mem_lead hi hp.name width c hmem with h | h
      · rw [hword] at h
        cases h
      · exact hmark h
    · simp_all
  have hcomma : ';' ∉ Template.comma last ∧ ')' ∉ Template.comma last := by
    cases last <;> decide
  rw [heq, List.append_assoc, List.cons_append, afterOverride?_append _
    ⟨hlead _ rfl (by decide) hp.inside.1, hlead _ rfl (by decide) hp.inside.2⟩,
    afterOverride?_of_none ht, afterOverride?_append _ hcomma,
    show (lead ++ ')' :: Template.comma last).length =
      lead.length + ((Template.comma last).length + 1) from List.length_append]
  congr 1
  omega

theorem afterOverride?_parameterLines (hi : ∀ c ∈ s.indent, c = ' ') (width : Nat) (t : Text) :
    ∀ {ps : List Parameter}, ps ≠ [] → (∀ p ∈ ps, Settable p) → ∀ read,
      afterOverride? read (joinWith ['\n'] (s.parameterLines width ps) ++ '\n' :: ')' :: t) =
        afterOverride? (read + (joinWith ['\n'] (s.parameterLines width ps)).length + 1) (')' :: t)
  | [p], _, h, read => by
    have hend : namedBlock? (Template.comma true ++ '\n' :: ')' :: t) = none :=
      namedBlock?_eq_none (g := ['\n']) (by decide) rfl rfl t
    have := afterOverride?_parameterLine hi (h p List.mem_cons_self) width true hend read
    exact this.trans (afterOverride?_append _ (a := ['\n']) (by decide) _)
  | p :: q :: ps, _, h, read => by
    have ih := afterOverride?_parameterLines hi width t (List.cons_ne_nil q ps)
      fun r hr => h r (List.mem_cons_of_mem _ hr)
    let line := parameterLine s width false p
    have heq : joinWith ['\n'] (s.parameterLines width (p :: q :: ps)) =
        line ++ '\n' :: joinWith ['\n'] (s.parameterLines width (q :: ps)) :=
      List.append_assoc _ _ _
    let rest := joinWith ['\n'] (s.parameterLines width (q :: ps)) ++ '\n' :: ')' :: t
    have hend : namedBlock? (Template.comma false ++ '\n' :: rest) = none :=
      namedBlock?_eq_none (g := []) (by decide) rfl rfl _
    calc afterOverride? read (joinWith ['\n'] (s.parameterLines width (p :: q :: ps)) ++
          '\n' :: ')' :: t)
        = afterOverride? read (line ++ '\n' :: rest) := by
          rw [heq, List.append_assoc, List.cons_append]
      _ = afterOverride? (read + line.length) ('\n' :: rest) :=
          afterOverride?_parameterLine hi (h p List.mem_cons_self) width false hend read
      _ = afterOverride? (read + line.length + 1) rest :=
          afterOverride?_append _ (a := ['\n']) (by decide) _
      _ = _ := by
          rw [ih, heq, List.length_append, List.length_cons]
          congr 1
          omega

/-- The line that connects a port, without its comment: marks, and the name of the port twice before
a parenthesis. -/
def connectionCode (s : Template) (width : Nat) (last : Bool) (name : Text) : Text :=
  let gap := List.replicate (width - name.length) ' ' ++ [' ']
  (s.indent ++ ['.']) ++ (name ++ (gap ++ ['('])) ++ [' '] ++ (name ++ (gap ++ [')'])) ++
    Template.comma last

theorem portLine_eq_commented (width : Nat) (last : Bool) (p : Port) :
    portLine s width last p = s.commented (connectionCode s width last p.name) p := by
  simp [portLine, connectionCode, padRight]

theorem idle_connectionCode (hi : ∀ c ∈ s.indent, c = ' ') {name : Text}
    (hn : isIdentifier name = true) (width : Nat) (last : Bool) :
    Idle (connectionCode s width last name) := by
  have hgap : Gap (List.replicate (width - name.length) ' ' ++ [' ']) := by
    intro c hc
    rw [← List.replicate_succ'] at hc
    rw [List.eq_of_mem_replicate hc]
    rfl
  have hindent : Idle (s.indent ++ ['.']) := by
    have hspace : isWord ' ' = false := rfl
    have hmarks : s.indent.any isWord = false := List.any_eq_false.2 fun c hc => by
      simp [hi c hc, hspace]
    refine .of_marks ?_
    rw [List.any_append, hmarks]
    rfl
  have hspace : Idle [' '] := .of_marks rfl
  have hcomma : Idle (Template.comma last) := by
    cases last <;> exact .of_marks rfl
  exact (((hindent.append (.name hn hgap rfl)).append hspace).append
    (.name hn hgap rfl)).append hcomma

theorem slash_not_mem_connectionCode (hi : ∀ c ∈ s.indent, c = ' ') {name : Text}
    (hn : isIdentifier name = true) (width : Nat) (last : Bool) :
    '/' ∉ connectionCode s width last name := by
  have hname := slash_not_mem_of_isWord (isWord_of_isIdentifier hn)
  have hindent : '/' ∉ s.indent := fun hmem => by cases hi _ hmem
  have hcomma : '/' ∉ Template.comma last := by
    cases last <;> decide
  simp [connectionCode, hname, hindent, hcomma]

theorem silent_portLine (hi : ∀ c ∈ s.indent, c = ' ') {p : Port} (hp : p.WellFormed)
    (width : Nat) (last : Bool) : Silent (portLine s width last p) := by
  have hidle := idle_connectionCode hi hp.name width last
  have hslash := slash_not_mem_connectionCode hi hp.name width last
  rw [portLine_eq_commented, Template.commented]
  split_ifs
  · have hfeed : '\n' ∉ ' ' :: p.comment := fun hmem => by
      rcases List.mem_cons.1 hmem with h | h
      · cases h
      · cases not_isLineBreak_comment hp _ h
    have := Silent.commented hidle hslash hfeed
      (s.commentColumn - (connectionCode s width last p.name).length).toNat
    simpa using this
  · exact .of_not_mem hidle hslash

/-! ## Instantiations -/

/-- What stands before the ports of an instantiation. -/
def opening (s : Template) (m : Module) : Text :=
  m.name ++ s.parameterBlock m.parameters ++ " " ++ s.instanceLead ++ m.name

/-- What stands after the parenthesis that opens the ports of an instantiation. -/
def connections (s : Template) (ps : List Port) : Text :=
  if ps.isEmpty then ");"
  else '\n' :: (joinWith ['\n'] (s.portLines (maxLength (ps.map (·.name))) ps) ++ '\n' :: ");")

theorem render_eq (m : Module) :
    s.render m = opening s m ++ ' ' :: '(' :: connections s m.ports := by
  rw [Template.render, opening, connections, Template.portBlock]
  split_ifs <;> simp

theorem silent_portLines (hi : ∀ c ∈ s.indent, c = ' ') (width : Nat) :
    ∀ {ps : List Port}, (∀ p ∈ ps, p.WellFormed) → ∀ l ∈ s.portLines width ps, Silent l
  | [], _, _, hl => by cases hl
  | p :: ps, h, l, hl => by
    rcases List.mem_cons.1 hl with rfl | hl
    · exact silent_portLine hi (h p List.mem_cons_self) width _
    · exact silent_portLines hi width (fun q hq => h q (List.mem_cons_of_mem _ hq)) l hl

theorem silent_connections (hi : ∀ c ∈ s.indent, c = ' ') {ps : List Port}
    (h : ∀ p ∈ ps, p.WellFormed) : Silent (connections s ps) := by
  have hend : Silent ");" := .of_not_mem (.of_marks rfl) (by decide)
  have hnil : Silent [] := .of_not_mem (.of_marks rfl) (by simp)
  rw [connections]
  split_ifs with he
  · exact hend
  · have hne : s.portLines (maxLength (ps.map (·.name))) ps ≠ [] := by
      rcases ps with _ | ⟨p, ps⟩
      · simp at he
      · simp [Template.portLines]
    have hlines := joinWith_closed Silent.append hne (silent_portLines hi _ h)
    exact hnil.append (hlines.append hend)

theorem uncommented_parameterLines (hi : ∀ c ∈ s.indent, c = ' ') (width : Nat) :
    ∀ {ps : List Parameter}, (∀ p ∈ ps, Settable p) → ∀ l ∈ s.parameterLines width ps, Uncommented l
  | [], _, _, hl => by cases hl
  | p :: ps, h, l, hl => by
    rcases List.mem_cons.1 hl with rfl | hl
    · exact uncommented_parameterLine hi (h p List.mem_cons_self) width _
    · exact uncommented_parameterLines hi width (fun q hq => h q (List.mem_cons_of_mem _ hq)) l hl

/-- The scan finds the instance that an instantiation opens with. -/
theorem found_opening (hi : ∀ c ∈ s.indent, c = ' ') (hl : isIdentifier s.instanceLead = true)
    {m : Module} (hn : isIdentifier m.name = true) (hp : ∀ p ∈ m.parameters, Settable p)
    (t : Text) : found false (opening s m ++ ' ' :: '(' :: t) =
      (m.name, s.instanceLead ++ m.name) :: found false t := by
  have hname : isIdentifier (s.instanceLead ++ m.name) = true := isIdentifier_append hl hn
  have hspace : Gap [' '] := by decide
  rcases hps : m.parameters.isEmpty with _ | _
  · let width := maxLength (m.parameters.map (·.name))
    let lines := joinWith ['\n'] (s.parameterLines width m.parameters)
    let o := '\n' :: (lines ++ '\n' :: ')' :: ' ' :: (s.instanceLead ++ m.name ++ [' ']))
    have hblock := namedBlock?_append hspace hname hspace t
    have ho : afterOverride? 0 (o ++ '(' :: t) =
        some (0 + 1 + lines.length + 1 + 1 + 1, s.instanceLead ++ m.name, o.length + 1) := by
      calc afterOverride? 0 (o ++ '(' :: t)
          = afterOverride? 0 (['\n'] ++ (lines ++ '\n' :: ')' ::
              ([' '] ++ (s.instanceLead ++ m.name ++ ([' '] ++ '(' :: t))))) := by
            simp [o]
        _ = _ := by
            rw [afterOverride?_append _ (by decide), afterOverride?_parameterLines hi width _
              (by simpa using hps) hp, afterOverride?_of_some hblock]
            simp only [o, lines, List.length_cons, List.length_append, List.length_nil]
            congr 3
            omega
    have := found_override hn hspace (by simp) ho
    have heq : opening s m ++ ' ' :: '(' :: t =
        m.name ++ ([' '] ++ '#' :: '(' :: (o ++ '(' :: t)) := by
      simp [opening, Template.parameterBlock, hps, o, lines, width]
    rw [heq]
    exact this
  · have := found_instance hn hspace (by simp) hname hspace t
    have heq : opening s m ++ ' ' :: '(' :: t =
        m.name ++ ([' '] ++ (s.instanceLead ++ m.name ++ ([' '] ++ '(' :: t))) := by
      simp [opening, Template.parameterBlock, hps]
    rw [heq]
    exact this

theorem uncommented_opening (hi : ∀ c ∈ s.indent, c = ' ')
    (hl : isIdentifier s.instanceLead = true) {m : Module} (hn : isIdentifier m.name = true)
    (hp : ∀ p ∈ m.parameters, Settable p) : Uncommented (opening s m) := by
  have hname : Uncommented m.name :=
    .of_not_mem (slash_not_mem_of_isWord (isWord_of_isIdentifier hn))
  have hinstance : Uncommented (s.instanceLead ++ m.name) :=
    .of_not_mem (slash_not_mem_of_isWord (isWord_of_isIdentifier (isIdentifier_append hl hn)))
  rcases hps : m.parameters.isEmpty with _ | _
  · have hne : s.parameterLines (maxLength (m.parameters.map (·.name))) m.parameters ≠ [] := by
      rcases he : m.parameters with _ | ⟨p, ps⟩
      · simp [he] at hps
      · simp [Template.parameterLines]
    have hlines := joinWith_closed (fun ha hb => Uncommented.append ha (.inr rfl) hb) hne
      (uncommented_parameterLines hi _ hp)
    have hopen : Uncommented "#(" := .of_not_mem (by decide)
    have hclose : Uncommented ")" := .of_not_mem (by decide)
    have := hname.append (.inl rfl) (hopen.append (.inr rfl)
      (hlines.append (.inr rfl) (hclose.append (.inl rfl) hinstance)))
    simpa [opening, Template.parameterBlock, hps] using this
  · have := hname.append (.inl rfl) hinstance
    simpa [opening, Template.parameterBlock, hps] using this

/-- An instantiation is found as one instance. -/
theorem found_render (hi : ∀ c ∈ s.indent, c = ' ') (hl : isIdentifier s.instanceLead = true)
    {m : Module} (hm : m.WellFormed) (hp : ∀ p ∈ m.parameters, Settable p) (t : Text) :
    found false (blankComments (s.render m ++ '\n' :: t)) =
      (m.name, s.instanceLead ++ m.name) :: found false (blankComments t) := by
  have hopening := uncommented_opening hi hl hm.name hp ' ' (.inl rfl)
    ('(' :: (connections s m.ports ++ '\n' :: t))
  have hparen := blankComments_append (a := []) (by decide) (d := '(') (by decide)
    (connections s m.ports ++ '\n' :: t)
  rw [render_eq, List.append_assoc, List.cons_append, List.cons_append, hopening]
  rw [List.nil_append, List.nil_append] at hparen
  rw [hparen, found_opening hi hl hm.name hp, silent_connections hi hm.ports t]

/-- The instantiations of the modules, each on new lines, and the end of the module that holds
them. -/
def instantiations (s : Template) (ms : List Module) : Text :=
  joinWith ['\n'] (ms.map s.render ++ ["endmodule".toList])

/-- A module `top` without ports that holds an instantiation of each of the modules. -/
def enclose (s : Template) (ms : List Module) : Text := "module top ();\n" ++ instantiations s ms

theorem instantiations_cons (m : Module) (ms : List Module) :
    instantiations s (m :: ms) = s.render m ++ '\n' :: instantiations s ms := by
  rw [instantiations, instantiations, List.map_cons, List.cons_append]
  obtain ⟨u, us, hu⟩ := List.exists_cons_of_ne_nil
    (show ms.map s.render ++ ["endmodule".toList] ≠ [] by simp)
  rw [hu, joinWith, List.append_assoc, List.singleton_append]

theorem found_instantiations (hi : ∀ c ∈ s.indent, c = ' ')
    (hl : isIdentifier s.instanceLead = true) :
    ∀ {ms : List Module}, (∀ m ∈ ms, m.WellFormed ∧ ∀ p ∈ m.parameters, Settable p) →
      found false (blankComments (instantiations s ms)) =
        ms.map fun m => (m.name, s.instanceLead ++ m.name)
  | [], _ => by
    have hend : found false (blankComments "endmodule") = [] := by decide +kernel
    exact hend
  | m :: ms, h => by
    obtain ⟨hm, hp⟩ := h m List.mem_cons_self
    rw [instantiations_cons, found_render hi hl hm hp,
      found_instantiations hi hl fun n hn => h n (List.mem_cons_of_mem _ hn), List.map_cons]

/-! ## The module around the instantiations -/

theorem blankComments_enclose (ms : List Module) : blankComments (enclose s ms) =
    "module top ();\n" ++ blankComments (instantiations s ms) :=
  blankComments_append (a := "module top ();") (by decide) (d := '\n') (by decide)
    (instantiations s ms)

theorem readModule_top {t code : Text} (h : blankComments t = "module top ();\n" ++ code)
    (path : Text) :
    ∃ top, readModule t path = some top ∧ top.name = "top" ∧ top.parameters = [] ∧ top.ports = []
      ∧ top.instances = locatedInstances t ("module top ();\n" ++ code) 0 path := by
  have hheading : findHeading? ("module top ();\n" ++ code) =
      some ⟨0, 7, "top", " ();\n" ++ code⟩ := rfl
  have hheader : header? (" ();\n" ++ code) = some ⟨none, [], '\n' :: code⟩ := rfl
  simp only [readModule, h, hheading, hheader, Option.bind_eq_bind, Option.bind_some]
  exact ⟨_, rfl, rfl, rfl, rfl, rfl⟩

theorem found_top (t : Text) :
    found false ("module top ();\n" ++ t) = ("module".toList, "top".toList) :: found false t := by
  have hmarks : Idle ");\n" := .of_marks rfl
  have hspace : Gap [' '] := by decide
  have hmodule : isIdentifier "module" = true := by decide +kernel
  have htop : isIdentifier "top" = true := by decide +kernel
  have := found_instance hmodule hspace (by simp) htop hspace (");\n" ++ t)
  rw [hmarks] at this
  exact this

/-- The instances that are read are those the scan finds without the reserved words. -/
theorem map_locatedInstances (t code path : Text) :
    (locatedInstances t code 0 path).map (fun i => (i.type, i.name)) =
      (found false code).filter fun f => !isReserved f.1 && !isReserved f.2 := by
  rw [locatedInstances, instances, found, List.map_map, List.filter_map]
  rfl

theorem not_isReserved_lead (name : Text) : isReserved ("u_" ++ name) = false := by
  have hall : (reservedWords.all fun w => !("u_".toList.isPrefixOf w)) = true := by decide +kernel
  by_contra h
  rw [Bool.not_eq_false, isReserved, List.contains_iff_mem] at h
  have := List.all_eq_true.1 hall _ h
  simp at this

/-- For modules that were read, with no reserved word for a name and no closing parenthesis or
semicolon in a default value: the module `top` that holds their instantiations, with comments in any
column or without, is read without ports and with exactly one instance of each of them, in order,
under its name after `u_`. -/
theorem readModule_enclose (comments : Bool) (column : Int) {ms : List Module}
    (hread : ∀ m ∈ ms, ∃ t path, readModule t path = some m)
    (hname : ∀ m ∈ ms, isReserved m.name = false)
    (hvalue : ∀ m ∈ ms, ∀ p ∈ m.parameters, ';' ∉ p.value ∧ ')' ∉ p.value) (path : Text) :
    ∃ top, readModule (enclose { comments, commentColumn := column } ms) path = some top
      ∧ top.name = "top" ∧ top.parameters = [] ∧ top.ports = []
      ∧ top.instances.map (fun i => (i.type, i.name)) =
        ms.map fun m => (m.name, "u_".toList ++ m.name) := by
  let s : Template := { comments, commentColumn := column }
  have hms : ∀ m ∈ ms, m.WellFormed ∧ ∀ p ∈ m.parameters, Settable p := by
    intro m hm
    obtain ⟨t, path, ht⟩ := hread m hm
    have hw := wellFormed_readModule ht
    exact ⟨hw, fun p hp =>
      ⟨hw.parameters p hp, uncommented_of_mem_parameters ht p hp, hvalue m hm p hp⟩⟩
  have hindent : ∀ c ∈ s.indent, c = ' ' := fun c hc => List.eq_of_mem_replicate (n := 4) hc
  have hlead : isIdentifier s.instanceLead = true := show isIdentifier "u_" = true by decide +kernel
  have hfound := found_instantiations hindent hlead hms
  obtain ⟨top, htop, hn, hparameters, hports, hinstances⟩ :=
    readModule_top (blankComments_enclose (s := s) ms) path
  refine ⟨top, htop, hn, hparameters, hports, ?_⟩
  rw [hinstances, map_locatedInstances, found_top, hfound,
    List.filter_cons_of_neg (by decide +kernel), List.filter_eq_self]
  intro f hf
  obtain ⟨m, hm, rfl⟩ := List.mem_map.1 hf
  have hinstance : isReserved (s.instanceLead ++ m.name) = false := not_isReserved_lead m.name
  simp only [hname m hm, hinstance, Bool.not_false, Bool.and_self]

/-- A value with two slashes after a colon, two lines of parameters, and a module without ports. -/
theorem readModule_enclose_slashes :
    let t : Text := "module fifo #(parameter URL = \"http://a\", N = 8)\n" ++
      "(input wire [N-1:0] d, output q); endmodule"
    let u : Text := "module leaf (); endmodule"
    ∃ m n top, readModule t [] = some m ∧ readModule u [] = some n
      ∧ m.parameters = [⟨"URL", "\"http://a\""⟩, ⟨"N", "8"⟩] ∧ m.ports.length = 2 ∧ n.ports = []
      ∧ readModule (enclose { comments := true, commentColumn := 30 } [m, n, m]) [] = some top
      ∧ top.name = "top" ∧ top.ports = []
      ∧ top.instances.map (fun i => (i.type, i.name)) =
        [("fifo".toList, "u_fifo".toList), ("leaf".toList, "u_leaf".toList),
          ("fifo".toList, "u_fifo".toList)] := by
  intro t u
  have ht : (readModule t []).map (fun m => (m.name, m.parameters, m.ports.length)) =
      some ("fifo".toList, [⟨"URL", "\"http://a\""⟩, ⟨"N", "8"⟩], 2) := by decide +kernel
  have hu : (readModule u []).map (fun n => (n.name, n.parameters, n.ports)) =
      some ("leaf".toList, [], []) := by decide +kernel
  obtain ⟨m, hm, hme⟩ := Option.map_eq_some_iff.1 ht
  obtain ⟨n, hn, hne⟩ := Option.map_eq_some_iff.1 hu
  simp only [Prod.mk.injEq] at hme hne
  have hmem : ∀ k ∈ [m, n, m], k = m ∨ k = n := by
    simp
  have hread : ∀ k ∈ [m, n, m], ∃ t path, readModule t path = some k := by
    intro k hk
    rcases hmem k hk with rfl | rfl
    · exact ⟨t, [], hm⟩
    · exact ⟨u, [], hn⟩
  have hfree : ∀ k ∈ [m, n, m], isReserved k.name = false := by
    intro k hk
    rcases hmem k hk with rfl | rfl
    · rw [hme.1]
      decide +kernel
    · rw [hne.1]
      decide +kernel
  have hvalue : ∀ k ∈ [m, n, m], ∀ p ∈ k.parameters, ';' ∉ p.value ∧ ')' ∉ p.value := by
    intro k hk
    rcases hmem k hk with rfl | rfl
    · rw [hme.2.1]
      decide
    · rw [hne.2.1]
      decide
  obtain ⟨top, htop, hname, -, hports, hinstances⟩ :=
    readModule_enclose true 30 hread hfree hvalue []
  refine ⟨m, n, top, hm, hn, hme.2.1, hme.2.2, hne.2.2, htop, hname, hports, ?_⟩
  rw [hinstances, List.map_cons, List.map_cons, List.map_cons, hme.1, hne.1]
  rfl

end Generate

end VerilogIndex
