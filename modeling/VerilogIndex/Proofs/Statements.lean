import VerilogIndex.Proofs.InstanceRoundTrip

/-!
# Instances by statement

The shape of an instance ends in a parenthesis, and has no semicolon before it. What stands after
this parenthesis plays no part (`takes_shape?`), so the scan of a text that goes on with a semicolon
finds what it finds in the text, and then what it finds in the rest (`found_append_semicolon`).
Text without a parenthesis after the last word adds nothing (`found_append_plain`).
-/

namespace VerilogIndex.Source

open Text

/-! ## What settles a shape -/

/-- A text that goes on with a parenthesis gives this answer, whatever follows, and no statement
ends in it. -/
structure Takes {α : Type} (f : Text → Option α) (a : α) (p : Text) : Prop where
  clear : ';' ∉ p
  same : ∀ u, f (p ++ '(' :: u) = some a

theorem not_mem_gap {c : Char} (hc : isBlank c = false) {g : Text} (hg : Gap g) : c ∉ g :=
  fun hmem => by
    rw [hg c hmem] at hc
    cases hc

theorem not_mem_name {c : Char} (hc : isWord c = false) {name : Text}
    (hn : isIdentifier name = true) : c ∉ name := fun hmem => by
  rw [isWord_of_isIdentifier hn c hmem] at hc
  cases hc

/-- A named block has no other parenthesis than the one that ends it. -/
theorem takes_namedBlock? {t : Text} {b : Nat × Text × Nat} (h : namedBlock? t = some b) :
    ∃ p u, t = p ++ '(' :: u ∧ b.2.2 = p.length + 1 ∧ '(' ∉ p ∧ Takes namedBlock? b p := by
  obtain ⟨lead, name, size⟩ := b
  obtain ⟨g, g', u, hg, hn, hg', rfl, rfl, rfl⟩ := namedBlock?_eq_some h
  refine ⟨g ++ (name ++ g'), u, by simp, ?_, ?_, ?_, fun u => ?_⟩
  · simp only [List.length_append]
    omega
  · simp [not_mem_gap (c := '(') rfl hg, not_mem_name (c := '(') rfl hn,
      not_mem_gap (c := '(') rfl hg']
  · simp [not_mem_gap (c := ';') rfl hg, not_mem_name (c := ';') rfl hn,
      not_mem_gap (c := ';') rfl hg']
  · simpa using namedBlock?_append hg hn hg' u

/-- Where a text is cut before a part that the stretch up to a parenthesis does not reach into, this
stretch lies before the cut. -/
theorem exists_eq_append_of_append_eq {a b p u : Text} (h : a ++ b = p ++ '(' :: u)
    (hb : ∀ q, p = a ++ q → ¬ q ++ ['('] <+: b) : ∃ r, a = p ++ '(' :: r := by
  rcases List.append_eq_append_iff.1 h with ⟨q, hp, hq⟩ | ⟨q, hp, hq⟩
  · exact absurd ⟨u, by simpa using hq.symm⟩ (hb q hp)
  · rcases q with _ | ⟨c, r⟩
    · exact absurd ⟨u, by simpa using hq⟩ (hb [] (by simpa using hp.symm))
    · cases hq
      exact ⟨r, hp⟩

/-- Whether a named block stands at the start is settled by the first parenthesis. -/
theorem namedBlock?_congr {p u : Text} (h : namedBlock? (p ++ '(' :: u) = none) (u' : Text) :
    namedBlock? (p ++ '(' :: u') = none := by
  rcases hb : namedBlock? (p ++ '(' :: u') with _ | b
  · rfl
  obtain ⟨q, v, hq, -, hfirst, htakes⟩ := takes_namedBlock? hb
  -- the block has no parenthesis but its last, so it ends at this one or before
  obtain ⟨r, hr⟩ : ∃ r, p ++ ['('] = q ++ '(' :: r := by
    refine exists_eq_append_of_append_eq (b := u') (by simpa using hq) fun _ he => absurd ?_ hfirst
    simp [he]
  have hsome := htakes.same (r ++ u)
  rw [← List.cons_append, ← List.append_assoc, ← hr, List.append_assoc, List.singleton_append, h]
    at hsome
  cases hsome

theorem takes_afterOverride? : ∀ {t : Text} {read : Nat} {b : Nat × Text × Nat},
    afterOverride? read t = some b →
    ∃ p u, t = p ++ '(' :: u ∧ b.2.2 = read + p.length + 1 ∧ Takes (afterOverride? read) b p
  | [], _, _, h => by simp [afterOverride?] at h
  | c :: t, read, b, h => by
    have hc : c ≠ ';' := by
      rintro rfl
      simp [afterOverride?] at h
    rw [afterOverride?, if_neg hc] at h
    split at h
    · rename_i lead name size hb
      split_ifs at hb with hclose
      cases h
      obtain ⟨p, u, rfl, hsize, -, htakes⟩ := takes_namedBlock? hb
      refine ⟨c :: p, u, rfl, ?_, by simp [Ne.symm hc, htakes.clear], fun u' => ?_⟩
      · simp only [List.length_cons] at hsize ⊢
        omega
      · rw [List.cons_append, hclose, afterOverride?_of_some (htakes.same u')]
    · rename_i hnone
      obtain ⟨p, u, rfl, hsize, htakes⟩ := takes_afterOverride? h
      refine ⟨c :: p, u, rfl, ?_, by simp [Ne.symm hc, htakes.clear], fun u' => ?_⟩
      · rw [hsize, List.length_cons]
        omega
      · have hpass : (if c = ')' then namedBlock? (p ++ '(' :: u') else none) = none := by
          split_ifs at hnone ⊢
          · exact namedBlock?_congr hnone u'
          · rfl
        rw [List.cons_append, afterOverride?, if_neg hc, hpass]
        exact htakes.same u'

/-- The shape of an instance is settled by what stands up to and with its parenthesis. -/
theorem takes_shape? {t : Text} {s : Shape} (h : shape? t = some s) :
    ∃ p u, t = p ++ '(' :: u ∧ p ≠ [] ∧ s.size = p.length + 1 ∧ Takes shape? s p := by
  have hclear : ∀ {name : Text}, isIdentifier name = true → ';' ∉ name := not_mem_name rfl
  cases readsShape_of_shape? h with
  | @plain type g t b htype hg hne hblank hmark hb =>
    obtain ⟨p, u, rfl, hsize, -, htakes⟩ := takes_namedBlock? hb
    have hhead : ∀ u', (p ++ '(' :: u').head? = (p ++ '(' :: u).head? := by
      rcases p with _ | ⟨c, p⟩
      · exact fun _ => rfl
      · exact fun _ => rfl
    refine ⟨type ++ (g ++ p), u, by simp, by simp [ne_nil_of_isIdentifier htype], ?_, ?_,
      fun u' => ?_⟩
    · simp only [List.length_append] at hsize ⊢
      omega
    · simp [hclear htype, not_mem_gap (c := ';') rfl hg, htakes.clear]
    · rw [← hhead u'] at hblank hmark
      have := shape?_append htype hg hne hblank hmark
      rw [htakes.same] at this
      simpa using this
  | @override type g g' t b htype hg hne hg' hb =>
    obtain ⟨p, u, rfl, hsize, htakes⟩ := takes_afterOverride? hb
    refine ⟨type ++ (g ++ '#' :: (g' ++ '(' :: p)), u, by simp,
      by simp [ne_nil_of_isIdentifier htype], ?_, ?_, fun u' => ?_⟩
    · simp only [List.length_append, List.length_cons] at hsize ⊢
      omega
    · simp [hclear htype, not_mem_gap (c := ';') rfl hg, not_mem_gap (c := ';') rfl hg',
        htakes.clear]
    · have := shape?_override htype hg hne hg' (p ++ '(' :: u')
      rw [htakes.same] at this
      simpa using this

/-! ## Texts that go on -/

/-- The text starts with no word character, and no parenthesis stands before its first semicolon. -/
def Inert (b : Text) : Prop := startsWord b = false ∧ '(' ∉ b.takeWhile (· != ';')

/-- No instance's shape reaches into an inert text. -/
theorem shape?_append_inert {a b : Text} (hb : Inert b) : shape? (a ++ b) = shape? a := by
  refine Option.ext fun s => ⟨fun h => ?_, fun h => ?_⟩
  · obtain ⟨p, u, hp, -, -, htakes⟩ := takes_shape? h
    obtain ⟨r, rfl⟩ : ∃ r, a = p ++ '(' :: r := by
      refine exists_eq_append_of_append_eq hp fun q hq hpre => hb.2 ?_
      have hclear : ∀ c ∈ q ++ ['('], (c != ';') = true := by
        intro c hc
        rw [bne_iff_ne]
        rintro rfl
        refine htakes.clear (hq ▸ List.mem_append_right a ?_)
        simpa using hc
      obtain ⟨v, rfl⟩ := hpre
      rw [List.takeWhile_append_of_pos hclear]
      simp
    exact htakes.same r
  · obtain ⟨p, u, rfl, -, -, htakes⟩ := takes_shape? h
    rw [List.append_assoc, List.cons_append]
    exact htakes.same (u ++ b)

theorem found_of_not_startsWord {b : Text} (hb : startsWord b = false) (glued : Bool) :
    found glued b = found false b := by
  rcases b with _ | ⟨c, b⟩
  · rfl
  · have hc : isWord c = false := hb
    have hshape : shape? (c :: b) = none := by
      rw [shape?, identifier?, if_neg]
      · rfl
      · intro hs
        rw [isWord_of_isIdentifierStart hs] at hc
        cases hc
    rw [found_cons_of_none (.inr hshape), found_cons_of_none (.inr hshape)]

/-- The scan of a text that goes on inertly finds what it finds in the text, and then what it finds
in the rest. -/
theorem found_append {b : Text} (hb : Inert b) : ∀ (a : Text) (glued : Bool),
    found glued (a ++ b) = found glued a ++ found false b
  | [], glued => by
    rw [List.nil_append, found_of_not_startsWord hb.1]
    rfl
  | c :: a, glued => by
    by_cases hnone : glued = true ∨ shape? (c :: a) = none
    · have hnone' : glued = true ∨ shape? (c :: (a ++ b)) = none := by
        rwa [← List.cons_append, shape?_append_inert hb]
      rw [List.cons_append, found_cons_of_none hnone, found_cons_of_none hnone', found_append hb a]
    · rw [not_or, Bool.not_eq_true] at hnone
      obtain ⟨rfl, hsome⟩ := hnone
      obtain ⟨s, hs⟩ := Option.ne_none_iff_exists'.1 hsome
      obtain ⟨p, u, hp, hne, hsize, htakes⟩ := takes_shape? hs
      have hlt : u.length ≤ a.length := by
        have hlen := congrArg List.length hp
        simp only [List.length_append, List.length_cons] at hlen
        omega
      rw [hp, List.append_assoc, List.cons_append, found_of_shape? hne (htakes.same _) hsize,
        found_of_shape? hne (htakes.same _) hsize, found_append hb u, List.cons_append]
termination_by a => a.length

/-- A semicolon ends what an instance can be made of. -/
theorem found_append_semicolon (glued : Bool) (a t : Text) :
    found glued (a ++ ';' :: t) = found glued a ++ found false t := by
  have hinert : Inert (';' :: t) := ⟨rfl, by simp⟩
  rw [found_append hinert]
  exact congrArg _ (Idle.of_marks (a := [';']) rfl t)

/-- An instance needs a parenthesis. -/
theorem found_plain : ∀ {b : Text}, '(' ∉ b → ∀ glued, found glued b = []
  | [], _, _ => rfl
  | c :: b, hb, glued => by
    have hshape : shape? (c :: b) = none := by
      rcases h : shape? (c :: b) with _ | s
      · rfl
      · obtain ⟨p, u, hp, -⟩ := takes_shape? h
        rw [hp] at hb
        simp at hb
    rw [found_cons_of_none (.inr hshape)]
    exact found_plain (fun hmem => hb (List.mem_cons_of_mem _ hmem)) _

/-- What goes on without a word and without a parenthesis adds nothing. -/
theorem found_append_plain {b : Text} (hw : startsWord b = false) (hb : '(' ∉ b) (glued : Bool)
    (a : Text) : found glued (a ++ b) = found glued a := by
  have hinert : Inert b := ⟨hw, fun hmem => hb ((List.takeWhile_prefix _).subset hmem)⟩
  rw [found_append hinert, found_plain hb, List.append_nil]

/-! ## Statement by statement -/

/-- The scan finds this in the text, and goes on after it. -/
def Finds (c : Text) (fs : List (Text × Text)) : Prop :=
  ∀ t, found false (c ++ t) = fs ++ found false t

theorem Finds.append {c c' : Text} {fs fs' : List (Text × Text)} (h : Finds c fs)
    (h' : Finds c' fs') : Finds (c ++ c') (fs ++ fs') := by
  intro t
  rw [List.append_assoc, h, h', List.append_assoc]

theorem Idle.finds {c : Text} (h : Idle c) : Finds c [] := h

theorem finds_statement (a : Text) {g : Text} (hg : g.any isWord = false) :
    Finds (a ++ ';' :: g) (found false a) := by
  intro t
  rw [List.append_assoc, List.cons_append, found_append_semicolon, Idle.of_marks hg]

/-- A semicolon stands in the text, and no word after the last one. -/
def isEnded (c : Text) : Bool := c.contains ';' && !(c.reverse.takeWhile (· != ';')).any isWord

theorem finds_of_isEnded {c : Text} {fs : List (Text × Text)} (hfs : found false c = fs)
    (h : isEnded c = true) : Finds c fs := by
  simp only [isEnded, Bool.and_eq_true, List.contains_iff_mem, Bool.not_eq_true'] at h
  obtain ⟨hmem, hmarks⟩ := h
  have hsplit := List.takeWhile_append_dropWhile (p := (· != ';')) (l := c.reverse)
  rcases hd : c.reverse.dropWhile (· != ';') with _ | ⟨d, r⟩
  · rw [List.dropWhile_eq_nil_iff] at hd
    have := hd ';' (List.mem_reverse.2 hmem)
    simp at this
  · have hd' : d = ';' := by
      have := List.head?_dropWhile_not (· != ';') c.reverse
      rw [hd] at this
      simpa using this
    rw [hd, hd'] at hsplit
    have hc : c = r.reverse ++ ';' :: (c.reverse.takeWhile (· != ';')).reverse := by
      have := congrArg List.reverse hsplit
      simpa using this.symm
    have hg : (c.reverse.takeWhile (· != ';')).reverse.any isWord = false := by
      rwa [List.any_reverse]
    have hfinds := finds_statement r.reverse hg
    rw [← hc] at hfinds
    have hself := hfinds []
    have hnil : found false [] = [] := rfl
    rw [List.append_nil, hnil, List.append_nil, hfs] at hself
    rwa [← hself] at hfinds

theorem map_instances_append (a b : Text) :
    (instances (a ++ b) a.length).map (fun f => (f.type, f.name)) =
      (found (a.getLast?.any isWord) b).filter fun f => !isReserved f.1 && !isReserved f.2 := by
  rw [instances, found, ← map_shapesFrom b a.length 0, List.filter_map, List.take_left,
    List.drop_left]
  rfl

end VerilogIndex.Source
