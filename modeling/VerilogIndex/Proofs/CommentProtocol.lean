import VerilogIndex.Generate.Declaration
import VerilogIndex.Generate.Instantiation
import VerilogIndex.Proofs.Comments
import VerilogIndex.Proofs.Declared

/-!
# Signals are read back from an instantiation

An instantiation with comments tells name, direction and type of each port on a line of its own. The
lines before the ports have no comment, as long as no parameter has two slashes in its value, so
nothing is read from them (`connectedPort?_of_noComment`); a port's line gives the port back, in
whatever column the comment stands (`connectedPort?_portLine`). Main statement:
`readSignals_render`.
-/

namespace VerilogIndex

open Text

namespace Generate

open Source

/-- The ports without those whose name an earlier one has. -/
def firstOfName : List Port → List Port
  | [] => []
  | p :: ps => p :: (firstOfName ps).filter fun q => q.name != p.name

/-! ## Lines without a comment -/

theorem portComment?_of_noComment : ∀ {t : Text}, Apart '/' '/' t → portComment? t = none
  | [], _ => rfl
  | c :: t, h => by
    rw [apart_cons] at h
    have hafter : after? "//" (c :: t) = none := by
      rcases ha : after? "//" (c :: t) with _ | r
      · rfl
      · obtain ⟨rfl, rfl⟩ := List.cons.inj (after?_eq_some_iff.1 ha)
        exact absurd ⟨rfl, rfl⟩ h.1
    rw [portComment?, hafter]
    exact portComment?_of_noComment h.2

theorem suffix_of_connection? {t name rest : Text} (h : connection? t = some (name, rest)) :
    rest <:+ t := by
  rw [connection?.eq_def] at h
  split at h
  · rename_i r
    simp only at h
    split at h
    · rename_i rest' hr
      split_ifs at h
      obtain ⟨-, rfl⟩ := Prod.mk.inj (Option.some.inj h)
      calc rest' <:+ ')' :: rest' := List.suffix_cons _ _
        _ = trimLeft ((trimLeft r).dropWhile isPlain) := hr.symm
        _ <:+ (trimLeft r).dropWhile isPlain := List.dropWhile_suffix _
        _ <:+ trimLeft r := List.dropWhile_suffix _
        _ <:+ r := List.dropWhile_suffix _
        _ <:+ '(' :: r := List.suffix_cons _ _
    · cases h
  · cases h

theorem connectedPort?_of_noComment : ∀ {t : Text}, Apart '/' '/' t → connectedPort? t = none
  | [], _ => rfl
  | c :: t, h => by
    have ih := connectedPort?_of_noComment (apart_cons.1 h).2
    rw [connectedPort?, ih]
    rcases hc : connection? (c :: t) with _ | ⟨name, rest⟩
    · rfl
    · have hp := portComment?_of_noComment
        (apart_stretch h (suffix_of_connection? hc).isInfix)
      simp [hp]

/-! ## The line of a port -/

theorem connectedPort?_append {a : Text} (h : '(' ∉ a) (t : Text) :
    connectedPort? (a ++ t) = connectedPort? t := by
  induction a with
  | nil => rfl
  | cons c a ih =>
    rw [List.mem_cons, not_or] at h
    have hc : connection? (c :: (a ++ t)) = none := by
      rw [connection?.eq_def]
      split
      · rename_i heq
        exact absurd (List.cons.inj heq).1 (Ne.symm h.1)
      · rfl
    rw [List.cons_append, connectedPort?, hc, ← ih h.2]
    rfl

theorem portComment?_append {a : Text} (h : '/' ∉ a) (t : Text) :
    portComment? (a ++ t) = portComment? t := by
  induction a with
  | nil => rfl
  | cons c a ih =>
    rw [List.mem_cons, not_or] at h
    have hc : after? "//" (c :: (a ++ t)) = none := by
      rcases ha : after? "//" (c :: (a ++ t)) with _ | r
      · rfl
      · exact absurd (List.cons.inj (after?_eq_some_iff.1 ha)).1 (Ne.symm h.1)
    rw [List.cons_append, portComment?, hc, ← ih h.2]
    rfl

theorem isPlain_of_isWord {c : Char} (h : isWord c = true) : isPlain c = true := by
  have hopen : c ≠ '(' := by
    rintro rfl
    cases h
  have hclose : c ≠ ')' := by
    rintro rfl
    cases h
  simp [isPlain, not_isBlank_of_isWord h, hopen, hclose]

/-- A name between blanks in parentheses is the expression that is connected. -/
theorem connection?_name {name : Text} (hne : name ≠ []) (hname : ∀ c ∈ name, isWord c = true)
    (n : Nat) (rest : Text) :
    connection? ('(' :: ' ' :: (name ++ List.replicate n ' ' ++ ' ' :: ')' :: rest)) =
      some (name, rest) := by
  have hplain : ∀ c ∈ name, isPlain c = true := fun c hc => isPlain_of_isWord (hname c hc)
  let tail := List.replicate n ' ' ++ ' ' :: ')' :: rest
  have htail : tail.takeWhile isPlain = [] ∧ tail.dropWhile isPlain = tail := by
    cases n <;> exact ⟨rfl, rfl⟩
  have htrim : trimLeft (' ' :: (name ++ tail)) = name ++ tail := by
    obtain ⟨c, name, rfl⟩ := List.exists_cons_of_ne_nil hne
    rw [show ' ' :: (c :: name ++ tail) = [' '] ++ (c :: name ++ tail) from rfl,
      trimLeft_append (by simp [Gap, isBlank, inRuns, blankRuns])]
    exact trimLeft_cons (not_isBlank_of_isWord (hname c List.mem_cons_self)) _
  have hclose : trimLeft tail = ')' :: rest := by
    have hb : ∀ c ∈ List.replicate n ' ' ++ [' '], isBlank c = true := by
      intro c hc
      rw [← List.replicate_succ', List.mem_replicate] at hc
      rw [hc.2]
      rfl
    have := trimLeft_append (t := ')' :: rest) hb
    rw [List.append_assoc] at this
    exact this
  rw [List.append_assoc]
  simp only [connection?, show List.replicate n ' ' ++ ' ' :: ')' :: rest = tail from rfl, htrim,
    List.takeWhile_append_of_pos hplain, List.dropWhile_append_of_pos hplain, htail, hclose,
    List.append_nil]
  rw [if_neg (by simpa using hne)]

/-- The comment of a port tells its direction and its type. -/
theorem portComment?_comment {p : Port} (h : p.WellFormed) :
    ∃ r, portComment? ('/' :: '/' :: ' ' :: p.comment) = some (p.direction, r)
      ∧ squeeze r = p.type := by
  obtain ⟨r, hr, hw, hs⟩ : ∃ r, p.comment = p.direction.text ++ r ∧ startsWord r = false
      ∧ squeeze r = p.type := by
    rw [Port.comment]
    split_ifs with he
    · exact ⟨[], (List.append_nil _).symm, rfl, (List.isEmpty_iff.1 he).symm⟩
    · refine ⟨' ' :: p.type, List.append_assoc _ _ _, rfl, ?_⟩
      rw [squeeze_cons_of_isBlank rfl, squeeze_of_neat h.type]
  refine ⟨r, ?_, hs⟩
  have htrim : trimLeft (' ' :: p.comment) = p.direction.text ++ r := by
    rw [hr]
    cases p.direction <;> rfl
  rw [portComment?, after?_eq_some_iff.2 (show '/' :: '/' :: ' ' :: p.comment =
    ("//" : Text) ++ ' ' :: p.comment from rfl), Option.bind_some, htrim,
    directionKeyword?_text p.direction hw]

/-- The line that connects a port. -/
def portLine (s : Template) (width : Nat) (last : Bool) (p : Port) : Text :=
  s.commented (s.indent ++ "." ++ padRight width p.name ++ " ( " ++ padRight width p.name ++ " )"
    ++ Template.comma last) p

theorem mem_padRight {width : Nat} {name : Text} (h : ∀ c ∈ name, isWord c = true) :
    ∀ c ∈ padRight width name, isWord c = true ∨ c = ' ' := by
  intro c hc
  rcases List.mem_append.1 hc with hc | hc
  · exact .inl (h c hc)
  · exact .inr (List.eq_of_mem_replicate hc)

variable {s : Template}

/-- A port's line has one opening parenthesis before the port's name and no slash before its
comment. -/
theorem portLine_eq (hc : s.comments = true) (hi : ∀ c ∈ s.indent, c = ' ') {p : Port}
    (hp : p.WellFormed) (width : Nat) (last : Bool) :
    ∃ lead n gap, portLine s width last p = lead ++ '(' :: ' ' :: (p.name ++ List.replicate n ' ' ++
        ' ' :: ')' :: (gap ++ '/' :: '/' :: ' ' :: p.comment))
      ∧ (∀ c ∈ lead, isWord c = true ∨ c = ' ' ∨ c = '.') ∧ ∀ c ∈ gap, c = ' ' ∨ c = ',' := by
  obtain ⟨k, hk⟩ : ∃ k, portLine s width last p = s.indent ++ "." ++ padRight width p.name ++ " ( "
      ++ padRight width p.name ++ " )" ++ Template.comma last ++ List.replicate k ' ' ++ " // "
      ++ p.comment := by
    rw [portLine, Template.commented, if_pos hc]
    exact ⟨_, rfl⟩
  refine ⟨s.indent ++ ['.'] ++ padRight width p.name ++ [' '], width - p.name.length,
    Template.comma last ++ List.replicate k ' ' ++ [' '], ?_, fun c hmem => ?_, fun c hmem => ?_⟩
  · rw [hk]
    simp only [padRight, List.append_assoc]
    rfl
  · simp only [List.mem_append, List.mem_singleton] at hmem
    rcases hmem with ((hmem | rfl) | hmem) | rfl
    · exact .inr (.inl (hi c hmem))
    · simp
    · rcases mem_padRight (isWord_of_isIdentifier hp.name) c hmem with h | h
      · exact .inl h
      · exact .inr (.inl h)
    · simp
  · simp only [List.mem_append, List.mem_singleton] at hmem
    rcases hmem with (hmem | hmem) | rfl
    · cases last with
      | true => cases hmem
      | false => exact .inr (List.mem_singleton.1 hmem)
    · exact .inl (List.eq_of_mem_replicate hmem)
    · exact .inl rfl

theorem connectedPort?_portLine (hc : s.comments = true) (hi : ∀ c ∈ s.indent, c = ' ') {p : Port}
    (hp : p.WellFormed) (width : Nat) (last : Bool) :
    connectedPort? (portLine s width last p) = some p := by
  obtain ⟨lead, n, gap, hline, hlead, hgap⟩ := portLine_eq hc hi hp width last
  obtain ⟨r, hcomment, hr⟩ := portComment?_comment hp
  have hopen : '(' ∉ lead := fun hmem => by
    rcases hlead _ hmem with h | h | h <;> cases h
  have hslash : '/' ∉ gap := fun hmem => by
    rcases hgap _ hmem with h | h <;> cases h
  have hconn := connection?_name (ne_nil_of_isIdentifier hp.name) (isWord_of_isIdentifier hp.name) n
    (gap ++ '/' :: '/' :: ' ' :: p.comment)
  rw [hline, connectedPort?_append hopen, connectedPort?, hconn]
  simp only [Option.bind_eq_bind, Option.bind_some, portComment?_append hslash, hcomment, hr]
  rfl

theorem not_isLineBreak_of_isWord {c : Char} (h : isWord c = true) : isLineBreak c = false := by
  by_contra hb
  rw [Bool.not_eq_false] at hb
  have := isBlank_of_isLineBreak hb
  rw [not_isBlank_of_isWord h] at this
  cases this

theorem not_isLineBreak_comment {p : Port} (hp : p.WellFormed) :
    ∀ c ∈ p.comment, isLineBreak c = false := by
  have hdir : ∀ c ∈ p.direction.text, isLineBreak c = false := by
    have hword := isWord_of_isIdentifier (isIdentifier_direction p.direction)
    exact fun c hc => not_isLineBreak_of_isWord (hword c hc)
  intro c hc
  rw [Port.comment] at hc
  split_ifs at hc
  · exact hdir c hc
  · simp only [List.mem_append] at hc
    rcases hc with (hc | hc) | hc
    · exact hdir c hc
    · rw [List.mem_singleton.1 hc]
      rfl
    · exact not_isLineBreak_of_neat hp.type c hc

theorem not_isLineBreak_portLine (hc : s.comments = true) (hi : ∀ c ∈ s.indent, c = ' ') {p : Port}
    (hp : p.WellFormed) (width : Nat) (last : Bool) :
    ∀ c ∈ portLine s width last p, isLineBreak c = false := by
  obtain ⟨lead, n, gap, hline, hlead, hgap⟩ := portLine_eq hc hi hp width last
  intro c hmem
  simp only [hline, List.mem_append, List.mem_cons, List.mem_replicate] at hmem
  have hpart : isWord c = true ∨ c ∈ [' ', '.', '(', ')', ',', '/'] ∨ c ∈ p.comment := by
    simp only [List.mem_cons, List.not_mem_nil, or_false]
    rcases hmem with h | h | h | (h | h) | h | h | h | h | h | h | h
    · rcases hlead c h with h | h | h <;> simp [h]
    · simp [h]
    · simp [h]
    · exact .inl (isWord_of_isIdentifier hp.name c h)
    · simp [h.2]
    · simp [h]
    · simp [h]
    · rcases hgap c h with h | h <;> simp [h]
    · simp [h]
    · simp [h]
    · simp [h]
    · simp [h]
  rcases hpart with h | h | h
  · exact not_isLineBreak_of_isWord h
  · have hmarks : ([' ', '.', '(', ')', ',', '/'].all fun c => !isLineBreak c) = true := by decide
    simpa using List.all_eq_true.1 hmarks c h
  · exact not_isLineBreak_comment hp c h

/-! ## The lines of an instantiation -/

theorem filterMap_portLines (hc : s.comments = true) (hi : ∀ c ∈ s.indent, c = ' ') (width : Nat) :
    ∀ {ps : List Port}, (∀ p ∈ ps, p.WellFormed) →
      (s.portLines width ps).filterMap connectedPort? = ps
        ∧ ∀ l ∈ s.portLines width ps, ∀ c ∈ l, isLineBreak c = false
  | [], _ => ⟨rfl, by simp [Template.portLines]⟩
  | p :: ps, h => by
    have hp := h p List.mem_cons_self
    have ih := filterMap_portLines hc hi width fun q hq => h q (List.mem_cons_of_mem _ hq)
    have he : s.portLines width (p :: ps) = portLine s width ps.isEmpty p :: s.portLines width ps :=
      rfl
    rw [he, List.filterMap_cons, connectedPort?_portLine hc hi hp, ih.1]
    refine ⟨rfl, fun l hl => ?_⟩
    rcases List.mem_cons.1 hl with rfl | hl
    · exact not_isLineBreak_portLine hc hi hp width _
    · exact ih.2 l hl

theorem lines_joinWith (t : Text) {ls : List Text} (hne : ls ≠ [])
    (h : ∀ l ∈ ls, ∀ c ∈ l, isLineBreak c = false) :
    lines (joinWith ['\n'] ls ++ '\n' :: t) = ls ++ lines t := by
  rw [List.append_cons, joinWith_feed hne, lines_joined h]

theorem apart_joinWith {ls : List Text} (h : ∀ l ∈ ls, Apart '/' '/' l) :
    Apart '/' '/' (joinWith ['\n'] ls) := by
  by_cases hne : ls = []
  · rw [hne]
    exact apart_nil
  · exact joinWith_closed (apart_append_cons (by decide) (by decide)) hne h

theorem slash_not_mem_of_isWord {t : Text} (h : ∀ c ∈ t, isWord c = true) : '/' ∉ t := by
  intro hmem
  cases h _ hmem

theorem apart_parameterLines (hi : ∀ c ∈ s.indent, c = ' ') (width : Nat) :
    ∀ {ps : List Parameter}, (∀ p ∈ ps, isIdentifier p.name = true ∧ Apart '/' '/' p.value) →
      ∀ l ∈ s.parameterLines width ps, Apart '/' '/' l
  | [], _ => by simp [Template.parameterLines]
  | p :: ps, h => by
    intro l hl
    rcases List.mem_cons.1 hl with rfl | hl
    · obtain ⟨hname, hvalue⟩ := h p List.mem_cons_self
      have hlead : '/' ∉ s.indent ++ ['.'] ++ padRight width p.name ++ [' ', '('] := by
        simp only [List.mem_append, not_or]
        refine ⟨⟨⟨fun hmem => ?_, by decide⟩, fun hmem => ?_⟩, by decide⟩
        · cases hi _ hmem
        · rcases mem_padRight (isWord_of_isIdentifier hname) _ hmem with h | h <;> cases h
      have hend : '/' ∉ ')' :: Template.comma ps.isEmpty := by
        cases ps.isEmpty <;> decide
      have heq : s.indent ++ "." ++ padRight width p.name ++ " ( " ++ p.value ++ " )"
          ++ Template.comma ps.isEmpty =
          (s.indent ++ ['.'] ++ padRight width p.name ++ [' ', '(']) ++
            ' ' :: (p.value ++ ' ' :: ')' :: Template.comma ps.isEmpty) := by
        simp only [List.append_assoc]
        rfl
      have hrest : Apart '/' '/' (p.value ++ ' ' :: ')' :: Template.comma ps.isEmpty) :=
        apart_append_cons (by decide) (by decide) hvalue (apart_of_not_mem hend)
      rw [heq]
      exact apart_append_cons (by decide) (by decide) (apart_of_not_mem hlead) hrest
    · exact apart_parameterLines hi width (fun q hq => h q (List.mem_cons_of_mem _ hq)) l hl

/-- What stands before the ports has no comment. -/
theorem apart_head (hi : ∀ c ∈ s.indent, c = ' ') (hl : '/' ∉ s.instanceLead) {m : Module}
    (hm : m.WellFormed) (hv : ∀ p ∈ m.parameters, Apart '/' '/' p.value) :
    Apart '/' '/' (m.name ++ s.parameterBlock m.parameters ++ " " ++ s.instanceLead ++ m.name) := by
  have hname : '/' ∉ m.name := slash_not_mem_of_isWord (isWord_of_isIdentifier hm.name)
  have hblock : Apart '/' '/' (m.name ++ s.parameterBlock m.parameters) := by
    rw [Template.parameterBlock]
    split_ifs
    · rw [List.append_nil]
      exact apart_of_not_mem hname
    · have hlines := apart_joinWith (apart_parameterLines hi
        (maxLength (m.parameters.map (·.name))) fun p hp => ⟨hm.parameters p hp, hv p hp⟩)
      have hinner : Apart '/' '/' (joinWith ['\n'] (s.parameterLines
          (maxLength (m.parameters.map (·.name))) m.parameters) ++ '\n' :: [')']) :=
        apart_append_cons (by decide) (by decide) hlines (apart_of_not_mem (by decide))
      have hopen : Apart '/' '/' (m.name ++ ' ' :: ['#', '(']) :=
        apart_append_cons (by decide) (by decide) (apart_of_not_mem hname)
          (apart_of_not_mem (by decide))
      have := apart_append_cons (c := '\n') (by decide) (by decide) hopen hinner
      rw [List.append_assoc] at this
      rw [List.append_assoc]
      exact this
  have hlast : Apart '/' '/' (s.instanceLead ++ m.name) :=
    apart_of_not_mem fun hmem => (List.mem_append.1 hmem).elim hl hname
  have := apart_append_cons (c := ' ') (by decide) (by decide) hblock hlast
  simp only [List.append_assoc] at this ⊢
  exact this

/-! ## The signals of an instantiation -/

theorem foldl_addSignal : ∀ (ps seen : List Port), (∀ p ∈ ps, isIdentifier p.name = true) →
    ps.foldl addSignal seen =
      seen ++ (firstOfName ps).filter fun p => !seen.any fun q => q.name == p.name
  | [], seen, _ => by simp [firstOfName]
  | p :: ps, seen, h => by
    have ih := fun seen => foldl_addSignal ps seen fun q hq => h q (List.mem_cons_of_mem _ hq)
    rw [List.foldl_cons, ih, addSignal, h p List.mem_cons_self, Bool.true_and, firstOfName]
    by_cases hp : seen.any (fun q => q.name == p.name) = true
    · -- the name has been seen, so those that share it go anyway
      have hcongr : ∀ q ∈ firstOfName ps, (!seen.any fun r => r.name == q.name) =
          ((!seen.any fun r => r.name == q.name) && q.name != p.name) := by
        intro q _
        by_cases hq : q.name = p.name
        · simp [hq, hp]
        · simp [hq]
      rw [if_neg (by simp [hp]), List.filter_cons_of_neg (by simp [hp]), List.filter_filter,
        List.filter_congr hcongr]
    · have hcongr : ∀ q ∈ firstOfName ps, (!(seen ++ [p]).any fun r => r.name == q.name) =
          ((!seen.any fun r => r.name == q.name) && q.name != p.name) := by
        intro q _
        simp [bne, Bool.beq_comm]
      rw [if_pos (by simpa using hp), List.filter_cons_of_pos (by simpa using hp),
        List.filter_filter, List.filter_congr hcongr, List.append_assoc, List.singleton_append]

theorem foldl_addSignal_nil {ps : List Port} (h : ∀ p ∈ ps, isIdentifier p.name = true) :
    ps.foldl addSignal [] = firstOfName ps := by
  rw [foldl_addSignal ps [] h]
  simp

/-- The lines of an instantiation tell its ports and nothing else. -/
theorem filterMap_lines_render (hc : s.comments = true) (hi : ∀ c ∈ s.indent, c = ' ')
    (hl : '/' ∉ s.instanceLead) {m : Module} (hm : m.WellFormed)
    (hv : ∀ p ∈ m.parameters, Apart '/' '/' p.value) :
    (lines (s.render m)).filterMap connectedPort? = m.ports := by
  have hhead := apart_head hi hl hm hv
  have hnone : ∀ t : Text, Apart '/' '/' t → (lines t).filterMap connectedPort? = [] := fun t ht =>
    List.filterMap_eq_nil_iff.2 fun l hmem =>
      connectedPort?_of_noComment (apart_stretch ht (infix_of_mem_lines hmem))
  rw [Template.render]
  generalize m.name ++ s.parameterBlock m.parameters ++ " " ++ s.instanceLead ++ m.name = head
    at hhead ⊢
  rw [Template.portBlock]
  split_ifs with he
  · rw [List.isEmpty_iff.1 he]
    exact hnone _ (apart_append_cons (by decide) (by decide) hhead (apart_of_not_mem (by decide)))
  · obtain ⟨hread, hbreak⟩ := filterMap_portLines hc hi (maxLength (m.ports.map (·.name))) hm.ports
    have hopen : Apart '/' '/' (head ++ [' '] ++ ['(']) := by
      have := apart_append_cons (c := ' ') (by decide) (by decide) hhead
        (apart_of_not_mem (t := ['(']) (by decide))
      rwa [List.append_assoc]
    have hne : s.portLines (maxLength (m.ports.map (·.name))) m.ports ≠ [] := by
      obtain ⟨p, ps, hps⟩ := List.exists_cons_of_ne_nil fun h => he (List.isEmpty_iff.2 h)
      simp [hps, Template.portLines]
    have hsplit : lines (head ++ (" (\n" ++ joinWith "\n" (s.portLines
          (maxLength (m.ports.map (·.name))) m.ports) ++ "\n);")) =
        lines (head ++ [' '] ++ ['(']) ++
          (s.portLines (maxLength (m.ports.map (·.name))) m.ports ++ lines [')', ';']) := by
      rw [← lines_joinWith [')', ';'] hne hbreak, ← lines_append _ (by decide)]
      simp only [List.append_assoc]
      rfl
    rw [hsplit, List.filterMap_append, List.filterMap_append, hnone _ hopen, hread,
      hnone _ (apart_of_not_mem (by decide)), List.append_nil, List.nil_append]

theorem length_le_maxLength {t : Text} {ts : List Text} (h : t ∈ ts) : t.length ≤ maxLength ts := by
  have hfold : ∀ (ns : List Nat) (k : Nat), k ≤ ns.foldl max k ∧ ∀ n ∈ ns, n ≤ ns.foldl max k := by
    intro ns
    induction ns with
    | nil => simp
    | cons a ns ih =>
      intro k
      have := ih (max k a)
      refine ⟨by rw [List.foldl_cons]; omega, fun n hn => ?_⟩
      rcases List.mem_cons.1 hn with rfl | hn
      · rw [List.foldl_cons]
        omega
      · exact this.2 n hn
  exact (hfold _ 0).2 _ (List.mem_map_of_mem h)

/-- The line declares the signal with its range. -/
def Declares (d : Declarator) (p : Port) (line : Text) : Prop :=
  ∃ n, line = d.storage ++ " " ++ p.bitRange ++ List.replicate n ' ' ++ p.name ++ ";"

/-- There is a declaration for each signal that is not ignored, and no other. -/
theorem forall₂_declare (d : Declarator) (signals : List Port) :
    List.Forall₂ (Declares d) (signals.filter fun p => !d.ignored.contains p.name)
      (d.declare signals) := by
  rw [Declarator.declare]
  simp only [List.forall₂_map_right_iff, List.forall₂_same]
  intro p hp
  have hlen := length_le_maxLength (List.mem_map_of_mem (f := fun q : Port => q.bitRange) hp)
  generalize maxLength _ = width at hlen ⊢
  rw [Declarator.line]
  split_ifs with hw
  · have hrange : p.bitRange = [] := List.length_eq_zero_iff.1 (by omega)
    exact ⟨0, by simp [hrange]⟩
  · refine ⟨width - p.bitRange.length + 1, ?_⟩
    rw [padRight, List.replicate_succ']
    simp only [List.append_assoc]
    rfl

/-- For a module read from any text, no parameter of which has two slashes in its value, and an
instantiation of it with comments, from any column on and behind any number of spaces: the signals
read from the instantiation are the module's ports, a later one of a name left out, and the
declarations are one line for each of them that is not ignored. -/
theorem readSignals_render {t path : Text} {m : Module} (hm : readModule t path = some m)
    (hv : ∀ p ∈ m.parameters, ¬ ['/', '/'] <:+: p.value) (column : Int) (n : Nat) :
    let template : Template :=
      { comments := true, commentColumn := column, indent := List.replicate n ' ' }
    readSignals (template.render m) = firstOfName m.ports
      ∧ ∀ d : Declarator,
        List.Forall₂ (Declares d)
          ((firstOfName m.ports).filter fun p => !d.ignored.contains p.name)
          (d.declare (readSignals (template.render m))) := by
  intro template
  have hwf := wellFormed_readModule hm
  have hread : readSignals (template.render m) = firstOfName m.ports := by
    have hlead : '/' ∉ template.instanceLead := show '/' ∉ ['u', '_'] by decide
    rw [readSignals, filterMap_lines_render rfl (fun c => List.eq_of_mem_replicate) hlead hwf hv]
    exact foldl_addSignal_nil fun p hp => (hwf.ports p hp).name
  refine ⟨hread, fun d => ?_⟩
  rw [hread]
  exact forall₂_declare d _

/-- A range with two slashes in it, a multi-line default and a port given twice are read back. -/
theorem readSignals_render_slashes :
    let t : Text :=
      "module m #(parameter A = \x7b1,\n2\x7d, B = 3) (input wire[A://B] x, y, output x);"
    ∃ m, readModule t [] = some m ∧ m.parameters.length = 2 ∧ m.ports.length = 3
      ∧ (∀ p ∈ m.parameters, ¬ ['/', '/'] <:+: p.value)
      ∧ readSignals (Template.render
          { comments := true, commentColumn := 7, indent := List.replicate 2 ' ' } m) =
        [⟨"x", .input, "wire [A://B]"⟩, ⟨"y", .input, "wire [A://B]"⟩] := by
  intro t
  have hread : (readModule t []).any (fun m => m.parameters.length = 2 ∧ m.ports.length = 3
      ∧ (∀ p ∈ m.parameters, ¬ ['/', '/'] <:+: p.value)
      ∧ firstOfName m.ports = [⟨"x", .input, "wire [A://B]"⟩, ⟨"y", .input, "wire [A://B]"⟩]) =
        true := by
    decide +kernel
  obtain ⟨m, hm, hcheck⟩ := (Option.any_eq_true _ _).1 hread
  obtain ⟨h1, h2, h3, h4⟩ := of_decide_eq_true hcheck
  exact ⟨m, hm, h1, h2, h3, (readSignals_render hm h3 7 2).1.trans h4⟩

end Generate

end VerilogIndex
