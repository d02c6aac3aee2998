import VerilogIndex.Proofs.HeaderGrammar
import VerilogIndex.Proofs.Locations

/-!
# Default values

A default value is a stretch of the blanked text after an equals sign, without the blanks at its
ends. Therefore it opens no comment where it is written between blanks again, even if it has two
slashes after a colon (`uncommented_of_mem_parameters`).
-/

namespace VerilogIndex

open Text

namespace Source

/-! ## Texts that keep between blanks -/

/-- Between a blank and a space or a line feed, nothing of the text is blanked. -/
def Uncommented (v : Text) : Prop := ∀ d, d = ' ' ∨ d = '\n' → ∀ r,
  blankComments (v ++ d :: r) = v ++ d :: blankComments r

theorem Uncommented.append {a b : Text} {d : Char} (ha : Uncommented a) (hd : d = ' ' ∨ d = '\n')
    (hb : Uncommented b) : Uncommented (a ++ d :: b) := by
  intro e he r
  rw [List.append_assoc, List.cons_append, ha d hd, hb e he, List.append_assoc, List.cons_append]

theorem commentFree_of_not_mem {a : Text} (h : '/' ∉ a) : CommentFree a :=
  ⟨apart_of_not_mem h, apart_of_not_mem h⟩

theorem Uncommented.of_not_mem {a : Text} (h : '/' ∉ a) : Uncommented a := by
  intro d hd r
  refine blankComments_append (commentFree_of_not_mem h) ?_ r
  rcases hd with rfl | rfl <;> decide

/-! ## Stretches of a blanked text -/

theorem step_of_blankFrom_eq {guarded : Bool} {c : Char} {t : Text}
    (h : blankFrom (.code guarded) (c :: t) = c :: t) :
    Place.step (.code guarded) c t.head? = (c, .code (guards c))
      ∧ blankFrom (.code (guards c)) t = t := by
  rw [blankFrom] at h
  obtain ⟨hc, ht⟩ := List.cons.inj h
  rcases step_code_cases guarded c t.head? with ⟨hs, -⟩ | ⟨block, hs⟩
  · rw [hs] at ht
    exact ⟨hs, ht⟩
  · -- only a slash is blanked, and a blank is none
    rw [hs] at hc
    obtain rfl : ' ' = c := hc
    rw [step_of_blank (.inl rfl)] at hs
    cases hs

theorem blankFrom_suffix_eq {c : Char} {b : Text} : ∀ {a : Text} {guarded : Bool},
    blankFrom (.code guarded) (a ++ c :: b) = a ++ c :: b → blankFrom (.code (guards c)) b = b
  | [], _, h => (step_of_blankFrom_eq h).2
  | _ :: _, _, h => blankFrom_suffix_eq (step_of_blankFrom_eq h).2

theorem blankFrom_prefix_eq {b : Text} {d : Char} (hd : d = ' ' ∨ d = '\n') (r : Text) :
    ∀ {v : Text} {guarded : Bool}, blankFrom (.code guarded) (v ++ b) = v ++ b →
      blankFrom (.code guarded) (v ++ d :: r) = v ++ d :: blankComments r
  | [], guarded, _ => by
    simp only [List.nil_append, blankFrom, step_of_blank hd, blankComments]
  | c :: v, guarded, h => by
    obtain ⟨hs, hv⟩ := step_of_blankFrom_eq h
    have hstep : Place.step (.code guarded) c (v ++ d :: r).head? = (c, .code (guards c)) := by
      rcases v with _ | ⟨e, v⟩
      · rcases hd with rfl | rfl <;> simp [Place.step, guards]
      · exact hs
    simp only [List.cons_append, blankFrom, hstep, blankFrom_prefix_eq hd r hv]

/-- A stretch of a blanked text is blanked no more if the character before it guards nothing. -/
theorem uncommented_of_infix {t v : Text} {c : Char} (hc : guards c = false)
    (h : c :: v <:+: blankComments t) : Uncommented v := by
  obtain ⟨a, b, h⟩ := h
  have hfixed : blankComments (a ++ c :: (v ++ b)) = a ++ c :: (v ++ b) := by
    have := blankComments_blankComments t
    rwa [← h, List.append_assoc, List.cons_append] at this
  have hv := blankFrom_suffix_eq hfixed
  rw [hc] at hv
  exact fun d hd r => blankFrom_prefix_eq hd r hv

/-! ## Where a default value stands -/

theorem infix_of_mem_splitFrom (separator : Option Char) : ∀ {t begun item : Text} {depth : Nat},
    item ∈ splitFrom separator depth begun t → item <:+: begun.reverse ++ t
  | [], begun, item, depth, h => by
    rw [splitFrom] at h
    split_ifs at h
    · simp at h
    · rw [List.mem_singleton.1 h, List.append_nil]
  | c :: t, begun, item, depth, h => by
    simp only [splitFrom] at h
    split_ifs at h
    · rcases List.mem_cons.1 h with rfl | h
      · exact ⟨[], c :: t, rfl⟩
      · exact (infix_of_mem_splitFrom separator h).trans ⟨begun.reverse ++ [c], [], by simp⟩
    · have := infix_of_mem_splitFrom separator h
      rwa [List.reverse_cons, List.append_assoc, List.singleton_append] at this

theorem suffix_of_cut {c : Char} {t left value : Text} (h : cut c t = (left, some value)) :
    c :: value <:+ t := by
  rw [cut] at h
  split at h
  · simp at h
  · rename_i d r hd
    obtain rfl : r = value := by simpa using congrArg Prod.snd h
    have hc : d = c := by
      have := List.head_dropWhile_not (· != c) (l := t) (by simp [hd])
      simpa [hd] using this
    rw [← hc, ← hd]
    exact List.dropWhile_suffix _

theorem infix_trim (t : Text) : trim t <:+: t :=
  (prefix_trimRight _).isInfix.trans (List.dropWhile_suffix _).isInfix

theorem guards_of_isBlank {c : Char} (h : isBlank c = true) : guards c = false := by
  by_contra hg
  rw [Bool.not_eq_false, guards, Bool.or_eq_true, beq_iff_eq, beq_iff_eq] at hg
  rcases hg with rfl | rfl <;> cases h

/-- Before a trimmed text stands a blank or what stood there before. -/
theorem exists_before_trim : ∀ (t : Text) {c : Char}, guards c = false →
    ∃ d, guards d = false ∧ d :: trim t <:+: c :: t
  | [], c, hc => ⟨c, hc, List.infix_rfl⟩
  | b :: t, c, hc => by
    rcases hb : isBlank b with _ | _
    · refine ⟨c, hc, ?_⟩
      rw [trim, trimLeft_cons hb]
      exact (List.cons_prefix_cons.2 ⟨rfl, prefix_trimRight _⟩).isInfix
    · obtain ⟨d, hd, h⟩ := exists_before_trim t (guards_of_isBlank hb)
      have htrim : trim (b :: t) = trim t := by
        rw [trim, trim, trimLeft, trimLeft, List.dropWhile_cons_of_pos hb]
      rw [htrim]
      exact ⟨d, hd, h.trans (List.suffix_cons c _).isInfix⟩

theorem suffix_of_afterKeyword? {k t r : Text} (h : afterKeyword? k t = some r) : r <:+ t := by
  rw [afterKeyword?, Option.filter_eq_some_iff] at h
  exact ⟨k, (after?_eq_some_iff.1 h.1).symm⟩

theorem suffix_of_parameterKeyword? {t r : Text} {declares : Bool}
    (h : parameterKeyword? t = some (declares, r)) : r <:+ t := by
  rw [parameterKeyword?] at h
  split at h
  · rename_i r' hr
    obtain ⟨-, rfl⟩ := Prod.mk.inj (Option.some.inj h)
    exact suffix_of_afterKeyword? hr
  · obtain ⟨r', hr, he⟩ := Option.map_eq_some_iff.1 h
    obtain ⟨-, rfl⟩ := Prod.mk.inj he
    exact suffix_of_afterKeyword? hr

theorem exists_before_parameterOf? {item : Text} {p : Parameter} (h : parameterOf? item = some p) :
    ∃ d, guards d = false ∧ d :: p.value <:+: item := by
  simp only [parameterOf?, Option.bind_eq_bind, Option.bind_eq_some_iff] at h
  obtain ⟨value, hvalue, name, -, hp⟩ := h
  have hcut : '=' :: value <:+ item := suffix_of_cut (Prod.ext rfl hvalue)
  obtain ⟨d, hd, htrim⟩ := exists_before_trim value (c := '=') (by decide)
  rw [← Option.some.inj hp]
  exact ⟨d, hd, htrim.trans hcut.isInfix⟩

theorem exists_before_parametersFrom :
    ∀ {items : List Text} {declares : Bool} {p : Parameter}, p ∈ parametersFrom declares items →
      ∃ item ∈ items, ∃ d, guards d = false ∧ d :: p.value <:+: item
  | [], _, _, h => by simp [parametersFrom] at h
  | item :: items, declares, p, h => by
    rw [parametersFrom] at h
    rcases List.mem_append.1 h with h | h
    · refine ⟨item, List.mem_cons_self, ?_⟩
      split_ifs at h
      · obtain ⟨d, hd, hin⟩ := exists_before_parameterOf? (Option.mem_toList.1 h)
        refine ⟨d, hd, hin.trans ?_⟩
        split
        · rename_i declares' r hr
          calc trim r <:+: r := infix_trim r
            _ <:+: trim item := (suffix_of_parameterKeyword? hr).isInfix
            _ <:+: item := infix_trim item
        · exact infix_trim item
      · simp at h
    · obtain ⟨item', hmem, hin⟩ := exists_before_parametersFrom h
      exact ⟨item', List.mem_cons_of_mem _ hmem, hin⟩

/-! ## Parameter blocks -/

theorem infix_of_header? {t block : Text} {header : Header} (h : header? t = some header)
    (hb : header.parameters = some block) : block <:+: t := by
  obtain ⟨p, hp, rfl⟩ := header?_eq_some_iff.1 h
  have hparameters : p.parameters.map (·.content) = some block := by
    rw [← hb, hp]
    rfl
  obtain ⟨q, hq, rfl⟩ := Option.map_eq_some_iff.1 hparameters
  refine ⟨p.lead ++ '#' :: (q.gap ++ ['(']),
    ')' :: (q.after ++ (enclosed p.ports ++ (p.gap ++ ';' :: header.rest))), ?_⟩
  simp [HeaderParts.text, hq, ParameterParts.text, enclosed]

theorem suffix_of_headingAt? {start : Nat} {t : Text} {h : Heading}
    (hh : headingAt? start t = some h) : h.rest <:+ t := by
  simp only [headingAt?, Option.bind_eq_bind, Option.bind_eq_some_iff] at hh
  obtain ⟨r, hr, hh⟩ := hh
  split_ifs at hh
  obtain ⟨⟨name, rest⟩, hi, hh⟩ := Option.bind_eq_some_iff.1 hh
  rw [← Option.some.inj hh]
  calc rest <:+ r.dropWhile isBlank := ⟨name, (nameAt_identifier? hi).2.symm⟩
    _ <:+ r := List.dropWhile_suffix _
    _ <:+ t := ⟨"module", (after?_eq_some_iff.1 hr).symm⟩

theorem suffix_of_findHeadingFrom? : ∀ {t : Text} {start : Nat} {glued : Bool} {h : Heading},
    findHeadingFrom? start glued t = some h → h.rest <:+ t
  | [], _, _, _, hh => by simp [findHeadingFrom?] at hh
  | c :: t, start, glued, h, hh => by
    rw [findHeadingFrom?] at hh
    split at hh
    · rename_i h' hat
      split_ifs at hat
      rw [← Option.some.inj hh]
      exact suffix_of_headingAt? hat
    · exact (suffix_of_findHeadingFrom? hh).trans (List.suffix_cons c t)

/-- A default value that was read opens no comment between blanks. -/
theorem uncommented_of_mem_parameters {t path : Text} {m : Module}
    (h : readModule t path = some m) : ∀ p ∈ m.parameters, Uncommented p.value := by
  simp only [readModule, Option.bind_eq_bind, Option.bind_eq_some_iff] at h
  obtain ⟨heading, hh, hm⟩ := h
  rw [← Option.some.inj hm]
  intro p hp
  rcases hb : (header? heading.rest).bind (·.parameters) with _ | block
  · simp [hb] at hp
  obtain ⟨header, hheader, hblock⟩ := Option.bind_eq_some_iff.1 hb
  rw [hb] at hp
  obtain ⟨item, hitem, d, hd, hvalue⟩ := exists_before_parametersFrom hp
  have hcode : item <:+: blankComments t := calc
    item <:+: block := infix_of_mem_splitFrom _ hitem
    _ <:+: heading.rest := infix_of_header? hheader hblock
    _ <:+: blankComments t := (suffix_of_findHeadingFrom? hh).isInfix
  exact uncommented_of_infix hd (hvalue.trans hcode)

end Source

end VerilogIndex
