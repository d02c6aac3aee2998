import VerilogIndex.Proofs.ParameterLists
import VerilogIndex.Proofs.PortLists

/-!
# Reading written declarations

The items of a written header are items in parts, so an item of a parameter block gives its
parameter (`parametersFrom_assignment`), and an item of a port block its port, whatever the items
before it pass on (`portOf_written`). As no blanks stand in its ranges, a type is shown as it was
written, one space apart (`shownType_map_part`).
-/

namespace VerilogIndex.Source

open Text

/-! ## Parameters -/

/-- A written parameter is an item with the keyword, or one that goes on under it. -/
theorem WrittenParameter.item {first : Bool} {s : Assignment} {t : Text}
    (h : WrittenParameter first s t) : ∃ keyword v, WrittenParameterItem ⟨keyword, s.name, some v⟩ t
      ∧ trim v = s.value ∧ (keyword = some .parameter ∨ keyword = none ∧ first = false) := by
  have hvalue : ∀ {g g' : Text}, Gap g → Gap g' → Nested false (g ++ (s.value ++ g'))
      ∧ trim (g ++ (s.value ++ g')) = s.value := fun hg hg' =>
    ⟨(Bare.of_gap hg).nested.append (s.nested.append (Bare.of_gap hg').nested),
      (trim_of_gaps hg hg' s.value).trans s.trimmed⟩
  cases h with
  | @keyword _ _ g g' _ hg hg' hne ht =>
    obtain @⟨g₁, g₂, g₃, h₁, h₂, h₃⟩ := ht
    obtain ⟨hnested, htrim⟩ := hvalue h₂ h₃
    have hitem : WrittenItem [.word (ParameterKeyword.word .parameter)] s.name _ _ :=
      .mk (.cons hg (by simp) (.nil hg' fun _ => hne)) (.valued (.nil h₁) _)
        (by simpa using hnested)
    rw [List.append_assoc, List.append_assoc] at hitem
    exact ⟨some .parameter, _, .keyword hitem, htrim, .inl rfl⟩
  | @bare _ g _ hg hp hl ht =>
    obtain @⟨g₁, g₂, g₃, h₁, h₂, h₃⟩ := ht
    obtain ⟨hnested, htrim⟩ := hvalue h₂ h₃
    have hitem : WrittenItem [] s.name _ _ :=
      .mk (.nil hg (by simp)) (.valued (.nil h₁) _) (by simpa using hnested)
    have hopening : ∀ k : ParameterKeyword, opening? [] s.name ≠ some k.text := by
      intro k he
      cases k with
      | parameter => exact hp (Option.some.inj he)
      | localparam => exact hl (Option.some.inj he)
    exact ⟨none, _, .bare hopening hitem, htrim, .inr ⟨rfl, rfl⟩⟩

/-- An item gives its parameter, and the one after it may go without the keyword. -/
theorem parametersFrom_assignment {first : Bool} {s : Assignment} {t : Text}
    (h : WrittenParameter first s t) (before : Option ParameterKeyword)
    (hb : first = false → before = some .parameter) (items : List Text) :
    parametersFrom (decide (before = some .parameter)) (t :: items) =
      s.parameter :: parametersFrom true items := by
  obtain ⟨keyword, v, hitem, hv, hk⟩ := h.item
  have hforce : ParameterItem.inForce ⟨keyword, s.name, some v⟩ before = some .parameter := by
    rcases hk with rfl | ⟨rfl, hfirst⟩
    · rfl
    · exact hb hfirst
  rw [parametersFrom_cons hitem, hforce]
  simp [ParameterItem.parameter?, hv, Assignment.parameter]

theorem parametersFrom_written {ss : List Assignment} {ts : List Text}
    (h : List.Forall₂ (WrittenParameter false) ss ts) :
    parametersFrom true ts = ss.map Assignment.parameter := by
  induction h with
  | nil => rfl
  | cons ht _ ih =>
    rw [List.map_cons, ← ih]
    exact parametersFrom_assignment ht (some .parameter) (fun _ => rfl) _

theorem WrittenParameter.ne_nil {first : Bool} {s : Assignment} {t : Text}
    (h : WrittenParameter first s t) : t ≠ [] := by
  obtain ⟨_, _, hitem, -⟩ := h.item
  exact hitem.nested.2

theorem parameters_written {ss : List Assignment} {b : Text} (h : WrittenParameters ss b) :
    parameters b = ss.map Assignment.parameter := by
  obtain ⟨ht, hts⟩ := h
  have hrest := forall_of_forall₂ (P := fun t => Nested false t ∧ t ≠ [])
    (fun _ _ h => ⟨h.contained.nested, h.ne_nil⟩) hts
  rw [parameters, splitTopLevel_joinWith
    (List.forall_mem_cons.2 ⟨⟨ht.contained.nested, ht.ne_nil⟩, hrest⟩), List.map_cons,
    ← parametersFrom_written hts]
  exact parametersFrom_assignment ht none (by simp) _

/-! ## Ports -/

def RangeText.bracketed (r : RangeText) : Bracketed where
  inside := r.text
  nested := r.nested
  plain := fun _ hc hmem => (r.plain _ hmem).2 hc

def TypePart.part : TypePart → Part
  | .word w => .word w
  | .range r => .group r.bracketed

theorem WrittenType.parts {glued : Bool} {type : List TypePart} {t : Text}
    (h : WrittenType glued type t) :
    WrittenParts (if glued then .word else .group) (type.map TypePart.part) t := by
  induction h with
  | @nil glued _ hg hne =>
    refine .nil hg fun he => hne ?_
    cases glued
    · cases he
    · rfl
  | word hg hne _ ih => exact .cons hg (fun _ _ => hne) ih
  | @range glued g t r _ hg _ ih =>
    have hcons : WrittenParts (if glued then .word else .group) _
        (g ++ ((TypePart.part (.range r)).text ++ t)) := .cons hg (fun _ hp => by cases hp) ih
    simpa [TypePart.part, Part.text, RangeText.bracketed] using hcons

/-- Ranges without blanks are shown as they were written. -/
theorem shownType_map_part (type : List TypePart) :
    shownType (type.map TypePart.part) = joinWith [' '] (type.map TypePart.text) := by
  have hshown : ∀ p : TypePart, p.part.shown = p.text := fun p => by
    cases p with
    | word => rfl
    | range r =>
      simp only [TypePart.part, Part.shown, TypePart.text, RangeText.bracketed,
        collapse_of_not_isBlank fun c hc => (r.plain c hc).1]
  rw [shownType, List.map_map]
  exact congrArg _ (List.map_congr_left fun p _ => hshown p)

theorem startsWord_written {type : List TypePart} {t : Text} (h : WrittenType true type t)
    (u : Text) : startsWord (t ++ u) = false := h.parts.startsWord u

/-- A written port is an item that opens with its direction. -/
theorem WrittenPort.item {p : PortDeclaration} {t : Text} (h : WrittenPort p t) :
    WrittenItem (.word (directionWord p.direction) :: p.type.map TypePart.part) p.name none t := by
  obtain ⟨hg, ht, hg'⟩ := h
  have hitem : WrittenItem (.word (directionWord p.direction) :: p.type.map TypePart.part) p.name
      none _ := .mk (.cons hg (by simp) ht.parts) (.plain (.nil hg')) (by simp)
  rw [List.append_assoc, List.append_assoc] at hitem
  exact hitem

theorem portOf_written {p : PortDeclaration} {t : Text} (h : WrittenPort p t)
    (inherited : Option Inherited) :
    portOf inherited t = (some p.port, some ⟨p.direction, p.port.type⟩) := by
  rw [portOf_directed h.item, shownType_map_part]
  rfl

theorem portsFrom_written {ps : List PortDeclaration} {ts : List Text}
    (h : List.Forall₂ WrittenPort ps ts) (inherited : Option Inherited) :
    portsFrom inherited ts = ps.map PortDeclaration.port := by
  induction h generalizing inherited with
  | nil => rfl
  | cons ht _ ih => simp only [portsFrom, portOf_written ht, ih, Option.toList_some, List.map_cons,
      List.singleton_append]

theorem WrittenPort.ne_nil {p : PortDeclaration} {t : Text} (h : WrittenPort p t) : t ≠ [] :=
  h.item.ne_nil

/-- A block of blanks has at most one item, which is blank. -/
theorem gap_of_mem_splitTopLevel {g t : Text} (hg : Gap g) (ht : t ∈ splitTopLevel g) : Gap t := by
  have hnested : Nested false g := (Bare.of_gap hg).nested
  have hsplit := splitFrom_append hnested 0 (by simp) [] []
  rw [List.append_nil, List.append_nil] at hsplit
  rw [splitTopLevel, hsplit, splitFrom, List.reverse_reverse] at ht
  split_ifs at ht
  · simp at ht
  · rwa [List.mem_singleton.1 ht]

theorem portsFrom_blank : ∀ {items : List Text}, (∀ t ∈ items, Gap t) → portsFrom none items = []
  | [], _ => rfl
  | t :: items, h => by
    have ht := h t List.mem_cons_self
    have hcut := cut_of_not_mem ((Bare.of_gap ht).not_mem '=' (by decide))
    have ih := portsFrom_blank fun u hu => h u (List.mem_cons_of_mem _ hu)
    simp only [portsFrom, portOf, hcut, trim_gap ht, List.isEmpty_nil, if_true, ih]
    rfl

theorem ports_written {ps : List PortDeclaration} {b : Text} (h : WrittenPorts ps b) :
    ports b = ps.map PortDeclaration.port := by
  cases h with
  | nil hg => exact portsFrom_blank fun t ht => gap_of_mem_splitTopLevel hg ht
  | cons hts =>
    have hitems := forall_of_forall₂ (P := fun t => Nested false t ∧ t ≠ [])
      (fun _ _ h => ⟨h.contained.nested, h.ne_nil⟩) hts
    rw [ports, splitTopLevel_joinWith hitems, portsFrom_written hts]

end VerilogIndex.Source
