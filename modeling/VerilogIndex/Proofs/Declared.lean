import VerilogIndex.Proofs.Spacing
import VerilogIndex.Source.Read

/-!
# What a reading declares

Whatever the text, the module read from it has an identifier for its name, its parameters and ports
have identifiers for names, and the types of its ports are neat (`wellFormed_readModule`). Types are
passed on from port to port, so the proof for ports carries what the next item can take over.
-/

namespace VerilogIndex

open Text

structure Port.WellFormed (p : Port) : Prop where
  name : Source.isIdentifier p.name = true
  type : Neat p.type

structure Module.WellFormed (m : Module) : Prop where
  name : Source.isIdentifier m.name = true
  parameters : ∀ p ∈ m.parameters, Source.isIdentifier p.name = true
  ports : ∀ p ∈ m.ports, p.WellFormed

namespace Source

/-! ## Identifiers -/

theorem isIdentifier_takeWhile {c : Char} (h : isIdentifierStart c = true) (r : Text) :
    isIdentifier (c :: r.takeWhile isWord) = true := by
  simp [isIdentifier, h]

theorem isIdentifier_of_identifier? {t name rest : Text} (h : identifier? t = some (name, rest)) :
    isIdentifier name = true := by
  rcases t with _ | ⟨c, r⟩
  · simp [identifier?] at h
  · simp only [identifier?] at h
    split_ifs at h with hc
    obtain ⟨rfl, -⟩ := Prod.mk.inj (Option.some.inj h)
    exact isIdentifier_takeWhile hc r

/-- An identifier that has begun stays one with one more word character. -/
theorem isIdentifier_reverse_cons {begun : Text} {c : Char} (hb : isIdentifier begun.reverse = true)
    (hc : isWord c = true) : isIdentifier (c :: begun).reverse = true := by
  rw [List.reverse_cons]
  rcases hr : begun.reverse with _ | ⟨d, r⟩
  · rw [hr] at hb
    cases hb
  · rw [hr, isIdentifier, Bool.and_eq_true] at hb
    simp [isIdentifier, hb.1, hc]
    simpa using hb.2

theorem isIdentifier_of_mem_identifiersFrom : ∀ {t begun w : Text},
    (begun ≠ [] → isIdentifier begun.reverse = true) → w ∈ identifiersFrom begun t →
    isIdentifier w = true
  | [], begun, w, hb, hw => by
    rw [identifiersFrom] at hw
    split_ifs at hw with he
    · simp at hw
    · rw [List.mem_singleton.1 hw]
      exact hb (by simpa using he)
  | c :: t, begun, w, hb, hw => by
    rw [identifiersFrom] at hw
    split_ifs at hw with he hc hc
    · exact isIdentifier_of_mem_identifiersFrom (fun _ => by simp [isIdentifier, hc]) hw
    · exact isIdentifier_of_mem_identifiersFrom (by simp) hw
    · have hb' := hb (by simpa using he)
      exact isIdentifier_of_mem_identifiersFrom (fun _ => isIdentifier_reverse_cons hb' hc) hw
    · rcases List.mem_cons.1 hw with rfl | hw
      · exact hb (by simpa using he)
      · exact isIdentifier_of_mem_identifiersFrom (by simp) hw

/-! ## Keywords -/

theorem isIdentifier_direction (d : Direction) : isIdentifier d.text = true := by
  cases d <;> decide +kernel

theorem afterKeyword?_append (k : Text) {r : Text} (hr : startsWord r = false) :
    afterKeyword? k (k ++ r) = some r := by
  rw [afterKeyword?, after?_eq_some_iff.2 rfl]
  simp [hr]

theorem directionKeyword?_text (d : Direction) {r : Text} (hr : startsWord r = false) :
    directionKeyword? (d.text ++ r) = some (d, r) := by
  have hself := afterKeyword?_append d.text hr
  cases d with
  | input => simp only [directionKeyword?, Direction.all, List.findSome?, hself, Option.map_some]
  | output =>
    have h1 : afterKeyword? (Direction.text .input) (Direction.text .output ++ r) = none := rfl
    simp only [directionKeyword?, Direction.all, List.findSome?, h1, hself, Option.map_some,
      Option.map_none]
  | inout =>
    have h1 : afterKeyword? (Direction.text .input) (Direction.text .inout ++ r) = none := rfl
    have h2 : afterKeyword? (Direction.text .output) (Direction.text .inout ++ r) = none := rfl
    simp only [directionKeyword?, Direction.all, List.findSome?, h1, h2, hself, Option.map_some,
      Option.map_none]

theorem directionKeyword?_eq_none {t : Text} (h : ∀ d : Direction, afterKeyword? d.text t = none) :
    directionKeyword? t = none := by
  simp only [directionKeyword?, Direction.all, List.findSome?, h, Option.map_none]

/-! ## Headings and parameters -/

theorem isIdentifier_of_headingAt? {start : Nat} {t : Text} {h : Heading}
    (hh : headingAt? start t = some h) : isIdentifier h.name = true := by
  simp only [headingAt?, Option.bind_eq_bind, Option.bind_eq_some_iff] at hh
  obtain ⟨r, -, hh⟩ := hh
  split_ifs at hh
  obtain ⟨⟨name, rest⟩, hi, hh⟩ := Option.bind_eq_some_iff.1 hh
  rw [← Option.some.inj hh]
  exact isIdentifier_of_identifier? hi

theorem isIdentifier_of_findHeadingFrom? : ∀ {t : Text} {start : Nat} {glued : Bool} {h : Heading},
    findHeadingFrom? start glued t = some h → isIdentifier h.name = true
  | [], _, _, _, hh => by simp [findHeadingFrom?] at hh
  | c :: t, start, glued, h, hh => by
    rw [findHeadingFrom?] at hh
    split at hh
    · rename_i h' hat
      split_ifs at hat
      rw [← Option.some.inj hh]
      exact isIdentifier_of_headingAt? hat
    · exact isIdentifier_of_findHeadingFrom? hh

theorem isIdentifier_of_parameterOf? {item : Text} {p : Parameter}
    (h : parameterOf? item = some p) : isIdentifier p.name = true := by
  simp only [parameterOf?, Option.bind_eq_bind, Option.bind_eq_some_iff] at h
  obtain ⟨value, -, name, hn, hp⟩ := h
  rw [← Option.some.inj hp]
  exact isIdentifier_of_mem_identifiersFrom (by simp) (List.mem_of_getLast? hn)

theorem isIdentifier_of_mem_parametersFrom :
    ∀ {items : List Text} {declares : Bool} {p : Parameter},
      p ∈ parametersFrom declares items → isIdentifier p.name = true
  | [], _, _, h => by simp [parametersFrom] at h
  | item :: items, declares, p, h => by
    rw [parametersFrom] at h
    rcases List.mem_append.1 h with h | h
    · split_ifs at h
      · exact isIdentifier_of_parameterOf? (Option.mem_toList.1 h)
      · simp at h
    · exact isIdentifier_of_mem_parametersFrom h

/-! ## Ports -/

theorem isIdentifier_of_declaredNameFrom? : ∀ {t passed before name : Text},
    declaredNameFrom? passed t = some (before, name) → isIdentifier name = true
  | [], _, _, _, h => by simp [declaredNameFrom?] at h
  | c :: t, passed, before, name, h => by
    rw [declaredNameFrom?] at h
    split_ifs at h with hc
    · obtain ⟨-, rfl⟩ := Prod.mk.inj (Option.some.inj h)
      exact isIdentifier_takeWhile (Bool.and_eq_true_iff.1 hc).1 t
    · exact isIdentifier_of_declaredNameFrom? h

/-- An item declares a well-formed port and passes a neat type on, if it was passed one. -/
theorem wellFormed_portOf {inherited : Option Inherited} (hi : ∀ i ∈ inherited, Neat i.type)
    (item : Text) : (∀ p ∈ (portOf inherited item).1, p.WellFormed)
      ∧ ∀ i ∈ (portOf inherited item).2, Neat i.type := by
  simp only [portOf]
  split
  · exact ⟨by simp, hi⟩
  split
  · rename_i direction r hd
    split
    · -- a direction and a name
      rename_i before name hn
      have hname := isIdentifier_of_declaredNameFrom? hn
      simp only [Option.mem_some_iff, forall_eq']
      exact ⟨⟨hname, neat_typeText before⟩, neat_typeText before⟩
    · refine ⟨by simp, ?_⟩
      simp only [Option.mem_some_iff, forall_eq']
      rcases inherited with _ | i
      · exact .inl rfl
      · exact hi i rfl
  · split
    · simp
    · rename_i direction type
      have htype : Neat type := hi _ rfl
      split
      · split
        · -- a name that goes on with the declaration before it
          rename_i before name hn
          have hname := isIdentifier_of_declaredNameFrom? hn
          have hown : Neat (if (typeText before).isEmpty then type else typeText before) := by
            split_ifs
            · exact htype
            · exact neat_typeText before
          simp only [Option.mem_some_iff, forall_eq']
          exact ⟨⟨hname, hown⟩, hown⟩
        · exact ⟨by simp, hi⟩
      · simp

theorem wellFormed_of_mem_portsFrom :
    ∀ {items : List Text} {inherited : Option Inherited} {p : Port},
      (∀ i ∈ inherited, Neat i.type) → p ∈ portsFrom inherited items → p.WellFormed
  | [], _, _, _, h => by simp [portsFrom] at h
  | item :: items, inherited, p, hi, h => by
    have hitem := wellFormed_portOf hi item
    rcases List.mem_append.1 h with h | h
    · exact hitem.1 p (Option.mem_toList.1 h)
    · exact wellFormed_of_mem_portsFrom hitem.2 h

theorem wellFormed_of_mem_ports {block : Text} {p : Port} (h : p ∈ ports block) : p.WellFormed :=
  wellFormed_of_mem_portsFrom (by simp) h

theorem wellFormed_of_mem_bodyPorts {body : Text} {order : List Text} {p : Port}
    (h : p ∈ bodyPorts body order) : p.WellFormed := by
  obtain ⟨name, -, hp⟩ := List.mem_filterMap.1 h
  obtain ⟨statement, -, hp⟩ := List.mem_flatMap.1 (List.mem_of_find?_eq_some hp)
  exact wellFormed_of_mem_ports hp

theorem wellFormed_of_mem_headerPorts {h : Header} {p : Port} (hp : p ∈ headerPorts h) :
    p.WellFormed := by
  rw [headerPorts] at hp
  split at hp
  · exact wellFormed_of_mem_bodyPorts hp
  · exact wellFormed_of_mem_ports hp

/-- A module that was read is well-formed. -/
theorem wellFormed_readModule {t path : Text} {m : Module} (h : readModule t path = some m) :
    m.WellFormed := by
  simp only [readModule, Option.bind_eq_bind, Option.bind_eq_some_iff] at h
  obtain ⟨heading, hh, hm⟩ := h
  rw [← Option.some.inj hm]
  refine ⟨isIdentifier_of_findHeadingFrom? hh, ?_, ?_⟩
  · rcases (header? heading.rest).bind (·.parameters) with _ | block
    · simp
    · exact fun p => isIdentifier_of_mem_parametersFrom
  · rcases header? heading.rest with _ | header
    · simp
    · exact fun p => wellFormed_of_mem_headerPorts

end Source

end VerilogIndex
