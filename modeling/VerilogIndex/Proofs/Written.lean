import VerilogIndex.Proofs.Comments
import VerilogIndex.Proofs.Declared
import VerilogIndex.Proofs.Nesting

/-!
# Written headers

The texts of a module's header: its name, parameters and ports, with any blanks between the parts.
Blanks may be missing wherever two parts stay apart without them: a word of a type always has them
before it, and a port's name has them unless a range stands before it. The relations give a text for
what it declares (`WrittenParameter`, `WrittenPort`, `WrittenHeader`), and the texts they give are
nested and open no comment.
-/

namespace VerilogIndex

namespace Text

/-- Blanks and word characters only. -/
def Bare (t : Text) : Prop := ∀ c ∈ t, isBlank c = true ∨ isWord c = true

namespace Bare

variable {a b : Text}

theorem of_gap (h : Gap a) : Bare a := fun c hc => .inl (h c hc)

theorem of_isIdentifier (h : Source.isIdentifier a = true) : Bare a :=
  fun c hc => .inr (isWord_of_isIdentifier h c hc)

theorem not_mem (h : Bare a) : ∀ d ∈ ['(', ')', '[', ']', '\x7b', '\x7d', ',', '=', '/', '*'],
    d ∉ a := by
  have hmarks : (['(', ')', '[', ']', '\x7b', '\x7d', ',', '=', '/', '*'].all
      fun d => !isBlank d && !isWord d) = true := by decide +kernel
  intro d hd hmem
  have hmark := List.all_eq_true.1 hmarks d hd
  rw [Bool.and_eq_true, Bool.not_eq_true', Bool.not_eq_true'] at hmark
  obtain ⟨hb, hw⟩ := hmark
  rcases h d hmem with h | h
  · rw [hb] at h
    cases h
  · rw [hw] at h
    cases h

theorem nested (h : Bare a) {commas : Bool} : Source.Nested commas a := by
  refine .of_plain (List.all_eq_true.2 fun c hc => ?_)
  have hbracket : Source.isBracket c = false := by
    rw [Source.isBracket, List.contains_eq_mem, decide_eq_false_iff_not]
    intro hmem
    exact h.not_mem c (List.mem_append_left [',', '=', '/', '*'] hmem) hc
  have hcomma : c ≠ ',' := by
    rintro rfl
    exact h.not_mem _ (by decide) hc
  simp [hbracket, hcomma]

theorem quiet (h : Bare a) : Quiet a := by
  refine .of_plain fun c hc => ⟨?_, ?_⟩
  · rintro rfl
    exact h.not_mem _ (by decide) hc
  · rintro rfl
    exact h.not_mem _ (by decide) hc

end Bare

end Text

namespace Source

open Text

abbrev Identifier : Type := { t : Text // isIdentifier t = true }

/-- What stands between the brackets of a range. -/
structure RangeText where
  text : Text
  nested : Nested true text
  plain : ∀ c ∈ text, isBlank c = false ∧ c ∉ ['[', ']', '=']
  commentFree : CommentFree text

inductive TypePart where
  | word (name : Identifier)
  | range (inside : RangeText)

def TypePart.text : TypePart → Text
  | .word w => w.1
  | .range r => '[' :: (r.text ++ [']'])

/-- A port with its type in parts. -/
structure PortDeclaration where
  direction : Direction
  type : List TypePart
  name : Identifier

def PortDeclaration.port (p : PortDeclaration) : Port :=
  ⟨p.name.1, p.direction, joinWith [' '] (p.type.map TypePart.text)⟩

/-- A parameter whose value ends at the comma after it. -/
structure Assignment where
  name : Identifier
  value : Text
  trimmed : trim value = value
  nested : Nested false value
  commentFree : CommentFree value

def Assignment.parameter (s : Assignment) : Parameter := ⟨s.name.1, s.value⟩

/-- The text opens and closes its own brackets, and opens no comment with what stands before it. -/
structure Contained (commas : Bool) (t : Text) : Prop where
  nested : Nested commas t
  quiet : Quiet t

namespace Contained

variable {commas : Bool} {a b : Text}

theorem append (ha : Contained commas a) (hb : Contained commas b) : Contained commas (a ++ b) :=
  ⟨ha.nested.append hb.nested, ha.quiet.append hb.quiet⟩

theorem of_bare (h : Bare a) : Contained commas a := ⟨h.nested, h.quiet⟩

theorem of_gap (h : Gap a) : Contained commas a := of_bare (.of_gap h)

theorem of_isIdentifier (h : isIdentifier a = true) : Contained commas a :=
  of_bare (.of_isIdentifier h)

theorem joinWith : ∀ {ts : List Text}, (∀ t ∈ ts, Contained false t) →
    Contained true (Text.joinWith [','] ts)
  | [], _ => of_gap (by simp [Text.joinWith, Gap])
  | [t], h => ⟨(h t List.mem_cons_self).nested.commas_true, (h t List.mem_cons_self).quiet⟩
  | t :: u :: ts, h => by
    have hhead := h t List.mem_cons_self
    have hcomma : Contained true [','] := ⟨.plain rfl (fun _ => rfl) .nil, .of_plain (by simp)⟩
    exact (append ⟨hhead.nested.commas_true, hhead.quiet⟩ hcomma).append
      (joinWith fun v hv => h v (List.mem_cons_of_mem t hv))

end Contained

/-! ## Texts -/

/-- The parts of a type, up to the name that follows; `glued` right after a word. -/
inductive WrittenType : (glued : Bool) → List TypePart → Text → Prop
  | nil {glued : Bool} {g : Text} (hg : Gap g) (hne : glued = true → g ≠ []) :
      WrittenType glued [] g
  | word {glued : Bool} {g t : Text} {w : Identifier} {type : List TypePart} (hg : Gap g)
      (hne : g ≠ []) (ht : WrittenType true type t) :
      WrittenType glued (.word w :: type) (g ++ (w.1 ++ t))
  | range {glued : Bool} {g t : Text} {r : RangeText} {type : List TypePart} (hg : Gap g)
      (ht : WrittenType false type t) :
      WrittenType glued (.range r :: type) (g ++ '[' :: (r.text ++ ']' :: t))

inductive WrittenPort (p : PortDeclaration) : Text → Prop
  | mk {g g' t : Text} (hg : Gap g) (ht : WrittenType true p.type t) (hg' : Gap g') :
      WrittenPort p (g ++ (p.direction.text ++ (t ++ (p.name.1 ++ g'))))

inductive WrittenAssignment (s : Assignment) : Text → Prop
  | mk {g₁ g₂ g₃ : Text} (h₁ : Gap g₁) (h₂ : Gap g₂) (h₃ : Gap g₃) :
      WrittenAssignment s (s.name.1 ++ (g₁ ++ '=' :: (g₂ ++ (s.value ++ g₃))))

/-- A parameter with its keyword, which all but the first one of a block may go without. -/
inductive WrittenParameter : (first : Bool) → Assignment → Text → Prop
  | keyword {first : Bool} {s : Assignment} {g g' t : Text} (hg : Gap g) (hg' : Gap g')
      (hne : g' ≠ []) (ht : WrittenAssignment s t) :
      WrittenParameter first s (g ++ ("parameter" ++ (g' ++ t)))
  | bare {s : Assignment} {g t : Text} (hg : Gap g) (hp : s.name.1 ≠ "parameter")
      (hl : s.name.1 ≠ "localparam") (ht : WrittenAssignment s t) :
      WrittenParameter false s (g ++ t)

inductive WrittenParameters : List Assignment → Text → Prop
  | mk {s : Assignment} {ss : List Assignment} {t : Text} {ts : List Text}
      (ht : WrittenParameter true s t) (hts : List.Forall₂ (WrittenParameter false) ss ts) :
      WrittenParameters (s :: ss) (joinWith [','] (t :: ts))

inductive WrittenPorts : List PortDeclaration → Text → Prop
  | nil {g : Text} (hg : Gap g) : WrittenPorts [] g
  | cons {p : PortDeclaration} {ps : List PortDeclaration} {ts : List Text}
      (hts : List.Forall₂ WrittenPort (p :: ps) ts) : WrittenPorts (p :: ps) (joinWith [','] ts)

/-- The port block, which with its parentheses is not too long, and the blanks around it. -/
inductive WrittenEnd (ps : List PortDeclaration) : Text → Prop
  | mk {g g' b : Text} (hg : Gap g) (hb : WrittenPorts ps b) (hlen : b.length + 2 ≤ maxBlock)
      (hg' : Gap g') : WrittenEnd ps (g ++ '(' :: (b ++ ')' :: g'))

/-- A header up to the semicolon. Without parameters there is no parameter block. -/
inductive WrittenHeader (name : Identifier) : List Assignment → List PortDeclaration → Text → Prop
  | plain {ps : List PortDeclaration} {g t : Text} (hg : Gap g) (hne : g ≠ [])
      (ht : WrittenEnd ps t) : WrittenHeader name [] ps ("module" ++ (g ++ (name.1 ++ t)))
  | parameters {ss : List Assignment} {ps : List PortDeclaration} {g g₁ g₂ a t : Text} (hg : Gap g)
      (hne : g ≠ []) (h₁ : Gap g₁) (h₂ : Gap g₂) (ha : WrittenParameters ss a)
      (hlen : a.length + 2 ≤ maxBlock) (ht : WrittenEnd ps t) :
      WrittenHeader name ss ps
        ("module" ++ (g ++ (name.1 ++ (g₁ ++ '#' :: (g₂ ++ '(' :: (a ++ ')' :: t))))))

/-! ## Their brackets and comments -/

theorem WrittenType.contained {glued : Bool} {type : List TypePart} {t : Text}
    (h : WrittenType glued type t) : Contained false t := by
  induction h with
  | nil hg _ => exact .of_gap hg
  | @word _ _ _ w _ hg _ _ ih =>
    exact (Contained.of_gap hg).append ((Contained.of_isIdentifier w.2).append ih)
  | @range _ _ t r _ hg _ ih =>
    refine (Contained.of_gap hg).append ⟨.group .square r.nested ih.nested, ?_⟩
    have hclose : Quiet (']' :: t) := .cons (by decide) (by decide) ih.quiet.1
    exact .cons (by decide) (by decide) (commentFree_append r.commentFree hclose)

theorem WrittenPort.contained {p : PortDeclaration} {t : Text} (h : WrittenPort p t) :
    Contained false t := by
  obtain ⟨hg, ht, hg'⟩ := h
  exact (Contained.of_gap hg).append ((Contained.of_isIdentifier (isIdentifier_direction _)).append
    (ht.contained.append ((Contained.of_isIdentifier p.name.2).append (.of_gap hg'))))

theorem WrittenAssignment.contained {s : Assignment} {t : Text} (h : WrittenAssignment s t) :
    Contained false t := by
  obtain ⟨h₁, h₂, h₃⟩ := h
  refine (Contained.of_isIdentifier s.name.2).append ((Contained.of_gap h₁).append ⟨?_, ?_⟩)
  · exact .plain rfl (by decide)
      ((Bare.of_gap h₂).nested.append (s.nested.append (Bare.of_gap h₃).nested))
  · refine .cons (by decide) (by decide) ?_
    exact commentFree_append_right ((Bare.of_gap h₂).not_mem _ (by decide))
      (commentFree_append s.commentFree (Bare.of_gap h₃).quiet)

theorem WrittenParameter.contained {first : Bool} {s : Assignment} {t : Text}
    (h : WrittenParameter first s t) : Contained false t := by
  cases h with
  | keyword hg hg' _ ht =>
    exact (Contained.of_gap hg).append ((Contained.of_isIdentifier (by decide +kernel)).append
      ((Contained.of_gap hg').append ht.contained))
  | bare hg _ _ ht => exact (Contained.of_gap hg).append ht.contained

/-- What holds of the texts of single declarations holds of each item of a list. -/
theorem forall_of_forall₂ {α : Type} {written : α → Text → Prop} {P : Text → Prop}
    (hP : ∀ a t, written a t → P t) : ∀ {xs : List α} {ts : List Text},
    List.Forall₂ written xs ts → ∀ t ∈ ts, P t
  | _, _, .nil => by simp
  | _, _, .cons h hs => List.forall_mem_cons.2 ⟨hP _ _ h, forall_of_forall₂ hP hs⟩

theorem WrittenParameters.contained {ss : List Assignment} {t : Text} (h : WrittenParameters ss t) :
    Contained true t := by
  obtain ⟨ht, hts⟩ := h
  have hrest := forall_of_forall₂ (P := Contained false) (fun _ _ h => h.contained) hts
  exact .joinWith (List.forall_mem_cons.2 ⟨ht.contained, hrest⟩)

theorem WrittenPorts.contained {ps : List PortDeclaration} {t : Text} (h : WrittenPorts ps t) :
    Contained true t := by
  cases h with
  | nil hg => exact .of_gap hg
  | cons hts => exact .joinWith (forall_of_forall₂ (fun _ _ h => h.contained) hts)

/-- A block is nested if its content is. -/
theorem Contained.block {a t : Text} (ha : Contained true a) (ht : Contained true t) :
    Contained true ('(' :: (a ++ ')' :: t)) := by
  have hclose : Quiet (')' :: t) := .cons (by decide) (by decide) ht.quiet.1
  exact ⟨.group .round ha.nested ht.nested,
    .cons (by decide) (by decide) (commentFree_append ha.quiet.1 hclose)⟩

theorem WrittenEnd.contained {ps : List PortDeclaration} {t : Text} (h : WrittenEnd ps t) :
    Contained true t := by
  obtain ⟨hg, hb, -, hg'⟩ := h
  exact (Contained.of_gap hg).append (hb.contained.block (.of_gap hg'))

theorem WrittenHeader.contained {name : Identifier} {ss : List Assignment}
    {ps : List PortDeclaration} {t : Text} (h : WrittenHeader name ss ps t) : Contained true t := by
  have hkeyword : Contained true "module" := .of_isIdentifier (by decide +kernel)
  have hname : Contained true name.1 := .of_isIdentifier name.2
  have hhash : Contained true ['#'] := ⟨.plain rfl (by decide) .nil, .of_plain (by simp)⟩
  cases h with
  | plain hg _ ht =>
    exact hkeyword.append ((Contained.of_gap hg).append (hname.append ht.contained))
  | parameters hg _ h₁ h₂ ha _ ht =>
    exact hkeyword.append ((Contained.of_gap hg).append (hname.append ((Contained.of_gap h₁).append
      (hhash.append ((Contained.of_gap h₂).append (ha.contained.block ht.contained))))))

end Source

end VerilogIndex
