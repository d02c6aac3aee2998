import Mathlib.Tactic
import VerilogIndex.Source.Header
import VerilogIndex.Source.Split

/-!
# Nested brackets

A text is nested (`Source.Nested`) if each of its brackets is closed by one of its kind. A scan that
counts brackets passes over such a text and stands at the depth where it began, whether it counts
all kinds, as the cut at commas does (`splitFrom_append`), or round ones only, as the search for the
end of a block does (`closeBlock?_append`). So a list of nested items is cut where it was joined
(`splitTopLevel_joinWith`), and a block of nested content ends where it was closed
(`block?_nested`).
-/

namespace VerilogIndex.Source

open Text

/-- A bracket and the one that closes it. -/
inductive Closes : Char → Char → Prop
  | round : Closes '(' ')'
  | square : Closes '[' ']'
  | curly : Closes '\x7b' '\x7d'

/-- The character is a bracket of any kind. -/
def isBracket (c : Char) : Bool := ['(', ')', '[', ']', '\x7b', '\x7d'].contains c

/-- Brackets are closed in order by those of their kind; `commas` if a comma may stand outside of
them. -/
inductive Nested : (commas : Bool) → Text → Prop
  | nil {commas : Bool} : Nested commas []
  | plain {commas : Bool} {c : Char} {t : Text} (hc : isBracket c = false)
      (hcomma : c = ',' → commas = true) (ht : Nested commas t) : Nested commas (c :: t)
  | group {commas : Bool} {o c : Char} {a t : Text} (hc : Closes o c) (ha : Nested true a)
      (ht : Nested commas t) : Nested commas (o :: (a ++ c :: t))

namespace Nested

variable {commas : Bool} {a b : Text}

theorem append (ha : Nested commas a) (hb : Nested commas b) : Nested commas (a ++ b) := by
  induction ha with
  | nil => exact hb
  | plain hc hcomma _ ih => exact .plain hc hcomma (ih hb)
  | group hc ha _ _ ih =>
    rw [List.cons_append, List.append_assoc, List.cons_append]
    exact .group hc ha (ih hb)

theorem commas_true (ha : Nested commas a) : Nested true a := by
  induction ha with
  | nil => exact .nil
  | plain hc _ _ ih => exact .plain hc (fun _ => rfl) ih
  | group hc ha _ _ ih => exact .group hc ha ih

theorem of_plain (h : (a.all fun c => !isBracket c && (commas || c != ',')) = true) :
    Nested commas a := by
  induction a with
  | nil => exact .nil
  | cons c a ih =>
    simp only [List.all_cons, Bool.and_eq_true, Bool.not_eq_true', Bool.or_eq_true, bne_iff_ne] at h
    obtain ⟨⟨hc, hcomma⟩, ha⟩ := h
    refine .plain hc (fun he => hcomma.resolve_right fun hne => hne he) (ih ?_)
    simpa using ha

end Nested

/-! ## Lists -/

theorem depthAfter_of_plain {c : Char} (hc : isBracket c = false) (depth : Nat) :
    depthAfter depth c = depth := by
  simp only [isBracket, List.contains_eq_mem, decide_eq_false_iff_not, List.mem_cons,
    List.not_mem_nil, or_false, not_or] at hc
  simp [depthAfter, hc]

theorem depthAfter_of_closes {o c : Char} (h : Closes o c) (depth : Nat) :
    depthAfter depth o = depth + 1 ∧ depthAfter (depth + 1) c = depth ∧ o ≠ ',' ∧ c ≠ ',' := by
  cases h <;> simp [depthAfter]

/-- A nested text without a comma outside of its brackets belongs to the item that has begun, and so
does any nested text inside of a bracket. -/
theorem splitFrom_append {commas : Bool} {t : Text} (h : Nested commas t) (depth : Nat)
    (hd : commas = true → 0 < depth) (begun u : Text) :
    splitFrom (some ',') depth begun (t ++ u) =
      splitFrom (some ',') depth (t.reverse ++ begun) u := by
  induction h generalizing depth begun u with
  | nil => rfl
  | @plain commas c t hc hcomma _ ih =>
    have hstop : ¬ (some ',' = some c ∧ depth = 0) := by
      rintro ⟨he, h0⟩
      have := hd (hcomma (Option.some.inj he).symm)
      omega
    rw [List.cons_append, splitFrom]
    simp only [depthAfter_of_plain hc, hstop, if_false]
    rw [ih depth hd, List.reverse_cons, List.append_assoc, List.singleton_append]
  | @group commas o c a t hc _ _ iha iht =>
    obtain ⟨ho, hclose, hne, hne'⟩ := depthAfter_of_closes hc depth
    have hopen : ¬ (some ',' = some o ∧ depth + 1 = 0) := by omega
    have hstop : ¬ (some ',' = some c ∧ depth = 0) := fun h => hne' (Option.some.inj h.1).symm
    rw [List.cons_append, splitFrom]
    simp only [ho, hopen, if_false]
    rw [List.append_assoc, iha (depth + 1) (by omega), List.cons_append, splitFrom]
    simp only [hclose, hstop, if_false]
    rw [iht depth hd]
    simp

/-- A list of nested items is cut into them again. -/
theorem splitTopLevel_joinWith : ∀ {items : List Text},
    (∀ t ∈ items, Nested false t ∧ t ≠ []) → splitTopLevel (joinWith [','] items) = items
  | [], _ => rfl
  | [t], h => by
    obtain ⟨hn, hne⟩ := h t List.mem_cons_self
    have := splitFrom_append hn 0 (by simp) [] []
    rw [List.append_nil, List.append_nil] at this
    rw [joinWith, splitTopLevel, this, splitFrom, if_neg (by simpa using hne), List.reverse_reverse]
  | t :: u :: items, h => by
    obtain ⟨hn, -⟩ := h t List.mem_cons_self
    have ih := splitTopLevel_joinWith fun v hv => h v (List.mem_cons_of_mem t hv)
    rw [joinWith, List.append_assoc, List.singleton_append, splitTopLevel,
      splitFrom_append hn 0 (by simp), splitFrom, List.append_nil, List.reverse_reverse]
    simp only [depthAfter, splitTopLevel] at ih ⊢
    simp [ih]

/-! ## Blocks -/

theorem closeBlock?_cons {c : Char} (hc : c ≠ ')') (budget depth : Nat) (r : Text) :
    closeBlock? (budget + 1) depth (c :: r) =
      (closeBlock? budget (if c = '(' then depth + 1 else depth) r).map
        fun b => (c :: b.1, b.2) := by
  rw [closeBlock?.eq_def]
  simp only [hc, if_false]

/-- The search for the end of a block passes over a nested text. -/
theorem closeBlock?_append {commas : Bool} {t : Text} (h : Nested commas t) (budget depth : Nat)
    (u : Text) : closeBlock? (t.length + budget) depth (t ++ u) =
      (closeBlock? budget depth u).map fun b => (t ++ b.1, b.2) := by
  induction h generalizing budget depth u with
  | nil => simp
  | @plain commas c t hc _ _ ih =>
    have hclose : c ≠ ')' := by
      rintro rfl
      cases hc
    have hopen : c ≠ '(' := by
      rintro rfl
      cases hc
    rw [List.length_cons, show t.length + 1 + budget = t.length + budget + 1 by omega,
      List.cons_append, closeBlock?_cons hclose, if_neg hopen, ih, Option.map_map]
    rfl
  | @group commas o c a t hc _ _ iha iht =>
    have hlen : (o :: (a ++ c :: t)).length + budget = a.length + (t.length + budget + 1) + 1 := by
      simp only [List.length_cons, List.length_append]
      omega
    rw [hlen, List.cons_append, List.append_assoc, List.cons_append]
    cases hc with
    | round =>
      rw [closeBlock?_cons (by decide), if_pos rfl, iha, closeBlock?, if_pos rfl]
      simp only [iht, Option.map_map]
      congr 1
      funext b
      simp
    | square | curly =>
      rw [closeBlock?_cons (by decide), if_neg (by decide), iha, closeBlock?_cons (by decide),
        if_neg (by decide), iht]
      simp only [Option.map_map]
      congr 1
      funext b
      simp

/-- A block of nested content ends at the parenthesis that closes it, if it is not too long. -/
theorem block?_nested {commas : Bool} {t : Text} (h : Nested commas t)
    (hlen : t.length + 2 ≤ maxBlock) (u : Text) :
    block? ('(' :: (t ++ ')' :: u)) = some (t, u) := by
  obtain ⟨k, hk⟩ : ∃ k, maxBlock - 1 = t.length + (k + 1) := ⟨maxBlock - 2 - t.length, by omega⟩
  rw [block?, hk, closeBlock?_append h, closeBlock?, if_pos rfl]
  simp

end VerilogIndex.Source
