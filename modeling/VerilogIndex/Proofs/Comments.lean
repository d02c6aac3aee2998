import Mathlib.Data.List.Infix
import Mathlib.Tactic
import VerilogIndex.Source.Comment

/-!
# Texts without comments

A comment opens at two characters side by side. Texts in which a pair does not stand are put
together to such texts as long as the pair does not arise where they meet (`apart_append`). Blanking
the comments of a text leaves alone what stands before its first comment (`blankComments_append`).
-/

namespace VerilogIndex

namespace Text

/-- Nowhere does `y` stand right after `x`. -/
def Apart (x y : Char) (t : Text) : Prop := ¬ [x, y] <:+: t

instance (x y : Char) (t : Text) : Decidable (Apart x y t) :=
  inferInstanceAs (Decidable (¬ [x, y] <:+: t))

variable {x y : Char}

theorem apart_nil : Apart x y [] := by simp [Apart]

theorem apart_cons {c : Char} {t : Text} :
    Apart x y (c :: t) ↔ ¬ (c = x ∧ t.head? = some y) ∧ Apart x y t := by
  rw [Apart, Apart, List.infix_cons_iff, not_or]
  refine and_congr_left fun _ => not_congr ?_
  rcases t with _ | ⟨d, t⟩
  · simp
  · simp [eq_comm]

theorem apart_of_not_mem {t : Text} (h : x ∉ t) : Apart x y t :=
  fun hi => h (hi.subset List.mem_cons_self)

theorem apart_stretch {s t : Text} (h : Apart x y t) (hs : s <:+: t) : Apart x y s :=
  fun hi => h (hi.trans hs)

theorem apart_append {b : Text} (hb : Apart x y b) (hy : b.head? ≠ some y) :
    ∀ {a : Text}, Apart x y a → Apart x y (a ++ b)
  | [], _ => hb
  | c :: a, h => by
    rw [apart_cons] at h
    refine apart_cons.2 ⟨fun ⟨hc, hd⟩ => ?_, apart_append hb hy h.2⟩
    rcases a with _ | ⟨d, a⟩
    · exact hy hd
    · exact h.1 ⟨hc, hd⟩

theorem apart_append_cons {c : Char} (hx : c ≠ x) (hy : c ≠ y) {a b : Text} (ha : Apart x y a)
    (hb : Apart x y b) : Apart x y (a ++ c :: b) :=
  apart_append (apart_cons.2 ⟨fun h => hx h.1, hb⟩) (by simpa using hy) ha

/-- No comment opens in the text. -/
def CommentFree (t : Text) : Prop := Apart '/' '/' t ∧ Apart '/' '*' t

instance (t : Text) : Decidable (CommentFree t) :=
  inferInstanceAs (Decidable (Apart '/' '/' t ∧ Apart '/' '*' t))

/-- No comment opens in the text, and none does where it meets what stands before it. -/
def Quiet (t : Text) : Prop := CommentFree t ∧ t.head? ≠ some '/' ∧ t.head? ≠ some '*'

theorem commentFree_cons {c : Char} (hc : c ≠ '/') {t : Text} (h : CommentFree t) :
    CommentFree (c :: t) :=
  ⟨apart_cons.2 ⟨fun he => hc he.1, h.1⟩, apart_cons.2 ⟨fun he => hc he.1, h.2⟩⟩

theorem commentFree_append_right {a t : Text} (ha : '/' ∉ a) (h : CommentFree t) :
    CommentFree (a ++ t) := by
  induction a with
  | nil => exact h
  | cons c a ih =>
    rw [List.mem_cons, not_or] at ha
    exact commentFree_cons (Ne.symm ha.1) (ih ha.2)

theorem commentFree_append {a t : Text} (ha : CommentFree a) (h : Quiet t) : CommentFree (a ++ t) :=
  ⟨apart_append h.1.1 h.2.1 ha.1, apart_append h.1.2 h.2.2 ha.2⟩

namespace Quiet

variable {a b : Text}

theorem append (ha : Quiet a) (hb : Quiet b) : Quiet (a ++ b) := by
  refine ⟨commentFree_append ha.1 hb, ?_⟩
  rcases a with _ | ⟨c, a⟩
  · exact hb.2
  · exact ha.2

theorem cons {c : Char} (hc : c ≠ '/') (hc' : c ≠ '*') (h : CommentFree a) : Quiet (c :: a) :=
  ⟨commentFree_cons hc h, by simpa using hc, by simpa using hc'⟩

theorem of_plain (h : ∀ c ∈ a, c ≠ '/' ∧ c ≠ '*') : Quiet a := by
  have hslash : '/' ∉ a := fun hmem => (h _ hmem).1 rfl
  refine ⟨⟨apart_of_not_mem hslash, apart_of_not_mem hslash⟩, ?_⟩
  exact ⟨fun hc => (h _ (List.mem_of_head? hc)).1 rfl, fun hc => (h _ (List.mem_of_head? hc)).2 rfl⟩

end Quiet

end Text

namespace Source

open Text

theorem blankFrom_append {d : Char} (hd : d ∉ ['/', '*', ':', '\\']) (u : Text) :
    ∀ {a : Text}, CommentFree a → ∀ guarded,
      blankFrom (.code guarded) (a ++ d :: u) = a ++ d :: blankComments u
  | [], _, guarded => by
    simp only [List.mem_cons, List.not_mem_nil, or_false, not_or] at hd
    have hguard : (d == ':' || d == '\\') = false := by simp [hd]
    simp [blankFrom, Place.step, blankComments, hd, hguard]
  | c :: a, h, guarded => by
    have hline := apart_cons.1 h.1
    have hblock := apart_cons.1 h.2
    have hnext : ∀ e, (a ++ d :: u).head? = some e → a.head? = some e ∨ e = d := by
      rcases a with _ | ⟨b, a⟩
      · simp [eq_comm]
      · exact fun e he => .inl he
    have hstep : Place.step (.code guarded) c (a ++ d :: u).head? =
        (c, .code (c == ':' || c == '\\')) := by
      rw [Place.step, if_neg, if_neg]
      · rintro ⟨hc, he, -⟩
        exact (hnext _ he).elim (fun he => hline.1 ⟨hc, he⟩) fun he => hd (by simp [← he])
      · rintro ⟨hc, he⟩
        exact (hnext _ he).elim (fun he => hblock.1 ⟨hc, he⟩) fun he => hd (by simp [← he])
    rw [List.cons_append, blankFrom, hstep, List.cons_append]
    simp only [blankFrom_append hd u ⟨hline.2, hblock.2⟩]

/-- Nothing is blanked before the first comment. -/
theorem blankComments_append {a : Text} (h : CommentFree a) {d : Char}
    (hd : d ∉ ['/', '*', ':', '\\']) (u : Text) :
    blankComments (a ++ d :: u) = a ++ d :: blankComments u :=
  blankFrom_append hd u h false

end Source

end VerilogIndex
