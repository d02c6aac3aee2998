import VerilogIndex.Proofs.Nesting

/-!
# Cutting any text at its separators

The text may be malformed: brackets of one kind closed by another, closing brackets with nothing to
close, brackets that stay open. How many are open after a text is told without a scan, by the
stretches that end there (`openBrackets`), and one more character changes that number as the scan
counts it (`depthAfter_openBrackets`). So the scan stops at the separators with no bracket open
before them, and gives the slices of the text between these places, the last one only if it is not
empty (`splitFrom_eq_slicesFrom`). The slices make up the text again (`joinWith_slicesFrom`).

Main statement: `splitTopLevel_exact`.
-/

namespace VerilogIndex.Source

open Text

/-! ## Open brackets -/

def isOpening (c : Char) : Bool := ['(', '[', '\x7b'].contains c

def isClosing (c : Char) : Bool := [')', ']', '\x7d'].contains c

/-- The number of brackets that a text leaves open: the most by which a stretch at its end opens
more of them than it closes. So a closing bracket where none is open counts for nothing
(`openBrackets_concat`). -/
def openBrackets (t : Text) : Nat :=
  (t.tails.map fun s => s.countP isOpening - s.countP isClosing).foldr max 0

theorem openBrackets_le_iff {t : Text} {n : Nat} :
    openBrackets t ≤ n ↔ ∀ s, s <:+ t → s.countP isOpening ≤ s.countP isClosing + n := by
  constructor
  · intro h s hs
    have hmem : s.countP isOpening - s.countP isClosing ∈
        t.tails.map fun s => s.countP isOpening - s.countP isClosing :=
      List.mem_map_of_mem ((List.mem_tails s t).2 hs)
    have hle : s.countP isOpening - s.countP isClosing ≤ openBrackets t :=
      List.le_max_of_le hmem le_rfl
    omega
  · intro h
    refine List.max_le_of_forall_le _ n fun m hm => ?_
    obtain ⟨s, hs, rfl⟩ := List.mem_map.1 hm
    have := h s ((List.mem_tails s t).1 hs)
    omega

theorem not_isClosing_of_isOpening {c : Char} (h : isOpening c = true) : isClosing c = false := by
  simp only [isOpening, List.contains_eq_mem, decide_eq_true_eq, List.mem_cons, List.not_mem_nil,
    or_false] at h
  rcases h with rfl | rfl | rfl <;> rfl

theorem openBrackets_concat_le_iff {t : Text} {c : Char} {n : Nat} :
    openBrackets (t ++ [c]) ≤ n ↔ ∀ s, s <:+ t →
      s.countP isOpening + (if isOpening c then 1 else 0) ≤
        s.countP isClosing + (if isClosing c then 1 else 0) + n := by
  -- a stretch at the end is empty, or one at the end of `t` with `c` after it
  simp only [openBrackets_le_iff, List.suffix_concat_iff]
  constructor
  · intro h s hs
    simpa [List.countP_append, List.countP_singleton] using h (s ++ [c]) (.inr ⟨s, rfl, hs⟩)
  · rintro h s (rfl | ⟨s, rfl, hs⟩)
    · simp
    · simpa [List.countP_append, List.countP_singleton] using h s hs

/-- An opening bracket adds one, a closing bracket takes one away if there is one, and any other
character leaves the number as it is. -/
theorem openBrackets_concat (t : Text) (c : Char) : openBrackets (t ++ [c]) =
    if isOpening c then openBrackets t + 1
    else if isClosing c then openBrackets t - 1
    else openBrackets t := by
  refine eq_of_forall_ge_iff fun n => ?_
  rw [openBrackets_concat_le_iff]
  split_ifs with ho hc hc
  · rw [not_isClosing_of_isOpening ho] at hc
    cases hc
  · cases n with
    | zero => simpa using ⟨[], List.nil_suffix, by simp⟩
    | succ n =>
      rw [Nat.add_le_add_iff_right, openBrackets_le_iff]
      exact forall₂_congr fun s _ => by omega
  · rw [Nat.sub_le_iff_le_add, openBrackets_le_iff]
    exact forall₂_congr fun s _ => by omega
  · rw [openBrackets_le_iff]
    exact forall₂_congr fun s _ => by omega

/-- The scan counts the open brackets. -/
theorem depthAfter_openBrackets (t : Text) (c : Char) :
    depthAfter (openBrackets t) c = openBrackets (t ++ [c]) := by
  rw [openBrackets_concat]
  simp [depthAfter, isOpening, isClosing]

/-! ## Slices of a text -/

/-- The slices of a text from `start` on, between the places in ascending order. The characters at
the places are in none of them. -/
def slicesFrom (t : Text) : (start : Nat) → (places : List Nat) → List Text
  | start, [] => [t.drop start]
  | start, i :: is => (t.take i).drop start :: slicesFrom t (i + 1) is

theorem slicesFrom_ne_nil (t : Text) (start : Nat) : ∀ is : List Nat, slicesFrom t start is ≠ []
  | [] => List.cons_ne_nil _ _
  | _ :: _ => List.cons_ne_nil _ _

theorem slicesFrom_concat (t : Text) (i : Nat) : ∀ {start : Nat} {is : List Nat},
    (∀ j ∈ is, j < i) →
      slicesFrom t start (is ++ [i]) = slicesFrom (t.take i) start is ++ [t.drop (i + 1)]
  | _, [], _ => rfl
  | start, j :: is, h => by
    have hj : j < i := h j List.mem_cons_self
    have ih : slicesFrom t (j + 1) (is ++ [i]) =
        slicesFrom (t.take i) (j + 1) is ++ [t.drop (i + 1)] :=
      slicesFrom_concat t i fun k hk => h k (List.mem_cons_of_mem j hk)
    rw [List.cons_append, slicesFrom, ih, slicesFrom, List.take_take, Nat.min_eq_left hj.le]
    rfl

/-- Between places of one character, the slices are joined to the text by that character. -/
theorem joinWith_slicesFrom {t : Text} {c : Char} : ∀ {start : Nat} {is : List Nat},
    is.Pairwise (· < ·) → (∀ i ∈ is, start ≤ i ∧ t[i]? = some c) →
      joinWith [c] (slicesFrom t start is) = t.drop start
  | _, [], _, _ => rfl
  | start, i :: is, hlt, hat => by
    obtain ⟨hfirst, hlt⟩ := List.pairwise_cons.1 hlt
    obtain ⟨hstart, hi⟩ := hat i List.mem_cons_self
    obtain ⟨hlen, hc⟩ := List.getElem?_eq_some_iff.1 hi
    have ih : joinWith [c] (slicesFrom t (i + 1) is) = t.drop (i + 1) :=
      joinWith_slicesFrom hlt fun j hj => ⟨hfirst j hj, (hat j (List.mem_cons_of_mem i hj)).2⟩
    obtain ⟨p, ps, hps⟩ := List.exists_cons_of_ne_nil (slicesFrom_ne_nil t (i + 1) is)
    calc joinWith [c] (slicesFrom t start (i :: is))
        = (t.take i).drop start ++ c :: t.drop (i + 1) := by
          rw [slicesFrom, hps, joinWith, ← hps, ih, List.append_assoc, List.singleton_append]
      _ = (t.take i ++ t.drop i).drop start := by
          rw [List.drop_append_of_le_length (by rw [List.length_take]; omega),
            List.drop_eq_getElem_cons hlen, hc]
      _ = t.drop start := by rw [List.take_append_drop]

/-- The slices between the places before `i` make up the text before `i`. -/
theorem joinWith_slicesFrom_take {t : Text} {c : Char} {is : List Nat} {i : Nat}
    (hlt : is.Pairwise (· < ·)) (hat : ∀ j ∈ is, j < i ∧ t[j]? = some c) :
    joinWith [c] (slicesFrom (t.take i) 0 is) = t.take i := by
  refine joinWith_slicesFrom hlt fun j hj => ⟨j.zero_le, ?_⟩
  obtain ⟨hbefore, hc⟩ := hat j hj
  rw [List.getElem?_take_of_lt hbefore, hc]

/-- The parts of a list, less the last one if it is empty. -/
def withoutEmptyEnd (ps : List Text) : List Text :=
  if ps.getLast? = some [] then ps.dropLast else ps

theorem withoutEmptyEnd_cons (p : Text) {ps : List Text} (h : ps ≠ []) :
    withoutEmptyEnd (p :: ps) = p :: withoutEmptyEnd ps := by
  rw [withoutEmptyEnd, withoutEmptyEnd, List.getLast?_cons_of_ne_nil h,
    List.dropLast_cons_of_ne_nil h]
  split_ifs <;> rfl

theorem withoutEmptyEnd_concat (ps : List Text) (p : Text) :
    withoutEmptyEnd (ps ++ [p]) = if p = [] then ps else ps ++ [p] := by
  simp [withoutEmptyEnd]

theorem withoutEmptyEnd_singleton (p : Text) :
    withoutEmptyEnd [p] = if p = [] then [] else [p] :=
  withoutEmptyEnd_concat [] p

/-- All that the missing end of the slices takes away is a character at the last place of the
text. -/
theorem joinWith_withoutEmptyEnd {t : Text} {c : Char} {is : List Nat} (hlt : is.Pairwise (· < ·))
    (hat : ∀ i ∈ is, t[i]? = some c) :
    joinWith [c] (withoutEmptyEnd (slicesFrom t 0 is)) ++
      (if t.length - 1 ∈ is then [c] else []) = t := by
  have hwhole : joinWith [c] (slicesFrom t 0 is) = t :=
    joinWith_slicesFrom hlt fun i hi => ⟨i.zero_le, hat i hi⟩
  rcases List.eq_nil_or_concat' is with rfl | ⟨is, i, rfl⟩
  · rw [slicesFrom, List.drop_zero, withoutEmptyEnd_singleton, if_neg List.not_mem_nil,
      List.append_nil]
    split_ifs with ht
    · exact ht.symm
    · rfl
  · obtain ⟨hinit, -, hlast⟩ := List.pairwise_append.1 hlt
    have hbefore : ∀ j ∈ is, j < i := fun j hj => hlast j hj i (List.mem_singleton_self i)
    obtain ⟨hi, hc⟩ := List.getElem?_eq_some_iff.1 (hat i (by simp))
    rw [slicesFrom_concat t i hbefore] at hwhole ⊢
    rw [withoutEmptyEnd_concat]
    by_cases hend : i + 1 = t.length
    · -- the last slice is empty, and the others are those of the text before the last place
      have hjoin : joinWith [c] (slicesFrom (t.take i) 0 is) = t.take i :=
        joinWith_slicesFrom_take hinit fun j hj =>
          ⟨hbefore j hj, hat j (List.mem_append_left [i] hj)⟩
      have hmem : t.length - 1 ∈ is ++ [i] := by simp [← hend]
      rw [if_pos (List.drop_eq_nil_of_le hend.ge), if_pos hmem, hjoin, ← hc,
        List.take_concat_get', hend, List.take_length]
    · have hne : t.drop (i + 1) ≠ [] := by
        rw [ne_eq, List.drop_eq_nil_iff]
        omega
      have hnot : t.length - 1 ∉ is ++ [i] := by
        intro hmem
        rcases List.mem_append.1 hmem with h | h
        · have := hbefore _ h
          omega
        · have := List.mem_singleton.1 h
          omega
      rw [if_neg hne, if_neg hnot, hwhole, List.append_nil]

/-! ## Separators outside of brackets -/

/-- A separator stands at the place, and no bracket is open there. -/
def SeparatorAt (c : Char) (t : Text) (i : Nat) : Prop :=
  t[i]? = some c ∧ openBrackets (t.take i) = 0

instance (c : Char) (t : Text) (i : Nat) : Decidable (SeparatorAt c t i) :=
  inferInstanceAs (Decidable (_ ∧ _))

/-- The places of the separators outside of brackets, from `n` on. -/
def separatorsFrom (c : Char) (t : Text) (n : Nat) : List Nat :=
  (List.range' n (t.length - n)).filter fun i => SeparatorAt c t i

theorem pairwise_separatorsFrom (c : Char) (t : Text) (n : Nat) :
    (separatorsFrom c t n).Pairwise (· < ·) :=
  (List.pairwise_lt_range' 1).filter _

theorem mem_separatorsFrom_zero {c : Char} {t : Text} {i : Nat} :
    i ∈ separatorsFrom c t 0 ↔ SeparatorAt c t i := by
  rw [separatorsFrom, List.mem_filter, decide_eq_true_eq, List.mem_range'_1]
  refine and_iff_right_of_imp fun h => ?_
  obtain ⟨hi, -⟩ := List.getElem?_eq_some_iff.1 h.1
  omega

theorem separatorsFrom_of_lt {c : Char} {t : Text} {n : Nat} (hn : n < t.length) :
    separatorsFrom c t n =
      if SeparatorAt c t n then n :: separatorsFrom c t (n + 1)
      else separatorsFrom c t (n + 1) := by
  have hrange : List.range' n (t.length - n) = n :: List.range' (n + 1) (t.length - (n + 1)) := by
    rw [show t.length - n = t.length - (n + 1) + 1 by omega, List.range'_succ]
  rw [separatorsFrom, hrange, List.filter_cons]
  simp only [decide_eq_true_eq]
  rfl

/-- The scan at place `n`, with an item that began at `start`: it gives the slices between the
separators that are left. -/
theorem splitFrom_eq_slicesFrom {c : Char} (hc : isBracket c = false) (t : Text) {start n : Nat}
    (hstart : start ≤ n) (hn : n ≤ t.length) :
    splitFrom (some c) (openBrackets (t.take n)) ((t.take n).drop start).reverse (t.drop n) =
      withoutEmptyEnd (slicesFrom t start (separatorsFrom c t n)) := by
  obtain ⟨left, hleft⟩ : ∃ left, t.length - n = left := ⟨_, rfl⟩
  induction left generalizing start n with
  | zero =>
    obtain rfl : n = t.length := by omega
    rw [List.take_length, List.drop_length, separatorsFrom, hleft, List.range'_zero,
      List.filter_nil, slicesFrom, withoutEmptyEnd_singleton, splitFrom, List.reverse_reverse]
    simp
  | succ left ih =>
    have hlt : n < t.length := by omega
    -- the scan counts the separator too before it looks, but a separator opens and closes nothing
    have hcut : some c = some t[n] ∧ openBrackets (t.take (n + 1)) = 0 ↔ SeparatorAt c t n := by
      rw [SeparatorAt, List.getElem?_eq_getElem hlt, eq_comm]
      refine and_congr_right fun he => ?_
      rw [← List.take_concat_get' t n hlt, ← depthAfter_openBrackets, Option.some.inj he,
        depthAfter_of_plain hc]
    rw [List.drop_eq_getElem_cons hlt, splitFrom, separatorsFrom_of_lt hlt]
    simp only [depthAfter_openBrackets, List.take_concat_get', hcut]
    split_ifs with hsep
    · have hnext := ih (le_refl (n + 1)) hlt (by omega)
      rw [List.drop_eq_nil_of_le (List.length_take_le _ _), List.reverse_nil] at hnext
      rw [slicesFrom, withoutEmptyEnd_cons _ (slicesFrom_ne_nil t _ _), hnext, List.reverse_reverse]
    · have hbegun : t[n] :: ((t.take n).drop start).reverse =
          ((t.take (n + 1)).drop start).reverse := by
        rw [← List.take_concat_get' t n hlt,
          List.drop_append_of_le_length (by rw [List.length_take]; omega), List.reverse_append]
        rfl
      rw [hbegun, ih (by omega) hlt (by omega)]

/-- Any text, cut at a separator that is no bracket. The parts joined with the separator are the
text, but for a separator outside of brackets at its very end. The text is cut at all separators
outside of brackets and nowhere else, and of the parts between them only an empty last one is left
out. -/
theorem splitTopLevel_exact {c : Char} (hc : isBracket c = false) (t : Text) :
    joinWith [c] (splitTopLevel t (some c)) ++
        (if SeparatorAt c t (t.length - 1) then [c] else []) = t
      ∧ ∃ cuts : List Nat, cuts.Pairwise (· < ·) ∧ (∀ i, i ∈ cuts ↔ SeparatorAt c t i)
        ∧ splitTopLevel t (some c) = withoutEmptyEnd (slicesFrom t 0 cuts) := by
  have hparts : splitTopLevel t (some c) =
      withoutEmptyEnd (slicesFrom t 0 (separatorsFrom c t 0)) :=
    splitFrom_eq_slicesFrom hc t le_rfl t.length.zero_le
  have hjoin := joinWith_withoutEmptyEnd (pairwise_separatorsFrom c t 0)
    fun i hi => (mem_separatorsFrom_zero.1 hi).1
  simp only [mem_separatorsFrom_zero] at hjoin
  rw [hparts]
  exact ⟨hjoin, _, pairwise_separatorsFrom c t 0, fun i => mem_separatorsFrom_zero, rfl⟩

/-- Closing brackets with nothing to close, a bracket closed by one of another kind, an empty part
and a separator at the end. -/
theorem splitTopLevel_exact_stray :
    let t : Text := ")],f(a,b],,\x7bc,d\x7d,"
    let parts : List Text := [")]", "f(a,b]", [], "\x7bc,d\x7d"]
    isBracket ',' = false ∧ splitTopLevel t (some ',') = parts ∧ SeparatorAt ',' t (t.length - 1)
      ∧ joinWith [','] parts ++ [','] = t
      ∧ ∃ cuts : List Nat, cuts.Pairwise (· < ·) ∧ (∀ i, i ∈ cuts ↔ SeparatorAt ',' t i)
        ∧ parts = withoutEmptyEnd (slicesFrom t 0 cuts) := by
  intro t parts
  have hparts : splitTopLevel t (some ',') = parts := rfl
  have hend : SeparatorAt ',' t (t.length - 1) := ⟨rfl, rfl⟩
  obtain ⟨hjoin, hcuts⟩ := splitTopLevel_exact (c := ',') rfl t
  rw [hparts] at hjoin hcuts
  rw [if_pos hend] at hjoin
  exact ⟨rfl, hparts, hend, hjoin, hcuts⟩

end VerilogIndex.Source
