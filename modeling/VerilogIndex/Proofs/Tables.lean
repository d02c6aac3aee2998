import Mathlib.Data.List.Dedup
import Mathlib.Data.List.Perm.Basic
import Mathlib.Tactic
import VerilogIndex.Table

/-!
# Tables as functions

What a table holds under a key after a value is put or erased. A table of lists is a relation
between keys and members (`Table.Has`); while it is `Tidy`, no key holds an empty list and no list
repeats a member, so the keys are those that have a member.
-/

namespace VerilogIndex

namespace Table

variable {α : Type}

@[simp] theorem get?_nil (key : Text) : get? ([] : Table α) key = none := rfl

theorem get?_cons (k key : Text) (a : α) (t : Table α) :
    get? ((k, a) :: t) key = if key = k then some a else get? t key := by
  rw [get?, get?, List.lookup_cons]
  by_cases h : key = k
  · simp [h]
  · rw [if_neg h, beq_false_of_ne h]

@[simp] theorem get?_put (key : Text) (a : α) :
    ∀ (t : Table α) (k : Text), (t.put key a).get? k = if k = key then some a else t.get? k
  | [], k => by simp [put, get?_cons]
  | (k', b) :: t, k => by
    simp only [put]
    by_cases h : k' = key
    · subst h
      rw [if_pos rfl, get?_cons, get?_cons]
      split_ifs <;> rfl
    · rw [if_neg h, get?_cons, get?_cons, get?_put key a t k]
      split_ifs with h1 h2 h2
      · exact absurd (h1.symm.trans h2) h
      all_goals rfl

@[simp] theorem get?_erase (key : Text) :
    ∀ (t : Table α) (k : Text), (t.erase key).get? k = if k = key then none else t.get? k
  | [], k => by simp [erase]
  | (k', b) :: t, k => by
    have ih := get?_erase key t k
    simp only [erase] at ih ⊢
    by_cases h : k' = key
    · rw [List.filter_cons_of_neg (by simp [h]), ih, get?_cons, h]
      split_ifs <;> rfl
    · rw [List.filter_cons_of_pos (by simp [h]), get?_cons, get?_cons, ih]
      split_ifs with h1 h2 h2
      · exact absurd (h1.symm.trans h2) h
      all_goals rfl

theorem mem_keys_iff {key : Text} : ∀ {t : Table α}, key ∈ t.keys ↔ ∃ a, t.get? key = some a
  | [] => by simp [keys]
  | (k, b) :: t => by
    have ih : key ∈ keys t ↔ ∃ a, get? t key = some a := mem_keys_iff
    simp only [keys] at ih ⊢
    rw [List.map_cons, List.mem_cons, ih, get?_cons]
    by_cases h : key = k <;> simp [h]

theorem contains_iff {t : Table α} {key : Text} : t.contains key = true ↔ key ∈ t.keys := by
  rw [contains, Option.isSome_iff_exists, mem_keys_iff]

theorem keys_put_subset {key k : Text} {a : α} {t : Table α} (h : k ∈ (t.put key a).keys) :
    k = key ∨ k ∈ t.keys := by
  rw [mem_keys_iff, get?_put] at h
  by_cases hk : k = key
  · exact .inl hk
  · rw [if_neg hk] at h
    exact .inr (mem_keys_iff.2 h)

theorem mem_keys_put {key k : Text} {a : α} {t : Table α} (h : k ∈ t.keys) :
    k ∈ (t.put key a).keys := by
  obtain ⟨b, hb⟩ := mem_keys_iff.1 h
  rw [mem_keys_iff, get?_put]
  split_ifs
  · exact ⟨a, rfl⟩
  · exact ⟨b, hb⟩

theorem mem_put {key : Text} {a : α} {x : Text × α} :
    ∀ {t : Table α}, x ∈ t.put key a → x = (key, a) ∨ x ∈ t
  | [], h => .inl (List.mem_singleton.1 h)
  | (k, b) :: t, h => by
    simp only [put] at h
    split_ifs at h with hk
    · subst hk
      exact (List.mem_cons.1 h).imp_right (List.mem_cons_of_mem _)
    · rcases List.mem_cons.1 h with rfl | h
      · exact .inr List.mem_cons_self
      · exact (mem_put h).imp_right (List.mem_cons_of_mem _)

theorem nodup_keys_put {key : Text} {a : α} :
    ∀ {t : Table α}, t.keys.Nodup → (t.put key a).keys.Nodup
  | [], _ => by simp [put, keys]
  | (k, b) :: t, h => by
    have ht : k ∉ keys t ∧ (keys t).Nodup := by simpa [keys] using h
    simp only [put]
    split_ifs with hk
    · simpa [keys] using h
    · have ih : (keys (put key a t)).Nodup := nodup_keys_put ht.2
      have hn : k ∉ keys (put key a t) := fun hm =>
        (keys_put_subset hm).elim hk ht.1
      simpa [keys] using And.intro hn ih

theorem keys_erase (key : Text) (t : Table α) :
    (t.erase key).keys = t.keys.filter fun k => k != key := by
  simp only [keys, erase, List.filter_map]
  rfl

theorem mem_keys_erase {key k : Text} {t : Table α} (h : k ∈ t.keys) (hk : k ≠ key) :
    k ∈ (t.erase key).keys := by
  rw [keys_erase, List.mem_filter]
  exact ⟨h, by simpa using hk⟩

theorem nodup_keys_erase {key : Text} {t : Table α} (h : t.keys.Nodup) :
    (t.erase key).keys.Nodup := by
  rw [keys_erase]
  exact h.filter _

theorem get?_eq_some_of_mem {k : Text} {a : α} :
    ∀ {t : Table α}, t.keys.Nodup → (k, a) ∈ t → t.get? k = some a
  | (k', b) :: t, h, hm => by
    have ht : k' ∉ keys t ∧ (keys t).Nodup := by simpa [keys] using h
    rw [get?_cons]
    rcases List.mem_cons.1 hm with heq | hmem
    · cases heq
      simp
    · have hk : k ≠ k' := by
        rintro rfl
        exact ht.1 (List.mem_map_of_mem hmem)
      rw [if_neg hk, get?_eq_some_of_mem ht.2 hmem]

theorem mem_of_get? {k : Text} {a : α} : ∀ {t : Table α}, t.get? k = some a → (k, a) ∈ t
  | [], h => by simp at h
  | (k', b) :: t, h => by
    rw [get?_cons] at h
    split_ifs at h with hk
    · rw [hk, Option.some.inj h]
      exact List.mem_cons_self
    · exact List.mem_cons_of_mem _ (mem_of_get? h)

theorem eq_nil_of_get?_none {t : Table α} (h : ∀ k, t.get? k = none) : t = [] := by
  rcases t with _ | ⟨⟨k, a⟩, t⟩
  · rfl
  · have := h k
    simp [get?_cons] at this

/-! ## Tables of lists -/

/-- The list under a key has a member. -/
def Has (t : Table (List Text)) (key member : Text) : Prop := member ∈ (t.get? key).getD []

/-- Keys stand once, and the list under each of them has members, each once. -/
structure Tidy (t : Table (List Text)) : Prop where
  keys : t.keys.Nodup
  members : ∀ {key xs}, t.get? key = some xs → xs ≠ [] ∧ xs.Nodup

theorem tidy_nil : Tidy [] := ⟨by simp [keys], fun h => by simp at h⟩

theorem has_of_get? {t : Table (List Text)} {key member : Text} {xs : List Text}
    (h : t.get? key = some xs) : t.Has key member ↔ member ∈ xs := by
  simp [Has, h]

theorem Has.mem_keys {t : Table (List Text)} {key member : Text} (h : t.Has key member) :
    key ∈ t.keys := by
  rcases hg : t.get? key with _ | xs
  · simp [Has, hg] at h
  · exact mem_keys_iff.2 ⟨xs, hg⟩

/-- The keys of a tidy table are those that have a member. -/
theorem Tidy.mem_keys_iff_has {t : Table (List Text)} (ht : t.Tidy) {key : Text} :
    key ∈ t.keys ↔ ∃ member, t.Has key member := by
  constructor
  · intro h
    obtain ⟨xs, hxs⟩ := mem_keys_iff.1 h
    obtain ⟨x, hx⟩ := List.exists_mem_of_ne_nil _ (ht.members hxs).1
    exact ⟨x, (has_of_get? hxs).2 hx⟩
  · rintro ⟨x, hx⟩
    exact hx.mem_keys

theorem Tidy.nodup_getD {t : Table (List Text)} (ht : t.Tidy) (key : Text) :
    ((t.get? key).getD []).Nodup := by
  rcases hg : t.get? key with _ | xs
  · simp
  · exact (ht.members hg).2

theorem has_addTo {t : Table (List Text)} {key member k x : Text} :
    (t.addTo key member).Has k x ↔ (k = key ∧ x = member) ∨ t.Has k x := by
  simp only [Has, addTo, get?_put]
  by_cases hk : k = key
  · subst hk
    simp only [if_true, Option.getD_some, true_and]
    split_ifs with hm
    · exact ⟨.inr, fun h => h.elim (fun e => e ▸ hm) id⟩
    · rw [List.mem_append, List.mem_singleton, or_comm]
  · simp [hk]

theorem Tidy.addTo {t : Table (List Text)} (ht : t.Tidy) (key member : Text) :
    (t.addTo key member).Tidy := by
  refine ⟨nodup_keys_put ht.keys, fun {k xs} h => ?_⟩
  simp only [Table.addTo, get?_put] at h
  split_ifs at h with hk hm
  · obtain rfl := Option.some.inj h
    exact ⟨List.ne_nil_of_mem hm, ht.nodup_getD key⟩
  · obtain rfl := Option.some.inj h
    refine ⟨by simp, List.nodup_append.2 ⟨ht.nodup_getD key, by simp, ?_⟩⟩
    rintro a ha b hb rfl
    exact hm (List.mem_singleton.1 hb ▸ ha)
  · exact ht.members h

theorem has_dropFrom {t : Table (List Text)} {key member k x : Text} :
    (t.dropFrom key member).Has k x ↔ t.Has k x ∧ ¬ (k = key ∧ x = member) := by
  rcases hg : t.get? key with _ | xs
  · simp only [dropFrom, hg]
    refine ⟨fun h => ⟨h, ?_⟩, And.left⟩
    rintro ⟨rfl, -⟩
    simp [Has, hg] at h
  · simp only [dropFrom, hg]
    by_cases hk : k = key
    · subst hk
      have hleft : x ∈ xs.filter (· != member) ↔ x ∈ xs ∧ x ≠ member := by simp
      split_ifs with he
      · have hnil : x ∉ xs.filter (· != member) := by
          rw [List.isEmpty_iff.1 he]
          exact List.not_mem_nil
        simp only [Has, get?_erase, if_true, Option.getD_none, List.not_mem_nil, hg,
          Option.getD_some, true_and, false_iff]
        exact fun h => hnil (hleft.2 h)
      · simp only [Has, get?_put, if_true, Option.getD_some, hg, true_and]
        exact hleft
    · split_ifs <;> simp [Has, hk]

theorem Tidy.dropFrom {t : Table (List Text)} (ht : t.Tidy) (key member : Text) :
    (t.dropFrom key member).Tidy := by
  rcases hg : t.get? key with _ | xs
  · simpa only [Table.dropFrom, hg] using ht
  · simp only [Table.dropFrom, hg]
    split_ifs with he
    · refine ⟨nodup_keys_erase ht.keys, fun {k ys} h => ?_⟩
      rw [get?_erase] at h
      split_ifs at h
      exact ht.members h
    · refine ⟨nodup_keys_put ht.keys, fun {k ys} h => ?_⟩
      rw [get?_put] at h
      split_ifs at h
      · obtain rfl := Option.some.inj h
        exact ⟨fun h => he (by rw [h]; rfl), (ht.members hg).2.filter _⟩
      · exact ht.members h

theorem has_erase {t : Table (List Text)} {key k x : Text} :
    (t.erase key).Has k x ↔ t.Has k x ∧ k ≠ key := by
  simp only [Has, get?_erase]
  by_cases hk : k = key <;> simp [hk]

theorem Tidy.erase {t : Table (List Text)} (ht : t.Tidy) (key : Text) : (t.erase key).Tidy := by
  refine ⟨nodup_keys_erase ht.keys, fun {k xs} h => ?_⟩
  rw [get?_erase] at h
  split_ifs at h
  exact ht.members h

end Table

/-! ## Sorted texts -/

namespace Text

theorem le_total : ∀ s t : Text, (le s t || le t s) = true
  | [], t => by simp [le]
  | _ :: _, [] => by simp [le]
  | a :: s, b :: t => by
    have ih := le_total s t
    simp only [le, Bool.or_eq_true, Bool.and_eq_true, decide_eq_true_eq, beq_iff_eq] at ih ⊢
    rcases Nat.lt_trichotomy a.toNat b.toNat with h | h | h
    · exact .inl (.inl h)
    · exact ih.elim (fun h' => .inl (.inr ⟨h, h'⟩)) (fun h' => .inr (.inr ⟨h.symm, h'⟩))
    · exact .inr (.inl h)

theorem le_trans : ∀ s t u : Text, le s t = true → le t u = true → le s u = true
  | [], _, _, _, _ => by simp [le]
  | _ :: _, [], _, h, _ => by simp [le] at h
  | _ :: _, _ :: _, [], _, h => by simp [le] at h
  | a :: s, b :: t, c :: u, h1, h2 => by
    simp only [le, Bool.or_eq_true, Bool.and_eq_true, decide_eq_true_eq, beq_iff_eq] at h1 h2 ⊢
    rcases h1 with h1 | ⟨h1, h1'⟩ <;> rcases h2 with h2 | ⟨h2, h2'⟩
    · exact .inl (by omega)
    · exact .inl (by omega)
    · exact .inl (by omega)
    · exact .inr ⟨by omega, le_trans s t u h1' h2'⟩

theorem le_antisymm : ∀ s t : Text, le s t = true → le t s = true → s = t
  | [], [], _, _ => rfl
  | [], _ :: _, _, h => by simp [le] at h
  | _ :: _, [], h, _ => by simp [le] at h
  | a :: s, b :: t, h1, h2 => by
    simp only [le, Bool.or_eq_true, Bool.and_eq_true, decide_eq_true_eq, beq_iff_eq] at h1 h2
    have hab : a.toNat = b.toNat := by omega
    have hst : s = t := by
      rcases h1 with h1 | ⟨-, h1⟩
      · omega
      rcases h2 with h2 | ⟨-, h2⟩
      · omega
      exact le_antisymm s t h1 h2
    rw [hst, Char.toNat_inj.1 hab]

theorem sorted_perm (ts : List Text) : (sorted ts).Perm ts := List.mergeSort_perm ts le

theorem sorted_pairwise (ts : List Text) : (sorted ts).Pairwise fun a b => le a b = true :=
  List.pairwise_mergeSort le_trans le_total ts

@[simp] theorem mem_sorted {t : Text} {ts : List Text} : t ∈ sorted ts ↔ t ∈ ts :=
  (sorted_perm ts).mem_iff

/-- The order in which texts come does not matter for the sorted list. -/
theorem sorted_eq_of_perm {ts us : List Text} (h : ts.Perm us) : sorted ts = sorted us :=
  List.Perm.eq_of_pairwise
    (fun a b _ _ hab hba => le_antisymm a b hab hba) (sorted_pairwise ts) (sorted_pairwise us)
    ((sorted_perm ts).trans (h.trans (sorted_perm us).symm))

end Text

end VerilogIndex
