import VerilogIndex.Index.Tables
import VerilogIndex.Proofs.Tables

/-!
# The tables of an index show the live readings

A log lists what happened to an index: modules read, paths removed, everything forgotten. A reading
is live while nothing later in the log concerns its path (`Live.ofChanges`), and of the live
readings of one name the last one wins (`Live.winner`).

The five tables of an index show the live readings (`Tables.Shows`), and recording a module,
removing a path and forgetting everything keep that (`shows_apply`, `shows_remove`, `shows_clear`).
The names are the difficult part: `forget` gives a name to the reading that is now its last one,
and `takeOver` takes it away from the one that held it. Both change what is known of one name only.
-/

namespace VerilogIndex

/-- What can happen to the tables of an index. -/
inductive Change where
  | read (path : Text) (m : Module)
  | removed (path : Text)
  | cleared

/-- The change makes what was read from the path before it void. -/
def Change.concerns (path : Text) : Change → Bool
  | .read p _ => p == path
  | .removed p => p == path
  | .cleared => true

/-- Readings that count, by path, in the order in which they were made. -/
abbrev Live := List (Text × Module)

namespace Live

/-- The readings of a log that nothing after them concerns. -/
def ofChanges : List Change → Live
  | [] => []
  | .read p m :: later =>
    if later.any (Change.concerns p) then ofChanges later else (p, m) :: ofChanges later
  | .removed _ :: later => ofChanges later
  | .cleared :: later => ofChanges later

/-- The readings of other paths. -/
def without (L : Live) (path : Text) : Live := L.filter fun e => e.1 != path

/-- The readings of modules of a name. -/
def named (L : Live) (name : Text) : Live := L.filter fun e => e.2.name == name

/-- The last reading of a module of a name. -/
def winner (L : Live) (name : Text) : Option (Text × Module) := (L.named name).getLast?

/-- The names of the modules, each once. -/
def names (L : Live) : List Text := (L.map (·.2.name)).dedup

/-- One more change drops the readings it concerns, and adds its own. -/
theorem ofChanges_append (log : List Change) (c : Change) :
    ofChanges (log ++ [c]) =
      (ofChanges log).filter (fun e => !c.concerns e.1) ++ ofChanges [c] := by
  induction log with
  | nil => simp [ofChanges]
  | cons d log ih =>
    cases d with
    | read p m =>
      simp only [List.cons_append, ofChanges, List.any_append, List.any_cons, List.any_nil,
        Bool.or_false, ih]
      cases hc : c.concerns p <;> cases log.any (Change.concerns p) <;> simp [hc]
    | removed p => exact ih
    | cleared => exact ih

theorem ofChanges_append_read (log : List Change) (path : Text) (m : Module) :
    ofChanges (log ++ [.read path m]) = (ofChanges log).without path ++ [(path, m)] := by
  rw [ofChanges_append]
  simp only [ofChanges, List.any_nil, Bool.false_eq_true, if_false, without, Change.concerns,
    bne, Bool.beq_comm]

theorem ofChanges_append_removed (log : List Change) (path : Text) :
    ofChanges (log ++ [.removed path]) = (ofChanges log).without path := by
  rw [ofChanges_append]
  simp only [ofChanges, List.append_nil, without, Change.concerns, bne, Bool.beq_comm]

theorem ofChanges_append_cleared (log : List Change) : ofChanges (log ++ [.cleared]) = [] := by
  simp [ofChanges_append, ofChanges, Change.concerns]

theorem read_mem_of_mem {e : Text × Module} : ∀ {log : List Change}, e ∈ ofChanges log →
    .read e.1 e.2 ∈ log
  | .read p m :: later, h => by
    rw [ofChanges] at h
    split_ifs at h
    · exact List.mem_cons_of_mem _ (read_mem_of_mem h)
    · rcases List.mem_cons.1 h with rfl | h
      · exact List.mem_cons_self
      · exact List.mem_cons_of_mem _ (read_mem_of_mem h)
  | .removed p :: later, h =>
    List.mem_cons_of_mem _ (read_mem_of_mem (show e ∈ ofChanges later from h))
  | .cleared :: later, h =>
    List.mem_cons_of_mem _ (read_mem_of_mem (show e ∈ ofChanges later from h))

theorem mem_without {L : Live} {path : Text} {e : Text × Module} :
    e ∈ L.without path ↔ e ∈ L ∧ e.1 ≠ path := by
  simp [without]

theorem without_sublist (L : Live) (path : Text) : (L.without path).Sublist L :=
  List.filter_sublist

theorem without_without (L : Live) (path : Text) :
    (L.without path).without path = L.without path := by
  simp [without]

theorem without_eq_self {L : Live} {path : Text} (h : ∀ m, (path, m) ∉ L) :
    L.without path = L := by
  refine List.filter_eq_self.2 fun e he => ?_
  have : e.1 ≠ path := by
    rintro rfl
    exact h e.2 he
  simpa using this

theorem mem_named {L : Live} {name : Text} {e : Text × Module} :
    e ∈ L.named name ↔ e ∈ L ∧ e.2.name = name := by
  simp [named]

theorem mem_of_winner {L : Live} {name : Text} {e : Text × Module} (h : L.winner name = some e) :
    e ∈ L ∧ e.2.name = name :=
  mem_named.1 (List.mem_of_getLast? h)

theorem winner_eq_none_iff {L : Live} {name : Text} :
    L.winner name = none ↔ ∀ e ∈ L, e.2.name ≠ name := by
  rw [winner, List.getLast?_eq_none_iff, List.eq_nil_iff_forall_not_mem]
  simp only [mem_named, not_and, ne_eq]

theorem winner_append (L : Live) (path : Text) (m : Module) (name : Text) :
    winner (L ++ [(path, m)]) name = if m.name = name then some (path, m) else L.winner name := by
  simp only [winner, named, List.filter_append]
  by_cases h : m.name = name <;> simp [h]

/-- The readings of a path matter for the names they give only. -/
theorem winner_without_of_name {L : Live} {path name : Text}
    (h : ∀ m, (path, m) ∈ L → m.name ≠ name) : (L.without path).winner name = L.winner name := by
  have hn : (L.without path).named name = L.named name := by
    simp only [named, without, List.filter_filter]
    refine List.filter_congr fun e he => ?_
    by_cases hp : e.1 = path
    · subst hp
      simp [h e.2 he]
    · simp [hp]
  rw [winner, winner, hn]

/-- The winner of a name stays when another path goes. -/
theorem winner_without_of_ne {L : Live} {path name : Text} {e : Text × Module}
    (h : L.winner name = some e) (he : e.1 ≠ path) : (L.without path).winner name = some e := by
  obtain ⟨l, hl⟩ := List.getLast?_eq_some_iff.1 h
  have hc : (L.without path).named name = (L.named name).without path := by
    simp only [named, without, List.filter_filter, Bool.and_comm]
  rw [winner, hc, hl, without, List.filter_append,
    List.filter_cons_of_pos (by simpa using he), List.filter_nil, List.getLast?_concat]

theorem exists_winner {L : Live} {path : Text} {m : Module} (h : (path, m) ∈ L) :
    ∃ e, L.winner m.name = some e := by
  rcases hw : L.winner m.name with _ | e
  · exact absurd rfl (winner_eq_none_iff.1 hw _ h)
  · exact ⟨e, rfl⟩

/-- A path has one reading, and its module names the path. -/
structure Proper (L : Live) : Prop where
  paths : (L.map (·.1)).Nodup
  own : ∀ e ∈ L, e.2.file = e.1

theorem Proper.unique {L : Live} (h : L.Proper) {p : Text} {m m' : Module} (hm : (p, m) ∈ L)
    (hm' : (p, m') ∈ L) : m = m' :=
  congrArg Prod.snd (List.inj_on_of_nodup_map h.paths hm hm' rfl)

theorem Proper.without {L : Live} (h : L.Proper) (path : Text) : (L.without path).Proper where
  paths := h.paths.sublist ((L.without_sublist path).map _)
  own e he := h.own e (mem_without.1 he).1

theorem Proper.append {L : Live} (h : L.Proper) {path : Text} {m : Module} (hm : m.file = path) :
    Proper (L.without path ++ [(path, m)]) where
  paths := by
    rw [List.map_append, List.nodup_append]
    refine ⟨(h.without path).paths, by simp, ?_⟩
    rintro a ha b hb rfl
    obtain ⟨e, he, rfl⟩ := List.mem_map.1 ha
    exact (mem_without.1 he).2 (by simpa using hb)
  own e he := by
    rcases List.mem_append.1 he with he | he
    · exact (h.without path).own e he
    · rw [List.mem_singleton.1 he]
      exact hm

end Live

namespace Tables

/-- When a path was last read, zero if it was not. -/
def stamp (t : Tables) (path : Text) : Nat := (t.stamps.get? path).getD 0

/-- The tables of names agree with the readings. -/
structure Resolves (t : Tables) (L : Live) : Prop where
  module : ∀ n, t.modules.get? n = (L.winner n).map (·.2)
  file : ∀ p n, t.files.Has p n ↔ ∃ m, L.winner n = some (p, m)
  definer : ∀ n p, t.definers.Has n p ↔ ∃ m, (p, m) ∈ L ∧ m.name = n
  modules_nodup : t.modules.keys.Nodup
  files_tidy : t.files.Tidy
  definers_tidy : t.definers.Tidy

/-- The tables of paths have the readings, with stamps in the order of the readings. -/
structure Dates (t : Tables) (L : Live) : Prop where
  parsed : ∀ e ∈ L, t.parsed.get? e.1 = some e.2
  stamped : ∀ e ∈ L, t.stamps.get? e.1 = some (t.stamp e.1)
  ordered : L.Pairwise fun a b => t.stamp a.1 < t.stamp b.1

/-- The tables hold the readings and nothing else. -/
structure Shows (t : Tables) (L : Live) : Prop extends t.Resolves L, t.Dates L where
  proper : L.Proper
  parsed_none : ∀ p, (∀ m, (p, m) ∉ L) → t.parsed.get? p = none
  stamps_none : ∀ p, (∀ m, (p, m) ∉ L) → t.stamps.get? p = none
  stamps_lt : ∀ e ∈ L, t.stamp e.1 < t.nextStamp

theorem shows_empty (k : Nat) : Shows { nextStamp := k } [] where
  module n := by simp [Live.winner, Live.named]
  file p n := by simp [Live.winner, Live.named, Table.Has]
  definer n p := by simp [Table.Has]
  modules_nodup := by simp [Table.keys]
  files_tidy := Table.tidy_nil
  definers_tidy := Table.tidy_nil
  parsed e h := by simp at h
  stamped e h := by simp at h
  ordered := .nil
  proper := ⟨by simp, fun e h => by simp at h⟩
  parsed_none p _ := rfl
  stamps_none p _ := rfl
  stamps_lt e h := by simp at h

/-- The definers of a name are any list of them that the stamps put in order. -/
theorem definitions_eq {t : Tables} {name : Text} {ps : List Text} (ht : t.definers.Tidy)
    (hmem : ∀ p, t.definers.Has name p ↔ p ∈ ps)
    (hord : ps.Pairwise fun a b => t.stamp a < t.stamp b) : t.definitions name = ps := by
  have hst : (ps.map t.stamp).Nodup := List.pairwise_map.2 (hord.imp ne_of_lt)
  have hperm : ((t.definers.get? name).getD []).Perm ps :=
    (List.perm_ext_iff_of_nodup (ht.nodup_getD name) (List.Nodup.of_map _ hst)).2 hmem
  have hsort :=
    List.mergeSort_perm ((t.definers.get? name).getD []) fun a b => t.stamp a ≤ t.stamp b
  have hle : ps.Pairwise fun a b => t.stamp a ≤ t.stamp b := hord.imp le_of_lt
  refine List.Perm.eq_of_pairwise ?_ ?_ hle (hsort.trans hperm)
  · intro a b ha hb hab hba
    exact List.inj_on_of_nodup_map hst ((hsort.trans hperm).subset ha) hb (le_antisymm hab hba)
  · refine List.Pairwise.imp of_decide_eq_true (List.pairwise_mergeSort ?_ ?_ _)
    · simp only [decide_eq_true_eq]
      omega
    · simp only [Bool.or_eq_true, decide_eq_true_eq]
      omega

theorem definitions_of_resolves {t : Tables} {L : Live} (h : t.Resolves L) (hd : t.Dates L)
    (name : Text) : t.definitions name = (L.named name).map (·.1) := by
  refine definitions_eq h.definers_tidy (fun p => ?_) ?_
  · simp [h.definer, Live.mem_named]
  · exact List.pairwise_map.2 (hd.ordered.sublist List.filter_sublist)

/-- Tables that agree with other readings agree with these if they differ in one name only. -/
theorem Resolves.of_name {t t' : Tables} {L L' : Live} (h : t.Resolves L) (name : Text)
    (hwin : ∀ n, n ≠ name → L'.winner n = L.winner n)
    (hmod : ∀ n, t'.modules.get? n =
      if n = name then (L'.winner name).map (·.2) else t.modules.get? n)
    (hfile : ∀ p n, t'.files.Has p n ↔
      if n = name then ∃ m, L'.winner name = some (p, m) else t.files.Has p n)
    (hdef : ∀ n p, t'.definers.Has n p ↔ ∃ m, (p, m) ∈ L' ∧ m.name = n)
    (hm : t'.modules.keys.Nodup) (hf : t'.files.Tidy) (hd : t'.definers.Tidy) :
    t'.Resolves L' where
  module n := by
    rw [hmod]
    split_ifs with hn
    · rw [hn]
    · rw [h.module, hwin n hn]
  file p n := by
    rw [hfile]
    split_ifs with hn
    · rw [hn]
    · rw [h.file, hwin n hn]
  definer := hdef
  modules_nodup := hm
  files_tidy := hf
  definers_tidy := hd

section Forget

variable {t : Tables} {L : Live} {path : Text} {m : Module}

theorem has_definers_dropFrom (h : t.Resolves L) (hL : L.Proper) (hm : (path, m) ∈ L)
    (n p : Text) : (t.definers.dropFrom m.name path).Has n p ↔
      ∃ m', (p, m') ∈ L.without path ∧ m'.name = n := by
  rw [Table.has_dropFrom, h.definer]
  constructor
  · rintro ⟨⟨m', hm', rfl⟩, hne⟩
    refine ⟨m', Live.mem_without.2 ⟨hm', ?_⟩, rfl⟩
    rintro rfl
    exact hne ⟨congrArg Module.name (hL.unique hm' hm), rfl⟩
  · rintro ⟨m', hm', rfl⟩
    obtain ⟨hm', hp⟩ := Live.mem_without.1 hm'
    exact ⟨⟨m', hm', rfl⟩, fun h => hp h.2⟩

theorem winner_without (hL : L.Proper) (hm : (path, m) ∈ L) {n : Text} (hn : n ≠ m.name) :
    (L.without path).winner n = L.winner n :=
  Live.winner_without_of_name fun m' hm' => by
    rw [hL.unique hm' hm]
    exact Ne.symm hn

theorem has_files_dropFrom_of_ne {p n name : Text} (hn : n ≠ name) :
    (t.files.dropFrom path name).Has p n ↔ t.files.Has p n := by
  rw [Table.has_dropFrom]
  exact and_iff_left fun h => hn h.2

/-- A winner that is not of the path that goes stays. -/
theorem resolves_forget_of_ne (h : t.Resolves L) (hL : L.Proper) (hm : (path, m) ∈ L)
    {e : Text × Module} (he : L.winner m.name = some e) (hp : e.1 ≠ path) :
    (t.forget path m.name).1.Resolves (L.without path) := by
  have hw := Live.winner_without_of_ne he hp
  have hfe : e.2.file = e.1 := hL.own e (Live.mem_of_winner he).1
  simp only [forget, release, module?, h.module, he, Option.map_some, hfe, hp, ne_eq,
    not_false_eq_true, if_true]
  refine h.of_name m.name (fun n hn => winner_without hL hm hn) (fun n => ?_)
    (fun p n => ?_) (has_definers_dropFrom h hL hm) h.modules_nodup
    (h.files_tidy.dropFrom path m.name) (h.definers_tidy.dropFrom m.name path)
  · split_ifs with hn
    · rw [hn, h.module, he, hw]
    · rfl
  · split_ifs with hn
    · subst hn
      rw [Table.has_dropFrom, h.file, he, hw]
      refine and_iff_left_of_imp ?_
      rintro ⟨m', hm'⟩ ⟨rfl, -⟩
      cases hm'
      exact hp rfl
    · exact has_files_dropFrom_of_ne hn

/-- A name whose winner goes is given to the reading that is then its last one. -/
theorem resolves_forget_of_eq (h : t.Resolves L) (hL : L.Proper) (hd : t.Dates (L.without path))
    (hm : (path, m) ∈ L) {e : Text × Module} (he : L.winner m.name = some e) (hp : e.1 = path) :
    (t.forget path m.name).1.Resolves (L.without path) := by
  have hfe : e.2.file = e.1 := hL.own e (Live.mem_of_winner he).1
  have hdef := has_definers_dropFrom h hL hm
  have hdt := h.definers_tidy.dropFrom m.name path
  have hft := h.files_tidy.dropFrom path m.name
  -- no path owns the name between the two winners
  have hlost : ∀ p, ¬ (t.files.dropFrom path m.name).Has p m.name := by
    intro p hh
    obtain ⟨hh, hne⟩ := Table.has_dropFrom.1 hh
    obtain ⟨m', hm'⟩ := (h.file p m.name).1 hh
    rw [he] at hm'
    cases hm'
    exact hne ⟨hp, rfl⟩
  have hdefs : Tables.definitions { t with
      definers := t.definers.dropFrom m.name path
      files := t.files.dropFrom path m.name
      modules := t.modules.erase m.name } m.name = ((L.without path).named m.name).map (·.1) := by
    refine definitions_eq hdt (fun p => ?_) ?_
    · simp [hdef, Live.mem_named]
    · exact List.pairwise_map.2 (hd.ordered.sublist List.filter_sublist)
  simp only [forget, release, module?, h.module, he, Option.map_some, hfe, hp, ne_eq,
    not_true_eq_false, if_false]
  rw [hdefs, List.getLast?_map, ← Live.winner]
  rcases hw : (L.without path).winner m.name with _ | ⟨q, m'⟩
  · refine h.of_name m.name (fun n hn => winner_without hL hm hn) (fun n => ?_)
      (fun p n => ?_) hdef (Table.nodup_keys_erase h.modules_nodup) hft hdt
    · rw [hw]
      exact Table.get?_erase m.name t.modules n
    · split_ifs with hn
      · simp [hn, hw, hlost]
      · exact has_files_dropFrom_of_ne hn
  · have hq : t.parsed.get? q = some m' := hd.parsed _ (Live.mem_of_winner hw).1
    simp only [Option.map_some, hq]
    refine h.of_name m.name (fun n hn => winner_without hL hm hn) (fun n => ?_)
      (fun p n => ?_) hdef (Table.nodup_keys_put (Table.nodup_keys_erase h.modules_nodup))
      (hft.addTo q m.name) hdt
    · rw [Table.get?_put, Table.get?_erase, hw]
      split_ifs <;> rfl
    · rw [Table.has_addTo]
      split_ifs with hn
      · simp [hn, hw, hlost, eq_comm]
      · rw [has_files_dropFrom_of_ne hn]
        exact or_iff_right fun h => hn h.2

theorem resolves_forget (h : t.Resolves L) (hL : L.Proper) (hd : t.Dates (L.without path))
    (hm : (path, m) ∈ L) : (t.forget path m.name).1.Resolves (L.without path) := by
  obtain ⟨e, he⟩ := Live.exists_winner hm
  by_cases hp : e.1 = path
  · exact resolves_forget_of_eq h hL hd hm he hp
  · exact resolves_forget_of_ne h hL hm he hp

theorem forget_dates (t : Tables) (path name : Text) :
    (t.forget path name).1.parsed = t.parsed ∧ (t.forget path name).1.stamps = t.stamps
      ∧ (t.forget path name).1.nextStamp = t.nextStamp := by
  simp only [forget, release]
  repeat' split
  all_goals exact ⟨rfl, rfl, rfl⟩

end Forget

section TakeOver

variable {t : Tables} {L : Live} {path : Text} {m : Module}

theorem takeOver_dates (t : Tables) (path : Text) (m : Module) :
    (t.takeOver path m).1.parsed = t.parsed ∧ (t.takeOver path m).1.stamps = t.stamps
      ∧ (t.takeOver path m).1.nextStamp = t.nextStamp := by
  simp only [takeOver]
  repeat' split
  all_goals exact ⟨rfl, rfl, rfl⟩

theorem takeOver_names (t : Tables) (path : Text) (m : Module) :
    (t.takeOver path m).1.modules = t.modules.put m.name m
      ∧ (t.takeOver path m).1.definers = t.definers.addTo m.name path := by
  simp only [takeOver]
  repeat' split
  all_goals exact ⟨rfl, rfl⟩

/-- The path alone owns a name it has taken over. -/
theorem files_takeOver (h : t.Resolves L) (hL : L.Proper) (path : Text) (m : Module) :
    (t.takeOver path m).1.files.Tidy ∧ ∀ p n, (t.takeOver path m).1.files.Has p n ↔
      if n = m.name then p = path else t.files.Has p n := by
  have howner : ∀ p e, L.winner m.name = some e → (t.files.Has p m.name ↔ p = e.1) := by
    intro p e he
    rw [h.file, he]
    exact ⟨fun ⟨m', hm'⟩ => by cases hm'; rfl, fun hp => ⟨e.2, by rw [hp]⟩⟩
  simp only [takeOver, module?, h.module]
  rcases he : L.winner m.name with _ | e
  · refine ⟨h.files_tidy.addTo path m.name, fun p n => ?_⟩
    simp only [Option.map_none]
    rw [Table.has_addTo]
    split_ifs with hn
    · have hno : ¬ t.files.Has p m.name := by simp [h.file, he]
      simp [hn, hno]
    · simp [hn]
  · simp only [Option.map_some, hL.own e (Live.mem_of_winner he).1]
    by_cases hp : e.1 = path
    · simp only [hp, ne_eq, not_true_eq_false, if_false]
      refine ⟨h.files_tidy.addTo path m.name, fun p n => ?_⟩
      rw [Table.has_addTo]
      split_ifs with hn
      · rw [hn, howner p e he, hp]
        simp
      · simp [hn]
    · simp only [hp, ne_eq, not_false_eq_true, if_true]
      refine ⟨(h.files_tidy.dropFrom e.1 m.name).addTo path m.name, fun p n => ?_⟩
      rw [Table.has_addTo, Table.has_dropFrom]
      split_ifs with hn
      · rw [hn, howner p e he]
        simp
      · simp [hn]

/-- A module just read is the winner of its name from then on. -/
theorem resolves_takeOver (h : t.Resolves L) (hL : L.Proper)
    (hm : ∀ m', (path, m') ∈ L → m'.name = m.name) :
    (t.takeOver path m).1.Resolves (L.without path ++ [(path, m)]) := by
  obtain ⟨hmod, hdef⟩ := takeOver_names t path m
  obtain ⟨hft, hfile⟩ := files_takeOver h hL path m
  have hwin : Live.winner (L.without path ++ [(path, m)]) m.name = some (path, m) := by
    rw [Live.winner_append, if_pos rfl]
  refine h.of_name m.name (fun n hn => ?_) (fun n => ?_) (fun p n => ?_) (fun n p => ?_)
    ?_ hft ?_
  · rw [Live.winner_append, if_neg (Ne.symm hn)]
    exact Live.winner_without_of_name fun m' hm' => by
      rw [hm m' hm']
      exact Ne.symm hn
  · rw [hmod, Table.get?_put, hwin]
    rfl
  · rw [hfile, hwin]
    simp [eq_comm]
  · rw [hdef, Table.has_addTo, h.definer]
    simp only [List.mem_append, Live.mem_without, List.mem_singleton, Prod.mk.injEq]
    constructor
    · rintro (⟨rfl, rfl⟩ | ⟨m', hm', rfl⟩)
      · exact ⟨m, .inr ⟨rfl, rfl⟩, rfl⟩
      · by_cases hp : p = path
        · subst hp
          exact ⟨m, .inr ⟨rfl, rfl⟩, (hm m' hm').symm⟩
        · exact ⟨m', .inl ⟨hm', hp⟩, rfl⟩
    · rintro ⟨m', ⟨hm', -⟩ | ⟨rfl, rfl⟩, rfl⟩
      · exact .inr ⟨m', hm', rfl⟩
      · exact .inl ⟨rfl, rfl⟩
  · rw [hmod]
    exact Table.nodup_keys_put h.modules_nodup
  · rw [hdef]
    exact h.definers_tidy.addTo m.name path

end TakeOver

/-! ## What an index does to its tables -/

variable {t : Tables} {L : Live}

/-- The readings of other paths keep their dates. -/
theorem dates_without {t' : Tables} (h : t.Dates L) {path : Text}
    (hparsed : ∀ p, p ≠ path → t'.parsed.get? p = t.parsed.get? p)
    (hstamps : ∀ p, p ≠ path → t'.stamps.get? p = t.stamps.get? p) :
    t'.Dates (L.without path) := by
  have hstamp : ∀ e ∈ L.without path, t'.stamp e.1 = t.stamp e.1 := fun e he => by
    rw [stamp, stamp, hstamps _ (Live.mem_without.1 he).2]
  refine ⟨fun e he => ?_, fun e he => ?_, ?_⟩
  · rw [hparsed _ (Live.mem_without.1 he).2]
    exact h.parsed e (Live.mem_without.1 he).1
  · rw [hstamps _ (Live.mem_without.1 he).2, hstamp e he]
    exact h.stamped e (Live.mem_without.1 he).1
  · refine (h.ordered.sublist (L.without_sublist path)).imp_of_mem fun ha hb hab => ?_
    rw [hstamp _ ha, hstamp _ hb]
    exact hab

theorem Shows.mem_of_parsed (h : t.Shows L) {path : Text} {m : Module}
    (hp : t.parsed.get? path = some m) : (path, m) ∈ L := by
  by_contra hno
  have hnone : t.parsed.get? path = none := h.parsed_none path fun m' hm' => by
    have := h.parsed _ hm'
    rw [hp] at this
    cases this
    exact hno hm'
  rw [hp] at hnone
  cases hnone

theorem apply_dates (t : Tables) (path : Text) (m : Module) :
    (t.apply path m).1.parsed = t.parsed.put path m
      ∧ (t.apply path m).1.stamps = t.stamps.put path t.nextStamp
      ∧ (t.apply path m).1.nextStamp = t.nextStamp + 1 := by
  simp only [apply]
  repeat' split
  all_goals simp only [takeOver_dates, forget_dates, and_self]

/-- Recording a module gives up the name that the path had before, if it was another one. -/
theorem resolves_apply (h : t.Shows L) (path : Text) (m : Module) :
    (t.apply path m).1.Resolves (L.without path ++ [(path, m)]) := by
  set t₁ : Tables := { t with
    parsed := t.parsed.put path m
    stamps := t.stamps.put path t.nextStamp
    nextStamp := t.nextStamp + 1 } with ht₁
  have hres : t₁.Resolves L :=
    ⟨h.module, h.file, h.definer, h.modules_nodup, h.files_tidy, h.definers_tidy⟩
  have hd : t₁.Dates (L.without path) := dates_without h.toDates
    (fun p hp => by simp [ht₁, hp]) (fun p hp => by simp [ht₁, hp])
  have hgone : ∀ m', (path, m') ∈ L.without path → m'.name = m.name := fun m' hm' =>
    absurd rfl (Live.mem_without.1 hm').2
  simp only [apply, ← ht₁]
  rcases hprev : t.parsed.get? path with _ | p
  · refine resolves_takeOver hres h.proper fun m' hm' => ?_
    have := h.parsed _ hm'
    rw [hprev] at this
    cases this
  · have hp := h.mem_of_parsed hprev
    by_cases hn : p.name = m.name
    · simp only [hn, ne_eq, not_true_eq_false, if_false]
      exact resolves_takeOver hres h.proper fun m' hm' => by rw [h.proper.unique hm' hp, hn]
    · simp only [hn, ne_eq, not_false_eq_true, if_true]
      have := resolves_takeOver (resolves_forget hres h.proper hd hp) (h.proper.without path) hgone
      rwa [Live.without_without] at this

/-- Recording a module makes it the last reading. -/
theorem shows_apply (h : t.Shows L) {path : Text} {m : Module} (hm : m.file = path) :
    (t.apply path m).1.Shows (L.without path ++ [(path, m)]) := by
  obtain ⟨hparsed, hstamps, hnext⟩ := apply_dates t path m
  have hkeep : (t.apply path m).1.Dates (L.without path) := dates_without h.toDates
    (fun p hp => by rw [hparsed, Table.get?_put, if_neg hp])
    (fun p hp => by rw [hstamps, Table.get?_put, if_neg hp])
  have hnew : (t.apply path m).1.stamp path = t.nextStamp := by
    rw [stamp, hstamps, Table.get?_put, if_pos rfl]
    rfl
  have hold : ∀ e ∈ L.without path, (t.apply path m).1.stamp e.1 < t.nextStamp := by
    intro e he
    rw [stamp, hstamps, Table.get?_put, if_neg (Live.mem_without.1 he).2]
    exact h.stamps_lt e (Live.mem_without.1 he).1
  have hother : ∀ p, (∀ m', (p, m') ∉ L.without path ++ [(path, m)]) →
      p ≠ path ∧ ∀ m', (p, m') ∉ L := by
    intro p hp
    have hne : p ≠ path := by
      rintro rfl
      exact hp m (by simp)
    exact ⟨hne, fun m' hm' => hp m' (List.mem_append_left _ (Live.mem_without.2 ⟨hm', hne⟩))⟩
  exact {
    toResolves := resolves_apply h path m
    parsed := by
      intro e he
      rcases List.mem_append.1 he with he | he
      · exact hkeep.parsed e he
      · rw [List.mem_singleton.1 he, hparsed, Table.get?_put, if_pos rfl]
    stamped := by
      intro e he
      rcases List.mem_append.1 he with he | he
      · exact hkeep.stamped e he
      · rw [List.mem_singleton.1 he, hnew, hstamps, Table.get?_put, if_pos rfl]
    ordered := by
      refine List.pairwise_append.2 ⟨hkeep.ordered, by simp, fun a ha b hb => ?_⟩
      rw [List.mem_singleton.1 hb, hnew]
      exact hold a ha
    proper := h.proper.append hm
    parsed_none := by
      intro p hp
      rw [hparsed, Table.get?_put, if_neg (hother p hp).1]
      exact h.parsed_none p (hother p hp).2
    stamps_none := by
      intro p hp
      rw [hstamps, Table.get?_put, if_neg (hother p hp).1]
      exact h.stamps_none p (hother p hp).2
    stamps_lt := by
      intro e he
      rw [hnext]
      rcases List.mem_append.1 he with he | he
      · exact (hold e he).trans (Nat.lt_succ_self _)
      · rw [List.mem_singleton.1 he, hnew]
        exact Nat.lt_succ_self _ }

theorem remove_dates (t : Tables) (path : Text) :
    (t.remove path).2.1.parsed = t.parsed.erase path
      ∧ (t.remove path).2.1.stamps = t.stamps.erase path
      ∧ (t.remove path).2.1.nextStamp = t.nextStamp := by
  simp only [remove]
  split <;> simp only [forget_dates, and_self]

theorem resolves_remove (h : t.Shows L) (path : Text) :
    (t.remove path).2.1.Resolves (L.without path) := by
  set t₁ : Tables := { t with
    parsed := t.parsed.erase path
    stamps := t.stamps.erase path } with ht₁
  have hres : t₁.Resolves L :=
    ⟨h.module, h.file, h.definer, h.modules_nodup, h.files_tidy, h.definers_tidy⟩
  have hd : t₁.Dates (L.without path) := dates_without h.toDates
    (fun p hp => by simp [ht₁, hp]) (fun p hp => by simp [ht₁, hp])
  -- a path without a reading owns nothing, so that its erasure from the table of files is idle
  have hidle : ∀ {t' : Tables}, t'.Resolves (L.without path) →
      Resolves { t' with files := t'.files.erase path } (L.without path) := fun {t'} h' =>
    ⟨h'.module, fun p n => by
      rw [Table.has_erase, h'.file]
      refine and_iff_left_of_imp ?_
      rintro ⟨m', hm'⟩ rfl
      exact (Live.mem_without.1 (Live.mem_of_winner hm').1).2 rfl,
    h'.definer, h'.modules_nodup, h'.files_tidy.erase path, h'.definers_tidy⟩
  simp only [remove, ← ht₁]
  rcases hprev : t.parsed.get? path with _ | p
  · have hL : L.without path = L := Live.without_eq_self fun m' hm' => by
      have := h.parsed _ hm'
      rw [hprev] at this
      cases this
    exact hidle (hL.symm ▸ hres)
  · exact hidle (resolves_forget hres h.proper hd (h.mem_of_parsed hprev))

/-- Removing a path drops its reading. -/
theorem shows_remove (h : t.Shows L) (path : Text) :
    (t.remove path).2.1.Shows (L.without path) := by
  obtain ⟨hparsed, hstamps, hnext⟩ := remove_dates t path
  have hkeep : (t.remove path).2.1.Dates (L.without path) := dates_without h.toDates
    (fun p hp => by rw [hparsed, Table.get?_erase, if_neg hp])
    (fun p hp => by rw [hstamps, Table.get?_erase, if_neg hp])
  exact {
    toResolves := resolves_remove h path
    toDates := hkeep
    proper := h.proper.without path
    parsed_none := by
      intro p hp
      rw [hparsed, Table.get?_erase]
      split_ifs with hpp
      · rfl
      · exact h.parsed_none p fun m hm => hp m (Live.mem_without.2 ⟨hm, hpp⟩)
    stamps_none := by
      intro p hp
      rw [hstamps, Table.get?_erase]
      split_ifs with hpp
      · rfl
      · exact h.stamps_none p fun m hm => hp m (Live.mem_without.2 ⟨hm, hpp⟩)
    stamps_lt := by
      intro e he
      rw [hnext, stamp, hstamps, Table.get?_erase, if_neg (Live.mem_without.1 he).2]
      exact h.stamps_lt e (Live.mem_without.1 he).1 }

theorem shows_clear (t : Tables) : t.clear.Shows [] := shows_empty t.nextStamp

end Tables

end VerilogIndex
