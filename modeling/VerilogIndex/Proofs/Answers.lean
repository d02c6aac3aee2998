import VerilogIndex.Proofs.Live

/-!
# What an index answers

Every question to the tables of an index has its answer in the live readings (`Tables.Answers`),
and tables that show the readings give it (`answers_of_shows`). Answers that are lists in order of
their texts are fixed by their members, so each comes down to two lists with the same members.
-/

namespace VerilogIndex

namespace Live

theorem mem_names {L : Live} {name : Text} : name ∈ L.names ↔ ∃ e, L.winner name = some e := by
  rw [names, List.mem_dedup, List.mem_map]
  constructor
  · rintro ⟨e, he, rfl⟩
    exact exists_winner he
  · rintro ⟨e, he⟩
    exact ⟨e, mem_of_winner he⟩

theorem nodup_names (L : Live) : L.names.Nodup := List.nodup_dedup _

/-- The paths of the winners. -/
def winningPaths (L : Live) : List Text := L.names.filterMap fun n => (L.winner n).map (·.1)

theorem mem_winningPaths {L : Live} {path : Text} :
    path ∈ L.winningPaths ↔ ∃ n m, L.winner n = some (path, m) := by
  simp only [winningPaths, List.mem_filterMap, mem_names, Option.map_eq_some_iff]
  constructor
  · rintro ⟨n, -, ⟨p, m⟩, he, rfl⟩
    exact ⟨n, m, he⟩
  · rintro ⟨n, m, he⟩
    exact ⟨n, ⟨_, he⟩, _, he, rfl⟩

theorem nodup_winningPaths {L : Live} (h : L.Proper) : L.winningPaths.Nodup := by
  refine List.Nodup.filterMap (fun n n' p hn hn' => ?_) L.nodup_names
  obtain ⟨⟨p, m⟩, he, rfl⟩ := Option.map_eq_some_iff.1 hn
  obtain ⟨⟨p', m'⟩, he', rfl⟩ := Option.map_eq_some_iff.1 hn'
  obtain ⟨hm, rfl⟩ := mem_of_winner he
  obtain ⟨hm', rfl⟩ := mem_of_winner he'
  exact congrArg Module.name (h.unique hm hm')

end Live

namespace Tables

/-- Every question to the tables is answered from the readings. -/
structure Answers (t : Tables) (L : Live) : Prop where
  /-- A name stands for the last module read of that name. -/
  module : ∀ n, t.module? n = (L.winner n).map (·.2)
  /-- The paths that define a name, in the order of their readings. -/
  definitions : ∀ n, t.definitions n = (L.named n).map (·.1)
  last : ∀ n, (t.definitions n).getLast? = (t.module? n).map (·.file)
  /-- The names that two or more paths define. -/
  duplicates : t.duplicates = (Text.sorted (L.names.filter fun n => 2 ≤ (L.named n).length)).map
    fun n => (n, (L.named n).map (·.1))
  /-- A path owns its module if that is the winner of its name. -/
  modulesOf : ∀ p m, (p, m) ∈ L →
    t.modulesOf p = if L.winner m.name = some (p, m) then [m] else []
  modulesOf_none : ∀ p, (∀ m, (p, m) ∉ L) → t.modulesOf p = []
  /-- Each name that a path owns stands for a module. -/
  namesOf : ∀ p, t.namesOf p = (t.modulesOf p).map (·.name)
  paths : t.paths = Text.sorted L.winningPaths
  size : t.size = L.names.length

section Answers

variable {t : Tables} {L : Live}

theorem last_definition (h : t.Shows L) (n : Text) :
    (t.definitions n).getLast? = (t.module? n).map (·.file) := by
  rw [definitions_of_resolves h.toResolves h.toDates, List.getLast?_map, ← Live.winner, module?,
    h.module]
  rcases he : L.winner n with _ | e
  · rfl
  · simp only [Option.map_some, h.proper.own e (Live.mem_of_winner he).1]

theorem length_definers (h : t.Shows L) (n : Text) :
    ((t.definers.get? n).getD []).length = (L.named n).length := by
  have := congrArg List.length (definitions_of_resolves h.toResolves h.toDates n)
  rwa [definitions, List.length_mergeSort, List.length_map] at this

theorem duplicates_eq (h : t.Shows L) :
    t.duplicates = (Text.sorted (L.names.filter fun n => 2 ≤ (L.named n).length)).map
      fun n => (n, (L.named n).map (·.1)) := by
  have hperm : (Table.keys (t.definers.filter fun e => 1 < e.2.length)).Perm
      (L.names.filter fun n => 2 ≤ (L.named n).length) := by
    refine (List.perm_ext_iff_of_nodup ?_ (L.nodup_names.filter _)).2 fun n => ?_
    · exact h.definers_tidy.keys.sublist (List.filter_sublist.map _)
    simp only [Table.keys, List.mem_map, List.mem_filter, decide_eq_true_eq, ← length_definers h]
    constructor
    · rintro ⟨⟨n', ps⟩, ⟨hmem, hlen⟩, rfl⟩
      have hget := Table.get?_eq_some_of_mem h.definers_tidy.keys hmem
      have hlen' : 2 ≤ ((t.definers.get? n').getD []).length := by rwa [hget]
      refine ⟨?_, hlen'⟩
      obtain ⟨p, hp⟩ := List.exists_mem_of_ne_nil _ (h.definers_tidy.members hget).1
      obtain ⟨m, hm, rfl⟩ := (h.definer n' p).1 ((Table.has_of_get? hget).2 hp)
      exact Live.mem_names.2 (Live.exists_winner hm)
    · rintro ⟨-, hlen⟩
      rcases hget : t.definers.get? n with _ | ps
      · simp [hget] at hlen
      · rw [hget] at hlen
        exact ⟨(n, ps), ⟨Table.mem_of_get? hget, hlen⟩, rfl⟩
  simp only [duplicates, Text.sorted_eq_of_perm hperm,
    definitions_of_resolves h.toResolves h.toDates]

/-- The names that a path owns are its module's, if that is a winner. -/
theorem namesOf_eq (h : t.Shows L) (p : Text) {names : List Text} (hn : names.length ≤ 1)
    (hmem : ∀ n, n ∈ names ↔ ∃ m, L.winner n = some (p, m)) : t.namesOf p = names := by
  have hperm : ((t.files.get? p).getD []).Perm names := by
    refine (List.perm_ext_iff_of_nodup (h.files_tidy.nodup_getD p) ?_).2 fun n => ?_
    · rcases names with _ | ⟨a, _ | ⟨b, l⟩⟩ <;> simp at hn ⊢
    · rw [hmem, ← h.file]
      rfl
  rw [namesOf, Text.sorted_eq_of_perm hperm]
  rcases names with _ | ⟨a, _ | ⟨b, l⟩⟩
  · simp [Text.sorted]
  · simp [Text.sorted]
  · simp at hn

theorem paths_eq (h : t.Shows L) : t.paths = Text.sorted L.winningPaths := by
  refine Text.sorted_eq_of_perm ?_
  refine (List.perm_ext_iff_of_nodup h.files_tidy.keys (Live.nodup_winningPaths h.proper)).2
    fun p => ?_
  rw [h.files_tidy.mem_keys_iff_has, Live.mem_winningPaths]
  simp only [h.file]

/-- The names that stand for a module are those of the readings. -/
theorem perm_names (hnodup : t.modules.keys.Nodup)
    (hmodule : ∀ n, t.modules.get? n = (L.winner n).map (·.2)) : t.modules.keys.Perm L.names := by
  refine (List.perm_ext_iff_of_nodup hnodup L.nodup_names).2 fun n => ?_
  rw [Table.mem_keys_iff, Live.mem_names]
  simp only [hmodule, Option.map_eq_some_iff]
  exact ⟨fun ⟨_, e, he, _⟩ => ⟨e, he⟩, fun ⟨e, he⟩ => ⟨_, e, he, rfl⟩⟩

theorem size_eq (hnodup : t.modules.keys.Nodup)
    (hmodule : ∀ n, t.modules.get? n = (L.winner n).map (·.2)) : t.size = L.names.length := by
  rw [size, ← (perm_names hnodup hmodule).length_eq, Table.keys, List.length_map]

theorem answers_of_shows (h : t.Shows L) : t.Answers L := by
  have howner : ∀ p m, (p, m) ∈ L → ∀ n, (∃ m', L.winner n = some (p, m')) ↔
      L.winner m.name = some (p, m) ∧ n = m.name := by
    intro p m hm n
    constructor
    · rintro ⟨m', he⟩
      obtain ⟨hm', rfl⟩ := Live.mem_of_winner he
      obtain rfl := h.proper.unique hm' hm
      exact ⟨he, rfl⟩
    · rintro ⟨he, rfl⟩
      exact ⟨m, he⟩
  have hnames : ∀ p m, (p, m) ∈ L →
      t.namesOf p = if L.winner m.name = some (p, m) then [m.name] else [] := by
    intro p m hm
    refine namesOf_eq h p (by split_ifs <;> simp) fun n => ?_
    rw [howner p m hm]
    split_ifs with he <;> simp [he]
  have hnone : ∀ p, (∀ m, (p, m) ∉ L) → t.namesOf p = [] := fun p hp =>
    namesOf_eq h p (by simp) fun n => by
      simp only [List.not_mem_nil, false_iff]
      rintro ⟨m, he⟩
      exact hp m (Live.mem_of_winner he).1
  have hmod : ∀ p m, (p, m) ∈ L →
      t.modulesOf p = if L.winner m.name = some (p, m) then [m] else [] := by
    intro p m hm
    rw [modulesOf, hnames p m hm]
    split_ifs with he
    · simp [module?, h.module, he]
    · rfl
  have hmodnone : ∀ p, (∀ m, (p, m) ∉ L) → t.modulesOf p = [] := fun p hp => by
    rw [modulesOf, hnone p hp]
    rfl
  refine ⟨h.module, definitions_of_resolves h.toResolves h.toDates, last_definition h,
    duplicates_eq h, hmod, hmodnone, fun p => ?_, paths_eq h, size_eq h.modules_nodup h.module⟩
  by_cases hp : ∃ m, (p, m) ∈ L
  · obtain ⟨m, hm⟩ := hp
    rw [hnames p m hm, hmod p m hm]
    split_ifs <;> rfl
  · rw [not_exists] at hp
    rw [hnone p hp, hmodnone p hp]
    rfl

end Answers

end Tables

end VerilogIndex
