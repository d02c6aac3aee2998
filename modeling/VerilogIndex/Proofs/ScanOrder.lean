import VerilogIndex.Index.Basic
import VerilogIndex.Proofs.Answers

/-!
# Results in any order

The files of a scan are read side by side, so their modules are recorded in the order in which the
readings happen to end. Recorded from nothing on, modules of different paths are all live, in that
order (`shows_recordAll`). Two orders of the same readings have the same readings of each name, so
only the winner of a name that several files define depends on the order. Main statement:
`recordAll_any_order`.
-/

namespace VerilogIndex

/-- Records modules read from several paths, one after the other. -/
def Tables.recordAll (t : Tables) (results : Live) : Tables :=
  results.foldl (fun t e => (t.apply e.1 e.2).1) t

@[inherit_doc Tables.recordAll]
def Index.recordAll (x : Index) (results : Live) : Index :=
  results.foldl (fun x e => (x.record e.1 e.2).1) x

theorem Index.tables_recordAll : ∀ (results : Live) (x : Index),
    (x.recordAll results).tables = x.tables.recordAll results
  | [], _ => rfl
  | e :: results, x => tables_recordAll results (x.record e.1 e.2).1

namespace Live

variable {L L' : Live}

/-- A path of readings that are still to come has none before. -/
theorem not_mem_of_nodup {todo : Live} {path : Text} {m : Module}
    (h : ((L ++ (path, m) :: todo).map (·.1)).Nodup) : ∀ m', (path, m') ∉ L := by
  intro m' hm'
  rw [List.map_append, List.nodup_append] at h
  exact h.2.2 path (List.mem_map_of_mem hm') path (by simp) rfl

theorem Proper.perm (h : L.Proper) (hperm : L.Perm L') : L'.Proper where
  paths := (hperm.map _).nodup_iff.1 h.paths
  own e he := h.own e (hperm.mem_iff.2 he)

theorem perm_named (hperm : L.Perm L') (name : Text) : (L.named name).Perm (L'.named name) :=
  hperm.filter _

theorem perm_names (hperm : L.Perm L') : L.names.Perm L'.names := (hperm.map _).dedup

/-- A name that one reading has at most is won by that reading in every order. -/
theorem winner_eq_of_perm (hperm : L.Perm L') (hnodup : (L.map (·.2.name)).Nodup) (name : Text) :
    L.winner name = L'.winner name := by
  have hone : (L.named name).length ≤ 1 := by
    have hcount := List.nodup_iff_count_le_one.1 hnodup name
    rwa [List.count, List.countP_map, List.countP_eq_length_filter] at hcount
  have hnamed : L.named name = L'.named name := by
    have hp := perm_named hperm name
    rcases hl : L.named name with _ | ⟨e, _ | ⟨e', l⟩⟩
    · rw [hl] at hp
      exact hp.nil_eq
    · rw [hl] at hp
      exact hp.singleton_eq
    · simp [hl] at hone
  rw [winner, winner, hnamed]

end Live

namespace Tables

theorem shows_recordAll : ∀ (todo : Live) {t : Tables} {L : Live}, t.Shows L →
    Live.Proper (L ++ todo) → (t.recordAll todo).Shows (L ++ todo)
  | [], t, L, h, _ => by rwa [List.append_nil]
  | (path, m) :: todo, t, L, h, hp => by
    have hnew : L.without path = L := Live.without_eq_self (Live.not_mem_of_nodup hp.paths)
    have happly := shows_apply h (hp.own (path, m) (by simp))
    rw [hnew] at happly
    have ih := shows_recordAll todo happly (by rwa [List.append_assoc, List.singleton_append])
    rwa [List.append_assoc, List.singleton_append] at ih

variable {t t' : Tables} {L L' : Live}

theorem duplicates_names (h : t.Answers L) :
    t.duplicates.map (·.1) = Text.sorted (L.names.filter fun n => 2 ≤ (L.named n).length) := by
  rw [h.duplicates, List.map_map]
  exact List.map_id _

theorem modulesOf_eq_of_winner (h : t.Answers L) (h' : t'.Answers L') (hperm : L.Perm L')
    (hwin : ∀ n, L.winner n = L'.winner n) (path : Text) :
    t.modulesOf path = t'.modulesOf path := by
  by_cases hp : ∃ m, (path, m) ∈ L
  · obtain ⟨m, hm⟩ := hp
    rw [h.modulesOf path m hm, h'.modulesOf path m (hperm.mem_iff.1 hm), hwin]
  · rw [not_exists] at hp
    rw [h.modulesOf_none path hp, h'.modulesOf_none path fun m hm => hp m (hperm.mem_iff.2 hm)]

theorem paths_eq_of_winner (h : t.Answers L) (h' : t'.Answers L') (hperm : L.Perm L')
    (hwin : ∀ n, L.winner n = L'.winner n) : t.paths = t'.paths := by
  rw [h.paths, h'.paths]
  refine Text.sorted_eq_of_perm ?_
  rw [Live.winningPaths, Live.winningPaths, funext hwin]
  exact (Live.perm_names hperm).filterMap _

end Tables

/-- Modules of different paths, recorded in any two orders in indexes from which everything was
forgotten: the same paths define a name, the names are the same, and so are those that several
paths define. If no two modules have the same name, a name stands for the same module, a path
owns the same modules, and the same paths own one. -/
theorem Index.recordAll_any_order (x x' : Index) {results results' : Live}
    (hperm : results.Perm results') (hpaths : (results.map (·.1)).Nodup)
    (hown : ∀ e ∈ results, e.2.file = e.1) :
    let t := (x.clear.recordAll results).tables
    let t' := (x'.clear.recordAll results').tables
    (∀ n, (t.definitions n).Perm (t'.definitions n))
      ∧ t.modules.keys.Perm t'.modules.keys
      ∧ t.duplicates.map (·.1) = t'.duplicates.map (·.1)
      ∧ ((results.map (·.2.name)).Nodup →
        (∀ n, t.module? n = t'.module? n) ∧ (∀ p, t.modulesOf p = t'.modulesOf p)
          ∧ t.paths = t'.paths) := by
  intro t t'
  have hproper : results.Proper := ⟨hpaths, hown⟩
  have hshows : t.Shows results := by
    rw [show t = _ from tables_recordAll results x.clear]
    exact Tables.shows_recordAll results (Tables.shows_clear x.tables) hproper
  have hshows' : t'.Shows results' := by
    rw [show t' = _ from tables_recordAll results' x'.clear]
    exact Tables.shows_recordAll results' (Tables.shows_clear x'.tables) (hproper.perm hperm)
  have h := Tables.answers_of_shows hshows
  have h' := Tables.answers_of_shows hshows'
  refine ⟨fun n => ?_, ?_, ?_, fun hnames => ?_⟩
  · rw [h.definitions, h'.definitions]
    exact (Live.perm_named hperm n).map _
  · exact (Tables.perm_names hshows.modules_nodup hshows.module).trans
      ((Live.perm_names hperm).trans
        (Tables.perm_names hshows'.modules_nodup hshows'.module).symm)
  · rw [Tables.duplicates_names h, Tables.duplicates_names h']
    refine Text.sorted_eq_of_perm ?_
    simp only [(Live.perm_named hperm _).length_eq]
    exact (Live.perm_names hperm).filter _
  · have hwin := Live.winner_eq_of_perm hperm hnames
    refine ⟨fun n => ?_, Tables.modulesOf_eq_of_winner h h' hperm hwin,
      Tables.paths_eq_of_winner h h' hperm hwin⟩
    rw [h.module, h'.module, hwin]

/-- Of two files that define a name the last one recorded wins, and nothing else depends on the
order; without one of the two nothing does. -/
theorem Index.recordAll_any_order_shadowing :
    let reading := fun (path name : Text) =>
      (path, ({ name, file := path, location := { file := path } } : Module))
    let results := [reading "/a" "m", reading "/b" "m", reading "/c" "k"]
    let x : Index := { root := "/" }
    let x' := (x.record "/d" (reading "/d" "old").2).1
    let t := (x.clear.recordAll results).tables
    let t' := (x'.clear.recordAll results.reverse).tables
    (results.Perm results.reverse ∧ (results.map (·.1)).Nodup ∧ ∀ e ∈ results, e.2.file = e.1)
      ∧ (t.definitions "m").Perm (t'.definitions "m")
      ∧ t.duplicates.map (·.1) = t'.duplicates.map (·.1) ∧ t.duplicates.map (·.1) = ["m".toList]
      ∧ (t.module? "m").map (·.file) = some "/b".toList
      ∧ (t'.module? "m").map (·.file) = some "/a".toList
      ∧ (results.tail.map (·.2.name)).Nodup
      ∧ (x.clear.recordAll results.tail).tables.paths =
        (x'.clear.recordAll results.tail.reverse).tables.paths := by
  intro reading results x x' t t'
  have hperm : results.Perm results.reverse := (List.reverse_perm results).symm
  have hpaths : (results.map (·.1)).Nodup := by decide +kernel
  have hown : ∀ e ∈ results, e.2.file = e.1 := by decide +kernel
  have hnames : (results.tail.map (·.2.name)).Nodup := by decide +kernel
  obtain ⟨hdefinitions, -, hduplicates, -⟩ := recordAll_any_order x x' hperm hpaths hown
  obtain ⟨-, -, -, hdistinct⟩ := recordAll_any_order x x' (List.reverse_perm results.tail).symm
    (by decide +kernel) (by decide +kernel)
  exact ⟨⟨hperm, hpaths, hown⟩, hdefinitions "m", hduplicates, by decide +kernel,
    by decide +kernel, by decide +kernel, hnames, (hdistinct hnames).2.2⟩

end VerilogIndex
