import VerilogIndex.Proofs.History
import VerilogIndex.Proofs.Reachable

/-!
# The tables agree with each other

Five tables tell what an index knows, and none of them is looked at alone: the stamps put the
definers of a name in order, the last of them gives the module of the name, and the file of that
module owns the name. Whatever an index goes through, they agree (`Tables.Consistent`), as they all
show the same readings.

While they agree, each look-up that counts on an entry finds it (`Tables.Complete`). To say so, the
questions and changes are written a second time, failing where an entry is missing: `tryRelease` is
`release` as long as every definer of the name has a stamp and a reading. In the middle of a change
the tables do not agree, but the definers that are left still have both.

Main statement: `tables_consistent`.
-/

namespace VerilogIndex

/-! ## Readers -/

theorem Elaboration.file_readModule {errors : List Text} {compiler : Option Compiler}
    {t path : Text} {m : Module} (h : (readModule errors compiler t path).1 = .ok (some m)) :
    m.file = path := by
  rcases compiler with _ | c
  · cases h
  simp only [readModule] at h
  rcases hh : Source.findHeading? (Source.blankComments t) with _ | heading
  · simp [hh] at h
  simp only [hh] at h
  split at h
  · cases h
  · rcases hi : c.interface heading.name with e | ⟨parameters, ports⟩
    · simp [hi, bind, Except.bind] at h
    · simp only [hi, bind, Except.bind, pure, Except.pure, Except.ok.injEq, Option.some.injEq] at h
      rw [← h]

/-- The readers that come with the library record a module under its path. -/
theorem Strategy.keepsPath_of_mem {r : Registry.Item Strategy} (h : r ∈ registry.items) :
    r.item.KeepsPath := by
  rcases List.mem_cons.1 h with rfl | h
  · exact keepsPath_scan
  · rw [List.mem_singleton.1 h]
    exact fun _ _ _ => Elaboration.file_readModule

theorem mapM_eq_filterMap {α β : Type} {f : α → Option β} :
    ∀ {l : List α}, (∀ a ∈ l, ∃ b, f a = some b) → l.mapM f = some (l.filterMap f)
  | [], _ => rfl
  | a :: l, h => by
    obtain ⟨b, hb⟩ := h a List.mem_cons_self
    have ih := mapM_eq_filterMap fun c hc => h c (List.mem_cons_of_mem a hc)
    rw [List.mapM_cons, hb, ih, List.filterMap_cons_some hb]
    rfl

theorem mapM_eq_map {α β : Type} {f : α → Option β} {g : α → β} {l : List α}
    (h : ∀ a ∈ l, f a = some (g a)) : l.mapM f = some (l.map g) := by
  rw [mapM_eq_filterMap fun a ha => ⟨_, h a ha⟩, List.filterMap_congr h]
  exact congrArg some (congrFun List.filterMap_eq_map l)

/-! ## Agreement -/

namespace Tables

/-- What each table says agrees with the others. -/
structure Consistent (t : Tables) : Prop where
  /-- The paths that were read are those with a stamp. -/
  stamped : ∀ p, p ∈ t.parsed.keys ↔ p ∈ t.stamps.keys
  stamps_injective : ∀ p q k, t.stamps.get? p = some k → t.stamps.get? q = some k → p = q
  /-- The definers of a name are the paths whose last module has it. -/
  definer : ∀ n p, t.definers.Has n p ↔ ∃ m, t.parsed.get? p = some m ∧ m.name = n
  definers_tidy : t.definers.Tidy
  /-- The names that stand for a module are those that are defined. -/
  named : ∀ n, n ∈ t.modules.keys ↔ n ∈ t.definers.keys
  /-- A name stands for the module of its definer with the largest stamp. -/
  newest : ∀ n m, t.modules.get? n = some m → m.name = n ∧ ∃ p k, t.definers.Has n p
    ∧ t.parsed.get? p = some m ∧ t.stamps.get? p = some k
    ∧ ∀ q, t.definers.Has n q → q ≠ p → ∃ j < k, t.stamps.get? q = some j
  /-- A path owns the names that stand for a module of it. -/
  owner : ∀ p n, t.files.Has p n ↔ ∃ m, t.modules.get? n = some m ∧ m.file = p
  files_tidy : t.files.Tidy

variable {t : Tables} {L : Live}

theorem Shows.parsed_iff (h : t.Shows L) {p : Text} {m : Module} :
    t.parsed.get? p = some m ↔ (p, m) ∈ L :=
  ⟨h.mem_of_parsed, fun hm => h.parsed _ hm⟩

theorem Shows.mem_of_stamp (h : t.Shows L) {p : Text} {k : Nat} (hk : t.stamps.get? p = some k) :
    ∃ m, (p, m) ∈ L ∧ t.stamp p = k := by
  by_contra hno
  have hnone := h.stamps_none p fun m hm => hno ⟨m, hm, by rw [stamp, hk]; rfl⟩
  rw [hk] at hnone
  cases hnone

theorem Shows.stamp_injective (h : t.Shows L) {a b : Text × Module} (ha : a ∈ L) (hb : b ∈ L)
    (he : t.stamp a.1 = t.stamp b.1) : a = b := by
  have hnodup : (L.map fun e => t.stamp e.1).Nodup := List.pairwise_map.2 (h.ordered.imp ne_of_lt)
  exact List.inj_on_of_nodup_map hnodup ha hb he

/-- The winner of a name has the largest stamp of those that define it. -/
theorem Shows.stamp_lt_winner (h : t.Shows L) {n : Text} {e d : Text × Module}
    (he : L.winner n = some e) (hd : d ∈ L) (hn : d.2.name = n) (hne : d ≠ e) :
    t.stamp d.1 < t.stamp e.1 := by
  obtain ⟨l, hl⟩ := List.getLast?_eq_some_iff.1 he
  have hord : (L.named n).Pairwise fun a b => t.stamp a.1 < t.stamp b.1 :=
    h.ordered.sublist List.filter_sublist
  have hmem : d ∈ L.named n := Live.mem_named.2 ⟨hd, hn⟩
  rw [hl] at hord hmem
  rcases List.mem_append.1 hmem with hmem | hmem
  · exact (List.pairwise_append.1 hord).2.2 d hmem e List.mem_cons_self
  · exact absurd (List.mem_singleton.1 hmem) hne

theorem consistent_of_shows (h : t.Shows L) : t.Consistent where
  stamped p := by
    simp only [Table.mem_keys_iff, h.parsed_iff]
    constructor
    · rintro ⟨m, hm⟩
      exact ⟨_, h.stamped _ hm⟩
    · rintro ⟨k, hk⟩
      obtain ⟨m, hm, -⟩ := h.mem_of_stamp hk
      exact ⟨m, hm⟩
  stamps_injective p q k hp hq := by
    obtain ⟨m, hm, hpk⟩ := h.mem_of_stamp hp
    obtain ⟨m', hm', hqk⟩ := h.mem_of_stamp hq
    exact congrArg Prod.fst (h.stamp_injective hm hm' (hpk.trans hqk.symm))
  definer n p := by
    simp only [h.definer, h.parsed_iff]
  definers_tidy := h.definers_tidy
  named n := by
    rw [Table.mem_keys_iff, h.definers_tidy.mem_keys_iff_has]
    simp only [h.module, h.definer, Option.map_eq_some_iff]
    constructor
    · rintro ⟨_, e, he, -⟩
      exact ⟨e.1, e.2, Live.mem_of_winner he⟩
    · rintro ⟨p, m, hm, rfl⟩
      obtain ⟨e, he⟩ := Live.exists_winner hm
      exact ⟨_, e, he, rfl⟩
  newest n m hm := by
    rw [h.module, Option.map_eq_some_iff] at hm
    obtain ⟨e, he, rfl⟩ := hm
    obtain ⟨hmem, hname⟩ := Live.mem_of_winner he
    refine ⟨hname, e.1, t.stamp e.1, (h.definer n e.1).2 ⟨e.2, hmem, hname⟩, h.parsed e hmem,
      h.stamped e hmem, fun q hq hne => ?_⟩
    obtain ⟨m', hm', hn'⟩ := (h.definer n q).1 hq
    refine ⟨t.stamp q, h.stamp_lt_winner he hm' hn' fun heq => hne ?_, h.stamped _ hm'⟩
    rw [← heq]
  owner p n := by
    rw [h.file, h.module]
    constructor
    · rintro ⟨m, he⟩
      exact ⟨m, by rw [he]; rfl, h.proper.own _ (Live.mem_of_winner he).1⟩
    · rintro ⟨m, hm, rfl⟩
      obtain ⟨e, he, rfl⟩ := Option.map_eq_some_iff.1 hm
      exact ⟨e.2, by rw [he, h.proper.own e (Live.mem_of_winner he).1]⟩
  files_tidy := h.files_tidy

/-! ## Look-ups that can fail -/

/-- The modules that a path owns, unless one of its names stands for none. -/
def modulesOf? (t : Tables) (path : Text) : Option (List Module) := (t.namesOf path).mapM t.module?

/-- The paths that define a name by their stamps, unless one of them has none. -/
def definitions? (t : Tables) (name : Text) : Option (List Text) := do
  let dated ← ((t.definers.get? name).getD []).mapM fun p => (t.stamps.get? p).map fun k => (k, p)
  return (dated.mergeSort fun a b => a.1 ≤ b.1).map (·.2)

def duplicates? (t : Tables) : Option (List (Text × List Text)) :=
  let names := Table.keys (t.definers.filter fun e => 1 < e.2.length)
  (Text.sorted names).mapM fun n => (t.definitions? n).map fun ps => (n, ps)

/-- As `release`, unless a definer of the name has no stamp or the heir has no reading. -/
def tryRelease (t : Tables) (path name : Text) : Option (Tables × List Notice) :=
  let t := { t with files := t.files.dropFrom path name }
  match t.module? name with
  | none => some (t, [])
  | some m =>
    if m.file ≠ path then some (t, [])
    else do
      let t := { t with modules := t.modules.erase name }
      match (← t.definitions? name).getLast? with
      | none => return (t, [])
      | some heir =>
        let m ← t.parsed.get? heir
        return ({ t with modules := t.modules.put name m, files := t.files.addTo heir name },
          [.resolvesTo name heir])

def tryForget (t : Tables) (path name : Text) : Option (Tables × List Notice) :=
  { t with definers := t.definers.dropFrom name path }.tryRelease path name

def tryApply (t : Tables) (path : Text) (m : Module) : Option (Tables × List Notice) := do
  let previous := t.parsed.get? path
  let t := { t with
    parsed := t.parsed.put path m
    stamps := t.stamps.put path t.nextStamp
    nextStamp := t.nextStamp + 1 }
  let (t, before) ← match previous with
    | none => some (t, [])
    | some p => if p.name ≠ m.name then t.tryForget path p.name else some (t, [])
  let (t, after) := t.takeOver path m
  return (t, before ++ after)

def tryRemove (t : Tables) (path : Text) : Option (List Text × Tables × List Notice) := do
  let owned := t.namesOf path
  let previous := t.parsed.get? path
  let t := { t with parsed := t.parsed.erase path, stamps := t.stamps.erase path }
  let (t, notices) ← match previous with
    | none => some (t, [])
    | some p => t.tryForget path p.name
  let t := { t with files := t.files.erase path }
  return (owned, t, notices ++ if owned.isEmpty then [] else [.removed path owned])

/-- No look-up of a question or a change fails. -/
structure Complete (t : Tables) : Prop where
  modulesOf : ∀ p, t.modulesOf? p = some (t.modulesOf p)
  definitions : ∀ n, t.definitions? n = some (t.definitions n)
  duplicates : t.duplicates? = some t.duplicates
  release : ∀ p n, t.tryRelease p n = some (t.release p n)
  apply : ∀ p m, t.tryApply p m = some (t.apply p m)
  remove : ∀ p, t.tryRemove p = some (t.remove p)

/-- Every definer has a stamp and a reading. -/
def Grounded (t : Tables) : Prop :=
  ∀ n p, t.definers.Has n p → p ∈ t.stamps.keys ∧ p ∈ t.parsed.keys

theorem definitions?_eq (h : t.Grounded) (name : Text) :
    t.definitions? name = some (t.definitions name) := by
  have hdated : ((t.definers.get? name).getD []).mapM
      (fun p => (t.stamps.get? p).map fun k => (k, p)) =
        some (((t.definers.get? name).getD []).map fun p => (t.stamp p, p)) := by
    refine mapM_eq_map fun p hp => ?_
    obtain ⟨k, hk⟩ := Table.mem_keys_iff.1 (h name p hp).1
    rw [stamp, hk]
    rfl
  rw [definitions?, hdated]
  refine congrArg some ?_
  rw [List.map_mergeSort (s := fun a b => decide (t.stamp a ≤ t.stamp b)), List.map_map]
  · exact congrArg (List.mergeSort · _) (List.map_id _)
  · simp only [List.mem_map]
    rintro _ ⟨p, -, rfl⟩ _ ⟨q, -, rfl⟩
    rfl

theorem tryRelease_eq (h : t.Grounded) (path name : Text) :
    t.tryRelease path name = some (t.release path name) := by
  rcases hm : t.modules.get? name with _ | m
  · simp only [tryRelease, release, module?, hm]
  by_cases hf : m.file = path
  · set t₁ : Tables := { t with
      files := t.files.dropFrom path name
      modules := t.modules.erase name } with ht₁
    have hdefs := definitions?_eq (t := t₁) h name
    simp only [tryRelease, release, module?, hm, hf, ne_eq, not_true_eq_false, if_false, ← ht₁,
      hdefs, Option.bind_eq_bind, Option.bind_some]
    rcases he : (t₁.definitions name).getLast? with _ | heir
    · rfl
    · have hmem : heir ∈ (t.definers.get? name).getD [] :=
        (List.mergeSort_perm _ _).subset (List.mem_of_getLast? he)
      obtain ⟨m', hm'⟩ := Table.mem_keys_iff.1 (h name heir hmem).2
      simp only [hm']
      rfl
  · simp only [tryRelease, release, module?, hm, hf, ne_eq, not_false_eq_true, if_true]

/-- A path that gives up a name may be without a stamp and a reading itself. -/
theorem tryForget_eq {path name : Text} (h : ∀ n p, t.definers.Has n p → ¬ (n = name ∧ p = path) →
    p ∈ t.stamps.keys ∧ p ∈ t.parsed.keys) : t.tryForget path name = some (t.forget path name) := by
  rw [tryForget, tryRelease_eq, forget]
  intro n p hp
  obtain ⟨hp, hne⟩ := Table.has_dropFrom.1 hp
  exact h n p hp hne

theorem Consistent.grounded (h : t.Consistent) : t.Grounded := by
  intro n p hp
  obtain ⟨m, hm, -⟩ := (h.definer n p).1 hp
  have hkey : p ∈ t.parsed.keys := Table.mem_keys_iff.2 ⟨m, hm⟩
  exact ⟨(h.stamped p).1 hkey, hkey⟩

theorem tryApply_eq (h : t.Consistent) (path : Text) (m : Module) :
    t.tryApply path m = some (t.apply path m) := by
  set t₁ : Tables := { t with
    parsed := t.parsed.put path m
    stamps := t.stamps.put path t.nextStamp
    nextStamp := t.nextStamp + 1 } with ht₁
  have hforget : ∀ name, t₁.tryForget path name = some (t₁.forget path name) := fun name =>
    tryForget_eq fun n p hp _ =>
      ⟨Table.mem_keys_put (h.grounded n p hp).1, Table.mem_keys_put (h.grounded n p hp).2⟩
  rcases hp : t.parsed.get? path with _ | p
  · simp only [tryApply, apply, hp, Option.bind_eq_bind, Option.bind_some]
    rfl
  · by_cases hn : p.name = m.name
    · simp only [tryApply, apply, hp, hn, ne_eq, not_true_eq_false, if_false, Option.bind_eq_bind,
        Option.bind_some]
      rfl
    · simp only [tryApply, apply, hp, hn, ne_eq, not_false_eq_true, if_true, ← ht₁, hforget,
        Option.bind_eq_bind, Option.bind_some]
      rfl

theorem tryRemove_eq (h : t.Consistent) (path : Text) :
    t.tryRemove path = some (t.remove path) := by
  set t₁ : Tables := { t with
    parsed := t.parsed.erase path
    stamps := t.stamps.erase path } with ht₁
  rcases hp : t.parsed.get? path with _ | p
  · simp only [tryRemove, remove, hp, Option.bind_eq_bind, Option.bind_some]
    rfl
  · -- the path defines the name of its module only, so it is not among the definers that are left
    have hforget : t₁.tryForget path p.name = some (t₁.forget path p.name) := by
      refine tryForget_eq fun n q hq hne => ?_
      have hqp : q ≠ path := by
        rintro rfl
        obtain ⟨m, hm, rfl⟩ := (h.definer n q).1 hq
        rw [hp] at hm
        cases hm
        exact hne ⟨rfl, rfl⟩
      exact ⟨Table.mem_keys_erase (h.grounded n q hq).1 hqp,
        Table.mem_keys_erase (h.grounded n q hq).2 hqp⟩
    simp only [tryRemove, remove, hp, ← ht₁, hforget, Option.bind_eq_bind, Option.bind_some]
    rfl

theorem complete_of_consistent (h : t.Consistent) : t.Complete where
  modulesOf p := by
    refine mapM_eq_filterMap fun n hn => ?_
    obtain ⟨m, hm, -⟩ := (h.owner p n).1 (Text.mem_sorted.1 hn)
    exact ⟨m, hm⟩
  definitions := definitions?_eq h.grounded
  duplicates := mapM_eq_map fun n _ => by rw [definitions?_eq h.grounded]; rfl
  release := tryRelease_eq h.grounded
  apply := tryApply_eq h
  remove := tryRemove_eq h

end Tables

/-! ## Every session -/

namespace Session

/-- Nothing was read yet, by a reader that keeps paths. -/
structure Fresh (s : Session) : Prop where
  idle : s.Idle
  empty : s.index.tables = {}
  keeps : s.index.strategy.KeepsPath

theorem fresh_create {d : Disk} {root : Text} {c : Config} {s : Session}
    (h : create d root c = .ok s) : s.Fresh := by
  simp only [create, Index.create, Registry.get] at h
  split at h
  · rename_i r hr
    cases h
    exact ⟨⟨rfl, rfl, rfl, rfl⟩, rfl, Strategy.keepsPath_of_mem (List.mem_of_find?_eq_some hr)⟩
  · cases h

theorem Fresh.tells {s : Session} (h : s.Fresh) : s.Tells [] where
  booked := h.idle.booked
  keeps := h.keeps
  own := by simp [h.idle.updates]
  shows := h.empty ▸ Tables.shows_empty _

theorem lasting_tells : Lasting fun s => ∃ log, s.Tells log where
  act := fun ⟨_, h⟩ a => ⟨_, tells_act h a⟩
  say := fun ⟨log, h⟩ _ => ⟨log, h.booked.of_same rfl rfl le_rfl, h.keeps, h.own, h.shows⟩

/-- In every session that comes of an empty one, by steps of updates, texts, removals and scans in
any order or by requests and batches that run to their end, the tables agree, and no look-up of a
question or a change fails. -/
theorem tables_consistent {s₀ s : Session} (h₀ : s₀.Fresh) (hs : Reachable s₀ s) :
    s.index.tables.Consistent ∧ s.index.tables.Complete := by
  obtain ⟨log, htells⟩ := hs.keeps lasting_tells ⟨[], h₀.tells⟩
  have hconsistent := Tables.consistent_of_shows htells.shows
  exact ⟨hconsistent, Tables.complete_of_consistent hconsistent⟩

/-- A file takes a name over from another and then gives it up for a new one. -/
theorem tables_consistent_renamed :
    let s₀ : Session := { disk := ⟨[], "/p"⟩, index := { root := "/p" } }
    let s := s₀.run [.updateText "/p/a.v" "module m; endmodule",
      .updateText "/p/b.v" "module m; endmodule", .updateText "/p/b.v" "module n; endmodule"]
    create ⟨[], "/p"⟩ "/p" {} = .ok s₀ ∧ Reachable s₀ s
      ∧ s.index.tables.definers =
        [("m".toList, ["/p/a.v".toList]), ("n".toList, ["/p/b.v".toList])]
      ∧ s.index.tables.Consistent ∧ s.index.tables.Complete := by
  intro s₀ s
  have hcreate : create ⟨[], "/p"⟩ "/p" {} = .ok s₀ := rfl
  have hs : Reachable s₀ s := reachable_run .start _
  exact ⟨hcreate, hs, by decide +kernel, tables_consistent (fresh_create hcreate) hs⟩

end Session

end VerilogIndex
