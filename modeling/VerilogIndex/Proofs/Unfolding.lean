import VerilogIndex.Navigate.Hierarchy
import VerilogIndex.Proofs.Consistency

/-!
# The hierarchy is the cut unfolding

A node stands in a tree below the nodes of its branch (`Node.Stands`). An index may hold modules
that instantiate each other in circles, and modules with many parents, so what a node is depends on
its branch alone: it is recursive if its type names a module above it, and not if one beside it
does. The invariant down a branch (`Hierarchy.Grown`) says that the names the unfolding carries
along are those of the modules above, each of them once and each in the index under its own name.

Main statement: `forest_unfolds`.
-/

namespace VerilogIndex

namespace Node

def isBlackBox : Node → Bool
  | blackBox _ => true
  | _ => false

def isRecursive : Node → Bool
  | recursive .. => true
  | _ => false

/-- The names of the modules that the nodes stand for. -/
def moduleNames (ns : List Node) : List Text := ns.filterMap fun n => n.module?.map (·.name)

/-- The node stands in the tree below the nodes `above`, the nearest first and the root last. -/
inductive Stands (tree : Node) : (above : List Node) → Node → Prop
  | root : Stands tree [] tree
  | child {above : List Node} {n c : Node} (hn : Stands tree above n) (hc : c ∈ n.children) :
      Stands tree (n :: above) c

/-- The node is what the tables make of it at its place, if trees are unfolded to `depth`. -/
structure Unfolds (t : Tables) (depth : Nat) (above : List Node) (n : Node) : Prop where
  resolved : ∀ i, n.instance? = some i → n.module? = t.module? i.type
  blackBox_iff : ∀ i, n.instance? = some i → (n.isBlackBox = true ↔ t.module? i.type = none)
  recursive_iff : ∀ i, n.instance? = some i → (n.isRecursive = true ↔ i.type ∈ moduleNames above)
  leaf : n.isBlackBox = true ∨ n.isRecursive = true → n.children = []
  /-- No module stands twice on a branch, but as the recursive node that ends it. -/
  distinct : (moduleNames ((n :: above).filter (!·.isRecursive))).Nodup
  shallow : above.length ≤ depth
  /-- The children are the module's instances, in order. -/
  children : n.isBlackBox = false → n.isRecursive = false → above.length < depth →
    ∃ m, n.module? = some m ∧ n.children.map instance? = m.instances.map some

theorem moduleNames_cons {n : Node} {m : Module} (h : n.module? = some m) (ns : List Node) :
    moduleNames (n :: ns) = m.name :: moduleNames ns := by
  rw [moduleNames, List.filterMap_cons_some (b := m.name) (by rw [h]; rfl)]
  rfl

end Node

/-- A name of the index stands for a module of that name. -/
def Tables.Named (t : Tables) : Prop := ∀ n m, t.module? n = some m → m.name = n

namespace Hierarchy

open Node

variable {t : Tables}

/-- The node of an instance below modules of the names `above`. -/
def ofInstance (t : Tables) (depth : Nat) (above : List Text) (i : Instance) : Node :=
  (t.module? i.type).elim (.blackBox i) fun m =>
    if above.contains m.name then .recursive i m
    else .inner i m (unfold t depth (m.name :: above) m)

theorem unfold_zero (t : Tables) (above : List Text) (m : Module) : unfold t 0 above m = [] := rfl

theorem unfold_succ (t : Tables) (depth : Nat) (above : List Text) (m : Module) :
    unfold t (depth + 1) above m = m.instances.map (ofInstance t depth above) := by
  refine List.map_congr_left fun i _ => ?_
  rw [ofInstance]
  cases t.module? i.type with
  | none => rfl
  | some m => exact if_congr List.contains_iff_mem.symm rfl rfl

section OfInstance

variable (t : Tables) (depth : Nat) (above : List Text) (i : Instance)

/-- What an instance becomes: a black box, a recursive node or an unfolded one. -/
theorem ofInstance_cases :
    (t.module? i.type = none ∧ ofInstance t depth above i = .blackBox i)
      ∨ ∃ m, t.module? i.type = some m
        ∧ ((m.name ∈ above ∧ ofInstance t depth above i = .recursive i m)
          ∨ (m.name ∉ above
            ∧ ofInstance t depth above i = .inner i m (unfold t depth (m.name :: above) m))) := by
  rcases hm : t.module? i.type with _ | m
  · exact .inl ⟨rfl, by rw [ofInstance, hm, Option.elim_none]⟩
  · refine .inr ⟨m, rfl, ?_⟩
    by_cases hmem : m.name ∈ above
    · refine .inl ⟨hmem, ?_⟩
      rw [ofInstance, hm, Option.elim_some, if_pos (List.contains_iff_mem.2 hmem)]
    · refine .inr ⟨hmem, ?_⟩
      rw [ofInstance, hm, Option.elim_some, if_neg (mt List.contains_iff_mem.1 hmem)]

theorem instance?_ofInstance : (ofInstance t depth above i).instance? = some i := by
  obtain ⟨-, he⟩ | ⟨m, -, ⟨-, he⟩ | ⟨-, he⟩⟩ := ofInstance_cases t depth above i <;> rw [he] <;> rfl

theorem module?_ofInstance : (ofInstance t depth above i).module? = t.module? i.type := by
  obtain ⟨hm, he⟩ | ⟨m, hm, ⟨-, he⟩ | ⟨-, he⟩⟩ := ofInstance_cases t depth above i <;>
    rw [he, hm] <;> rfl

theorem isBlackBox_ofInstance :
    (ofInstance t depth above i).isBlackBox = true ↔ t.module? i.type = none := by
  obtain ⟨hm, he⟩ | ⟨m, hm, ⟨-, he⟩ | ⟨-, he⟩⟩ := ofInstance_cases t depth above i <;>
    simp [he, hm, isBlackBox]

theorem isRecursive_ofInstance : (ofInstance t depth above i).isRecursive = true ↔
    ∃ m, t.module? i.type = some m ∧ m.name ∈ above := by
  obtain ⟨hm, he⟩ | ⟨m, hm, ⟨hmem, he⟩ | ⟨hmem, he⟩⟩ := ofInstance_cases t depth above i <;>
    simp [isRecursive, *]

end OfInstance

/-- The nodes below a module are its instances. -/
theorem instances_unfold (t : Tables) (depth : Nat) (above : List Text) (m : Module) :
    (unfold t (depth + 1) above m).map instance? = m.instances.map some := by
  rw [unfold_succ, List.map_map]
  exact List.map_congr_left fun i _ => instance?_ofInstance t depth above i

/-- The modules above a node are in the index, each under its own name and only once; and the node
is the root, or the unfolding made it of an instance with these names above it. -/
structure Grown (t : Tables) (depth : Nat) (above : List Node) (n : Node) : Prop where
  shallow : above.length ≤ depth
  open_above : ∀ a ∈ above, a.isRecursive = false
  indexed : ∀ name ∈ moduleNames above, ∃ m, t.module? name = some m
  distinct : (moduleNames above).Nodup
  origin : (above = [] ∧ ∃ m, t.module? m.name = some m ∧ n = ofModule t depth m)
    ∨ ∃ i d, depth = above.length + d ∧ n = ofInstance t d (moduleNames above) i

namespace Grown

variable {depth : Nat} {above : List Node} {n : Node}

theorem root {m : Module} (hm : t.module? m.name = some m) :
    Grown t depth [] (ofModule t depth m) where
  shallow := Nat.zero_le depth
  open_above := by simp
  indexed := by simp [moduleNames]
  distinct := List.nodup_nil
  origin := .inl ⟨rfl, m, hm, rfl⟩

/-- A node that the unfolding was not cut at unfolds its module with one more name above. -/
theorem opened (ht : t.Named) (h : Grown t depth above n) (hb : n.isBlackBox = false)
    (hr : n.isRecursive = false) : ∃ m d, n.module? = some m ∧ depth = above.length + d
      ∧ n.children = unfold t d (m.name :: moduleNames above) m
      ∧ m.name ∉ moduleNames above ∧ t.module? m.name = some m := by
  rcases h.origin with ⟨rfl, m, hm, rfl⟩ | ⟨i, d, hd, rfl⟩
  · exact ⟨m, depth, rfl, (Nat.zero_add depth).symm, rfl, by simp [moduleNames], hm⟩
  · obtain ⟨-, he⟩ | ⟨m, hm, ⟨-, he⟩ | ⟨hmem, he⟩⟩ := ofInstance_cases t d (moduleNames above) i <;>
      rw [he] at hb hr ⊢
    · cases hb
    · cases hr
    · exact ⟨m, d, rfl, hd, rfl, hmem, by rw [ht _ _ hm, hm]⟩

/-- Only nodes that the unfolding was not cut at have children. -/
theorem not_cut_of_mem {c : Node} (hc : c ∈ n.children) :
    n.isBlackBox = false ∧ n.isRecursive = false := by
  cases n with
  | root | inner => exact ⟨rfl, rfl⟩
  | blackBox | recursive => simp [Node.children] at hc

theorem child (ht : t.Named) (h : Grown t depth above n) {c : Node} (hc : c ∈ n.children) :
    Grown t depth (n :: above) c := by
  obtain ⟨hb, hr⟩ := not_cut_of_mem hc
  obtain ⟨m, d, hm, hd, hchildren, hfresh, hself⟩ := h.opened ht hb hr
  rw [hchildren] at hc
  rcases d with _ | d
  · simp [unfold_zero] at hc
  · rw [unfold_succ, List.mem_map] at hc
    obtain ⟨i, -, rfl⟩ := hc
    have hnames := moduleNames_cons hm above
    refine ⟨by simp only [List.length_cons]; omega, List.forall_mem_cons.2 ⟨hr, h.open_above⟩,
      ?_, ?_,
      .inr ⟨i, d, by simp only [List.length_cons]; omega, by rw [hnames]⟩⟩
    · rw [hnames]
      exact List.forall_mem_cons.2 ⟨⟨m, hself⟩, h.indexed⟩
    · rw [hnames]
      exact List.nodup_cons.2 ⟨hfresh, h.distinct⟩

theorem of_stands (ht : t.Named) {m : Module} (hm : t.module? m.name = some m)
    (hn : (ofModule t depth m).Stands above n) : Grown t depth above n := by
  induction hn with
  | root => exact root hm
  | child _ hc ih => exact ih.child ht hc

theorem eq_ofInstance (h : Grown t depth above n) {i : Instance} (hi : n.instance? = some i) :
    ∃ d, n = ofInstance t d (moduleNames above) i := by
  rcases h.origin with ⟨-, m, -, rfl⟩ | ⟨j, d, -, rfl⟩
  · cases hi
  · exact ⟨d, by rw [Option.some.inj ((instance?_ofInstance t d _ j).symm.trans hi)]⟩

/-- As what stands above is in the index under its own name, a type names it iff it resolves to it.
-/
theorem recursive_iff (ht : t.Named) (h : Grown t depth above n) {i : Instance}
    (hi : n.instance? = some i) : n.isRecursive = true ↔ i.type ∈ moduleNames above := by
  obtain ⟨d, rfl⟩ := h.eq_ofInstance hi
  rw [isRecursive_ofInstance]
  constructor
  · rintro ⟨m, hm, hmem⟩
    rwa [← ht _ _ hm]
  · intro hmem
    obtain ⟨m, hm⟩ := h.indexed _ hmem
    exact ⟨m, hm, by rwa [ht _ _ hm]⟩

theorem distinct_open (ht : t.Named) (h : Grown t depth above n) :
    (moduleNames ((n :: above).filter (!·.isRecursive))).Nodup := by
  have habove : above.filter (!·.isRecursive) = above :=
    List.filter_eq_self.2 fun a ha => by simp [h.open_above a ha]
  rcases hr : n.isRecursive with _ | _
  · rw [List.filter_cons_of_pos (by simp [hr]), habove]
    rcases hb : n.isBlackBox with _ | _
    · obtain ⟨m, -, hm, -, -, hfresh, -⟩ := h.opened ht hb hr
      rw [moduleNames_cons hm]
      exact List.nodup_cons.2 ⟨hfresh, h.distinct⟩
    · cases n with
      | blackBox i => exact h.distinct
      | root | recursive | inner => cases hb
  · rw [List.filter_cons_of_neg (by simp [hr]), habove]
    exact h.distinct

theorem unfolds (ht : t.Named) (h : Grown t depth above n) : n.Unfolds t depth above where
  resolved i hi := by
    obtain ⟨d, rfl⟩ := h.eq_ofInstance hi
    exact module?_ofInstance t d _ i
  blackBox_iff i hi := by
    obtain ⟨d, rfl⟩ := h.eq_ofInstance hi
    exact isBlackBox_ofInstance t d _ i
  recursive_iff i hi := h.recursive_iff ht hi
  leaf hcut := by
    by_contra hne
    obtain ⟨c, hc⟩ := List.exists_mem_of_ne_nil _ hne
    obtain ⟨hb, hr⟩ := not_cut_of_mem hc
    simp [hb, hr] at hcut
  distinct := h.distinct_open ht
  shallow := h.shallow
  children hb hr hlt := by
    obtain ⟨m, d, hm, hd, hchildren, -⟩ := h.opened ht hb hr
    obtain ⟨d, rfl⟩ : ∃ k, d = k + 1 := ⟨d - 1, by omega⟩
    exact ⟨m, hm, by rw [hchildren, instances_unfold]⟩

end Grown

/-- The modules at the roots are those of the index with the name that was asked for. -/
theorem exists_root_iff (ht : t.Named) (top : Option Text) (depth : Nat) (m : Module) :
    (∃ tree ∈ forest t top depth, tree.module? = some m) ↔
      t.module? m.name = some m ∧ ∀ name ∈ top, m.name = name := by
  have hroots : ∀ ms : List Module,
      (∃ tree ∈ ms.map (ofModule t depth), tree.module? = some m) ↔ m ∈ ms := by
    intro ms
    simp only [List.mem_map, exists_exists_and_eq_and, ofModule, Node.module?, Option.some.injEq,
      exists_eq_right]
  cases top with
  | some name =>
    rw [show forest t (some name) depth = (t.module? name).toList.map (ofModule t depth) from rfl,
      hroots]
    simp only [Option.mem_toList, Option.mem_def, Option.some.injEq, forall_eq']
    exact ⟨fun hm => ⟨by rw [ht _ _ hm, hm], ht _ _ hm⟩, fun h => h.2 ▸ h.1⟩
  | none =>
    rw [show forest t none depth = t.sortedModules.map (ofModule t depth) from rfl, hroots]
    simp only [Tables.sortedModules, List.mem_filterMap, Text.mem_sorted, Option.not_mem_none,
      false_implies, implies_true, and_true]
    constructor
    · rintro ⟨name, -, hm⟩
      rw [ht _ _ hm, hm]
    · exact fun hm => ⟨m.name, Table.mem_keys_iff.2 ⟨m, hm⟩, hm⟩

end Hierarchy

namespace Session

open Hierarchy

theorem Reachable.named {s₀ s : Session} (h₀ : s₀.Fresh) (hs : Reachable s₀ s) :
    s.index.tables.Named := by
  obtain ⟨log, htells⟩ := hs.keeps lasting_tells ⟨[], h₀.tells⟩
  exact fun n m hm => ((Tables.consistent_of_shows htells.shows).newest n m hm).1

/-- In every session that comes of an empty one, for any name asked for or none and any depth: a
tree stands for each module of the index with that name, and each node of a tree is, at its place,
what the index makes of it. An instance is a black box iff its type is not in the index and
recursive iff its type names a module above it; neither has children, no module is twice on a branch
but as the recursive node at its end, no node is too deep, and above that depth the children of any
other node are its module's instances, in order. -/
theorem forest_unfolds {s₀ s : Session} (h₀ : s₀.Fresh) (hs : Reachable s₀ s) (top : Option Text)
    (depth : Nat) :
    (∀ m, (∃ tree ∈ forest s.index.tables top depth, tree.module? = some m) ↔
        s.index.module? m.name = some m ∧ ∀ name ∈ top, m.name = name)
      ∧ ∀ tree ∈ forest s.index.tables top depth, ∀ above n, tree.Stands above n →
        n.Unfolds s.index.tables depth above := by
  have ht := hs.named h₀
  refine ⟨exists_root_iff ht top depth, fun tree htree above n hn => ?_⟩
  obtain ⟨m, hm, rfl⟩ : ∃ m, s.index.tables.module? m.name = some m
      ∧ tree = ofModule s.index.tables depth m := by
    obtain ⟨m, -, rfl⟩ := List.mem_map.1 htree
    exact ⟨m, ((exists_root_iff ht top depth m).1 ⟨_, htree, rfl⟩).1, rfl⟩
  exact (Grown.of_stands ht hm hn).unfolds ht

/-- Two modules that instantiate each other, one of them twice, beside one that is not in the index.
The second instance unfolds as the first does. -/
theorem forest_unfolds_circle :
    let s₀ : Session := { disk := ⟨[], "/p"⟩, index := { root := "/p" } }
    let s := s₀.run [.updateText "/p/a.v" "module a; b u (); ip v (); b w (); endmodule",
      .updateText "/p/b.v" "module b; a x (); endmodule"]
    create ⟨[], "/p"⟩ "/p" {} = .ok s₀ ∧ Reachable s₀ s
      ∧ render usualIndent (forest s.index.tables (some "a") 2) =
        "a  [a.v]\n    u : b\n        x : a  (recursive)\n    v : ip  (black box)\n    w : b\n" ++
          "        x : a  (recursive)"
      ∧ (∀ m, (∃ tree ∈ forest s.index.tables (some "a") 2, tree.module? = some m) ↔
        s.index.module? m.name = some m ∧ ∀ name ∈ some "a".toList, m.name = name)
      ∧ ∀ tree ∈ forest s.index.tables (some "a") 2, ∀ above n, tree.Stands above n →
        n.Unfolds s.index.tables 2 above := by
  intro s₀ s
  have hcreate : create ⟨[], "/p"⟩ "/p" {} = .ok s₀ := rfl
  have hs : Reachable s₀ s := reachable_run .start _
  have hrender : render usualIndent (forest s.index.tables (some "a") 2) =
      "a  [a.v]\n    u : b\n        x : a  (recursive)\n    v : ip  (black box)\n    w : b\n" ++
        "        x : a  (recursive)" := by decide +kernel
  clear_value s
  exact ⟨hcreate, hs, hrender, forest_unfolds (fresh_create hcreate) hs (some "a") 2⟩

end Session

end VerilogIndex
