import VerilogIndex.Proofs.Unfolding

/-!
# Depths that cut nothing

An unfolding without a depth is cut at types that are not in the index and where a module would
stand below itself, and nowhere else (`Node.Whole`). The modules of a branch have different names
and are in the index, so there are at most as many of them as the index has modules. With that depth
the names above a node and the depth that is left always make up for the whole index
(`Hierarchy.Room`), so that the unfolding is whole, and it is the only one that is.

Main statement: `forest_of_size_le`.
-/

namespace VerilogIndex

namespace Node

/-- The node of an instance below modules of the names `above`, unfolded as far as it can be. -/
inductive Whole (t : Tables) : (above : List Text) → Node → Prop
  | blackBox {above : List Text} {i : Instance} (hm : t.module? i.type = none) :
      Whole t above (.blackBox i)
  | recursive {above : List Text} {i : Instance} {m : Module} (hm : t.module? i.type = some m)
      (hmem : m.name ∈ above) : Whole t above (.recursive i m)
  | inner {above : List Text} {i : Instance} {m : Module} {cs : List Node}
      (hm : t.module? i.type = some m) (hnew : m.name ∉ above)
      (hcs : cs.map instance? = m.instances.map some)
      (hwhole : ∀ c ∈ cs, Whole t (m.name :: above) c) : Whole t above (.inner i m cs)

/-- The tree of the module, unfolded as far as it can be. -/
def WholeTree (t : Tables) (m : Module) (tree : Node) : Prop :=
  ∃ cs, tree = .root m cs ∧ cs.map instance? = m.instances.map some ∧ ∀ c ∈ cs, Whole t [m.name] c

/-- Nodes that a function makes of their instances are the function on the instances. -/
theorem eq_map_of_instances {f : Instance → Node} : ∀ {cs : List Node} {is : List Instance},
    cs.map instance? = is.map some → (∀ c ∈ cs, ∀ i, c.instance? = some i → c = f i) → cs = is.map f
  | [], [], _, _ => rfl
  | [], _ :: _, h, _ => by simp at h
  | _ :: _, [], h, _ => by simp at h
  | c :: cs, i :: is, h, hf => by
    rw [List.map_cons, List.map_cons, List.cons.injEq] at h
    rw [List.map_cons, hf c List.mem_cons_self i h.1,
      eq_map_of_instances h.2 fun d hd => hf d (List.mem_cons_of_mem c hd)]

/-- The node stands in a tree that is unfolded as far as it can be. -/
def Complete (t : Tables) (n : Node) : Prop := (∃ m, WholeTree t m n) ∨ ∃ above, Whole t above n

theorem Complete.children {t : Tables} {n : Node} (h : n.Complete t) :
    (∀ c ∈ n.children, c.Complete t) ∧ ∀ m, n.module? = some m → n.isRecursive = false →
      n.children.map instance? = m.instances.map some := by
  rcases h with ⟨m, cs, rfl, hcs, hwhole⟩ | ⟨above, hwhole⟩
  · refine ⟨fun c hc => .inr ⟨_, hwhole c hc⟩, fun m' hm _ => ?_⟩
    cases hm
    exact hcs
  · cases hwhole with
    | blackBox => exact ⟨by simp [Node.children], fun m hm => by cases hm⟩
    | recursive => exact ⟨by simp [Node.children], fun m _ hr => by cases hr⟩
    | inner _ _ hcs hwhole =>
      refine ⟨fun c hc => .inr ⟨_, hwhole c hc⟩, fun m' hm _ => ?_⟩
      cases hm
      exact hcs

theorem Complete.of_stands {t : Tables} {tree n : Node} {above : List Node} (h : tree.Complete t)
    (hn : tree.Stands above n) : n.Complete t := by
  induction hn with
  | root => exact h
  | child _ hc ih => exact ih.children.1 _ hc

end Node

namespace Hierarchy

open Node

variable {t : Tables}

/-- The names are of different modules of the index, and the depth that is left is enough for all
the others. -/
structure Room (t : Tables) (depth : Nat) (above : List Text) : Prop where
  indexed : ∀ name ∈ above, name ∈ t.modules.keys
  distinct : above.Nodup
  enough : t.size ≤ above.length + depth

/-- A module that is new on a branch leaves something of the depth, and room below it. -/
theorem Room.below {depth : Nat} {above : List Text} (h : Room t depth above) {m : Module}
    (hm : t.module? m.name = some m) (hnew : m.name ∉ above) :
    ∃ d, depth = d + 1 ∧ Room t d (m.name :: above) := by
  have hindexed : ∀ name ∈ m.name :: above, name ∈ t.modules.keys :=
    List.forall_mem_cons.2 ⟨Table.mem_keys_iff.2 ⟨m, hm⟩, h.indexed⟩
  have hdistinct : (m.name :: above).Nodup := List.nodup_cons.2 ⟨hnew, h.distinct⟩
  have hlength : above.length + 1 ≤ t.size := by
    have := hdistinct.length_le_of_subset hindexed
    rwa [Table.keys, List.length_map] at this
  have henough := h.enough
  refine ⟨depth - 1, by omega, hindexed, hdistinct, ?_⟩
  rw [List.length_cons]
  omega

section Named

variable (ht : t.Named)
include ht

theorem Room.below_type {depth : Nat} {above : List Text} (h : Room t depth above) {i : Instance}
    {m : Module} (hm : t.module? i.type = some m) (hnew : m.name ∉ above) :
    ∃ d, depth = d + 1 ∧ Room t d (m.name :: above) :=
  h.below (by rw [ht _ _ hm, hm]) hnew

/-- With room for it an instance is unfolded as far as it can be. -/
theorem whole_ofInstance : ∀ {depth : Nat} {above : List Text}, Room t depth above →
    ∀ i, Whole t above (ofInstance t depth above i) := by
  intro depth
  induction depth with
  | zero =>
    intro above hroom i
    obtain ⟨hm, he⟩ | ⟨m, hm, ⟨hmem, he⟩ | ⟨hnew, -⟩⟩ := ofInstance_cases t 0 above i
    · exact he ▸ .blackBox hm
    · exact he ▸ .recursive hm hmem
    · obtain ⟨d, hd, -⟩ := hroom.below_type ht hm hnew
      omega
  | succ depth ih =>
    intro above hroom i
    obtain ⟨hm, he⟩ | ⟨m, hm, ⟨hmem, he⟩ | ⟨hnew, he⟩⟩ := ofInstance_cases t (depth + 1) above i
    · exact he ▸ .blackBox hm
    · exact he ▸ .recursive hm hmem
    · obtain ⟨d, hd, hbelow⟩ := hroom.below_type ht hm hnew
      obtain rfl : depth = d := by omega
      rw [he]
      refine .inner hm hnew (instances_unfold t depth _ m) fun c hc => ?_
      rw [unfold_succ, List.mem_map] at hc
      obtain ⟨j, -, rfl⟩ := hc
      exact ih hbelow j

/-- With room for it no other node of an instance is unfolded as far as it can be. -/
theorem eq_ofInstance_of_whole {above : List Text} {n : Node} (h : Whole t above n) :
    ∀ {depth : Nat}, Room t depth above → ∀ i, n.instance? = some i →
      n = ofInstance t depth above i := by
  induction h with
  | blackBox hm =>
    rintro depth - i ⟨⟩
    rw [ofInstance, hm, Option.elim_none]
  | recursive hm hmem =>
    rintro depth - i ⟨⟩
    rw [ofInstance, hm, Option.elim_some, if_pos (List.contains_iff_mem.2 hmem)]
  | inner hm hnew hcs _ ih =>
    rintro depth hroom i ⟨⟩
    obtain ⟨d, rfl, hbelow⟩ := hroom.below_type ht hm hnew
    rw [ofInstance, hm, Option.elim_some, if_neg (mt List.contains_iff_mem.1 hnew), unfold_succ,
      eq_map_of_instances hcs fun c hc => ih c hc hbelow]

/-- At a depth of the size of the index, the tree of a module is the one that is unfolded as far as
it can be. -/
theorem wholeTree_iff {m : Module} (hm : t.module? m.name = some m) {depth : Nat}
    (hd : t.size ≤ depth) (tree : Node) : WholeTree t m tree ↔ tree = ofModule t depth m := by
  have hroot : Room t depth [] := ⟨by simp, List.nodup_nil, by simpa using hd⟩
  obtain ⟨d, rfl, hroom⟩ := hroot.below hm List.not_mem_nil
  constructor
  · rintro ⟨cs, rfl, hcs, hwhole⟩
    rw [ofModule, unfold_succ,
      eq_map_of_instances hcs fun c hc => eq_ofInstance_of_whole ht (hwhole c hc) hroom]
  · rintro rfl
    refine ⟨_, rfl, instances_unfold t d _ m, fun c hc => ?_⟩
    rw [unfold_succ, List.mem_map] at hc
    obtain ⟨i, -, rfl⟩ := hc
    exact whole_ofInstance ht hroom i

end Named

/-- The modules that a forest unfolds. -/
def roots (t : Tables) (top : Option Text) : List Module :=
  top.elim t.sortedModules fun name => (t.module? name).toList

theorem forest_eq_map (t : Tables) (top : Option Text) (depth : Nat) :
    forest t top depth = (roots t top).map (ofModule t depth) := by
  cases top <;> rfl

theorem module?_of_mem_roots (ht : t.Named) {top : Option Text} {m : Module} (h : m ∈ roots t top) :
    t.module? m.name = some m := by
  refine ((exists_root_iff ht top 0 m).1 ⟨ofModule t 0 m, ?_, rfl⟩).1
  rw [forest_eq_map]
  exact List.mem_map_of_mem h

/-- A relation that is a function on the members of a list is the function on the list. -/
theorem forall₂_iff_eq_map {α β : Type} {R : α → β → Prop} {f : α → β} :
    ∀ {as : List α} {bs : List β}, (∀ a ∈ as, ∀ b, R a b ↔ b = f a) →
      (List.Forall₂ R as bs ↔ bs = as.map f)
  | [], bs, _ => by simp
  | a :: as, [], _ => by simp
  | a :: as, b :: bs, h => by
    rw [List.forall₂_cons, h a List.mem_cons_self,
      forall₂_iff_eq_map fun a' ha => h a' (List.mem_cons_of_mem a ha), List.map_cons,
      List.cons.injEq]

theorem forall₂_wholeTree_iff (ht : t.Named) (top : Option Text) {depth : Nat}
    (hd : t.size ≤ depth) (trees : List Node) :
    List.Forall₂ (WholeTree t) (roots t top) trees ↔ trees = forest t top depth := by
  rw [forest_eq_map]
  exact forall₂_iff_eq_map fun m hm tree => wholeTree_iff ht (module?_of_mem_roots ht hm) hd tree

end Hierarchy

namespace Session

open Hierarchy

/-- In every session that comes of an empty one, for any name asked for or none: a depth of at least
the number of modules of the index gives the forest of that number. In it every node that has a
module, and is not recursive, has a child for each instance of the module. So nothing is cut by the
depth, and the forest is the only one that is unfolded as far as it can be. -/
theorem forest_of_size_le {s₀ s : Session} (h₀ : s₀.Fresh) (hs : Reachable s₀ s)
    (top : Option Text) {depth : Nat} (hd : s.index.tables.size ≤ depth) :
    forest s.index.tables top depth = forest s.index.tables top s.index.tables.size
      ∧ (∀ tree ∈ forest s.index.tables top s.index.tables.size, ∀ above n m, tree.Stands above n →
        n.module? = some m → n.isRecursive = false →
          n.children.map Node.instance? = m.instances.map some)
      ∧ ∀ trees, List.Forall₂ (Node.WholeTree s.index.tables) (roots s.index.tables top) trees ↔
        trees = forest s.index.tables top s.index.tables.size := by
  have ht := hs.named h₀
  have hwhole := forall₂_wholeTree_iff ht top (le_refl s.index.tables.size)
  refine ⟨?_, fun tree htree above n m hn => ?_, hwhole⟩
  · rw [← hwhole, forall₂_wholeTree_iff ht top hd]
  · rw [forest_eq_map, List.mem_map] at htree
    obtain ⟨r, hr, rfl⟩ := htree
    have hroot : (ofModule s.index.tables s.index.tables.size r).Complete s.index.tables :=
      .inl ⟨r, (wholeTree_iff ht (module?_of_mem_roots ht hr) le_rfl _).2 rfl⟩
    exact (hroot.of_stands hn).children.2 m

/-- Two modules that instantiate each other: a depth of one cuts the tree of either, a depth of two
does not, and five is no different from two. -/
theorem forest_of_size_le_circle :
    let s₀ : Session := { disk := ⟨[], "/p"⟩, index := { root := "/p" } }
    let s := s₀.run [.updateText "/p/a.v" "module a; b u (); endmodule",
      .updateText "/p/b.v" "module b; a x (); ip y (); endmodule"]
    create ⟨[], "/p"⟩ "/p" {} = .ok s₀ ∧ Reachable s₀ s ∧ s.index.tables.size = 2
      ∧ render usualIndent (forest s.index.tables (some "a") 1) = "a  [a.v]\n    u : b"
      ∧ render usualIndent (forest s.index.tables (some "a") 2) =
        "a  [a.v]\n    u : b\n        x : a  (recursive)\n        y : ip  (black box)"
      ∧ forest s.index.tables (some "a") 5 = forest s.index.tables (some "a") 2
      ∧ (∀ tree ∈ forest s.index.tables (some "a") 2, ∀ above n m, tree.Stands above n →
        n.module? = some m → n.isRecursive = false →
          n.children.map Node.instance? = m.instances.map some)
      ∧ ∀ trees, List.Forall₂ (Node.WholeTree s.index.tables) (roots s.index.tables (some "a"))
        trees ↔ trees = forest s.index.tables (some "a") 2 := by
  intro s₀ s
  have hcreate : create ⟨[], "/p"⟩ "/p" {} = .ok s₀ := rfl
  have hs : Reachable s₀ s := reachable_run .start _
  have hrun : s.index.tables.size = 2
      ∧ render usualIndent (forest s.index.tables (some "a") 1) = "a  [a.v]\n    u : b"
      ∧ render usualIndent (forest s.index.tables (some "a") 2) =
        "a  [a.v]\n    u : b\n        x : a  (recursive)\n        y : ip  (black box)" := by
    decide +kernel
  clear_value s
  obtain ⟨hsize, hone, htwo⟩ := hrun
  have hfive : s.index.tables.size ≤ 5 := by omega
  have hall := forest_of_size_le (fresh_create hcreate) hs (some "a") hfive
  rw [hsize] at hall
  exact ⟨hcreate, hs, hsize, hone, htwo, hall⟩

end Session

end VerilogIndex
