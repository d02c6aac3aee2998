import VerilogIndex.Proofs.ModuleSources

/-!
# The order of ports in a table

Sorting by rank keeps ports of one rank in their order. So what it gives are the ports of the least
rank as they were declared, then those of the next one, and so on (`mergeSort_eq_flatMap`): the
clocks and resets by direction, and after them the other ports by direction. Main statement:
`sortPorts_groups`.
-/

namespace VerilogIndex.Generate

/-! ## Sorting by a key -/

section Keys

variable {α κ : Type}

/-- A sort keeps the order of members of which any two may stand in either order. -/
theorem filter_mergeSort {le : α → α → Bool} (htrans : ∀ a b c, le a b → le b c → le a c)
    (htotal : ∀ a b, le a b || le b a) {p : α → Bool} (hp : ∀ a b, p a → p b → le a b)
    (l : List α) : (l.mergeSort le).filter p = l.filter p := by
  have hties : (l.filter p).Pairwise (fun a b => le a b) :=
    List.pairwise_of_forall_mem_list fun a ha b hb =>
      hp a b (List.of_mem_filter ha) (List.of_mem_filter hb)
  have hsub : ((l.filter p).filter p).Sublist ((l.mergeSort le).filter p) :=
    (List.sublist_mergeSort htrans htotal hties List.filter_sublist).filter p
  rw [List.filter_filter, List.filter_congr fun a _ => Bool.and_self (p a)] at hsub
  exact (hsub.eq_of_length ((List.mergeSort_perm l le).filter p).length_eq.symm).symm

/-- Where the members that have a property come first, they are a part of their own. -/
theorem filter_append_filter_not {p : α → Bool} : ∀ {l : List α},
    l.Pairwise (fun a b => p b → p a) → l.filter p ++ l.filter (fun a => !p a) = l
  | [], _ => rfl
  | a :: l, h => by
    obtain ⟨hhead, htail⟩ := List.pairwise_cons.1 h
    rcases ha : p a with _ | _
    · have hnone : ∀ b ∈ l, ¬p b := fun b hb hp => by simpa [ha] using hhead b hb hp
      have hall : ∀ b ∈ l, (!p b) = true := fun b hb => by simpa using hnone b hb
      simp [ha, List.filter_eq_nil_iff.2 hnone, List.filter_eq_self.2 hall]
    · simpa [ha] using filter_append_filter_not htail

variable [DecidableEq κ] {key : α → κ} {le : κ → κ → Bool}

/-- A list in the order of its keys is made of one part for each key. -/
theorem flatMap_filter_of_pairwise (hrefl : ∀ k, le k k = true) : ∀ {ks : List κ} {l : List α},
    ks.Pairwise (fun j k => le k j = false) → (∀ a ∈ l, key a ∈ ks) →
    l.Pairwise (fun a b => le (key a) (key b)) →
    (ks.flatMap fun k => l.filter fun a => key a == k) = l
  | [], l, _, hmem, _ => by
    rw [List.eq_nil_iff_forall_not_mem.2 fun a ha => List.not_mem_nil (hmem a ha)]
    rfl
  | k :: ks, l, hks, hmem, hl => by
    obtain ⟨hleast, hks⟩ := List.pairwise_cons.1 hks
    have hne : k ∉ ks := fun hk => by simpa [hrefl k] using hleast k hk
    -- no other key is as low as the first, so its part comes first
    have hfirst : l.Pairwise (fun a b => (key b == k) = true → (key a == k) = true) := by
      refine hl.imp_of_mem fun {a b} ha _ hab hb => ?_
      rw [beq_iff_eq] at hb ⊢
      rw [hb] at hab
      rcases List.mem_cons.1 (hmem a ha) with h | h
      · exact h
      · rw [hleast _ h] at hab
        cases hab
    let rest := l.filter fun a => !(key a == k)
    have hrest : (ks.flatMap fun j => rest.filter fun a => key a == j) = rest := by
      refine flatMap_filter_of_pairwise hrefl hks (fun a ha => ?_) (hl.sublist List.filter_sublist)
      obtain ⟨ha, hk⟩ := List.mem_filter.1 ha
      exact (List.mem_cons.1 (hmem a ha)).resolve_left (by simpa using hk)
    have hothers : ∀ j ∈ ks, (l.filter fun a => key a == j) = rest.filter fun a => key a == j := by
      intro j hj
      rw [List.filter_filter]
      refine List.filter_congr fun a _ => ?_
      by_cases ha : key a = j
      · have hjk : j ≠ k := fun h => hne (h ▸ hj)
        simp [ha, hjk]
      · simp [ha]
    calc ((k :: ks).flatMap fun j => l.filter fun a => key a == j)
        = (l.filter fun a => key a == k)
            ++ ks.flatMap fun j => rest.filter fun a => key a == j := by
          rw [List.flatMap_cons, List.flatMap_congr hothers]
      _ = l := by rw [hrest, filter_append_filter_not hfirst]

/-- Sorting by a key gives the members of each key in their order, one key after the other. -/
theorem mergeSort_eq_flatMap (key : α → κ) (le : κ → κ → Bool)
    (htrans : ∀ i j k, le i j → le j k → le i k) (htotal : ∀ j k, le j k || le k j) {ks : List κ}
    (hks : ks.Pairwise (fun j k => le k j = false)) {l : List α} (hmem : ∀ a ∈ l, key a ∈ ks) :
    (l.mergeSort fun a b => le (key a) (key b)) =
      ks.flatMap fun k => l.filter fun a => key a == k := by
  have hrefl : ∀ k, le k k = true := fun k => by simpa using htotal k k
  have htrans' : ∀ a b c : α, le (key a) (key b) → le (key b) (key c) → le (key a) (key c) :=
    fun a b c => htrans _ _ _
  have htotal' : ∀ a b : α, le (key a) (key b) || le (key b) (key a) := fun a b => htotal _ _
  have hties : ∀ k, ((l.mergeSort fun a b => le (key a) (key b)).filter fun a => key a == k) =
      l.filter fun a => key a == k := fun k => by
    refine filter_mergeSort htrans' htotal' (fun a b ha hb => ?_) l
    rw [beq_iff_eq.1 ha, beq_iff_eq.1 hb, hrefl]
  rw [← flatMap_filter_of_pairwise hrefl hks (fun a ha => hmem a (List.mem_mergeSort.1 ha))
    (List.pairwise_mergeSort htrans' htotal' l)]
  exact List.flatMap_congr fun k _ => hties k

end Keys

/-! ## Ports -/

/-- The name of the port is that of a clock or a reset. -/
def isTiming (isClock isReset : Text → Bool) (p : Port) : Bool :=
  isClock p.name || isReset p.name

/-- The clocks and resets of a direction, or the other ports of the direction, as they come. -/
def portGroup (isClock isReset : Text → Bool) (timing : Bool) (d : Direction)
    (ports : List Port) : List Port :=
  ports.filter fun p => isTiming isClock isReset p == timing && p.direction == d

def groupOf (isClock isReset : Text → Bool) (p : Port) : Bool × Direction :=
  (isTiming isClock isReset p, p.direction)

/-- The groups of ports in the order of a table. -/
def groupKeys : List (Bool × Direction) :=
  [(true, .input), (true, .output), (true, .inout), (false, .input), (false, .output),
    (false, .inout)]

/-- The rank of the ports of a group. -/
def groupRank (g : Bool × Direction) : Nat × Nat := (if g.1 then 0 else 1, directionRank g.2)

theorem rankLe_trans {a b c : Nat × Nat} (hab : rankLe a b = true) (hbc : rankLe b c = true) :
    rankLe a c = true := by
  simp only [rankLe, Bool.or_eq_true, Bool.and_eq_true, decide_eq_true_eq, beq_iff_eq] at *
  omega

theorem rankLe_total (a b : Nat × Nat) : (rankLe a b || rankLe b a) = true := by
  simp only [rankLe, Bool.or_eq_true, Bool.and_eq_true, decide_eq_true_eq, beq_iff_eq]
  omega

section Sorting

variable {n : Naming} {isClock isReset : Text → Bool} (hclock : n.clock = .names isClock)
  (hreset : n.reset = .names isReset)
include hclock hreset

theorem Naming.rank_eq (p : Port) :
    n.rank p = .ok (groupRank (groupOf isClock isReset p)) := by
  rcases hc : isClock p.name with _ | _ <;>
    simp [rank, isSpecial, Search.finds, hclock, hreset, hc, groupOf, isTiming, groupRank, bind,
      Except.bind, pure, Except.pure]

theorem Naming.sortPorts_eq_mergeSort (ports : List Port) : n.sortPorts ports =
    .ok (ports.mergeSort fun p q => rankLe (groupRank (groupOf isClock isReset p))
      (groupRank (groupOf isClock isReset q))) := by
  let ranked (p : Port) := (groupRank (groupOf isClock isReset p), p)
  have hranks : (ports.mapM fun p => do return (← n.rank p, p)) = Except.ok (ports.map ranked) := by
    simp only [n.rank_eq hclock hreset]
    exact List.mapM_pure
  have hsort : (ports.mergeSort fun p q => rankLe (ranked p).1 (ranked q).1).map ranked =
      (ports.map ranked).mergeSort fun a b => rankLe a.1 b.1 :=
    List.map_mergeSort fun _ _ _ _ => rfl
  rw [sortPorts, hranks]
  refine congrArg Except.ok ?_
  rw [← hsort, List.map_map]
  exact List.map_id _

theorem Naming.sortPorts_eq_groups (ports : List Port) : n.sortPorts ports =
    .ok (groupKeys.flatMap fun g => portGroup isClock isReset g.1 g.2 ports) := by
  have hmem : ∀ p ∈ ports, groupOf isClock isReset p ∈ groupKeys := by
    intro p _
    rw [groupOf]
    rcases isTiming isClock isReset p <;> cases p.direction <;> decide
  rw [n.sortPorts_eq_mergeSort hclock hreset, mergeSort_eq_flatMap (groupOf isClock isReset)
    (fun g h => rankLe (groupRank g) (groupRank h)) (fun _ _ _ => rankLe_trans)
    (fun _ _ => rankLe_total _ _) (by decide) hmem]
  refine congrArg Except.ok (List.flatMap_congr fun g _ => List.filter_congr fun p _ => ?_)
  rw [Bool.eq_iff_iff]
  simp [groupOf, Prod.ext_iff]

theorem Naming.perm_sortPorts {ports sorted : List Port} (h : n.sortPorts ports = .ok sorted) :
    sorted.Perm ports := by
  rw [n.sortPorts_eq_mergeSort hclock hreset] at h
  cases h
  exact List.mergeSort_perm _ _

theorem Naming.portGroup_sortPorts {ports sorted : List Port} (h : n.sortPorts ports = .ok sorted)
    (timing : Bool) (d : Direction) :
    portGroup isClock isReset timing d sorted = portGroup isClock isReset timing d ports := by
  rw [n.sortPorts_eq_mergeSort hclock hreset] at h
  cases h
  apply filter_mergeSort
  · exact fun _ _ _ => rankLe_trans
  · exact fun _ _ => rankLe_total _ _
  · intro p q hp hq
    simp only [Bool.and_eq_true, beq_iff_eq] at hp hq
    rw [groupOf, groupOf, hp.1, hp.2, hq.1, hq.2]
    simp [rankLe]

end Sorting

/-- The table of ports, whatever names the two searches find: first come the clocks and resets among
the inputs, the outputs and the ports of both directions, and then the other ports in the same way,
each group as it was declared. So every port comes as often as it was declared, and ports that are
sorted stay as they are. -/
theorem Naming.sortPorts_groups {n : Naming} {isClock isReset : Text → Bool}
    (hclock : n.clock = .names isClock) (hreset : n.reset = .names isReset) (ports : List Port) :
    let group := portGroup isClock isReset
    ∃ sorted, n.sortPorts ports = .ok sorted
      ∧ sorted = group true .input ports ++ group true .output ports ++ group true .inout ports
        ++ group false .input ports ++ group false .output ports ++ group false .inout ports
      ∧ sorted.Perm ports
      ∧ (∀ timing d, group timing d sorted = group timing d ports)
      ∧ n.sortPorts sorted = .ok sorted := by
  intro group
  obtain ⟨sorted, hsorted⟩ : ∃ sorted, n.sortPorts ports = .ok sorted :=
    ⟨_, n.sortPorts_eq_groups hclock hreset ports⟩
  have hgroups := n.portGroup_sortPorts hclock hreset hsorted
  have heq : sorted = groupKeys.flatMap fun g => portGroup isClock isReset g.1 g.2 ports := by
    rw [n.sortPorts_eq_groups hclock hreset] at hsorted
    exact (Except.ok.inj hsorted).symm
  refine ⟨sorted, hsorted, ?_, n.perm_sortPorts hclock hreset hsorted, hgroups, ?_⟩
  · simp [heq, groupKeys, group]
  · rw [n.sortPorts_eq_groups hclock hreset, List.flatMap_congr fun g _ => hgroups g.1 g.2, ← heq]

/-- Two ports of one name and range, two of one name, and a port that both searches find. The clocks
are those whose names end in a small letter, which no search without case can tell. -/
theorem Naming.sortPorts_groups_repeated :
    let isClock : Text → Bool := fun t => t.getLast? == some 'k'
    let n : Naming := ⟨.names isClock, .ofPattern "rs"⟩
    let ports : List Port := [⟨"io", .inout, []⟩, ⟨"q", .output, []⟩, ⟨"d", .input, []⟩,
      ⟨"q", .output, "[7:0]"⟩, ⟨"cRSk", .output, []⟩, ⟨"rst", .inout, []⟩, ⟨"cK", .input, []⟩,
      ⟨"ck", .input, []⟩, ⟨"d", .input, []⟩]
    n.sortPorts ports = .ok [⟨"ck", .input, []⟩, ⟨"cRSk", .output, []⟩, ⟨"rst", .inout, []⟩,
      ⟨"d", .input, []⟩, ⟨"cK", .input, []⟩, ⟨"d", .input, []⟩, ⟨"q", .output, []⟩,
      ⟨"q", .output, "[7:0]"⟩, ⟨"io", .inout, []⟩] := by
  intro isClock n ports
  have hread : Pattern.read "rs" = .ok (.seq (.one 'r') (.one 's')) := by decide +kernel
  obtain ⟨sorted, hsorted, heq, -⟩ :=
    sortPorts_groups (n := n) rfl (Search.ofPattern_eq hread) ports
  rw [hsorted, heq]
  decide +kernel

end VerilogIndex.Generate
