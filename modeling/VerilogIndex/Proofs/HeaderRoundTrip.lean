import VerilogIndex.Proofs.Items
import VerilogIndex.Source.Read

/-!
# A written header is read back

No comment opens in a written header, its heading is the first of the text, and its blocks end at
their own parentheses. So the module that is read has the name, the parameters and the ports that
were written, whatever follows the semicolon. Main statement: `readModule_written`.
-/

namespace VerilogIndex.Source

open Text

/-! ## Heading -/

/-- Blanks before a heading are passed over. -/
theorem findHeadingFrom?_gap : ∀ {g : Text}, Gap g → ∀ (start : Nat) (t : Text),
    findHeadingFrom? start false (g ++ t) = findHeadingFrom? (start + g.length) false t
  | [], _, _, _ => rfl
  | c :: g, hg, start, t => by
    have hc := hg c List.mem_cons_self
    have hm : 'm' ≠ c := by
      rintro rfl
      revert hc
      decide
    have hnone : headingAt? start (c :: (g ++ t)) = none := by
      have : after? "module" (c :: (g ++ t)) = none := if_neg hm
      rw [headingAt?, this]
      rfl
    rw [List.cons_append, findHeadingFrom?, hnone, not_isWord_of_isBlank hc]
    simp only [Bool.false_eq_true, if_false]
    rw [findHeadingFrom?_gap (fun d hd => hg d (List.mem_cons_of_mem _ hd)), List.length_cons,
      Nat.add_right_comm, Nat.add_assoc]

theorem findHeading?_written {g₀ g name r : Text} (h₀ : Gap g₀) (hg : Gap g) (hne : g ≠ [])
    (hn : isIdentifier name = true) (hr : startsWord r = false) :
    ∃ h, findHeading? (g₀ ++ ("module" ++ (g ++ (name ++ r)))) = some h ∧ h.name = name
      ∧ h.rest = r := by
  obtain ⟨c, w, hw⟩ := List.exists_cons_of_ne_nil (ne_nil_of_isIdentifier hn)
  have hc : isBlank c = false :=
    not_isBlank_of_isWord (isWord_of_isIdentifier hn c (hw ▸ List.mem_cons_self))
  have htake : (g ++ (name ++ r)).takeWhile isBlank = g := by
    rw [List.takeWhile_append_of_pos hg, hw, List.cons_append,
      List.takeWhile_cons_of_neg (by simp [hc]), List.append_nil]
  have hdrop : (g ++ (name ++ r)).dropWhile isBlank = name ++ r := by
    rw [List.dropWhile_append_of_pos hg, hw, List.cons_append,
      List.dropWhile_cons_of_neg (by simp [hc])]
  have hat : headingAt? (0 + g₀.length) ("module" ++ (g ++ (name ++ r))) =
      some ⟨0 + g₀.length, 0 + g₀.length + 6 + g.length, name, r⟩ := by
    rw [headingAt?, after?_eq_some_iff.2 rfl]
    simp only [Option.bind_eq_bind, Option.bind_some, htake, hdrop, identifier?_append hn hr]
    rw [if_neg (by simpa using hne)]
  refine ⟨⟨0 + g₀.length, 0 + g₀.length + 6 + g.length, name, r⟩, ?_, rfl, rfl⟩
  rw [findHeading?, findHeadingFrom?_gap h₀]
  have hcons : ("module" : Text) ++ (g ++ (name ++ r)) = 'm' :: ("odule" ++ (g ++ (name ++ r))) :=
    rfl
  rw [hcons] at hat ⊢
  rw [findHeadingFrom?, if_neg (by decide), hat]

/-! ## Header -/

theorem headerEnd?_written {ps : List PortDeclaration} {t : Text} (h : WrittenEnd ps t)
    (parameters : Option Text) (u : Text) : ∃ b r, trimLeft (t ++ ';' :: u) = '(' :: r
      ∧ headerEnd? parameters ('(' :: r) = some ⟨parameters, b, u⟩ ∧ WrittenPorts ps b := by
  obtain ⟨hg, hb, hlen, hg'⟩ := h
  rename_i g g' b
  refine ⟨b, b ++ ')' :: (g' ++ ';' :: u), ?_, ?_, hb⟩
  · rw [List.append_assoc, trimLeft_append hg, List.cons_append, trimLeft_cons rfl,
      List.append_assoc, List.cons_append]
  · rw [headerEnd?, block?_nested hb.contained.nested hlen]
    simp only [Option.bind_eq_bind, Option.bind_some, trimLeft_append hg',
      trimLeft_cons (show isBlank ';' = false from rfl)]

theorem startsWord_end {ps : List PortDeclaration} {t : Text} (h : WrittenEnd ps t) (u : Text) :
    startsWord (t ++ u) = false := by
  obtain ⟨hg, -, -, -⟩ := h
  rw [List.append_assoc]
  exact startsWord_append hg fun _ => rfl

/-- What follows the name of a written header is read as a header with its parameters and ports. -/
theorem header?_written {name : Identifier} {ss : List Assignment} {ps : List PortDeclaration}
    {t : Text} (h : WrittenHeader name ss ps t) (u : Text) : ∃ g r b parameters,
      t ++ ';' :: u = "module" ++ (g ++ (name.1 ++ r)) ∧ Gap g ∧ g ≠ [] ∧ startsWord r = false
      ∧ header? r = some ⟨parameters, b, u⟩ ∧ WrittenPorts ps b
      ∧ parameters.elim [] Source.parameters = ss.map Assignment.parameter := by
  cases h with
  | @plain _ g t hg hne ht =>
    obtain ⟨b, r, htrim, hend, hb⟩ := headerEnd?_written ht none u
    refine ⟨g, t ++ ';' :: u, b, none, ?_, hg, hne, startsWord_end ht _, ?_, hb, rfl⟩
    · simp only [List.append_assoc]
    · rw [header?, htrim]
      exact hend
  | @parameters _ _ g g₁ g₂ a t hg hne h₁ h₂ ha hlen ht =>
    obtain ⟨b, r, htrim, hend, hb⟩ := headerEnd?_written ht (some a) u
    refine ⟨g, g₁ ++ '#' :: (g₂ ++ '(' :: (a ++ ')' :: (t ++ ';' :: u))), b, some a, ?_, hg, hne,
      startsWord_append h₁ fun _ => rfl, ?_, hb, parameters_written ha⟩
    · simp only [List.append_assoc, List.cons_append]
    · rw [header?, trimLeft_append h₁, trimLeft_cons rfl]
      simp only [trimLeft_append h₂, trimLeft_cons (show isBlank '(' = false from rfl),
        block?_nested ha.contained.nested hlen, Option.bind_eq_bind, Option.bind_some, htrim, hend]

theorem headerPorts_written {parameters : Option Text} {b u : Text} {ps : List PortDeclaration}
    (h : WrittenPorts ps b) : headerPorts ⟨parameters, b, u⟩ = ps.map PortDeclaration.port := by
  have hports := ports_written h
  cases h with
  | nil hg =>
    -- the body is searched for no names
    have hnames : ((splitTopLevel b).map trim).filter isIdentifier = [] := by
      rw [List.filter_eq_nil_iff]
      intro name hmem
      obtain ⟨t, ht, rfl⟩ := List.mem_map.1 hmem
      rw [trim_gap (gap_of_mem_splitTopLevel hg ht)]
      decide
    rw [headerPorts, hports]
    simp only [List.map_nil, hnames]
    rfl
  | cons =>
    rw [headerPorts, hports]
    rfl

/-! ## Module -/

theorem readModule_of_header {t : Text} {heading : Heading} {header : Header}
    (hh : findHeading? (blankComments t) = some heading) (hr : header? heading.rest = some header)
    (path : Text) : ∃ m, readModule t path = some m ∧ m.name = heading.name
      ∧ m.parameters = header.parameters.elim [] parameters ∧ m.ports = headerPorts header := by
  simp only [readModule, hh, hr, Option.bind_eq_bind, Option.bind_some]
  exact ⟨_, rfl, rfl, rfl, rfl⟩

/-- For any name, parameters and ports, and any text of a header with them: the module read from the
header, whatever stands after its semicolon, has that name and exactly these parameters and ports,
in order, the parts of each type one space apart. -/
theorem readModule_written {name : Identifier} {ss : List Assignment} {ps : List PortDeclaration}
    {g t : Text} (hg : Gap g) (h : WrittenHeader name ss ps t) (u path : Text) :
    ∃ m, readModule (g ++ (t ++ ';' :: u)) path = some m ∧ m.name = name.1
      ∧ m.parameters = ss.map Assignment.parameter ∧ m.ports = ps.map PortDeclaration.port := by
  have hfree : CommentFree (g ++ t) := ((Bare.of_gap hg).quiet.append h.contained.quiet).1
  obtain ⟨g', r, b, parameters, hsplit, hg', hne, hword, hheader, hb, hss⟩ :=
    header?_written h (blankComments u)
  obtain ⟨heading, hh, hname, hrest⟩ := findHeading?_written hg hg' hne name.2 hword
  have hcode : blankComments (g ++ (t ++ ';' :: u)) = g ++ ("module" ++ (g' ++ (name.1 ++ r))) := by
    rw [← List.append_assoc, blankComments_append hfree (by decide), List.append_assoc, hsplit]
  rw [← hcode] at hh
  rw [← hrest] at hheader
  obtain ⟨m, hm, hmname, hmparameters, hmports⟩ := readModule_of_header hh hheader path
  exact ⟨m, hm, hmname.trans hname, hmparameters.trans hss, hmports.trans (headerPorts_written hb)⟩

/-- Names that extend keywords, a value with commas in brackets and one with an equals sign, and a
range against the word before it are read back. -/
theorem readModule_written_extended_keywords :
    let t : Text := "module module_a\n#(parameter parameter_y =\x7ba, f(b, c)\x7d, w = 1==2)" ++
      "(input wire[w-1:0]input_x,\noutput y)"
    (∃ name ss ps, WrittenHeader name ss ps t)
      ∧ ∃ m, readModule ("\n" ++ (t ++ ';' :: "\nendmodule")) [] = some m ∧ m.name = "module_a"
        ∧ m.parameters = [⟨"parameter_y", "\x7ba, f(b, c)\x7d"⟩, ⟨"w", "1==2"⟩]
        ∧ m.ports = [⟨"input_x", .input, "wire [w-1:0]"⟩, ⟨"y", .output, []⟩] := by
  intro t
  have hnone : Gap [] := by decide
  have hspace : Gap [' '] := by decide
  have hfeed : Gap ['\n'] := by decide
  have hname : ∀ n ∈ (["module_a", "parameter_y", "w", "wire", "input_x", "y"] : List Text),
      isIdentifier n = true := by decide +kernel
  -- the values and the range
  have hcall : Nested true ("a, f" ++ '(' :: ("b, c" ++ [')'])) :=
    (Nested.of_plain (by decide)).append (.group .round (.of_plain (by decide)) .nil)
  let y : Assignment := ⟨⟨"parameter_y", hname _ (by simp)⟩, "\x7ba, f(b, c)\x7d",
    by decide +kernel, .group .curly hcall .nil, by decide +kernel⟩
  let w : Assignment := ⟨⟨"w", hname _ (by simp)⟩, "1==2", by decide +kernel, .of_plain (by decide),
    by decide +kernel⟩
  have hinside : (("w-1:0" : Text).all fun c =>
      !isBlank c && decide (c ∉ ['[', ']', '='])) = true := by decide +kernel
  let r : RangeText := ⟨"w-1:0", .of_plain (by decide), by simpa using hinside, by decide +kernel⟩
  let x : PortDeclaration :=
    ⟨.input, [.word ⟨"wire", hname _ (by simp)⟩, .range r], ⟨"input_x", hname _ (by simp)⟩⟩
  let z : PortDeclaration := ⟨.output, [], ⟨"y", hname _ (by simp)⟩⟩
  have hparameters : WrittenParameters [y, w]
      "parameter parameter_y =\x7ba, f(b, c)\x7d, w = 1==2" :=
    .mk (.keyword hnone hspace (by decide) (.mk hspace hnone hnone))
      (.cons (.bare hspace (show ("w" : Text) ≠ "parameter" by decide)
        (show ("w" : Text) ≠ "localparam" by decide) (.mk hspace hspace hnone)) .nil)
  have htype : WrittenType true x.type " wire[w-1:0]" :=
    .word hspace (by decide) (.range hnone (.nil hnone (by decide)))
  have hnotype : WrittenType true z.type " " := .nil hspace (by decide)
  have hports : List.Forall₂ WrittenPort [x, z] ["input wire[w-1:0]input_x", "\noutput y"] :=
    .cons (.mk hnone htype hnone) (.cons (.mk hfeed hnotype hnone) .nil)
  have hend : WrittenEnd [x, z] "(input wire[w-1:0]input_x,\noutput y)" :=
    .mk hnone (.cons hports) (by decide) hnone
  have ht : t = "module" ++ ([' '] ++ ("module_a" ++ (['\n'] ++ '#' :: ([] ++ '(' ::
      ("parameter parameter_y =\x7ba, f(b, c)\x7d, w = 1==2" ++ ')' ::
        "(input wire[w-1:0]input_x,\noutput y)"))))) := by rfl
  have hheader : WrittenHeader ⟨"module_a", hname _ (by simp)⟩ [y, w] [x, z] t := by
    rw [ht]
    exact .parameters hspace (by decide) hfeed hnone hparameters (by decide) hend
  exact ⟨⟨_, _, _, hheader⟩, readModule_written hfeed hheader "\nendmodule" []⟩

end VerilogIndex.Source
