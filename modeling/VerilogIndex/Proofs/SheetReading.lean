import VerilogIndex.Proofs.PortOrder

/-!
# Sheets are read

Comma-separated values are read character by character (`Csv.Reader.step`): a comma ends a field and
a line feed ends a record, unless they stand between quotes, and there a quote is written twice. The
reader takes no text in which a quote stands anywhere else, nor one that breaks off in a record.

What a field holds is read off its text whatever it holds (`run_field`), so records can be told from
each other, the empty one included; only a record of one empty field is written like it, and a sheet
has none. Main statement: a sheet gives back the parameters and the sorted ports of the module
(`Sheet.decode_render`).
-/

namespace VerilogIndex.Generate

open Text

namespace Csv

/-- Where a reader of comma-separated values stands. -/
inductive Place where
  /-- Before a record. -/
  | record
  /-- After a comma. -/
  | field
  /-- In a field that has no quotes around it. -/
  | bare
  | quoted
  /-- After a quote in a quoted field: the field ends there unless another quote follows. -/
  | closed
  deriving DecidableEq, Repr

/-- What a reader has read: whole records, fields of the next record, and the field that has
begun. -/
structure Reader where
  place : Place := .record
  begun : Text := []
  fields : List Text := []
  records : List (List Text) := []
  deriving DecidableEq, Repr

namespace Reader

def endField (s : Reader) : Reader :=
  { s with place := .field, begun := [], fields := s.fields ++ [s.begun] }

/-- Nothing before the line feed makes the record without fields. -/
def endRecord (s : Reader) : Reader where
  records := s.records ++ [if s.place = .record then [] else s.fields ++ [s.begun]]

/-- Reads one character. -/
def step (s : Reader) (c : Char) : Option Reader :=
  if s.place = .quoted then
    if c = '"' then some { s with place := .closed } else some { s with begun := s.begun ++ [c] }
  else if c = '"' then
    match s.place with
    | .record => some { s with place := .quoted }
    | .field => some { s with place := .quoted }
    | .closed => some { s with place := .quoted, begun := s.begun ++ ['"'] }
    | .bare => none
    | .quoted => none
  else if c = ',' then some s.endField
  else if c = '\n' then some s.endRecord
  else if s.place = .closed then none
  else some { s with place := .bare, begun := s.begun ++ [c] }

def run (s : Reader) (t : Text) : Option Reader := t.foldlM step s

end Reader

/-- The records of a text. -/
def decode (t : Text) : Option (List (List Text)) := do
  let s ← Reader.run {} t
  if s.place = .record then some s.records else none

namespace Reader

variable {s : Reader} (sheet : Sheet)

theorem run_cons (s : Reader) (c : Char) (t : Text) : s.run (c :: t) = (s.step c).bind (·.run t) :=
  List.foldlM_cons

theorem run_append (s : Reader) (a b : Text) : s.run (a ++ b) = (s.run a).bind (·.run b) :=
  List.foldlM_append

theorem step_comma (h : s.place ≠ .quoted) : s.step ',' = some s.endField := by
  simp [step, h]

theorem step_feed (h : s.place ≠ .quoted) : s.step '\n' = some s.endRecord := by
  simp [step, h]

/-! ## Fields -/

/-- What ends a field or begins a quoted one is quoted in any sheet. -/
theorem ne_of_not_quotes {c : Char} (h : sheet.quotes c = false) :
    c ≠ ',' ∧ c ≠ '"' ∧ c ≠ '\n' := by
  simp only [Sheet.quotes, Bool.or_eq_false_iff, beq_eq_false_iff_ne] at h
  exact ⟨h.1.1.1, h.1.1.2, h.1.2⟩

/-- Between quotes every character is one of the field, a quote if it is doubled. -/
theorem run_doubled : ∀ (t : Text) {s : Reader}, s.place = .quoted →
    s.run (t.flatMap fun c => if c = '"' then ['"', '"'] else [c]) =
      some { s with begun := s.begun ++ t }
  | [], s, _ => by simp [run]
  | c :: t, s, h => by
    have hnext : s.run (if c = '"' then ['"', '"'] else [c]) =
        some { s with begun := s.begun ++ [c] } := by
      split_ifs with hc
      · simp [run, step, h, hc]
      · simp [run, step, h, hc]
    rw [List.flatMap_cons, run_append, hnext, Option.bind_some, run_doubled t (by simpa using h)]
    simp

theorem run_bare : ∀ {t : Text} {s : Reader}, (s.place ≠ .quoted ∧ s.place ≠ .closed) → t ≠ [] →
    t.any sheet.quotes = false →
    s.run t = some { s with place := .bare, begun := s.begun ++ t }
  | [c], s, ⟨hq, hc⟩, _, ht => by
    obtain ⟨hcomma, hquote, hfeed⟩ := ne_of_not_quotes sheet (by simpa using ht)
    simp [run, step, hq, hc, hcomma, hquote, hfeed]
  | c :: d :: t, s, ⟨hq, hc⟩, _, ht => by
    rw [List.any_cons, Bool.or_eq_false_iff] at ht
    have hstep : s.step c = some { s with place := .bare, begun := s.begun ++ [c] } := by
      obtain ⟨hcomma, hquote, hfeed⟩ := ne_of_not_quotes sheet ht.1
      simp [step, hq, hc, hcomma, hquote, hfeed]
    rw [run_cons, hstep, Option.bind_some, run_bare (by simp) (by simp) ht.2]
    simp

/-- Where a field can begin, the text of a field is read as the field. If nothing was written for
it, the reader has not moved. -/
theorem run_field (hplace : s.place = .record ∨ s.place = .field) (hbegun : s.begun = [])
    (t : Text) :
    ∃ place, s.run (sheet.field t) = some { s with place, begun := t } ∧ place ≠ .quoted
      ∧ (place = .record → s.place = .record) := by
  have hopen : s.place ≠ .quoted ∧ s.place ≠ .closed := by
    rcases hplace with h | h <;> simp [h]
  rw [Sheet.field]
  split_ifs with ht
  · have hquote : s.run "\"" = some { s with place := .quoted } := by
      rcases hplace with h | h <;> simp [run, step, h]
    have hclose : Reader.run { s with place := .quoted, begun := t } "\"" =
        some { s with place := .closed, begun := t } := by simp [run, step]
    refine ⟨.closed, ?_, by simp, by simp⟩
    rw [List.append_assoc, run_append, hquote, Option.bind_some, run_append, run_doubled t rfl]
    simpa [hbegun] using hclose
  · rcases t with _ | ⟨c, t⟩
    · obtain ⟨place, begun, fields, records⟩ := s
      obtain rfl : begun = [] := hbegun
      exact ⟨place, rfl, hopen.1, id⟩
    · refine ⟨.bare, ?_, by simp, by simp⟩
      rw [run_bare sheet hopen (by simp) (by simpa using ht), hbegun, List.nil_append]

/-! ## Records -/

/-- A field and the comma after it. -/
theorem run_field_comma (hplace : s.place = .record ∨ s.place = .field) (hbegun : s.begun = [])
    (f t : Text) :
    s.run (sheet.field f ++ ',' :: t) =
      Reader.run { s with place := .field, begun := [], fields := s.fields ++ [f] } t := by
  obtain ⟨place, hrun, hquoted, -⟩ := run_field sheet hplace hbegun f
  rw [run_append, hrun, Option.bind_some, run_cons, step_comma hquoted]
  rfl

/-- The fields after a comma are read up to the line feed that ends the record. -/
theorem run_fields (records : List (List Text)) : ∀ {fs : List Text} (fields : List Text), fs ≠ [] →
    Reader.run { place := .field, fields, records }
        (joinWith [','] (fs.map sheet.field) ++ ['\n']) =
      some { records := records ++ [fields ++ fs] }
  | [f], fields, _ => by
    obtain ⟨place, hrun, hquoted, hrecord⟩ :=
      run_field sheet (s := { place := .field, fields, records }) (.inr rfl) rfl f
    have hne : place ≠ .record := fun h => by simpa using hrecord h
    rw [List.map_singleton, joinWith, run_append, hrun, Option.bind_some, run_cons,
      step_feed hquoted]
    simp [run, endRecord, hne]
  | f :: g :: fs, fields, _ => by
    have ih := run_fields records (fields ++ [f]) (List.cons_ne_nil g fs)
    rw [List.map_cons, List.map_cons, joinWith, List.append_assoc, List.append_assoc,
      List.singleton_append, run_field_comma sheet (.inr rfl) rfl, ← List.map_cons, ih,
      List.append_assoc, List.singleton_append]

/-- Any record but one of a single field is read as it was written. -/
theorem run_record {fs : List Text} (h : fs.length ≠ 1) (records : List (List Text)) :
    Reader.run { records } (sheet.record fs) = some { records := records ++ [fs] } := by
  rcases fs with _ | ⟨f, _ | ⟨g, fs⟩⟩
  · rfl
  · exact absurd rfl h
  · have hrest := run_fields sheet records [f] (List.cons_ne_nil g fs)
    rw [Sheet.record, List.map_cons, List.map_cons, joinWith, List.append_assoc, List.append_assoc]
    exact (run_field_comma sheet (.inl rfl) rfl f _).trans hrest

theorem run_records : ∀ {rs : List (List Text)}, (∀ fs ∈ rs, fs.length ≠ 1) →
    ∀ read : List (List Text), Reader.run { records := read } (rs.flatMap sheet.record) =
      some { records := read ++ rs }
  | [], _, read => by simp [run]
  | fs :: rs, h, read => by
    obtain ⟨hfs, hrs⟩ := List.forall_mem_cons.1 h
    rw [List.flatMap_cons, run_append, run_record sheet hfs, Option.bind_some, run_records hrs,
      List.append_assoc, List.singleton_append]

end Reader

theorem decode_records (sheet : Sheet) {rs : List (List Text)} (h : ∀ fs ∈ rs, fs.length ≠ 1) :
    decode (rs.flatMap sheet.record) = some rs := by
  rw [decode, Reader.run_records sheet h []]
  rfl

end Csv

/-! ## Sheets -/

namespace Sheet

/-- The record of a parameter. -/
def parameterRecord (p : Parameter) : List Text := [p.name, p.value]

/-- The record of a port. -/
def portRecord (p : Port) : List Text := [p.name, p.direction.text, p.type, p.bitRange]

/-- The records on a module with these parameters and these ports. -/
def records (parameters : List Parameter) (ports : List Port) : List (List Text) :=
  List.flatten (α := List Text) [
    [["Parameter Name", "Default Value"]],
    parameters.map parameterRecord,
    [[]],
    [["Port Name", "Direction", "Type", "Bit Range"]],
    ports.map portRecord]

theorem length_ne_one_of_mem_records {parameters : List Parameter} {ports : List Port}
    {fs : List Text} (h : fs ∈ records parameters ports) : fs.length ≠ 1 := by
  simp only [records, List.flatten_cons, List.flatten_nil, List.append_nil, List.mem_append,
    List.mem_singleton, List.mem_map] at h
  rcases h with rfl | ⟨p, -, rfl⟩ | rfl | rfl | ⟨p, -, rfl⟩ <;> simp [parameterRecord, portRecord]

theorem direction_text_injective : Function.Injective Direction.text := by
  intro d e h
  cases d <;> cases e <;> first | rfl | exact absurd h (by decide)

theorem parameterRecord_injective : Function.Injective parameterRecord := by
  rintro ⟨name, value⟩ ⟨name', value'⟩ h
  simp only [parameterRecord, List.cons.injEq] at h
  obtain ⟨rfl, rfl, -⟩ := h
  rfl

theorem portRecord_injective : Function.Injective portRecord := by
  rintro ⟨name, d, type⟩ ⟨name', d', type'⟩ h
  simp only [portRecord, List.cons.injEq] at h
  obtain ⟨rfl, hd, rfl, -⟩ := h
  rw [direction_text_injective hd]

/-- The only empty record is the one between the parameters and the ports. -/
theorem records_inj {ps ps' : List Parameter} {qs qs' : List Port}
    (h : records ps qs = records ps' qs') : ps = ps' ∧ qs = qs' := by
  have hparameters : [] ∉ ps.map parameterRecord := by simp [parameterRecord]
  have hports : [] ∉ ["Port Name".toList, "Direction".toList, "Type".toList, "Bit Range".toList]
      :: qs.map portRecord := by simp [portRecord]
  simp only [records, List.flatten_cons, List.singleton_append, List.cons.injEq, true_and,
    List.flatten_nil, List.append_nil] at h
  rw [List.append_cons_inj_of_notMem hparameters hports, List.cons.injEq] at h
  exact ⟨parameterRecord_injective.list_map h.1, portRecord_injective.list_map h.2.2.2⟩

theorem render_eq {s : Sheet} {m : Module} {ports : List Port}
    (h : s.naming.sortPorts m.ports = .ok ports) :
    s.render m = .ok ((records m.parameters ports).flatMap s.record) := by
  rw [render, h]
  rfl

/-- A sheet can be made if the two searches find names, and whenever the ports can be sorted.
Whether or not fields are quoted for carriage returns, its text is read as the heading of the
parameters, a record for each parameter, the empty record, the heading of the ports and a record for
each port in sorted order. So sheets on other parameters or other sorted ports are other texts. -/
theorem decode_render (s : Sheet) (m : Module) :
    (s.naming.Readable → ∃ ports, s.naming.sortPorts m.ports = .ok ports)
      ∧ ∀ ports, s.naming.sortPorts m.ports = .ok ports → ∃ t, s.render m = .ok t
        ∧ Csv.decode t = some (records m.parameters ports)
        ∧ ∀ (s' : Sheet) (m' : Module) (ports' : List Port),
          s'.naming.sortPorts m'.ports = .ok ports' →
          m'.parameters ≠ m.parameters ∨ ports' ≠ ports → s'.render m' ≠ .ok t := by
  have hdecode : ∀ (s : Sheet) ps qs, Csv.decode ((records ps qs).flatMap s.record) =
      some (records ps qs) :=
    fun s _ _ => Csv.decode_records s fun _ => length_ne_one_of_mem_records
  refine ⟨fun h => h.exists_sortPorts m.ports, fun ports h =>
    ⟨_, render_eq h, hdecode _ _ _, fun s' m' ports' h' hne heq => ?_⟩⟩
  have htext := Except.ok.inj ((render_eq h').symm.trans heq)
  have hrecords : records m'.parameters ports' = records m.parameters ports := by
    rw [← Option.some.injEq, ← hdecode s', htext, hdecode s]
  obtain ⟨hparameters, hports⟩ := records_inj hrecords
  exact hne.elim (· hparameters) (· hports)

/-- A default on two lines, quotes and commas in a default and a type, empty names, and a carriage
return, for which one of the sheets quotes the field. -/
theorem decode_render_quotes :
    let naming : Naming := .ofPatterns "ck" "rs"
    let m : Module := {
      name := "m", file := "m.sv", location := ⟨"m.sv", 0, 7, 1⟩
      parameters := [⟨"A", "f(1,\n  2)"⟩, ⟨"S", "\"a\",\"\""⟩, ⟨"R", "1\r2"⟩, ⟨[], []⟩]
      ports := [⟨"q", .output, "logic [A,B]"⟩, ⟨[], .inout, []⟩, ⟨"ck", .input, "\n"⟩] }
    let rs : List (List Text) := [
      ["Parameter Name", "Default Value"], ["A", "f(1,\n  2)"], ["S", "\"a\",\"\""],
      ["R", "1\r2"], [[], []], [], ["Port Name", "Direction", "Type", "Bit Range"],
      ["ck", "input", "\n", []], ["q", "output", "logic [A,B]", "[A,B]"], [[], "inout", [], []]]
    (∃ t, (⟨naming, false⟩ : Sheet).render m = .ok t ∧ Csv.decode t = some rs)
      ∧ ∃ t, (⟨naming, true⟩ : Sheet).render m = .ok t ∧ Csv.decode t = some rs := by
  intro naming m rs
  have hclock : Pattern.read "ck" = .ok (.seq (.one 'c') (.one 'k')) := by decide +kernel
  have hreset : Pattern.read "rs" = .ok (.seq (.one 'r') (.one 's')) := by decide +kernel
  have hsorted : naming.sortPorts m.ports = .ok [⟨"ck", .input, "\n"⟩,
      ⟨"q", .output, "logic [A,B]"⟩, ⟨[], .inout, []⟩] := by
    rw [Naming.sortPorts_eq_groups (Search.ofPattern_eq hclock) (Search.ofPattern_eq hreset)]
    decide +kernel
  obtain ⟨t, ht, hdecode, -⟩ := (decode_render ⟨naming, false⟩ m).2 _ hsorted
  obtain ⟨u, hu, hdecode', -⟩ := (decode_render ⟨naming, true⟩ m).2 _ hsorted
  exact ⟨⟨t, ht, hdecode⟩, u, hu, hdecode'⟩

end Sheet

end VerilogIndex.Generate
