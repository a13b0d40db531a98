import SourceRepair.Diagnostic.LintJson
import SourceRepair.Proofs.Json.Decoding
import SourceRepair.Proofs.Text.Trimming

/-!
# What a linter's output reports

The output is read whole or not at all. `Message.ShownBy` and `FileReport.ShownBy` say what a
message and a report look like in JSON, and nothing else is read as one (`Message.decode_eq_ok_iff`,
`FileReport.decode_eq_ok_iff`). A message is shown or it is `Message.Faulty`, in one field at
least.

`diagnosticsOfText_written` is about every text that writes a list of reports, however it is laid
out: the errors come out in their order if all reports are shown, and nothing does if one message is
faulty, whatever its severity and its file.
-/

namespace SourceRepair.Lint

open Json

/-! ## Messages -/

/-- The fields of a message, with what their values may be. -/
def Message.forms : List (String × (Outline → Prop)) :=
  [("ruleId", fun value => value = .null ∨ ∃ s, value.IsText s),
    ("severity", fun value => ∃ n, value.IsNat 256 n),
    ("line", fun value => value = .null ∨ ∃ n, value.IsNat Diagnostic.wordLimit n),
    ("column", fun value => value = .null ∨ ∃ n, value.IsNat Diagnostic.wordLimit n),
    ("message", fun value => ∃ s, value.IsText s)]

/-- The names of a message's fields. -/
def Message.names : List String :=
  ["ruleId", "severity", "line", "column", "message"]

/-- The outline shows the message. -/
def Message.ShownBy (m : Message) (outline : Outline) : Prop :=
  ∃ bound, outline.Binds Message.names bound ∧
    HasOption Outline.IsText bound "ruleId" m.rule ∧
    HasField (Outline.IsNat 256) bound "severity" m.severity ∧
    HasOption (Outline.IsNat Diagnostic.wordLimit) bound "line" m.line ∧
    HasOption (Outline.IsNat Diagnostic.wordLimit) bound "column" m.column ∧
    HasField Outline.IsText bound "message" m.text

/-- The outline should show a message and does not. -/
inductive Message.Faulty (outline : Outline) : Prop where
  /-- It is neither an object nor an array of fields, or it has a field twice. -/
  | kind (h : ∀ bound, ¬ outline.Binds Message.names bound)
  /-- The value of a field has a wrong type or is out of range. -/
  | value {bound : List (String × Outline)} {name : String} {form : Outline → Prop}
      {value : Outline} (hbinds : outline.Binds Message.names bound)
      (hform : (name, form) ∈ Message.forms) (hmem : (name, value) ∈ bound) (hwrong : ¬ form value)
  /-- It lacks a field that may not be missing. -/
  | missing {bound : List (String × Outline)} {name : String}
      (hbinds : outline.Binds Message.names bound) (hname : name = "severity" ∨ name = "message")
      (habsent : ∀ value, (name, value) ∉ bound)

theorem Message.names_nodup : Message.names.Nodup := by decide

/-- The fields of a message as they are read. -/
def Message.fields : List Field :=
  [.of "ruleId" .optional (.nullable .string), .of "severity" .required (.nat 256),
    .of "line" .optional position, .of "column" .optional position,
    .of "message" .required .string]

section Message

variable {m : Message} {outline : Outline} {bound : List (String × Outline)}

/-- The fields of a message that is shown are of their forms. -/
theorem Message.ShownBy.form_of_mem (h : m.ShownBy outline)
    (hbinds : outline.Binds Message.names bound) {name : String} {form : Outline → Prop}
    (hform : (name, form) ∈ Message.forms) {value : Outline} (hmem : (name, value) ∈ bound) :
    form value := by
  obtain ⟨bound', hbinds', hrule, hseverity, hline, hcolumn, htext⟩ := h
  obtain rfl := hbinds.unique hbinds'
  have hnodup := hbinds.nodup Message.names_nodup
  simp only [Message.forms, List.mem_cons, Prod.mk.injEq, List.not_mem_nil, or_false] at hform
  rcases hform with ⟨rfl, rfl⟩ | ⟨rfl, rfl⟩ | ⟨rfl, rfl⟩ | ⟨rfl, rfl⟩ | ⟨rfl, rfl⟩
  · exact hrule.form_of_mem hnodup hmem
  · exact ⟨_, hseverity.form_of_mem hnodup hmem⟩
  · exact hline.form_of_mem hnodup hmem
  · exact hcolumn.form_of_mem hnodup hmem
  · exact ⟨_, htext.form_of_mem hnodup hmem⟩

/-- A value of its form is no fault in any field of a message. -/
theorem Message.fault?_eq_none_of_form : ∀ field ∈ Message.fields, ∃ form,
    (field.name, form) ∈ Message.forms ∧ ∀ value, form value → field.fault? value = none := by
  have hposition : ∀ value : Outline, (value = .null ∨ ∃ n, value.IsNat Diagnostic.wordLimit n) →
      ∃ a?, position value = .ok a? := fun value h =>
    Decoder.exists_nullable_eq_ok (h.imp_right fun ⟨n, hn⟩ => ⟨n, Decoder.nat_eq_ok_iff.mpr hn⟩)
  intro field hfield
  simp only [Message.fields, List.mem_cons, List.not_mem_nil, or_false] at hfield
  rcases hfield with rfl | rfl | rfl | rfl | rfl
  · refine ⟨_, List.mem_cons_self, fun value h => Field.fault?_of_eq_none_iff.mpr ?_⟩
    exact Decoder.exists_nullable_eq_ok
      (h.imp_right fun ⟨s, hs⟩ => ⟨s, Decoder.string_eq_ok_iff.mpr hs⟩)
  · refine ⟨_, .tail _ (.head _), fun value ⟨n, hn⟩ => Field.fault?_of_eq_none_iff.mpr ?_⟩
    exact ⟨n, Decoder.nat_eq_ok_iff.mpr hn⟩
  · exact ⟨_, .tail _ (.tail _ (.head _)), fun value h =>
      Field.fault?_of_eq_none_iff.mpr (hposition value h)⟩
  · exact ⟨_, .tail _ (.tail _ (.tail _ (.head _))), fun value h =>
      Field.fault?_of_eq_none_iff.mpr (hposition value h)⟩
  · refine ⟨_, .tail _ (.tail _ (.tail _ (.tail _ (.head _)))), fun value ⟨s, hs⟩ =>
      Field.fault?_of_eq_none_iff.mpr ?_⟩
    exact ⟨s, Decoder.string_eq_ok_iff.mpr hs⟩

/-- No field is missing from a message that is shown, unless it may be. -/
theorem Message.ShownBy.mayMiss (h : m.ShownBy outline)
    (hbinds : outline.Binds Message.names bound) :
    ∀ field ∈ Message.fields, field.name ∉ bound.map (·.1) → field.MayMiss outline := by
  obtain ⟨bound', hbinds', -, ⟨severity, hseverity, -⟩, -, -, text, htext, -⟩ := h
  obtain rfl := hbinds.unique hbinds'
  have hseverity : "severity" ∈ bound.map (·.1) := List.mem_map_of_mem (f := (·.1)) hseverity
  have htext : "message" ∈ bound.map (·.1) := List.mem_map_of_mem (f := (·.1)) htext
  have hnames : Message.names = ["ruleId", "severity", "line", "column"] ++ ["message"] := rfl
  have hall : (∃ members, outline = .object members) ∨ ∀ name ∈ Message.names,
      name ∈ bound.map (·.1) := by
    rw [hnames] at hbinds ⊢
    exact hbinds.exists_object_or_forall_mem Message.names_nodup htext
  intro field hfield habsent
  have hname : field.name ∈ Message.names := List.mem_map_of_mem (f := (·.name)) hfield
  obtain ⟨members, rfl⟩ := hall.resolve_right fun hall => habsent (hall _ hname)
  simp only [Message.fields, List.mem_cons, List.not_mem_nil, or_false] at hfield
  rcases hfield with rfl | rfl | rfl | rfl | rfl
  · exact .inr ⟨rfl, members, rfl⟩
  · exact absurd hseverity habsent
  · exact .inr ⟨rfl, members, rfl⟩
  · exact .inr ⟨rfl, members, rfl⟩
  · exact absurd htext habsent

/-- A message that is read is shown. -/
theorem Message.shownBy_of_decode (h : Message.decode outline = .ok m) : m.ShownBy outline := by
  have hnodup : (Message.fields.map (·.name)).Nodup := Message.names_nodup
  simp only [Message.decode, position, bind_eq_ok_iff] at h
  obtain ⟨found, hrecord, rule, hrule, severity, hseverity, line, hline, column, hcolumn, text,
    htext, hm⟩ := h
  obtain rfl := Except.ok.inj hm
  obtain ⟨bound, hbinds, hfound⟩ := Outline.binds_of_record hnodup hrecord
  have hrule := (readField?_nullable_eq_ok_iff hfound Decoder.string_null_ne).mp ⟨rule, hrule, rfl⟩
  have hseverity := (readField_eq_ok_iff hfound).mp hseverity
  have hline := (readField?_nullable_eq_ok_iff hfound (Decoder.nat_null_ne _)).mp ⟨line, hline, rfl⟩
  have hcolumn :=
    (readField?_nullable_eq_ok_iff hfound (Decoder.nat_null_ne _)).mp ⟨column, hcolumn, rfl⟩
  have htext := (readField_eq_ok_iff hfound).mp htext
  rw [Decoder.string_reads] at hrule htext
  rw [Decoder.nat_reads] at hseverity hline hcolumn
  exact ⟨bound, hbinds, hrule, hseverity, hline, hcolumn, htext⟩

/-- A message that is shown is read. -/
theorem Message.ShownBy.decode_eq_ok (h : m.ShownBy outline) (hskip : outline.skipFault? = none) :
    Message.decode outline = .ok m := by
  have hnodup : (Message.fields.map (·.name)).Nodup := Message.names_nodup
  obtain ⟨bound, hbinds, hrule, hseverity, hline, hcolumn, htext⟩ := id h
  have hfaults : ∀ field ∈ Message.fields, ∀ value, (field.name, value) ∈ bound →
      field.fault? value = none := by
    intro field hfield value hmem
    obtain ⟨form, hform, hfault⟩ := Message.fault?_eq_none_of_form field hfield
    exact hfault value (h.form_of_mem hbinds hform hmem)
  obtain ⟨found, hrecord, hfound⟩ := Outline.exists_record_of_binds hnodup hbinds hskip hfaults
    (h.mayMiss hbinds)
  rw [← Decoder.string_reads] at hrule htext
  rw [← Decoder.nat_reads] at hseverity hline hcolumn
  obtain ⟨rule, hrule, hruleValue⟩ :=
    (readField?_nullable_eq_ok_iff hfound Decoder.string_null_ne).mpr hrule
  obtain ⟨line, hline, hlineValue⟩ :=
    (readField?_nullable_eq_ok_iff hfound (Decoder.nat_null_ne _)).mpr hline
  obtain ⟨column, hcolumn, hcolumnValue⟩ :=
    (readField?_nullable_eq_ok_iff hfound (Decoder.nat_null_ne _)).mpr hcolumn
  simp only [Message.decode, position, bind_eq_ok_iff]
  refine ⟨found, hrecord, rule, hrule, m.severity, (readField_eq_ok_iff hfound).mpr hseverity,
    line, hline, column, hcolumn, m.text, (readField_eq_ok_iff hfound).mpr htext, ?_⟩
  rw [hruleValue, hlineValue, hcolumnValue]
  rfl

/-- A message is read from exactly the outlines that show it. -/
theorem Message.decode_eq_ok_iff (hskip : outline.skipFault? = none) :
    Message.decode outline = .ok m ↔ m.ShownBy outline :=
  ⟨Message.shownBy_of_decode, fun h => h.decode_eq_ok hskip⟩

/-- A message that is shown is not faulty. -/
theorem Message.Faulty.not_shownBy (h : Message.Faulty outline) : ¬ m.ShownBy outline := by
  intro hshown
  obtain ⟨bound', hbinds', -, hseverity, -, -, htext⟩ := id hshown
  cases h with
  | kind h => exact h bound' hbinds'
  | value hbinds hform hmem hwrong => exact hwrong (hshown.form_of_mem hbinds hform hmem)
  | missing hbinds hname habsent =>
    obtain rfl := hbinds.unique hbinds'
    rcases hname with rfl | rfl
    · obtain ⟨value, hmem, -⟩ := hseverity
      exact habsent value hmem
    · obtain ⟨value, hmem, -⟩ := htext
      exact habsent value hmem

/-- An outline shows a message unless it is faulty. -/
theorem Message.exists_shownBy_of_not_faulty (h : ¬ Message.Faulty outline) :
    ∃ m : Message, m.ShownBy outline := by
  obtain ⟨bound, hbinds⟩ : ∃ bound, outline.Binds Message.names bound := by
    by_contra hnone
    exact h (.kind fun bound hbinds => hnone ⟨bound, hbinds⟩)
  have hforms : ∀ name form, (name, form) ∈ Message.forms → ∀ value, (name, value) ∈ bound →
      form value := by
    intro name form hform value hmem
    by_contra hwrong
    exact h (.value hbinds hform hmem hwrong)
  have hpresent : ∀ name, name = "severity" ∨ name = "message" →
      ∃ value, (name, value) ∈ bound := by
    intro name hname
    by_contra habsent
    exact h (.missing hbinds hname fun value hmem => habsent ⟨value, hmem⟩)
  obtain ⟨rule, hrule⟩ := exists_hasOption (hforms "ruleId" _ (.head _))
  obtain ⟨severity, hseverity⟩ :=
    exists_hasField (hpresent "severity" (.inl rfl)) (hforms "severity" _ (.tail _ (.head _)))
  obtain ⟨line, hline⟩ := exists_hasOption (hforms "line" _ (.tail _ (.tail _ (.head _))))
  obtain ⟨column, hcolumn⟩ :=
    exists_hasOption (hforms "column" _ (.tail _ (.tail _ (.tail _ (.head _)))))
  obtain ⟨text, htext⟩ := exists_hasField (hpresent "message" (.inr rfl))
    (hforms "message" _ (.tail _ (.tail _ (.tail _ (.tail _ (.head _))))))
  exact ⟨⟨rule, severity, line, column, text⟩, bound, hbinds, hrule, hseverity, hline, hcolumn,
    htext⟩

end Message

/-! ## Reports on files -/

/-- The names of a report's fields. -/
def FileReport.names : List String :=
  ["filePath", "messages"]

/-- The outline is an array of outlines that show the messages. -/
def ShowMessages (outline : Outline) (messages : List Message) : Prop :=
  ∃ items, outline = .array (.ofList items) ∧ List.Forall₂ Message.ShownBy messages items

/-- The outline shows the report; it need not have messages. -/
def FileReport.ShownBy (report : FileReport) (outline : Outline) : Prop :=
  ∃ bound, outline.Binds FileReport.names bound ∧
    HasField Outline.IsText bound "filePath" report.file ∧
    (report.messages = [] ∧ (∀ value, ("messages", value) ∉ bound) ∨
      HasField ShowMessages bound "messages" report.messages)

/-- The outline is a report in which something stands at the place of a message. -/
def FileReport.HasMessage (outline message : Outline) : Prop :=
  ∃ bound items, outline.Binds FileReport.names bound ∧
    ("messages", .array (.ofList items)) ∈ bound ∧ message ∈ items

/-- The fields of a report as they are read. -/
def FileReport.fields : List Field :=
  [.of "filePath" .required .string, .of "messages" .defaulted (.list Message.decode)]

section FileReport

variable {report : FileReport} {outline : Outline} {bound : List (String × Outline)}

theorem FileReport.names_nodup : FileReport.names.Nodup := by decide

/-- Messages are read from exactly the outlines that show them. -/
theorem list_decode_eq_ok_iff {messages : List Message} (hskip : outline.skipFault? = none) :
    Decoder.list Message.decode outline = .ok messages ↔ ShowMessages outline messages := by
  rw [Decoder.list_eq_ok_iff]
  refine exists_congr fun items => and_congr_right ?_
  rintro rfl
  have hitems := Items.skipFault?_ofList hskip
  exact forall₂_congr fun item hitem m => Message.decode_eq_ok_iff (hitems item hitem)

/-- A report that is read is shown. -/
theorem FileReport.shownBy_of_decode (hskip : outline.skipFault? = none)
    (h : FileReport.decode outline = .ok report) : report.ShownBy outline := by
  have hnodup : (FileReport.fields.map (·.name)).Nodup := FileReport.names_nodup
  simp only [FileReport.decode, bind_eq_ok_iff] at h
  obtain ⟨found, hrecord, file, hfile, messages, hmessages, hreport⟩ := h
  obtain rfl := Except.ok.inj hreport
  obtain ⟨bound, hbinds, hfound⟩ := Outline.binds_of_record hnodup hrecord
  have hfile := (readField_eq_ok_iff hfound).mp hfile
  rw [Decoder.string_reads] at hfile
  refine ⟨bound, hbinds, hfile, ?_⟩
  rcases (readField?_eq_ok_iff hfound).mp hmessages with
    ⟨rfl, habsent⟩ | ⟨messages, rfl, value, hmem, hvalue⟩
  · exact .inl ⟨rfl, habsent⟩
  · have hskip := hbinds.skipFault?_eq_none hskip hmem
    exact .inr ⟨value, hmem, (list_decode_eq_ok_iff hskip).mp hvalue⟩

/-- The messages of a report that is shown are read, if there are any. -/
theorem FileReport.ShownBy.list_decode (h : report.ShownBy outline)
    (hbinds : outline.Binds FileReport.names bound) (hskip : outline.skipFault? = none)
    {value : Outline} (hmem : ("messages", value) ∈ bound) :
    Decoder.list Message.decode value = .ok report.messages := by
  obtain ⟨bound', hbinds', -, hmessages⟩ := h
  obtain rfl := hbinds.unique hbinds'
  rcases hmessages with ⟨-, habsent⟩ | hmessages
  · exact absurd hmem (habsent value)
  · exact (list_decode_eq_ok_iff (hbinds.skipFault?_eq_none hskip hmem)).mpr
      (hmessages.form_of_mem (hbinds.nodup FileReport.names_nodup) hmem)

/-- There is no fault in any field of a report that is shown. -/
theorem FileReport.ShownBy.fault?_eq_none (h : report.ShownBy outline)
    (hbinds : outline.Binds FileReport.names bound) (hskip : outline.skipFault? = none) :
    ∀ field ∈ FileReport.fields, ∀ value, (field.name, value) ∈ bound →
      field.fault? value = none := by
  intro field hfield value hmem
  simp only [FileReport.fields, List.mem_cons, List.not_mem_nil, or_false] at hfield
  rcases hfield with rfl | rfl
  · obtain ⟨bound', hbinds', hfile, -⟩ := h
    obtain rfl := hbinds.unique hbinds'
    have htext := hfile.form_of_mem (hbinds.nodup FileReport.names_nodup) hmem
    exact Field.fault?_of_eq_none_iff.mpr ⟨_, Decoder.string_eq_ok_iff.mpr htext⟩
  · exact Field.fault?_of_eq_none_iff.mpr ⟨_, h.list_decode hbinds hskip hmem⟩

/-- No field but the messages is missing from a report that is shown. -/
theorem FileReport.ShownBy.mayMiss (h : report.ShownBy outline)
    (hbinds : outline.Binds FileReport.names bound) :
    ∀ field ∈ FileReport.fields, field.name ∉ bound.map (·.1) → field.MayMiss outline := by
  obtain ⟨bound', hbinds', ⟨file, hfile, -⟩, -⟩ := h
  obtain rfl := hbinds.unique hbinds'
  intro field hfield habsent
  simp only [FileReport.fields, List.mem_cons, List.not_mem_nil, or_false] at hfield
  rcases hfield with rfl | rfl
  · exact absurd (List.mem_map_of_mem (f := (·.1)) hfile) habsent
  · exact .inl rfl

/-- A report that is shown is read. -/
theorem FileReport.ShownBy.decode_eq_ok (h : report.ShownBy outline)
    (hskip : outline.skipFault? = none) : FileReport.decode outline = .ok report := by
  have hnodup : (FileReport.fields.map (·.name)).Nodup := FileReport.names_nodup
  obtain ⟨bound, hbinds, hfile, hmessages⟩ := id h
  obtain ⟨found, hrecord, hfound⟩ := Outline.exists_record_of_binds hnodup hbinds hskip
    (h.fault?_eq_none hbinds hskip) (h.mayMiss hbinds)
  rw [← Decoder.string_reads] at hfile
  obtain ⟨messages, hread, hvalue⟩ : ∃ messages?,
      readField? found "messages" (.list Message.decode) = .ok messages? ∧
        messages?.getD [] = report.messages := by
    rcases hmessages with ⟨hnone, habsent⟩ | ⟨value, hmem, -⟩
    · exact ⟨none, (readField?_eq_ok_iff hfound).mpr (.inl ⟨rfl, habsent⟩), hnone.symm⟩
    · have hlist := h.list_decode hbinds hskip hmem
      exact ⟨some report.messages,
        (readField?_eq_ok_iff hfound).mpr (.inr ⟨_, rfl, value, hmem, hlist⟩), rfl⟩
  simp only [FileReport.decode, bind_eq_ok_iff]
  refine ⟨found, hrecord, report.file, (readField_eq_ok_iff hfound).mpr hfile, messages, hread, ?_⟩
  rw [hvalue]
  rfl

/-- A report is read from exactly the outlines that show it. -/
theorem FileReport.decode_eq_ok_iff (hskip : outline.skipFault? = none) :
    FileReport.decode outline = .ok report ↔ report.ShownBy outline :=
  ⟨FileReport.shownBy_of_decode hskip, fun h => h.decode_eq_ok hskip⟩

/-- No report is shown in which a message is faulty. -/
theorem FileReport.HasMessage.not_shownBy {message : Outline}
    (h : FileReport.HasMessage outline message) (hfaulty : Message.Faulty message) :
    ¬ report.ShownBy outline := by
  rintro ⟨bound', hbinds', -, hmessages⟩
  obtain ⟨bound, items, hbinds, hmem, hitem⟩ := h
  obtain rfl := hbinds.unique hbinds'
  rcases hmessages with ⟨-, habsent⟩ | hmessages
  · exact habsent _ hmem
  · obtain ⟨items', heq, hall⟩ := hmessages.form_of_mem (hbinds.nodup FileReport.names_nodup) hmem
    obtain rfl := Items.ofList_inj (Outline.array.inj heq)
    obtain ⟨m, hshown⟩ := exists_of_forall₂_of_mem hall hitem
    exact hfaulty.not_shownBy hshown

end FileReport

/-! ## The output -/

/-- White space around a text that writes an array is dropped. -/
theorem trim_writes_array {before text after : List Char} {items : Items}
    (h : Writes text (.array items)) (hbefore : ∀ c ∈ before, CharClass.isWhite c = true)
    (hafter : ∀ c ∈ after, CharClass.isWhite c = true) :
    Text.trim (before ++ text ++ after) = text := by
  obtain ⟨middle, rfl⟩ : ∃ middle, text = '[' :: middle ++ [']'] := by
    cases h with
    | emptyArray _ => exact ⟨_, rfl⟩
    | array _ => exact ⟨_, rfl⟩
  refine Text.trim_append hbefore hafter (by simp) (fun c hc => ?_) (fun c hc => ?_)
  · obtain rfl := Option.some.inj hc
    decide
  · rw [List.getLast?_concat] at hc
    obtain rfl := Option.some.inj hc
    decide

/-- A linter's output is read as the list of reports that it writes. -/
theorem diagnosticsOfText_eq (root : Path) {before text after : List Char} {files : List Outline}
    (h : Writes text (.array (.ofList files))) (hbefore : ∀ c ∈ before, CharClass.isWhite c = true)
    (hafter : ∀ c ∈ after, CharClass.isWhite c = true) :
    diagnosticsOfText root (String.ofList (before ++ text ++ after)) =
      (Decoder.list FileReport.decode (.array (.ofList files))).map fun reports =>
        reports.flatMap (FileReport.diagnostics root) := by
  rw [diagnosticsOfText, String.toList_ofList, trim_writes_array h hbefore hafter,
    decodeText_of_writes h]
  cases Decoder.list FileReport.decode (.array (.ofList files)) <;> rfl

/-- The diagnostics about a file are its messages of the highest severity. -/
theorem FileReport.diagnostics_eq (root : Path) (report : FileReport) :
    report.diagnostics root = (report.messages.filter (·.severity = 2)).map fun m => {
      file := root.resolve ⟨report.file⟩
      line := m.line.getD 1
      column := m.column.getD 1
      code := m.rule.getD "eslint"
      message := m.text } := by
  rw [FileReport.diagnostics, ← List.filterMap_eq_map, List.filterMap_filter]
  refine List.filterMap_congr fun m _ => ?_
  by_cases hseverity : m.severity = 2
  · simp [Message.diagnostic?, errorSeverity, hseverity]
  · simp [Message.diagnostic?, errorSeverity, hseverity]

/-- A text may write the reports in any layout, with any members besides those of the reports and
any white space around it. If each report is shown, its messages of severity two are the
diagnostics, in the order of the text. If a message of any of the reports is faulty, there are no
diagnostics at all. -/
theorem diagnosticsOfText_written (root : Path) (before text after : List Char)
    (files : List Outline) (hbefore : ∀ c ∈ before, CharClass.isWhite c = true)
    (h : Writes text (.array (.ofList files))) (hafter : ∀ c ∈ after, CharClass.isWhite c = true) :
    (∀ reports, List.Forall₂ FileReport.ShownBy reports files →
      diagnosticsOfText root (String.ofList (before ++ text ++ after)) =
        .ok (reports.flatMap fun report =>
          (report.messages.filter (·.severity = 2)).map fun m => {
            file := root.resolve ⟨report.file⟩
            line := m.line.getD 1
            column := m.column.getD 1
            code := m.rule.getD "eslint"
            message := m.text })) ∧
    ∀ file ∈ files, ∀ message, FileReport.HasMessage file message → Message.Faulty message →
      ∃ fault, diagnosticsOfText root (String.ofList (before ++ text ++ after)) = .error fault := by
  have hskip := Items.skipFault?_ofList h.skipFault?_eq_none
  have hdecode : ∀ reports, Decoder.list FileReport.decode (.array (.ofList files)) = .ok reports ↔
      List.Forall₂ FileReport.ShownBy reports files := by
    intro reports
    have hfiles :
        List.Forall₂ (fun report file => FileReport.decode file = .ok report) reports files ↔
          List.Forall₂ FileReport.ShownBy reports files :=
      forall₂_congr fun file hfile report => FileReport.decode_eq_ok_iff (hskip file hfile)
    rw [Decoder.list_eq_ok_iff, ← hfiles]
    constructor
    · rintro ⟨files', heq, hall⟩
      obtain rfl := Items.ofList_inj (Outline.array.inj heq)
      exact hall
    · exact fun hall => ⟨files, rfl, hall⟩
  rw [diagnosticsOfText_eq root h hbefore hafter]
  refine ⟨fun reports hall => ?_, fun file hfile message hmessage hfaulty => ?_⟩
  · rw [(hdecode reports).mpr hall]
    simp only [← FileReport.diagnostics_eq]
    rfl
  · cases hread : Decoder.list FileReport.decode (.array (.ofList files)) with
    | error fault => exact ⟨fault, rfl⟩
    | ok reports =>
      obtain ⟨report, hshown⟩ := exists_of_forall₂_of_mem ((hdecode reports).mp hread) hfile
      exact absurd hshown (hmessage.not_shownBy hfaulty)

/-- A report with its fields in another order than they are read in, and with members besides them,
one of which nests. Its first message is an error without a rule, in the last column there is. -/
def sampleReport : Value :=
  .object [("errorCount", .array [.null, .object [("messages", .string "[\x7b")]]),
    ("messages", .array [
      .object [("message", .string "x\ny"), ("fatal", .bool true), ("severity", .int 2),
        ("column", .int 18446744073709551615)],
      .object [("severity", .int 255), ("line", .null), ("ruleId", .string "r"),
        ("message", .string "")]]),
    ("filePath", .string "src/a.ts")]

/-- A message with a severity that is out of range. -/
def sampleFaulty : Value :=
  .object [("severity", .int 256), ("message", .string "m")]

/-- A report on another file, with the faulty message. -/
def sampleFaultyReport : Value :=
  .object [("messages", .array [sampleFaulty]), ("filePath", .string "b.ts")]

/-- The error in the report is read, and the faulty message takes the sound report in front of it
along. -/
theorem diagnosticsOfText_written_sample :
    diagnosticsOfText ⟨"/w"⟩
        (String.ofList
          (['\u3000'] ++ (Value.array [sampleReport]).prettyAt 0 ++ ['\n', '\u00a0'])) =
      .ok [⟨⟨"/w/src/a.ts"⟩, 1, 18446744073709551615, "eslint", "x\ny"⟩] ∧
    ∃ fault, diagnosticsOfText ⟨"/w"⟩
      (String.ofList ([] ++ (Value.array [sampleReport, sampleFaultyReport]).prettyAt 0 ++ [])) =
        .error fault := by
  have hnone : ∀ c ∈ ([] : List Char), CharClass.isWhite c = true :=
    fun c hc => absurd hc List.not_mem_nil
  constructor
  · have hread : FileReport.decode sampleReport.outline = .ok ⟨"src/a.ts",
        [⟨none, 2, none, some 18446744073709551615, "x\ny"⟩, ⟨some "r", 255, none, none, ""⟩]⟩ := by
      rfl
    have hshown := (FileReport.decode_eq_ok_iff rfl).mp hread
    exact (diagnosticsOfText_written ⟨"/w"⟩ ['\u3000'] _ ['\n', '\u00a0'] [sampleReport.outline]
      (List.all_eq_true.mp (by decide)) (writes_prettyAt (.array [sampleReport]) 0)
      (List.all_eq_true.mp (by decide))).1 _ (.cons hshown .nil)
  · have hwrites := writes_prettyAt (.array [sampleReport, sampleFaultyReport]) 0
    refine (diagnosticsOfText_written ⟨"/w"⟩ [] _ []
      [sampleReport.outline, sampleFaultyReport.outline] hnone hwrites hnone).2
      sampleFaultyReport.outline (by simp) sampleFaulty.outline ?_ ?_
    · have hbinds : (Outline.object (.ofList [("messages", .array (.ofList [sampleFaulty.outline])),
          ("filePath", .text (some "b.ts".toList))])).Binds FileReport.names _ :=
        .object (by decide)
      exact ⟨_, _, hbinds, .head _, .head _⟩
    · by_contra hsound
      obtain ⟨m, hshown⟩ := Message.exists_shownBy_of_not_faulty hsound
      exact nomatch (Message.decode_eq_ok_iff rfl).mpr hshown

end SourceRepair.Lint
