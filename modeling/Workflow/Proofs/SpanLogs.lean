import Workflow.Proofs.Codec.Records
import Workflow.Proofs.Executors
import Workflow.Proofs.Files
import Workflow.Proofs.Json.Values
import Workflow.SpanLog

/-!
# The lines of span logs

Several sinks may write to one span log, and whichever of them a span is handed to, it becomes the
last line of the file.  No text in a span can break its line, since a line feed in a text is
written as an escape; so the lines of the file are the spans, and each is read back from its line.

Written times are taken to be read back as the same times (`Span.TimesReadBack`).

* `Span.read_line` — a line is the document of its span.
* `SpanLog.Step`, `SpanLog.after` — what is done to a log, and what the files are then.
* `SpanLog.one_line_for_each_span` — the lines of a log are the spans handed to its sinks.
-/

namespace Workflow

/-- A text without line feeds is one line. -/
theorem Text.splitFeeds_of_feed_not_mem {text : List Char} (h : '\n' ∉ text) :
    splitFeeds text = [text] := by
  induction text with
  | nil => rfl
  | cons c rest ih =>
    rw [List.mem_cons, not_or] at h
    rw [splitFeeds, if_neg (Ne.symm h.1), ih h.2]

namespace Span

open RecordKind

/-! ## Lines -/

/-- The times of a span are read back from what is written. -/
def TimesReadBack (span : Span) : Prop :=
  Instant.read (String.ofList span.start.write) = some span.start ∧
    Instant.read (String.ofList span.finish.write) = some span.finish

theorem line_eq (span : Span) : span.line = Json.write (.object span.fields) := by
  rw [line, Json.writeRecord, Json.write]

theorem isNumberless_fields (span : Span) : (Value.object span.fields).IsNumberless := by
  rw [Value.IsNumberless, Value.fieldsNumberless_iff]
  rcases span with ⟨_, _, _, _, _, _, _, _ | _⟩ <;>
    simp [fields, instantValue, Value.IsNumberless]

theorem feed_not_mem_line (span : Span) : '\n' ∉ span.line := by
  rw [line_eq]
  exact Json.feed_not_mem_write span.isNumberless_fields

/-- A line is the document of its span. -/
theorem read_line (span : Span) :
    Json.read (String.ofList span.line) = (.record (Document.ofFields span.fields) none, none) := by
  rw [line_eq]
  exact Json.read_render span.isNumberless_fields

theorem decodeInstant_write {instant : Instant}
    (h : Instant.read (String.ofList instant.write) = some instant) :
    decodeInstant (.scalar (.string (String.ofList instant.write))) = .ok instant := by
  rw [decodeInstant, h]

/-- The draft that the fields of a span fill. -/
def filled (span : Span) : Draft :=
  ⟨some span.taskId, some span.kind, some span.processId, some span.instanceId, some span.start,
    some span.finish, some span.success, span.error.map some⟩

theorem fillFields_fields {span : Span} (htimes : span.TimesReadBack) :
    fillFields recordKind.slots (Document.ofFields span.fields) recordKind.empty =
      .ok span.filled := by
  obtain ⟨hstart, hfinish⟩ := htimes
  -- the four names come first; of the other texts only the times have to be read
  refine (fillFields_slot rfl rfl rfl).trans ?_
  refine (fillFields_slot rfl rfl rfl).trans ?_
  refine (fillFields_slot rfl rfl rfl).trans ?_
  refine (fillFields_slot rfl rfl rfl).trans ?_
  have hstart := decodeInstant_write hstart
  refine (fillFields_slot rfl rfl (Slot.make_fill_eq_ok.mpr ⟨_, hstart, rfl⟩)).trans ?_
  have hfinish := decodeInstant_write hfinish
  refine (fillFields_slot rfl rfl (Slot.make_fill_eq_ok.mpr ⟨_, hfinish, rfl⟩)).trans ?_
  refine (fillFields_slot rfl rfl rfl).trans ?_
  obtain ⟨taskId, kind, processId, instanceId, start, finish, success, error⟩ := span
  cases error with
  | none => rfl
  | some message => exact fillFields_slot rfl rfl rfl

theorem decode_fields {span : Span} (htimes : span.TimesReadBack) (source : Source) :
    decode source (.record (Document.ofFields span.fields) none) = .ok span := by
  simp only [decode, RecordKind.decode, fillFields_fields htimes]
  obtain ⟨taskId, kind, processId, instanceId, start, finish, success, error⟩ := span
  cases error <;> rfl

/-- A span is read back from its line. -/
theorem decode_line {span : Span} (htimes : span.TimesReadBack) :
    Json.decode (decode .json) (String.ofList span.line) = .ok span := by
  simp only [Json.decode, read_line, decode_fields htimes]

/-- The value of a line is that of its span. -/
theorem readValueOf_line (span : Span) :
    Json.readValueOf (String.ofList span.line) = .ok span.toValue := by
  have hfields : Document.toFields .json 1 (Document.ofFields span.fields) = .ok span.fields := by
    rcases span with ⟨_, _, _, _, _, _, _, _ | _⟩ <;> rfl
  have hvalue : Document.toValue .json 0 (.record (Document.ofFields span.fields) none) =
      .ok span.toValue := by
    have henter : Document.enter .json 0 = .ok () := rfl
    simp only [Document.toValue, henter, hfields, bind, Except.bind, Document.stopIf]
    rfl
  simp only [Json.readValueOf, Json.decode, read_line, hvalue]

/-- The value of a span says of a failure what the span says, and nothing if there was none. -/
theorem get?_error (span : Span) :
    Table.get? (Table.ofList span.fields) "error" = span.error.map Value.string := by
  rcases span with ⟨_, _, _, _, _, _, _, _ | _⟩ <;>
    simp [fields, Table.ofList, Table.get?_set]

end Span

/-! ## What is done to a log -/

namespace SpanLog

/-- Something that is done to a log. -/
inductive Step where
  /-- it is opened for a further sink -/
  | opening
  /-- a span is handed to a sink, given by its number -/
  | emission (sink : Nat) (span : Span)

/-- How a step is done to the log at a path. -/
def Step.dialogue (path : String) : Step → Dialogue (Except Error Unit)
  | opening => openAt path
  | emission _ span => do
    write path span
    return .ok ()

/-- The span that a step hands to a sink. -/
def Step.span? : Step → Option Span
  | opening => none
  | emission _ span => some span

/-- The spans that steps hand to sinks, in order. -/
def spans (steps : List Step) : List Span :=
  steps.filterMap Step.span?

/-- Spans are handed to open sinks only, `sinks` of them being open before the first step. -/
def ToOpenSinks (sinks : Nat) : List Step → Prop
  | [] => True
  | .opening :: more => ToOpenSinks (sinks + 1) more
  | .emission sink _ :: more => sink < sinks ∧ ToOpenSinks sinks more

/-- What the surroundings are after steps. -/
def after (path : String) (s : Surroundings) (steps : List Step) : Surroundings :=
  steps.foldl (fun s step => (s.hold (step.dialogue path)).2) s

variable {path : String} {s : Surroundings}

theorem after_opening (steps : List Step) :
    after path s (.opening :: steps) =
      after path { s with files := (s.files.openLog path).1 } steps := rfl

theorem after_emission (sink : Nat) (span : Span) (steps : List Step) :
    after path s (.emission sink span :: steps) =
      after path { s with files := s.files.append path (lineOf span) } steps := rfl

theorem openLog_of_openAt (h : (s.hold (openAt path)).1 = .ok ()) :
    s.files.openLog path = ((s.files.openLog path).1, .ok ()) := by
  have hopened : (s.files.openLog path).2.mapError Error.file = .ok () := h
  rcases hlog : s.files.openLog path with ⟨files, fault | _⟩
  · rw [hlog] at hopened
    exact nomatch hopened
  · rfl

/-- Once there is a file, whatever is done puts lines behind what is in it. -/
theorem read_after {text : String} (steps : List Step) (h : s.files.read path = .ok text)
    (hparents : Path.fault? (String.intercalate "/" (Path.parents path)) = none) :
    (after path s steps).files.read path =
      .ok (text ++ String.join ((spans steps).map lineOf)) := by
  induction steps generalizing s text with
  | nil =>
    rw [spans, List.filterMap_nil, List.map_nil, String.join_nil, String.append_empty]
    exact h
  | cons step more ih =>
    cases step with
    | opening =>
      rw [after_opening, Files.openLog_of_read h hparents]
      exact ih h
    | emission sink span =>
      rw [after_emission, ih (s := { s with files := s.files.append path (lineOf span) })
        (Files.read_append h (lineOf span))]
      simp [spans, Step.span?, String.append_assoc]

theorem toList_lineOf (span : Span) : (lineOf span).toList = span.line ++ ['\n'] := by
  rw [lineOf, String.toList_ofList]

/-- The lines of a log are the spans in it, and nothing is behind the last line feed. -/
theorem splitFeeds_join (spans : List Span) :
    Text.splitFeeds (String.join (spans.map lineOf)).toList = spans.map Span.line ++ [[]] := by
  induction spans with
  | nil => rfl
  | cons span more ih =>
    rw [List.map_cons, String.join_cons, String.toList_append, toList_lineOf, List.append_assoc,
      List.singleton_append, Text.splitFeeds_append_feed,
      Text.splitFeeds_of_feed_not_mem span.feed_not_mem_line, ih]
    rfl

/-- A log that is opened first where nothing was holds the lines of the spans handed over since. -/
theorem read_after_opening (hopened : (s.hold (openAt path)).1 = .ok ())
    (hnew : s.files.at? (Path.follow (Path.origin path) (Path.pieces path)) = none)
    (steps : List Step) :
    (after path s (.opening :: steps)).files.read path =
      .ok (String.join ((spans steps).map lineOf)) := by
  have hlog := openLog_of_openAt hopened
  have hempty := Files.read_of_openLog hlog hnew
  rw [after_opening, read_after (s := { s with files := (s.files.openLog path).1 }) steps hempty
    (Files.fault?_of_openLog hlog), String.empty_append]

/-- **One line for each span.** A log is opened for any number of sinks, first where nothing was,
and spans are handed to the open sinks.  From the first opening on, the file holds at every moment
the lines of the spans so far, in order, each closed by a line feed.  Split at its line feeds it has
just these lines, and nothing behind the last feed.  Each line is read back as its span, and there
is an error in its value if and only if there is one in the span. -/
theorem one_line_for_each_span (path : String) (s : Surroundings) (steps : List Step)
    (hsinks : ToOpenSinks 0 steps)
    (hnew : s.files.at? (Path.follow (Path.origin path) (Path.pieces path)) = none)
    (hopened : (s.hold (openAt path)).1 = .ok ())
    (htimes : ∀ span ∈ spans steps, span.TimesReadBack) :
    ∀ done, done <+: steps → done ≠ [] →
      ∃ text, (after path s done).files.read path = .ok text ∧
        text = String.join ((spans done).map lineOf) ∧
        Text.splitFeeds text.toList = (spans done).map Span.line ++ [[]] ∧
        ∀ (i : Nat) (span : Span), (spans done)[i]? = some span →
          ∃ line table, (Text.splitFeeds text.toList)[i]? = some line ∧
            Json.decode (Span.decode .json) (String.ofList line) = .ok span ∧
            Json.readValueOf (String.ofList line) = .ok (.object table) ∧
            Table.contains table "error" = span.error.isSome := by
  rintro done ⟨rest, rfl⟩ hstarted
  rcases done with _ | ⟨_ | ⟨sink, span⟩, more⟩
  · exact absurd rfl hstarted
  · refine ⟨_, read_after_opening hopened hnew more, rfl, splitFeeds_join (spans more), ?_⟩
    intro i span hspan
    have hspan : (spans more)[i]? = some span := hspan
    have hmem : span ∈ spans (Step.opening :: more ++ rest) := by
      rw [spans, List.filterMap_append]
      exact List.mem_append_left _ (List.mem_of_getElem? hspan)
    refine ⟨span.line, _, ?_, span.decode_line (htimes span hmem), span.readValueOf_line, ?_⟩
    · have hlines := (List.getElem?_eq_some_iff.mp hspan).1
      rw [splitFeeds_join, List.getElem?_append_left (by simpa using hlines), List.getElem?_map,
        hspan, Option.map_some]
    · rw [Table.contains, Span.get?_error, Option.isSome_map]
  · -- no sink is open before the first opening
    exact absurd hsinks.1 (Nat.not_lt_zero sink)

end SpanLog

/-! ## Two sinks at one log

A log in a directory that is not there yet is opened twice, and texts of the spans hold quotes, a
line feed and a control character. -/

namespace TwoSinks

/-- Where the program runs. -/
def surroundings : Surroundings := ⟨.empty, ⟨[]⟩, ⟨"run"⟩, 0⟩

/-- The path of the log. -/
def path : String := "logs/run"

/-- A span of a success. -/
def first : Span :=
  ⟨"check \"all\"", "user", "order", "run", .ofMillis 1500, .ofMillis 1750, true, none⟩

/-- A span of a failure, told in two lines. -/
def second : Span :=
  ⟨"ship", "service", "order", "run.1", .ofMillis 2000, .ofMillis 2001, false,
    some "no answer:\nline two\u0001"⟩

/-- The log is opened for two sinks, and spans are handed to both. -/
def steps : List SpanLog.Step :=
  [.opening, .emission 0 first, .opening, .emission 1 second, .emission 0 first]

theorem pieces_path : Path.pieces path = ["logs", "run"] := by
  rw [path, Path.pieces, String.splitOn, if_neg (by decide)]
  iterate 4 rw [String.splitOnAux, if_neg (by decide), if_neg (by decide)]
  rw [String.splitOnAux, if_neg (by decide), if_pos (by decide)]
  dsimp only
  rw [if_pos (by decide)]
  iterate 3 rw [String.splitOnAux, if_neg (by decide), if_neg (by decide)]
  rw [String.splitOnAux, if_pos (by decide)]
  decide

theorem toOpenSinks : SpanLog.ToOpenSinks 0 steps :=
  ⟨by decide, by decide, by decide, trivial⟩

theorem nothing_there :
    surroundings.files.at? (Path.follow (Path.origin path) (Path.pieces path)) = none := by
  rw [pieces_path]
  decide

theorem opens : (surroundings.hold (SpanLog.openAt path)).1 = .ok () := by
  have hlog : (surroundings.files.openLog path).2 = .ok () := by
    simp only [Files.openLog, Path.parents, Files.openFile, pieces_path]
    decide +kernel
  show (surroundings.files.openLog path).2.mapError Error.file = .ok ()
  rw [hlog]
  rfl

theorem times_read_back : ∀ span ∈ SpanLog.spans steps, span.TimesReadBack := by
  have hfirst : first.TimesReadBack := ⟨by decide +kernel, by decide +kernel⟩
  have hsecond : second.TimesReadBack := ⟨by decide +kernel, by decide +kernel⟩
  exact List.forall_mem_cons.mpr ⟨hfirst, List.forall_mem_cons.mpr ⟨hsecond,
    List.forall_mem_singleton.mpr hfirst⟩⟩

/-- The file has three lines at last, and the second of them is read back with its error. -/
theorem lines_of_two_sinks :
    ∃ text, (SpanLog.after path surroundings steps).files.read path = .ok text ∧
      Text.splitFeeds text.toList = [first.line, second.line, first.line, []] ∧
      Json.decode (Span.decode .json) (String.ofList second.line) = .ok second := by
  obtain ⟨text, hread, -, hlines, hspans⟩ := SpanLog.one_line_for_each_span path surroundings steps
    toOpenSinks nothing_there opens times_read_back steps List.prefix_rfl (by simp [steps])
  obtain ⟨line, -, hline, hdecode, -, -⟩ := hspans 1 second rfl
  rw [hlines] at hline
  obtain rfl : second.line = line := Option.some.inj hline
  exact ⟨text, hread, hlines, hdecode⟩

end TwoSinks

end Workflow
