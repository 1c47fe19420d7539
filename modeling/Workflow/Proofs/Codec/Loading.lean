import Workflow.Definition.Load
import Workflow.Proofs.Codec.Definitions
import Workflow.Proofs.Definition
import Workflow.Proofs.Json.Values

/-!
# Definitions that are saved and loaded

A definition is saved as a value that has no numbers in it and only a few levels, so its text can be
read again, and what is read is the document of the value.  A definition that validation accepts is
loaded from it as it was, and from every other text whose document is a variation of that one.

* `Value.Plain` — there are no numbers in a value, and only so many levels.
* `Definition.plain_toValue` — the value of a definition is plain.
* `Definition.ofJson_of_read` — what a text gives is what its document gives.
* `Definition.survives_saving` — a definition is loaded from every variation of its document.
-/

namespace Workflow

/-! ## Plain values -/

/-- There are no numbers in a value, and not more than so many levels. -/
structure Value.Plain (levels : Nat) (value : Value) : Prop where
  isNumberless : value.IsNumberless
  levels_le : (Document.ofValue value).levels ≤ levels

namespace Value

variable {levels : Nat}

theorem plain_string (s : String) : Plain levels (.string s) :=
  ⟨trivial, Nat.zero_le _⟩

theorem levelsOfItems_le {items : List Value}
    (h : ∀ item ∈ items, (Document.ofValue item).levels ≤ levels) :
    Document.levelsOfItems (Document.ofItems items) ≤ levels := by
  induction items with
  | nil => exact Nat.zero_le _
  | cons item more ih =>
    obtain ⟨hitem, hmore⟩ := List.forall_mem_cons.mp h
    rw [Document.ofItems, Document.levelsOfItems]
    exact Nat.max_le.mpr ⟨hitem, ih hmore⟩

theorem levelsOfFields_le {fields : List (String × Value)}
    (h : ∀ field ∈ fields, (Document.ofValue field.2).levels ≤ levels) :
    Document.levelsOfFields (Document.ofFields fields) ≤ levels := by
  induction fields with
  | nil => exact Nat.zero_le _
  | cons field more ih =>
    obtain ⟨hfield, hmore⟩ := List.forall_mem_cons.mp h
    rw [Document.ofFields, Document.levelsOfFields]
    exact Nat.max_le.mpr ⟨hfield, ih hmore⟩

theorem plain_array {items : List Value} (h : ∀ item ∈ items, item.Plain levels) :
    Plain (levels + 1) (.array items) where
  isNumberless := allNumberless_iff.mpr fun item hitem => (h item hitem).isNumberless
  levels_le := by
    rw [Document.ofValue, Document.levels]
    exact Nat.succ_le_succ (levelsOfItems_le fun item hitem => (h item hitem).levels_le)

theorem plain_object {entries : List (String × Value)}
    (h : ∀ entry ∈ entries, entry.2.Plain levels) :
    Plain (levels + 1) (.object (Table.ofList entries)) where
  isNumberless :=
    fieldsNumberless_iff.mpr fun entry hentry => (h entry (Table.mem_ofList hentry)).isNumberless
  levels_le := by
    rw [Document.ofValue, Document.levels]
    exact Nat.succ_le_succ
      (levelsOfFields_le fun entry hentry => (h entry (Table.mem_ofList hentry)).levels_le)

theorem plain_singleton {name : String} {value : Value} (h : value.Plain levels) :
    ∀ entry ∈ [(name, value)], entry.2.Plain levels :=
  List.forall_mem_singleton.mpr h

theorem plain_optionalField (name : String) (text : Option String) :
    ∀ entry ∈ optionalField name text, entry.2.Plain levels := by
  cases text with
  | none => exact List.forall_mem_nil _
  | some t => exact plain_singleton (plain_string t)

theorem plain_listField {name : String} {items : List Value}
    (h : ∀ item ∈ items, item.Plain levels) :
    ∀ entry ∈ listField name items, entry.2.Plain (levels + 1) := by
  cases items with
  | nil => exact List.forall_mem_nil _
  | cons first more => exact plain_singleton (plain_array h)

end Value

/-! ## The values of definitions -/

section

open Value

variable (levels : Nat)

theorem Flow.plain_toValue (flow : Flow) : flow.toValue.Plain (levels + 1) := by
  refine plain_object (List.forall_mem_append.mpr ⟨?_, plain_optionalField _ _⟩)
  exact List.forall_mem_cons.mpr ⟨plain_string _, plain_singleton (plain_string _)⟩

theorem Input.plain_toValue (input : Input) : input.toValue.Plain (levels + 1) :=
  plain_object (List.forall_mem_cons.mpr ⟨plain_string _, plain_optionalField _ _⟩)

theorem TaskSpec.plain_fields (spec : TaskSpec) :
    ∀ entry ∈ spec.fields, entry.2.Plain (levels + 2) := by
  have hrules : ∀ item ∈ spec.rules.map Value.string, item.Plain (levels + 1) :=
    List.forall_mem_map.mpr fun rule _ => plain_string rule
  have hinputs : ∀ item ∈ spec.inputs.map Input.toValue, item.Plain (levels + 1) :=
    List.forall_mem_map.mpr fun input _ => input.plain_toValue levels
  simp only [fields, List.forall_mem_append]
  exact ⟨⟨⟨⟨⟨plain_singleton (plain_string _), plain_optionalField _ _⟩, plain_listField hrules⟩,
    plain_optionalField _ _⟩, plain_listField hinputs⟩, plain_optionalField _ _⟩

theorem Element.plain_toValue (element : Element) : element.toValue.Plain (levels + 3) := by
  have hkind : ∀ entry ∈ element.kind.fields, entry.2.Plain (levels + 2) := by
    rw [ElementKind.fields]
    split
    · exact TaskSpec.plain_fields levels _
    · exact List.forall_mem_nil _
  have hentries : ∀ entry ∈ element.entries, entry.2.Plain (levels + 2) := by
    simp only [entries, List.forall_mem_append]
    exact ⟨⟨⟨plain_singleton (plain_string _), plain_optionalField _ _⟩,
      plain_singleton (plain_string _)⟩, hkind⟩
  exact plain_object hentries

/-- The value of a definition is plain. -/
theorem Definition.plain_toValue (definition : Definition) : definition.toValue.Plain 5 := by
  have helements : (Value.array (definition.elements.map Element.toValue)).Plain 4 :=
    plain_array (List.forall_mem_map.mpr fun element _ => element.plain_toValue 0)
  have hflows : (Value.array (definition.flows.map Flow.toValue)).Plain 4 :=
    plain_array (List.forall_mem_map.mpr fun flow _ => flow.plain_toValue 2)
  refine plain_object ?_
  simp only [List.forall_mem_append]
  exact ⟨⟨plain_singleton (plain_string _), plain_optionalField _ _⟩,
    List.forall_mem_cons.mpr ⟨helements, plain_singleton hflows⟩⟩

end

/-! ## Loading -/

/-- The document of a text whose value can be read has that value, and nothing stands behind it. -/
theorem Json.read_of_readValueOf {text : String} {value : Value}
    (h : readValueOf text = .ok value) :
    (read text).2 = none ∧ (read text).1.toValue .json 0 = .ok value := by
  rw [readValueOf, decode] at h
  rcases hread : read text with ⟨document, stop⟩
  rcases hvalue : document.toValue .json 0 with fault | value'
  · simp only [hread, hvalue] at h
    cases h
  · rcases stop with _ | stop
    · simp only [hread, hvalue] at h
      exact ⟨rfl, congrArg Except.ok (Except.ok.inj h)⟩
    · simp only [hread, hvalue] at h
      cases h

namespace Definition

variable {definition : Definition}

/-- What a text gives is what its document gives, if validation accepts it. -/
theorem ofJson_of_read (h : definition.validate = .ok ()) {text : String}
    (hend : (Json.read text).2 = none)
    (hdecode : decode .json (Json.read text).1 = .ok definition) :
    ofJson text = .ok definition := by
  have hread : Json.decode (decode .json) text = .ok definition := by
    rw [Json.decode, ← Prod.eta (Json.read text), hend]
    simp only [hdecode]
  simp only [ofJson, hread, validated, h, bind, Except.bind, pure, Except.pure]

/-- **Definitions survive being saved.** A definition that validation accepts is loaded from its
text as it was: its id, its name, its elements and flows in order, and all that is said of each of
them.  The same comes out of every variation of its document, in which the fields of each object
stand in any order and others stand among them that mean nothing there: out of a tree, if its levels
are allowed, and out of any text that can be read. -/
theorem survives_saving (definition : Definition) (h : definition.validate = .ok ()) :
    ofJson (Json.render definition.toValue) = .ok definition ∧
    (∀ (source : Source) (tree : Document), Varied .definition definition.toValue tree →
      source.Allows tree.levels → decode source tree = .ok definition) ∧
    (∀ (text : String) (value : Value), Json.readValueOf text = .ok value →
      Varied .definition definition.toValue (Json.read text).1 → ofJson text = .ok definition) := by
  have htree : ∀ (source : Source) (tree : Document), Varied .definition definition.toValue tree →
      source.Allows tree.levels → decode source tree = .ok definition := by
    intro source tree hvaried hlevels
    exact decode_of_varied hvaried (hvaried.isTree.hasValue (by rwa [Nat.zero_add]))
  refine ⟨?_, htree, fun text value hvalue hvaried => ?_⟩
  · obtain ⟨hnumberless, hlevels⟩ := definition.plain_toValue
    have hread := Json.read_render hnumberless
    refine ofJson_of_read h (by rw [hread]) ?_
    rw [hread]
    refine htree .json _ (Varied.refl .definition _) fun limit hlimit => hlevels.trans ?_
    obtain rfl := Option.some.inj hlimit
    decide
  · obtain ⟨hend, hvalue⟩ := Json.read_of_readValueOf hvalue
    exact ofJson_of_read h hend (decode_of_varied hvaried ⟨value, hvalue⟩)

end Definition

/-! ## A document turned round

A definition with a task behind a guarded flow.  Some fields of the task are written and some are
not, and in the other document its kind stands behind all of them. -/

namespace Shuffled

/-- The event with which the process starts. -/
def start : Element := ⟨"start", none, .startEvent⟩

/-- A choice of one. -/
def gate : Element := ⟨"gate", none, .exclusiveGateway⟩

/-- What the task is given, one part of it under another name. -/
def inputs : List Input := [⟨"claim", some "subject"⟩, ⟨"amount", none⟩]

/-- A task with inputs, but without rules or a script. -/
def ask : Element :=
  ⟨"ask", some "Ask a clerk", .task .user
    { TaskSpec.of "clerk" with
      documentation := some "Look at the claim", inputs := inputs, output := some "verdict" }⟩

/-- A flow with a guard. -/
def guarded : Flow := ⟨"gate", "ask", some "amount > 100"⟩

/-- A definition of these. -/
def definition : Definition where
  id := "p"
  name := some "Claims"
  elements := [start, gate, ask]
  flows := [⟨"start", "gate", none⟩, guarded]

/-- The event, its fields the other way round and behind one that means something only in tasks. -/
def startValue : Value :=
  .object [("agent", .array []), ("type", .string "startEvent"), ("id", .string "start")]

/-- The inputs; the first one's fields are the other way round and behind one that means nothing. -/
def inputsValue : Value :=
  .array [.object [("type", .null), ("target", .string "subject"), ("source", .string "claim")],
    Input.toValue ⟨"amount", none⟩]

/-- The task, its kind behind all that depends on it and before a field that means nothing. -/
def askValue : Value :=
  .object [("output", .string "verdict"), ("name", .string "Ask a clerk"), ("inputs", inputsValue),
    ("id", .string "ask"), ("documentation", .string "Look at the claim"),
    ("agent", .string "clerk"), ("type", .string "userTask"), ("note", .array [])]

/-- The flow, its fields the other way round and behind one that means nothing. -/
def guardedValue : Value :=
  .object [("id", .string "f"), ("targetRef", .string "ask"), ("sourceRef", .string "gate"),
    ("condition", .string "amount > 100")]

/-- The definition, its fields the other way round and behind one that means nothing. -/
def value : Value :=
  .object [("note", .object [("id", .null)]), ("name", .string "Claims"), ("id", .string "p"),
    ("flows", .array [Flow.toValue ⟨"start", "gate", none⟩, guardedValue]),
    ("elements", .array [startValue, gate.toValue, askValue])]

theorem varied_start : Varied .element start.toValue (.ofValue startValue) := by
  have hown : FieldsVaried .element [("id", .string "start"), ("type", .string "startEvent")]
      [("id", .scalar (.string "start")), ("type", .scalar (.string "startEvent"))] :=
    FieldsVaried.refl _ _
  have hothers : ∀ entry ∈ [("agent", Document.list [] .closed)],
      entry.1 ∉ Role.element.names [("id", .string "start"), ("type", .string "startEvent")] ∧
        entry.2.IsTree :=
    List.forall_mem_singleton.mpr ⟨by decide, trivial, rfl⟩
  exact .object hown hothers (List.reverse_perm _)

theorem varied_inputs :
    Varied .input (.array (inputs.map Input.toValue)) (.ofValue inputsValue) := by
  have hown : FieldsVaried .input [("source", .string "claim"), ("target", .string "subject")]
      [("source", .scalar (.string "claim")), ("target", .scalar (.string "subject"))] :=
    FieldsVaried.refl _ _
  have hothers : ∀ entry ∈ [("type", Document.scalar .null)],
      entry.1 ∉ Role.input.names [] ∧ entry.2.IsTree :=
    List.forall_mem_singleton.mpr ⟨by decide, trivial⟩
  have hfirst : Varied .input (Input.toValue ⟨"claim", some "subject"⟩)
      (.ofValue (.object
        [("type", .null), ("target", .string "subject"), ("source", .string "claim")])) :=
    .object hown hothers (List.reverse_perm _)
  exact .list (.cons hfirst (.cons (Varied.refl _ _) .nil))

theorem varied_ask : Varied .element ask.toValue (.ofValue askValue) := by
  let front : List (String × Document) :=
    [("agent", .scalar (.string "clerk")), ("documentation", .scalar (.string "Look at the claim")),
      ("id", .scalar (.string "ask")), ("inputs", .ofValue inputsValue),
      ("name", .scalar (.string "Ask a clerk")), ("output", .scalar (.string "verdict"))]
  have hown : FieldsVaried .element
      [("agent", .string "clerk"), ("documentation", .string "Look at the claim"),
        ("id", .string "ask"), ("inputs", .array (inputs.map Input.toValue)),
        ("name", .string "Ask a clerk"), ("output", .string "verdict"),
        ("type", .string "userTask")]
      (front ++ [("type", .scalar (.string "userTask"))]) :=
    .cons (.refl _ _) (.cons (.refl _ _) (.cons (.refl _ _) (.cons varied_inputs
      (FieldsVaried.refl _ _))))
  have hothers : ∀ entry ∈ [("note", Document.list [] .closed)],
      entry.1 ∉ Role.element.names [("type", .string "userTask")] ∧ entry.2.IsTree :=
    List.forall_mem_singleton.mpr ⟨by decide, trivial, rfl⟩
  exact .object hown hothers ((List.reverse_perm front).append_right _)

theorem varied_guarded : Varied .flow guarded.toValue (.ofValue guardedValue) := by
  have hown : FieldsVaried .flow
      [("condition", .string "amount > 100"), ("sourceRef", .string "gate"),
        ("targetRef", .string "ask")]
      [("condition", .scalar (.string "amount > 100")), ("sourceRef", .scalar (.string "gate")),
        ("targetRef", .scalar (.string "ask"))] :=
    FieldsVaried.refl _ _
  have hothers : ∀ entry ∈ [("id", Document.scalar (.string "f"))],
      entry.1 ∉ Role.flow.names [] ∧ entry.2.IsTree :=
    List.forall_mem_singleton.mpr ⟨by decide, trivial⟩
  exact .object hown hothers (List.reverse_perm _)

theorem varied_definition : Varied .definition definition.toValue (.ofValue value) := by
  have helements : Varied .element (.array (definition.elements.map Element.toValue))
      (.ofValue (.array [startValue, gate.toValue, askValue])) :=
    .list (.cons varied_start (.cons (Varied.refl _ _) (.cons varied_ask .nil)))
  have hflows : Varied .flow (.array (definition.flows.map Flow.toValue))
      (.ofValue (.array [Flow.toValue ⟨"start", "gate", none⟩, guardedValue])) :=
    .list (.cons (Varied.refl _ _) (.cons varied_guarded .nil))
  have hown : FieldsVaried .definition
      [("elements", .array (definition.elements.map Element.toValue)),
        ("flows", .array (definition.flows.map Flow.toValue)), ("id", .string "p"),
        ("name", .string "Claims")] _ :=
    .cons helements (.cons hflows (FieldsVaried.refl _ _))
  have hothers : ∀ entry ∈ [("note", Document.record [(.ok "id", .scalar .null)] none)],
      entry.1 ∉ Role.definition.names [] ∧ entry.2.IsTree :=
    List.forall_mem_singleton.mpr ⟨by decide, ⟨⟨_, rfl⟩, trivial, trivial⟩, rfl⟩
  exact .object hown hothers (List.reverse_perm _)

theorem allowed : Source.json.Allows (Document.ofValue value).levels := by
  intro limit hlimit
  obtain rfl := Option.some.inj hlimit
  decide

theorem read_value : Json.read (Json.render value) = (.ofValue value, none) := by
  have hflow := (Flow.plain_toValue 0 ⟨"start", "gate", none⟩).isNumberless
  have hgate := (gate.plain_toValue 0).isNumberless
  have hinput := (Input.plain_toValue 0 ⟨"amount", none⟩).isNumberless
  refine Json.read_render ?_
  simp [value, startValue, askValue, inputsValue, guardedValue, Value.IsNumberless,
    Value.AllNumberless, Value.FieldsNumberless, hflow, hgate, hinput]

theorem exists_readValueOf : ∃ read, Json.readValueOf (Json.render value) = .ok read := by
  have hvalue : (Document.ofValue value).HasValue .json 0 :=
    varied_definition.isTree.hasValue (by rw [Nat.zero_add]; exact allowed)
  obtain ⟨read, hread⟩ := hvalue
  refine ⟨read, ?_⟩
  rw [Json.readValueOf, Json.decode, read_value]
  simp only [hread]

/-- The definition is loaded from its own text, from the other tree and from the text of that. -/
theorem definition_survives :
    definition.validate = .ok () ∧
    Definition.ofJson (Json.render definition.toValue) = .ok definition ∧
    Definition.decode .json (.ofValue value) = .ok definition ∧
    Definition.ofJson (Json.render value) = .ok definition := by
  have hvalidate : definition.validate = .ok () := rfl
  obtain ⟨hown, htree, htext⟩ := Definition.survives_saving definition hvalidate
  obtain ⟨read, hread⟩ := exists_readValueOf
  refine ⟨hvalidate, hown, htree _ _ varied_definition allowed, htext _ _ hread ?_⟩
  rw [read_value]
  exact varied_definition

end Shuffled

end Workflow
