import Workflow.Proofs.Codec.Fields

/-!
# Definitions read from variations of their documents

Flows, inputs, tasks and definitions are records, and what their fields fill tells what is read.  An
element is no record: its id and its name are looked for first and everything else is handed on to
its kind, which looks for its own name and reads what is left as a task, or leaves it.  So the
fields of an element are told apart by where they are found (`Finds`), not by slots.

* `Flow.decode_of_varied`, `Input.decode_of_varied` — flows and inputs.
* `TaskSpec.decode_of_perm` — tasks, whose fields stand among those of their element.
* `Element.readFields_eq`, `ElementKind.splitTag_eq` — what is looked for is found wherever it
  stands.
* `Element.decode_of_varied`, `Definition.decode_of_varied` — elements and definitions.
-/

namespace Workflow

open Document RecordKind

theorem optionalField_sublist (name : String) (content : Option String) :
    ((optionalField name content).map Prod.fst).Sublist [name] := by
  cases content with
  | none => exact List.nil_sublist _
  | some t => exact .refl _

theorem listField_sublist (name : String) (items : List Value) :
    ((listField name items).map Prod.fst).Sublist [name] := by
  cases items with
  | nil => exact List.nil_sublist _
  | cons first more => exact .refl _

/-! ## Flows and inputs -/

namespace Flow

theorem separate : Separate Flow.recordKind.slots := by
  simp [recordKind]

/-- A flow is read back from every variation of its document. -/
theorem decode_of_varied {flow : Flow} {document : Document}
    (h : Varied .flow flow.toValue document) {source : Source} {depth : Nat}
    (hvalue : document.HasValue source depth) (reader : Source) :
    recordKind.decode reader document = .ok flow := by
  obtain ⟨tail, head, condition⟩ := flow
  have hends : Takes recordKind.slots .flow source (depth + 1)
      ([("sourceRef", .string tail)] ++ [("targetRef", .string head)]) recordKind.empty
      ⟨some tail, some head, none⟩ :=
    .append (.text rfl rfl rfl) (.text rfl rfl rfl)
  have hcondition : Takes recordKind.slots .flow source (depth + 1)
      (optionalField "condition" condition) ⟨some tail, some head, none⟩
      ⟨some tail, some head, condition.map some⟩ :=
    .optional rfl rfl (fun h => by rw [h]; rfl) (fun t h => by rw [h]; rfl)
  refine RecordKind.decode_of_varied separate h ?_ hvalue ?_ (hends.append hcondition) ?_ reader
  · cases condition <;> simp [optionalField]
  · simp [recordKind, Slot.make, Role.names]
  · cases condition <;> rfl

end Flow

namespace Input

theorem separate : Separate Input.recordKind.slots := by
  simp [recordKind]

/-- An input is read back from every variation of its document. -/
theorem decode_of_varied {input : Input} {document : Document}
    (h : Varied .input input.toValue document) {source : Source} {depth : Nat}
    (hvalue : document.HasValue source depth) (reader : Source) :
    recordKind.decode reader document = .ok input := by
  obtain ⟨key, target⟩ := input
  have hsource : Takes recordKind.slots .input source (depth + 1) [("source", .string key)]
      recordKind.empty ⟨some key, none⟩ :=
    .text rfl rfl rfl
  have htarget : Takes recordKind.slots .input source (depth + 1) (optionalField "target" target)
      ⟨some key, none⟩ ⟨some key, target.map some⟩ :=
    .optional rfl rfl (fun h => by rw [h]; rfl) (fun t h => by rw [h]; rfl)
  refine RecordKind.decode_of_varied separate h ?_ hvalue ?_ (hsource.append htarget) ?_ reader
  · cases target <;> simp [optionalField]
  · simp [recordKind, Slot.make, Role.names]
  · cases target <;> rfl

end Input

/-! ## Tasks -/

namespace TaskSpec

theorem separate (source : Source) : Separate (TaskSpec.recordKind source).slots := by
  simp [recordKind]

/-- The names of the fields of a task. -/
def taskFields : List String :=
  ["agent", "documentation", "rules", "script", "inputs", "output"]

theorem names_sublist (spec : TaskSpec) : (spec.fields.map Prod.fst).Sublist taskFields := by
  simp only [fields, List.map_append]
  exact (((((List.Sublist.refl ["agent"]).append (optionalField_sublist _ _)).append
    (listField_sublist _ _)).append (optionalField_sublist _ _)).append
    (listField_sublist _ _)).append (optionalField_sublist _ _)

/-- A list that is written unless it is empty. -/
def written {γ : Type} : List γ → Option (List γ)
  | [] => none
  | items => some items

theorem getD_written {γ : Type} (items : List γ) : (written items).getD [] = items := by
  cases items <;> rfl

theorem written_of_ne {γ : Type} {items : List γ} (h : items ≠ []) :
    written items = some items := by
  cases items with
  | nil => exact absurd rfl h
  | cons => rfl

/-- The fields of a task fill its slots. -/
theorem takes (spec : TaskSpec) (reader source : Source) (depth : Nat) :
    Takes (recordKind reader).slots .element source depth spec.fields (recordKind reader).empty
      ⟨some spec.agent, spec.documentation.map some, written spec.rules, spec.script.map some,
        written spec.inputs, spec.output.map some⟩ := by
  obtain ⟨agent, documentation, rules, script, inputs, output⟩ := spec
  have hagent : Takes (recordKind reader).slots .element source depth [("agent", .string agent)]
      (recordKind reader).empty ⟨some agent, none, none, none, none, none⟩ :=
    .text rfl rfl rfl
  have hdocumentation : Takes (recordKind reader).slots .element source depth
      (optionalField "documentation" documentation) ⟨some agent, none, none, none, none, none⟩
      ⟨some agent, documentation.map some, none, none, none, none⟩ :=
    .optional rfl rfl (fun h => by rw [h]; rfl) (fun t h => by rw [h]; rfl)
  have hrules : Takes (recordKind reader).slots .element source depth
      (listField "rules" (rules.map .string))
      ⟨some agent, documentation.map some, none, none, none, none⟩
      ⟨some agent, documentation.map some, written rules, none, none, none⟩ :=
    .listField rfl rfl (fun _ _ document hvaried _ => by rw [hvaried.text]; rfl)
      (fun h => by rw [h]; rfl) (fun h => by rw [written_of_ne h])
  have hscript : Takes (recordKind reader).slots .element source depth
      (optionalField "script" script)
      ⟨some agent, documentation.map some, written rules, none, none, none⟩
      ⟨some agent, documentation.map some, written rules, script.map some, none, none⟩ :=
    .optional rfl rfl (fun h => by rw [h]; rfl) (fun t h => by rw [h]; rfl)
  have hinputs : Takes (recordKind reader).slots .element source depth
      (listField "inputs" (inputs.map Input.toValue))
      ⟨some agent, documentation.map some, written rules, script.map some, none, none⟩
      ⟨some agent, documentation.map some, written rules, script.map some, written inputs, none⟩ :=
    .listField rfl rfl
      (fun _ _ document hvaried hvalue => Input.decode_of_varied hvaried hvalue reader)
      (fun h => by rw [h]; rfl) (fun h => by rw [written_of_ne h])
  have houtput : Takes (recordKind reader).slots .element source depth
      (optionalField "output" output)
      ⟨some agent, documentation.map some, written rules, script.map some, written inputs, none⟩
      ⟨some agent, documentation.map some, written rules, script.map some, written inputs,
        output.map some⟩ :=
    .optional rfl rfl (fun h => by rw [h]; rfl) (fun t h => by rw [h]; rfl)
  exact ((((hagent.append hdocumentation).append hrules).append hscript).append hinputs).append
    houtput

/-- A task is read back from its fields, in whatever order they stand and whatever other fields
stand among them. -/
theorem decode_of_perm {spec : TaskSpec} {source : Source} {depth : Nat}
    {own others all : List (String × Document)}
    (hown : List.Forall₂ (FieldOf .element source depth) spec.fields own)
    (hothers : ∀ entry ∈ others, entry.1 ∉ taskFields ∧ entry.2.HasValue source depth)
    (hall : all.Perm (own ++ others)) (reader : Source) :
    (recordKind reader).decode reader (.object all) = .ok spec := by
  refine RecordKind.decode_of_perm (separate reader) (takes spec reader source depth own hown) ?_
    (fun entry hentry => ?_) hall reader
  · obtain ⟨agent, documentation, rules, script, inputs, output⟩ := spec
    simp only [recordKind, RecordKind.require, getD_written, bind, Except.bind, pure, Except.pure]
    cases documentation <;> cases script <;> cases output <;> rfl
  · obtain ⟨hname, hvalue⟩ := hothers entry hentry
    refine ⟨fun slot hslot heq => hname (heq ▸ ?_), hvalue.skip⟩
    revert slot
    simp [recordKind, Slot.make, taskFields]

end TaskSpec

/-! ## Elements -/

/-- Among entries of one name, there is one or none, and what is found in it is put where nothing
was found before. -/
def Finds {γ : Type} (decode : Document → Decoded γ) (entries : List (String × Document))
    (before after : Option γ) : Prop :=
  entries = [] ∧ after = before ∨
    ∃ entry content, entries = [entry] ∧ before = none ∧ decode entry.2 = .ok content ∧
      after = some content

theorem Finds.nil {γ : Type} {decode : Document → Decoded γ} {before after : Option γ}
    (h : Finds decode [] before after) : after = before := by
  rcases h with ⟨-, h⟩ | ⟨_, _, h, -⟩
  · exact h
  · exact nomatch h

/-- Behind an entry there is no other one. -/
theorem Finds.cons {γ : Type} {decode : Document → Decoded γ} {entry : String × Document}
    {entries : List (String × Document)} {before after : Option γ}
    (h : Finds decode (entry :: entries) before after) :
    before = none ∧ ∃ content, decode entry.2 = .ok content ∧
      Finds decode entries (some content) after := by
  rcases h with ⟨h, -⟩ | ⟨_, content, h, hbefore, hdecode, hafter⟩
  · exact nomatch h
  · obtain ⟨rfl, rfl⟩ := List.cons.inj h
    exact ⟨hbefore, content, hdecode, .inl ⟨rfl, hafter⟩⟩

theorem Finds.of_perm {γ : Type} {decode : Document → Decoded γ}
    {entries others : List (String × Document)} {before after : Option γ}
    (h : Finds decode entries before after) (hperm : others.Perm entries) :
    Finds decode others before after := by
  rcases h with ⟨rfl, h⟩ | ⟨entry, content, rfl, h⟩
  · exact .inl ⟨hperm.eq_nil, h⟩
  · exact .inr ⟨entry, content, List.perm_singleton.mp hperm, h⟩

namespace Element

variable {source : Source} {depth : Nat} {fields : List (String × Document)}

/-- The fields of an element but its id and its name. -/
def others (fields : List (String × Document)) : List (String × Document) :=
  fields.filter fun entry => entry.1 ≠ "id" ∧ entry.1 ≠ "name"

theorem readFields_eq {draft : Draft} {id : Option String} {name : Option (Option String)}
    (hid : Finds Document.text (fields.filter (·.1 = "id")) draft.id id)
    (hname : Finds (Document.optional Document.text) (fields.filter (·.1 = "name")) draft.name name)
    (hothers : ∀ entry ∈ others fields, entry.2.HasValue source depth) :
    readFields source depth (named fields) draft =
      .ok ⟨id, name, (others fields).reverse ++ draft.others⟩ := by
  induction fields generalizing draft with
  | nil =>
    rw [hid.nil, hname.nil]
    rfl
  | cons entry more ih =>
    obtain ⟨key, field⟩ := entry
    -- a field is the id, or the name, or it is kept for the kind, behind those kept before
    have hnamed : named ((key, field) :: more) = (.ok key, field) :: named more := rfl
    by_cases hkey : key = "id"
    · subst hkey
      obtain ⟨hempty, content, htext, hid⟩ := Finds.cons hid
      simp only [hnamed, readFields, Decoded.mapError_ok, bind, Except.bind, hempty, htext]
      exact ih hid hname hothers
    · by_cases hkey' : key = "name"
      · subst hkey'
        obtain ⟨hempty, content, htext, hname⟩ := Finds.cons hname
        simp only [hnamed, readFields, Decoded.mapError_ok, bind, Except.bind, hempty, htext]
        exact ih hid hname hothers
      · have hpick : others ((key, field) :: more) = (key, field) :: others more :=
          List.filter_cons_of_pos (by simp [hkey, hkey'])
        rw [hpick] at hothers ⊢
        obtain ⟨⟨value, hvalue⟩, hothers⟩ := List.forall_mem_cons.mp hothers
        rw [List.filter_cons_of_neg (by simpa using hkey)] at hid
        rw [List.filter_cons_of_neg (by simpa using hkey')] at hname
        simp only [hnamed, readFields, Decoded.mapError_ok, bind, Except.bind, hkey, hkey', hvalue,
          if_false, List.reverse_cons, List.append_assoc, List.singleton_append]
        exact ih hid hname hothers

end Element

namespace ElementKind

theorem splitTag_eq {source : Source} {fields : List (String × Document)}
    {before after : Option Tag}
    (h : Finds (Tag.decode source) (fields.filter (·.1 = "type")) before after) :
    splitTag source fields before = .ok (after, fields.filter (·.1 ≠ "type")) := by
  induction fields generalizing before with
  | nil =>
    rw [h.nil]
    rfl
  | cons entry more ih =>
    obtain ⟨key, field⟩ := entry
    by_cases hkey : key = "type"
    · subst hkey
      obtain ⟨hempty, content, hdecode, hmore⟩ := Finds.cons h
      simp only [splitTag, hempty, hdecode, ih hmore, bind, Except.bind]
      rfl
    · rw [List.filter_cons_of_neg (by simpa using hkey)] at h
      rw [List.filter_cons_of_pos (by simpa using hkey)]
      simp only [splitTag, if_neg hkey, ih h, bind, Except.bind, pure, Except.pure]

/-- The kind without the task. -/
def tag : ElementKind → Tag
  | .startEvent => .startEvent
  | .endEvent => .endEvent
  | .task kind _ => .task kind
  | .exclusiveGateway => .exclusiveGateway
  | .parallelGateway => .parallelGateway

theorem decode_tag (kind : ElementKind) (source : Source) :
    Tag.decode source (.scalar (.string kind.name)) = .ok kind.tag := by
  rcases kind with _ | _ | ⟨kind, spec⟩ | _ | _
  case task => cases kind <;> rfl
  all_goals rfl

/-- The fields that only some kinds have. -/
def fields (kind : ElementKind) : List (String × Value) :=
  match kind.task? with
  | some spec => spec.fields
  | none => []

/-- The names that mean something only in some kinds. -/
def names (kind : ElementKind) : List String :=
  if kind.task?.isSome then TaskSpec.taskFields else []

theorem names_sublist (kind : ElementKind) : (kind.fields.map Prod.fst).Sublist kind.names := by
  rcases kind with _ | _ | ⟨kind, spec⟩ | _ | _
  case task => exact spec.names_sublist
  all_goals exact .slnil

theorem not_mem_names {kind : ElementKind} {name : String} (h : name ∉ TaskSpec.taskFields) :
    name ∉ kind.names := by
  rw [names]
  split
  · exact h
  · exact List.not_mem_nil

/-- A kind is read back from its fields, in whatever order they stand and whatever other fields
stand among them. -/
theorem decode_of_perm {kind : ElementKind} {source : Source} {depth : Nat}
    {own others all : List (String × Document)}
    (hown : List.Forall₂ (FieldOf .element source depth) kind.fields own)
    (hothers : ∀ entry ∈ others, entry.1 ∉ "type" :: kind.names ∧ entry.2.HasValue source depth)
    (hall : all.Perm (("type", .scalar (.string kind.name)) :: (own ++ others))) :
    ElementKind.decode source all = .ok kind := by
  -- the name of the kind stands in one field, so it is found and taken out wherever it stands
  have hrest : ∀ entry ∈ own ++ others, entry.1 ≠ "type" := by
    rw [List.forall_mem_append]
    constructor
    · intro entry hentry heq
      have hmem : entry.1 ∈ own.map Prod.fst := List.mem_map_of_mem hentry
      rw [map_fst_of_fieldsOf hown] at hmem
      exact not_mem_names (by decide) (heq ▸ kind.names_sublist.subset hmem)
    · intro entry hentry heq
      exact (hothers entry hentry).1 (heq ▸ List.mem_cons_self)
  have htype : Finds (Tag.decode source) (all.filter (·.1 = "type")) none (some kind.tag) := by
    refine Finds.of_perm (.inr ⟨("type", .scalar (.string kind.name)), kind.tag, ?_, rfl,
      kind.decode_tag source, rfl⟩) (hall.filter _)
    rw [List.filter_cons_of_pos (by simp),
      List.filter_eq_nil_iff.mpr fun entry hentry => by simpa using hrest entry hentry]
  have hperm : (all.filter (·.1 ≠ "type")).Perm (own ++ others) := by
    refine (hall.filter _).trans (.of_eq ?_)
    rw [List.filter_cons_of_neg (by simp),
      List.filter_eq_self.mpr fun entry hentry => by simpa using hrest entry hentry]
  have hsplit := splitTag_eq htype
  rcases kind with _ | _ | ⟨kind, spec⟩ | _ | _
  case task =>
    have hspec := TaskSpec.decode_of_perm hown
      (fun entry hentry => ⟨fun hmem => (hothers entry hentry).1 (List.mem_cons_of_mem _ hmem),
        (hothers entry hentry).2⟩) hperm source.buffered
    simp only [ElementKind.decode, hsplit, tag, RecordKind.require, bind, Except.bind]
    rw [← named, ← object, hspec]
    rfl
  all_goals
    simp only [ElementKind.decode, hsplit, tag, RecordKind.require, bind, Except.bind]
    rfl

end ElementKind

namespace Element

/-- The fields of an element. -/
def entries (element : Element) : List (String × Value) :=
  [("id", .string element.id)] ++ optionalField "name" element.name ++
    [("type", .string element.kind.name)] ++ element.kind.fields

theorem nodup_entries (element : Element) : (element.entries.map Prod.fst).Nodup := by
  have hsub : (element.entries.map Prod.fst).Sublist
      (["id"] ++ ["name"] ++ ["type"] ++ TaskSpec.taskFields) := by
    simp only [entries, List.map_append]
    refine (((List.Sublist.refl ["id"]).append (optionalField_sublist _ _)).append
      (List.Sublist.refl ["type"])).append (element.kind.names_sublist.trans ?_)
    rw [ElementKind.names]
    split
    · exact .refl _
    · exact List.nil_sublist _
  exact hsub.nodup (by decide)

theorem saysTask_of_ne {name : String} (h : name ≠ "type") (value : Value) :
    Role.saysTask (name, value) = false := by
  unfold Role.saysTask
  split
  · rename_i heq
    exact absurd (Prod.mk.inj heq).1 h
  · rfl

theorem any_saysTask_of_sublist {fields : List (String × Value)} {names : List String}
    (h : (fields.map Prod.fst).Sublist names) (hnames : "type" ∉ names) :
    fields.any Role.saysTask = false := by
  rw [List.any_eq_false]
  intro field hfield
  have hne : field.1 ≠ "type" := fun heq =>
    hnames (heq ▸ h.subset (List.mem_map_of_mem hfield))
  rw [saysTask_of_ne hne field.2]
  exact Bool.false_ne_true

theorem any_saysTask_entries (element : Element) :
    (Table.ofList element.entries).any Role.saysTask = element.kind.task?.isSome := by
  have hfields := any_saysTask_of_sublist element.kind.names_sublist
    (ElementKind.not_mem_names (by decide))
  have hname := any_saysTask_of_sublist (optionalField_sublist "name" element.name) (by decide)
  rw [(Table.perm_ofList element.nodup_entries).any_eq, entries, List.any_append, List.any_append,
    List.any_append, hfields, hname]
  rcases element.kind with _ | _ | ⟨kind, spec⟩ | _ | _
  case task => cases kind <;> rfl
  all_goals rfl

theorem names_entries (element : Element) :
    Role.element.names (Table.ofList element.entries) =
      ["id", "name", "type"] ++ element.kind.names := by
  rw [Role.names, any_saysTask_entries]
  rfl

/-- The documents of the fields that every element has. -/
def head (element : Element) : List (String × Document) :=
  [("id", .scalar (.string element.id))] ++
    (element.name.map fun t => ("name", .scalar (.string t))).toList ++
    [("type", .scalar (.string element.kind.name))]

section

variable {element : Element} {all tail : List (String × Document)}

theorem filter_tail (htail : ∀ entry ∈ tail, entry.1 ∉ ["id", "name", "type"]) {key : String}
    (hkey : key ∈ ["id", "name", "type"]) : tail.filter (·.1 = key) = [] := by
  refine List.filter_eq_nil_iff.mpr fun entry hentry heq => htail entry hentry ?_
  rwa [of_decide_eq_true heq]

theorem finds_id (htail : ∀ entry ∈ tail, entry.1 ∉ ["id", "name", "type"])
    (hall : all.Perm (element.head ++ tail)) :
    Finds Document.text (all.filter (·.1 = "id")) none (some element.id) := by
  refine Finds.of_perm (.inr ⟨("id", .scalar (.string element.id)), element.id, ?_, rfl, rfl,
    rfl⟩) (hall.filter _)
  rw [List.filter_append, filter_tail htail (by decide), head]
  cases element.name <;> rfl

theorem finds_name (htail : ∀ entry ∈ tail, entry.1 ∉ ["id", "name", "type"])
    (hall : all.Perm (element.head ++ tail)) :
    Finds (Document.optional Document.text) (all.filter (·.1 = "name")) none
      (element.name.map some) := by
  refine Finds.of_perm ?_ (hall.filter _)
  rw [List.filter_append, filter_tail htail (by decide), head]
  cases element.name with
  | none => exact .inl ⟨rfl, rfl⟩
  | some t => exact .inr ⟨("name", .scalar (.string t)), some t, rfl, rfl, rfl, rfl⟩

theorem perm_others (htail : ∀ entry ∈ tail, entry.1 ∉ ["id", "name", "type"])
    (hall : all.Perm (element.head ++ tail)) :
    (others all).Perm (("type", .scalar (.string element.kind.name)) :: tail) := by
  refine (hall.filter _).trans (.of_eq ?_)
  have hself : tail.filter (fun entry => entry.1 ≠ "id" ∧ entry.1 ≠ "name") = tail := by
    refine List.filter_eq_self.mpr fun entry hentry => ?_
    have hkey := htail entry hentry
    simp_all
  rw [List.filter_append, hself, head]
  cases element.name <;> rfl

end

/-- An element is read back from every variation of its document. -/
theorem decode_of_varied {element : Element} {document : Document}
    (h : Varied .element element.toValue document) {source : Source} {depth : Nat}
    (hvalue : document.HasValue source depth) : decode source depth document = .ok element := by
  have hentries : Varied .element (.object (Table.ofList element.entries)) document := h
  obtain ⟨own, rest, all, rfl, hown, hrest, hall⟩ := hentries.fieldsOf element.nodup_entries hvalue
  obtain ⟨front, own, rfl, hfront, hfields⟩ := forall₂_append_left hown
  obtain ⟨front, typed, rfl, hfront, htyped⟩ := forall₂_append_left hfront
  obtain ⟨identified, called, rfl, hid, hname⟩ := forall₂_append_left hfront
  obtain rfl := eq_of_fieldsOf_text hid
  obtain rfl := eq_of_fieldsOf_optional hname
  obtain rfl := eq_of_fieldsOf_text htyped
  rw [List.append_assoc, ← head] at hall
  rw [names_entries] at hrest
  have htail : ∀ entry ∈ own ++ rest, entry.1 ∉ ["id", "name", "type"] := by
    refine List.forall_mem_append.mpr ⟨fun entry hentry hmem => ?_, fun entry hentry hmem =>
      (hrest entry hentry).1 (List.mem_append_left _ hmem)⟩
    have hkey : entry.1 ∈ own.map Prod.fst := List.mem_map_of_mem hentry
    rw [map_fst_of_fieldsOf hfields] at hkey
    exact ElementKind.not_mem_names
      ((by decide : ∀ name ∈ ["id", "name", "type"], name ∉ TaskSpec.taskFields) _ hmem)
      (element.kind.names_sublist.subset hkey)
  have hread : readFields source (depth + 1) (named all) ⟨none, none, []⟩ =
      .ok ⟨some element.id, element.name.map some, (others all).reverse ++ []⟩ :=
    readFields_eq (finds_id htail hall) (finds_name htail hall) fun entry hentry =>
      hvalue.field entry (List.mem_of_mem_filter hentry)
  have hkind : ElementKind.decode source (others all) = .ok element.kind := by
    refine ElementKind.decode_of_perm hfields (fun entry hentry => ?_) (perm_others htail hall)
    obtain ⟨hkey, hvalue⟩ := hrest entry hentry
    refine ⟨fun hmem => hkey ?_, hvalue⟩
    rcases List.mem_cons.mp hmem with heq | hmem
    · exact List.mem_append_left _ (by rw [heq]; decide)
    · exact List.mem_append_right _ hmem
  simp only [decode, object, hread, Document.stopIf, RecordKind.require, List.append_nil,
    List.reverse_reverse, hkind, bind, Except.bind, pure, Except.pure]
  obtain ⟨id, name, kind⟩ := element
  cases name <;> rfl

end Element

namespace Definition

theorem separate (source : Source) : Separate (Definition.recordKind source).slots := by
  simp [recordKind]

/-- A definition is read back from every variation of its document. -/
theorem decode_of_varied {definition : Definition} {document : Document}
    (h : Varied .definition definition.toValue document) {source : Source}
    (hvalue : document.HasValue source 0) : decode source document = .ok definition := by
  obtain ⟨id, name, elements, flows⟩ := definition
  have hid : Takes (recordKind source).slots .definition source 1 [("id", .string id)]
      (recordKind source).empty ⟨some id, none, none, none⟩ :=
    .text rfl rfl rfl
  have hname : Takes (recordKind source).slots .definition source 1 (optionalField "name" name)
      ⟨some id, none, none, none⟩ ⟨some id, name.map some, none, none⟩ :=
    .optional rfl rfl (fun h => by rw [h]; rfl) (fun t h => by rw [h]; rfl)
  have hlists : Takes (recordKind source).slots .definition source 1
      ([("elements", .array (elements.map Element.toValue))] ++
        [("flows", .array (flows.map Flow.toValue))])
      ⟨some id, name.map some, none, none⟩ ⟨some id, name.map some, some elements, some flows⟩ :=
    .append
      (.list rfl rfl (fun _ _ document hvaried hvalue => Element.decode_of_varied hvaried hvalue)
        rfl)
      (.list rfl rfl
        (fun _ _ document hvaried hvalue => Flow.decode_of_varied hvaried hvalue source) rfl)
  refine RecordKind.decode_of_varied (separate source) h ?_ hvalue ?_
    ((hid.append hname).append hlists) ?_ source
  · cases name <;> simp [optionalField]
  · simp [recordKind, Slot.make, Role.names]
  · cases name <;> rfl

end Definition

end Workflow
