import Mathlib.Data.List.Perm.Basic
import Workflow.Definition.Codec
import Workflow.Proofs.Codec.Documents
import Workflow.Proofs.Table

/-!
# Variations of a definition's document

There is more than one document for a definition.  The fields of each object can stand in any order,
and among them can be others, as long as their names mean nothing there.  Which names mean something
depends on the role that the object plays in the definition, and for an element also on whether it
is a task.

* `Role` — the roles of objects.
* `Varied` — a document is that of a value but for the order of fields and for fields that mean
  nothing.
* `Varied.fields` — the fields of a variation, in the order in which they were written.
* `Varied.refl`, `Varied.isTree` — the document of a value is one of its variations, and in all of
  them everything can be read.
-/

namespace Workflow

/-! ## Tables -/

namespace Table

variable {α : Type}

theorem perm_set {table : Table α} {key : String} (h : key ∉ table.map Prod.fst) (value : α) :
    (table.set key value).Perm ((key, value) :: table) := by
  induction table with
  | nil => exact .refl _
  | cons first rest ih =>
    obtain ⟨k, old⟩ := first
    rw [List.map_cons, List.mem_cons, not_or] at h
    rw [Table.set]
    split
    · exact .refl _
    · rw [if_neg h.1]
      exact ((ih h.2).cons _).trans (.swap _ _ _)

/-- Entries with new and different keys are added to a table. -/
theorem perm_merge {table : Table α} {entries : List (String × α)}
    (h : ((table ++ entries).map Prod.fst).Nodup) :
    (table.merge entries).Perm (table ++ entries) := by
  induction entries generalizing table with
  | nil =>
    rw [List.append_nil]
    exact .refl _
  | cons entry rest ih =>
    obtain ⟨key, value⟩ := entry
    have hmiddle : (table ++ (key, value) :: rest).Perm ((key, value) :: (table ++ rest)) :=
      List.perm_middle
    have hkeys := (hmiddle.map Prod.fst).nodup_iff.mp h
    rw [List.map_cons, List.nodup_cons, List.map_append, List.mem_append, not_or] at hkeys
    have hset : (table.set key value ++ rest).Perm (table ++ (key, value) :: rest) :=
      ((perm_set hkeys.1.1 value).append_right rest).trans hmiddle.symm
    exact (ih ((hset.map Prod.fst).nodup_iff.mpr h)).trans hset

/-- A table of entries with different keys has just these entries. -/
theorem perm_ofList {entries : List (String × α)} (h : (entries.map Prod.fst).Nodup) :
    (ofList entries).Perm entries :=
  perm_merge h

theorem mem_merge {table : Table α} {entries : List (String × α)} {entry : String × α}
    (h : entry ∈ table.merge entries) : entry ∈ table ∨ entry ∈ entries := by
  induction entries generalizing table with
  | nil => exact .inl h
  | cons first rest ih =>
    rcases ih h with h | h
    · rcases mem_set h with rfl | h
      · exact .inr List.mem_cons_self
      · exact .inl h
    · exact .inr (List.mem_cons_of_mem _ h)

/-- Whatever is in a table of entries is one of them. -/
theorem mem_ofList {entries : List (String × α)} {entry : String × α} (h : entry ∈ ofList entries) :
    entry ∈ entries :=
  (mem_merge h).resolve_left List.not_mem_nil

end Table

/-! ## Roles -/

/-- The roles of objects in a definition. A list has the role of its items. -/
inductive Role where
  | definition | element | flow | input | other

namespace Role

/-- The role of what is in a field of an object. -/
def inside : Role → String → Role
  | .definition, "elements" => .element
  | .definition, "flows" => .flow
  | .element, "inputs" => .input
  | _, _ => .other

/-- The names of the kinds of tasks. -/
def taskNames : List String :=
  ["serviceTask", "userTask", "businessRuleTask", "scriptTask", "sendTask", "receiveTask"]

/-- Whether a field says of its element that it is a task. -/
def saysTask : String × Value → Bool
  | ("type", .string kind) => taskNames.contains kind
  | _ => false

/-- The names that mean something in an object, given its fields. -/
def names : Role → List (String × Value) → List String
  | .definition, _ => ["id", "name", "elements", "flows"]
  | .element, fields =>
    ["id", "name", "type"] ++
      if fields.any saysTask then ["agent", "documentation", "rules", "script", "inputs", "output"]
      else []
  | .flow, _ => ["sourceRef", "targetRef", "condition"]
  | .input, _ => ["source", "target"]
  | .other, _ => []

end Role

/-! ## Variations -/

mutual

/-- A document is that of a value in a role, but for the order of fields and for fields that mean
nothing. -/
inductive Varied : Role → Value → Document → Prop
  /-- a value without parts has one document -/
  | scalar {role : Role} {value : Value} {s : Scalar} (h : value = s.toValue) :
    Varied role value (.scalar s)
  /-- the items of a list keep their order -/
  | list {role : Role} {items : List Value} {documents : List Document}
    (h : AllVaried role items documents) : Varied role (.array items) (.list documents .closed)
  /-- the fields of an object stand in any order, with others among them -/
  | object {role : Role} {fields : List (String × Value)}
    {own others all : List (String × Document)} (h : FieldsVaried role fields own)
    (hothers : ∀ entry ∈ others, entry.1 ∉ role.names fields ∧ entry.2.IsTree)
    (hall : all.Perm (own ++ others)) : Varied role (.object fields) (.object all)

/-- Documents are those of values in order, each but for the order of fields and for fields that
mean nothing. -/
inductive AllVaried : Role → List Value → List Document → Prop
  | nil {role : Role} : AllVaried role [] []
  | cons {role : Role} {value : Value} {document : Document} {items : List Value}
    {documents : List Document} (h : Varied role value document)
    (hmore : AllVaried role items documents) :
    AllVaried role (value :: items) (document :: documents)

/-- Documents are those of fields in order, each but for the order of fields in it and for fields
that mean nothing. -/
inductive FieldsVaried : Role → List (String × Value) → List (String × Document) → Prop
  | nil {role : Role} : FieldsVaried role [] []
  | cons {role : Role} {name : String} {value : Value} {document : Document}
    {fields : List (String × Value)} {documents : List (String × Document)}
    (h : Varied (role.inside name) value document) (hmore : FieldsVaried role fields documents) :
    FieldsVaried role ((name, value) :: fields) ((name, document) :: documents)

end

/-! ## What a variation is made of -/

theorem forall₂_append_left {α β : Type} {r : α → β → Prop} {first second : List α} {all : List β}
    (h : List.Forall₂ r (first ++ second) all) :
    ∃ before after, all = before ++ after ∧ List.Forall₂ r first before ∧
      List.Forall₂ r second after := by
  induction first generalizing all with
  | nil => exact ⟨[], all, rfl, .nil, h⟩
  | cons a first ih =>
    obtain ⟨b, rest, hab, hrest, rfl⟩ := List.forall₂_cons_left_iff.mp h
    obtain ⟨before, after, rfl, hbefore, hafter⟩ := ih hrest
    exact ⟨b :: before, after, rfl, .cons hab hbefore, hafter⟩

variable {role : Role} {document : Document}

theorem allVaried_iff {items : List Value} {documents : List Document} :
    AllVaried role items documents ↔ List.Forall₂ (Varied role) items documents := by
  constructor
  · intro h
    induction items generalizing documents with
    | nil =>
      cases h
      exact .nil
    | cons item more ih =>
      cases h with
      | cons h hmore => exact .cons h (ih hmore)
  · intro h
    induction h with
    | nil => exact .nil
    | cons h _ ih => exact .cons h ih

/-- A field is that of a value, but for the order of fields in it and for fields that mean
nothing. -/
def FieldVaried (role : Role) (field : String × Value) (entry : String × Document) : Prop :=
  entry.1 = field.1 ∧ Varied (role.inside field.1) field.2 entry.2

theorem fieldsVaried_iff {fields : List (String × Value)} {entries : List (String × Document)} :
    FieldsVaried role fields entries ↔ List.Forall₂ (FieldVaried role) fields entries := by
  constructor
  · intro h
    induction fields generalizing entries with
    | nil =>
      cases h
      exact .nil
    | cons field more ih =>
      cases h with
      | cons h hmore => exact .cons ⟨rfl, h⟩ (ih hmore)
  · intro h
    induction h with
    | nil => exact .nil
    | @cons field entry _ _ h _ ih =>
      obtain ⟨name, value⟩ := field
      obtain ⟨name', document⟩ := entry
      obtain ⟨rfl, h⟩ := h
      exact .cons h ih

theorem Varied.text {s : String} (h : Varied role (.string s) document) :
    document = .scalar (.string s) := by
  rcases h with ⟨h⟩
  rename_i scalar
  cases scalar <;> cases h
  rfl

theorem Varied.items {items : List Value} (h : Varied role (.array items) document) :
    ∃ documents, document = .list documents .closed ∧
      List.Forall₂ (Varied role) items documents := by
  cases h with
  | scalar h =>
    rename_i s
    cases s <;> cases h
  | list h => exact ⟨_, rfl, allVaried_iff.mp h⟩

/-- The fields of an object with different names, in the order in which they were written, and the
others that stand among them. -/
theorem Varied.fields {entries : List (String × Value)} (hnames : (entries.map Prod.fst).Nodup)
    (h : Varied role (.object (Table.ofList entries)) document) :
    ∃ own others all, document = .object all ∧ List.Forall₂ (FieldVaried role) entries own ∧
      (∀ entry ∈ others, entry.1 ∉ role.names (Table.ofList entries)) ∧
      all.Perm (own ++ others) := by
  cases h with
  | scalar h =>
    rename_i s
    cases s <;> cases h
  | @object _ _ own others all hfields hothers hall =>
    obtain ⟨ordered, hordered, hperm⟩ :=
      List.perm_comp_forall₂ (Table.perm_ofList hnames).symm (fieldsVaried_iff.mp hfields)
    exact ⟨ordered, others, all, rfl, hordered, fun entry hentry => (hothers entry hentry).1,
      hall.trans (hperm.symm.append_right others)⟩

/-! ## The document itself -/

theorem ofFields_eq_named (fields : List (String × Value)) :
    Document.ofFields fields =
      Document.named (fields.map fun (name, value) => (name, Document.ofValue value)) := by
  induction fields with
  | nil => rfl
  | cons field more ih =>
    rw [Document.ofFields, ih]
    rfl

mutual

/-- The document of a value is one of its variations. -/
theorem Varied.refl : ∀ (role : Role) (value : Value), Varied role value (.ofValue value)
  | _, .null => .scalar (s := .null) rfl
  | _, .bool b => .scalar (s := .bool b) rfl
  | _, .int i => .scalar (s := .int i) rfl
  | _, .double d => .scalar (s := .double d) rfl
  | _, .string t => .scalar (s := .string t) rfl
  | role, .array items => .list (AllVaried.refl role items)
  | role, .object fields => by
    have hfields := FieldsVaried.refl role fields
    rw [Document.ofValue, ofFields_eq_named]
    exact .object hfields (List.forall_mem_nil _) (by rw [List.append_nil])

theorem AllVaried.refl : ∀ (role : Role) (items : List Value),
    AllVaried role items (Document.ofItems items)
  | _, [] => .nil
  | role, item :: more => .cons (Varied.refl role item) (AllVaried.refl role more)

theorem FieldsVaried.refl : ∀ (role : Role) (fields : List (String × Value)),
    FieldsVaried role fields (fields.map fun (name, value) => (name, Document.ofValue value))
  | _, [] => .nil
  | role, (name, value) :: more =>
    .cons (Varied.refl (role.inside name) value) (FieldsVaried.refl role more)

end

/-! ## Reading a variation -/

mutual

/-- In a variation everything can be read. -/
theorem Varied.isTree : ∀ {role : Role} {value : Value} {document : Document},
    Varied role value document → document.IsTree
  | _, _, _, .scalar _ => trivial
  | _, _, _, .list h => ⟨h.allTrees, rfl⟩
  | _, _, _, .object h hothers hall => by
    refine Document.isTree_object.mpr fun entry hentry => ?_
    rcases List.mem_append.mp (hall.mem_iff.mp hentry) with hown | hother
    · exact h.isTree entry hown
    · exact (hothers entry hother).2

theorem AllVaried.allTrees : ∀ {role : Role} {items : List Value} {documents : List Document},
    AllVaried role items documents → Document.AllTrees documents
  | _, _, _, .nil => trivial
  | _, _, _, .cons h hmore => ⟨h.isTree, hmore.allTrees⟩

theorem FieldsVaried.isTree :
    ∀ {role : Role} {fields : List (String × Value)} {entries : List (String × Document)},
    FieldsVaried role fields entries → ∀ entry ∈ entries, entry.2.IsTree
  | _, _, _, .nil => List.forall_mem_nil _
  | _, _, _, .cons h hmore => List.forall_mem_cons.mpr ⟨h.isTree, hmore.isTree⟩

end

end Workflow
