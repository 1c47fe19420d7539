import Workflow.Proofs.Codec.Variations

/-!
# Filling slots from a variation

The fields of an object are written in some order, and a variation has them in another one, with
fields among them that mean nothing.  A record is read back from all of them if it is read back from
its own fields in the order in which they were written, and that can be told field by field.

* `FieldOf` — a field of a variation.
* `Takes` — what the fields of any variation fill in a draft.
* `RecordKind.decode_of_varied` — a record is read back from every variation of its document.
-/

namespace Workflow

open Document RecordKind

/-! ## Fields of a variation -/

/-- A field of a variation whose documents have values, inside `depth` levels. -/
structure FieldOf (role : Role) (source : Source) (depth : Nat) (field : String × Value)
    (entry : String × Document) : Prop where
  name : entry.1 = field.1
  varied : Varied (role.inside field.1) field.2 entry.2
  hasValue : entry.2.HasValue source depth

section

variable {α β γ : Type} {role : Role} {source : Source} {depth : Nat}
  {own : List (String × Document)}

theorem fieldsOf_of_hasValue {entries : List (String × Value)}
    (hown : List.Forall₂ (FieldVaried role) entries own)
    (hvalues : ∀ entry ∈ own, entry.2.HasValue source depth) :
    List.Forall₂ (FieldOf role source depth) entries own := by
  induction hown with
  | nil => exact .nil
  | cons hfield _ ih =>
    obtain ⟨hfirst, hmore⟩ := List.forall_mem_cons.mp hvalues
    exact .cons ⟨hfield.1, hfield.2, hfirst⟩ (ih hmore)

/-- The fields of a variation that has a value, in the order in which they were written, and the
others that stand among them. -/
theorem Varied.fieldsOf {entries : List (String × Value)} {document : Document}
    (h : Varied role (.object (Table.ofList entries)) document)
    (hnames : (entries.map Prod.fst).Nodup) (hvalue : document.HasValue source depth) :
    ∃ own others all, document = .object all ∧
      List.Forall₂ (FieldOf role source (depth + 1)) entries own ∧
      (∀ entry ∈ others, entry.1 ∉ role.names (Table.ofList entries) ∧
        entry.2.HasValue source (depth + 1)) ∧
      all.Perm (own ++ others) := by
  obtain ⟨own, others, all, rfl, hown, hothers, hall⟩ := h.fields hnames
  have hmem : ∀ entry ∈ own ++ others, entry.2.HasValue source (depth + 1) := fun entry hentry =>
    hvalue.field entry (hall.mem_iff.mpr hentry)
  obtain ⟨hmem, hmem'⟩ := List.forall_mem_append.mp hmem
  exact ⟨own, others, all, rfl, fieldsOf_of_hasValue hown hmem,
    fun entry h => ⟨hothers entry h, hmem' entry h⟩, hall⟩

/-- The field of a text has one document. -/
theorem eq_of_fieldsOf_text {name text : String}
    (h : List.Forall₂ (FieldOf role source depth) [(name, .string text)] own) :
    own = [(name, .scalar (.string text))] := by
  obtain ⟨⟨_, document⟩, rest, ⟨rfl, hvaried, -⟩, hrest, rfl⟩ := List.forall₂_cons_left_iff.mp h
  obtain rfl := List.forall₂_nil_left_iff.mp hrest
  have htext : document = .scalar (.string text) := hvaried.text
  rw [htext]

theorem eq_of_fieldsOf_optional {name : String} {text : Option String}
    (h : List.Forall₂ (FieldOf role source depth) (optionalField name text) own) :
    own = (text.map fun t => (name, .scalar (.string t))).toList := by
  cases text with
  | none => exact List.forall₂_nil_left_iff.mp h
  | some t => exact eq_of_fieldsOf_text h

variable {slots : List (Slot β)} {draft half filled : β} {name slotName : String} {mayEnd : Bool}

theorem map_fst_of_fieldsOf {entries : List (String × Value)}
    (h : List.Forall₂ (FieldOf role source depth) entries own) :
    own.map Prod.fst = entries.map Prod.fst := by
  induction h with
  | nil => rfl
  | cons hfield _ ih => rw [List.map_cons, List.map_cons, hfield.name, ih]

/-- Items are decoded one by one. -/
theorem listOf_eq_ok {decode : Document → Decoded γ} {parts : List γ} {write : γ → Value}
    {document : Document} (h : Varied role (.array (parts.map write)) document)
    (hvalue : document.HasValue source depth)
    (hdecode : ∀ item ∈ parts, ∀ document, Varied role (write item) document →
      document.HasValue source (depth + 1) → decode document = .ok item) :
    listOf decode document = .ok parts := by
  obtain ⟨documents, rfl, hitems⟩ := h.items
  have hvalues := hvalue.item
  have heach : each decode documents = .ok parts := by
    clear h hvalue
    induction parts generalizing documents with
    | nil =>
      obtain rfl := List.forall₂_nil_left_iff.mp hitems
      rfl
    | cons first more ih =>
      obtain ⟨document, rest, hfirst, hrest, rfl⟩ := List.forall₂_cons_left_iff.mp hitems
      obtain ⟨hvalue, hvalues⟩ := List.forall_mem_cons.mp hvalues
      obtain ⟨hhead, htail⟩ := List.forall_mem_cons.mp hdecode
      simp only [each, hhead document hfirst hvalue, ih htail rest hrest hvalues, bind, Except.bind,
        pure, Except.pure]
  simp only [listOf, heach, closeList, bind, Except.bind, pure, Except.pure]

/-- From one draft to another, the fields of any variation fill slots. -/
def Takes (slots : List (Slot β)) (role : Role) (source : Source) (depth : Nat)
    (fields : List (String × Value)) (draft filled : β) : Prop :=
  ∀ own, List.Forall₂ (FieldOf role source depth) fields own →
    own.foldlM (takeField slots) draft = .ok filled

namespace Takes

theorem append {first second : List (String × Value)}
    (hfirst : Takes slots role source depth first draft half)
    (hsecond : Takes slots role source depth second half filled) :
    Takes slots role source depth (first ++ second) draft filled := by
  intro own h
  obtain ⟨before, after, rfl, hbefore, hafter⟩ := forall₂_append_left h
  rw [List.foldlM_append, Decoded.bind_eq_ok]
  exact ⟨half, hfirst before hbefore, hsecond after hafter⟩

/-- One field fills its slot, if the slot is still empty. -/
theorem field {value : Value} {decode : Document → Decoded γ} {get : β → Option γ}
    {put : β → γ → β}
    (hfind : slots.find? (·.name == name) = some (.make slotName mayEnd decode get put))
    (hempty : get draft = none) {content : γ}
    (hdecode : ∀ document, Varied (role.inside name) value document →
      document.HasValue source depth → decode document = .ok content)
    (hput : put draft content = filled) :
    Takes slots role source depth [(name, value)] draft filled := by
  intro own h
  obtain ⟨⟨_, document⟩, rest, ⟨rfl, hvaried, hvalue⟩, hrest, rfl⟩ :=
    List.forall₂_cons_left_iff.mp h
  obtain rfl := List.forall₂_nil_left_iff.mp hrest
  rw [List.foldlM_cons, Decoded.bind_eq_ok]
  refine ⟨filled, (takeField_of_some hfind).mpr ⟨congrArg Option.isSome hempty, ?_⟩, rfl⟩
  exact Slot.make_fill_eq_ok.mpr ⟨content, hdecode document hvaried hvalue, hput⟩

/-- The field of a text. -/
theorem text {content : String} {get : β → Option String} {put : β → String → β}
    (hfind : slots.find? (·.name == name) = some (.make slotName mayEnd Document.text get put))
    (hempty : get draft = none) (hput : put draft content = filled) :
    Takes slots role source depth [(name, .string content)] draft filled := by
  refine field hfind hempty (fun document hvaried _ => ?_) hput
  rw [hvaried.text, Document.text]

/-- The field of a text that may be absent. -/
theorem optional {content : Option String} {get : β → Option (Option String)}
    {put : β → Option String → β}
    (hfind : slots.find? (·.name == name) =
      some (.make slotName mayEnd (Document.optional Document.text) get put))
    (hempty : get draft = none) (habsent : content = none → draft = filled)
    (hput : ∀ t, content = some t → put draft (some t) = filled) :
    Takes slots role source depth (optionalField name content) draft filled := by
  cases content with
  | none =>
    intro own h
    obtain rfl := List.forall₂_nil_left_iff.mp h
    rw [habsent rfl]
    rfl
  | some t =>
    refine field hfind hempty (fun document hvaried _ => ?_) (hput t rfl)
    rw [hvaried.text]
    rfl

/-- The field of a list. -/
theorem list {decode : Document → Decoded γ} {items : List γ} {write : γ → Value}
    {get : β → Option (List γ)} {put : β → List γ → β}
    (hfind : slots.find? (·.name == name) = some (.make slotName mayEnd (listOf decode) get put))
    (hempty : get draft = none)
    (hdecode : ∀ item ∈ items, ∀ document, Varied (role.inside name) (write item) document →
      document.HasValue source (depth + 1) → decode document = .ok item)
    (hput : put draft items = filled) :
    Takes slots role source depth [(name, .array (items.map write))] draft filled :=
  field hfind hempty (fun _ hvaried hvalue => listOf_eq_ok hvaried hvalue hdecode) hput

/-- The field of a list that is left out if it is empty. -/
theorem listField {decode : Document → Decoded γ} {items : List γ} {write : γ → Value}
    {get : β → Option (List γ)} {put : β → List γ → β}
    (hfind : slots.find? (·.name == name) = some (.make slotName mayEnd (listOf decode) get put))
    (hempty : get draft = none)
    (hdecode : ∀ item ∈ items, ∀ document, Varied (role.inside name) (write item) document →
      document.HasValue source (depth + 1) → decode document = .ok item)
    (habsent : items = [] → draft = filled) (hput : items ≠ [] → put draft items = filled) :
    Takes slots role source depth (Workflow.listField name (items.map write)) draft filled := by
  cases items with
  | nil =>
    intro own h
    obtain rfl := List.forall₂_nil_left_iff.mp h
    rw [habsent rfl]
    rfl
  | cons first more => exact list hfind hempty hdecode (hput nofun)

end Takes

/-- A record is read back from every variation of its document. -/
theorem RecordKind.decode_of_varied {kind : RecordKind β α} (hseparate : Separate kind.slots)
    {entries : List (String × Value)} {document : Document}
    (h : Varied role (.object (Table.ofList entries)) document)
    (hnames : (entries.map Prod.fst).Nodup) (hvalue : document.HasValue source depth)
    (hslots : ∀ slot ∈ kind.slots, slot.name ∈ role.names (Table.ofList entries))
    (hfields : Takes kind.slots role source (depth + 1) entries kind.empty filled)
    {value : α} (hcomplete : kind.complete filled = .ok value) (reader : Source) :
    kind.decode reader document = .ok value := by
  obtain ⟨own, others, all, rfl, hown, hothers, hall⟩ := h.fieldsOf hnames hvalue
  refine decode_of_perm hseparate (hfields own hown) hcomplete (fun entry hentry => ?_) hall reader
  obtain ⟨hname, hvalue⟩ := hothers entry hentry
  exact ⟨fun slot hslot heq => hname (heq ▸ hslots slot hslot), hvalue.skip⟩

end

end Workflow
