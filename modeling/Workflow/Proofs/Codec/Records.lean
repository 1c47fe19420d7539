import Mathlib.Data.List.Pairwise
import Workflow.Document.Decode

/-!
# Records with their fields in any order

The slots of a record are filled from its fields one after the other.  Where no slot touches another
one, the order of the fields does not matter, and neither do fields that are no slot.

* `Slot.Apart` — slots that do not touch each other.
* `RecordKind.separate_cons` — slots that are each put into a place of their own are separate.
* `RecordKind.foldlM_takeField_perm` — the order of the fields does not matter.
* `RecordKind.decode_of_perm` — a record is told by its own fields, in whatever order they stand and
  whatever other fields stand among them.
-/

namespace Workflow

theorem Decoded.bind_eq_ok {α β : Type} {decoded : Decoded α} {next : α → Decoded β} {result : β} :
    decoded >>= next = .ok result ↔ ∃ x, decoded = .ok x ∧ next x = .ok result := by
  rcases decoded with fault | x
  · exact ⟨nofun, nofun⟩
  · exact ⟨fun h => ⟨x, rfl, h⟩, fun ⟨y, hy, h⟩ => by cases hy; exact h⟩

/-- There is no fault to put in other words. -/
theorem Decoded.mapError_ok {ε α : Type} (x : α) (f : ε → Fault) :
    ((Except.ok x).mapError f : Decoded α) = .ok x := rfl

variable {α β γ δ : Type}

/-! ## Slots -/

namespace Slot

/-- A slot that is filled counts as filled. -/
def Marks (s : Slot β) : Prop :=
  ∀ document draft filled, s.fill document draft = .ok filled → s.isFilled filled = true

/-- Filling either of two slots leaves the other one as it is. -/
structure Apart (s t : Slot β) : Prop where
  /-- filling the one does not fill the other -/
  keeps : ∀ {document draft filled},
    s.fill document draft = .ok filled → t.isFilled filled = t.isFilled draft
  /-- nor the other way round -/
  kept : ∀ {document draft filled},
    t.fill document draft = .ok filled → s.isFilled filled = s.isFilled draft
  /-- they can be filled in either order -/
  swaps : ∀ {a b draft half filled}, s.fill a draft = .ok half → t.fill b half = .ok filled →
    ∃ other, t.fill b draft = .ok other ∧ s.fill a other = .ok filled
  /-- and the other way round -/
  swapped : ∀ {a b draft half filled}, t.fill b draft = .ok half → s.fill a half = .ok filled →
    ∃ other, s.fill a draft = .ok other ∧ t.fill b other = .ok filled

instance : Std.Symm (Apart (β := β)) where
  symm _ _ h := ⟨h.kept, h.keeps, h.swapped, h.swaps⟩

variable {name : String} {mayEnd : Bool} {decode : Document → Decoded γ} {get : β → Option γ}
  {put : β → γ → β}

theorem make_fill_eq_ok {document : Document} {draft filled : β} :
    (make name mayEnd decode get put).fill document draft = .ok filled ↔
      ∃ content, decode document = .ok content ∧ put draft content = filled := by
  simp only [make, Decoded.bind_eq_ok, pure, Except.pure, Except.ok.injEq]

@[simp] theorem make_marks (h : ∀ draft content, get (put draft content) = some content) :
    (make name mayEnd decode get put).Marks := by
  intro document draft filled hfill
  obtain ⟨content, -, rfl⟩ := make_fill_eq_ok.mp hfill
  exact congrArg Option.isSome (h draft content)

/-- Slots are apart if each is put into a place of its own. -/
@[simp] theorem make_apart {other : String} {mayEnd' : Bool} {decode' : Document → Decoded δ}
    {get' : β → Option δ} {put' : β → δ → β}
    (hget : ∀ draft content, get (put' draft content) = get draft)
    (hget' : ∀ draft content, get' (put draft content) = get' draft)
    (hput : ∀ draft x y, put' (put draft x) y = put (put' draft y) x) :
    (make name mayEnd decode get put).Apart (make other mayEnd' decode' get' put') where
  keeps h := by
    obtain ⟨content, -, rfl⟩ := make_fill_eq_ok.mp h
    exact congrArg Option.isSome (hget' _ content)
  kept h := by
    obtain ⟨content, -, rfl⟩ := make_fill_eq_ok.mp h
    exact congrArg Option.isSome (hget _ content)
  swaps h h' := by
    obtain ⟨x, hx, rfl⟩ := make_fill_eq_ok.mp h
    obtain ⟨y, hy, rfl⟩ := make_fill_eq_ok.mp h'
    exact ⟨_, make_fill_eq_ok.mpr ⟨y, hy, rfl⟩, make_fill_eq_ok.mpr ⟨x, hx, (hput _ x y).symm⟩⟩
  swapped h h' := by
    obtain ⟨y, hy, rfl⟩ := make_fill_eq_ok.mp h
    obtain ⟨x, hx, rfl⟩ := make_fill_eq_ok.mp h'
    exact ⟨_, make_fill_eq_ok.mpr ⟨x, hx, rfl⟩, make_fill_eq_ok.mpr ⟨y, hy, hput _ x y⟩⟩

end Slot

/-! ## The order of fields -/

/-- Fields whose names can all be read. -/
def Document.named (fields : List (String × Document)) : List (Except Stop String × Document) :=
  fields.map fun (name, field) => (.ok name, field)

/-- A record that can be read to its end. -/
def Document.object (fields : List (String × Document)) : Document :=
  .record (named fields) none

namespace RecordKind

variable {slots : List (Slot β)} {draft filled : β} {fields others : List (String × Document)}

/-- No slot touches another one. -/
structure Separate (slots : List (Slot β)) : Prop where
  marks : ∀ slot ∈ slots, slot.Marks
  apart : slots.Pairwise Slot.Apart

@[simp] theorem separate_nil : Separate ([] : List (Slot β)) :=
  ⟨List.forall_mem_nil _, .nil⟩

/-- Slots can be looked at one after the other. For those that are made, `Slot.make_marks` and
`Slot.make_apart` say what is to be asked of the places into which they are put. -/
@[simp] theorem separate_cons {slot : Slot β} {more : List (Slot β)} :
    Separate (slot :: more) ↔ slot.Marks ∧ (∀ other ∈ more, slot.Apart other) ∧ Separate more := by
  constructor
  · rintro ⟨hmarks, hapart⟩
    obtain ⟨hslot, hmore⟩ := List.forall_mem_cons.mp hmarks
    obtain ⟨hothers, hrest⟩ := List.pairwise_cons.mp hapart
    exact ⟨hslot, hothers, hmore, hrest⟩
  · rintro ⟨hslot, hothers, hmore, hrest⟩
    exact ⟨List.forall_mem_cons.mpr ⟨hslot, hmore⟩, List.pairwise_cons.mpr ⟨hothers, hrest⟩⟩

/-- Take in one field: it is passed over, or it fills its slot. -/
def takeField (slots : List (Slot β)) (draft : β) (entry : String × Document) : Decoded β :=
  match slots.find? (·.name == entry.1) with
  | none => do
    entry.2.skip
    return draft
  | some slot => if slot.isFilled draft then .error (repeated entry.1) else slot.fill entry.2 draft

/-- A field fills its slot, if the slot is still empty. -/
theorem fillFields_slot {name : String} {field : Document} {slot : Slot β} {half : β}
    {more : List (Except Stop String × Document)}
    (hfind : slots.find? (·.name == name) = some slot) (hempty : slot.isFilled draft = false)
    (hfill : slot.fill field draft = .ok half) :
    fillFields slots ((.ok name, field) :: more) draft = fillFields slots more half := by
  simp only [fillFields, Decoded.mapError_ok, hfind, hempty, hfill, bind, Except.bind,
    Bool.false_eq_true, if_false]

theorem fillFields_named (fields : List (String × Document)) (draft : β) :
    fillFields slots (Document.named fields) draft = fields.foldlM (takeField slots) draft := by
  induction fields generalizing draft with
  | nil => rfl
  | cons entry more ih =>
    obtain ⟨name, field⟩ := entry
    have hnamed : Document.named ((name, field) :: more) =
        (.ok name, field) :: Document.named more := rfl
    simp only [hnamed, List.foldlM_cons, ← ih, fillFields, takeField, Decoded.mapError_ok, bind,
      Except.bind]
    cases slots.find? (·.name == name) with
    | none => cases field.skip <;> rfl
    | some slot =>
      cases hfilled : slot.isFilled draft with
      | true => simp only [hfilled, if_true]; rfl
      | false => simp only [hfilled, Bool.false_eq_true, if_false]

theorem takeField_of_none {entry : String × Document}
    (hfind : slots.find? (·.name == entry.1) = none) :
    takeField slots draft entry = .ok filled ↔ entry.2.skip = .ok () ∧ draft = filled := by
  rw [takeField, hfind]
  rcases entry.2.skip with fault | _ <;> simp [bind, Except.bind, pure, Except.pure]

theorem takeField_of_some {entry : String × Document} {slot : Slot β}
    (hfind : slots.find? (·.name == entry.1) = some slot) :
    takeField slots draft entry = .ok filled ↔
      slot.isFilled draft = false ∧ slot.fill entry.2 draft = .ok filled := by
  rw [takeField, hfind]
  rcases hfilled : slot.isFilled draft with _ | _ <;> simp [hfilled]

/-- Two fields can change places. -/
theorem takeField_swap (h : Separate slots) {first second : String × Document} {half : β}
    (hfirst : takeField slots draft first = .ok half)
    (hsecond : takeField slots half second = .ok filled) :
    ∃ other, takeField slots draft second = .ok other ∧
      takeField slots other first = .ok filled := by
  cases hs : slots.find? (·.name == first.1) with
  | none =>
    obtain ⟨hskip, rfl⟩ := (takeField_of_none hs).mp hfirst
    exact ⟨filled, hsecond, (takeField_of_none hs).mpr ⟨hskip, rfl⟩⟩
  | some s =>
    cases ht : slots.find? (·.name == second.1) with
    | none =>
      obtain ⟨hskip, rfl⟩ := (takeField_of_none ht).mp hsecond
      exact ⟨draft, (takeField_of_none ht).mpr ⟨hskip, rfl⟩, hfirst⟩
    | some t =>
      obtain ⟨hempty, hfill⟩ := (takeField_of_some hs).mp hfirst
      obtain ⟨hempty', hfill'⟩ := (takeField_of_some ht).mp hsecond
      have hmem := List.mem_of_find?_eq_some hs
      have hmem' := List.mem_of_find?_eq_some ht
      -- a slot that is filled is not filled again, so these are two slots
      have hne : s ≠ t := by
        rintro rfl
        rw [h.marks s hmem _ _ _ hfill] at hempty'
        cases hempty'
      have hapart := h.apart.forall hmem hmem' hne
      obtain ⟨other, hother, hboth⟩ := hapart.swaps hfill hfill'
      rw [hapart.keeps hfill] at hempty'
      rw [← hapart.kept hother] at hempty
      exact ⟨other, (takeField_of_some ht).mpr ⟨hempty', hother⟩,
        (takeField_of_some hs).mpr ⟨hempty, hboth⟩⟩

/-- The order of the fields does not matter. -/
theorem foldlM_takeField_perm (h : Separate slots) (hperm : fields.Perm others)
    (hfill : fields.foldlM (takeField slots) draft = .ok filled) :
    others.foldlM (takeField slots) draft = .ok filled := by
  induction hperm generalizing draft filled with
  | nil => exact hfill
  | cons entry _ ih =>
    rw [List.foldlM_cons, Decoded.bind_eq_ok] at hfill ⊢
    obtain ⟨half, hentry, hrest⟩ := hfill
    exact ⟨half, hentry, ih hrest⟩
  | swap first second rest =>
    simp only [List.foldlM_cons, Decoded.bind_eq_ok] at hfill ⊢
    obtain ⟨half, hsecond, both, hfirst, hrest⟩ := hfill
    obtain ⟨other, hfirst, hsecond⟩ := takeField_swap h hsecond hfirst
    exact ⟨other, hfirst, both, hsecond, hrest⟩
  | trans _ _ ih ih' => exact ih' (ih hfill)

/-- Fields that are no slot are passed over. -/
theorem foldlM_takeField_others
    (hothers : ∀ entry ∈ others, (∀ slot ∈ slots, slot.name ≠ entry.1) ∧ entry.2.skip = .ok ())
    (draft : β) : others.foldlM (takeField slots) draft = .ok draft := by
  induction others with
  | nil => rfl
  | cons entry more ih =>
    obtain ⟨⟨hname, hskip⟩, hmore⟩ := List.forall_mem_cons.mp hothers
    have hfind : slots.find? (·.name == entry.1) = none := by
      rw [List.find?_eq_none]
      exact fun slot hslot => by simpa using hname slot hslot
    rw [List.foldlM_cons, Decoded.bind_eq_ok]
    exact ⟨draft, (takeField_of_none hfind).mpr ⟨hskip, rfl⟩, ih hmore⟩

/-- A record is told by its own fields, in whatever order they stand and whatever other fields stand
among them. -/
theorem decode_of_perm {kind : RecordKind β α} (h : Separate kind.slots) {value : α}
    (hfields : fields.foldlM (takeField kind.slots) kind.empty = .ok filled)
    (hcomplete : kind.complete filled = .ok value)
    (hothers : ∀ entry ∈ others,
      (∀ slot ∈ kind.slots, slot.name ≠ entry.1) ∧ entry.2.skip = .ok ())
    {all : List (String × Document)} (hall : all.Perm (fields ++ others)) (source : Source) :
    kind.decode source (.object all) = .ok value := by
  have hboth : (fields ++ others).foldlM (takeField kind.slots) kind.empty = .ok filled := by
    rw [List.foldlM_append, Decoded.bind_eq_ok]
    exact ⟨filled, hfields, foldlM_takeField_others hothers filled⟩
  have hfilled := foldlM_takeField_perm h hall.symm hboth
  simp only [decode, Document.object, fillFields_named, hfilled, Document.stopIf, bind, Except.bind,
    hcomplete]

end RecordKind

end Workflow
