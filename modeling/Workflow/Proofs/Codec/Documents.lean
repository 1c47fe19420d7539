import Workflow.Proofs.Codec.Records

/-!
# Documents that have a value

A document has a value if nothing in it stopped the reader and it nests no deeper than its source
allows.  Then so have all its parts, and a reader who does not want it can pass over it.

* `Document.HasValue` — a document has a value.
* `Document.HasValue.skip` — it can be passed over.
* `Document.IsTree` — nothing stopped the reader.
* `Document.levels` — how deep a document nests.
* `Document.IsTree.hasValue` — a document in which nothing stopped the reader has a value if its
  source allows as many levels.
-/

namespace Workflow

/-- A source allows values that nest so deep. -/
def Source.Allows (source : Source) (levels : Nat) : Prop :=
  ∀ limit, source.maxDepth = some limit → levels ≤ limit

theorem Source.Allows.mono {source : Source} {levels levels' : Nat} (h : source.Allows levels')
    (hle : levels ≤ levels') : source.Allows levels :=
  fun limit hlimit => Nat.le_trans hle (h limit hlimit)

namespace Document

variable {source : Source} {depth : Nat}

/-- A document has a value, inside `depth` levels. -/
def HasValue (source : Source) (depth : Nat) (document : Document) : Prop :=
  ∃ value, document.toValue source depth = .ok value

/-! ## Parts -/

theorem hasValue_of_toItems {items : List Document} {values : List Value}
    (h : toItems source depth items = .ok values) : ∀ item ∈ items, item.HasValue source depth := by
  induction items generalizing values with
  | nil => exact fun _ hitem => nomatch hitem
  | cons first more ih =>
    obtain ⟨value, hfirst, h⟩ := Decoded.bind_eq_ok.mp h
    obtain ⟨others, hmore, -⟩ := Decoded.bind_eq_ok.mp h
    exact List.forall_mem_cons.mpr ⟨⟨value, hfirst⟩, ih hmore⟩

theorem hasValue_of_toFields {fields : List (String × Document)} {values : List (String × Value)}
    (h : toFields source depth (named fields) = .ok values) :
    ∀ field ∈ fields, field.2.HasValue source depth := by
  induction fields generalizing values with
  | nil => exact fun _ hfield => nomatch hfield
  | cons first more ih =>
    obtain ⟨name, field⟩ := first
    obtain ⟨text, -, h⟩ := Decoded.bind_eq_ok.mp h
    obtain ⟨value, hfirst, h⟩ := Decoded.bind_eq_ok.mp h
    obtain ⟨others, hmore, -⟩ := Decoded.bind_eq_ok.mp h
    exact List.forall_mem_cons.mpr ⟨⟨value, hfirst⟩, ih hmore⟩

/-- What a list holds is one level deeper. -/
theorem HasValue.item {items : List Document} {ending : ListEnd}
    (h : (Document.list items ending).HasValue source depth) :
    ∀ item ∈ items, item.HasValue source (depth + 1) := by
  obtain ⟨value, h⟩ := h
  obtain ⟨-, -, h⟩ := Decoded.bind_eq_ok.mp h
  obtain ⟨values, h, -⟩ := Decoded.bind_eq_ok.mp h
  exact hasValue_of_toItems h

/-- What a record holds is one level deeper. -/
theorem HasValue.field {fields : List (String × Document)}
    (h : (object fields).HasValue source depth) :
    ∀ field ∈ fields, field.2.HasValue source (depth + 1) := by
  obtain ⟨value, h⟩ := h
  obtain ⟨-, -, h⟩ := Decoded.bind_eq_ok.mp h
  obtain ⟨values, h, -⟩ := Decoded.bind_eq_ok.mp h
  exact hasValue_of_toFields h

/-! ## Passing over -/

mutual

theorem skip_of_toValue : ∀ {document : Document} {depth : Nat} {value : Value},
    document.toValue source depth = .ok value → document.skip = .ok ()
  | .scalar _, _, _, _ => rfl
  | .unreadable _ _, _, _, h => nomatch h
  | .list items ending, depth, value, h => by
    obtain ⟨-, -, h⟩ := Decoded.bind_eq_ok.mp h
    obtain ⟨values, hitems, h⟩ := Decoded.bind_eq_ok.mp h
    obtain ⟨⟨⟩, hending, -⟩ := Decoded.bind_eq_ok.mp h
    exact Decoded.bind_eq_ok.mpr ⟨(), skipItems_of_toItems hitems, hending⟩
  | .record fields ending, depth, value, h => by
    obtain ⟨-, -, h⟩ := Decoded.bind_eq_ok.mp h
    obtain ⟨values, hfields, h⟩ := Decoded.bind_eq_ok.mp h
    obtain ⟨⟨⟩, hending, -⟩ := Decoded.bind_eq_ok.mp h
    exact Decoded.bind_eq_ok.mpr ⟨(), skipFields_of_toFields hfields, hending⟩

theorem skipItems_of_toItems : ∀ {items : List Document} {depth : Nat} {values : List Value},
    toItems source depth items = .ok values → skipItems items = .ok ()
  | [], _, _, _ => rfl
  | item :: more, depth, values, h => by
    obtain ⟨value, hitem, h⟩ := Decoded.bind_eq_ok.mp h
    obtain ⟨others, hmore, -⟩ := Decoded.bind_eq_ok.mp h
    exact Decoded.bind_eq_ok.mpr ⟨(), skip_of_toValue hitem, skipItems_of_toItems hmore⟩

theorem skipFields_of_toFields :
    ∀ {fields : List (Except Stop String × Document)} {depth : Nat}
      {values : List (String × Value)},
    toFields source depth fields = .ok values → skipFields fields = .ok ()
  | [], _, _, _ => rfl
  | (name, field) :: more, depth, values, h => by
    obtain ⟨text, -, h⟩ := Decoded.bind_eq_ok.mp h
    obtain ⟨value, hfield, h⟩ := Decoded.bind_eq_ok.mp h
    obtain ⟨others, hmore, -⟩ := Decoded.bind_eq_ok.mp h
    exact Decoded.bind_eq_ok.mpr ⟨(), skip_of_toValue hfield, skipFields_of_toFields hmore⟩

end

/-- Whoever does not want a document that has a value can pass over it. -/
theorem HasValue.skip {document : Document} (h : document.HasValue source depth) :
    document.skip = .ok () := by
  obtain ⟨value, h⟩ := h
  exact skip_of_toValue h

/-! ## Trees -/

mutual

/-- Nothing in a document stopped the reader. -/
def IsTree : Document → Prop
  | .scalar _ => True
  | .unreadable _ _ => False
  | .list items ending => AllTrees items ∧ ending = .closed
  | .record fields ending => FieldsTrees fields ∧ ending = none

/-- Nothing in any of several documents stopped the reader. -/
def AllTrees : List Document → Prop
  | [] => True
  | item :: more => item.IsTree ∧ AllTrees more

/-- Nothing in any of several fields stopped the reader, neither in their names. -/
def FieldsTrees : List (Except Stop String × Document) → Prop
  | [] => True
  | (name, field) :: more => (∃ text, name = .ok text) ∧ field.IsTree ∧ FieldsTrees more

end

theorem isTree_object {fields : List (String × Document)} :
    (object fields).IsTree ↔ ∀ field ∈ fields, field.2.IsTree := by
  rw [object, IsTree, and_iff_left rfl]
  induction fields with
  | nil => exact ⟨fun _ => List.forall_mem_nil _, fun _ => trivial⟩
  | cons field more ih =>
    rw [List.forall_mem_cons, ← ih]
    exact ⟨fun h => ⟨h.2.1, h.2.2⟩, fun h => ⟨⟨field.1, rfl⟩, h.1, h.2⟩⟩

mutual

/-- How deep the lists and records of a document nest. -/
def levels : Document → Nat
  | .scalar _ | .unreadable _ _ => 0
  | .list items _ => levelsOfItems items + 1
  | .record fields _ => levelsOfFields fields + 1

/-- How deep the deepest of several documents nests. -/
def levelsOfItems : List Document → Nat
  | [] => 0
  | item :: more => max item.levels (levelsOfItems more)

/-- How deep the deepest of several fields nests. -/
def levelsOfFields : List (Except Stop String × Document) → Nat
  | [] => 0
  | (_, field) :: more => max field.levels (levelsOfFields more)

end

theorem enter_of_allows (h : source.Allows (depth + 1)) : enter source depth = .ok () := by
  rw [enter]
  split
  · rename_i limit hlimit
    exact if_pos (h limit hlimit)
  · rfl

mutual

theorem exists_toValue : ∀ (document : Document) (depth : Nat), document.IsTree →
    source.Allows (depth + document.levels) →
    ∃ value, document.toValue source depth = .ok value
  | .scalar s, _, _, _ => ⟨s.toValue, rfl⟩
  | .list items ending, depth, htree, hlevels => by
    obtain ⟨htrees, rfl⟩ := htree
    rw [levels] at hlevels
    have henter : enter source depth = .ok () := enter_of_allows (hlevels.mono (by omega))
    obtain ⟨values, hitems⟩ := exists_toItems items (depth + 1) htrees (hlevels.mono (by omega))
    refine ⟨.array values, ?_⟩
    simp only [toValue, henter, hitems, closeList, bind, Except.bind, pure, Except.pure]
  | .record fields ending, depth, htree, hlevels => by
    obtain ⟨htrees, rfl⟩ := htree
    rw [levels] at hlevels
    have henter : enter source depth = .ok () := enter_of_allows (hlevels.mono (by omega))
    obtain ⟨entries, hfields⟩ := exists_toFields fields (depth + 1) htrees (hlevels.mono (by omega))
    refine ⟨.object (Table.ofList entries), ?_⟩
    simp only [toValue, henter, hfields, stopIf, bind, Except.bind, pure, Except.pure]

theorem exists_toItems : ∀ (items : List Document) (depth : Nat), AllTrees items →
    source.Allows (depth + levelsOfItems items) →
    ∃ values, toItems source depth items = .ok values
  | [], _, _, _ => ⟨[], rfl⟩
  | item :: more, depth, htrees, hlevels => by
    rw [levelsOfItems] at hlevels
    obtain ⟨value, hitem⟩ := exists_toValue item depth htrees.1 (hlevels.mono (by omega))
    obtain ⟨values, hmore⟩ := exists_toItems more depth htrees.2 (hlevels.mono (by omega))
    refine ⟨value :: values, ?_⟩
    simp only [toItems, hitem, hmore, bind, Except.bind, pure, Except.pure]

theorem exists_toFields :
    ∀ (fields : List (Except Stop String × Document)) (depth : Nat), FieldsTrees fields →
    source.Allows (depth + levelsOfFields fields) →
    ∃ entries, toFields source depth fields = .ok entries
  | [], _, _, _ => ⟨[], rfl⟩
  | (name, field) :: more, depth, htrees, hlevels => by
    obtain ⟨⟨text, rfl⟩, hfield, hmore⟩ := htrees
    rw [levelsOfFields] at hlevels
    obtain ⟨value, hfield⟩ := exists_toValue field depth hfield (hlevels.mono (by omega))
    obtain ⟨entries, hmore⟩ := exists_toFields more depth hmore (hlevels.mono (by omega))
    refine ⟨(text, value) :: entries, ?_⟩
    simp only [toFields, Decoded.mapError_ok, hfield, hmore, bind, Except.bind, pure, Except.pure]

end

/-- A document in which everything can be read has a value if its source allows as many levels. -/
theorem IsTree.hasValue {document : Document} (htree : document.IsTree)
    (h : source.Allows (depth + document.levels)) : document.HasValue source depth :=
  exists_toValue document depth htree h

end Document

end Workflow
