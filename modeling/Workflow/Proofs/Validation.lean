import Mathlib.Data.List.Induction
import Workflow.Definition.Builder
import Workflow.Definition.Load
import Workflow.Proofs.Definition

/-!
# The first fault of a definition

Validation looks at the ids of the elements first, in order, and keeps those that it has seen.  Only
when all of them are new does it look at the flows, and at the source of each before its target.  So
it accepts what is well formed, and of the faults of anything else it blames the one that comes
first.  Whoever puts a definition together or reads it from text hears the same of it.

* `Definition.FirstFault` — the fault that comes first, said of the lists of elements and flows.
* `Definition.firstRepeated_eq_some_iff` — an id that occurred before, behind ids that did not.
* `Definition.fault?_eq_some_iff` — the fault that is found is the one that comes first.
* `Definition.foldl_add` — what is put together of pieces, list by list.
* `Definition.first_faults_are_blamed` — what is well formed is accepted, and the first fault of
  anything else is blamed, wherever the definition comes from.
-/

namespace Workflow

/-! ## Pieces -/

namespace Piece

/-- The name that a piece gives to the process. -/
def name? : Piece → Option String
  | .name text => some text
  | _ => none

/-- The elements that a piece adds. -/
def elements : Piece → List Element
  | .element e => [e]
  | _ => []

/-- The flows that a piece adds. -/
def flows : Piece → List Flow
  | .flow f => [f]
  | .sequence ids => (ids.zip ids.tail).map fun (source, target) => ⟨source, target, none⟩
  | _ => []

end Piece

namespace Definition

variable {definition : Definition}

/-- A definition in pieces: the name that is given last, and the elements and flows of the pieces in
order. -/
def ofPieces (id : String) (pieces : List Piece) : Definition where
  id := id
  name := (pieces.filterMap Piece.name?).getLast?
  elements := pieces.flatMap Piece.elements
  flows := pieces.flatMap Piece.flows

theorem chain_eq (ids : List String) : chain ids = (Piece.sequence ids).flows := by
  induction ids with
  | nil => rfl
  | cons first more ih =>
    cases more with
    | nil => rfl
    | cons second more =>
      rw [chain, ih]
      rfl

/-- A piece is put behind the others. -/
theorem add_ofPieces (id : String) (pieces : List Piece) (piece : Piece) :
    (ofPieces id pieces).add piece = ofPieces id (pieces ++ [piece]) := by
  simp only [ofPieces, List.filterMap_append, List.flatMap_append, List.flatMap_singleton]
  cases piece with
  | sequence ids => simp [add, chain_eq, Piece.name?, Piece.elements]
  | _ => simp [add, Piece.name?, Piece.elements, Piece.flows]

/-- Pieces that are put together one by one. -/
theorem foldl_add (id : String) (pieces : List Piece) :
    pieces.foldl add (empty id) = ofPieces id pieces := by
  induction pieces using List.reverseRecOn with
  | nil => rfl
  | append_singleton pieces piece ih =>
    rw [List.foldl_append, ih]
    exact add_ofPieces id pieces piece

/-! ## The fault that comes first -/

/-- The fault of a definition that comes first: all ids come before all flows, and among either it
is the order of the declaration that counts. -/
inductive FirstFault (definition : Definition) : Malformation → Prop where
  /-- the ids of the elements before are distinct, and one of them is that of the next -/
  | repeatedId {before after : List Element} {element : Element}
      (elements_eq : definition.elements = before ++ element :: after)
      (distinct : (before.map Element.id).Nodup)
      (occurred : element.id ∈ before.map Element.id) :
      FirstFault definition (.repeatedId element.id definition.id)
  /-- all ids are distinct, the flows before lead between elements, and the next leaves none -/
  | unknownSource {before after : List Flow} {flow : Flow}
      (distinct : definition.ids.Nodup)
      (flows_eq : definition.flows = before ++ flow :: after)
      (connected : ∀ f ∈ before, f.source ∈ definition.ids ∧ f.target ∈ definition.ids)
      (unknown : flow.source ∉ definition.ids) :
      FirstFault definition (.unknownEndpoint flow.source flow.target flow.source)
  /-- all ids are distinct, the flows before lead between elements, and the next leaves one but
  enters none -/
  | unknownTarget {before after : List Flow} {flow : Flow}
      (distinct : definition.ids.Nodup)
      (flows_eq : definition.flows = before ++ flow :: after)
      (connected : ∀ f ∈ before, f.source ∈ definition.ids ∧ f.target ∈ definition.ids)
      (known : flow.source ∈ definition.ids)
      (unknown : flow.target ∉ definition.ids) :
      FirstFault definition (.unknownEndpoint flow.source flow.target flow.target)

/-- An id is found to have occurred before if it is among those behind which it stands, or among
those seen so far, and these are all distinct. -/
theorem firstRepeated_eq_some_iff {seen ids : List String} {id : String} (hseen : seen.Nodup) :
    firstRepeated seen ids = some id ↔ ∃ before after,
      ids = before ++ id :: after ∧ (before ++ seen).Nodup ∧ id ∈ before ++ seen := by
  induction ids generalizing seen with
  | nil =>
    refine ⟨nofun, ?_⟩
    rintro ⟨before, after, hids, -⟩
    exact absurd hids.symm (List.append_ne_nil_of_right_ne_nil before (List.cons_ne_nil id after))
  | cons first more ih =>
    rw [firstRepeated]
    split
    · rename_i hmem
      constructor
      · rintro ⟨⟩
        exact ⟨[], more, rfl, hseen, hmem⟩
      · rintro ⟨before, after, hids, hnodup, -⟩
        rcases List.cons_eq_append_iff.mp hids with ⟨-, hids⟩ | ⟨others, rfl, -⟩
        · rw [(List.cons.inj hids).1]
        · -- the first id would be among those before, and it was seen
          exact absurd (List.mem_append_right others hmem) hnodup.notMem
    · rename_i hnew
      -- seen by then or standing before: for the ids behind the first one it makes no difference
      rw [ih (hseen.cons hnew)]
      constructor
      · rintro ⟨before, after, rfl, hnodup, hid⟩
        exact ⟨first :: before, after, rfl, List.nodup_middle.mp hnodup,
          List.perm_middle.mem_iff.mp hid⟩
      · rintro ⟨before, after, hids, hnodup, hid⟩
        rcases List.cons_eq_append_iff.mp hids with ⟨rfl, hids⟩ | ⟨others, rfl, rfl⟩
        · obtain ⟨rfl, -⟩ := List.cons.inj hids
          exact absurd hid hnew
        · exact ⟨others, after, rfl, List.nodup_middle.mpr hnodup,
            List.perm_middle.mem_iff.mpr hid⟩

/-- The ids of elements, of which none was seen before the first. -/
theorem firstRepeated_ids_eq_some_iff {id : String} :
    firstRepeated [] definition.ids = some id ↔ ∃ before element after,
      definition.elements = before ++ element :: after ∧ (before.map Element.id).Nodup ∧
        element.id ∈ before.map Element.id ∧ element.id = id := by
  rw [firstRepeated_eq_some_iff List.nodup_nil]
  simp only [List.append_nil, ids]
  constructor
  · rintro ⟨_, _, hids, hnodup, hid⟩
    obtain ⟨before, others, helements, rfl, hothers⟩ := List.map_eq_append_iff.mp hids
    obtain ⟨element, after, rfl, rfl, rfl⟩ := List.map_eq_cons_iff.mp hothers
    exact ⟨before, element, after, helements, hnodup, hid, rfl⟩
  · rintro ⟨before, element, after, helements, hnodup, hid, rfl⟩
    exact ⟨_, after.map Element.id, by rw [helements, List.map_append, List.map_cons], hnodup, hid⟩

theorem flowFault_eq_some_iff {ids : List String} {flow : Flow} {fault : Malformation} :
    flowFault ids flow = some fault ↔
      (flow.source ∉ ids ∧ fault = .unknownEndpoint flow.source flow.target flow.source) ∨
      (flow.source ∈ ids ∧ flow.target ∉ ids ∧
        fault = .unknownEndpoint flow.source flow.target flow.target) := by
  rw [flowFault]
  by_cases hsource : flow.source ∈ ids
  · by_cases htarget : flow.target ∈ ids
    · simp [hsource, htarget]
    · simp [hsource, htarget, eq_comm]
  · simp [hsource, eq_comm]

/-- What is found wrong is what is wrong first. -/
theorem firstFault_of_fault? {fault : Malformation} (h : definition.fault? = some fault) :
    definition.FirstFault fault := by
  rw [fault?] at h
  split at h
  · rename_i id hrepeated
    obtain ⟨before, element, after, helements, hnodup, hid, rfl⟩ :=
      firstRepeated_ids_eq_some_iff.mp hrepeated
    obtain rfl := Option.some.inj h
    exact .repeatedId helements hnodup hid
  · rename_i hrepeated
    have hdistinct := firstRepeated_ids_eq_none_iff.mp hrepeated
    obtain ⟨before, flow, after, hflows, hflow, hbefore⟩ := List.findSome?_eq_some_iff.mp h
    have hconnected := fun f hf => flowFault_eq_none_iff.mp (hbefore f hf)
    rcases flowFault_eq_some_iff.mp hflow with ⟨hsource, rfl⟩ | ⟨hsource, htarget, rfl⟩
    · exact .unknownSource hdistinct hflows hconnected hsource
    · exact .unknownTarget hdistinct hflows hconnected hsource htarget

/-- Behind flows that lead between elements, what is wrong with the next flow is found. -/
theorem fault?_of_flowFault (hdistinct : definition.ids.Nodup) {before after : List Flow}
    {flow : Flow} (hflows : definition.flows = before ++ flow :: after)
    (hconnected : ∀ f ∈ before, f.source ∈ definition.ids ∧ f.target ∈ definition.ids)
    {fault : Malformation} (hflow : flowFault definition.ids flow = some fault) :
    definition.fault? = some fault := by
  have hbefore : ∀ f ∈ before, flowFault definition.ids f = none :=
    fun f hf => flowFault_eq_none_iff.mpr (hconnected f hf)
  rw [fault?, firstRepeated_ids_eq_none_iff.mpr hdistinct]
  exact List.findSome?_eq_some_iff.mpr ⟨before, flow, after, hflows, hflow, hbefore⟩

/-- The fault that is found is the one that comes first. -/
theorem fault?_eq_some_iff {fault : Malformation} :
    definition.fault? = some fault ↔ definition.FirstFault fault := by
  refine ⟨firstFault_of_fault?, fun h => ?_⟩
  cases h with
  | repeatedId helements hnodup hid =>
    rw [fault?, firstRepeated_ids_eq_some_iff.mpr ⟨_, _, _, helements, hnodup, hid, rfl⟩]
  | unknownSource hdistinct hflows hconnected hsource =>
    exact fault?_of_flowFault hdistinct hflows hconnected
      (flowFault_eq_some_iff.mpr (.inl ⟨hsource, rfl⟩))
  | unknownTarget hdistinct hflows hconnected hsource htarget =>
    exact fault?_of_flowFault hdistinct hflows hconnected
      (flowFault_eq_some_iff.mpr (.inr ⟨hsource, htarget, rfl⟩))

/-! ## Verdicts -/

/-- What is returned of a definition is a verdict on it: `accepted` exactly if it is well formed,
and a fault exactly if it comes first. -/
structure IsVerdict {α : Type} (definition : Definition) (accepted : α) (result : Except Error α) :
    Prop where
  /-- only what is well formed is accepted, and all of that -/
  accepts_iff : ∀ value, result = .ok value ↔ value = accepted ∧ definition.WellFormed
  /-- only the fault that comes first is blamed, and always if there is one -/
  blames_iff : ∀ error, result = .error error ↔
    ∃ fault, definition.FirstFault fault ∧ error = .malformedProcess fault

/-- A verdict follows what is found wrong. -/
theorem isVerdict_of_fault? {α : Type} {accepted : α} {result : Except Error α}
    (hfault : ∀ fault, definition.fault? = some fault →
      result = .error (.malformedProcess fault))
    (hfaultless : definition.fault? = none → result = .ok accepted) :
    definition.IsVerdict accepted result := by
  rcases hfound : definition.fault? with _ | fault
  · obtain rfl := hfaultless hfound
    refine ⟨fun value => ⟨?_, ?_⟩, fun error => ⟨nofun, ?_⟩⟩
    · rintro ⟨⟩
      exact ⟨rfl, fault?_eq_none_iff.mp hfound⟩
    · rintro ⟨rfl, -⟩
      rfl
    · rintro ⟨fault, hfirst, -⟩
      exact absurd (hfound.symm.trans (fault?_eq_some_iff.mpr hfirst)) nofun
  · obtain rfl := hfault fault hfound
    refine ⟨fun value => ⟨nofun, ?_⟩, fun error => ⟨?_, ?_⟩⟩
    · rintro ⟨-, hwell⟩
      exact absurd (hfound.symm.trans (fault?_eq_none_iff.mpr hwell)) nofun
    · rintro ⟨⟩
      exact ⟨fault, fault?_eq_some_iff.mp hfound, rfl⟩
    · rintro ⟨other, hfirst, rfl⟩
      rw [Option.some.inj (hfound.symm.trans (fault?_eq_some_iff.mpr hfirst))]

theorem isVerdict_validate (definition : Definition) :
    definition.IsVerdict () definition.validate :=
  isVerdict_of_fault? (fun fault hfault => by rw [validate, hfault])
    (fun hfault => by rw [validate, hfault])

theorem isVerdict_validated (definition : Definition) :
    definition.IsVerdict definition definition.validated :=
  isVerdict_of_fault? (fun fault hfault => by rw [validated, validate, hfault]; rfl)
    (fun hfault => by rw [validated, validate, hfault]; rfl)

/-- **The first fault is blamed.** Validation accepts a definition, whatever its elements and flows
are, exactly if it is well formed: its ids are distinct and its flows lead between elements.  Of any
other it blames the first fault: the id of the first element whose id occurred before, and only if
there is none, an endpoint of the first flow that has an unknown one, the source before the target.
The same is heard, and what is accepted is returned as it is, where the definition is put together
from pieces or read from JSON or TOML text. -/
theorem first_faults_are_blamed (definition : Definition) :
    definition.IsVerdict () definition.validate ∧
    (∀ id pieces, ofPieces id pieces = definition →
      definition.IsVerdict definition (build id pieces)) ∧
    (∀ text, Json.decode (decode .json) text = .ok definition →
      definition.IsVerdict definition (ofJson text)) ∧
    (∀ text, Toml.decode (decode .toml) text = .ok definition →
      definition.IsVerdict definition (ofToml text)) := by
  have hvalidated := definition.isVerdict_validated
  refine ⟨definition.isVerdict_validate, ?_, fun text hread => ?_, fun text hread => ?_⟩
  · rintro id pieces rfl
    rwa [build, foldl_add]
  · rw [ofJson, hread]
    exact hvalidated
  · rw [ofToml, hread]
    exact hvalidated

end Definition

namespace Mangled

/-- An end event. -/
def event (id : String) : Element :=
  ⟨id, none, .endEvent⟩

/-- A process in which two ids occur twice, one between the two places of the other, and nothing is
at either end of the flow. -/
def process : Definition where
  id := "p"
  name := none
  elements := [event "a", event "b", event "b", event "a"]
  flows := [⟨"x", "y", none⟩]

/-- The process without the elements whose ids occurred before. -/
def loose : Definition :=
  { process with elements := [event "a", event "b"] }

/-- The process in pieces, the flow before all elements. -/
def pieces : List Piece :=
  .sequence ["x", "y"] :: process.elements.map .element

/-- The lines of TOML text for an event. -/
def eventLines (id : String) : List String :=
  ["[[elements]]", "id = \"" ++ id ++ "\"", "type = \"endEvent\""]

/-- The lines of TOML text for the process. -/
def lines : List String :=
  "id = \"p\"" :: process.ids.flatMap eventLines ++
    ["[[flows]]", "sourceRef = \"x\"", "targetRef = \"y\""]

/-- The process as TOML text. -/
def text : String :=
  String.ofList (lines.flatMap fun line => line.toList ++ ['\n'])

theorem firstFault_process : process.FirstFault (.repeatedId "b" "p") := by
  have helements : process.elements = [event "a", event "b"] ++ event "b" :: [event "a"] := rfl
  exact .repeatedId helements (by decide) (by decide)

theorem firstFault_loose : loose.FirstFault (.unknownEndpoint "x" "y" "x") := by
  have hflows : loose.flows = [] ++ ⟨"x", "y", none⟩ :: [] := rfl
  exact .unknownSource (by decide) hflows (List.forall_mem_nil _) (by decide)

theorem decode_json :
    Json.decode (Definition.decode .json) (Json.render process.toValue) = .ok process := by
  rw [Json.decode, Json.read, Json.render, String.toList_ofList]
  decide +kernel

theorem decode_toml : Toml.decode (Definition.decode .toml) text = .ok process := by
  rw [Toml.decode, Toml.read, text, String.toList_ofList]
  decide +kernel

/-- Of all its faults the process is blamed for the element that comes third, whether it is put
together or read. Without repeated ids, the source of the flow is blamed. -/
theorem faults_of_process :
    Definition.ofPieces "p" pieces = process ∧
    Json.decode (Definition.decode .json) (Json.render process.toValue) = .ok process ∧
    Toml.decode (Definition.decode .toml) text = .ok process ∧
    process.validate = .error (.malformedProcess (.repeatedId "b" "p")) ∧
    Definition.build "p" pieces = .error (.malformedProcess (.repeatedId "b" "p")) ∧
    Definition.ofJson (Json.render process.toValue) =
      .error (.malformedProcess (.repeatedId "b" "p")) ∧
    Definition.ofToml text = .error (.malformedProcess (.repeatedId "b" "p")) ∧
    loose.validate = .error (.malformedProcess (.unknownEndpoint "x" "y" "x")) := by
  obtain ⟨hvalidate, hbuild, hjson, htoml⟩ := Definition.first_faults_are_blamed process
  obtain ⟨hloose, -⟩ := Definition.first_faults_are_blamed loose
  have hpieces : Definition.ofPieces "p" pieces = process := rfl
  have hfirst : ∃ fault, process.FirstFault fault ∧
      Error.malformedProcess (.repeatedId "b" "p") = .malformedProcess fault :=
    ⟨_, firstFault_process, rfl⟩
  exact ⟨hpieces, decode_json, decode_toml, (hvalidate.blames_iff _).mpr hfirst,
    ((hbuild "p" pieces hpieces).blames_iff _).mpr hfirst,
    ((hjson _ decode_json).blames_iff _).mpr hfirst,
    ((htoml _ decode_toml).blames_iff _).mpr hfirst,
    (hloose.blames_iff _).mpr ⟨_, firstFault_loose, rfl⟩⟩

end Mangled

end Workflow
