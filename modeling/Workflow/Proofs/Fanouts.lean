import Mathlib.Data.List.TakeWhile
import Workflow.Sink

/-!
# Fan-outs with members that panic

A fan-out hands each span to its members in order.  A member that panics ends that, and since only
the report to the whole sink is guarded, the panic goes past all fan-outs around the member: nothing
that stands behind it, at whatever depth, gets the span.  So it is decided by the members before a
sink whether it gets all spans or none.

* `Sink.leaves` — the sinks that the spans go to in the end, in order.
* `Sink.reached` — those before the first one that panics.
* `Sink.report_eq` — what a report comes to: each sink that is reached gets the span once, and a
  panic leaves a warning behind.
* `Sink.spans_up_to_panic` — what sequences of reports come to.
-/

namespace Workflow

namespace Sink

/-! ## The members at every depth -/

/-- Whether a sink panics by itself. -/
def isPanicking : Sink → Bool
  | panicking => true
  | _ => false

mutual

/-- The sinks that are no fan-outs among a sink and its members at every depth, in order. -/
def leaves : Sink → List Sink
  | fanout members => leavesOf members
  | sink => [sink]

/-- The sinks that are no fan-outs in a list and among its members at every depth, in order. -/
def leavesOf : List Sink → List Sink
  | [] => []
  | sink :: more => leaves sink ++ leavesOf more

end

/-- Whether a sink panics, by itself or by a member. -/
def panics (sink : Sink) : Bool :=
  sink.leaves.any isPanicking

/-- The sinks before the first that panics. -/
def reached (sink : Sink) : List Sink :=
  sink.leaves.takeWhile (!·.isPanicking)

/-- What holds of a sink if it holds of the members of every fan-out. -/
theorem induction {motive : Sink → Prop}
    (leaf : ∀ sink, (∀ members, sink ≠ fanout members) → motive sink)
    (fanout : ∀ members, (∀ member ∈ members, motive member) → motive (.fanout members)) :
    ∀ sink, motive sink
  | .fanout members => fanout members fun member _ => induction leaf fanout member
  | .null => leaf _ nofun
  | .recording _ => leaf _ nofun
  | .panicking => leaf _ nofun
  | .tracing => leaf _ nofun
  | .bus _ => leaf _ nofun
  | .spanLog _ => leaf _ nofun

theorem leavesOf_eq (members : List Sink) : leavesOf members = members.flatMap leaves := by
  induction members with
  | nil => rfl
  | cons sink more ih => rw [leavesOf, ih, List.flatMap_cons]

theorem leaves_fanout (members : List Sink) :
    (fanout members).leaves = members.flatMap leaves := by
  rw [leaves, leavesOf_eq]

theorem leaves_of_leaf {sink : Sink} (h : ∀ members, sink ≠ fanout members) :
    sink.leaves = [sink] := by
  cases sink with
  | fanout members => exact absurd rfl (h members)
  | _ => rfl

/-- No fan-out is a leaf. -/
theorem ne_fanout_of_mem_leaves {sink leaf : Sink} (h : leaf ∈ sink.leaves)
    (members : List Sink) : leaf ≠ fanout members := by
  induction sink using Sink.induction with
  | leaf sink hsink =>
    rw [leaves_of_leaf hsink, List.mem_singleton] at h
    rw [h]
    exact hsink members
  | fanout _ ih =>
    rw [leaves_fanout] at h
    obtain ⟨member, hmember, hleaf⟩ := List.mem_flatMap.mp h
    exact ih member hmember hleaf

/-! ## What a sink does with a span -/

/-- What several leaves do with a span, one after the other. -/
def shares (span : Span) (leaves : List Sink) : List Delivery :=
  leaves.flatMap fun leaf => (leaf.take span).1

theorem shares_append (span : Span) (first second : List Sink) :
    shares span (first ++ second) = shares span first ++ shares span second :=
  List.flatMap_append

/-- Behind a sink that panics, nothing more is reached. -/
theorem takeWhile_append_of_any {first : List Sink} (h : first.any isPanicking = true)
    (second : List Sink) :
    (first ++ second).takeWhile (!·.isPanicking) = first.takeWhile (!·.isPanicking) := by
  obtain ⟨leaf, hleaf, hpanicking⟩ := List.any_eq_true.mp h
  rw [List.takeWhile_append, if_neg]
  intro hlength
  have hall := List.takeWhile_eq_self_iff.mp ((List.takeWhile_prefix _).eq_of_length hlength)
  have hnot := hall leaf hleaf
  rw [hpanicking] at hnot
  cases hnot

/-- Where no sink panics, all are reached and so may be others behind. -/
theorem takeWhile_append_of_not_any {first : List Sink} (h : first.any isPanicking = false)
    (second : List Sink) :
    (first ++ second).takeWhile (!·.isPanicking) =
      first ++ second.takeWhile (!·.isPanicking) := by
  refine List.takeWhile_append_of_pos fun leaf hleaf => ?_
  rw [Bool.eq_false_iff.mpr (List.any_eq_false.mp h leaf hleaf)]
  rfl

theorem reached_of_not_panics {sink : Sink} (h : sink.panics = false) :
    sink.reached = sink.leaves := by
  have happend := takeWhile_append_of_not_any h []
  rwa [List.append_nil, List.takeWhile_nil, List.append_nil] at happend

/-- A leaf that does not panic is reached if none before it panics. Else nothing is reached but some
of those before it. -/
theorem reached_eq {sink member : Sink} {before after : List Sink}
    (hleaves : sink.leaves = before ++ member :: after) (hmember : member.isPanicking = false) :
    sink.reached =
      if before.any isPanicking then before.takeWhile (!·.isPanicking)
      else before ++ member :: after.takeWhile (!·.isPanicking) := by
  rw [reached, hleaves]
  rcases hany : before.any isPanicking
  · rw [takeWhile_append_of_not_any hany, List.takeWhile_cons, hmember]
    rfl
  · rw [takeWhile_append_of_any hany]
    rfl

/-- A list of members does what the leaves that are reached do. -/
theorem takeAll_eq {span : Span} {members : List Sink}
    (h : ∀ member ∈ members, member.take span = (shares span member.reached, member.panics)) :
    takeAll span members = (shares span (fanout members).reached, (fanout members).panics) := by
  rw [reached, panics, leaves_fanout]
  induction members with
  | nil => rfl
  | cons sink more ih =>
    obtain ⟨hsink, hmore⟩ := List.forall_mem_cons.mp h
    rw [takeAll, hsink, ih hmore, List.flatMap_cons, List.any_append]
    rcases hpanics : sink.panics
    · rw [takeWhile_append_of_not_any hpanics, reached_of_not_panics hpanics, shares_append,
        show sink.leaves.any isPanicking = false from hpanics]
      rfl
    · rw [takeWhile_append_of_any hpanics, show sink.leaves.any isPanicking = true from hpanics]
      rfl

/-- A sink does with a span what its leaves do that are reached, and panics if one of its leaves
does. -/
theorem take_eq (sink : Sink) (span : Span) :
    sink.take span = (shares span sink.reached, sink.panics) := by
  induction sink using Sink.induction with
  | leaf sink hsink =>
    cases sink with
    | fanout members => exact absurd rfl (hsink members)
    | _ => rfl
  | fanout members ih => exact (takeAll_eq ih : takeAll span members = _)

/-- What is said in the log when a sink has panicked. -/
def panicWarning (span : Span) : LogRecord :=
  ⟨.warn, "Observability sink panicked, span dropped", [("element_id", .string span.taskId)]⟩

/-- A report to a sink brings a span to the leaves that are reached. If the sink panics, all that
is left of the panic is a warning in the log. -/
theorem report_eq (sink : Sink) (span : Span) :
    sink.report span = shares span sink.reached ++
      if sink.panics then [.logged (panicWarning span)] else [] := by
  rw [report, take_eq]
  rcases sink.panics
  · exact (List.append_nil _).symm
  · rfl

/-! ## What a member gets -/

/-- Whether a sink keeps the spans that it gets. -/
def keeps : Sink → Bool
  | recording _ => true
  | bus _ => true
  | spanLog _ => true
  | _ => false

/-- The span that a delivery brings to a sink, if it goes there. -/
def gets : Sink → Delivery → Option Span
  | recording name, .recorded other span => if other = name then some span else none
  | bus name, .published other span => if other = name then some span else none
  | spanLog path, .written other span => if other = path then some span else none
  | _, _ => none

/-- The spans that deliveries bring to a sink, in order. -/
def received (sink : Sink) (deliveries : List Delivery) : List Span :=
  deliveries.filterMap sink.gets

theorem received_flatMap {α : Type} (sink : Sink) (parts : List α) (f : α → List Delivery) :
    sink.received (parts.flatMap f) = parts.flatMap fun part => sink.received (f part) :=
  List.filterMap_flatMap

theorem received_append (sink : Sink) (first second : List Delivery) :
    sink.received (first ++ second) = sink.received first ++ sink.received second :=
  List.filterMap_append

theorem received_logged (sink : Sink) (record : LogRecord) :
    sink.received [.logged record] = [] := by
  cases sink <;> rfl

/-- A sink that keeps spans gets a span that it is handed. -/
theorem received_take_self {sink : Sink} (h : sink.keeps = true) (span : Span) :
    sink.received (sink.take span).1 = [span] := by
  cases sink with
  | recording name => simp [received, take, gets]
  | bus name => simp [received, take, gets]
  | spanLog path => simp [received, take, gets]
  | _ => cases h

/-- It gets nothing by what another leaf is handed. -/
theorem received_take_of_ne {sink leaf : Sink} (hleaf : ∀ members, leaf ≠ fanout members)
    (hne : leaf ≠ sink) (span : Span) : sink.received (leaf.take span).1 = [] := by
  cases leaf with
  | fanout members => exact absurd rfl (hleaf members)
  | _ => cases sink <;> simp_all [received, take, gets]

/-- Nor by what several other leaves are handed. -/
theorem received_shares_of_not_mem {sink : Sink} {leaves : List Sink}
    (hleaves : ∀ leaf ∈ leaves, ∀ members, leaf ≠ fanout members) (h : sink ∉ leaves)
    (span : Span) : sink.received (shares span leaves) = [] := by
  rw [shares, received_flatMap, List.flatMap_eq_nil_iff]
  intro leaf hleaf
  exact received_take_of_ne (hleaves leaf hleaf) (ne_of_mem_of_not_mem hleaf h) span

theorem received_warning (sink member : Sink) (span : Span) :
    member.received (if sink.panics then [.logged (panicWarning span)] else []) = [] := by
  split
  · exact received_logged member _
  · rfl

/-- One report brings a span to a leaf that keeps spans and stands only once among the leaves if no
leaf before it panics, and else it does not. -/
theorem received_report {sink member : Sink} {before after : List Sink}
    (hleaves : sink.leaves = before ++ member :: after) (hkeeps : member.keeps = true)
    (hbefore : member ∉ before) (hafter : member ∉ after) (span : Span) :
    member.received (sink.report span) = if before.any isPanicking then [] else [span] := by
  have hleaf : ∀ leaf ∈ before ++ member :: after, ∀ members, leaf ≠ fanout members :=
    fun leaf hmem => ne_fanout_of_mem_leaves (hleaves ▸ hmem)
  rw [List.forall_mem_append, List.forall_mem_cons] at hleaf
  obtain ⟨hfirst, -, hsecond⟩ := hleaf
  have hmember : member.isPanicking = false := by
    cases member <;> first | rfl | cases hkeeps
  rw [report_eq, received_append, received_warning, List.append_nil, reached_eq hleaves hmember]
  split
  · have hsubset := (List.takeWhile_prefix (l := before) (!·.isPanicking)).subset
    exact received_shares_of_not_mem (fun leaf hmem => hfirst leaf (hsubset hmem))
      (fun hmem => hbefore (hsubset hmem)) span
  · -- neither those before the member nor those behind it are the same
    have hsubset := (List.takeWhile_prefix (l := after) (!·.isPanicking)).subset
    have hrest : member.received (shares span (after.takeWhile (!·.isPanicking))) = [] :=
      received_shares_of_not_mem (fun leaf hmem => hsecond leaf (hsubset hmem))
        (fun hmem => hafter (hsubset hmem)) span
    rw [shares_append, received_append, received_shares_of_not_mem hfirst hbefore, List.nil_append,
      ← List.singleton_append, shares_append, received_append, hrest, List.append_nil, shares,
      List.flatMap_singleton]
    exact received_take_self hkeeps span

/-! ## Sequences of reports -/

/-- **A panic costs what stands behind it.** Of several spans that are reported to a sink one after
the other, each goes to the leaves before the first one that panics, in order and once to each, and
if one panics the span leaves a warning in the log.  So a leaf that keeps spans and has only one
place gets all of them, once each and in order, if no leaf before it panics, at whatever depth these
stand.  But if one does, it gets none of them. -/
theorem spans_up_to_panic (sink : Sink) (spans : List Span) :
    (spans.flatMap sink.report = spans.flatMap fun span =>
        (sink.leaves.takeWhile (!·.isPanicking)).flatMap (fun leaf => (leaf.take span).1) ++
          if sink.panics then [.logged (panicWarning span)] else []) ∧
      ∀ (before : List Sink) (member : Sink) (after : List Sink),
        sink.leaves = before ++ member :: after → member.keeps = true → member ∉ before →
        member ∉ after →
        member.received (spans.flatMap sink.report) =
          if before.any isPanicking then [] else spans := by
  constructor
  · exact congrArg spans.flatMap (funext sink.report_eq)
  · intro before member after hleaves hkeeps hbefore hafter
    have hreport : ∀ span, member.received (sink.report span) =
        if before.any isPanicking then [] else [span] :=
      received_report hleaves hkeeps hbefore hafter
    rw [received_flatMap]
    simp only [hreport]
    split
    · exact List.flatMap_eq_nil_iff.mpr fun _ _ => rfl
    · exact List.flatMap_singleton' spans

end Sink

/-! ## A recording behind a sink that panics

Two spans are reported to a fan-out.  One of its members is a fan-out as well, and one of the
members of that panics. -/

namespace Overshadowed

/-- The report of a task. -/
def span (taskId : String) : Span where
  taskId := taskId
  kind := "userTask"
  processId := "p"
  instanceId := "i"
  start := Instant.ofMillis 0
  finish := Instant.ofMillis 0
  success := true
  error := none

/-- The spans reported. -/
def spans : List Span :=
  [span "one", span "two"]

/-- The inner fan-out. -/
def inner : Sink :=
  .fanout [.tracing, .panicking, .recording "inner"]

/-- The outer fan-out. -/
def outer : Sink :=
  .fanout [.recording "front", inner, .bus "back"]

theorem leaves_outer : outer.leaves =
    [.recording "front", .tracing, .panicking, .recording "inner", .bus "back"] := rfl

/-- The recording in front gets both spans, and the bus behind the inner fan-out gets neither. -/
theorem front_and_back :
    outer.leaves = [] ++ .recording "front" ::
        [.tracing, .panicking, .recording "inner", .bus "back"] ∧
      outer.leaves = [.recording "front", .tracing, .panicking, .recording "inner"] ++
        .bus "back" :: [] ∧
      (Sink.recording "front").received (spans.flatMap outer.report) = spans ∧
      (Sink.bus "back").received (spans.flatMap outer.report) = [] := by
  have hlaw := (outer.spans_up_to_panic spans).2
  refine ⟨leaves_outer, leaves_outer, ?_, ?_⟩
  · exact hlaw [] (.recording "front") _ leaves_outer rfl (by simp) (by simp)
  · exact hlaw [.recording "front", .tracing, .panicking, .recording "inner"] (.bus "back") []
      leaves_outer rfl (by simp) (by simp)

/-- Behind a sink that panics, a recording that does not panic itself gets no span. -/
theorem recording_misses_span :
    let sink := Sink.fanout [.panicking, .recording "kept"]
    Sink.recording "kept" ∈ sink.leaves ∧ (Sink.recording "kept").panics = false ∧
      sink.report (span "one") = [.logged (Sink.panicWarning (span "one"))] ∧
      (Sink.recording "kept").received (sink.report (span "one")) ≠ [span "one"] := by
  refine ⟨List.mem_cons_of_mem _ List.mem_cons_self, rfl, rfl, ?_⟩
  nofun

end Overshadowed

end Workflow
