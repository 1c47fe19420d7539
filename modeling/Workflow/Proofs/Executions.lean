import Workflow.Proofs.Executors
import Workflow.Proofs.Trail.Basic

/-!
# Executions of tasks

One execution of a task by an agent.  An agent that has no executor for an element refuses it;
otherwise it asks one executor once, and what that one answers is all that the execution takes from
executors.  Either way there is one report at the end, and the context is left as it was but for the
output of a task that gave a value.

* `Agent.executorFor?`, `Element.request?` — the executor that is asked, and for what.
* `Agent.invoke_of_unserved`, `Agent.invoke_of_served` — what comes of an element without an
  executor for it and with one.
* `Element.Settles` — how the answer of an executor settles a task.
* `Agent.handed_executeTask` — what an execution reports.
* `Agent.executeTask_congr` — on what an execution depends.
* `Agent.executions_are_atomic` — all of it together.
-/

namespace Workflow

/-! ## What is told of an execution -/

/-- The span that an occurrence hands to a sink. -/
def Occurrence.handed? : Occurrence → Option (Sink × Span)
  | logged _ => none
  | reported sink span => some (sink, span)

/-- The name of the executor that is called where a record says so. -/
def Occurrence.called? : Occurrence → Option String
  | logged record =>
    if record.message = "Invoking capability executor" then
      (record.fields.lookup "executor").bind Value.asText?
    else none
  | reported _ _ => none

namespace History

/-- The spans that are handed to sinks, with the sinks, in order. -/
def handed (history : History) : List (Sink × Span) :=
  history.filterMap fun entry => entry.2.handed?

/-- The names of the executors that are called, in order. -/
def called (history : History) : List String :=
  history.filterMap fun entry => entry.2.called?

@[simp] theorem handed_append (first second : History) :
    handed (first ++ second) = first.handed ++ second.handed :=
  List.filterMap_append

@[simp] theorem called_append (first second : History) :
    called (first ++ second) = first.called ++ second.called :=
  List.filterMap_append

@[simp] theorem handed_done {α : Type} (now : Nat) (value : α) (occurrences : List Occurrence) :
    (Timed.done now value occurrences).history.handed =
      occurrences.filterMap Occurrence.handed? := by
  rw [handed, Timed.done, List.filterMap_map]
  rfl

@[simp] theorem called_done {α : Type} (now : Nat) (value : α) (occurrences : List Occurrence) :
    (Timed.done now value occurrences).history.called =
      occurrences.filterMap Occurrence.called? := by
  rw [called, Timed.done, List.filterMap_map]
  rfl

end History

/-! ## What elements ask of executors -/

namespace Element

/-- What an executor is asked for an element, if agents run its kind. -/
def request? (element : Element) (vars : Variables) : Option Request :=
  match element.kind.task?, TaskCategory.of element.kind with
  | some spec, some category => some ⟨category.instructions spec, spec.resolve vars, vars⟩
  | _, _ => none

/-- The error of an agent that has no executor for an element. -/
def refusal (element : Element) : Error :=
  match TaskCategory.of element.kind with
  | some category =>
    .unsupportedTask element.id
      (element.kind.name ++ " (agent has no " ++ category.label ++ " executor)")
  | none => .unsupportedTask element.id element.kind.name

/-- What an agent says in the log when it calls an executor for an element. -/
def callRecord (element : Element) (executor : String) (request : Request) : LogRecord :=
  ⟨.debug, "Invoking capability executor",
    [("element_id", .string element.id), ("executor", .string executor),
      ("inputs", .int request.inputs.length)]⟩

/-- The context after an execution with a result. -/
def settled (element : Element) (context : Context) : Except Error Value → Context
  | .ok value =>
    match element.kind.task? with
    | some spec => { context with vars := spec.store context.vars value }
    | none => context
  | .error _ => context

/-- How the answer of an executor settles the task of an element. -/
inductive Settles (element : Element) : Except Error Value → Except Error Value → Prop where
  /-- a value is that of the task -/
  | value (value : Value) : Settles element (.ok value) (.ok value)
  /-- an error that names an element by itself stays as it is -/
  | named (id message : String) :
    Settles element (.error (.executionFailed id message)) (.error (.executionFailed id message))
  /-- what an executor says of its failure is said of the element -/
  | capability (message : String) :
    Settles element (.error (.capability message)) (.error (.executionFailed element.id message))
  /-- any other error is said of the element in words -/
  | other {error : Error} (unnamed : ∀ id message, error ≠ .executionFailed id message)
    (unsaid : ∀ message, error ≠ .capability message) :
    Settles element (.error error) (.error (.executionFailed element.id error.message))

variable {element : Element}

theorem exists_task?_of_category {category : TaskCategory}
    (h : TaskCategory.of element.kind = some category) :
    ∃ spec, element.kind.task? = some spec := by
  rcases hkind : element.kind with _ | _ | ⟨kind, spec⟩ | _ | _
  case task => exact ⟨spec, rfl⟩
  all_goals
    rw [hkind] at h
    cases h

theorem exists_refusal (element : Element) :
    ∃ kind, element.refusal = .unsupportedTask element.id kind := by
  unfold refusal
  split <;> exact ⟨_, rfl⟩

/-- An answer settles a task in one way. -/
theorem settles_iff {answer result : Except Error Value} :
    element.Settles answer result ↔ result = answer.mapError (Agent.blame element) := by
  constructor
  · rintro (value | ⟨id, message⟩ | message | ⟨unnamed, unsaid⟩)
    case other error =>
      cases error with
      | executionFailed id message => exact absurd rfl (unnamed id message)
      | capability message => exact absurd rfl (unsaid message)
      | _ => rfl
    all_goals rfl
  · rintro rfl
    rcases answer with error | value
    · cases error with
      | executionFailed id message => exact .named id message
      | capability message => exact .capability message
      | _ => exact .other (by simp) (by simp)
    · exact .value value

/-- Nothing that an executor answers makes a task an unsupported one. -/
theorem Settles.ne_unsupported {answer result : Except Error Value}
    (h : element.Settles answer result) (id kind : String) :
    result ≠ .error (.unsupportedTask id kind) := by
  cases h <;> simp

/-- Reading a context after an execution that gave a value. -/
theorem get?_settled {spec : TaskSpec} (task : element.kind.task? = some spec) (context : Context)
    (value : Value) (key : String) :
    (element.settled context (.ok value)).vars.get? key =
      if spec.output = some key then some value else context.vars.get? key := by
  simp only [settled, task, TaskSpec.store]
  rcases spec.output with _ | output
  · simp
  · simp [Table.get?_set]

end Element

/-! ## What an agent does -/

namespace Agent

variable {agent : Agent} {element : Element} {context : Context} {now : Nat}

/-- The executor that an agent has for an element: the one for the category of its kind. -/
def executorFor? (agent : Agent) (element : Element) : Option Executor :=
  (TaskCategory.of element.kind).bind agent.executor?

theorem executorFor?_eq_none_iff :
    agent.executorFor? element = none ↔
      ∀ category, TaskCategory.of element.kind = some category →
        agent.executor? category = none :=
  Option.bind_eq_none_iff

/-- An agent refuses an element for which it has no executor. -/
theorem assign_of_unserved (h : agent.executorFor? element = none) :
    agent.assign element = .error element.refusal := by
  rw [executorFor?_eq_none_iff] at h
  rw [assign, Element.refusal]
  rcases hcategory : TaskCategory.of element.kind with _ | category
  · rcases element.kind.task? with _ | spec <;> rfl
  · obtain ⟨spec, task⟩ := Element.exists_task?_of_category hcategory
    simp only [task, h category hcategory]

/-- An element for which an agent has an executor is a task, and it asks that executor. -/
theorem assign_of_served {executor : Executor} (h : agent.executorFor? element = some executor)
    (vars : Variables) :
    ∃ spec instructions, element.kind.task? = some spec ∧
      agent.assign element = .ok (spec, instructions, executor) ∧
      element.request? vars = some ⟨instructions, spec.resolve vars, vars⟩ := by
  obtain ⟨category, hcategory, has⟩ := Option.bind_eq_some_iff.mp h
  obtain ⟨spec, task⟩ := Element.exists_task?_of_category hcategory
  refine ⟨spec, category.instructions spec, task, assign_of_category task hcategory has, ?_⟩
  rw [Element.request?, task, hcategory]

/-- What comes of an element for which there is no executor. -/
theorem invoke_of_unserved (h : agent.executorFor? element = none) :
    agent.invoke element context now = .done now (.error element.refusal, context) [] := by
  rw [invoke, assign_of_unserved h]

/-- What comes of an element for which there is an executor. -/
theorem invoke_of_served {executor : Executor} {request : Request}
    (h : agent.executorFor? element = some executor)
    (asks : element.request? context.vars = some request) :
    let reply := executor.execute request
    let result := reply.result.mapError (blame element)
    agent.invoke element context now =
      ⟨(result, element.settled context result), now + reply.delay,
        [(now, .logged (element.callRecord executor.name request))]⟩ := by
  intro reply result
  obtain ⟨spec, instructions, task, assigned, hrequest⟩ := assign_of_served h context.vars
  obtain rfl := Option.some.inj (hrequest.symm.trans asks)
  rw [invoke, assigned]
  simp only [result, reply]
  rcases (executor.execute ⟨instructions, spec.resolve context.vars, context.vars⟩).result with
    error | value
  · rfl
  · simp only [Element.settled, task, TaskSpec.store, Except.mapError]
    rcases spec.output with _ | key <;> rfl

/-! ## Reports -/

theorem handed_closing (agent : Agent) (element : Element) (context : Context)
    (start finish : Nat) (error : Option Error) :
    (agent.closing element context start finish error).filterMap Occurrence.handed? =
      [(agent.sink, spanOf element context start finish error)] := by
  rcases error with _ | error <;> rfl

theorem called_closing (agent : Agent) (element : Element) (context : Context)
    (start finish : Nat) (error : Option Error) :
    (agent.closing element context start finish error).filterMap Occurrence.called? = [] := by
  rcases error with _ | error <;> simp [closing, Occurrence.called?]

theorem handed_invoke (agent : Agent) (element : Element) (context : Context) (now : Nat) :
    (agent.invoke element context now).history.handed = [] := by
  rw [invoke]
  rcases agent.assign element with error | ⟨spec, instructions, executor⟩ <;> rfl

/-- An execution is reported once, when it is over, whatever came of it. -/
theorem handed_executeTask (agent : Agent) (element : Element) (context : Context) (now : Nat) :
    let run := agent.executeTask element context now
    run.history.handed =
      [(agent.sink, spanOf element run.value.2 now run.finish (errorOf run.value.1))] := by
  intro run
  have hhistory : run.history = (agent.invoke element context now).history ++
      (Timed.done run.finish run.value
        (agent.closing element run.value.2 now run.finish (errorOf run.value.1))).history := rfl
  rw [hhistory, History.handed_append, handed_invoke, History.handed_done, handed_closing,
    List.nil_append]

/-- The executors called in an execution are those called in doing the work. -/
theorem called_executeTask (agent : Agent) (element : Element) (context : Context) (now : Nat) :
    (agent.executeTask element context now).history.called =
      (agent.invoke element context now).history.called := by
  rw [executeTask, Timed.andThen, History.called_append, History.called_done, called_closing,
    List.append_nil]

theorem success_spanOf {start finish : Nat} {result : Except Error Value} :
    (spanOf element context start finish (errorOf result)).success = true ↔
      ∃ value, result = .ok value := by
  rcases result with error | value <;> simp [spanOf, errorOf]

/-! ## What an execution depends on -/

/-- What the executor for an element answers, with its name in the log, if there is one. -/
def answer? (agent : Agent) (element : Element) (vars : Variables) : Option (String × Reply) :=
  match agent.executorFor? element, element.request? vars with
  | some executor, some request => some (executor.name, executor.execute request)
  | _, _ => none

theorem answer?_of_served {executor : Executor} (h : agent.executorFor? element = some executor)
    (vars : Variables) :
    ∃ request, element.request? vars = some request ∧
      agent.answer? element vars = some (executor.name, executor.execute request) := by
  obtain ⟨spec, instructions, -, -, asks⟩ := assign_of_served h vars
  exact ⟨_, asks, by rw [answer?, h, asks]⟩

theorem answer?_eq_none_iff {vars : Variables} :
    agent.answer? element vars = none ↔ agent.executorFor? element = none := by
  rcases h : agent.executorFor? element with _ | executor
  · simp [answer?, h]
  · obtain ⟨request, -, hanswer⟩ := answer?_of_served h vars
    simp [hanswer]

theorem closing_congr {other : Agent} (sink : other.sink = agent.sink) :
    other.closing = agent.closing := by
  funext element context start finish error
  simp only [closing, sink]

theorem invoke_congr {other : Agent}
    (answers : other.answer? element context.vars = agent.answer? element context.vars) :
    other.invoke element context now = agent.invoke element context now := by
  rcases h : agent.executorFor? element with _ | executor
  · rw [answer?_eq_none_iff.mpr h, answer?_eq_none_iff] at answers
    rw [invoke_of_unserved h, invoke_of_unserved answers]
  · obtain ⟨request, asks, hanswer⟩ := answer?_of_served h context.vars
    rcases hother : other.executorFor? element with _ | executor'
    · rw [answer?_eq_none_iff.mpr hother, hanswer] at answers
      cases answers
    · obtain ⟨request', asks', hanswer'⟩ := answer?_of_served hother context.vars
      obtain rfl := Option.some.inj (asks'.symm.trans asks)
      rw [hanswer, hanswer', Option.some.injEq, Prod.mk.injEq] at answers
      rw [invoke_of_served h asks, invoke_of_served hother asks, answers.1, answers.2]

/-- An execution depends on the sink of the agent and on one answer of one executor. What else the
agent has, and what else the executor would answer, is of no account. -/
theorem executeTask_congr {other : Agent} (sink : other.sink = agent.sink)
    (answers : other.answer? element context.vars = agent.answer? element context.vars) :
    other.executeTask element context now = agent.executeTask element context now := by
  rw [executeTask, executeTask, invoke_congr answers, closing_congr sink]

/-! ## Executions -/

/-- An element without an executor for it is refused at once. -/
theorem executeTask_of_unserved (h : agent.executorFor? element = none) (context : Context)
    (now : Nat) :
    let run := agent.executeTask element context now
    run.value = (.error element.refusal, context) ∧ run.finish = now ∧ run.history.called = [] := by
  intro run
  have hinvoke : agent.invoke element context now =
      .done now (.error element.refusal, context) [] := invoke_of_unserved h
  refine ⟨congrArg Timed.value hinvoke, congrArg Timed.finish hinvoke, ?_⟩
  rw [called_executeTask, hinvoke]
  rfl

/-- An element with an executor for it is settled by what that one answers. -/
theorem executeTask_of_served {executor : Executor}
    (h : agent.executorFor? element = some executor) (context : Context) (now : Nat) :
    let run := agent.executeTask element context now
    ∃ request, element.request? context.vars = some request ∧
      element.Settles (executor.execute request).result run.value.1 ∧
      run.value.2 = element.settled context run.value.1 ∧
      run.finish = now + (executor.execute request).delay ∧
      run.history.called = [executor.name] := by
  intro run
  obtain ⟨request, asks, -⟩ := answer?_of_served h context.vars
  have hinvoke : agent.invoke element context now = _ := invoke_of_served h asks
  have hvalue : run.value = (agent.invoke element context now).value := rfl
  rw [hvalue, called_executeTask, hinvoke]
  refine ⟨request, asks, Element.settles_iff.mpr rfl, rfl, congrArg Timed.finish hinvoke, ?_⟩
  simp [History.called, Occurrence.called?, Element.callRecord, List.lookup_cons, Value.asText?]

/-- The context after an execution is told by its result. -/
theorem settled_executeTask (agent : Agent) (element : Element) (context : Context) (now : Nat) :
    let run := agent.executeTask element context now
    run.value.2 = element.settled context run.value.1 := by
  intro run
  rcases h : agent.executorFor? element with _ | executor
  · have hvalue : run.value = _ := (executeTask_of_unserved h context now).1
    rw [hvalue]
    rfl
  · obtain ⟨-, -, -, hafter, -⟩ := executeTask_of_served h context now
    exact hafter

/-- A task gives a value only if an executor does. -/
theorem exists_executorFor?_of_value {value : Value}
    (h : (agent.executeTask element context now).value.1 = .ok value) :
    ∃ executor, agent.executorFor? element = some executor := by
  rcases hexecutor : agent.executorFor? element with _ | executor
  · rw [(executeTask_of_unserved hexecutor context now).1] at h
    cases h
  · exact ⟨executor, rfl⟩

/-- An element is unsupported if there is no executor for it, and only then. -/
theorem unsupported_iff :
    (∃ id kind, (agent.executeTask element context now).value.1 =
      .error (.unsupportedTask id kind)) ↔ agent.executorFor? element = none := by
  constructor
  · rintro ⟨id, kind, h⟩
    rcases hexecutor : agent.executorFor? element with _ | executor
    · rfl
    · obtain ⟨_, -, settles, -⟩ := executeTask_of_served hexecutor context now
      exact absurd h (settles.ne_unsupported id kind)
  · intro h
    obtain ⟨kind, hkind⟩ := element.exists_refusal
    rw [(executeTask_of_unserved h context now).1, hkind]
    exact ⟨_, _, rfl⟩

/-- **Executions are atomic.** Take any agent, with whichever executors and whatever sink, and let
it execute any element on any context.  It hands one span to its sink, and no other span to any:
that of the element, which tells of success just if there is a value, and has the text of the error
otherwise.  On an error the context is as it was; on a value it differs only in the output that the
task declares, if any, which is now the value.  The error is that of an unsupported task just if the
kind has no category or the agent has no executor for the category; then it names the element, and
nothing is called, so that no time passes.  Otherwise one executor is called once, and the task is
settled by its answer, when it comes.  What is called is no more than that: another agent with the
same sink does just the same if its executor for the element has the same name and the same answer
to this request, or if it has none either.  And the sink has no influence on the result. -/
theorem executions_are_atomic (agent : Agent) (element : Element) (context : Context) (now : Nat) :
    let run := agent.executeTask element context now
    let result := run.value.1
    let after := run.value.2
    (∃ span : Span, run.history.handed = [(agent.sink, span)] ∧ span.taskId = element.id ∧
      (span.success = true ↔ ∃ value, result = .ok value) ∧
      span.error = (errorOf result).map Error.message) ∧
    (∀ error, result = .error error → after = context) ∧
    (∀ value, result = .ok value → ∃ spec, element.kind.task? = some spec ∧
      after = { context with vars := after.vars } ∧
      (spec.output = none → after = context) ∧
      ∀ key, after.vars.get? key =
        if spec.output = some key then some value else context.vars.get? key) ∧
    ((∃ id kind, result = .error (.unsupportedTask id kind)) ↔
      ∀ category, TaskCategory.of element.kind = some category →
        agent.executor? category = none) ∧
    (agent.executorFor? element = none →
      (∃ kind, result = .error (.unsupportedTask element.id kind)) ∧
        run.history.called = [] ∧ run.finish = now) ∧
    (∀ executor, agent.executorFor? element = some executor →
      ∃ request, element.request? context.vars = some request ∧
        run.history.called = [executor.name] ∧
        run.finish = now + (executor.execute request).delay ∧
        element.Settles (executor.execute request).result result) ∧
    (∀ other : Agent, other.sink = agent.sink →
      other.answer? element context.vars = agent.answer? element context.vars →
      other.executeTask element context now = run) ∧
    ∀ sink : Sink, ({ agent with sink := sink }.executeTask element context now).value =
      run.value := by
  intro run result after
  have hafter : after = element.settled context result :=
    settled_executeTask agent element context now
  refine ⟨⟨_, handed_executeTask agent element context now, rfl, success_spanOf, rfl⟩, ?_, ?_, ?_,
    ?_, ?_, fun other => executeTask_congr, fun sink => rfl⟩
  · intro error herror
    rw [hafter, herror]
    rfl
  · intro value hvalue
    obtain ⟨executor, h⟩ := exists_executorFor?_of_value hvalue
    obtain ⟨spec, -, task, -⟩ := assign_of_served h context.vars
    rw [hafter, hvalue]
    refine ⟨spec, task, ?_, ?_, element.get?_settled task context value⟩
    · simp only [Element.settled, task]
    · intro houtput
      simp only [Element.settled, task, TaskSpec.store, houtput]
  · rw [← executorFor?_eq_none_iff]
    exact unsupported_iff
  · intro h
    obtain ⟨hvalue, hfinish, hcalled⟩ := executeTask_of_unserved h context now
    obtain ⟨kind, hkind⟩ := element.exists_refusal
    refine ⟨⟨kind, ?_⟩, hcalled, hfinish⟩
    rw [← hkind]
    exact congrArg Prod.fst hvalue
  · intro executor h
    obtain ⟨request, asks, settles, -, hfinish, hcalled⟩ := executeTask_of_served h context now
    exact ⟨request, asks, hcalled, hfinish, settles⟩

end Agent

/-! ## An executor that poses as an agent

The executor of a task fails as if the task were an unsupported one of another name, and the sink
panics. -/

namespace Imposture

/-- The executor. -/
def executor : Executor where
  name := "impostor"
  execute _ := ⟨7, .error (.unsupportedTask "other" "odd")⟩

/-- The agent. -/
def agent : Agent :=
  ⟨some executor, none, none, .panicking⟩

/-- The task. -/
def element : Element :=
  ⟨"ask", none, .task .user { TaskSpec.of "clerk" with output := some "answer" }⟩

/-- The context on which the task is executed. -/
def context : Context :=
  .start "inquiry" ⟨"i"⟩ [("answer", .int 1)]

/-- The failure is one of this task, it is reported once in spite of the panic, the executor is
called once, and the variable keeps its value. -/
theorem failure_is_named :
    let run := agent.executeTask element context 3
    agent.executorFor? element = some executor ∧
      (∃ span : Span, run.history.handed = [(.panicking, span)] ∧ span.success = false) ∧
      run.value = (.error (.executionFailed "ask" "Unsupported task type for element other: odd"),
        context) ∧
      run.history.called = ["impostor"] ∧ run.finish = 10 := by
  intro run
  have h : agent.executorFor? element = some executor := rfl
  obtain ⟨⟨span, hspan, -, hsuccess, -⟩, hkept, -, -, -, hserved, -, -⟩ :=
    Agent.executions_are_atomic agent element context 3
  obtain ⟨request, -, hcalled, hfinish, hsettles⟩ := hserved executor h
  have hresult : run.value.1 =
      .error (.executionFailed "ask" "Unsupported task type for element other: odd") :=
    Element.settles_iff.mp hsettles
  refine ⟨h, ⟨span, hspan, ?_⟩, Prod.ext hresult (hkept _ hresult), hcalled, hfinish⟩
  rw [← Bool.not_eq_true, hsuccess]
  rintro ⟨value, hvalue⟩
  cases hresult.symm.trans hvalue

end Imposture

end Workflow
