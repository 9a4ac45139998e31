import Mathlib.Data.List.Basic
import PostfixCalc.Proofs.Journal.Rejections
import PostfixCalc.Proofs.Journal.Texts
import PostfixCalc.Proofs.Status

/-!
# What the journal tells

The journal of a text that is not converted has one record.  That of a converted text follows the
tree of its nodes: each node is visited once, when the trees of its operands are completed, and with
each visit stand the values of all trees that are completed and not yet used.  Directly behind the
visit stands the failure of the operation, if it failed.  So the failures in the journal are those
of the evaluation, and the last one is the one that it reports.

Main results:

- `Expr.visits_inPlace`: at each visit the trees completed before are those that wait and the ones
  in them.
- `Evaluation.events_walkRecorded_postorder`: walking over a tree records its visits.
- `Event.shown_getLast?_failures_iff`: the last failure among events is the one that the last
  warning names.
- `Calculator.journal_tells`: what is written down for a text in terms of the tree of its nodes.
-/

namespace PostfixCalc

/-! ## Visits -/

/-- The taking of one node in the evaluation of a tree. -/
structure Visit where
  /-- The trees that are completed and not yet used as operands, the earliest first. -/
  waiting : List Expr
  /-- The tree that the node completes. -/
  tree : Expr

namespace Expr

/-- The node at the root of a tree. -/
def root : Expr → Node
  | operand value => .operand value
  | unary op _ => .unary op
  | binary op _ _ => .binary op

/-- The trees that the root of a tree uses. -/
def operands : Expr → List Expr
  | operand _ => []
  | unary _ argument => [argument]
  | binary _ left right => [left, right]

/-- The visits of all nodes of a tree, while other trees wait.  The right operand of an operation is
evaluated while the left one waits. -/
def visits (waiting : List Expr) : Expr → List Visit
  | operand value => [⟨waiting, operand value⟩]
  | unary op argument => argument.visits waiting ++ [⟨waiting ++ [argument], unary op argument⟩]
  | binary op left right =>
    left.visits waiting ++ right.visits (waiting ++ [left]) ++
      [⟨waiting ++ [left, right], binary op left right⟩]

/-- Every tree in a tree is visited once, in the order of evaluation. -/
theorem map_tree_visits (e : Expr) (waiting : List Expr) :
    (e.visits waiting).map Visit.tree = e.subtrees := by
  induction e generalizing waiting with
  | operand value => rfl
  | unary op argument ih =>
    simp only [visits, subtrees, List.map_append, ih, List.map_cons, List.map_nil]
  | binary op left right ihl ihr =>
    simp only [visits, subtrees, List.map_append, ihl, ihr, List.map_cons, List.map_nil]

/-- The roots of the trees in a tree are its nodes. -/
theorem map_root_subtrees (e : Expr) : e.subtrees.map root = e.postorder := by
  induction e with
  | operand value => rfl
  | unary op argument ih =>
    simp only [subtrees, postorder, List.map_append, ih, List.map_cons, List.map_nil, root]
  | binary op left right ihl ihr =>
    simp only [subtrees, postorder, List.map_append, ihl, ihr, List.map_cons, List.map_nil, root]

/-- The nodes that were taken are those of the tree, in their order. -/
theorem map_root_visits (e : Expr) (waiting : List Expr) :
    ((e.visits waiting).map fun visit => visit.tree.root) = e.postorder := by
  rw [← map_root_subtrees, ← map_tree_visits e waiting, List.map_map]
  rfl

end Expr

/-! ## Where a visit takes place -/

namespace Visit

/-- A visit takes place behind earlier ones.  The trees that were completed are those that wait and
the ones in them, which were used; and the last trees that wait are those that are used now. -/
structure InPlace (earlier : List Visit) (visit : Visit) : Prop where
  completed : earlier.map tree = visit.waiting.flatMap Expr.subtrees
  uses : visit.tree.operands <:+ visit.waiting

/-- All visits take place behind earlier ones and those in front of them. -/
def AllInPlace (earlier : List Visit) : List Visit → Prop
  | [] => True
  | visit :: visits => visit.InPlace earlier ∧ AllInPlace (earlier ++ [visit]) visits

theorem allInPlace_append {earlier front back : List Visit} :
    AllInPlace earlier (front ++ back) ↔
      AllInPlace earlier front ∧ AllInPlace (earlier ++ front) back := by
  induction front generalizing earlier with
  | nil => simp [AllInPlace]
  | cons visit front ih =>
    rw [List.cons_append, AllInPlace, AllInPlace, ih, and_assoc, List.append_assoc,
      List.singleton_append]

/-- Behind the visits of a tree, the tree itself waits too. -/
theorem completed_visits {earlier : List Visit} {waiting : List Expr}
    (h : earlier.map tree = waiting.flatMap Expr.subtrees) (e : Expr) :
    (earlier ++ e.visits waiting).map tree = (waiting ++ [e]).flatMap Expr.subtrees := by
  rw [List.map_append, h, e.map_tree_visits, List.flatMap_append, List.flatMap_singleton]

end Visit

/-- The visits of a tree take place behind visits that completed the trees that wait. -/
theorem Expr.visits_inPlace (e : Expr) {waiting : List Expr} {earlier : List Visit}
    (h : earlier.map Visit.tree = waiting.flatMap subtrees) :
    Visit.AllInPlace earlier (e.visits waiting) := by
  induction e generalizing waiting earlier with
  | operand value => exact ⟨⟨h, List.nil_suffix⟩, trivial⟩
  | unary op argument ih =>
    have hargument := Visit.completed_visits h argument
    rw [visits, Visit.allInPlace_append]
    exact ⟨ih h, ⟨hargument, List.suffix_append waiting [argument]⟩, trivial⟩
  | binary op left right ihl ihr =>
    have hleft := Visit.completed_visits h left
    have hright := Visit.completed_visits hleft right
    rw [List.append_assoc, List.append_assoc, List.singleton_append] at hright
    rw [visits, Visit.allInPlace_append, Visit.allInPlace_append]
    exact ⟨⟨ihl h, ihr hleft⟩, ⟨hright, List.suffix_append waiting [left, right]⟩, trivial⟩

/-! ## Events of visits -/

namespace Visit

/-- The values of the trees that are completed and not yet used. -/
def values (visit : Visit) : List Binary64 := visit.waiting.map Expr.value

/-- The visit of a node, and behind it the failure of its operation if it failed. -/
def events (visit : Visit) : List Event :=
  .visiting visit.tree.root visit.values ::
    ((failureOf visit.tree.outcome).map (Event.failed visit.tree.root)).toList

/-- The record of a visit shows the node and the values; behind it stands why the operation failed,
if it failed. -/
def records (visit : Visit) : List (Level × String) :=
  (.trace, "eval " ++ visit.tree.root.toText ++ " (kind " ++ toString visit.tree.root.kind ++
    ") with stack [" ++ ", ".intercalate (visit.values.map Binary64.journalText) ++ "]") ::
  match visit.tree.outcome with
  | .ok _ => []
  | .error error => [(.warn, visit.tree.root.toText ++ " failed: " ++ error.message)]

/-- What is written down of the events of a visit. -/
theorem map_written_events (visit : Visit) : visit.events.map Event.written = visit.records := by
  unfold events records
  cases visit.tree.outcome <;> rfl

end Visit

namespace Evaluation

/-- A node that finds its operands is recorded with its failure, and the walk goes on with what it
hands on. -/
theorem events_walkRecorded_cons {s : State} {node : Node} {below : List Binary64}
    {result : Except DomainError Binary64} (h : operate? s.stack node = some (result, below))
    (nodes : PostfixExpr) :
    (walkRecorded s (node :: nodes)).run.events =
      .visiting node s.stack.reverse :: ((failureOf result).map (Event.failed node)).toList ++
        (walkRecorded ⟨handedOn result :: below, (failureOf result).or s.failure⟩
          nodes).run.events := by
  rw [walkRecorded, ExceptT.run_bind, Recorded.events_bind, State.step_of_operate? h]

/-- Walking over the nodes of a tree records its visits, and the nodes that follow find its value on
the stack. -/
theorem events_walkRecorded_postorder (e : Expr) {s : State} {waiting : List Expr}
    (h : s.stack.reverse = waiting.map Expr.value) (rest : PostfixExpr) :
    (walkRecorded s (e.postorder ++ rest)).run.events =
      (e.visits waiting).flatMap Visit.events ++
        (walkRecorded ⟨e.value :: s.stack, e.lastFailure?.or s.failure⟩ rest).run.events := by
  have hpushed : ∀ {stack : List Binary64} {waiting : List Expr} (operand : Expr),
      stack.reverse = waiting.map Expr.value →
        (operand.value :: stack).reverse = (waiting ++ [operand]).map Expr.value := by
    intro stack waiting operand hstack
    rw [List.reverse_cons, hstack, List.map_append, List.map_singleton]
  induction e generalizing s waiting rest with
  | operand value =>
    rw [Expr.postorder, List.singleton_append, events_walkRecorded_cons rfl, h]
    rfl
  | unary op argument ih =>
    rw [Expr.postorder, List.append_assoc, ih h, List.singleton_append,
      events_walkRecorded_cons rfl, hpushed argument h, Expr.lastFailure?_unary, Option.or_assoc,
      Expr.visits, List.flatMap_append, List.flatMap_singleton, List.append_assoc]
    rfl
  | binary op left right ihl ihr =>
    have hleft := hpushed left h
    rw [Expr.postorder, List.append_assoc, List.append_assoc, ihl h, ihr hleft,
      List.singleton_append, events_walkRecorded_cons rfl, hpushed right hleft,
      Expr.lastFailure?_binary, Option.or_assoc, Option.or_assoc, Expr.visits, List.flatMap_append,
      List.flatMap_append, List.flatMap_singleton, List.append_assoc, List.append_assoc,
      List.append_assoc]
    rfl

/-- What an evaluation records, it records on its walk. -/
theorem events_ofPostfixRecorded (nodes : PostfixExpr) :
    (ofPostfixRecorded nodes).run.events = (walkRecorded .initial nodes).run.events := by
  rw [ofPostfixRecorded, ExceptT.run_bind, Recorded.events_bind]
  cases (walkRecorded .initial nodes).run.result with
  | error e => exact List.append_nil _
  | ok s => exact List.append_nil _

/-- The events of evaluating a tree are those of its visits. -/
theorem events_ofPostfixRecorded_postorder (e : Expr) :
    (ofPostfixRecorded e.postorder).run.events = (e.visits []).flatMap Visit.events := by
  have hwalk := @events_walkRecorded_postorder e .initial [] rfl []
  rw [List.append_nil] at hwalk
  rw [events_ofPostfixRecorded, hwalk]
  exact List.append_nil _

/-- The failure of a division stands behind its visit, and zero takes the place of the quotient. -/
example :
    (ofPostfixRecorded
        [.operand .one, .operand .zero, .binary .divide, .unary (.sign .plus)]).run.events =
      [.visiting (.operand .one) [], .visiting (.operand .zero) [.one],
        .visiting (.binary .divide) [.one, .zero], .failed (.binary .divide) .divisionByZero,
        .visiting (.unary (.sign .plus)) [.zero]] := by
  decide

end Evaluation

/-! ## Warnings -/

namespace Event

/-- The failure that an event records. -/
def failure? : Event → Option DomainError
  | failed _ error => some error
  | converted _ | rejected _ _ | visiting _ _ => none

/-- The events that record failures are the warnings. -/
theorem failure?_eq_none_iff {event : Event} : event.failure? = none ↔ event.level ≠ .warn := by
  cases event <;> simp [failure?, level]

/-- A warning names a node and a failure. -/
theorem written_eq_warning_iff {event : Event} {node : Node} {error : DomainError} :
    event.written = (.warn, node.toText ++ " failed: " ++ error.message) ↔
      ∃ node' error', event = failed node' error' ∧ node'.toText = node.toText ∧
        error'.shown = error.shown := by
  constructor
  · intro h
    cases event with
    | converted | rejected | visiting => cases congrArg Prod.fst h
    | failed node' error' =>
      have htext := congrArg String.toList (congrArg Prod.snd h)
      simp only [written_failed, String.toList_append, List.append_assoc] at htext
      obtain ⟨hnode, herror⟩ :=
        append_cons_inj node'.space_not_mem_toText node.space_not_mem_toText htext
      have hmessage := String.toList_inj.1 (List.append_cancel_left herror)
      exact ⟨node', error', rfl, String.toList_inj.1 hnode, DomainError.message_eq_iff.1 hmessage⟩
  · rintro ⟨node', error', rfl, hnode, herror⟩
    rw [written_failed, hnode, DomainError.message_eq_iff.2 herror]

/-- The last failure among events is the one that the last warning names. -/
theorem shown_getLast?_failures_iff {events : List Event} {error : DomainError} :
    (events.filterMap failure?).getLast?.map DomainError.shown = some error.shown ↔
      ∃ (before : List (Level × String)) (node : Node) (after : List (Level × String)),
        events.map written =
          before ++ (.warn, node.toText ++ " failed: " ++ error.message) :: after ∧
        ∀ record ∈ after, record.1 ≠ .warn := by
  rw [List.getLast?_filterMap, Option.map_eq_some_iff]
  constructor
  · rintro ⟨last, hlast, hshown⟩
    obtain ⟨after, event, before, hsplit, hfailure, hafter⟩ := List.findSome?_eq_some_iff.1 hlast
    obtain ⟨node, rfl⟩ : ∃ node, event = failed node last := by
      cases event with
      | failed node error => exact ⟨node, congrArg _ (Option.some.inj hfailure)⟩
      | converted | rejected | visiting => cases hfailure
    have hrecord := written_eq_warning_iff.2 ⟨node, last, rfl, rfl, hshown⟩
    refine ⟨(before.reverse).map written, node, (after.reverse).map written, ?_, ?_⟩
    · have hevents : events = before.reverse ++ failed node last :: after.reverse := by
        simpa using congrArg List.reverse hsplit
      rw [hevents, List.map_append, List.map_cons, hrecord]
    · rw [List.forall_mem_map]
      intro event hevent
      exact failure?_eq_none_iff.1 (hafter event (List.mem_reverse.1 hevent))
  · rintro ⟨before, node, after, hsplit, hafter⟩
    obtain ⟨before, rest, rfl, rfl, hrest⟩ := List.map_eq_append_iff.1 hsplit
    obtain ⟨event, after, rfl, hevent, rfl⟩ := List.map_eq_cons_iff.1 hrest
    obtain ⟨node', error', rfl, -, hshown⟩ := written_eq_warning_iff.1 hevent
    refine ⟨error', List.findSome?_eq_some_iff.2 ?_, hshown⟩
    refine ⟨after.reverse, failed node' error', before.reverse, by simp, rfl, ?_⟩
    intro event hevent
    exact failure?_eq_none_iff.2 (hafter _ (List.mem_map_of_mem (List.mem_reverse.1 hevent)))

/-- There is no failure among events if there is no warning. -/
theorem getLast?_failures_eq_none_iff {events : List Event} :
    (events.filterMap failure?).getLast? = none ↔
      ∀ record ∈ events.map written, record.1 ≠ .warn := by
  rw [List.getLast?_eq_none_iff, List.filterMap_eq_nil_iff, List.forall_mem_map]
  exact forall₂_congr fun event _ => failure?_eq_none_iff

end Event

namespace Visit

/-- Among the records of a visit is one on the level of tracing. -/
theorem length_filter_trace (visit : Visit) :
    (visit.records.filter fun record => record.1 == .trace).length = 1 := by
  unfold records
  cases visit.tree.outcome <;> rfl

theorem filterMap_failure?_events (visit : Visit) :
    visit.events.filterMap Event.failure? = (failureOf visit.tree.outcome).toList := by
  unfold events
  cases failureOf visit.tree.outcome <;> rfl

end Visit

namespace Expr

/-- The last failure among the events of a tree is that of its evaluation. -/
theorem getLast?_failures_visits (e : Expr) :
    (((e.visits []).flatMap Visit.events).filterMap Event.failure?).getLast? = e.lastFailure? := by
  rw [List.filterMap_flatMap, lastFailure?, ← e.map_tree_visits [],
    List.filterMap_eq_flatMap_toList, List.flatMap_map]
  simp only [Visit.filterMap_failure?_events]

end Expr

namespace Calculator

variable {c : Calculator} {text : String}

/-- A text that is not converted is recorded with what is wrong with it. -/
theorem journal_of_error {e : SyntaxError} (h : c.convert text = .error e) :
    c.journal text = [.rejected text e] := by
  rw [journal, calculateRecorded_of_error h]

/-- The events of a converted text are its nodes and the visits of the tree that they are those
of. -/
theorem journal_of_postorder {e : Expr} (h : c.convert text = .ok e.postorder) :
    c.journal text = .converted e.postorder :: (e.visits []).flatMap Visit.events := by
  have hevents : (evaluateRecorded e.postorder).events = (e.visits []).flatMap Visit.events := by
    rw [← Evaluation.events_ofPostfixRecorded_postorder]
    exact List.append_nil _
  rw [journal, calculateRecorded_of_ok h, hevents]

/-- What is written down for a converted text. -/
theorem records_of_postorder {e : Expr} (h : c.convert text = .ok e.postorder) :
    c.records text =
      (.debug, "postfix: [" ++ ", ".intercalate (e.postorder.map Node.label) ++ "]") ::
        (e.visits []).flatMap Visit.records := by
  rw [records, journal_of_postorder h, List.map_cons, List.map_flatMap]
  simp only [Visit.map_written_events]
  rw [Event.written_converted, PostfixExpr.label, ← String.append_assoc, ← String.append_assoc]
  rfl

/-- There are as many records on the level of tracing as nodes. -/
theorem length_filter_trace_records {e : Expr} (h : c.convert text = .ok e.postorder) :
    ((c.records text).filter fun record => record.1 == .trace).length = e.postorder.length := by
  rw [records_of_postorder h, List.filter_cons_of_neg Bool.false_ne_true, List.filter_flatMap,
    List.length_flatMap, ← e.map_root_visits [], List.length_map]
  simp [Visit.length_filter_trace]

/-- The last failure in the journal of a converted text is that of its tree. -/
theorem getLast?_failures_journal {e : Expr} (h : c.convert text = .ok e.postorder) :
    ((c.journal text).filterMap Event.failure?).getLast? = e.lastFailure? := by
  rw [journal_of_postorder h, List.filterMap_cons_none rfl, e.getLast?_failures_visits]

/-- There is a warning exactly if the status is that of a computation error. -/
theorem status_eq_computationError_iff (c : Calculator) (text : String) :
    (c.calculate text).status = .computationError ↔
      ∃ record ∈ c.records text, record.1 = .warn := by
  cases hconvert : c.convert text with
  | error e =>
    rw [calculate_of_error hconvert, records, journal_of_error hconvert]
    simp [Event.written, Event.level]
  | ok nodes =>
    obtain ⟨e, rfl⟩ := Conversion.checkArity_eq_ok_iff.1 (Conversion.checkArity_of_ofText hconvert)
    have hwarnings : e.lastFailure? ≠ none ↔ ∃ record ∈ c.records text, record.1 = .warn := by
      rw [← getLast?_failures_journal hconvert, Ne, Event.getLast?_failures_eq_none_iff, records]
      simp
    rw [calculate_of_ok hconvert]
    exact (status_evaluate e.ofPostfix_postorder).2.1.trans hwarnings

/-- There is nothing but the failure of the conversion exactly if the status is that of a syntax
error. -/
theorem status_eq_syntaxError_iff_debug (c : Calculator) (text : String) :
    (c.calculate text).status = .syntaxError ↔ ∀ record ∈ c.records text, record.1 = .debug := by
  rw [status_eq_syntaxError_iff]
  cases hconvert : c.convert text with
  | error e =>
    refine iff_of_true ⟨e, rfl⟩ ?_
    rw [records, journal_of_error hconvert]
    simp [Event.written, Event.level]
  | ok nodes =>
    obtain ⟨e, rfl⟩ := Conversion.checkArity_eq_ok_iff.1 (Conversion.checkArity_of_ofText hconvert)
    refine iff_of_false (by simp) fun hdebug => ?_
    have hvisits := length_filter_trace_records hconvert
    rw [List.filter_eq_nil_iff.2 fun record hrecord => by rw [hdebug record hrecord]; decide]
      at hvisits
    cases e <;> simp [Expr.postorder] at hvisits

/-- What is written down for a text tells what happened.  If it is not converted, one record says
so and names the text and the error.  Otherwise the first record lists its nodes, which are those of
a tree.  Then each node in order has one visit, which shows the values of the trees that are
completed and not yet used, and directly behind it stands why its operation failed, if it failed.
So there are as many visits as nodes, the last warning names the failure that the evaluation
reports, and there is a warning exactly if the status is that of a computation error.  The lists of
nodes and of values are known from their texts. -/
theorem journal_tells (c : Calculator) (text : String) :
    (∀ e, c.convert text = .error e →
      c.records text = [(.debug, "conversion of " ++ quote text ++ " failed: " ++ e.message)] ∧
        ∀ (other : String) (e' : SyntaxError),
          "conversion of " ++ quote other ++ " failed: " ++ e'.message =
              "conversion of " ++ quote text ++ " failed: " ++ e.message ↔
            other = text ∧ e' = e) ∧
    (∀ nodes, c.convert text = .ok nodes →
      ∃ (e : Expr) (visits : List Visit),
        nodes = e.postorder ∧
        visits.map Visit.tree = e.subtrees ∧
        (visits.map fun visit => visit.tree.root) = nodes ∧
        (∀ earlier visit later, visits = earlier ++ visit :: later → visit.InPlace earlier) ∧
        c.records text =
          (.debug, "postfix: [" ++ ", ".intercalate (nodes.map Node.label) ++ "]") ::
            visits.flatMap Visit.records ∧
        (∀ others : PostfixExpr,
          ", ".intercalate (others.map Node.label) = ", ".intercalate (nodes.map Node.label) ↔
            others.map Node.shown = nodes.map Node.shown) ∧
        (∀ visit ∈ visits, ∀ values : List Binary64,
          ", ".intercalate (values.map Binary64.journalText) =
              ", ".intercalate (visit.values.map Binary64.journalText) ↔
            values.map Binary64.shown = visit.values.map Binary64.shown) ∧
        ((c.records text).filter fun record => record.1 == .trace).length = nodes.length ∧
        ∃ evaluation, Evaluation.ofPostfix nodes = .ok evaluation ∧
          (evaluation.failure = none ↔ ∀ record ∈ c.records text, record.1 ≠ .warn) ∧
          ∀ error : DomainError, evaluation.failure.map DomainError.shown = some error.shown ↔
            ∃ (before : List (Level × String)) (node : Node) (after : List (Level × String)),
              c.records text =
                before ++ (.warn, node.toText ++ " failed: " ++ error.message) :: after ∧
              ∀ record ∈ after, record.1 ≠ .warn) ∧
    ((c.calculate text).status = .computationError ↔
      ∃ record ∈ c.records text, record.1 = .warn) ∧
    ((c.calculate text).status = .syntaxError ↔
      ∀ record ∈ c.records text, record.1 = .debug) := by
  refine ⟨?_, ?_, status_eq_computationError_iff c text, status_eq_syntaxError_iff_debug c text⟩
  · intro e hconvert
    refine ⟨?_, fun other e' => rejection_eq_iff⟩
    rw [records, journal_of_error hconvert]
    rfl
  · intro nodes hconvert
    obtain ⟨e, rfl⟩ := Conversion.checkArity_eq_ok_iff.1 (Conversion.checkArity_of_ofText hconvert)
    refine ⟨e, e.visits [], rfl, e.map_tree_visits [], e.map_root_visits [], ?_,
      records_of_postorder hconvert, ?_, ?_, ?_, ⟨e.value, e.lastFailure?⟩, e.ofPostfix_postorder,
      ?_, ?_⟩
    · intro earlier visit later hsplit
      have hplace := @Expr.visits_inPlace e [] [] rfl
      rw [hsplit, Visit.allInPlace_append, List.nil_append] at hplace
      exact hplace.2.1
    · exact fun others => intercalate_map_eq_iff Node.label_isEntry Node.label_eq_iff
    · exact fun visit _ values =>
        intercalate_map_eq_iff Binary64.journalText_isEntry Binary64.journalText_eq_iff
    · exact length_filter_trace_records hconvert
    · rw [← getLast?_failures_journal hconvert, Event.getLast?_failures_eq_none_iff, records]
    · intro error
      rw [← getLast?_failures_journal hconvert, Event.shown_getLast?_failures_iff, records]

end Calculator

end PostfixCalc
