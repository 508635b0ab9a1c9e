import Provision.Command.Report
import Provision.Proofs.Graph.Documents

/-!
# Reports of one job

A plan and a validation do the same until they print, and a text can be printed of every graph.
A JSON document can be printed only of a graph whose paths are texts and whose mappings have keys
that JSON can have, so this is where the plan in JSON may fail alone. A report that tells of a
failure tells of nothing printed, and what a plan in JSON prints tells the graph.
-/

namespace Provision.Command

/-! ### How an action ends -/

/-- How an action ends after what was printed before it. -/
inductive Action.Ends (a : Action) (e : Evaluation) (before : String) :
    Except Failure Unit × String → Prop
  /-- A notification has no target. -/
  | undelivered {f : Notification.Failure} (h : e.graph.deliveries = .error f) :
      Ends a e before (.error (.notification f), before)
  /-- There is an obstacle to the document of the graph. -/
  | unwritable {ds : List Delivery} (hds : e.graph.deliveries = .ok ds) (ha : a = .plan .json)
      {obstacle : Json.Obstacle} (h : e.graph.json = .error obstacle) :
      Ends a e before (.error (.unwritable obstacle), before)
  /-- All is printed. -/
  | done {ds : List Delivery} (hds : e.graph.deliveries = .ok ds)
      (h : a = .plan .json → e.graph.Writable) (text : String) :
      Ends a e before (.ok (), before ++ text)

section

variable {e : Evaluation} (n : Nat) (before : String)

/-- A plan in text is printed of every graph. -/
theorem Action.print_text : ((Action.plan .text).print e n).run.run before =
    (.ok (), before ++ e.graph.tree ++ "\n" ++
      planLine e.graph.size e.graph.resources.length n) := rfl

/-- The counts of a validation are printed of every graph. -/
theorem Action.print_validate : (Action.validate.print e n).run.run before =
    (.ok (), before ++ validLine e.graph.size e.graph.resources.length n e.definitions.size) := rfl

/-- A plan in JSON prints the document of the graph on several lines. -/
theorem Action.print_json_of_ok {d : Json} (h : e.graph.json = .ok d) :
    ((Action.plan .json).print e n).run.run before =
      (.ok (), before ++ (d.indentedText ++ "\n")) := by
  simp only [print, h]
  rfl

/-- A plan in JSON prints nothing if there is an obstacle to the document. -/
theorem Action.print_json_of_error {obstacle : Json.Obstacle}
    (h : e.graph.json = .error obstacle) :
    ((Action.plan .json).print e n).run.run before = (.error (.unwritable obstacle), before) := by
  simp only [print, h]
  rfl

end

/-- An action that fails prints nothing. -/
theorem Action.ends (a : Action) (e : Evaluation) (before : String) :
    a.Ends e before ((a.conclude e).run.run before) := by
  unfold conclude
  cases hds : e.graph.deliveries with
  | error f => exact .undelivered hds
  | ok ds =>
    dsimp only
    match a with
    | .plan .text =>
      rw [print_text, String.append_assoc, String.append_assoc]
      exact .done hds (by simp) _
    | .validate =>
      rw [print_validate]
      exact .done hds (by simp) _
    | .plan .json =>
      cases hd : e.graph.json with
      | error obstacle =>
        rw [print_json_of_error _ _ hd]
        exact .unwritable hds rfl hd
      | ok d =>
        rw [print_json_of_ok _ _ hd]
        exact .done hds (fun _ => e.graph.json_isOk_iff.mp ⟨d, hd⟩) _

section

variable {a : Action} {e : Evaluation} {before : String} {r : Except Failure Unit × String}

/-- Where there is a failure, nothing more was printed. -/
theorem Action.Ends.printed_of_error (h : a.Ends e before r) {f : Failure} (hf : r.1 = .error f) :
    r.2 = before := by
  cases h with
  | undelivered | unwritable => rfl
  | done => cases hf

/-- Every action fails by a notification that has no target. -/
theorem Action.Ends.outcome_of_error (h : a.Ends e before r) {f : Notification.Failure}
    (hf : e.graph.deliveries = .error f) : r.1 = .error (.notification f) := by
  cases h with
  | undelivered hf' =>
    cases hf.symm.trans hf'
    rfl
  | unwritable hds | done hds => cases hf.symm.trans hds

/-- An action is done if its notifications are delivered and its graph can be written. -/
theorem Action.Ends.outcome_of_ok (h : a.Ends e before r) {ds : List Delivery}
    (hds : e.graph.deliveries = .ok ds) (hw : a = .plan .json → e.graph.Writable) :
    r.1 = .ok () := by
  cases h with
  | undelivered hf => cases hds.symm.trans hf
  | unwritable _ ha hobstacle =>
    obtain ⟨d, hd⟩ := e.graph.json_isOk_iff.mpr (hw ha)
    cases hd.symm.trans hobstacle
  | done => rfl

/-- A plan in JSON fails by the obstacle to its document. -/
theorem Action.Ends.outcome_of_unwritable (h : (Action.plan .json).Ends e before r)
    {ds : List Delivery} (hds : e.graph.deliveries = .ok ds) (hw : ¬e.graph.Writable) :
    ∃ obstacle, e.graph.json = .error obstacle ∧ r.1 = .error (.unwritable obstacle) := by
  cases h with
  | undelivered hf => cases hds.symm.trans hf
  | unwritable _ _ hobstacle => exact ⟨_, hobstacle, rfl⟩
  | done _ h => exact absurd (h rfl) hw

end

/-! ### The reports of a job -/

/-- The report of a job with a given action. -/
def Job.report (host : Host) (depth : Nat) (j : Job) (a : Action) : Report :=
  { j with action := a }.run host depth

/-- Reports of the same messages and of the same success or failure. -/
structure Report.SameCourse (r r' : Report) : Prop where
  log : r.log = r'.log
  outcome : r.outcome = r'.outcome

/-- Reports of the same course have the same messages under any filter. -/
theorem Report.SameCourse.messages {r r' : Report} (h : r.SameCourse r') (filter : Log.Filter) :
    r.messages filter = r'.messages filter := by
  unfold Report.messages Report.result
  rw [h.log, h.outcome]
  cases r'.outcome <;> rfl

/-- The action of a job decides about nothing but what is printed, except that a plan in JSON
fails for a graph that cannot be written. -/
structure Job.Concord (host : Host) (depth : Nat) (j : Job) : Prop where
  /-- A validation is done or fails like a plan in text. -/
  validate : (j.report host depth .validate).SameCourse (j.report host depth (.plan .text))
  /-- So is a plan in JSON, if the graph can be written. -/
  json : ((j.report host depth (.plan .text)).outcome = .ok () →
      (j.evaluate host depth).2.graph.Writable) →
    (j.report host depth (.plan .json)).SameCourse (j.report host depth (.plan .text))
  /-- Otherwise it fails alone, by the obstacle to the document. -/
  unwritable : (j.report host depth (.plan .text)).outcome = .ok () →
    ¬(j.evaluate host depth).2.graph.Writable →
      (j.report host depth (.plan .json)).log = (j.report host depth (.plan .text)).log ∧
        ∃ obstacle, (j.evaluate host depth).2.graph.json = .error obstacle ∧
          (j.report host depth (.plan .json)).outcome = .error (.unwritable obstacle)
  /-- An evaluation whose notifications are all delivered can be printed as text. -/
  delivered : (j.evaluate host depth).1 = .ok () →
    ((j.report host depth (.plan .text)).outcome = .ok () ↔
      ∃ ds, (j.evaluate host depth).2.graph.deliveries = .ok ds)
  /-- Where there is a failure, nothing was printed. -/
  silent : ∀ a f, (j.report host depth a).outcome = .error f →
    (j.report host depth a).printed = ""

section

variable {host : Host} {depth : Nat} {j : Job}

/-- The action of a job is taken up only after its evaluation. -/
theorem Job.report_eq (host : Host) (depth : Nat) (j : Job) (a : Action) :
    j.report host depth a =
      match j.evaluate host depth with
      | (.ok _, e) => ⟨e.log, ((a.conclude e).run.run "").2, ((a.conclude e).run.run "").1⟩
      | (.error f, e) => ⟨e.log, "", .error f⟩ := rfl

/-- The log is that of the evaluation. -/
theorem Job.report_log (a : Action) :
    (j.report host depth a).log = (j.evaluate host depth).2.log := by
  rw [report_eq]
  split <;> next h => rw [h]

/-- An evaluation that fails is reported in the same way for every action. -/
theorem Job.report_of_error {f : Failure} (h : (j.evaluate host depth).1 = .error f) (a : Action) :
    j.report host depth a = ⟨(j.evaluate host depth).2.log, "", .error f⟩ := by
  rw [report_eq]
  split
  · next hok => cases h.symm.trans (congrArg Prod.fst hok)
  · next herror =>
    cases h.symm.trans (congrArg Prod.fst herror)
    rw [herror]

/-- After an evaluation that succeeds, the report ends as the action does. -/
theorem Job.report_ends (h : (j.evaluate host depth).1 = .ok ()) (a : Action) :
    a.Ends (j.evaluate host depth).2 ""
      ((j.report host depth a).outcome, (j.report host depth a).printed) := by
  rw [report_eq]
  split
  · next e hok =>
    rw [hok]
    exact a.ends e ""
  · next herror => cases h.symm.trans (congrArg Prod.fst herror)

end

/-- The actions of a job are in concord. -/
theorem Job.concord (host : Host) (depth : Nat) (j : Job) : j.Concord host depth := by
  have hlog (a b : Action) : (j.report host depth a).log = (j.report host depth b).log := by
    rw [report_log, report_log]
  cases hevaluated : (j.evaluate host depth).1 with
  | error f =>
    have hreport := report_of_error hevaluated
    exact {
      validate := ⟨hlog _ _, by rw [hreport, hreport]⟩
      json := fun _ => ⟨hlog _ _, by rw [hreport, hreport]⟩
      unwritable := fun hok => by
        rw [hreport] at hok
        cases hok
      delivered := fun hok => by cases hevaluated.symm.trans hok
      silent := fun a _ _ => by rw [hreport] }
  | ok =>
    have hends := report_ends hevaluated
    have hsilent (a : Action) (f : Failure) (hf : (j.report host depth a).outcome = .error f) :
        (j.report host depth a).printed = "" := (hends a).printed_of_error hf
    cases hds : (j.evaluate host depth).2.graph.deliveries with
    | error f =>
      have houtcome (a : Action) := (hends a).outcome_of_error hds
      exact {
        validate := ⟨hlog _ _, (houtcome _).trans (houtcome _).symm⟩
        json := fun _ => ⟨hlog _ _, (houtcome _).trans (houtcome _).symm⟩
        unwritable := fun hok => by cases hok.symm.trans (houtcome _)
        delivered := fun _ => iff_of_false (fun hok => by cases hok.symm.trans (houtcome _))
          fun ⟨_, hok⟩ => by cases hds.symm.trans hok
        silent := hsilent }
    | ok ds =>
      have htext := (hends (.plan .text)).outcome_of_ok hds (by simp)
      have hvalidate := (hends .validate).outcome_of_ok hds (by simp)
      exact {
        validate := ⟨hlog _ _, hvalidate.trans htext.symm⟩
        json := fun hw => ⟨hlog _ _,
          ((hends _).outcome_of_ok hds fun _ => hw htext).trans htext.symm⟩
        unwritable := fun _ hw => ⟨hlog _ _, (hends _).outcome_of_unwritable hds hw⟩
        delivered := fun _ => ⟨fun _ => ⟨ds, hds⟩, fun _ => htext⟩
        silent := hsilent }

/-- A validation of one file. -/
def checking : Job := ⟨.validate, [⟨"/r.yml"⟩], none, none, "info"⟩

/-- A machine with a file that gives a package an attribute with a null key. -/
def nullKeyHost : Host :=
  .ofFacts [(⟨"/r.yml"⟩, some (.file (.ok "- package: a\n  with: \x7bx: \x7b~: 1\x7d\x7d\n")))]
    none ⟨"/"⟩

set_option maxRecDepth 8192 in
/-- A null key is no obstacle but to a plan in JSON. -/
theorem Job.report_nullKey :
    (checking.report nullKeyHost 1 .validate).outcome = .ok () ∧
      (checking.report nullKeyHost 1 (.plan .text)).outcome = .ok () ∧
      (checking.report nullKeyHost 1 (.plan .json)).outcome = .error (.unwritable .key) ∧
      ¬∀ (host : Host) (depth : Nat) (j : Job) (a b : Action),
        (j.report host depth a).outcome = (j.report host depth b).outcome := by
  have hvalidate : (checking.report nullKeyHost 1 .validate).outcome = .ok () := by
    decide +kernel
  have htext : (checking.report nullKeyHost 1 (.plan .text)).outcome = .ok () := by
    decide +kernel
  have hjson : (checking.report nullKeyHost 1 (.plan .json)).outcome =
      .error (.unwritable .key) := by
    decide +kernel
  refine ⟨hvalidate, htext, hjson, fun h => ?_⟩
  have hsame := h nullKeyHost 1 checking .validate (.plan .json)
  rw [hvalidate, hjson] at hsame
  cases hsame

/-- A path that ends in a byte which belongs to no character. -/
def strayPath : Path := ⟨String.ofList ['/', 'r', '\x00', Char.ofNat 0x10FFE9]⟩

/-- A file with such a path is an obstacle, too. In text there is a replacement for the byte. -/
example :
    let host : Host := .ofFacts [(strayPath, some (.file (.ok "")))] none ⟨"/"⟩
    let job : Job := ⟨.validate, [strayPath], none, none, "info"⟩
    (job.report host 1 (.plan .json)).outcome = .error (.unwritable .path) ∧
      (job.report host 1 (.plan .text)).printed =
        "Recipe: /r\uFFFD\n\nPlan: 1 recipes, 0 resources, 0 notifications.\n" := by
  decide +kernel

/-! ### What a plan tells -/

/-- The evaluation of recipes ends where a session ends that loads them one after the other. -/
theorem exists_session_of_loads (host : Host) (depth : Nat) (scope : Scope) (recipes : List Path)
    {s : Session} (hs : s.Reachable) :
    ∃ t : Session, t.Reachable ∧ t.state =
      ((recipes.forM fun path => do
        let _ ← Evaluation.load host depth path scope : Run Unit).outcome s.state).2 := by
  induction recipes generalizing s with
  | nil => exact ⟨s, hs, rfl⟩
  | cons path recipes ih =>
    have hload : Session.Next host depth s (s.load host depth path scope) := .load path scope
    rw [List.forM, Run.outcome_bind, Run.outcome_bind]
    rcases hr : (Evaluation.load host depth path scope).outcome s.state with ⟨stop | id, u⟩
    · exact ⟨_, hs.next hload, congrArg Prod.snd hr⟩
    · obtain ⟨t, ht, hstate⟩ := ih (hs.next hload)
      refine ⟨t, ht, ?_⟩
      rw [hstate, Session.load, hr]
      rfl

/-- The graph of an evaluation is that of a reachable session. -/
theorem Job.exists_session (host : Host) (depth : Nat) (j : Job) :
    ∃ s : Session, s.Reachable ∧ s.state.graph = (j.evaluate host depth).2.graph := by
  unfold evaluate
  cases Node.load host j.nodeYaml j.nodeJson with
  | error f => exact ⟨Session.start, .start, rfl⟩
  | ok node =>
    obtain ⟨s, hs, hstate⟩ := exists_session_of_loads host depth
      (OrderedMap.empty.insert "node" (.constant node)) j.recipes .start
    refine ⟨s, hs, ?_⟩
    rw [hstate]
    dsimp only [Command.evaluate, Session.start]
    rw [Run.outcome_bind]
    -- The message about the evaluation changes nothing but the log.
    rcases Run.outcome (j.recipes.forM _) Evaluation.empty with ⟨stop | _, t⟩ <;> rfl

section

variable {host host' : Host} {depth depth' : Nat} {j j' : Job}

/-- What a plan in JSON prints is the document of the graph. -/
theorem Job.exists_document (h : (j.report host depth (.plan .json)).outcome = .ok ()) :
    ∃ d, (j.evaluate host depth).2.graph.json = .ok d ∧
      (j.report host depth (.plan .json)).printed = d.indentedText ++ "\n" := by
  rw [report_eq] at h ⊢
  split at h
  · next e he =>
    rw [he]
    unfold Action.conclude at h ⊢
    cases hds : e.graph.deliveries with
    | error f =>
      rw [hds] at h
      cases h
    | ok ds =>
      rw [hds] at h
      cases hd : e.graph.json with
      | error obstacle =>
        rw [Action.print_json_of_error _ _ hd] at h
        cases h
      | ok d => exact ⟨d, rfl, by rw [Action.print_json_of_ok _ _ hd, String.empty_append]⟩
  · cases h

/-- Plans that print the same JSON are plans of graphs that are alike. -/
theorem Job.alike_of_printed (h : (j.report host depth (.plan .json)).outcome = .ok ())
    (h' : (j'.report host' depth' (.plan .json)).outcome = .ok ())
    (hsame : (j.report host depth (.plan .json)).printed =
      (j'.report host' depth' (.plan .json)).printed) :
    (j.evaluate host depth).2.graph.Alike (j'.evaluate host' depth').2.graph := by
  obtain ⟨d, hd, hprinted⟩ := exists_document h
  obtain ⟨d', hd', hprinted'⟩ := exists_document h'
  obtain ⟨s, hs, hgraph⟩ := exists_session host depth j
  obtain ⟨t, ht, hgraph'⟩ := exists_session host' depth' j'
  rw [hprinted, hprinted', String.append_left_inj] at hsame
  obtain rfl : d = d' := (Graph.proper_json hd).eq_of_written .lines (Graph.proper_json hd')
    (String.ofList_inj.1 hsame)
  rw [← hgraph] at hd ⊢
  rw [← hgraph'] at hd' ⊢
  exact hs.owned.alike_of_json ht.owned hd hd'

end

end Provision.Command
