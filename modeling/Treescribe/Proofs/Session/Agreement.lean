import Treescribe.Proofs.Session.Annotations
import Treescribe.Proofs.Session.Limits
import Treescribe.Proofs.Session.Lines
import Treescribe.Proofs.Walk.Matching

/-!
# Sessions that agree

Visits that match have the same plan, so a session does the same at both. Visits that are akin,
which may differ in the lines they leave open, still change the situation and the depth alike:
sessions that were abreast stay so, and plan alike what comes next. Sessions that are even
differ at most in what was written and reported, and go on to write the same.
-/

namespace Treescribe

/-- Where an emitter stands in the layout of its text. -/
def Emitter.stance (emitter : Emitter) : Layout × Nat × Bool :=
  (emitter.layout, emitter.depth, emitter.atLineStart)

/-- How deep an emitter is behind a call. -/
def Call.deepen (depth : Nat) : Call → Nat
  | .write .. => depth
  | .indent => depth + 1
  | .dedent => depth - 1

namespace Emitter

/-- A call changes the depth as it does, whether or not it succeeds. -/
theorem depth_next (emitter : Emitter) (call : Call) :
    (emitter.next call).depth = call.deepen emitter.depth := by
  cases call with
  | write text newlines terminated => rw [next_write]; rfl
  | indent | dedent => rfl

/-- How a text is laid out depends on nothing but where the emitter stands. -/
theorem laidOut_of_stance {first second : Emitter} (same : first.stance = second.stance)
    (text : String) (newlines : Nat) (terminated : Bool) :
    first.laidOut text newlines terminated = second.laidOut text newlines terminated := by
  obtain ⟨layout, depth, atLineStart, sink⟩ := first
  cases same
  rfl

/-- Where an emitter stands behind a call depends on nothing but where it stood. -/
theorem stance_next {first second : Emitter} (same : first.stance = second.stance) (call : Call) :
    (first.next call).stance = (second.next call).stance := by
  cases call with
  | write text newlines terminated =>
    rw [next_write, next_write, laidOut_of_stance same]
    obtain ⟨layout, depth, atLineStart, sink⟩ := first
    cases same
    rfl
  | indent | dedent =>
    obtain ⟨layout, depth, atLineStart, sink⟩ := first
    cases same
    rfl

/-- Where an emitter stands behind calls depends on nothing but where it stood. -/
theorem stance_after {first second : Emitter} (same : first.stance = second.stance)
    (calls : List Call) : (first.after calls).stance = (second.after calls).stance := by
  induction calls generalizing first second with
  | nil => exact same
  | cons call rest inductionHypothesis => exact inductionHypothesis (stance_next same call)

/-- The text of a call depends on nothing but where the emitter stands. -/
theorem text?_of_stance {first second : Emitter} (same : first.stance = second.stance)
    (call : Call) : Emission.text? ⟨first, call⟩ = Emission.text? ⟨second, call⟩ := by
  cases call with
  | write text newlines terminated =>
    exact congrArg some (laidOut_of_stance same text newlines terminated)
  | indent | dedent => rfl

/-- The texts of calls depend on nothing but where the emitter stands, unless a sink refuses
one. -/
theorem texts_of_stance {first second : Emitter} (same : first.stance = second.stance)
    (unlimited : first.sink.limit = none) (unlimitedOther : second.sink.limit = none)
    (calls : List Call) :
    Emission.texts (first.emissions calls) = Emission.texts (second.emissions calls) := by
  induction calls generalizing first second with
  | nil => rfl
  | cons call rest inductionHypothesis =>
    have later := inductionHypothesis (stance_next same call)
      (by rw [next_limit, unlimited]) (by rw [next_limit, unlimitedOther])
    rw [emissions, emissions, perform_of_unlimited unlimited,
      perform_of_unlimited unlimitedOther]
    unfold Emission.texts at later ⊢
    rw [List.filterMap_cons, List.filterMap_cons, text?_of_stance same call, later]

/-- A write before calls that write nothing gives its own text, whether or not it succeeds. -/
theorem texts_of_first_write {emitter : Emitter} {text : String} {newlines : Nat}
    {terminated : Bool} {rest : List Call}
    (silent : ∀ next : Emitter, Emission.texts (next.emissions rest) = []) :
    Emission.texts (emitter.emissions (.write text newlines terminated :: rest)) =
      [emitter.laidOut text newlines terminated] := by
  rw [emissions, Emission.texts, List.filterMap_cons]
  refine congrArg (_ :: ·) ?_
  split
  · exact silent _
  · rfl

end Emitter

namespace Session

/-- A visit changes nothing that a session was given. -/
theorem setting_of_visit {session next : Session} {visit : Visit}
    (visited : session.visit visit = (.ok (), next)) : next.setting = session.setting := by
  have kept := session.visit_setting visit
  rwa [visited] at kept

/-- Visits change nothing that a session was given. -/
theorem setting_of_run {session final : Session} {visits : List Visit}
    (ran : listener.run visits session = (.ok (), final)) : final.setting = session.setting := by
  induction visits generalizing session with
  | nil =>
    cases ran
    rfl
  | cons visit rest inductionHypothesis =>
    obtain ⟨next, visited, ran⟩ := listener.run_cons_ok_iff.mp ran
    rw [call_listener] at visited
    exact (inductionHypothesis ran).trans (setting_of_visit visited)

/-- Matching visits have the same plan. -/
theorem plan_of_matching (session : Session) {visit other : Visit}
    (matching : visit.Matching other) : session.plan visit = session.plan other := by
  obtain ⟨akin, line⟩ := matching
  cases akin with
  | enterRoot | exitRoot => rfl
  | exit content => simp only [plan, exitNode, exitFunction, content]
  | @enter node other content =>
    simp only [Visit.opensLine, Node.opensLine, content] at line
    simp only [plan, enterNode, content]
    revert line
    cases other.content with
    | assignment | returnStatement =>
      intro line
      simp only at line
      rw [line]
    | package | importBlock | importPath | classBody | function | accessBlock | staticBlock | print
    | ifBranch | elseIfBranch | elseBranch | call | chain =>
      intro _
      rfl

/-- Entering a node writes one text at most, before anything that may change the emitter. -/
theorem texts_enter (session : Session) (node : Node) :
    Emission.texts (session.emissions (.enter (.inner node))) =
      (session.plannedCalls (.enter (.inner node))).filterMap fun call =>
        Emission.text? ⟨session.emitter, call⟩ := by
  unfold emissions plannedCalls
  cases planned : session.plan (.enter (.inner node)) with
  | error unknown => rfl
  | ok actions =>
    dsimp only
    rw [emissionsOf_eq]
    rcases enterNode_calls planned with ⟨-, header, calls⟩ | ⟨-, plain⟩
    · rw [calls]
      exact Emitter.texts_of_first_write fun _ => rfl
    · generalize actions.filterMap Action.call? = calls at plain
      cases plain with
      | silent => rfl
      | statement text => exact Emitter.texts_of_first_write fun _ => rfl
      | opening text => exact Emitter.texts_of_first_write fun _ => rfl

/-- Matching visits do the same, by the same calls. -/
theorem visit_of_matching (session : Session) {visit other : Visit}
    (matching : visit.Matching other) :
    session.visit visit = session.visit other ∧
      session.emissions visit = session.emissions other := by
  have planned := session.plan_of_matching matching
  unfold Session.visit emissions
  rw [planned]
  exact ⟨rfl, rfl⟩

/-- The texts that visits write one after another, hook by hook. -/
def textsAlong (session : Session) (visits : List Visit) : List (List String) :=
  (listener.trace visits session).map fun called => Emission.texts (called.2.emissions called.1)

/-- Visits that follow others write their texts behind those. -/
theorem textsAlong_append {session middle : Session} {first second : List Visit}
    (passed : listener.run first session = (.ok (), middle)) :
    session.textsAlong (first ++ second) =
      session.textsAlong first ++ middle.textsAlong second := by
  unfold textsAlong
  rw [listener.trace_append passed, List.map_append]

/-- A visit before others writes its texts before those. -/
theorem textsAlong_cons {session next : Session} {visit : Visit} {rest : List Visit}
    (visited : session.visit visit = (.ok (), next)) :
    session.textsAlong (visit :: rest) =
      Emission.texts (session.emissions visit) :: next.textsAlong rest := by
  simp [textsAlong, Listener.trace, visited]

/-- Visits that succeed have a hook each. -/
theorem length_textsAlong {session final : Session} {visits : List Visit}
    (ran : listener.run visits session = (.ok (), final)) :
    (session.textsAlong visits).length = visits.length := by
  rcases listener.run_cases visits session with ⟨_, -, called⟩ |
    ⟨_, _, _, _, _, _, -, -, -, failed, -⟩
  · rw [textsAlong, List.length_map, ← List.length_map Prod.fst, called]
  · rw [ran] at failed
    cases failed

/-- Visits that match one by one do the same, and write the same. -/
theorem run_of_matching {visits others : List Visit}
    (matching : List.Forall₂ Visit.Matching visits others) (session : Session) :
    listener.run visits session = listener.run others session ∧
      session.textsAlong visits = session.textsAlong others := by
  induction matching generalizing session with
  | nil => exact ⟨rfl, rfl⟩
  | cons first rest inductionHypothesis =>
    obtain ⟨visited, emitted⟩ := session.visit_of_matching first
    simp only [textsAlong, Listener.run, Listener.trace, call_listener, List.map_cons, visited,
      emitted]
    rcases session.visit _ with ⟨_ | ⟨⟩, next⟩
    · exact ⟨rfl, rfl⟩
    · obtain ⟨ran, written⟩ := inductionHypothesis next
      exact ⟨ran, congrArg _ written⟩

/-- Sessions that have come equally far in two walks: they were given the same, they are in
the same situation and equally deep. -/
structure Abreast (first second : Session) : Prop where
  setting : first.setting = second.setting
  situation : first.situation = second.situation
  depth : first.emitter.depth = second.emitter.depth

variable {first second firstNext secondNext : Session}

/-- Sessions that are abreast plan a visit alike. -/
theorem Abreast.plan (abreast : Abreast first second) (visit : Visit) :
    first.plan visit = second.plan visit := by
  obtain ⟨preamble, ⟨layout, depth, atLineStart, sink⟩, scopes, classes, modifiers, inPackage,
    notices⟩ := first
  obtain ⟨setting, situation, -⟩ := abreast
  obtain ⟨otherPreamble, ⟨otherLayout, otherDepth, otherStart, otherSink⟩, otherScopes,
    otherClasses, otherModifiers, otherPackage, otherNotices⟩ := second
  have options := congrArg Prod.fst setting
  cases options
  cases situation
  rcases visit with ⟨program | node⟩ | ⟨program | node⟩ <;> rfl

/-- A visit that succeeds changes the depth by the calls of its plan. -/
theorem depth_of_visit {session next : Session} {visit : Visit}
    (visited : session.visit visit = (.ok (), next)) :
    next.emitter.depth =
      (session.plannedCalls visit).foldl Call.deepen session.emitter.depth := by
  let deepen (depth : Nat) (action : Action) : Nat := action.call?.elim depth (Call.deepen depth)
  have step : ∀ (session : Session) (action : Action),
      (session.act action).2.emitter.depth = deepen session.emitter.depth action := by
    intro session action
    rw [act_emitter]
    unfold deepen
    cases action.call? with
    | none => rfl
    | some call => exact session.emitter.depth_next call
  obtain ⟨actions, planned, ran⟩ := visit_eq_ok_iff.mp visited
  have reached := @run_view Nat (·.emitter.depth) deepen step _ _ _ ran
  rw [reached, plannedCalls, planned, List.foldl_filterMap]
  congr 1
  funext depth action
  unfold deepen
  cases action.call? <;> rfl

/-- Entering a node goes one deeper if it opens a block. -/
theorem depth_enter {session next : Session} {node : Node}
    (entered : session.visit (.enter (.inner node)) = (.ok (), next)) :
    next.emitter.depth =
      if session.opensBlock node then session.emitter.depth + 1 else session.emitter.depth := by
  rw [depth_of_visit entered]
  rcases plannedCalls_enter entered with ⟨opens, header, calls⟩ | ⟨opens, plain⟩
  · rw [calls, if_pos opens]
    rfl
  · rw [if_neg (by simp [opens])]
    generalize session.plannedCalls (.enter (.inner node)) = calls at plain
    cases plain <;> rfl

/-- Leaving a node goes back if it closes a block. -/
theorem depth_exit {session next : Session} {node : Node}
    (left : session.visit (.exit (.inner node)) = (.ok (), next)) :
    next.emitter.depth =
      if session.closesBlock node then session.emitter.depth - 1 else session.emitter.depth := by
  rw [depth_of_visit left, plannedCalls_exit]
  split <;> rfl

/-- Sessions that are abreast open blocks alike. -/
theorem Abreast.opensBlock (abreast : Abreast first second) {node other : Node}
    (content : node.content = other.content) :
    first.opensBlock node = second.opensBlock other := by
  have scopes : first.scopes = second.scopes := congrArg Situation.scopes abreast.situation
  have inPackage : first.inPackage = second.inPackage :=
    congrArg Situation.inPackage abreast.situation
  unfold Session.opensBlock
  rw [content, scopes, inPackage]

/-- Visits that are akin change a situation alike. -/
theorem after_of_akin (situation : Situation) {visit other : Visit} (akin : visit.Akin other) :
    situation.after visit = situation.after other := by
  cases akin with
  | enterRoot | exitRoot => rfl
  | enter content => simp only [Situation.after, Situation.enter, content]
  | exit content => simp only [Situation.after, Situation.exit, content]

/-- Sessions that are abreast become equally deep by visits that match. -/
theorem Abreast.depth_of_matching (abreast : Abreast first second) {visit other : Visit}
    (matching : visit.Matching other) (visited : first.visit visit = (.ok (), firstNext))
    (otherVisited : second.visit other = (.ok (), secondNext)) :
    firstNext.emitter.depth = secondNext.emitter.depth := by
  have planned := (abreast.plan visit).trans (second.plan_of_matching matching)
  rw [depth_of_visit visited, depth_of_visit otherVisited, plannedCalls, plannedCalls, planned,
    abreast.depth]

/-- Sessions that are abreast stay so by visits that are akin. -/
theorem Abreast.visit (abreast : Abreast first second) {visit other : Visit}
    (akin : visit.Akin other) (visited : first.visit visit = (.ok (), firstNext))
    (otherVisited : second.visit other = (.ok (), secondNext)) :
    Abreast firstNext secondNext := by
  refine ⟨?_, ?_, ?_⟩
  · rw [setting_of_visit visited, setting_of_visit otherVisited, abreast.setting]
  · rw [situation_of_visit visited, situation_of_visit otherVisited, abreast.situation,
      after_of_akin _ akin]
  · cases akin with
    | enter content =>
      -- The plans may differ here, by a line that is left open, but not in the depth.
      rw [depth_enter visited, depth_enter otherVisited, abreast.opensBlock content,
        abreast.depth]
    | enterRoot program other =>
      exact abreast.depth_of_matching ⟨.enterRoot program other, rfl⟩ visited otherVisited
    | exitRoot program other =>
      exact abreast.depth_of_matching ⟨.exitRoot program other, rfl⟩ visited otherVisited
    | exit content => exact abreast.depth_of_matching ⟨.exit content, rfl⟩ visited otherVisited

/-- Visits that are akin have plans alike. -/
theorem failure?_plan_of_akin (session : Session) {visit other : Visit}
    (akin : visit.Akin other) :
    failure? (session.plan visit) = failure? (session.plan other) := by
  cases akin with
  | enterRoot | exitRoot => rfl
  | exit => rfl
  | @enter node other content =>
    simp only [Session.plan, enterNode, content]
    cases other.content with
    | assignment assignment => rw [failure?_enterAssignment, failure?_enterAssignment]
    | package | importBlock | importPath | classBody | function | accessBlock | staticBlock | print
    | returnStatement | ifBranch | elseIfBranch | elseBranch | call | chain => rfl

/-- Sessions that are abreast stay so along visits that are akin. -/
theorem Abreast.run (abreast : Abreast first second) {visits others : List Visit}
    (akin : List.Forall₂ Visit.Akin visits others)
    (ran : listener.run visits first = (.ok (), firstNext))
    (otherRan : listener.run others second = (.ok (), secondNext)) :
    Abreast firstNext secondNext := by
  induction akin generalizing first second with
  | nil =>
    cases ran
    cases otherRan
    exact abreast
  | cons akinFirst rest inductionHypothesis =>
    obtain ⟨middle, visited, ran⟩ := listener.run_cons_ok_iff.mp ran
    obtain ⟨otherMiddle, otherVisited, otherRan⟩ := listener.run_cons_ok_iff.mp otherRan
    rw [call_listener] at visited otherVisited
    exact inductionHypothesis (abreast.visit akinFirst visited otherVisited) ran otherRan

/-- Where the sink has no limit, visits succeed if visits that are akin do so on a session
abreast. -/
theorem Abreast.exists_run (abreast : Abreast first second)
    (unlimited : first.emitter.sink.limit = none) {visits others : List Visit}
    (akin : List.Forall₂ Visit.Akin visits others)
    (ran : listener.run visits first = (.ok (), firstNext)) :
    ∃ secondNext, listener.run others second = (.ok (), secondNext) := by
  induction akin generalizing first second with
  | nil => exact ⟨second, rfl⟩
  | @cons visit other _ _ akinFirst rest inductionHypothesis =>
    obtain ⟨middle, visited, ran⟩ := listener.run_cons_ok_iff.mp ran
    rw [call_listener] at visited
    have limits : first.emitter.sink.limit = second.emitter.sink.limit :=
      congrArg Prod.snd abreast.setting
    have same : failure? (second.visit other).1 = failure? (first.visit visit).1 := by
      rw [failure?_visit (limits.symm.trans unlimited), failure?_visit unlimited,
        abreast.plan visit, second.failure?_plan_of_akin akinFirst]
    rw [visited] at same
    have otherVisited : second.visit other = (.ok (), (second.visit other).2) :=
      Prod.ext (eq_of_failure?_eq same) rfl
    have limitKept : middle.emitter.sink.limit = first.emitter.sink.limit :=
      congrArg Prod.snd (setting_of_visit visited)
    obtain ⟨secondNext, otherRan⟩ := inductionHypothesis
      (abreast.visit akinFirst visited otherVisited) (limitKept.trans unlimited) ran
    refine ⟨secondNext, listener.run_cons_ok_iff.mpr ⟨_, ?_, otherRan⟩⟩
    rw [call_listener, otherVisited]

/-- Sessions that differ at most in what their sinks hold and in what was reported. -/
structure Even (first second : Session) : Prop where
  setting : first.setting = second.setting
  situation : first.situation = second.situation
  stance : first.emitter.stance = second.emitter.stance

/-- Even sessions are abreast. -/
theorem Even.abreast (even : Even first second) : Abreast first second :=
  ⟨even.setting, even.situation, congrArg (·.2.1) even.stance⟩

/-- Where the sink has no limit, a visit that succeeds does so on an even session, writes the
same there and keeps the sessions even. -/
theorem Even.visit (even : Even first second) (unlimited : first.emitter.sink.limit = none)
    {visit : Visit} (visited : first.visit visit = (.ok (), firstNext)) :
    ∃ secondNext, second.visit visit = (.ok (), secondNext) ∧ Even firstNext secondNext ∧
      Emission.texts (first.emissions visit) = Emission.texts (second.emissions visit) := by
  have limits : first.emitter.sink.limit = second.emitter.sink.limit :=
    congrArg Prod.snd even.setting
  have unlimitedOther := limits.symm.trans unlimited
  have planned := even.abreast.plan visit
  have calls : first.plannedCalls visit = second.plannedCalls visit := by
    rw [plannedCalls, plannedCalls, planned]
  have otherVisited : second.visit visit = (.ok (), (second.visit visit).2) := by
    refine Prod.ext (eq_of_failure?_eq ?_) rfl
    have succeeds := first.failure?_visit unlimited visit
    rw [visited] at succeeds
    rw [failure?_visit unlimitedOther, ← planned, ← succeeds]
  obtain ⟨reached, emitted⟩ := emitter_of_visit unlimited visited
  obtain ⟨otherReached, otherEmitted⟩ := emitter_of_visit unlimitedOther otherVisited
  refine ⟨_, otherVisited, ⟨?_, ?_, ?_⟩, ?_⟩
  · rw [setting_of_visit visited, setting_of_visit otherVisited, even.setting]
  · rw [situation_of_visit visited, situation_of_visit otherVisited, even.situation]
  · rw [reached, otherReached, calls, Emitter.stance_after even.stance]
  · rw [emitted, otherEmitted, calls,
      Emitter.texts_of_stance even.stance unlimited unlimitedOther]

/-- Where the sink has no limit, visits that succeed do so on an even session, and write the
same there. -/
theorem Even.run (even : Even first second) (unlimited : first.emitter.sink.limit = none)
    {visits : List Visit} (ran : listener.run visits first = (.ok (), firstNext)) :
    (∃ secondNext, listener.run visits second = (.ok (), secondNext)) ∧
      first.textsAlong visits = second.textsAlong visits := by
  induction visits generalizing first second with
  | nil => exact ⟨⟨second, rfl⟩, rfl⟩
  | cons visit rest inductionHypothesis =>
    obtain ⟨middle, visited, ran⟩ := listener.run_cons_ok_iff.mp ran
    rw [call_listener] at visited
    obtain ⟨otherMiddle, otherVisited, evenNext, texts⟩ := even.visit unlimited visited
    have limitKept : middle.emitter.sink.limit = first.emitter.sink.limit :=
      congrArg Prod.snd (setting_of_visit visited)
    obtain ⟨⟨secondNext, otherRan⟩, written⟩ := inductionHypothesis evenNext
      (limitKept.trans unlimited) ran
    refine ⟨⟨secondNext, listener.run_cons_ok_iff.mpr ⟨otherMiddle, ?_, otherRan⟩⟩, ?_⟩
    · rw [call_listener, otherVisited]
    · rw [textsAlong_cons visited, textsAlong_cons otherVisited, texts, written]

end Session

end Treescribe
