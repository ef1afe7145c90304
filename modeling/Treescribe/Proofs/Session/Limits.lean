import Treescribe.Proofs.Session.Emissions

/-!
# Sinks with a limit

What a session plans depends on nothing that its sink holds. A transcription into a sink
with a limit therefore goes on like one without until a text does not fit: it pours the
texts which are written without a limit into the sink, one by one, and stops at the first
that is refused. What a sink holds stays there, however a transcription ends.
-/

namespace Treescribe

/-- The text that a call adds to a sink which takes it. Only a write adds one. -/
def Emission.text? (emission : Emission) : Option String :=
  match emission.call with
  | .write text newlines terminated => some (emission.emitter.laidOut text newlines terminated)
  | .indent | .dedent => none

/-- The texts that calls add to a sink which takes them all. -/
def Emission.texts (emissions : List Emission) : List String :=
  emissions.filterMap Emission.text?

namespace Sink

/-- Appends texts one after another, up to the first that is refused. -/
def fill (sink : Sink) : List String → Except SinkError Unit × Sink
  | [] => (.ok (), sink)
  | text :: rest =>
    match sink.append text with
    | .ok grown => grown.fill rest
    | .error refusal => (.error refusal, sink)

/-- Texts that follow others are appended to what those leave, unless one of those is
refused. -/
theorem fill_append (sink : Sink) (first second : List String) :
    sink.fill (first ++ second) =
      match sink.fill first with
      | (.ok (), filled) => filled.fill second
      | (.error refusal, filled) => (.error refusal, filled) := by
  induction first generalizing sink with
  | nil => rfl
  | cons text rest inductionHypothesis =>
    simp only [List.cons_append, fill]
    cases sink.append text with
    | ok grown => exact inductionHypothesis grown
    | error refusal => rfl

/-- A sink that takes texts holds them behind what it held before. -/
theorem text_of_fill {sink filled : Sink} {texts : List String}
    (taken : sink.fill texts = (.ok (), filled)) :
    filled.text = sink.text ++ String.join texts := by
  induction texts generalizing sink with
  | nil =>
    cases taken
    simp
  | cons text rest inductionHypothesis =>
    rw [fill] at taken
    cases first : sink.append text with
    | error refusal =>
      rw [first] at taken
      cases taken
    | ok grown =>
      rw [first] at taken
      rw [inductionHypothesis taken, append_eq_ok first, String.join_cons, String.append_assoc]

/-- A sink without a limit takes all texts. -/
theorem fill_of_unlimited (held : String) (texts : List String) :
    fill { text := held } texts = (.ok (), { text := held ++ String.join texts }) := by
  induction texts generalizing held with
  | nil => simp [fill]
  | cons text rest inductionHypothesis =>
    simp only [fill, append, inductionHypothesis, String.join_cons, String.append_assoc]

/-- A sink with a limit takes all texts if they fit, and otherwise those before the first
that would exceed the limit. -/
theorem fill_cases {limit : Nat} {held : String} (fits : held.utf8ByteSize ≤ limit)
    (texts : List String) :
    (fill ⟨some limit, held⟩ texts = (.ok (), ⟨some limit, held ++ String.join texts⟩) ∧
      (held ++ String.join texts).utf8ByteSize ≤ limit) ∨
    ∃ before overflowing after, texts = before ++ overflowing :: after ∧
      fill ⟨some limit, held⟩ texts =
        (.error .full, ⟨some limit, held ++ String.join before⟩) ∧
      (held ++ String.join before).utf8ByteSize ≤ limit ∧
      limit < (held ++ String.join (before ++ [overflowing])).utf8ByteSize := by
  induction texts generalizing held with
  | nil => exact .inl (by simpa [fill] using fits)
  | cons text rest inductionHypothesis =>
    by_cases room : held.utf8ByteSize + text.utf8ByteSize ≤ limit
    · have goesOn : fill ⟨some limit, held⟩ (text :: rest) =
          fill ⟨some limit, held ++ text⟩ rest := by
        simp [fill, append, room]
      have still : (held ++ text).utf8ByteSize ≤ limit := by
        rwa [String.utf8ByteSize_append]
      have join : ∀ others, held ++ String.join (text :: others) =
          held ++ text ++ String.join others := by
        intro others
        rw [String.join_cons, String.append_assoc]
      rw [goesOn, join]
      rcases inductionHypothesis still with fit |
        ⟨before, overflowing, after, place, filled, within, beyond⟩
      · exact .inl fit
      · refine .inr ⟨text :: before, overflowing, after, by rw [place]; rfl, ?_, ?_, ?_⟩
        · rw [join, filled]
        · rwa [join]
        · rwa [List.cons_append, join]
    · refine .inr ⟨[], text, rest, rfl, ?_, ?_, ?_⟩
      · simp [fill, append, room]
      · simpa using fits
      · rw [List.nil_append, String.join_cons, String.join_nil, String.append_empty,
          String.utf8ByteSize_append]
        omega

end Sink

/-- Whatever a call adds, it adds behind the text. -/
theorem Emitter.text_prefix_next (emitter : Emitter) (call : Call) :
    emitter.sink.text.toList <+: (emitter.next call).sink.text.toList := by
  cases call with
  | write text newlines terminated =>
    rw [next_write]
    cases taken : emitter.sink.append (emitter.laidOut text newlines terminated) with
    | error refusal => exact List.prefix_rfl
    | ok sink =>
      have grown := Sink.append_eq_ok taken
      rw [grown]
      exact ⟨_, String.toList_append.symm⟩
  | indent | dedent => exact List.prefix_rfl

namespace Session

/-- The session, going on with another sink. -/
def into (session : Session) (sink : Sink) : Session :=
  { session with emitter := { session.emitter with sink } }

/-- How a part of a run ends, and the session it leaves. -/
abbrev Outcome := Except TranscriptError Unit × Session

/-- A part of a run, and what is done behind it unless it fails. -/
def Outcome.andThen (outcome : Outcome) (others : Session → Outcome) : Outcome :=
  match outcome with
  | (.ok (), session) => others session
  | (.error error, session) => (.error error, session)

/-- Actions are carried out behind the first one, unless it fails. -/
theorem run_cons (session : Session) (action : Action) (rest : List Action) :
    session.run (action :: rest) = Outcome.andThen (session.act action) (·.run rest) := rfl

/-- Visits are made behind the first one, unless it fails. -/
theorem run_visit_cons (session : Session) (visit : Visit) (rest : List Visit) :
    listener.run (visit :: rest) session =
      Outcome.andThen (session.visit visit) (listener.run rest) := by
  rw [Listener.run, call_listener]
  rcases session.visit visit with ⟨_ | ⟨⟩, next⟩ <;> rfl

/-- What becomes of a part of a run that writes some texts if its session goes on with
another sink: it ends as before if the sink takes all of them, and otherwise with its
refusal. The sink then holds what it took. -/
def Pours (sink : Sink) (texts : List String) (free poured : Outcome) : Prop :=
  match sink.fill texts with
  | (.ok (), filled) => poured = (free.1, free.2.into filled)
  | (.error refusal, filled) =>
    poured.1 = .error (.sink refusal) ∧ poured.2.emitter.sink = filled

/-- Parts of a run after each other pour their texts one after another; behind a part that
fails there is no text. -/
theorem Pours.andThen {sink : Sink} {first second : List String} {free poured : Outcome}
    {others : Session → Outcome} (before : Pours sink first free poured)
    (behind : ∀ middle, free = (.ok (), middle) → ∀ filled,
      Pours filled second (others middle) (others (middle.into filled)))
    (stopped : ∀ error final, free = (.error error, final) → second = []) :
    Pours sink (first ++ second) (free.andThen others) (poured.andThen others) := by
  unfold Pours at before ⊢
  rw [Sink.fill_append]
  rcases answer : sink.fill first with ⟨refusal | ⟨⟩, filled⟩ <;> rw [answer] at before
  · obtain ⟨refused, held⟩ := before
    obtain ⟨result, session⟩ := poured
    cases refused
    exact ⟨rfl, held⟩
  · dsimp only at before ⊢
    rw [before]
    obtain ⟨error | ⟨⟩, middle⟩ := free
    · rw [stopped error middle rfl]
      rfl
    · exact behind middle rfl filled

/-- A write on another sink succeeds if that sink takes the text as it is laid out. -/
theorem act_write_into {session : Session} (unlimited : session.emitter.sink.limit = none)
    (sink : Sink) (text : String) (newlines : Nat) (terminated : Bool) :
    Pours sink [session.emitter.laidOut text newlines terminated]
      (session.act (.emit (.write text newlines terminated)))
      ((session.into sink).act (.emit (.write text newlines terminated))) := by
  have free : session.act (.emit (.write text newlines terminated)) =
      (.ok (), { session with
        emitter := session.emitter.next (.write text newlines terminated) }) := by
    simp only [act, Emitter.perform_of_unlimited unlimited]
  have laidOut : (session.into sink).emitter.laidOut text newlines terminated =
      session.emitter.laidOut text newlines terminated := rfl
  have held : (session.into sink).emitter.sink = sink := rfl
  rw [free, Emitter.next_write]
  simp only [Pours, Sink.fill, act, Emitter.perform, Emitter.write, laidOut, held]
  cases sink.append (session.emitter.laidOut text newlines terminated) with
  | ok grown => rfl
  | error refusal => exact ⟨rfl, rfl⟩

/-- An action pours the text of its call, if it is a write. -/
theorem act_into {session : Session} (unlimited : session.emitter.sink.limit = none)
    (sink : Sink) (action : Action) :
    Pours sink (Emission.texts (action.call?.map (Emission.mk session.emitter)).toList)
      (session.act action) ((session.into sink).act action) := by
  cases action with
  | emit call =>
    cases call with
    | write text newlines terminated => exact act_write_into unlimited sink ..
    | indent | dedent => rfl
  | enterScope | leaveScope | declare | register | setAccess | setStatic | openPackage | note =>
    rfl

/-- Actions pour the texts of their calls. -/
theorem run_into {session : Session} (unlimited : session.emitter.sink.limit = none)
    (sink : Sink) (actions : List Action) :
    Pours sink (Emission.texts (session.emissionsOf actions)) (session.run actions)
      ((session.into sink).run actions) := by
  induction actions generalizing session sink with
  | nil => rfl
  | cons action rest inductionHypothesis =>
    have succeeds := act_of_unlimited unlimited action
    have unlimitedNext : (session.act action).2.emitter.sink.limit = none := by
      have kept := congrArg Prod.snd (session.act_setting action)
      exact kept.trans unlimited
    rw [run_cons, run_cons, emissionsOf, Emission.texts, List.filterMap_append]
    refine (act_into unlimited sink action).andThen ?_ ?_
    · rintro middle answer filled
      rw [answer] at unlimitedNext ⊢
      exact inductionHypothesis unlimitedNext filled
    · rintro error final answer
      rw [succeeds] at answer
      cases answer

/-- A visit pours the texts of its calls. -/
theorem visit_into {session : Session} (unlimited : session.emitter.sink.limit = none)
    (sink : Sink) (visit : Visit) :
    Pours sink (Emission.texts (session.emissions visit)) (session.visit visit)
      ((session.into sink).visit visit) := by
  have planned : (session.into sink).plan visit = session.plan visit := rfl
  unfold Session.visit emissions
  rw [planned]
  cases session.plan visit with
  | error unknown => rfl
  | ok actions => exact run_into unlimited sink actions

/-- Visits pour the texts of their calls, one after another. -/
theorem visits_into {session : Session} (unlimited : session.emitter.sink.limit = none)
    (sink : Sink) (visits : List Visit) :
    Pours sink (Emission.texts (session.emissionsAlong visits)) (listener.run visits session)
      (listener.run visits (session.into sink)) := by
  induction visits generalizing session sink with
  | nil => rfl
  | cons visit rest inductionHypothesis =>
    have unlimitedNext : (session.visit visit).2.emitter.sink.limit = none := by
      have kept := congrArg Prod.snd (session.visit_setting visit)
      exact kept.trans unlimited
    rw [run_visit_cons, run_visit_cons, emissionsAlong, Listener.trace, call_listener,
      List.flatMap_cons, Emission.texts, List.filterMap_append]
    refine (visit_into unlimited sink visit).andThen ?_ ?_
    · rintro middle answer filled
      rw [answer] at unlimitedNext ⊢
      exact inductionHypothesis unlimitedNext filled
    · rintro error final answer
      rw [answer]
      rfl

/-- Between two sessions the text only grows: what the sink holds at the first, at each of
some calls, and at the last is continued by what it holds later. -/
def Grows (before : Session) (emissions : List Emission) (after : Session) : Prop :=
  (before.emitter.sink.text.toList :: (emissions.map (·.emitter.sink.text.toList) ++
    [after.emitter.sink.text.toList])).Pairwise (· <+: ·)

/-- The text grows through a part of a run and what is done behind it. -/
theorem Grows.andThen {before : Session} {first second : List Emission} {outcome : Outcome}
    {others : Session → Outcome} (begun : Grows before first outcome.2)
    (behind : ∀ middle, outcome = (.ok (), middle) → Grows middle second (others middle).2)
    (stopped : ∀ error final, outcome = (.error error, final) → second = []) :
    Grows before (first ++ second) (outcome.andThen others).2 := by
  obtain ⟨error | ⟨⟩, middle⟩ := outcome
  · rw [stopped error middle rfl, List.append_nil]
    exact begun
  · have later := behind middle rfl
    unfold Grows at begun later ⊢
    rw [List.map_append, List.append_assoc, ← List.cons_append]
    rw [← List.cons_append, List.pairwise_append] at begun
    obtain ⟨ordered, -, reached⟩ := begun
    refine List.pairwise_append.mpr ⟨ordered, (List.pairwise_cons.mp later).2, ?_⟩
    -- What both parts hold is compared through the session between them.
    intro earlier member held after
    exact (reached earlier member _ (by simp)).trans ((List.pairwise_cons.mp later).1 held after)

/-- The text grows by an action, whether or not it succeeds. -/
theorem act_grows (session : Session) (action : Action) :
    Grows session (action.call?.map (Emission.mk session.emitter)).toList
      (session.act action).2 := by
  have stepped := session.act_emitter action
  unfold Grows
  rw [stepped]
  cases action.call? with
  | none => simp
  | some call => simp [session.emitter.text_prefix_next call]

/-- The text grows by actions. -/
theorem run_grows (session : Session) (actions : List Action) :
    Grows session (session.emissionsOf actions) (session.run actions).2 := by
  induction actions generalizing session with
  | nil => simp [Grows, emissionsOf, run]
  | cons action rest inductionHypothesis =>
    rw [run_cons, emissionsOf]
    refine (act_grows session action).andThen ?_ ?_
    · rintro middle answer
      rw [answer]
      exact inductionHypothesis middle
    · rintro error final answer
      rw [answer]

/-- The text grows by a visit. -/
theorem visit_grows (session : Session) (visit : Visit) :
    Grows session (session.emissions visit) (session.visit visit).2 := by
  unfold Session.visit emissions
  cases session.plan visit with
  | error unknown => simp [Grows]
  | ok actions => exact run_grows session actions

/-- The text grows by visits. -/
theorem visits_grow (session : Session) (visits : List Visit) :
    Grows session (session.emissionsAlong visits) (listener.run visits session).2 := by
  induction visits generalizing session with
  | nil => simp [Grows, emissionsAlong, Listener.trace, Listener.run]
  | cons visit rest inductionHypothesis =>
    rw [run_visit_cons, emissionsAlong, Listener.trace, call_listener, List.flatMap_cons]
    refine (visit_grows session visit).andThen ?_ ?_
    · rintro middle answer
      rw [answer]
      exact inductionHypothesis middle
    · rintro error final answer
      rw [answer]
      rfl

end Session

namespace Program

/-- The texts that a transcription writes into an empty sink without a limit, in order. -/
def writes (program : Program) (options : Options) : List String :=
  Emission.texts (program.emissions options {})

/-- A transcription into an empty sink with or without a limit pours the texts that it writes
without one. -/
theorem transcribe_pours (program : Program) (options : Options) (limit : Option Nat) :
    Session.Pours { limit } (program.writes options)
      ((program.transcribe options {}).result, (program.transcribe options {}).session)
      ((program.transcribe options { limit }).result,
        (program.transcribe options { limit }).session) := by
  have unlimited : (Session.start options {}).emitter.sink.limit = none := rfl
  have poured := Session.visits_into unlimited { limit } program.visits
  rw [writes, emissions, Listener.calls_eq_trace, transcribe_eq_walk, transcribe_eq_walk,
    Listener.walk_eq_run, Listener.walk_eq_run]
  exact poured

/-- What a transcription into an empty sink without a limit writes is its text. -/
theorem text_eq_join_writes (program : Program) (options : Options) :
    (program.transcribe options {}).text = String.join (program.writes options) := by
  have poured := program.transcribe_pours options none
  unfold Session.Pours at poured
  rw [Sink.fill_of_unlimited] at poured
  have held := congrArg (·.2.emitter.sink.text) poured
  rw [Transcript.text]
  simpa [Session.into] using held

/-- A transcription into an empty sink that succeeds does so without a limit, with the same
text. -/
theorem text_of_success {program : Program} {options : Options} {limit : Option Nat}
    (succeeds : (program.transcribe options { limit }).result = .ok ()) :
    (program.transcribe options {}).result = .ok () ∧
      (program.transcribe options { limit }).text = (program.transcribe options {}).text := by
  have poured := program.transcribe_pours options limit
  unfold Session.Pours at poured
  rcases answer : Sink.fill { limit } (program.writes options) with ⟨refusal | ⟨⟩, filled⟩ <;>
    rw [answer] at poured
  · have refused := poured.1.symm.trans succeeds
    cases refused
  · obtain ⟨ended, left⟩ := Prod.mk.inj poured
    refine ⟨ended.symm.trans succeeds, ?_⟩
    rw [text_eq_join_writes, Transcript.text, left]
    exact (Sink.text_of_fill answer).trans String.empty_append

/-- A transcription into a sink with a limit ends as one without, and with the same text, if
all of the text fits. Otherwise it fails, and the sink holds what is written without a limit
before the first text that would exceed the limit. What a sink holds, with or without a
limit, is never altered, however the transcription ends. -/
theorem limited_transcript (program : Program) (options : Options) (limit : Nat) :
    (program.transcribe options {}).text = String.join (program.writes options) ∧
    (((program.transcribe options { limit := some limit }).result =
          (program.transcribe options {}).result ∧
        (program.transcribe options { limit := some limit }).text =
          (program.transcribe options {}).text ∧
        (program.transcribe options {}).text.utf8ByteSize ≤ limit) ∨
      ∃ before overflowing after,
        program.writes options = before ++ overflowing :: after ∧
        (program.transcribe options { limit := some limit }).result = .error (.sink .full) ∧
        (program.transcribe options { limit := some limit }).text = String.join before ∧
        (String.join before).utf8ByteSize ≤ limit ∧
        limit < (String.join (before ++ [overflowing])).utf8ByteSize) ∧
    (program.transcribe options { limit := some limit }).text.toList <+:
      (program.transcribe options {}).text.toList ∧
    ∀ sink : Sink,
      ((program.emissions options sink).map (·.emitter.sink.text.toList) ++
        [(program.transcribe options sink).text.toList]).Pairwise (· <+: ·) := by
  have free := program.text_eq_join_writes options
  have poured := program.transcribe_pours options (some limit)
  unfold Session.Pours at poured
  have grows : ∀ sink : Sink,
      ((program.emissions options sink).map (·.emitter.sink.text.toList) ++
        [(program.transcribe options sink).text.toList]).Pairwise (· <+: ·) := by
    intro sink
    have grown := Session.visits_grow (Session.start options sink) program.visits
    rw [Transcript.text, transcribe_session, emissions, Listener.calls_eq_trace]
    exact (List.pairwise_cons.mp grown).2
  refine ⟨free, ?_⟩
  have room : ("" : String).utf8ByteSize ≤ limit := Nat.zero_le limit
  rcases Sink.fill_cases room (program.writes options) with ⟨filled, fits⟩ |
    ⟨before, overflowing, after, place, filled, within, beyond⟩
  · rw [filled] at poured
    obtain ⟨ended, left⟩ := Prod.mk.inj poured
    have text : (program.transcribe options { limit := some limit }).text =
        (program.transcribe options {}).text := by
      rw [Transcript.text, left, free]
      simp [Session.into]
    rw [String.empty_append, ← free] at fits
    exact ⟨.inl ⟨ended, text, fits⟩, by simp [text], grows⟩
  · rw [filled] at poured
    obtain ⟨refused, held⟩ := poured
    have text : (program.transcribe options { limit := some limit }).text =
        String.join before := by
      rw [Transcript.text, held, String.empty_append]
    rw [String.empty_append] at within beyond
    refine ⟨.inr ⟨before, overflowing, after, place, refused, text, within, beyond⟩, ?_, grows⟩
    rw [text, free, place, String.join_append, String.toList_append]
    exact List.prefix_append ..

end Program

end Treescribe
