import Treescribe.CommandLine.Run
import Treescribe.Proofs.Session.Agreement

/-!
# Files that a run leaves

A run creates its output file once the program is read and before it is transcribed. Hence a
message that holds no program leaves every file as it was, and a transcription that fails
leaves the text from before the visit that failed. No other place in the file tree changes.
-/

namespace Treescribe

namespace FileTree

/-- The text of the file at a place, if there is one. -/
def textAt? (tree : FileTree) (place : List FileName) : Option String :=
  tree.files.lookup place

/-- Trees that differ at most in the file at one place. -/
structure SameBut (place : List FileName) (before after : FileTree) : Prop where
  directories : after.directories = before.directories
  working : after.working = before.working
  elsewhere : ∀ other, other ≠ place → after.textAt? other = before.textAt? other

/-- A stored file has the text that was stored. -/
theorem textAt?_store (tree : FileTree) (place : List FileName) (text : String) :
    (tree.store place text).textAt? place = some text := by
  simp [store, textAt?]

/-- Taking the entries of one place out of a list leaves those of another to be found. -/
theorem lookup_filter_of_ne {place other : List FileName} (different : other ≠ place)
    (files : List (List FileName × String)) :
    (files.filter (·.1 != place)).lookup other = files.lookup other := by
  induction files with
  | nil => rfl
  | cons file rest inductionHypothesis =>
    obtain ⟨name, text⟩ := file
    by_cases stored : name = place
    · subst stored
      have apart : (other == name) = false := beq_false_of_ne different
      simp [List.lookup_cons, inductionHypothesis, apart]
    · simp [List.lookup_cons, stored, inductionHypothesis]

/-- Storing a file changes nothing elsewhere. -/
theorem sameBut_store (tree : FileTree) (place : List FileName) (text : String) :
    SameBut place tree (tree.store place text) where
  directories := rfl
  working := rfl
  elsewhere other different := by
    rw [textAt?, textAt?, store, List.lookup_cons, beq_false_of_ne different]
    exact lookup_filter_of_ne different tree.files

end FileTree

/-- Where the sink has no limit, a visit that fails leaves the session as it was. -/
theorem Session.eq_of_visit_error {session final : Session} {visit : Visit}
    {error : TranscriptError} (unlimited : session.emitter.sink.limit = none)
    (failed : session.visit visit = (.error error, final)) : final = session := by
  unfold Session.visit at failed
  split at failed
  · exact (Prod.mk.inj failed).2.symm
  · rename_i actions _
    obtain ⟨reached, ran, -⟩ := run_of_unlimited unlimited actions
    rw [ran] at failed
    cases failed

/-- A transcription whose text is what was written before one of its visits, which failed. -/
structure Transcript.StoppedAt (transcript : Transcript) (start : Session) (visits : List Visit)
    (error : TranscriptError) : Prop where
  result : transcript.result = .error error
  place : ∃ before visit after session, visits = before ++ visit :: after ∧
    Session.listener.run before start = (.ok (), session) ∧
    (session.visit visit).1 = .error error ∧
    transcript.text = session.emitter.sink.text

/-- Where the sink has no limit, a transcription that fails has written what its visits write
before the one that fails. -/
theorem Program.stoppedAt_of_error {program : Program} {options : Options} {held : String}
    {error : TranscriptError}
    (failed : (program.transcribe options { text := held }).result = .error error) :
    (program.transcribe options { text := held }).StoppedAt
      (Session.start options { text := held }) program.visits error := by
  refine ⟨failed, ?_⟩
  rw [transcribe_result] at failed
  rw [Transcript.text, transcribe_session]
  rcases Session.listener.run_cases program.visits (Session.start options { text := held }) with
    ⟨final, passed, -⟩ |
    ⟨before, visit, after, session, reported, final, place, passed, stopped, ran, -⟩
  · rw [passed] at failed
    cases failed
  · have unlimited : session.emitter.sink.limit = none :=
      congrArg Prod.snd (Session.setting_of_run passed)
    rw [Session.call_listener] at stopped
    have unchanged := Session.eq_of_visit_error unlimited stopped
    rw [ran] at failed ⊢
    cases failed
    exact ⟨before, visit, after, session, place, passed, by rw [stopped], by rw [unchanged]⟩

namespace CommandLine

/-- What a run leaves of a file tree that puts the text of a program in its place: the file there
holds the whole text, or the text from before the visit that failed, and the exit code tells
which. Nothing else has changed. -/
structure Delivered (program : Program) (options : Options) (place : List FileName)
    (before : FileTree) (exitCode : Nat) (after : FileTree) : Prop where
  elsewhere : FileTree.SameBut place before after
  text : after.textAt? place = some (program.transcribe options {}).text
  ending : (program.toText options = .ok (program.transcribe options {}).text ∧ exitCode = 0) ∨
    ∃ error, (program.transcribe options {}).StoppedAt (Session.start options {}) program.visits
      error ∧ exitCode = failureCode

/-- A message without a program changes no file, and the run fails. -/
theorem within_of_unread {input : List UInt8} {error : ReadError}
    (unread : Message.read input = .error error) (file : Path) (layout : Layout)
    (tree : FileTree) : (transcribeRun file layout input).within tree = (failureCode, tree) := by
  simp only [transcribeRun, unread]
  rfl

/-- The text of a program is put into the output file, if that can be created. -/
theorem within_of_program {input : List UInt8} {program : Program} {notices : List Notice}
    (found : Message.read input = .ok (program, notices)) (file : Path) (layout : Layout)
    (tree : FileTree) :
    (transcribeRun file layout input).within tree =
      match tree.creates? (outputPath file) with
      | none => (failureCode, tree)
      | some place =>
        (if (program.transcribe ⟨layout, true⟩ {}).result.isOk then 0 else failureCode,
          tree.store place (program.transcribe ⟨layout, true⟩ {}).text) := by
  simp only [transcribeRun, found]
  generalize outputPath file = path
  cases (program.transcribe ⟨layout, true⟩ {}).result <;>
    simp only [Run.within] <;> cases tree.creates? path <;> rfl

/-- A program whose output file can be created is delivered there. -/
theorem delivered_of_program {input : List UInt8} {program : Program} {notices : List Notice}
    (found : Message.read input = .ok (program, notices)) {file : Path} {tree : FileTree}
    {place : List FileName} (creates : tree.creates? (outputPath file) = some place)
    (layout : Layout) :
    Delivered program ⟨layout, true⟩ place tree
      ((transcribeRun file layout input).within tree).1
      ((transcribeRun file layout input).within tree).2 := by
  rw [within_of_program found, creates]
  refine ⟨tree.sameBut_store place _, tree.textAt?_store place _, ?_⟩
  cases ended : (program.transcribe ⟨layout, true⟩ {}).result with
  | ok => exact .inl ⟨by rw [Program.toText, ended]; rfl, rfl⟩
  | error error => exact .inr ⟨error, Program.stoppedAt_of_error ended, rfl⟩

/-- A run that is asked for no file changes none and succeeds. One that is asked for a file fails
and changes none if the message cannot be decoded, if its rows make no program, or if the output
file cannot be created. Otherwise the program is delivered to the output file, with the preamble
and in the layout that was asked for. -/
theorem files_after_run (source : Option Path) (layout : Layout) (input : List UInt8)
    (tree : FileTree) :
    (∀ arguments, read arguments = .ok (.transcribe source layout) →
      run arguments input = (Request.transcribe source layout).run input) ∧
    (source = none →
      ((Request.transcribe source layout).run input).within tree = (0, tree)) ∧
    ∀ file, source = some file →
      (Message.decode? input = none →
        ((Request.transcribe source layout).run input).within tree = (failureCode, tree)) ∧
      ∀ message, Message.decode? input = some message →
        (∀ error, Table.program message.rows = .error error →
          ((Request.transcribe source layout).run input).within tree = (failureCode, tree)) ∧
        ∀ program, Table.program message.rows = .ok program →
          (tree.creates? (outputPath file) = none →
            ((Request.transcribe source layout).run input).within tree = (failureCode, tree)) ∧
          ∀ place, tree.creates? (outputPath file) = some place →
            Delivered program ⟨layout, true⟩ place tree
              (((Request.transcribe source layout).run input).within tree).1
              (((Request.transcribe source layout).run input).within tree).2 := by
  refine ⟨?_, ?_, ?_⟩
  · intro arguments asked
    rw [run, asked]
  · rintro rfl
    rfl
  · rintro file rfl
    have runs : (Request.transcribe (some file) layout).run input =
        transcribeRun file layout input := rfl
    rw [runs]
    refine ⟨fun undecoded => ?_, fun message decoded => ⟨fun error refused => ?_,
      fun program accepted => ?_⟩⟩
    · have unread : Message.read input = .error .malformed := by
        simp only [Message.read, undecoded]
      exact within_of_unread unread file layout tree
    · have unread : Message.read input = .error (.table error) := by
        simp only [Message.read, decoded, refused]
      exact within_of_unread unread file layout tree
    · have found : Message.read input = .ok (program, Table.notices message.rows program) := by
        simp only [Message.read, decoded, accepted]
      refine ⟨fun blocked => ?_, fun place creates => delivered_of_program found creates layout⟩
      rw [within_of_program found, blocked]

/-- A message whose program has an unknown type in a class. -/
def untypedInput : List UInt8 :=
  ("\x7b\"nodes\":[[1,0,\"program\"],[2,1,\"normalClass\",[\"A\"]]," ++
    "[3,2,\"assignment\",[\"x\"],\"T\"]]\x7d").toUTF8.toList

/-- The program of that message. -/
def untypedProgram : Program :=
  ⟨1, [⟨2, .classBody "A", [⟨3, .assignment ⟨"x", some "T", none⟩, []⟩]⟩]⟩

/-- The place of the output file. -/
def outdatedPlace : List FileName :=
  [[0x77], [0x64], [0x61, 0x2E, 0x63, 0x73]]

/-- A tree in which the output file is there already. -/
def outdatedTree : FileTree :=
  { directories := [[[0x77]], [[0x77], [0x64]]]
    files := [(outdatedPlace, "old")]
    working := [[0x77]] }

/-- The output file is replaced by the text from before the unknown type. -/
theorem files_after_run_untyped :
    read ["-pf", "d/a.n"] = .ok (.transcribe (some (.ofText "d/a.n")) .pretty) ∧
    outdatedTree.creates? (outputPath (.ofText "d/a.n")) = some outdatedPlace ∧
    Delivered untypedProgram ⟨.pretty, true⟩ outdatedPlace outdatedTree
      ((run ["-pf", "d/a.n"] untypedInput).within outdatedTree).1
      ((run ["-pf", "d/a.n"] untypedInput).within outdatedTree).2 ∧
    ((run ["-pf", "d/a.n"] untypedInput).within outdatedTree).2.textAt? outdatedPlace =
      some "using System;\nusing System.Collections.Generic;\n\nclass A \x7b\n" := by
  have asked : read ["-pf", "d/a.n"] = .ok (.transcribe (some (.ofText "d/a.n")) .pretty) := by
    decide +kernel
  have creates : outdatedTree.creates? (outputPath (.ofText "d/a.n")) = some outdatedPlace := by
    decide +kernel
  have decoded : Message.decode? untypedInput = some ⟨[{ id := 1, kind := "program" },
      { id := 2, parent := 1, kind := "normalClass", names := ["A"] },
      { id := 3, parent := 2, kind := "assignment", names := ["x"], type := some "T" }]⟩ := by
    decide +kernel
  obtain ⟨runs, -, files⟩ :=
    files_after_run (some (.ofText "d/a.n")) .pretty untypedInput outdatedTree
  have readable := (files _ rfl).2 _ decoded
  have delivered := (readable.2 untypedProgram rfl).2 _ creates
  rw [← runs _ asked] at delivered
  have text : (untypedProgram.transcribe ⟨.pretty, true⟩ {}).text =
      "using System;\nusing System.Collections.Generic;\n\nclass A \x7b\n" := by decide +kernel
  exact ⟨asked, creates, delivered, delivered.text.trans (congrArg some text)⟩

end CommandLine

end Treescribe
